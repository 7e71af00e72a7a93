import Paradown.Exclusive

namespace Paradown
set_option autoImplicit true

variable {id : Nat}

/-- The sections that announce the end of a run to the manager. -/
def Section.isOutcome : Section → Bool
  | .manager (.emit .complete) | .manager (.emit .error) | .manager (.emit .cancel) => true
  | _ => false

/-- The call is on its way to announce an end. -/
def concluding (code : Code) : Bool := code.any Section.isOutcome

/-- The statuses a run ends with. -/
def Status.isOutcome : Status → Bool
  | .completed | .canceled | .failed _ => true
  | _ => false

def World.status (w : World) (id : Nat) : Option Status := (w.tasks[id]?).map (·.status)

def World.isOver (w : World) (id : Nat) : Bool := (w.status id).any (·.isTerminal)

/-- The section of a call on the task that this action executes. -/
def World.sectionOn (w : World) (id : Nat) : Act → Option Section
  | .step i _ =>
    match w.next i with
    | some (t, s, _) => if t.task = id then some s else none
    | none => none
  | _ => none

/-- Between the `Start` event of a task and its next start: the ends that were announced, how often
the download was finalized, and whether one final status gave way to another. -/
structure RunLog where
  running : Bool := false
  announced : Nat := 0
  finalized : Nat := 0
  changed : Bool := false
  deriving DecidableEq, Repr

/-- A final status gives way to another one. -/
def World.changesEnd (w w' : World) (id : Nat) : Bool :=
  w.isOver id && w'.isOver id && w.status id != w'.status id

/-- The run begins with the `Start` event; it is over when the task is started again or deleted. -/
def RunLog.note (id : Nat) (log : RunLog) (w : World) (a : Act) (w' : World) : RunLog :=
  if w.sectionOn id a = some (.task (.setStatus .running)) then { running := true }
  else if w.passing id a ≠ none ∨ w.sectionOn id a = some (.task (.setStatus .deleted)) then {}
  else if log.running then
    { running := true
      announced := log.announced + ((w.sectionOn id a).any Section.isOutcome).toNat
      finalized := log.finalized + (w.sectionOn id a == some (.task .finalizeDownload)).toNat
      changed := log.changed || w.changesEnd w' id }
  else log

def runLog (id : Nat) (w : World) (as : List Act) : RunLog :=
  Transition.history World.step (RunLog.note id) {} w as

/-- How many ends of a run a section of call `r` begins to bring about. -/
def TaskSection.concludes (c : Choice) (t : TaskState) (r : Thread) : TaskSection → Nat
  | .cancelGate => t.status.mayCancel.toNat
  | .checkEach .canceledOrCompleted => r.snapshot.isEmpty.toNat
  | .finalizeDownload => 1
  | .ioOrFail =>
    match c with
    | .fail _ => 1
    | _ => 0
  | .persistWorker =>
    match c with
    | .fail _ =>
      (t.workers.any fun w =>
        (t.arena[w]?).map (·.lane) == (t.arena[r.worker]?).map (·.lane)).toNat
    | _ => 0
  | _ => 0

/-- The next message for the listener of the task is the error of a worker. -/
def TaskState.errorArrives (t : TaskState) : Bool :=
  match t.channel with
  | (_, .error _) :: _ => true
  | _ => false

/-- How many ends of the run of a task an action begins to bring about: the error of a worker arrives,
failed runs are joined, or a section of a call does so. -/
def World.concludes (w : World) (id : Nat) : Act → Nat
  | .listen j => if j = id then ((w.tasks[id]?).any (·.errorArrives)).toNat else 0
  | .join j batch => if j = id then ((w.batch id batch).filterMap (·.result)).length else 0
  | .engineEvent j event =>
    if j = id then
      match event with
      | .paused => 0
      | _ => 1
    else 0
  | .step i c =>
    match w.next i, w.tasks[id]? with
    | some (r, .task s, _), some t => if r.task = id then s.concludes c t r else 0
    | _, _ => 0
  | _ => 0

/-- The call has passed `prepare_for_start` and has not announced the start. -/
def launching (code : Code) : Bool :=
  reaches (fun s => !s.isStartGate)
    (fun s => s == .task .prepareDownload || s == .task (.setStatus .preparing) ||
      s == .task (.setStatus .running)) code

/-- The synchronisation of a finished file succeeds, or the task is over already. -/
def World.Syncs (w : World) (id : Nat) : Act → Prop
  | .step i c => c ≠ .ok → ∀ e ∈ w.next i, e.2.1 = .task .io → e.1.task = id →
      e.1.frame = .finalize → w.isOver id = true
  | _ => True

instance : Decidable (World.Syncs w id a) :=
  match a with
  | .step _ _ => inferInstanceAs (Decidable (_ → _))
  | .addTask _ | .call _ _ | .deliver | .lag | .listen _ | .listenerLag _ | .engineEvent _ _
  | .join _ _ => inferInstanceAs (Decidable True)

/-- An end of a run is brought about only while the task is not over and nobody else is at it, and
only one at a time. A start is announced only when no end is on its way, and passes
`prepare_for_start` only if no other start is on its way. The file is synchronised without an error,
and the torrent engine does not pause a task that is over. -/
structure OneOutcome (id : Nat) (w : World) (a : Act) : Prop where
  begins : 0 < w.concludes id a → w.isOver id = false ∧ w.concludes id a = 1 ∧
    ∀ j < w.threads.length, w.inStage concluding id j = false
  starts : w.sectionOn id a = some (.task (.setStatus .running)) →
    ∀ j < w.threads.length, w.inStage concluding id j = false
  alone : w.passing id a ≠ none → ∀ j < w.threads.length, w.inStage launching id j = false
  syncs : w.Syncs id a
  pauses : w.sectionOn id a = some (.task (.setStatus .paused)) → w.isOver id = false

instance : Decidable (OneOutcome id w a) :=
  decidable_of_iff
    ((0 < w.concludes id a → w.isOver id = false ∧ w.concludes id a = 1 ∧
        ∀ j < w.threads.length, w.inStage concluding id j = false) ∧
      (w.sectionOn id a = some (.task (.setStatus .running)) →
        ∀ j < w.threads.length, w.inStage concluding id j = false) ∧
      (w.passing id a ≠ none → ∀ j < w.threads.length, w.inStage launching id j = false) ∧
      w.Syncs id a ∧ (w.sectionOn id a = some (.task (.setStatus .paused)) → w.isOver id = false))
    ⟨fun h => ⟨h.1, h.2.1, h.2.2.1, h.2.2.2.1, h.2.2.2.2⟩,
      fun h => ⟨h.begins, h.starts, h.alone, h.syncs, h.pauses⟩⟩

theorem launching_gated : Gated Section.isStartGate launching where
  tail := fun s rest h hg => by
    rw [launching, reaches, hg, Bool.not_false, Bool.true_and, Bool.or_eq_false_iff] at h
    exact h.2
  effect := fun {t rest frame s status code frame'} h hp hg => by
    rw [launching, reaches, hg, Bool.not_false, Bool.true_and, Bool.or_eq_false_iff] at hp
    obtain ⟨hs, hr⟩ := hp
    cases h with
    | next | set => exact hr
    | stop _ hpre =>
      refine reaches_append_eq_false (fun m hm => ?_) hr
      obtain ⟨m, hmem, rfl⟩ := List.mem_map.1 hm
      have := List.all_eq_true.1 hpre m hmem
      cases m <;> first | rfl | cases this
    | check =>
      refine reaches_append_eq_false (fun m hm => ?_) hr
      cases List.mem_singleton.1 hm
      rfl
    | fail => cases frame <;> rfl
    | checked =>
      rename_i check
      cases check <;> rfl
    | finalize =>
      rename_i outcome
      rcases outcome with _ | ⟨⟨⟩⟩ <;> rfl
    | halt | deleteFailed | pause | cancel | persistFailed | resumeStart | resumeSession
    | resumeAgain | engineOver | engineRunning | recreate | reuse => rfl
    | reset => cases hg
    | prepared => cases hs
  transition := fun action => by cases action <;> rfl
  manager := fun sections => reaches_eq_false (by simp [inManager])
  run := fun sections => reaches_eq_false (by simp [inWorker])
  persist := rfl
  entry := fun t ht => by
    cases ht with
    | call call id => cases call <;> rfl
    | handler event id => cases event <;> rfl
    | listener event id worker => cases event <;> rfl
    | engine event id => cases event <;> rfl
    | joiner id runs =>
      refine reaches_eq_false fun s hs => ?_
      obtain ⟨err, _, hs⟩ := List.mem_flatMap.1 hs
      simp only [stopWorkersAndFailCode, inTask, inManager, List.map_cons, List.map_nil,
        List.cons_append, List.nil_append, List.mem_cons, List.not_mem_nil, or_false] at hs
      rcases hs with rfl | rfl | rfl | rfl | rfl <;> rfl

/-- What has to follow a section: a status that ends a run is announced later in the same code, and
`Running` is set in the last part of a start. -/
def Section.settles (rest : Code) : Section → Bool
  | .task (.setStatus .pending) => false
  | .task (.setStatus .running) => rest == readyCode.tail
  | .task (.setStatus status) => !status.isOutcome || concluding rest
  | _ => true

def settlesWell : Code → Bool
  | [] => true
  | s :: rest => s.settles rest && settlesWell rest

theorem concluding_append (pre rest : Code) :
    concluding (pre ++ rest) = (concluding pre || concluding rest) := List.any_append

theorem concluding_cons (s : Section) (rest : Code) :
    concluding (s :: rest) = (s.isOutcome || concluding rest) := List.any_cons

theorem concluding_inTask (pre : List TaskSection) : concluding (inTask pre) = false := by
  simp [concluding, inTask, Section.isOutcome]

theorem Section.settles_of_no_status (h : ∀ status, s ≠ Section.task (.setStatus status)) :
    s.settles rest = true := by
  unfold Section.settles
  split
  · exact absurd rfl (h _)
  · exact absurd rfl (h _)
  · exact absurd rfl (h _)
  · rfl

theorem settlesWell_append (hp : ∀ status, Section.task (.setStatus status) ∉ pre)
    (h : settlesWell rest = true) : settlesWell (pre ++ rest) = true := by
  induction pre with
  | nil => exact h
  | cons s pre ih =>
    rw [List.cons_append, settlesWell, ih fun status hm => hp status (List.mem_cons_of_mem s hm),
      Bool.and_true]
    exact Section.settles_of_no_status fun status he => hp status (he ▸ List.mem_cons_self)

theorem settlesWell_of_no_status (h : ∀ status, Section.task (.setStatus status) ∉ code) :
    settlesWell code = true := by
  rw [← List.append_nil code]
  exact settlesWell_append h rfl

theorem FixedCode.settlesWell (h : FixedCode code) : settlesWell code = true := by
  cases h with
  | transition action => cases action <;> rfl
  | onErr frame => cases frame <;> rfl
  | ready discard => cases discard <;> rfl
  | finish discard outcome => rcases outcome with _ | ⟨⟨⟩⟩ <;> cases discard <;> rfl
  | checked check => cases check <;> rfl
  | finalize outcome => rcases outcome with _ | ⟨⟨⟩⟩ <;> rfl
  | _ => rfl

theorem settlesWell_stopWorkers (err : Error) (h : settlesWell rest = true) :
    settlesWell (stopWorkersAndFailCode err ++ rest) = true := by
  simp [stopWorkersAndFailCode, inTask, inManager, settlesWell, Section.settles, concluding,
    Section.isOutcome, h]

theorem settlesWell_invariant : CodeInvariant settlesWell where
  tail _ _ h := by
    rw [Paradown.settlesWell, Bool.and_eq_true] at h
    exact h.2
  aside pre _ hp h := by
    refine settlesWell_append (fun status hm => ?_) h
    obtain ⟨s, hs, he⟩ := List.mem_map.1 hm
    cases he
    cases List.all_eq_true.1 hp _ hs
  fixed _ h := h.settlesWell
  run _ h := by
    obtain ⟨run, rfl⟩ := h.eq_inWorker
    exact settlesWell_of_no_status (by simp [inWorker])
  entry _ h := by
    cases h with
    | call call id => cases call <;> rfl
    | handler event id => cases event <;> rfl
    | listener event id worker => cases event <;> rfl
    | engine event id => cases event <;> rfl
    | joiner id runs =>
      simp only [joinerThread]
      induction runs.filterMap (·.result) with
      | nil => rfl
      | cons err errs ih => exact settlesWell_stopWorkers err ih

theorem concluding_of_status (h : settlesWell code = true) (hv : v.isOutcome = true)
    (hm : Section.task (.setStatus v) ∈ code) : concluding code = true := by
  induction code with
  | nil => cases hm
  | cons s rest ih =>
    rw [settlesWell, Bool.and_eq_true] at h
    rw [concluding_cons, Bool.or_eq_true]
    rcases List.mem_cons.1 hm with rfl | hm
    · have hs := h.1
      cases v with
      | completed | canceled | failed err => exact .inr (by simpa [Section.settles, Status.isOutcome] using hs)
      | pending | preparing | running | paused | deleted => cases hv
    · exact .inr (ih h.2 hm)

/-- The code of a call that finalizes a download. -/
def Thread.Finalizing (t : Thread) : Prop :=
  t.frame = .finalize → t.code ≠ [] ∧ ∃ outcome, t.code <:+ finishJobCode outcome

theorem finishJobCode_mem (h : s ∈ finishJobCode outcome) :
    s = .task .io ∨ (∃ v, s = .task (.setStatus v)) ∨ ∃ e, s = .manager (.emit e) := by
  rcases outcome with err | ⟨⟨⟩⟩
  · simp only [finishJobCode, inTask, inManager, List.map_cons, List.map_nil, List.cons_append,
      List.nil_append, List.mem_cons, List.not_mem_nil, or_false] at h
    rcases h with rfl | rfl | rfl | rfl
    · exact .inr (.inl ⟨_, rfl⟩)
    · exact .inl rfl
    · exact .inl rfl
    · exact .inr (.inr ⟨_, rfl⟩)
  · simp only [finishJobCode, inTask, inManager, List.map_cons, List.map_nil, List.cons_append,
      List.nil_append, List.mem_cons, List.not_mem_nil, or_false] at h
    rcases h with rfl | rfl | rfl | rfl | rfl
    · exact .inl rfl
    · exact .inr (.inl ⟨_, rfl⟩)
    · exact .inl rfl
    · exact .inl rfl
    · exact .inr (.inr ⟨_, rfl⟩)

/-- A code that announces the end of a run, in a task with this status: it sets no status but `v`, the
task has it or will get it, and only one end is announced. -/
structure Heads (status : Option Status) (code : Code) (v : Status) : Prop where
  final : v.isOutcome = true
  only : ∀ v', Section.task (.setStatus v') ∈ code → v' = v
  due : status = some v ∨
    status.any (·.isTerminal) = false ∧ Section.task (.setStatus v) ∈ code
  once : code.countP Section.isOutcome ≤ 1

theorem heads_stopWorkers (err : Error) (h : status.any (·.isTerminal) = false) :
    Heads status (stopWorkersAndFailCode err) (.failed err) where
  final := rfl
  only v' hv := by simpa [stopWorkersAndFailCode, inTask, inManager] using hv
  due := .inr ⟨h, by simp [stopWorkersAndFailCode, inTask]⟩
  once := Nat.le_refl 1

theorem heads_finishJob (outcome : Except Error Unit) (h : status.any (·.isTerminal) = false) :
    ∃ v, Heads status (finishJobCode outcome) v := by
  rcases outcome with err | ⟨⟨⟩⟩
  · refine ⟨.failed err, rfl, fun v' hv => ?_, .inr ⟨h, ?_⟩, Nat.le_refl 1⟩
    · simpa [finishJobCode, inTask, inManager] using hv
    · simp [finishJobCode, inTask]
  · refine ⟨.completed, rfl, fun v' hv => ?_, .inr ⟨h, ?_⟩, Nat.le_refl 1⟩
    · simpa [finishJobCode, inTask, inManager] using hv
    · simp [finishJobCode, inTask]

/-- The task sections that can turn to the end of a run. -/
def TaskSection.mayConclude : TaskSection → Bool
  | .prepareDownload | .cancelGate | .checkEach _ | .finalizeDownload | .ioOrFail
  | .persistWorker => true
  | _ => false

theorem concluding_onErr {frame : Frame} (h : concluding frame.onErr = true) : frame = .finalize := by
  cases frame with
  | finalize => rfl
  | plain | transition => cases h

/-- The section brings the end of a run about, and leaves the call in order at it. -/
def TaskSection.BringsAbout (s : TaskSection) (c : Choice) (t : TaskState) (x y : Context) : Prop :=
  s.concludes c t x.thread = 1 ∧
    (t.status.isTerminal = false → ∃ v, Heads (y.task.map (·.status)) y.thread.code v)

/-- The call goes on with its own code, behind sections that do not bear on the end. -/
def Context.GoesAside (x y : Context) : Prop :=
  ∃ pre, pre.all TaskSection.isAside = true ∧ y.thread.code = inTask pre ++ x.thread.code ∧
    y.thread.frame = x.thread.frame

theorem cancelGate_concluding {x y : Context} (h : execTask c x t .cancelGate = some y)
    (hy : concluding y.thread.code = true) (hf : concluding x.thread.frame.onErr = false) :
    TaskSection.cancelGate.BringsAbout c t x y := by
  have hbegin : ∀ {y : Context}, y.task = some { t with status := .canceled } →
      y.thread.code = stopCode .cancel .cancel →
      t.status.isTerminal = false → ∃ v, Heads (y.task.map (·.status)) y.thread.code v := by
    intro y hy hc _
    rw [hy, hc]
    exact ⟨.canceled, rfl, by simp [stopCode, inTask, inManager], .inl rfl, Nat.le_refl 1⟩
  simp only [execTask] at h
  split at h <;> rename_i hst <;> cases h
  · exact ⟨by rw [TaskSection.concludes, hst]; rfl, hbegin rfl rfl⟩
  · exact ⟨by rw [TaskSection.concludes, hst]; rfl, hbegin rfl rfl⟩
  · exact ⟨by rw [TaskSection.concludes, hst]; rfl, hbegin rfl rfl⟩
  · exact ⟨by rw [TaskSection.concludes, hst]; rfl, hbegin rfl rfl⟩
  · cases hf.symm.trans hy

theorem checkEach_concluding {x y : Context} (hx : x.task = some t)
    (h : execTask c x t (.checkEach check) = some y) (hy : concluding y.thread.code = true) :
    x.GoesAside y ∨ (TaskSection.checkEach check).BringsAbout c t x y := by
  simp only [execTask] at h
  split at h
  · rename_i hsnap
    cases h
    cases check with
    | completed => cases hy
    | canceledOrCompleted =>
      refine .inr ⟨by rw [TaskSection.concludes, hsnap]; rfl, fun ht => ?_⟩
      refine ⟨.canceled, rfl, ?_, .inr ⟨by simpa [Context.goto, hx] using ht, ?_⟩, Nat.le_refl 1⟩
      · simp [Context.goto, checkedCode, inTask, inManager]
      · simp [Context.goto, checkedCode, inTask]
  · split at h <;> cases h
    · exact .inl ⟨[.checkEach check], rfl, rfl, rfl⟩
    · cases hy

theorem ioOrFail_concluding {x y : Context} (hx : x.task = some t)
    (h : execTask c x t .ioOrFail = some y) :
    x.GoesAside y ∨ TaskSection.ioOrFail.BringsAbout c t x y := by
  cases c with
  | fail err =>
    cases h
    refine .inr ⟨rfl, fun ht => ⟨.failed err, rfl, ?_, .inr ⟨?_, ?_⟩, Nat.le_refl 1⟩⟩
    · simp [deleteFailedCode, inTask, inManager]
    · simpa [hx] using ht
    · simp [deleteFailedCode, inTask, inManager]
  | _ =>
    cases h
    exact .inl ⟨[], rfl, rfl, rfl⟩

theorem persistWorker_concluding {x y : Context} (hx : x.task = some t)
    (h : execTask c x t .persistWorker = some y) :
    x.GoesAside y ∨ TaskSection.persistWorker.BringsAbout c t x y := by
  cases c with
  | fail err =>
    simp only [execTask] at h
    split at h <;> rename_i hany <;> cases h
    · refine .inr ⟨by rw [TaskSection.concludes, hany]; rfl, fun ht => ?_⟩
      exact ⟨.failed err, heads_stopWorkers err (by simpa [Context.goto, hx] using ht)⟩
    · exact .inl ⟨[], rfl, rfl, rfl⟩
  | _ =>
    cases h
    exact .inl ⟨[], rfl, rfl, rfl⟩

/-- After a task section a call is at the end of a run if it was before, if finalizing the download
has just failed, or if the section brings the end about. -/
theorem execTask_concluding {x y : Context} (hx : x.task = some t) (hn : x.spawned = [])
    (hf : x.thread.frame = .finalize → s = .io ∨ ∃ v, s = .setStatus v) (hp : s ≠ .prepareDownload)
    (h : execTask c x t s = some y) (hy : concluding y.thread.code = true) :
    x.GoesAside y ∨
      (x.thread.frame = .finalize ∧ s = .io ∧ c ≠ .ok ∧ y.thread.code = inManager [.emit .error]) ∨
      s.BringsAbout c t x y := by
  by_cases hs : s.mayConclude = true
  · have hfail : concluding x.thread.frame.onErr = false := by
      refine Bool.eq_false_iff.2 fun hc => ?_
      rcases hf (concluding_onErr hc) with rfl | ⟨v, rfl⟩ <;> cases hs
    cases s with
    | prepareDownload => exact absurd rfl hp
    | cancelGate => exact .inr (.inr (cancelGate_concluding h hy hfail))
    | checkEach check => exact (checkEach_concluding hx h hy).imp_right .inr
    | finalizeDownload =>
      cases h
      refine .inr (.inr ⟨rfl, fun ht => ?_⟩)
      exact heads_finishJob _ (by simpa [hx] using ht)
    | ioOrFail => exact (ioOrFail_concluding hx h).imp_right .inr
    | persistWorker => exact (persistWorker_concluding hx h).imp_right .inr
    | _ => cases hs
  · obtain ⟨t', hq, he⟩ := execTask_effect hx hn h
    unfold Context.GoesAside
    generalize hcode : y.thread.code = code at he hy ⊢
    generalize hframe : y.thread.frame = frame at he ⊢
    generalize t'.status = status at he
    cases he with
    | next | set => exact .inl ⟨[], rfl, rfl, rfl⟩
    | reset => exact .inl ⟨[.clearTaskWorkers, .io, .clearManifestState, .io], rfl, rfl, rfl⟩
    | stop _ hpre =>
      refine .inl ⟨_, List.all_eq_true.2 fun m hm => ?_, rfl, rfl⟩
      have := List.all_eq_true.1 hpre m hm
      cases m <;> first | rfl | cases this
    | fail hm =>
      have hfin := concluding_onErr hy
      rcases hf hfin with rfl | ⟨v, rfl⟩
      · refine .inr (.inl ⟨hfin, rfl, ?_, by rw [hfin]; rfl⟩)
        rintro rfl
        cases h
        rw [hfin] at hframe
        cases hframe
      · cases hm
    | halt => cases hy
    | engineOver | engineRunning | resumeStart | resumeSession | resumeAgain | pause | recreate
    | reuse => cases hy
    | check | deleteFailed | prepared | cancel | persistFailed | checked | finalize =>
      exact absurd rfl hs

theorem Thread.finalizing_settle {t : Thread}
    (h : t.frame = .finalize → ∃ outcome, t.code <:+ finishJobCode outcome) :
    t.settle.Finalizing := by
  unfold Thread.settle
  split
  · intro hf
    cases hf
  · rename_i hc
    exact fun hf => ⟨fun he => hc (List.isEmpty_iff.2 he), h hf⟩

theorem TaskEffect.finalizing (h : TaskEffect t rest frame s status code frame')
    (hf : frame = .finalize → s = .io ∨ ∃ v, s = .setStatus v) (hf' : frame' = .finalize) :
    (code = rest ∧ frame = .finalize) ∨ ∃ outcome, code = finishJobCode outcome := by
  subst hf'
  cases h with
  | next | set => exact .inl ⟨rfl, rfl⟩
  | stop hs =>
    rcases hf rfl with rfl | ⟨v, rfl⟩ <;> cases hs
  | finalize => exact .inr ⟨_, rfl⟩
  | reset | check | prepared | engineOver | engineRunning | resumeStart | resumeSession | resumeAgain
  | pause | cancel | recreate | reuse | persistFailed | checked =>
    rcases hf rfl with he | ⟨v, he⟩ <;> cases he

theorem Thread.Finalizing.section {t : Thread} (h : t.Finalizing) (hf : t.frame = .finalize)
    (hc : t.code = s :: rest) :
    s = .task .io ∨ (∃ v, s = .task (.setStatus v)) ∨ ∃ e, s = .manager (.emit e) := by
  obtain ⟨_, outcome, hsuf⟩ := h hf
  rw [hc] at hsuf
  exact finishJobCode_mem (hsuf.subset List.mem_cons_self)

theorem exec_finalizing {w : World} {t : Thread} (ht : t.Finalizing) (hc : t.code = s :: rest)
    (h : exec c (w.context t rest) s = some x) :
    x.thread.settle.Finalizing ∧ ∀ r ∈ x.spawned, r.Finalizing := by
  have hrest : t.frame = .finalize → ∃ outcome, rest <:+ finishJobCode outcome := by
    intro hf
    obtain ⟨_, outcome, hsuf⟩ := ht hf
    exact ⟨outcome, (List.suffix_cons s rest).trans (hc ▸ hsuf)⟩
  refine ⟨Thread.finalizing_settle fun hf => ?_, fun r hr hf => ?_⟩
  · cases s with
    | manager m =>
      rcases execManager_code h with ⟨hcode, hframe⟩ | hcode | ⟨action, _, hframe⟩ | ⟨action, _, hframe⟩
      · rw [hcode]
        exact hrest (hframe.symm.trans hf)
      · exact ⟨.ok (), hcode ▸ List.nil_suffix⟩
      · cases hf.symm.trans hframe
      · cases hf.symm.trans hframe
    | task m =>
      simp only [exec] at h
      split at h
      · cases h
      · rename_i t₀ ht₀
        obtain ⟨t₁, _, he⟩ := execTask_effect ht₀ rfl h
        have hsec : t.frame = .finalize → m = .io ∨ ∃ v, m = .setStatus v := by
          intro hfin
          rcases ht.section hfin hc with he | ⟨v, he⟩ | ⟨e, he⟩ <;> cases he
          · exact .inl rfl
          · exact .inr ⟨v, rfl⟩
        rcases he.finalizing hsec hf with ⟨hcode, hfin⟩ | ⟨outcome, hcode⟩
        · rw [hcode]
          exact hrest hfin
        · exact ⟨outcome, hcode ▸ List.suffix_rfl⟩
    | worker m =>
      simp only [exec] at h
      split at h
      · cases h
      · rename_i t₀ ht₀
        split at h
        · cases h
        · obtain ⟨_, _, _, _, hframe⟩ := execWorker_effect ht₀ rfl h
          have hfin : t.frame = .finalize := by
            rcases hframe with he | he
            · exact he.symm.trans hf
            · cases hf.symm.trans he
          rcases ht.section hfin hc with he | ⟨v, he⟩ | ⟨e, he⟩ <;> cases he
  · obtain ⟨_, _, hplain, _⟩ := exec_spawned rfl h r hr
    cases hf.symm.trans hplain

theorem World.finalizing_step {w w' : World} (h : ∀ t ∈ w.threads, t.Finalizing)
    (hs : w.step a = some w') : ∀ t ∈ w'.threads, t.Finalizing :=
  World.threads_step
    (fun _ ht hf => by
      cases ht with
      | call call id => cases call <;> cases hf
      | handler event id | listener event id worker | engine event id | joiner id runs => cases hf)
    (fun _ _ _ _ _ _ ht hc hx => exec_finalizing ht hc hx) h hs

theorem Thread.Finalizing.concluding {t : Thread} (h : t.Finalizing) (hf : t.frame = .finalize) :
    concluding t.code = true := by
  obtain ⟨hne, outcome, hsuf⟩ := h hf
  have hlast : ∃ e, (finishJobCode outcome).getLast? = some e ∧ e.isOutcome = true := by
    rcases outcome with err | ⟨⟨⟩⟩
    · exact ⟨_, rfl, rfl⟩
    · exact ⟨_, rfl, rfl⟩
  obtain ⟨e, he, hout⟩ := hlast
  obtain ⟨pre, hpre⟩ := hsuf
  rw [← hpre, List.getLast?_append, List.getLast?_eq_some_getLast hne, Option.some_or] at he
  refine List.any_eq_true.2 ⟨e, ?_, hout⟩
  cases he
  exact List.getLast_mem hne

/-- What a section does to the status of the task. -/
theorem exec_status {x y : Context} (hx : x.task = some t) (hn : x.spawned = [])
    (h : exec c x s = some y) :
    ∃ t', y.task = some t' ∧ (t'.status = t.status ∨ s = .task (.setStatus t'.status) ∨
      (t.status.isTerminal = false ∧ t'.status.isTerminal = false) ∨
      (s = .task .cancelGate ∧ t.status.mayCancel = true ∧ t'.status = .canceled)) := by
  cases s with
  | manager m =>
    have hsome := exec_isSome hn h
    rw [hx, Option.isSome_some] at hsome
    obtain ⟨t', hy⟩ := Option.isSome_iff_exists.1 hsome
    exact ⟨t', hy, .inl (execManager_view hx hy h).1⟩
  | task m =>
    simp only [exec, hx] at h
    obtain ⟨t', hq, he⟩ := execTask_effect hx hn h
    refine ⟨t', hq.task, ?_⟩
    generalize hstatus : t'.status = status at he
    generalize y.thread.code = code at he
    generalize y.thread.frame = frame at he
    cases he with
    | set => exact .inr (.inl rfl)
    | engineRunning ht => exact .inr (.inr (.inl ⟨ht, rfl⟩))
    | resumeSession ht | resumeAgain ht =>
      exact .inr (.inr (.inl ⟨by rw [ht]; rfl, rfl⟩))
    | pause ht => exact .inr (.inr (.inl ⟨Status.not_terminal_of_active ht, rfl⟩))
    | cancel =>
      simp only [execTask] at h
      split at h <;> rename_i hst
      · exact .inr (.inr (.inr ⟨rfl, by rw [hst]; rfl, rfl⟩))
      · exact .inr (.inr (.inr ⟨rfl, by rw [hst]; rfl, rfl⟩))
      · exact .inr (.inr (.inr ⟨rfl, by rw [hst]; rfl, rfl⟩))
      · exact .inr (.inr (.inr ⟨rfl, by rw [hst]; rfl, rfl⟩))
      · cases h
        cases hx.symm.trans hq.task
        exact .inl hstatus.symm
    | _ => exact .inl rfl
  | worker m =>
    simp only [exec, hx] at h
    split at h
    · cases h
    · obtain ⟨t', hq, hst, _⟩ := execWorker_effect hx hn h
      exact ⟨t', hq.task, .inl hst⟩

theorem World.status_commit {w : World} {r : Thread} (hx : exec c (w.context r rest) s = some x) :
    (w.commit i r.task x).status r.task = x.task.map (·.status) := by
  rw [World.status, World.commit_task (exec_isSome (x := w.context r rest) rfl hx)]

theorem World.status_commit_ne {w : World} {k : Nat} (h : k ≠ id) :
    (w.commit i k x).status id = w.status id := by
  rw [World.status, World.commit_task_ne (Ne.symm h)]
  rfl

theorem World.status_external {w w' : World} (hk : (w.status id).isSome = true)
    (hs : w.step a = some w') (ha : ∀ i c, a ≠ .step i c) : w'.status id = w.status id := by
  unfold World.status at hk ⊢
  rw [Option.isSome_map] at hk
  obtain ⟨t, ht⟩ := Option.isSome_iff_exists.1 hk
  obtain ⟨t', ht', hv⟩ := (World.step_external hs ha).forth id t ht
  rw [ht, ht', Option.map_some, Option.map_some, hv.status]

theorem World.sectionOn_step {w : World} {r : Thread} (hi : w.threads[i]? = some r)
    (hc : r.code = s :: rest) : w.sectionOn id (.step i c) = if r.task = id then some s else none := by
  simp only [World.sectionOn, World.next_eq hi hc]

theorem World.sectionOn_some {w : World} (h : w.sectionOn id a = some s) :
    ∃ i c r rest, a = .step i c ∧ w.threads[i]? = some r ∧ r.code = s :: rest ∧ r.task = id := by
  cases a with
  | step i c =>
    simp only [World.sectionOn] at h
    split at h
    · rename_i r s' rest hn
      split at h <;> cases h
      obtain ⟨hi, hc⟩ := World.next_some hn
      exact ⟨i, c, r, rest, rfl, hi, hc, ‹_›⟩
    · cases h
  | _ => cases h

theorem World.concludes_step {w : World} {r : Thread} {m : TaskSection}
    (hi : w.threads[i]? = some r) (hc : r.code = .task m :: rest) (hid : r.task = id)
    (ht : w.tasks[id]? = some t) : w.concludes id (.step i c) = m.concludes c t r := by
  simp only [World.concludes, World.next_eq hi hc, ht, hid, if_true]

/-- What an action does to the status of a task: it sets it, moves it between states that are not
final, or cancels it. -/
theorem World.status_step {w w' : World} (hk : (w.status id).isSome = true)
    (hs : w.step a = some w') :
    w'.status id = w.status id ∨
      (∃ v, w.sectionOn id a = some (.task (.setStatus v)) ∧ w'.status id = some v) ∨
      (w.isOver id = false ∧ w'.isOver id = false) ∨
      (w.isOver id = false ∧ 0 < w.concludes id a) := by
  by_cases ha : ∃ i c, a = .step i c
  · obtain ⟨i, c, rfl⟩ := ha
    obtain ⟨r, s, rest, x, hi, hc, hx, rfl⟩ := World.stepThread_some hs
    by_cases hid : r.task = id
    · subst id
      unfold World.status at hk
      rw [Option.isSome_map] at hk
      obtain ⟨t, ht⟩ := Option.isSome_iff_exists.1 hk
      obtain ⟨t', ht', hcase⟩ := exec_status (x := w.context r rest) ht rfl hx
      have hnew : (w.commit i r.task x).status r.task = some t'.status := by
        rw [World.status_commit hx, ht', Option.map_some]
      have hold : w.status r.task = some t.status := by
        rw [World.status, ht, Option.map_some]
      rw [World.isOver, World.isOver, hnew, hold]
      rcases hcase with he | rfl | ⟨h1, h2⟩ | ⟨rfl, hm, _⟩
      · exact .inl (by rw [he])
      · refine .inr (.inl ⟨t'.status, ?_, rfl⟩)
        rw [World.sectionOn_step hi hc, if_pos rfl]
      · exact .inr (.inr (.inl ⟨h1, h2⟩))
      · refine .inr (.inr (.inr ⟨?_, ?_⟩))
        · show t.status.isTerminal = false
          cases hst : t.status <;> simp_all [Status.mayCancel, Status.isTerminal]
        · rw [World.concludes_step hi hc rfl ht, TaskSection.concludes, hm]
          exact Nat.one_pos
    · exact .inl (World.status_commit_ne hid)
  · exact .inl (World.status_external hk hs fun i c he => ha ⟨i, c, he⟩)

theorem World.status_isSome_step {w w' : World} (hk : (w.status id).isSome = true)
    (hs : w.step a = some w') : (w'.status id).isSome = true := by
  by_cases ha : ∃ i c, a = .step i c
  · obtain ⟨i, c, rfl⟩ := ha
    obtain ⟨r, s, rest, x, hi, hc, hx, rfl⟩ := World.stepThread_some hs
    by_cases hid : r.task = id
    · subst id
      rw [World.status_commit hx, Option.isSome_map, exec_isSome (x := w.context r rest) rfl hx]
      rwa [World.status, Option.isSome_map] at hk
    · rwa [World.status_commit_ne hid]
  · rwa [World.status_external hk hs fun i c he => ha ⟨i, c, he⟩]

theorem World.noneIn_step {f : Code → Bool} (hf : Gated Section.isStartGate f) {w w' : World}
    (h : ∀ j, w.inStage f id j = false) (hp : w.passing id a = none) (hs : w.step a = some w')
    (j : Nat) : w'.inStage f id j = false := by
  by_contra hcon
  rw [Bool.not_eq_false] at hcon
  obtain ⟨r', hj, hid, hr⟩ := World.inStage_iff.1 hcon
  have hold : ∀ (k : Nat) (r : Thread), w.threads[k]? = some r → r.task = id → f r.code = true → False := by
    intro k r hk hid hr
    have := h k
    rw [World.inStage_iff.2 ⟨r, hk, hid, hr⟩] at this
    cases this
  by_cases ha : ∃ i c, a = .step i c
  · obtain ⟨i, c, rfl⟩ := ha
    obtain ⟨r, s, rest, x, hi, hc, hx, rfl⟩ := World.stepThread_some hs
    rcases hf.commit hi hc hx hj hr with ⟨_, hj⟩ | ⟨rfl, rfl, hstage | hgate⟩
    · exact hold j r' hj hid hr
    · exact hold j r hi ((hf.task hx hr).symm.trans hid) hstage
    · have hgate : s = .task .prepareForStart := by simpa [Section.isStartGate] using hgate
      subst hgate
      rw [← hid, hf.task hx hr, World.passing_of_stage hf hi hc hx hr] at hp
      cases hp
  · exact hold j r' (hf.external hs (fun i c he => ha ⟨i, c, he⟩) hj hr) hid hr

theorem Heads.aside (h : Heads status code v) (hp : ∀ v', TaskSection.setStatus v' ∉ pre) :
    Heads status (inTask pre ++ code) v where
  final := h.final
  only v' hv := by
    rcases List.mem_append.1 hv with hv | hv
    · obtain ⟨m, hm, he⟩ := List.mem_map.1 hv
      cases he
      exact absurd hm (hp v')
    · exact h.only v' hv
  due := h.due.imp_right fun ⟨h1, h2⟩ => ⟨h1, List.mem_append.2 (.inr h2)⟩
  once := by
    have hzero : (inTask pre).countP Section.isOutcome = 0 := by
      rw [List.countP_eq_zero]
      intro s hs
      obtain ⟨m, _, rfl⟩ := List.mem_map.1 hs
      simp [Section.isOutcome]
    rw [List.countP_append, hzero, Nat.zero_add]
    exact h.once

theorem isAside_no_status {pre : List TaskSection} (h : pre.all TaskSection.isAside = true) (v : Status) :
    TaskSection.setStatus v ∉ pre := fun hm => by
  cases List.all_eq_true.1 h _ hm

theorem heads_engineEvent {event : EngineEvent} (h : status.any (·.isTerminal) = false)
    (hc : concluding (engineEventCode event) = true) :
    ∃ v, Heads status (engineEventCode event) v := by
  cases event with
  | paused => cases hc
  | finished =>
    refine ⟨.completed, rfl, ?_, ?_, Nat.le_refl 1⟩
    · simp [engineEventCode, finishJobCode, inTask, inManager]
    · exact .inr ⟨h, by simp [engineEventCode, finishJobCode, inTask]⟩
  | failed err =>
    refine ⟨.failed err, rfl, ?_, ?_, Nat.le_refl 1⟩
    · simp [engineEventCode, finishJobCode, inTask, inManager]
    · exact .inr ⟨h, by simp [engineEventCode, finishJobCode, inTask]⟩

theorem Call.toThread_aside (call : Call) (id : Nat) : concluding (call.toThread id).code = false := by
  cases call <;> rfl

theorem handlerThread_aside (event : TaskEvent) (id : Nat) :
    concluding (handlerThread event id).code = false := by
  cases event <;> rfl

theorem getElem?_begun {threads : List Thread} (h : (threads ++ [t])[j]? = some r) :
    threads[j]? = some r ∨ j = threads.length ∧ r = t := by
  rw [List.getElem?_append] at h
  split at h
  · exact .inl h
  · have hlt := (List.getElem?_eq_some_iff.1 h).1
    rw [List.length_singleton] at hlt
    exact .inr ⟨by omega, List.mem_singleton.1 (List.mem_of_getElem? h)⟩

/-- The call is the one that has just begun, to bring the end of its task's run about. -/
def World.Concludes (w : World) (a : Act) (j : Nat) (r : Thread) : Prop :=
  j = w.threads.length ∧ 0 < w.concludes r.task a ∧
    (w.concludes r.task a = 1 → w.isOver r.task = false →
      ∃ v, Heads (w.status r.task) r.code v)

theorem World.concluding_listen {w w' : World} {r : Thread} (hs : w.step (.listen i) = some w')
    (hj : w'.threads[j]? = some r) (hr : concluding r.code = true) :
    w.threads[j]? = some r ∨ w.Concludes (.listen i) j r := by
  simp only [World.step] at hs
  split at hs
  · cases hs
  · rename_i t ht
    split at hs
    · cases hs
    · rename_i worker event channel hch
      split at hs <;> cases hs
      rcases getElem?_begun hj with hold | ⟨hlen, rfl⟩
      · exact .inl hold
      · cases event with
        | error err =>
          refine .inr ⟨hlen, ?_, ?_⟩
          · simp [World.concludes, listenerThread, ht, TaskState.errorArrives, hch]
          · intro _ hover
            have hpre : ∀ v', TaskSection.setStatus v' ∉ [TaskSection.persistWorkerLater] := by simp
            exact ⟨_, (heads_stopWorkers err hover).aside hpre⟩
        | progress | pause | complete | cancel => cases hr

theorem World.concluding_engineEvent {w w' : World} {r : Thread}
    (hs : w.step (.engineEvent i event) = some w') (hj : w'.threads[j]? = some r)
    (hr : concluding r.code = true) :
    w.threads[j]? = some r ∨ w.Concludes (.engineEvent i event) j r := by
  simp only [World.step] at hs
  split at hs
  · cases hs
  · split at hs <;> cases hs
    rcases getElem?_begun hj with hold | ⟨hlen, rfl⟩
    · exact .inl hold
    · refine .inr ⟨hlen, ?_, ?_⟩
      · cases event with
        | paused => cases hr
        | finished | failed err => simp [World.concludes, engineThread]
      · intro _ hover
        exact heads_engineEvent hover hr

theorem World.concluding_join {w w' : World} {r : Thread} {batch : Nat}
    (hs : w.step (.join i batch) = some w') (hj : w'.threads[j]? = some r)
    (hr : concluding r.code = true) :
    w.threads[j]? = some r ∨ w.Concludes (.join i batch) j r := by
  simp only [World.step] at hs
  split at hs
  · cases hs
  · split at hs <;> cases hs
    rcases getElem?_begun hj with hold | ⟨hlen, rfl⟩
    · exact .inl hold
    · refine .inr ⟨hlen, ?_, ?_⟩
      · simp only [World.concludes, joinerThread, if_true] at hr ⊢
        cases hres : (w.batch i batch).filterMap (·.result) with
        | nil =>
          rw [hres] at hr
          cases hr
        | cons err errs => simp
      · intro hone hover
        simp only [World.concludes, joinerThread, if_true] at hone ⊢
        obtain ⟨err, herr⟩ := List.length_eq_one_iff.1 hone
        rw [herr, List.flatMap_singleton]
        exact ⟨_, heads_stopWorkers err hover⟩

/-- Whatever else happens than a section, a call at the end of a run was there before, or has just
begun to bring it about. -/
theorem World.concluding_external {w w' : World} {r : Thread} (hs : w.step a = some w')
    (ha : ∀ i c, a ≠ .step i c) (hj : w'.threads[j]? = some r) (hr : concluding r.code = true) :
    w.threads[j]? = some r ∨ w.Concludes a j r := by
  cases a with
  | addTask status =>
    simp only [World.step] at hs
    split at hs <;> cases hs
    exact .inl hj
  | call call i =>
    simp only [World.step] at hs
    split at hs <;> cases hs
    rcases getElem?_begun hj with hold | ⟨_, rfl⟩
    · exact .inl hold
    · cases (Call.toThread_aside call i).symm.trans hr
  | deliver =>
    simp only [World.step] at hs
    split at hs
    · cases hs
    · split at hs <;> cases hs
      rename_i event i events _ _
      rcases getElem?_begun hj with hold | ⟨_, rfl⟩
      · exact .inl hold
      · cases (handlerThread_aside event i).symm.trans hr
  | lag =>
    simp only [World.step] at hs
    split at hs <;> cases hs
    exact .inl hj
  | listen i => exact World.concluding_listen hs hj hr
  | listenerLag i =>
    simp only [World.step] at hs
    split at hs
    · cases hs
    · split at hs <;> cases hs
      exact .inl hj
  | engineEvent i event => exact World.concluding_engineEvent hs hj hr
  | join i batch => exact World.concluding_join hs hj hr
  | step i c => exact absurd rfl (ha i c)

theorem concluding_settle {t : Thread} (h : concluding t.settle.code = true) : t.settle = t := by
  unfold Thread.settle at h ⊢
  split at h
  · cases hf : t.frame <;> rw [hf] at h <;> cases h
  · rename_i hc
    rw [if_neg hc]

/-- After a section, a call at the end of a run was there before, or the section has brought the end
about. -/
theorem World.concluding_commit {w : World} {r r' : Thread} (hfin : r.Finalizing)
    (hi : w.threads[i]? = some r) (hc : r.code = s :: rest)
    (hx : exec c (w.context r rest) s = some x)
    (hj : (w.commit i r.task x).threads[j]? = some r') (hr : concluding r'.code = true) :
    (j ≠ i ∧ w.threads[j]? = some r') ∨ (j = i ∧ r'.task = r.task ∧
      (s = .task .prepareDownload ∨
        (∃ pre, pre.all TaskSection.isAside = true ∧ r'.code = inTask pre ++ rest ∧
          (r.frame = .finalize → r'.frame = .finalize)) ∨
        (r.frame = .finalize ∧ s = .task .io ∧ c ≠ .ok ∧ r'.code = inManager [.emit .error]) ∨
        (w.concludes r.task (.step i c) = 1 ∧ (∃ m, s = .task m) ∧ (w.isOver r.task = false →
          ∃ v, Heads ((w.commit i r.task x).status r.task) r'.code v)))) := by
  rcases World.getElem_commit hj with hj | ⟨rfl, rfl⟩ | hj
  · exact .inl hj
  · have hset := concluding_settle hr
    rw [hset] at hr ⊢
    have htask : x.thread.task = r.task := by
      rcases exec_moves rfl hx with he | ⟨action, _, he, _⟩
      · exact he
      · rw [he] at hr
        cases action <;> cases hr
    refine .inr ⟨rfl, htask, ?_⟩
    cases s with
    | manager m =>
      rcases execManager_code hx with ⟨hcode, hframe⟩ | hcode | ⟨action, hcode, _⟩ |
        ⟨action, hcode, _⟩
      · exact .inr (.inl ⟨[], rfl, hcode, fun hf => hframe.trans hf⟩)
      · rw [hcode] at hr
        cases hr
      · rw [hcode] at hr
        cases hr
      · rw [hcode] at hr
        cases action <;> cases hr
    | task m =>
      simp only [exec] at hx
      split at hx
      · cases hx
      · rename_i t ht
        have hsec : r.frame = .finalize → m = .io ∨ ∃ v, m = .setStatus v := by
          intro hf
          rcases hfin.section hf hc with he | ⟨v, he⟩ | ⟨e, he⟩ <;> cases he
          · exact .inl rfl
          · exact .inr ⟨v, rfl⟩
        by_cases hp : m = .prepareDownload
        · exact .inl (hp ▸ rfl)
        rcases execTask_concluding ht rfl hsec hp hx hr with ⟨pre, h1, h2, h3⟩ | ⟨h1, rfl, h2, h3⟩ | ⟨h1, h2⟩
        · exact .inr (.inl ⟨pre, h1, h2, fun hf => h3.trans hf⟩)
        · exact .inr (.inr (.inl ⟨h1, rfl, h2, h3⟩))
        · refine .inr (.inr (.inr ⟨?_, ⟨m, rfl⟩, fun hover => ?_⟩))
          · rw [World.concludes_step hi hc rfl ht]
            exact h1
          · have hx' : exec c (w.context r rest) (.task m) = some x := by
              simp only [exec, ht]
              exact hx
            rw [World.status_commit hx']
            have ht : w.tasks[r.task]? = some t := ht
            refine h2 ?_
            rwa [World.isOver, World.status, ht, Option.map_some, Option.any_some] at hover
    | worker m =>
      simp only [exec] at hx
      split at hx
      · cases hx
      · split at hx
        · cases hx
        · rcases execWorker_code hx with hcode | ⟨hcode, _⟩
          · refine .inr (.inl ⟨[], rfl, hcode, fun hf => ?_⟩)
            rcases hfin.section hf hc with he | ⟨v, he⟩ | ⟨e, he⟩ <;> cases he
          · obtain ⟨run, hrun⟩ := hcode.eq_inWorker
            rw [hrun] at hr
            simp [concluding, inWorker, Section.isOutcome] at hr
  · obtain ⟨_, _, _, ⟨_, hcode⟩ | ⟨_, hcode⟩⟩ := exec_spawned rfl hx _ hj <;> rw [hcode] at hr <;>
      cases hr

/-- What holds during a run of the task: no start is on its way; at most one call is about to announce
the end, and then nothing has been announced; what was announced is final; and a finalized download
will be announced unless it is over. -/
structure World.Ending (w : World) (id : Nat) (log : RunLog) : Prop where
  known : (w.status id).isSome = true
  started : ∀ j, w.inStage launching id j = false
  one : w.OneIn concluding id
  heads : ∀ (j : Nat) (r : Thread), w.threads[j]? = some r → r.task = id → concluding r.code = true →
    log.announced = 0 ∧ ∃ v, Heads (w.status id) r.code v
  ended : 0 < log.announced → w.isOver id = true
  finalized : 0 < log.finalized → w.isOver id = true ∨
    ∃ (j : Nat) (r : Thread), w.threads[j]? = some r ∧ r.task = id ∧ r.frame = .finalize

/-- The call that an action belongs to. -/
def World.actor (w : World) : Act → Nat
  | .step i _ => i
  | _ => w.threads.length

theorem Status.terminal_of_outcome {v : Status} (h : v.isOutcome = true) : v.isTerminal = true := by
  cases v <;> first | rfl | cases h

theorem Heads.move (h : Heads status code v) (hold : status.any (·.isTerminal) = false)
    (hnew : status'.any (·.isTerminal) = false) : Heads status' code v := by
  refine ⟨h.final, h.only, .inr ⟨hnew, ?_⟩, h.once⟩
  rcases h.due with hs | ⟨_, hm⟩
  · rw [hs, Option.any_some, Status.terminal_of_outcome h.final] at hold
    cases hold
  · exact hm

theorem concluding_of_count {code : Code} (h : code.countP Section.isOutcome = 0) : concluding code = false := by
  refine Bool.eq_false_iff.2 fun hc => ?_
  obtain ⟨s, hs, ho⟩ := List.any_eq_true.1 hc
  exact List.countP_eq_zero.1 h s hs ho

section Run
variable {w w' : World} {log : RunLog} {a : Act} {i j : Nat}

theorem World.Ending.not_launching {r : Thread} (h : w.Ending id log) (hi : w.threads[i]? = some r)
    (hid : r.task = id) : launching r.code = false := by
  by_contra hl
  have := h.started i
  rw [World.inStage_iff.2 ⟨r, hi, hid, Bool.of_not_eq_false hl⟩] at this
  cases this

theorem World.Ending.sets (h : w.Ending id log) (hw : ∀ t ∈ w.threads, settlesWell t.code = true)
    (hok : OneOutcome id w a) (hrun : w.sectionOn id a ≠ some (.task (.setStatus .running)))
    (hdel : w.sectionOn id a ≠ some (.task (.setStatus .deleted)))
    (hv : w.sectionOn id a = some (.task (.setStatus v))) :
    (v = .paused ∧ w.isOver id = false) ∨
      ∃ i c r rest, a = .step i c ∧ w.threads[i]? = some r ∧ r.task = id ∧
        r.code = .task (.setStatus v) :: rest ∧ concluding r.code = true := by
  obtain ⟨i, c, r, rest, rfl, hi, hc, hid⟩ := World.sectionOn_some hv
  have hwell := hw r (List.mem_of_getElem? hi)
  have hlaunch := h.not_launching hi hid
  rw [hc] at hwell hlaunch
  cases v with
  | pending => cases hwell
  | preparing => cases hlaunch
  | running => exact absurd hv hrun
  | deleted => exact absurd hv hdel
  | paused => exact .inl ⟨rfl, hok.pauses hv⟩
  | completed | canceled | failed err =>
    refine .inr ⟨i, c, r, rest, rfl, hi, hid, hc, ?_⟩
    rw [hc]
    exact concluding_of_status hwell rfl List.mem_cons_self

theorem World.Ending.status (h : w.Ending id log) (hw : ∀ t ∈ w.threads, settlesWell t.code = true)
    (hok : OneOutcome id w a) (hrun : w.sectionOn id a ≠ some (.task (.setStatus .running)))
    (hdel : w.sectionOn id a ≠ some (.task (.setStatus .deleted))) (hs : w.step a = some w')
    (hover : w.isOver id = true) : w'.status id = w.status id := by
  rcases World.status_step h.known hs with he | ⟨v, hv, he⟩ | ⟨hn, _⟩ | ⟨hn, _⟩
  · exact he
  · rcases h.sets hw hok hrun hdel hv with ⟨_, hn⟩ | ⟨i, c, r, rest, rfl, hi, hid, hc, hcon⟩
    · rw [hover] at hn
      cases hn
    · obtain ⟨_, v', hh⟩ := h.heads i r hi hid hcon
      rcases hh.due with hst | ⟨hn, _⟩
      · rw [he, hst, hh.only v (hc ▸ List.mem_cons_self)]
      · rw [World.isOver, hn] at hover
        cases hover
  · rw [hover] at hn
    cases hn
  · rw [hover] at hn
    cases hn

/-- A call that announces the end during a run: the task has its final status, and nothing was
announced before. -/
theorem World.Ending.emission (h : w.Ending id log)
    (hw : ∀ t ∈ w.threads, settlesWell t.code = true)
    (he : (w.sectionOn id a).any Section.isOutcome = true) :
    ∃ i c r s rest, a = .step i c ∧ w.threads[i]? = some r ∧ r.task = id ∧ r.code = s :: rest ∧
      s.isOutcome = true ∧ concluding r.code = true ∧ concluding rest = false ∧
      log.announced = 0 ∧ w.isOver id = true := by
  obtain ⟨s, hsec, hout⟩ := (Option.any_eq_true _ _).1 he
  obtain ⟨i, c, r, rest, rfl, hi, hc, hid⟩ := World.sectionOn_some hsec
  have hcon : concluding r.code = true := by rw [hc, concluding_cons, hout, Bool.true_or]
  obtain ⟨hzero, v, hh⟩ := h.heads i r hi hid hcon
  have hrest : concluding rest = false := by
    have honce := hh.once
    rw [hc, List.countP_cons_of_pos hout] at honce
    exact concluding_of_count (by omega)
  refine ⟨i, c, r, s, rest, rfl, hi, hid, hc, hout, hcon, hrest, hzero, ?_⟩
  rcases hh.due with hst | ⟨_, hm⟩
  · rw [World.isOver, hst, Option.any_some]
    exact Status.terminal_of_outcome hh.final
  · have hwell := hw r (List.mem_of_getElem? hi)
    rw [hc, settlesWell, Bool.and_eq_true] at hwell
    rw [hc] at hm
    rcases List.mem_cons.1 hm with rfl | hm
    · cases hout
    · rw [concluding_of_status hwell.2 hh.final hm] at hrest
      cases hrest

theorem World.Ending.later (h : w.Ending id log) (hf : ∀ t ∈ w.threads, t.Finalizing)
    (hs : w.step a = some w') {r' : Thread} (hj : w'.threads[j]? = some r') (hid : r'.task = id)
    (hr : concluding r'.code = true) :
    (w.threads[j]? = some r' ∧ ∀ c, a ≠ .step j c) ∨
      (∃ c r s rest, a = .step j c ∧ w.threads[j]? = some r ∧ r.task = id ∧ r.code = s :: rest ∧
        concluding r.code = true ∧
        ((∃ pre, pre.all TaskSection.isAside = true ∧ r'.code = inTask pre ++ rest) ∨
          (r.frame = .finalize ∧ s = .task .io ∧ c ≠ .ok ∧ r'.code = inManager [.emit .error]))) ∨
      (j = w.actor a ∧ 0 < w.concludes id a ∧ (w.sectionOn id a).any Section.isOutcome = false ∧
        (w.concludes id a = 1 → w.isOver id = false →
          ∃ v, Heads (w'.status id) r'.code v)) := by
  by_cases ha : ∃ i c, a = .step i c
  · obtain ⟨i, c, rfl⟩ := ha
    obtain ⟨r, s, rest, x, hi, hc, hx, rfl⟩ := World.stepThread_some hs
    have hfin := hf r (List.mem_of_getElem? hi)
    rcases World.concluding_commit hfin hi hc hx hj hr with ⟨hji, hold⟩ | ⟨rfl, htask, hcase⟩
    · refine .inl ⟨hold, fun c' he => hji ?_⟩
      cases he
      rfl
    · have hrid : r.task = id := htask.symm.trans hid
      rcases hcase with rfl | ⟨pre, hp, hcode, _⟩ | ⟨h1, rfl, h2, h3⟩ | ⟨h1, ⟨m, rfl⟩, h2⟩
      · have := h.not_launching hi hrid
        rw [hc] at this
        cases this
      · refine .inr (.inl ⟨c, r, s, rest, rfl, hi, hrid, hc, ?_, .inl ⟨pre, hp, hcode⟩⟩)
        rw [hcode, concluding_append, concluding_inTask, Bool.false_or] at hr
        rw [hc, concluding_cons, hr, Bool.or_true]
      · exact .inr (.inl ⟨c, r, _, rest, rfl, hi, hrid, hc, hfin.concluding h1,
          .inr ⟨h1, rfl, h2, h3⟩⟩)
      · refine .inr (.inr ⟨rfl, ?_, ?_, fun _ hover => ?_⟩)
        · rw [← hrid, h1]
          exact Nat.one_pos
        · rw [World.sectionOn_step hi hc, if_pos hrid]
          rfl
        · rw [← hrid] at hover ⊢
          exact h2 hover
  · have ha : ∀ i c, a ≠ .step i c := fun i c he => ha ⟨i, c, he⟩
    rcases World.concluding_external hs ha hj hr with hold | ⟨rfl, h1, h2⟩
    · exact .inl ⟨hold, ha j⟩
    · rw [hid] at h1 h2
      rw [World.status_external h.known hs ha]
      refine .inr (.inr ⟨?_, h1, ?_, h2⟩)
      · cases a <;> first | rfl | exact absurd rfl (ha _ _)
      · cases a <;> first | rfl | exact absurd rfl (ha _ _)

theorem Heads.tail (h : Heads status (s :: rest) v) (hs : s ≠ .task (.setStatus v)) :
    Heads status rest v where
  final := h.final
  only v' hv := h.only v' (List.mem_cons_of_mem s hv)
  due := by
    rcases h.due with hst | ⟨hn, hm⟩
    · exact .inl hst
    · rcases List.mem_cons.1 hm with he | hm
      · exact absurd he.symm hs
      · exact .inr ⟨hn, hm⟩
  once := (List.sublist_cons_self s rest).countP_le.trans h.once

theorem Heads.set (h : Heads status (.task (.setStatus v) :: rest) v) : Heads (some v) rest v where
  final := h.final
  only v' hv := h.only v' (List.mem_cons_of_mem _ hv)
  due := .inl rfl
  once := (List.sublist_cons_self _ rest).countP_le.trans h.once

theorem World.status_set {w w' : World} {r : Thread} (hi : w.threads[i]? = some r)
    (hc : r.code = .task (.setStatus v) :: rest) (hs : w.step (.step i c) = some w') :
    w'.status r.task = some v := by
  obtain ⟨_, _, _, x, hi', hc', hx, rfl⟩ := World.stepThread_some hs
  cases hi.symm.trans hi'
  cases hc.symm.trans hc'
  rw [World.status_commit hx]
  simp only [exec] at hx
  split at hx
  · cases hx
  · cases hx
    rfl

/-- The beginning of an end finds no other call at it. -/
theorem OneOutcome.not_busy {w : World} {r : Thread} {k : Nat} (h : OneOutcome id w a)
    (hk : w.threads[k]? = some r) (hid : r.task = id) (hr : concluding r.code = true) :
    ¬ 0 < w.concludes id a := by
  intro hpos
  have hnone := World.inStage_eq_false (h.begins hpos).2.2 k
  rw [World.inStage_iff.2 ⟨r, hk, hid, hr⟩] at hnone
  cases hnone

theorem World.Ending.same {r r' : Thread} {k k' : Nat} (h : w.Ending id log)
    (hk : w.threads[k]? = some r) (hid : r.task = id) (hr : concluding r.code = true)
    (hk' : w.threads[k']? = some r') (hid' : r'.task = id)
    (hr' : concluding r'.code = true) : k = k' :=
  h.one k k' (World.inStage_iff.2 ⟨r, hk, hid, hr⟩) (World.inStage_iff.2 ⟨r', hk', hid', hr'⟩)

/-- A call at the end of a run stays in order while the others step. -/
theorem World.Ending.heads_beside (h : w.Ending id log)
    (hw : ∀ t ∈ w.threads, settlesWell t.code = true) (hok : OneOutcome id w a)
    (hrun : w.sectionOn id a ≠ some (.task (.setStatus .running)))
    (hdel : w.sectionOn id a ≠ some (.task (.setStatus .deleted))) (hs : w.step a = some w')
    {r : Thread} (hj : w.threads[j]? = some r) (hne : ∀ c, a ≠ .step j c) (hid : r.task = id)
    (hr : concluding r.code = true) (hh : Heads (w.status id) r.code v) :
    (w.sectionOn id a).any Section.isOutcome = false ∧ Heads (w'.status id) r.code v := by
  constructor
  · refine Bool.eq_false_iff.2 fun hout => ?_
    obtain ⟨i, c, r', _, _, rfl, hi, hrid, _, _, hcon, _⟩ := h.emission hw hout
    exact hne c (by rw [h.same hj hid hr hi hrid hcon])
  · rcases World.status_step h.known hs with he | ⟨v', hv, he⟩ | ⟨h1, h2⟩ | ⟨_, hpos⟩
    · rwa [he]
    · rcases h.sets hw hok hrun hdel hv with ⟨rfl, hn⟩ | ⟨i, c, r', _, rfl, hi, hrid, _, hcon⟩
      · exact hh.move hn (by rw [he]; rfl)
      · exact (hne c (by rw [h.same hj hid hr hi hrid hcon])).elim
    · exact hh.move h1 h2
    · exact absurd hpos (hok.not_busy hj hid hr)

/-- What is left of a call at the end of a run is in order behind its own section. -/
theorem World.Ending.heads_rest (h : w.Ending id log) (hok : OneOutcome id w (.step j c))
    (hs : w.step (.step j c) = some w') {r : Thread} (hj : w.threads[j]? = some r)
    (hid : r.task = id) (hr : concluding r.code = true) (hc : r.code = s :: rest)
    (hh : Heads (w.status id) r.code v) : Heads (w'.status id) rest v := by
  rw [hc] at hh
  by_cases hset : s = .task (.setStatus v)
  · subst hset
    rw [← hid, World.status_set hj hc hs]
    exact hh.set
  · have hrest := hh.tail hset
    rcases World.status_step h.known hs with he | ⟨v', hv, he⟩ | ⟨h1, h2⟩ | ⟨_, hpos⟩
    · rwa [he]
    · rw [World.sectionOn_step hj hc, if_pos hid] at hv
      cases hv
      exact absurd (congrArg _ (congrArg _ (hh.only v' List.mem_cons_self))) hset
    · exact hrest.move h1 h2
    · exact absurd hpos (hok.not_busy hj hid hr)

/-- During a run the calls at its end stay in order. -/
theorem World.Ending.heads_step (h : w.Ending id log)
    (hw : ∀ t ∈ w.threads, settlesWell t.code = true) (hf : ∀ t ∈ w.threads, t.Finalizing)
    (hok : OneOutcome id w a) (hrun : w.sectionOn id a ≠ some (.task (.setStatus .running)))
    (hdel : w.sectionOn id a ≠ some (.task (.setStatus .deleted))) (hs : w.step a = some w')
    {r' : Thread} (hj : w'.threads[j]? = some r') (hid : r'.task = id)
    (hr : concluding r'.code = true) :
    log.announced = 0 ∧ (w.sectionOn id a).any Section.isOutcome = false ∧
      ∃ v, Heads (w'.status id) r'.code v := by
  rcases h.later hf hs hj hid hr with ⟨hold, hne⟩ | ⟨c, r, s, rest, rfl, hi, hrid, hc, hcon, hcase⟩ |
    ⟨_, hpos, hquiet, hnew⟩
  · obtain ⟨hzero, v, hh⟩ := h.heads j r' hold hid hr
    obtain ⟨hquiet, hh'⟩ := h.heads_beside hw hok hrun hdel hs hold hne hid hr hh
    exact ⟨hzero, hquiet, v, hh'⟩
  · obtain ⟨hzero, v, hh⟩ := h.heads j r hi hrid hcon
    refine ⟨hzero, ?_, v, ?_⟩
    · refine Bool.eq_false_iff.2 fun hout => ?_
      obtain ⟨i, c', r₁, s', rest', hact, hi', _, hc', hout', _, hrest, _⟩ := h.emission hw hout
      cases hact
      cases hi.symm.trans hi'
      cases hc.symm.trans hc'
      rcases hcase with ⟨pre, _, hcode⟩ | ⟨_, rfl, _⟩
      · rw [hcode, concluding_append, concluding_inTask, Bool.false_or, hrest] at hr
        cases hr
      · cases hout'
    · rcases hcase with ⟨pre, hp, hcode⟩ | ⟨hfr, rfl, hcne, hcode⟩
      · rw [hcode]
        exact (h.heads_rest hok hs hi hrid hcon hc hh).aside (isAside_no_status hp)
      · have hover := hok.syncs hcne (r, .task .io, rest) (World.next_eq hi hc) rfl hrid hfr
        rw [hcode, h.status hw hok hrun hdel hs hover]
        refine ⟨hh.final, by simp [inManager], ?_, Nat.le_refl 1⟩
        rcases hh.due with hst | ⟨hn, _⟩
        · exact .inl hst
        · rw [World.isOver, hn] at hover
          cases hover
  · obtain ⟨hover, hone, _⟩ := hok.begins hpos
    refine ⟨?_, hquiet, hnew hone hover⟩
    by_contra hne
    rw [h.ended (Nat.pos_of_ne_zero hne)] at hover
    cases hover

theorem World.Ending.one_step (h : w.Ending id log) (hf : ∀ t ∈ w.threads, t.Finalizing)
    (hok : OneOutcome id w a) (hs : w.step a = some w') : w'.OneIn concluding id := by
  -- A call at the end was at it before, or has begun now and is the only one.
  have hcome : ∀ j, w'.inStage concluding id j = true → w.inStage concluding id j = true ∨
      (j = w.actor a ∧ ∀ k, w.inStage concluding id k = false) := by
    intro j hj
    obtain ⟨r, hj, hid, hr⟩ := World.inStage_iff.1 hj
    rcases h.later hf hs hj hid hr with ⟨hold, _⟩ | ⟨_, r₁, _, _, _, hi, hrid, _, hcon, _⟩ |
      ⟨hact, hpos, _⟩
    · exact .inl (World.inStage_iff.2 ⟨r, hold, hid, hr⟩)
    · exact .inl (World.inStage_iff.2 ⟨r₁, hi, hrid, hcon⟩)
    · exact .inr ⟨hact, World.inStage_eq_false (hok.begins hpos).2.2⟩
  intro j k hj hk
  rcases hcome j hj with hj | ⟨hj, hno⟩ <;> rcases hcome k hk with hk | ⟨hk, hno'⟩
  · exact h.one j k hj hk
  · rw [hno' j] at hj
    cases hj
  · rw [hno k] at hk
    cases hk
  · rw [hj, hk]

theorem World.Ending.finalized_step (h : w.Ending id log)
    (hw : ∀ t ∈ w.threads, settlesWell t.code = true) (hf : ∀ t ∈ w.threads, t.Finalizing)
    (hok : OneOutcome id w a) (hrun : w.sectionOn id a ≠ some (.task (.setStatus .running)))
    (hdel : w.sectionOn id a ≠ some (.task (.setStatus .deleted))) (hs : w.step a = some w')
    (hfin : 0 < log.finalized) :
    w'.isOver id = true ∨
      ∃ (j : Nat) (r : Thread), w'.threads[j]? = some r ∧ r.task = id ∧ r.frame = .finalize := by
  by_cases hover : w.isOver id = true
  · left
    rw [World.isOver, h.status hw hok hrun hdel hs hover]
    exact hover
  obtain ⟨j, r, hj, hid, hfr⟩ := (h.finalized hfin).resolve_left hover
  by_cases ha : ∃ c, a = .step j c
  · obtain ⟨c, rfl⟩ := ha
    obtain ⟨_, s, rest, x, hi, hc, hx, rfl⟩ := World.stepThread_some hs
    cases hj.symm.trans hi
    have hfinr := hf r (List.mem_of_getElem? hj)
    have hcon := hfinr.concluding hfr
    rcases hfinr.section hfr hc with rfl | ⟨v, rfl⟩ | ⟨e, rfl⟩
    · -- The file is synchronised: without an error, as the task is not over.
      have hok' : c = .ok := by
        by_contra hne
        exact hover (hok.syncs hne (r, .task .io, rest) (World.next_eq hj hc) rfl hid hfr)
      subst hok'
      rw [hc, concluding_cons, show Section.isOutcome (.task .io) = false from rfl,
        Bool.false_or] at hcon
      simp only [exec] at hx
      split at hx
      · cases hx
      · cases hx
        refine .inr ⟨j, _, World.commit_thread hj, ?_, ?_⟩
        · rw [Thread.settle_task]
          exact hid
        · rw [Thread.settle_of_code]
          · exact hfr
          · rintro (he : rest = [])
            rw [he] at hcon
            cases hcon
    · left
      obtain ⟨_, v', hh⟩ := h.heads j r hj hid hcon
      have hv := hh.only v (hc ▸ List.mem_cons_self)
      have hst : (w.commit j r.task x).status id = some v := by
        rw [← hid, World.status_commit hx]
        simp only [exec] at hx
        split at hx <;> cases hx
        rfl
      rw [World.isOver, hst, hv, Option.any_some]
      exact Status.terminal_of_outcome hh.final
    · have hout : (w.sectionOn id (.step j c)).any Section.isOutcome = true := by
        obtain ⟨_, outcome, hsuf⟩ := hfinr hfr
        rw [hc] at hsuf
        rw [World.sectionOn_step hj hc, if_pos hid]
        have hmem := hsuf.subset List.mem_cons_self
        rcases outcome with err | ⟨⟨⟩⟩ <;>
          simp only [finishJobCode, inTask, inManager, List.map_cons, List.map_nil,
            List.cons_append, List.nil_append, List.mem_cons, List.not_mem_nil, or_false,
            reduceCtorEq, false_or, Section.manager.injEq] at hmem <;> rw [hmem] <;> rfl
      obtain ⟨_, _, _, _, _, _, _, _, _, _, _, _, _, hover'⟩ := h.emission hw hout
      exact absurd hover' hover
  · refine .inr ⟨j, r, ?_, hid, hfr⟩
    by_cases ha' : ∃ i c, a = .step i c
    · obtain ⟨i, c, rfl⟩ := ha'
      obtain ⟨_, _, _, x, _, _, _, rfl⟩ := World.stepThread_some hs
      refine World.commit_thread_ne (fun he => ha ⟨c, ?_⟩) hj
      rw [he]
    · obtain ⟨new, hnew⟩ := (World.step_external hs fun i c he => ha' ⟨i, c, he⟩).threads
      rw [hnew]
      exact (List.getElem?_append_left (List.getElem?_eq_some_iff.1 hj).1).trans hj

theorem World.Ending.opens (hw : ∀ t ∈ w.threads, settlesWell t.code = true)
    (hl : w.OneIn launching id) (hok : OneOutcome id w a)
    (hrun : w.sectionOn id a = some (.task (.setStatus .running))) (hs : w.step a = some w') :
    w'.Ending id { running := true } := by
  have hstarts := World.inStage_eq_false (hok.starts hrun)
  obtain ⟨i, c, r, rest, rfl, hi, hc, hid⟩ := World.sectionOn_some hrun
  obtain ⟨_, _, _, x, hi', hc', hx, rfl⟩ := World.stepThread_some hs
  cases hi.symm.trans hi'
  cases hc.symm.trans hc'
  have hrest : rest = readyCode.tail := by
    have hwell := hw r (List.mem_of_getElem? hi)
    rw [hc, settlesWell, Bool.and_eq_true] at hwell
    simpa [Section.settles] using hwell.1
  have hlaunch : w.inStage launching id i = true :=
    World.inStage_iff.2 ⟨r, hi, hid, by rw [hc]; rfl⟩
  have hnew : x.thread.code = rest ∧ x.task.isSome = true := by
    simp only [exec] at hx
    split at hx <;> cases hx
    exact ⟨rfl, rfl⟩
  have hown : launching x.thread.settle.code = false ∧ concluding x.thread.settle.code = false := by
    have hne : x.thread.code ≠ [] := by
      rw [hnew.1, hrest]
      simp [readyCode, inTask]
    rw [Thread.settle_of_code hne, hnew.1, hrest]
    exact ⟨rfl, rfl⟩
  have hnone : ∀ (j : Nat) (r' : Thread), (w.commit i r.task x).threads[j]? = some r' → r'.task = id →
      launching r'.code = false ∧ concluding r'.code = false := by
    intro j r' hj hid'
    rcases World.getElem_commit hj with ⟨hji, hj⟩ | ⟨rfl, rfl⟩ | hj
    · refine ⟨Bool.eq_false_iff.2 fun hl' => ?_, Bool.eq_false_iff.2 fun hcon => ?_⟩
      · exact hji (hl j i (World.inStage_iff.2 ⟨r', hj, hid', hl'⟩) hlaunch)
      · have := hstarts j
        rw [World.inStage_iff.2 ⟨r', hj, hid', hcon⟩] at this
        cases this
    · exact hown
    · obtain ⟨_, _, _, ⟨_, hcode⟩ | ⟨_, hcode⟩⟩ := exec_spawned rfl hx _ hj <;> rw [hcode] <;>
        exact ⟨rfl, rfl⟩
  refine ⟨?_, fun j => ?_, fun j k hj => ?_, fun j r' hj hid' hcon => ?_,
    fun h0 => absurd h0 (Nat.lt_irrefl 0), fun h0 => absurd h0 (Nat.lt_irrefl 0)⟩
  · rw [← hid, World.status_commit hx, Option.isSome_map]
    exact hnew.2
  · refine Bool.eq_false_iff.2 fun hj => ?_
    obtain ⟨r', hj, hid', hl'⟩ := World.inStage_iff.1 hj
    rw [(hnone j r' hj hid').1] at hl'
    cases hl'
  · obtain ⟨r', hj, hid', hcon⟩ := World.inStage_iff.1 hj
    rw [(hnone j r' hj hid').2] at hcon
    cases hcon
  · rw [(hnone j r' hj hid').2] at hcon
    cases hcon

theorem World.Ending.first (h : w.Ending id log) (hf : ∀ t ∈ w.threads, t.Finalizing)
    (hok : OneOutcome id w a) (hsec : w.sectionOn id a = some (.task .finalizeDownload))
    (hs : w.step a = some w') :
    log.finalized = 0 ∧
      ∃ (j : Nat) (r : Thread), w'.threads[j]? = some r ∧ r.task = id ∧ r.frame = .finalize := by
  obtain ⟨i, c, r, rest, rfl, hi, hc, hid⟩ := World.sectionOn_some hsec
  obtain ⟨_, _, _, x, hi', hc', hx, rfl⟩ := World.stepThread_some hs
  cases hi.symm.trans hi'
  cases hc.symm.trans hc'
  simp only [exec] at hx
  split at hx
  · cases hx
  · rename_i t ht
    have ht : w.tasks[r.task]? = some t := ht
    have hone : w.concludes id (.step i c) = 1 := World.concludes_step hi hc hid (hid ▸ ht)
    obtain ⟨hover, _, hno⟩ := hok.begins (by rw [hone]; exact Nat.one_pos)
    refine ⟨?_, i, x.thread.settle, World.commit_thread hi, ?_, ?_⟩
    · by_contra hne
      rcases h.finalized (Nat.pos_of_ne_zero hne) with ho | ⟨j, r', hj, hid', hfr⟩
      · rw [ho] at hover
        cases hover
      · have hcon := (hf r' (List.mem_of_getElem? hj)).concluding hfr
        have := World.inStage_eq_false hno j
        rw [World.inStage_iff.2 ⟨r', hj, hid', hcon⟩] at this
        cases this
    · rw [Thread.settle_task]
      cases hx
      exact hid
    · cases hx
      rw [Thread.settle_of_code]
      show finishJobCode _ ≠ []
      cases c <;> simp [finishJobCode, inTask]

end Run

/-- What holds of the log of a task in a run in which every end is alone. -/
structure World.OneEnd (w : World) (id : Nat) (log : RunLog) : Prop where
  codes : ∀ t ∈ w.threads, settlesWell t.code = true
  finalizing : ∀ t ∈ w.threads, t.Finalizing
  launch : w.OneIn launching id
  once : log.announced ≤ 1 ∧ log.finalized ≤ 1 ∧ log.changed = false
  running : log.running = true → w.Ending id log

/-- The log stays right under every step, if every end is alone. -/
theorem World.OneEnd.step {w w' : World} {log : RunLog} (h : w.OneEnd id log)
    (hok : OneOutcome id w a) (hs : w.step a = some w') :
    w'.OneEnd id (log.note id w a w') := by
  have hcodes := settlesWell_invariant.step h.codes hs
  have hfin := World.finalizing_step h.finalizing hs
  have hlaunch := h.launch.step launching_gated (fun hp => World.inStage_eq_false (hok.alone hp)) hs
  unfold RunLog.note
  split
  · rename_i hrun
    exact ⟨hcodes, hfin, hlaunch, ⟨Nat.zero_le 1, Nat.zero_le 1, rfl⟩,
      fun _ => .opens h.codes h.launch hok hrun hs⟩
  · rename_i hrun
    split
    · exact ⟨hcodes, hfin, hlaunch, ⟨Nat.zero_le 1, Nat.zero_le 1, rfl⟩, fun hr => by cases hr⟩
    · rename_i hclose
      rw [not_or, not_not] at hclose
      obtain ⟨hpass, hdel⟩ := hclose
      split
      · rename_i hr
        have he := h.running hr
        obtain ⟨h1, h2, h3⟩ := h.once
        refine ⟨hcodes, hfin, hlaunch, ⟨?_, ?_, ?_⟩, fun _ => ⟨?_, ?_, ?_, ?_, ?_, ?_⟩⟩
        · cases hout : (w.sectionOn id a).any Section.isOutcome with
          | false => simpa using h1
          | true =>
            obtain ⟨_, _, _, _, _, _, _, _, _, _, _, _, hzero, _⟩ := he.emission h.codes hout
            simp [hzero]
        · by_cases hsec : w.sectionOn id a = some (.task .finalizeDownload)
          · simp [hsec, (he.first h.finalizing hok hsec hs).1]
          · rw [beq_eq_false_iff_ne.2 hsec]
            exact h2
        · rw [h3, Bool.false_or]
          refine Bool.eq_false_iff.2 fun hch => ?_
          simp only [World.changesEnd, Bool.and_eq_true, bne_iff_ne, ne_eq] at hch
          exact hch.2 (he.status h.codes hok hrun hdel hs hch.1.1).symm
        · exact World.status_isSome_step he.known hs
        · exact World.noneIn_step launching_gated he.started hpass hs
        · exact he.one_step h.finalizing hok hs
        · intro j r hj hid hcon
          obtain ⟨hzero, hquiet, hh⟩ := he.heads_step h.codes h.finalizing hok hrun hdel hs hj hid hcon
          exact ⟨by simp only [hzero, hquiet]; rfl, hh⟩
        · intro h0
          have hover : w.isOver id = true := by
            cases hout : (w.sectionOn id a).any Section.isOutcome with
            | false =>
              rw [hout] at h0
              exact he.ended h0
            | true =>
              obtain ⟨_, _, _, _, _, _, _, _, _, _, _, _, _, hover⟩ := he.emission h.codes hout
              exact hover
          rw [World.isOver, he.status h.codes hok hrun hdel hs hover]
          exact hover
        · intro h0
          by_cases hsec : w.sectionOn id a = some (.task .finalizeDownload)
          · exact .inr (he.first h.finalizing hok hsec hs).2
          · rw [beq_eq_false_iff_ne.2 hsec] at h0
            exact he.finalized_step h.codes h.finalizing hok hrun hdel hs h0
      · exact ⟨hcodes, hfin, hlaunch, h.once, fun hr => absurd hr ‹_›⟩

/-- In every run in which each end of a task is brought about while the task is not over and nobody
else is at it, at most one end is announced between a `Start` event and the next start, the download
is finalized at most once, and a final status does not give way to another one. -/
theorem run_ends_once (permits : Nat) (as : List Act) (w : World) (id : Nat)
    (hr : Transition.run World.step (World.new permits) as = some w)
    (hc : Transition.Meets World.step (OneOutcome id) (World.new permits) as) :
    (runLog id (World.new permits) as).announced ≤ 1 ∧
      (runLog id (World.new permits) as).finalized ≤ 1 ∧
      (runLog id (World.new permits) as).changed = false := by
  have hinit : (World.new permits).OneEnd id {} := by
    refine ⟨?_, ?_, ?_, ⟨Nat.zero_le 1, Nat.zero_le 1, rfl⟩, fun h => by cases h⟩
    · intro t ht
      exact absurd ht List.not_mem_nil
    · intro t ht
      exact absurd ht List.not_mem_nil
    · intro i j hi
      cases hi
  have hend := hc.history (I := fun w log => w.OneEnd id log) (n := RunLog.note id)
    (fun _ _ _ _ h hok hs => h.step hok hs) hinit hr
  exact hend.once

/-- A task is started with one worker. -/
def startedWithOne : List Act :=
  List.flatten [[.addTask .pending, .call .startTask 0], proceed 0 5, [.step 0 (.ready false)],
    proceed 0 2, [.step 0 (.create 1)], proceed 0 2, [.step 0 (.create 1)], proceed 0 3]

/-- Its worker transfers everything, and the download is finalized. -/
def completedOnce : List Act :=
  List.flatten [startedWithOne, proceed 1 3, [.step 1 .more], proceed 1 11, [.listen 0], proceed 2 1,
    [.listen 0], proceed 4 10]

theorem completed_run_ends_once :
    ∃ w, Transition.run World.step (World.new 1) completedOnce = some w ∧
      w.status 0 = some .completed ∧ (runLog 0 (World.new 1) completedOnce).running = true ∧
      (runLog 0 (World.new 1) completedOnce).announced ≤ 1 ∧
      (runLog 0 (World.new 1) completedOnce).finalized ≤ 1 ∧
      (runLog 0 (World.new 1) completedOnce).changed = false := by
  obtain ⟨w, hr, hst, hrun⟩ : ∃ w, Transition.run World.step (World.new 1) completedOnce = some w ∧
      w.status 0 = some .completed ∧ (runLog 0 (World.new 1) completedOnce).running = true :=
    Transition.run_any (by decide)
  exact ⟨w, hr, hst, hrun, run_ends_once 1 completedOnce w 0 hr (by decide)⟩

/-- Its worker fails: the error arrives as an event of the worker and again as the result of its
run. -/
def failedTwice : List Act :=
  List.flatten [startedWithOne, proceed 1 3, [.step 1 .more], proceed 1 3,
    [.step 1 (.fail (.other "connection reset"))], proceed 1 3, [.listen 0], proceed 2 9, [.join 0 0],
    proceed 4 8]

theorem failure_is_announced_twice :
    ∃ w, Transition.run World.step (World.new 1) failedTwice = some w ∧
      w.status 0 = some (.failed (.other "connection reset")) ∧
      (runLog 0 (World.new 1) failedTwice).announced = 2 :=
  Transition.run_any (by decide)

end Paradown
