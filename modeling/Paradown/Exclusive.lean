import Paradown.Runs

namespace Paradown
set_option autoImplicit true

variable {id : Nat}

def Section.isStartGate (s : Section) : Bool := s == .task .prepareForStart

/-- The sections of a start that prepare the file or the worker list. -/
def Section.builds : Section → Bool
  | .task .prepareDownload | .task .markEngineRunning | .task .ensureWorkers | .task .createWorkers
  | .task .installWorkers | .task .spawnWorkers => true
  | _ => false

/-- The call has passed `prepare_for_start` and is not through with the file and the workers: it has
still to prepare them, or to discard the workers of an earlier download. -/
def inStart : Code → Bool
  | [] => false
  | s :: rest =>
    s.builds || (s == .task .clearTaskWorkers && rest.head? == some (.task .io)) ||
      (!s.isStartGate && inStart rest)

/-- The call has passed `prepare_for_start` and has not come to `prepare_download`. -/
def preparing (code : Code) : Bool :=
  reaches (fun s => !s.isStartGate) (· == .task .prepareDownload) code

def Section.opensPreparation (s : Section) : Bool :=
  s.isStartGate || s == .task (.setStatus .preparing)

/-- The call has set the status to `Preparing` and has not come to `prepare_download`. -/
def announced (code : Code) : Bool :=
  reaches (fun s => !s.opensPreparation) (· == .task .prepareDownload) code

/-- Call `i` works on the task and is in the stage `f`. -/
def World.inStage (w : World) (f : Code → Bool) (id i : Nat) : Bool :=
  (w.threads[i]?).any fun t => t.task == id && f t.code

def World.inStart (w : World) (id i : Nat) : Bool := w.inStage Paradown.inStart id i

def World.active (w : World) (id : Nat) : Bool := (w.tasks[id]?).any (·.status.isActive)

/-- The states in which `prepare_for_start` lets a call pass. -/
def Status.mayStart : Status → Bool
  | .pending | .paused | .canceled | .failed _ => true
  | _ => false

/-- The call that passes `prepare_for_start` of the task with this action. -/
def World.passing (w : World) (id : Nat) : Act → Option Nat
  | .step i _ =>
    match w.next i with
    | some (t, .task .prepareForStart, _) =>
      if t.task = id ∧ (w.tasks[id]?).any (·.status.mayStart) then some i else none
    | _ => none
  | _ => none

/-- The call that enters `prepare_download` of the task with this action. -/
def World.entering (w : World) (id : Nat) : Act → Option Nat
  | .step i _ =>
    match w.next i with
    | some (t, .task .prepareDownload, _) => if t.task = id then some i else none
    | _ => none
  | _ => none

/-- Since the task last returned to a state that is not active: the calls that have passed
`prepare_for_start`, and how many of them have entered `prepare_download`. -/
structure StartLog where
  passed : List Nat := []
  entered : Nat := 0
  deriving DecidableEq, Repr

def StartLog.note (id : Nat) (log : StartLog) (w : World) (a : Act) (w' : World) : StartLog :=
  if w.active id && !w'.active id then {}
  else
    match w.passing id a, w.entering id a with
    | some i, _ => { log with passed := i :: log.passed }
    | none, some i => if i ∈ log.passed then { log with entered := log.entered + 1 } else log
    | none, none => log

/-- What is noted along a run. -/
def startLog (id : Nat) (w : World) (as : List Act) : StartLog :=
  Transition.history World.step (StartLog.note id) {} w as

/-- A call passes `prepare_for_start` only while no other call is in a start of the task. -/
def StartsAlone (w : World) (a : Act) : Prop :=
  ∀ id < w.tasks.length, w.passing id a ≠ none → ∀ j < w.threads.length, w.inStart id j = false

instance : Decidable (StartsAlone w a) := inferInstanceAs (Decidable (∀ _ < _, _))

theorem inStart_rest (h : inStart (s :: rest) = false) (hg : s.isStartGate = false) :
    s.builds = false ∧ inStart rest = false := by
  simp only [inStart, hg, Bool.not_false, Bool.true_and, Bool.or_eq_false_iff] at h
  exact ⟨h.1.1, h.2⟩

theorem inStart_append (hp : ∀ m ∈ pre, Section.builds (.task m) = false ∧ m ≠ .clearTaskWorkers)
    (h : inStart rest = false) : inStart (inTask pre ++ rest) = false := by
  induction pre with
  | nil => exact h
  | cons m pre ih =>
    obtain ⟨hb, hm⟩ := hp m List.mem_cons_self
    have hne : (Section.task m == .task .clearTaskWorkers) = false := by
      simpa using hm
    rw [inTask, List.map_cons, List.cons_append, inStart, hb, hne, Bool.false_and, Bool.or_self,
      Bool.false_or, Bool.and_eq_false_iff]
    exact .inr (ih fun m' hm' => hp m' (List.mem_cons_of_mem m hm'))

theorem isStop_builds {m : TaskSection} (h : m.isStop = true) :
    Section.builds (.task m) = false ∧ m ≠ .clearTaskWorkers := by
  cases m with
  | stopEach _ | stopWorker _ _ | emitStop _ _ => exact ⟨rfl, by simp⟩
  | _ => cases h

theorem TaskEffect.inStart (h : TaskEffect t rest frame s status code frame')
    (hp : inStart (.task s :: rest) = false) (hg : Section.isStartGate (.task s) = false) :
    inStart code = false := by
  obtain ⟨hb, hr⟩ := inStart_rest hp hg
  cases h with
  | next | set => exact hr
  | stop _ hpre =>
    exact inStart_append (fun m hm => isStop_builds (List.all_eq_true.1 hpre m hm)) hr
  | check => exact @inStart_append [.checkEach _] _ (by simp [Section.builds]) hr
  | fail => cases frame <;> rfl
  | checked =>
    rename_i check
    cases check <;> rfl
  | finalize =>
    rename_i outcome
    rcases outcome with _ | ⟨⟨⟩⟩ <;> rfl
  | halt | deleteFailed | pause | cancel | persistFailed | resumeStart | resumeSession
  | resumeAgain => rfl
  | reset => cases hg
  | prepared | engineOver | engineRunning | recreate | reuse => cases hb

theorem inStart_eq_false (h : ∀ s ∈ code, s.builds = false ∧ s ≠ .task .clearTaskWorkers) :
    inStart code = false := by
  induction code with
  | nil => rfl
  | cons s rest ih =>
    obtain ⟨hb, hs⟩ := h s List.mem_cons_self
    rw [inStart, hb, ih fun m hm => h m (List.mem_cons_of_mem s hm)]
    simp [hs]

theorem inStart_gated : Gated Section.isStartGate inStart where
  tail := fun s rest h hg => (inStart_rest h hg).2
  effect := fun h hp hg => h.inStart hp hg
  transition := fun action => by cases action <;> rfl
  manager := fun sections => inStart_eq_false (by simp [inManager, Section.builds])
  run := fun sections => inStart_eq_false (by simp [inWorker, Section.builds])
  persist := rfl
  entry := fun t ht => by
    cases ht with
    | call call id => cases call <;> rfl
    | handler event id => cases event <;> rfl
    | listener event id worker => cases event <;> rfl
    | engine event id => cases event <;> rfl
    | joiner id runs =>
      refine inStart_eq_false fun s hs => ?_
      obtain ⟨err, _, hs⟩ := List.mem_flatMap.1 hs
      simp only [stopWorkersAndFailCode, inTask, inManager, List.map_cons, List.map_nil,
        List.cons_append, List.nil_append, List.mem_cons, List.not_mem_nil, or_false] at hs
      rcases hs with rfl | rfl | rfl | rfl | rfl <;> exact ⟨rfl, by simp⟩

theorem FixedCode.preparation (h : FixedCode code) :
    Section.task .prepareDownload ∉ code ∨
      ∃ pre, code = pre ++ startCode ∧ Section.task .prepareDownload ∉ pre := by
  cases h with
  | transition action =>
    cases action with
    | resume => exact .inl (by decide)
    | start | retry => exact .inr ⟨inManager [.acquire _, .lookup], rfl, by decide⟩
  | start => exact .inr ⟨[], rfl, by decide⟩
  | again => exact .inr ⟨inTask [.io], rfl, by decide⟩
  | onErr frame => cases frame <;> exact .inl (by decide)
  | ready discard => cases discard <;> exact .inl (by decide)
  | finish discard outcome =>
    rcases outcome with _ | ⟨⟨⟩⟩ <;> cases discard <;>
      exact .inl (by simp [finishJobCode, discardCode, inTask, inManager])
  | checked check => cases check <;> exact .inl (by decide)
  | finalize outcome =>
    rcases outcome with _ | ⟨⟨⟩⟩ <;> exact .inl (by simp [finishJobCode, inTask, inManager])
  | fail err => exact .inl (by simp [stopWorkersAndFailCode, inTask, inManager])
  | deleteFailed err => exact .inl (by simp [deleteFailedCode, inTask, inManager])
  | enqueue action => exact .inl (by simp [inManager])
  | _ => exact .inl (by decide)

section Preparation
variable {gate : Section → Bool}

theorem reaches_append_eq_false (hp : ∀ s ∈ pre, goal s = false)
    (h : reaches through goal rest = false) : reaches through goal (pre ++ rest) = false := by
  induction pre with
  | nil => exact h
  | cons s pre ih =>
    rw [List.cons_append, reaches, hp s List.mem_cons_self,
      ih fun m hm => hp m (List.mem_cons_of_mem s hm)]
    simp

theorem preparation_eq_false (h : Section.task .prepareDownload ∉ code) :
    reaches through (· == .task .prepareDownload) code = false := by
  refine reaches_eq_false fun s hs => ?_
  rw [beq_eq_false_iff_ne]
  rintro rfl
  exact h hs

theorem preparation_startCode (hg : gate (.task .prepareForStart) = true)
    (h : Section.task .prepareDownload ∉ pre) :
    reaches (fun s => !gate s) (· == .task .prepareDownload) (pre ++ startCode) = false := by
  refine reaches_append_eq_false (fun s hs => ?_) ?_
  · rw [beq_eq_false_iff_ne]
    rintro rfl
    exact h hs
  · simp [startCode, inTask, reaches, hg]

/-- Being on the way to `prepare_download` is a stage behind every gate that contains
`prepare_for_start`. -/
theorem preparation_gated (hg : gate (.task .prepareForStart) = true) :
    Gated gate (reaches (fun s => !gate s) (· == .task .prepareDownload)) where
  tail := fun s rest h hs => by
    rw [reaches, hs, Bool.not_false, Bool.true_and, Bool.or_eq_false_iff] at h
    exact h.2
  effect := fun {t rest frame s status code frame'} h hp hs => by
    rw [reaches, hs, Bool.not_false, Bool.true_and, Bool.or_eq_false_iff] at hp
    rcases h.fixed with ⟨pre, hpre, rfl⟩ | hfixed
    · refine reaches_append_eq_false (fun m hm => ?_) hp.2
      obtain ⟨m, hmem, rfl⟩ := List.mem_map.1 hm
      have := List.all_eq_true.1 hpre m hmem
      cases m <;> first | rfl | cases this
    · rcases hfixed.preparation with hno | ⟨pre, rfl, hno⟩
      · exact preparation_eq_false hno
      · exact preparation_startCode hg hno
  transition := fun action => by
    rcases (FixedCode.transition action).preparation with hno | ⟨pre, hc, hno⟩
    · exact preparation_eq_false hno
    · rw [hc]
      exact preparation_startCode hg hno
  manager := fun sections => preparation_eq_false (by simp [inManager])
  run := fun sections => preparation_eq_false (by simp [inWorker])
  persist := preparation_eq_false (by decide)
  entry := fun t ht => by
    cases ht with
    | call call id =>
      cases call with
      | startTask =>
        have hno : Section.task .prepareDownload ∉ inManager [.acquire .start, .lookup] := by decide
        exact preparation_startCode hg hno
      | _ => exact preparation_eq_false (by
          simp [Call.toThread, Call.code, transitionCode, deleteCode, inTask, inManager])
    | handler event id =>
      cases event <;>
        exact preparation_eq_false (by simp [handlerThread, handlerCode, inManager])
    | listener event id worker =>
      cases event <;>
        exact preparation_eq_false (by
          simp [listenerThread, listenerCode, stopWorkersAndFailCode, inTask, inManager])
    | engine event id =>
      cases event <;>
        exact preparation_eq_false (by
          simp [engineThread, engineEventCode, finishJobCode, inTask, inManager])
    | joiner id runs =>
      refine preparation_eq_false fun hs => ?_
      obtain ⟨err, _, hs⟩ := List.mem_flatMap.1 hs
      simp [stopWorkersAndFailCode, inTask, inManager] at hs

end Preparation

theorem preparing_gated : Gated Section.isStartGate preparing := preparation_gated rfl

theorem announced_gated : Gated Section.opensPreparation announced := preparation_gated rfl

theorem inStart_of_preparing (h : preparing code = true) : inStart code = true := by
  induction code with
  | nil => cases h
  | cons s rest ih =>
    rw [preparing, reaches, Bool.or_eq_true, Bool.and_eq_true, beq_iff_eq] at h
    rw [inStart, Bool.or_eq_true]
    rcases h with rfl | ⟨hg, hr⟩
    · exact .inl rfl
    · exact .inr (by rw [hg, ih hr]; rfl)

/-- `prepare_for_start` is followed by the rest of `start`. -/
def startsWell : Code → Bool
  | [] => true
  | s :: rest => (!s.isStartGate || rest == startCode.tail) && startsWell rest

theorem startsWell_append (hp : ∀ s ∈ pre, s.isStartGate = false) (h : startsWell rest = true) :
    startsWell (pre ++ rest) = true := by
  induction pre with
  | nil => exact h
  | cons s pre ih =>
    rw [List.cons_append, startsWell, hp s List.mem_cons_self,
      ih fun m hm => hp m (List.mem_cons_of_mem s hm)]
    rfl

theorem startsWell_of_no_gate (h : ∀ s ∈ code, s.isStartGate = false) : startsWell code = true := by
  rw [← List.append_nil code]
  exact startsWell_append h rfl

theorem FixedCode.startsWell (h : FixedCode code) : startsWell code = true := by
  cases h with
  | transition action => cases action <;> rfl
  | onErr frame => cases frame <;> rfl
  | ready discard => cases discard <;> rfl
  | finish discard outcome => rcases outcome with _ | ⟨⟨⟩⟩ <;> cases discard <;> rfl
  | checked check => cases check <;> rfl
  | finalize outcome => rcases outcome with _ | ⟨⟨⟩⟩ <;> rfl
  | _ => rfl

theorem startsWell_invariant : CodeInvariant startsWell where
  tail _ _ h := by
    rw [Paradown.startsWell, Bool.and_eq_true] at h
    exact h.2
  aside pre _ hp h := by
    refine startsWell_append (fun s hs => ?_) h
    obtain ⟨m, hm, rfl⟩ := List.mem_map.1 hs
    have := List.all_eq_true.1 hp m hm
    cases m <;> first | rfl | cases this
  fixed _ h := h.startsWell
  run _ h := by
    obtain ⟨run, rfl⟩ := h.eq_inWorker
    exact startsWell_of_no_gate (by simp [inWorker, Section.isStartGate])
  entry _ h := by
    cases h with
    | call call id => cases call <;> rfl
    | handler event id => cases event <;> rfl
    | listener event id worker => cases event <;> rfl
    | engine event id => cases event <;> rfl
    | joiner id runs =>
      refine startsWell_of_no_gate fun s hs => ?_
      obtain ⟨err, _, hs⟩ := List.mem_flatMap.1 hs
      simp only [stopWorkersAndFailCode, inTask, inManager, List.map_cons, List.map_nil,
        List.cons_append, List.nil_append, List.mem_cons, List.not_mem_nil, or_false] at hs
      rcases hs with rfl | rfl | rfl | rfl | rfl <;> rfl

theorem exec_prepareForStart {x y : Context} (h : exec c x (.task .prepareForStart) = some y) :
    ∃ t, x.task = some t ∧ y.task = some t ∧
      (t.status.mayStart = true ∧
          (y.thread.code = x.thread.code ∨ y.thread.code = resetTaskCode ++ x.thread.code) ∨
        t.status.mayStart = false ∧ y.thread.code = x.thread.frame.onErr) := by
  simp only [exec] at h
  split at h
  · cases h
  · rename_i t ht
    refine ⟨t, ht, ?_⟩
    simp only [execTask] at h
    split at h <;> rename_i hs <;> cases h
    · exact ⟨ht, .inl ⟨by rw [hs]; rfl, .inl rfl⟩⟩
    · exact ⟨ht, .inl ⟨by rw [hs]; rfl, .inl rfl⟩⟩
    · exact ⟨ht, .inl ⟨by rw [hs]; rfl, .inr rfl⟩⟩
    · exact ⟨ht, .inl ⟨by rw [hs]; rfl, .inr rfl⟩⟩
    · refine ⟨ht, .inr ⟨?_, rfl⟩⟩
      cases hst : t.status <;> simp_all [Status.mayStart]

theorem exec_prepareDownload {x y : Context} (h : exec c x (.task .prepareDownload) = some y) :
    preparing y.thread.code = false := by
  simp only [exec] at h
  split at h
  · cases h
  · rename_i t ht
    simp only [execTask] at h
    split at h <;> cases h
    · rename_i code hp
      show preparing code = false
      unfold preparedCode at hp
      split at hp <;> cases hp
      · rename_i discard
        cases discard <;> rfl
      · rename_i discard outcome
        rcases outcome with _ | ⟨⟨⟩⟩ <;> cases discard <;> rfl
      · rfl
    · show preparing x.thread.frame.onErr = false
      cases x.thread.frame <;> rfl

theorem Status.not_active_of_mayStart {s : Status} (h : s.mayStart = true) : s.isActive = false := by
  cases s <;> first | rfl | cases h

theorem World.inStage_iff {w : World} {f : Code → Bool} {j : Nat} :
    w.inStage f id j = true ↔ ∃ r, w.threads[j]? = some r ∧ r.task = id ∧ f r.code = true := by
  simp [World.inStage, Option.any_eq_true]

theorem World.inStage_eq_false {w : World} {f : Code → Bool}
    (h : ∀ j < w.threads.length, w.inStage f id j = false) (j : Nat) : w.inStage f id j = false := by
  by_cases hj : j < w.threads.length
  · exact h j hj
  · simp [World.inStage, List.getElem?_eq_none (Nat.le_of_not_lt hj)]

theorem Gated.task {gate : Section → Bool} {f : Code → Bool} (hf : Gated gate f) {w : World}
    {r : Thread} (hx : exec c (w.context r rest) s = some x)
    (hr : f x.thread.settle.code = true) : x.thread.settle.task = r.task := by
  rw [Thread.settle_task]
  rcases exec_moves rfl hx with he | ⟨action, _, he, _⟩
  · exact he
  · have := hf.settle (t := x.thread) (he ▸ hf.transition action.requested)
    rw [this] at hr
    cases hr

theorem World.passing_of_stage {gate : Section → Bool} {f : Code → Bool} (hf : Gated gate f)
    {w : World} {i : Nat} (hi : w.threads[i]? = some r) (hc : r.code = .task .prepareForStart :: rest)
    (hx : exec c (w.context r rest) (.task .prepareForStart) = some x)
    (hr : f x.thread.settle.code = true) : w.passing r.task (.step i c) = some i := by
  obtain ⟨t, ht, _, ⟨hm, _⟩ | ⟨_, hcode⟩⟩ := exec_prepareForStart hx
  · have ht : w.tasks[r.task]? = some t := ht
    simp [World.passing, World.next_eq hi hc, ht, hm]
  · have := hf.settle (t := x.thread) (by
      rw [hcode]
      cases (w.context r rest).thread.frame with
      | transition => exact hf.manager [.dropPermit, .clearSlot, .popNext]
      | plain => exact hf.manager []
      | finalize => exact hf.manager [.emit .error])
    rw [this] at hr
    cases hr

/-- At most one call of the task is in the stage `f`. -/
def World.OneIn (w : World) (f : Code → Bool) (id : Nat) : Prop :=
  ∀ i j, w.inStage f id i = true → w.inStage f id j = true → i = j

/-- At most one call is in a start of the task. -/
def World.OneStart (w : World) (id : Nat) : Prop := w.OneIn Paradown.inStart id

/-- A stage of a start stays with one call if the others pass `prepare_for_start` only while no call
is in it. -/
theorem World.OneIn.step {f : Code → Bool} (hf : Gated Section.isStartGate f) {w w' : World}
    (h : w.OneIn f id) (hok : w.passing id a ≠ none → ∀ j, w.inStage f id j = false)
    (hs : w.step a = some w') : w'.OneIn f id := by
  intro j k hj hk
  obtain ⟨rj, hj, hjt, hjs⟩ := World.inStage_iff.1 hj
  obtain ⟨rk, hk, hkt, hks⟩ := World.inStage_iff.1 hk
  by_cases ha : ∃ i c, a = .step i c
  · obtain ⟨i, c, rfl⟩ := ha
    obtain ⟨r, s, rest, x, hi, hc, hx, rfl⟩ := World.stepThread_some hs
    -- The call that makes the step was in the stage before, or nobody was.
    have hown : ∀ r' : Thread, r' = x.thread.settle → r'.task = id → f r'.code = true →
        (f r.code = true ∨ Section.isStartGate s = true) →
        w.inStage f id i = true ∨ ∀ m, w.inStage f id m = false := by
      rintro r' rfl hid hr' hstage
      have hid : r.task = id := (hf.task hx hr').symm.trans hid
      rcases hstage with hstage | hgate
      · exact .inl (World.inStage_iff.2 ⟨r, hi, hid, hstage⟩)
      · have hgate : s = .task .prepareForStart := by simpa [Section.isStartGate] using hgate
        subst hgate
        have hpass := World.passing_of_stage hf hi hc hx hr'
        rw [hid] at hpass
        exact .inr (hok (by simp [hpass]))
    rcases hf.commit hi hc hx hj hjs with ⟨hji, hj⟩ | ⟨rfl, hje, hjo⟩ <;>
      rcases hf.commit hi hc hx hk hks with ⟨hki, hk⟩ | ⟨rfl, hke, hko⟩
    · exact h j k (World.inStage_iff.2 ⟨rj, hj, hjt, hjs⟩) (World.inStage_iff.2 ⟨rk, hk, hkt, hks⟩)
    · have hold : w.inStage f id j = true := World.inStage_iff.2 ⟨rj, ‹_›, hjt, hjs⟩
      rcases hown rk hke hkt hks hko with hnow | hnone
      · exact h j k hold hnow
      · rw [hnone j] at hold
        cases hold
    · have hold : w.inStage f id k = true := World.inStage_iff.2 ⟨rk, ‹_›, hkt, hks⟩
      rcases hown rj hje hjt hjs hjo with hnow | hnone
      · exact h j k hnow hold
      · rw [hnone k] at hold
        cases hold
    · rfl
  · have ha : ∀ i c, a ≠ .step i c := fun i c he => ha ⟨i, c, he⟩
    exact h j k
      (World.inStage_iff.2 ⟨rj, hf.external hs ha hj hjs, hjt, hjs⟩)
      (World.inStage_iff.2 ⟨rk, hf.external hs ha hk hks, hkt, hks⟩)

theorem World.passing_task {w : World} (h : w.passing id a ≠ none) : id < w.tasks.length := by
  cases a with
  | step i c =>
    simp only [World.passing] at h
    split at h
    · split at h
      · rename_i hp
        obtain ⟨t, ht, _⟩ := (Option.any_eq_true _ _).1 hp.2
        exact (List.getElem?_eq_some_iff.1 ht).1
      · exact absurd rfl h
    · exact absurd rfl h
  | _ => exact absurd rfl h

theorem World.OneStart.step {w w' : World} (h : w.OneStart id) (hok : StartsAlone w a)
    (hs : w.step a = some w') : w'.OneStart id :=
  World.OneIn.step inStart_gated h
    (fun hp => World.inStage_eq_false (hok id (World.passing_task hp) hp)) hs

theorem World.passing_some {w : World} (h : w.passing id a = some k) :
    ∃ c r rest, a = .step k c ∧ w.threads[k]? = some r ∧
      r.code = .task .prepareForStart :: rest ∧ r.task = id ∧ w.active id = false := by
  cases a with
  | step i c =>
    simp only [World.passing] at h
    split at h
    · rename_i r rest hn
      split at h <;> cases h
      rename_i hp
      obtain ⟨hi, hc⟩ := World.next_some hn
      obtain ⟨t, ht, hm⟩ := (Option.any_eq_true _ _).1 hp.2
      refine ⟨c, r, rest, rfl, hi, hc, hp.1, ?_⟩
      rw [World.active, ht, Option.any_some, Status.not_active_of_mayStart hm]
    · cases h
  | _ => cases h

theorem World.entering_some {w : World} (h : w.entering id a = some k) :
    ∃ c r rest, a = .step k c ∧ w.threads[k]? = some r ∧
      r.code = .task .prepareDownload :: rest ∧ r.task = id := by
  cases a with
  | step i c =>
    simp only [World.entering] at h
    split at h
    · rename_i r rest hn
      split at h <;> cases h
      obtain ⟨hi, hc⟩ := World.next_some hn
      exact ⟨c, r, rest, rfl, hi, hc, ‹_›⟩
    · cases h
  | _ => cases h

/-- What holds of the log of a task in a run in which starts are alone. -/
structure World.Exclusive (w : World) (id : Nat) (log : StartLog) : Prop where
  starts : ∀ t ∈ w.threads, startsWell t.code = true
  one : w.OneStart id
  once : log.entered ≤ 1
  entered : 0 < log.entered → w.active id = true
  passed : ∀ j ∈ log.passed, ∀ r, w.threads[j]? = some r → r.task = id →
    preparing r.code = true → log.entered = 0 ∧ (announced r.code = true → w.active id = true)

section Note
variable {w w' : World} {log : StartLog} {k : Nat}

theorem World.Exclusive.announced_of_pass (h : w.Exclusive id log) (hi : w.threads[k]? = some r)
    (hc : r.code = .task .prepareForStart :: rest)
    (hx : exec c (w.context r rest) (.task .prepareForStart) = some x) :
    announced x.thread.settle.code = false := by
  apply announced_gated.settle
  have hwell := h.starts r (List.mem_of_getElem? hi)
  rw [hc, startsWell, Bool.and_eq_true] at hwell
  have hrest : rest = startCode.tail := by simpa [Section.isStartGate] using hwell.1
  obtain ⟨t, _, _, ⟨_, hcode | hcode⟩ | ⟨_, hcode⟩⟩ := exec_prepareForStart hx <;> rw [hcode]
  · rw [show (w.context r rest).thread.code = rest from rfl, hrest]
    rfl
  · rw [show (w.context r rest).thread.code = rest from rfl, hrest]
    rfl
  · cases (w.context r rest).thread.frame <;> rfl

theorem World.Exclusive.pass (h : w.Exclusive id log) (hs : w.step a = some w')
    (hp : w.passing id a = some k) (hkeep : w.active id = true → w'.active id = true) :
    ∀ j ∈ k :: log.passed, ∀ r, w'.threads[j]? = some r → r.task = id →
      preparing r.code = true → log.entered = 0 ∧ (announced r.code = true → w'.active id = true) := by
  obtain ⟨c, r, rest, rfl, hi, hc, hid, hact⟩ := World.passing_some hp
  obtain ⟨r₁, s, rest₁, x, hi₁, hc₁, hx, rfl⟩ := World.stepThread_some hs
  cases hi.symm.trans hi₁
  cases hc.symm.trans hc₁
  have hzero : log.entered = 0 := by
    by_contra hne
    rw [h.entered (Nat.pos_of_ne_zero hne)] at hact
    cases hact
  intro j hj r' hr' hid' hprep
  refine ⟨hzero, fun hann => ?_⟩
  rcases preparing_gated.commit hi hc hx hr' hprep with ⟨hji, hj'⟩ | ⟨_, he, _⟩
  · have hmem : j ∈ log.passed := (List.mem_cons.1 hj).resolve_left hji
    exact hkeep ((h.passed j hmem r' hj' hid' hprep).2 hann)
  · rw [he, h.announced_of_pass hi hc hx] at hann
    cases hann

theorem World.Exclusive.enter (h : w.Exclusive id log) (hs : w.step a = some w')
    (he : w.entering id a = some k) (hk : k ∈ log.passed) :
    log.entered = 0 ∧ w.active id = true ∧
      ∀ j ∈ log.passed, ∀ r, w'.threads[j]? = some r → r.task = id → preparing r.code = false := by
  obtain ⟨c, r, rest, rfl, hi, hc, hid⟩ := World.entering_some he
  obtain ⟨r₁, s, rest₁, x, hi₁, hc₁, hx, rfl⟩ := World.stepThread_some hs
  cases hi.symm.trans hi₁
  cases hc.symm.trans hc₁
  have hprep : preparing r.code = true := by
    rw [hc]
    rfl
  obtain ⟨hzero, hann⟩ := h.passed k hk r hi hid hprep
  refine ⟨hzero, hann (by rw [hc]; rfl), fun j hj r' hr' hid' => ?_⟩
  by_contra hp
  rw [Bool.not_eq_false] at hp
  rcases preparing_gated.commit hi hc hx hr' hp with ⟨hji, hj'⟩ | ⟨_, he', _⟩
  · refine hji (h.one j k (World.inStage_iff.2 ⟨r', hj', hid', inStart_of_preparing hp⟩)
      (World.inStage_iff.2 ⟨r, hi, hid, inStart_of_preparing hprep⟩))
  · rw [he', preparing_gated.settle (exec_prepareDownload hx)] at hp
    cases hp

theorem World.Exclusive.go (h : w.Exclusive id log) (hs : w.step a = some w')
    (hp : w.passing id a = none) (hkeep : w.active id = true → w'.active id = true) :
    ∀ j ∈ log.passed, ∀ r, w'.threads[j]? = some r → r.task = id →
      preparing r.code = true → log.entered = 0 ∧ (announced r.code = true → w'.active id = true) := by
  intro j hj r' hr' hid' hprep
  by_cases ha : ∃ i c, a = .step i c
  · obtain ⟨i, c, rfl⟩ := ha
    obtain ⟨r, s, rest, x, hi, hc, hx, rfl⟩ := World.stepThread_some hs
    rcases preparing_gated.commit hi hc hx hr' hprep with ⟨hji, hj'⟩ | ⟨rfl, rfl, hstage⟩
    · obtain ⟨hzero, hann⟩ := h.passed j hj r' hj' hid' hprep
      exact ⟨hzero, fun ha => hkeep (hann ha)⟩
    · have hid : r.task = id := (preparing_gated.task hx hprep).symm.trans hid'
      have hgate : s ≠ .task .prepareForStart := by
        rintro rfl
        rw [← hid, World.passing_of_stage preparing_gated hi hc hx hprep] at hp
        cases hp
      have hstage : preparing r.code = true :=
        hstage.resolve_right fun hg => hgate (by simpa [Section.isStartGate] using hg)
      obtain ⟨hzero, hann⟩ := h.passed j hj r hi hid hstage
      refine ⟨hzero, fun ha => ?_⟩
      rcases announced_gated.commit hi hc hx hr' ha with ⟨hji, _⟩ | ⟨_, _, hbefore | hopen⟩
      · exact absurd rfl hji
      · exact hkeep (hann hbefore)
      · -- The call has just set the status.
        have hset : s = .task (.setStatus .preparing) := by
          simpa [Section.opensPreparation, Section.isStartGate, hgate] using hopen
        subst hset
        simp only [exec] at hx
        split at hx
        · cases hx
        · rename_i t ht
          have htask : (w.commit j r.task x).tasks[r.task]? = x.task := World.commit_task (by
            rw [show w.tasks[r.task]? = some t from ht]
            cases hx
            rfl)
          cases hx
          rw [World.active, ← hid, htask]
          rfl
  · have ha : ∀ i c, a ≠ .step i c := fun i c he => ha ⟨i, c, he⟩
    have hj' := preparing_gated.external hs ha hr' hprep
    obtain ⟨hzero, hann⟩ := h.passed j hj r' hj' hid' hprep
    exact ⟨hzero, fun ha => hkeep (hann ha)⟩

/-- The log stays right under every step, if starts are alone. -/
theorem World.Exclusive.step (h : w.Exclusive id log) (hok : StartsAlone w a)
    (hs : w.step a = some w') : w'.Exclusive id (log.note id w a w') := by
  have hstarts := startsWell_invariant.step h.starts hs
  have hone := h.one.step hok hs
  unfold StartLog.note
  split
  · exact ⟨hstarts, hone, Nat.zero_le 1, fun h0 => absurd h0 (Nat.lt_irrefl 0),
      fun j hj => absurd hj List.not_mem_nil⟩
  · rename_i hret
    have hkeep : w.active id = true → w'.active id = true := by
      intro hact
      by_contra hno
      rw [Bool.not_eq_true] at hno
      exact hret (by rw [hact, hno]; rfl)
    split
    · exact ⟨hstarts, hone, h.once, fun h0 => hkeep (h.entered h0), h.pass hs ‹_› hkeep⟩
    · rename_i k hp he
      split
      · obtain ⟨hzero, hact, hnone⟩ := h.enter hs he ‹_›
        refine ⟨hstarts, hone, by simp [hzero], fun _ => hkeep hact, fun j hj r hr hid hprep => ?_⟩
        rw [hnone j hj r hr hid] at hprep
        cases hprep
      · exact ⟨hstarts, hone, h.once, fun h0 => hkeep (h.entered h0), h.go hs hp hkeep⟩
    · rename_i hp _
      exact ⟨hstarts, hone, h.once, fun h0 => hkeep (h.entered h0), h.go hs hp hkeep⟩

end Note

/-- In every run in which calls pass `prepare_for_start` only while no other call is in a start of the
task, at most one call passes it and enters `prepare_download` between two returns of the task to a
state that is not active, and two starts are never under way at the same time. -/
theorem starts_are_exclusive (permits : Nat) (as : List Act) (w : World) (id : Nat)
    (hr : Transition.run World.step (World.new permits) as = some w)
    (hc : Transition.Meets World.step StartsAlone (World.new permits) as) :
    (startLog id (World.new permits) as).entered ≤ 1 ∧ w.OneStart id := by
  have hinit : (World.new permits).Exclusive id {} := by
    refine ⟨?_, ?_, Nat.zero_le 1, fun h0 => absurd h0 (Nat.lt_irrefl 0),
      fun j hj => absurd hj List.not_mem_nil⟩
    · intro t ht
      exact absurd ht List.not_mem_nil
    · intro i j hi
      cases hi
  have hend := hc.history (I := fun w log => w.Exclusive id log) (n := StartLog.note id)
    (fun _ _ _ _ h hok hs => h.step hok hs) hinit hr
  exact ⟨hend.once, hend.one⟩

/-- A task is started twice, the second time while it is running. -/
def startedTwice : List Act :=
  List.flatten [[.addTask .pending, .call .startTask 0], proceed 0 5, [.step 0 (.ready false)],
    proceed 0 2, [.call .startTask 0], proceed 1 3]

theorem second_start_is_refused :
    ∃ w, Transition.run World.step (World.new 2) startedTwice = some w ∧
      (startLog 0 (World.new 2) startedTwice).passed = [0] ∧ w.inStart 0 0 = true ∧
      (startLog 0 (World.new 2) startedTwice).entered ≤ 1 ∧ w.OneStart 0 := by
  obtain ⟨w, hr, hp, hi⟩ : ∃ w, Transition.run World.step (World.new 2) startedTwice = some w ∧
      (startLog 0 (World.new 2) startedTwice).passed = [0] ∧ w.inStart 0 0 = true :=
    Transition.run_any (by decide)
  exact ⟨w, hr, hp, hi, starts_are_exclusive 2 startedTwice w 0 hr (by decide)⟩

/-- Two starts of a pending task: both calls look at the status before either of them sets it. -/
def startedTogether : List Act :=
  List.flatten [[.addTask .pending, .call .startTask 0, .call .startTask 0], proceed 0 3, proceed 1 3,
    proceed 0 2, proceed 1 2, [.step 0 (.ready false), .step 1 (.ready false)]]

theorem two_starts_prepare_together :
    ∃ w, Transition.run World.step (World.new 2) startedTogether = some w ∧
      (startLog 0 (World.new 2) startedTogether).entered = 2 ∧ w.inStart 0 0 = true ∧
      w.inStart 0 1 = true :=
  Transition.run_any (by decide)

end Paradown
