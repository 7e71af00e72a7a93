import Paradown.Runs
import Paradown.Capacity

namespace Paradown
set_option autoImplicit true

variable {id k n : Nat}

/-- The sections with which `Task::start` and `Task::resume` begin. -/
def Section.isGate : Section → Bool
  | .task .prepareForStart | .task .resumeGate => true
  | _ => false

/-- The sections of a start that make the task active or lead to new worker runs. -/
def Section.launches : Section → Bool
  | .task s =>
    match s with
    | .setStatus status => status.isActive
    | .prepareDownload | .markEngineRunning | .ensureWorkers | .createWorkers | .installWorkers
    | .spawnWorkers => true
    | _ => false
  | _ => false

/-- The call is a start or resume that has begun and is not over. -/
def pastGate (code : Code) : Bool := reaches (fun s => !s.isGate) Section.launches code

/-- The run comes to a section of `goal` before it comes to `gate`. -/
def comesTo (gate : WorkerSection) (goal : Section → Bool) (code : Code) : Bool :=
  reaches (fun s => s != .worker gate) goal code

/-- Worker `k` of the task. -/
def World.worker (w : World) (id k : Nat) : Option WorkerState :=
  (w.tasks[id]?).bind (·.arena[k]?)

/-- The worker has to stop, and each of its runs looks before it sends a request. -/
def World.Stopped (w : World) (id k : Nat) : Prop :=
  (∃ s ∈ w.worker id k, s.shouldStopGracefully = true) ∧
    ∀ r ∈ w.threads, r.task = id → r.worker = k →
      comesTo .stopGate (· == .worker .send) r.code = false

/-- The worker is paused, none of its runs will take that back, and each looks before it sends a
request. -/
def World.Held (w : World) (id k : Nat) : Prop :=
  (∃ s ∈ w.worker id k, s.paused = true) ∧
    ∀ r ∈ w.threads, r.task = id → r.worker = k →
      revives r.code = false ∧ comesTo .waitGate (· == .worker .send) r.code = false

/-- No start or resume of the task is under way, and each of its runs is stopped or held. -/
def World.Settled (w : World) (id : Nat) : Prop :=
  ∀ r ∈ w.threads, r.task = id → pastGate r.code = false ∧
    (r.code.any Section.isWorker = true → w.Stopped id r.worker ∨ w.Held id r.worker)

instance : Decidable (World.Stopped w id k) := inferInstanceAs (Decidable (_ ∧ _))
instance : Decidable (World.Held w id k) := inferInstanceAs (Decidable (_ ∧ _))
instance : Decidable (World.Settled w id) := inferInstanceAs (Decidable (∀ _ ∈ _, _))

/-- The section with which `pause` or `cancel` returns `Ok`. -/
def Section.returnsStop (t : TaskState) : Section → Bool
  | .manager (.emit event) => event == .pause || event == .cancel
  | .task .pauseGate => t.status == .paused
  | _ => false

/-- The step with which a `pause` or `cancel` of the task returns `Ok`. -/
def World.ReturnsStop (w : World) (id : Nat) : Act → Prop
  | .step i _ => ∃ e ∈ w.next i, e.1.owner = .call ∧ e.1.task = id ∧ e.2.2 = [] ∧
      ∃ t ∈ w.tasks[id]?, e.2.1.returnsStop t = true
  | _ => False

instance : Decidable (World.ReturnsStop w id a) :=
  match a with
  | .step _ _ => inferInstanceAs (Decidable (∃ _ ∈ _, _))
  | .addTask _ | .call _ _ | .deliver | .lag | .listen _ | .listenerLag _ | .engineEvent _ _
  | .join _ _ => inferInstanceAs (Decidable False)

/-- `pause` and `cancel` return only when the task is settled. -/
def SettlesBeforeReturn (w : World) (a : Act) : Prop :=
  ∀ id < w.tasks.length, w.ReturnsStop id a → w.Settled id

instance : Decidable (SettlesBeforeReturn w a) := inferInstanceAs (Decidable (∀ _ < _, _))

/-- A `start` or `resume` of the task begins. -/
def World.Begins (w : World) (id : Nat) : Act → Prop
  | .step i _ => ∃ e ∈ w.next i, e.1.task = id ∧ e.2.1.isGate = true
  | _ => False

instance : Decidable (World.Begins w id a) :=
  match a with
  | .step _ _ => inferInstanceAs (Decidable (∃ _ ∈ _, _))
  | .addTask _ | .call _ _ | .deliver | .lag | .listen _ | .listenerLag _ | .engineEvent _ _
  | .join _ _ => inferInstanceAs (Decidable False)

/-- The action leaves the task alone: nothing sets it to `Preparing` or `Running`, no worker of it
sends a request, and only the runs in `slices` write. -/
def World.LeavesAlone (w : World) (id : Nat) (slices : List Nat) : Act → Prop
  | .step i _ => ∀ e ∈ w.next i, e.1.task = id →
      (∀ t ∈ w.tasks[id]?, e.2.1.activates t = false) ∧ e.2.1 ≠ .worker .send ∧
      (e.2.1 = .worker .write → i ∈ slices)
  | _ => True

instance : Decidable (World.LeavesAlone w id slices a) :=
  match a with
  | .step _ _ => inferInstanceAs (Decidable (∀ _ ∈ _, _))
  | .addTask _ | .call _ _ | .deliver | .lag | .listen _ | .listenerLag _ | .engineEvent _ _
  | .join _ _ => inferInstanceAs (Decidable True)

/-- A run that has written its slice has none in progress any more. -/
def World.slicesAfter (w : World) (id : Nat) (slices : List Nat) : Act → List Nat
  | .step i _ =>
    match w.next i with
    | some (r, .worker .write, _) => if r.task = id then slices.filter (· ≠ i) else slices
    | _ => slices
  | _ => slices

/-- Until a start or resume of the task begins, every action leaves the task alone. -/
def World.Sticks (id : Nat) : List Nat → World → List Act → Prop
  | _, _, [] => True
  | slices, w, a :: as =>
    w.Begins id a ∨ w.LeavesAlone id slices a ∧
      match w.step a with
      | some w' => Sticks id (w.slicesAfter id slices a) w' as
      | none => True

instance decidableSticks : (slices : List Nat) → (w : World) → (as : List Act) →
    Decidable (World.Sticks id slices w as)
  | _, _, [] => isTrue trivial
  | slices, w, a :: as =>
    have : Decidable (match w.step a with
        | some w' => World.Sticks id (w.slicesAfter id slices a) w' as
        | none => True) :=
      match w.step a with
      | some w' => decidableSticks (w.slicesAfter id slices a) w' as
      | none => isTrue trivial
    inferInstanceAs (Decidable (_ ∨ _ ∧ _))

/-- The runs of the task that are in the middle of a slice. -/
def World.slicesInProgress (w : World) (id : Nat) : List Nat :=
  (List.range w.threads.length).filter fun i =>
    (w.threads[i]?).any fun r => r.task == id && r.code.contains (.worker .write)

theorem pastGate_rest (h : pastGate (s :: rest) = false) (hg : s.isGate = false) :
    s.launches = false ∧ pastGate rest = false := by
  simpa [pastGate, reaches, hg] using h

theorem pastGate_append (hp : ∀ m ∈ pre, Section.launches (.task m) = false)
    (h : pastGate rest = false) : pastGate (inTask pre ++ rest) = false := by
  induction pre with
  | nil => exact h
  | cons m pre ih =>
    rw [inTask, List.map_cons, List.cons_append, pastGate, reaches, hp m List.mem_cons_self,
      Bool.false_or, Bool.and_eq_false_iff]
    exact .inr (ih fun m' hm' => hp m' (List.mem_cons_of_mem m hm'))

theorem isStop_launches {m : TaskSection} (h : m.isStop = true) :
    Section.launches (.task m) = false := by
  cases m <;> first | rfl | cases h

theorem TaskEffect.pastGate (h : TaskEffect t rest frame s status code frame')
    (hp : pastGate (.task s :: rest) = false) (hg : Section.isGate (.task s) = false) :
    pastGate code = false := by
  obtain ⟨hl, hr⟩ := pastGate_rest hp hg
  cases h with
  | next | set => exact hr
  | stop _ hpre => exact pastGate_append (fun m hm => isStop_launches (List.all_eq_true.1 hpre m hm)) hr
  | check => exact @pastGate_append [.checkEach _] _ (by simp [Section.launches]) hr
  | fail => cases frame <;> rfl
  | checked =>
    rename_i check
    cases check <;> rfl
  | finalize =>
    rename_i outcome
    rcases outcome with _ | ⟨⟨⟩⟩ <;> rfl
  | halt | deleteFailed | pause | cancel | persistFailed => rfl
  | reset | resumeStart | resumeSession | resumeAgain => cases hg
  | prepared | engineOver | engineRunning | recreate | reuse => cases hl

theorem exec_pastGate {x y : Context} (hn : x.spawned = []) (h : exec c x s = some y)
    (hp : pastGate (s :: x.thread.code) = false) (hg : s.isGate = false) :
    pastGate y.thread.code = false := by
  cases s with
  | manager m =>
    rcases execManager_code h with ⟨hc, _⟩ | hc | ⟨action, hc, _⟩ | ⟨action, hc, _⟩ <;> rw [hc]
    · exact (pastGate_rest hp hg).2
    · rfl
    · rfl
    · cases action <;> rfl
  | task m =>
    simp only [exec] at h
    split at h
    · cases h
    · rename_i t ht
      obtain ⟨t', _, he⟩ := execTask_effect ht hn h
      exact he.pastGate hp hg
  | worker m =>
    simp only [exec] at h
    split at h
    · cases h
    · split at h
      · cases h
      · rcases execWorker_code h with hc | ⟨hc, _⟩
        · rw [hc]
          exact (pastGate_rest hp hg).2
        · obtain ⟨run, hrun⟩ := hc.eq_inWorker
          rw [hrun]
          exact reaches_eq_false (by simp [inWorker, Section.launches])

theorem Thread.Entry.pastGate {t : Thread} (h : t.Entry) : pastGate t.code = false := by
  cases h with
  | call call id => cases call <;> rfl
  | handler event id => cases event <;> rfl
  | listener event id worker => cases event <;> rfl
  | engine event id => cases event <;> rfl
  | joiner id runs =>
    refine reaches_eq_false fun s hs => ?_
    obtain ⟨err, _, hs⟩ := List.mem_flatMap.1 hs
    simp only [stopWorkersAndFailCode, inTask, inManager, List.map_cons, List.map_nil, List.cons_append,
      List.nil_append, List.mem_cons, List.not_mem_nil, or_false] at hs
    rcases hs with rfl | rfl | rfl | rfl | rfl <;> rfl

/-- The sections that would disturb a stopped task, for run `j`. -/
def disturbs (slices : List Nat) (j : Nat) (s : Section) : Bool :=
  s == .worker .send || s == .worker .write && !slices.contains j

/-- The gate that stops a run for good, or holds it. -/
def gateOf (held : Bool) : WorkerSection := if held then .waitGate else .stopGate

/-- The flag that closes the gate. -/
def WorkerState.shut (held : Bool) (ws : WorkerState) : Bool :=
  if held then ws.paused else ws.shouldStopGracefully

/-- The gate of the worker is closed and no run gets past it, but for the slices in progress. -/
def World.Shut (w : World) (slices : List Nat) (held : Bool) (id k : Nat) : Prop :=
  (∃ s ∈ w.worker id k, s.shut held = true) ∧
    ∀ (j : Nat) r, w.threads[j]? = some r → r.task = id → r.worker = k →
      (held = true → revives r.code = false) ∧
        comesTo (gateOf held) (disturbs slices j) r.code = false

/-- What holds from the return of `pause` or `cancel` until a start or resume begins. -/
structure World.Calm (w : World) (slices : List Nat) (id : Nat) : Prop where
  sorted : ∀ t ∈ w.threads, t.Sorted
  gates : ∀ r ∈ w.threads, r.task = id → pastGate r.code = false
  runs : ∀ r ∈ w.threads, r.task = id → r.code.any Section.isWorker = true →
    ∃ held, w.Shut slices held id r.worker

theorem World.Calm.leavesAlone {w : World} (h : w.Calm slices id) (hb : ¬ w.Begins id a) :
    w.LeavesAlone id slices a := by
  cases a with
  | step i c =>
    rintro ⟨r, s, rest⟩ he hid
    obtain ⟨hi, hc⟩ := World.next_some he
    have hmem := List.mem_of_getElem? hi
    have hg : s.isGate = false := Bool.eq_false_iff.2 fun hg => hb ⟨_, he, hid, hg⟩
    have hl : s.launches = false := (pastGate_rest (hc ▸ h.gates r hmem hid) hg).1
    have hrun : ∀ m, s = .worker m → disturbs slices i s = false := by
      rintro m rfl
      obtain ⟨held, hs⟩ := h.runs r hmem hid (by simp [hc, Section.isWorker])
      have := (hs.2 i r hi hid rfl).2
      rw [hc, comesTo, reaches, Bool.or_eq_false_iff] at this
      exact this.1
    refine ⟨fun t _ => ?_, fun hs => ?_, fun hs => ?_⟩
    · rcases s with s | s | s
      · rfl
      · cases s <;> first | rfl | exact hl | exact absurd hg (by decide) | exact absurd hl (by decide)
      · rfl
    · have hs : s = .worker .send := hs
      cases hs ▸ hrun _ hs
    · have hs : s = .worker .write := hs
      simpa [disturbs, hs] using hrun _ hs
  | _ => trivial

/-- No code of a run comes to a request or a slice before its gates. -/
theorem RunCode.comesTo (h : RunCode code) (held : Bool) (slices : List Nat) (j : Nat) :
    comesTo (gateOf held) (disturbs slices j) code = false := by
  cases held <;> cases h <;> rfl

theorem RunCode.after_write (h : RunCode full) (hs : .worker .write :: rest <:+ full) :
    rest = inWorker [.report, .nextSlice] := by
  have hw : Section.worker .write ∈ full := hs.subset List.mem_cons_self
  cases h with
  | slice => simpa [inWorker, List.suffix_cons_iff] using hs
  | _ => simp [inWorker, workerCode, markFailedCode, finishSuccessCode, attemptCode] at hw

theorem comesTo_rest (h : comesTo gate goal (s :: rest) = false) (hs : s ≠ .worker gate) :
    comesTo gate goal rest = false := by
  rw [comesTo, reaches, Bool.or_eq_false_iff, Bool.and_eq_false_iff] at h
  rcases h.2 with h | h
  · exact absurd (by simpa using h) hs
  · exact h

theorem disturbs_filter (slices : List Nat) (h : j ≠ i) :
    disturbs (slices.filter (· ≠ i)) j = disturbs slices j := by
  funext s
  simp [disturbs, h]

theorem World.slicesAfter_eq {w : World} (hi : w.threads[i]? = some r) (hc : r.code = s :: rest)
    (h : r.task = id → s ≠ .worker .write) : w.slicesAfter id slices (.step i c) = slices := by
  simp only [World.slicesAfter, World.next_eq hi hc]
  split
  · rename_i heq
    cases heq
    exact if_neg fun he => h he rfl
  · rfl

theorem World.disturbs_slicesAfter (w : World) (c : Choice) (slices : List Nat) (h : j ≠ i) :
    disturbs (w.slicesAfter id slices (.step i c)) j = disturbs slices j := by
  simp only [World.slicesAfter]
  split
  · split
    · exact disturbs_filter slices h
    · rfl
  · rfl

theorem comesTo_run {w : World} {r : Thread} (hi : w.threads[i]? = some r) (hr : r.Sorted)
    (hc : r.code = .worker m :: rest) (ho : r.owner = .worker)
    (hclosed : m = gateOf held → RunCode y) (hy : y = rest ∨ RunCode y)
    (h : comesTo (gateOf held) (disturbs slices i) r.code = false) :
    comesTo (gateOf held) (disturbs (w.slicesAfter r.task slices (.step i c)) i) y = false := by
  by_cases hrun : RunCode y
  · exact hrun.comesTo held _ i
  · have hm : m ≠ gateOf held := fun he => hrun (hclosed he)
    obtain rfl := hy.resolve_right hrun
    by_cases hw : m = .write
    · subst m
      obtain ⟨_, full, hfull, hsuf⟩ := hr.1 ho
      rw [hc] at hsuf
      rw [hfull.after_write hsuf]
      cases held <;> rfl
    · rw [World.slicesAfter_eq hi hc fun _ he => hw (Section.worker.inj he)]
      rw [hc] at h
      exact comesTo_rest h fun he => hm (Section.worker.inj he)

theorem World.worker_commit {w : World} (hx : exec c (w.context r rest) s = some x)
    (hk : w.worker id k = some ws) :
    ∃ ws', (w.commit i r.task x).worker id k = some ws' ∧
      (ws.Keeps ws' ∨ r.task = id ∧ s = .worker .unpause ∧ r.worker = k ∧
        ws'.shouldStopGracefully = ws.shouldStopGracefully) := by
  obtain ⟨t, ht, hws⟩ := Option.bind_eq_some_iff.1 hk
  by_cases hid : r.task = id
  · subst hid
    have hsome : x.task.isSome = (w.tasks[r.task]?).isSome := exec_isSome rfl hx
    obtain ⟨t', ht'⟩ : ∃ t', x.task = some t' := by
      rw [ht] at hsome
      exact Option.isSome_iff_exists.1 hsome
    obtain ⟨ws', h1, h2⟩ := exec_flags (x := w.context r rest) ht ht' hx hws
    refine ⟨ws', ?_, h2.imp_right fun h => ⟨rfl, h⟩⟩
    rw [World.worker, World.commit_task hsome, ht']
    exact h1
  · refine ⟨ws, ?_, .inl (.refl ws)⟩
    rw [World.worker, World.commit_task_ne (Ne.symm hid), ht]
    exact hws

theorem WorkerState.Keeps.shut {ws ws' : WorkerState} (h : ws.Keeps ws') (held : Bool)
    (hs : ws.shut held = true) : ws'.shut held = true := by
  cases held with
  | true => exact h.paused hs
  | false => exact h.stop hs

theorem execWorker_closed {x y : Context} (h : execWorker c x t ws (gateOf held) = some y)
    (hs : ws.shut held = true) : RunCode y.thread.code := by
  cases held with
  | true =>
    simp only [gateOf, WorkerState.shut, if_true] at h hs
    simp only [execWorker, hs, Bool.not_true, Bool.false_eq_true, if_false] at h
    split at h <;> cases h
    exact .ending
  | false =>
    simp only [gateOf, WorkerState.shut, Bool.false_eq_true, if_false] at h hs
    simp only [execWorker, hs, if_true] at h
    cases h
    exact .ending

theorem World.Shut.run {w : World} (h : w.Shut slices held r.task r.worker)
    (hi : w.threads[i]? = some r) (hr : r.Sorted) (hc : r.code = .worker m :: rest)
    (ho : r.owner = .worker) (hx : exec c (w.context r rest) (.worker m) = some x) :
    (held = true → revives x.thread.settle.code = false) ∧
      comesTo (gateOf held) (disturbs (w.slicesAfter r.task slices (.step i c)) i)
        x.thread.settle.code = false := by
  obtain ⟨hrev, hcome⟩ := h.2 i r hi rfl rfl
  obtain ⟨ws, hws, hshut⟩ := h.1
  obtain ⟨t, ht, hk⟩ := Option.bind_eq_some_iff.1 hws
  simp only [exec, show (w.context r rest).task = some t from ht,
    show t.arena[(w.context r rest).thread.worker]? = some ws from hk] at hx
  obtain ⟨t', hq, -, -, hframe⟩ := execWorker_effect ht rfl hx
  have hplain : x.thread.frame = .plain := hframe.elim (fun h => h.trans (hr.1 ho).1) id
  rw [(Thread.settle_run hplain).1]
  refine ⟨fun hheld => ?_, ?_⟩
  · have hrev := hrev hheld
    rw [hc, revives, List.any_cons, Bool.or_eq_false_iff] at hrev
    rcases execWorker_code hx with hcode | ⟨-, hcode⟩
    · rw [hcode]
      exact hrev.2
    · refine hcode fun he => ?_
      subst m
      cases hrev.1
  · refine comesTo_run hi hr hc ho (fun he => ?_) ?_ hcome
    · subst m
      exact execWorker_closed hx hshut
    · exact (execWorker_code hx).imp_right And.left

theorem noWorker_shut (h : code.any Section.isWorker = false) :
    (held = true → revives code = false) ∧ comesTo gate (disturbs slices j) code = false := by
  refine ⟨fun _ => List.any_eq_false.2 fun s hs => ?_, reaches_eq_false fun s hs => ?_⟩
  · have := List.any_eq_false.1 h s hs
    cases s <;> simp_all [Section.isWorker]
  · have := List.any_eq_false.1 h s hs
    cases s <;> simp_all [Section.isWorker, disturbs]

theorem World.Shut.commit {w : World} (h : w.Shut slices held id k)
    (hsorted : ∀ t ∈ w.threads, t.Sorted) (hi : w.threads[i]? = some r) (hc : r.code = s :: rest)
    (hx : exec c (w.context r rest) s = some x)
    (hstart : ∀ r' ∈ x.spawned, r'.task = id → r'.owner ≠ .worker) :
    (w.commit i r.task x).Shut (w.slicesAfter id slices (.step i c)) held id k := by
  have hr := hsorted r (List.mem_of_getElem? hi)
  refine ⟨?_, fun j r' hj hid hk => ?_⟩
  · obtain ⟨ws, hws, hshut⟩ := h.1
    obtain ⟨ws', hws', hk | ⟨hid, rfl, hk, hstop⟩⟩ := World.worker_commit (i := i) hx hws
    · exact ⟨ws', hws', hk.shut held hshut⟩
    · refine ⟨ws', hws', ?_⟩
      cases held with
      | false => exact hstop.trans hshut
      | true =>
        have := (h.2 i r hi hid hk).1 rfl
        rw [hc] at this
        cases this
  · rcases World.getElem_commit hj with ⟨hji, hj⟩ | ⟨rfl, rfl⟩ | hj
    · rw [World.disturbs_slicesAfter w c slices hji]
      exact h.2 j r' hj hid hk
    · rw [Thread.settle_task] at hid
      by_cases ho : r.owner = .worker
      · obtain ⟨_, full, hfull, hsuf⟩ := hr.1 ho
        rw [hc] at hsuf
        obtain ⟨m, rfl⟩ := suffix_worker hfull hsuf
        obtain ⟨t, t', _, hq⟩ := exec_quiet (by simp) rfl hx
        have hid : r.task = id := hq.id.symm.trans hid
        have hk : r.worker = k := by
          rw [Thread.settle_worker, hq.worker] at hk
          exact hk
        subst hid hk
        exact h.run hi hr hc ho hx
      · have ho' : x.thread.settle.owner ≠ .worker := by
          rw [Thread.settle_owner, (exec_same rfl hx).1]
          exact ho
        exact noWorker_shut ((exec_sorted hr hc hx).1.2 ho')
    · obtain ⟨_, _, _, ⟨ho, _⟩ | ⟨_, hcode⟩⟩ := exec_spawned rfl hx r' hj
      · exact absurd ho (hstart r' hj hid)
      · rw [hcode]
        cases held <;> exact ⟨fun _ => rfl, rfl⟩

theorem World.Calm.external {w w' : World} (h : w.Calm slices id) (hs : w.step a = some w')
    (ha : ∀ i c, a ≠ .step i c) : w'.Calm slices id := by
  have hx := World.step_external hs ha
  have hthreads : ∀ (j : Nat) r, w'.threads[j]? = some r → w.threads[j]? = some r ∨ r.Entry := by
    intro j r hj
    rcases World.step_entry hs ha with he | ⟨t, ht, he⟩
    · exact .inl (he ▸ hj)
    · rw [he, List.getElem?_append] at hj
      split at hj
      · exact .inl hj
      · exact .inr (List.mem_singleton.1 (List.mem_of_getElem? hj) ▸ ht)
  have hmem : ∀ r ∈ w'.threads, r ∈ w.threads ∨ r.Entry := by
    intro r hr
    obtain ⟨j, hj⟩ := List.mem_iff_getElem?.1 hr
    exact (hthreads j r hj).imp_left List.mem_of_getElem?
  refine ⟨World.sorted_step h.sorted hs, fun r hr hid => ?_, fun r hr hid hw => ?_⟩
  · rcases hmem r hr with hr | hr
    · exact h.gates r hr hid
    · exact hr.pastGate
  · rcases hmem r hr with hr | hr
    · obtain ⟨held, ⟨ws, hws, hshut⟩, hruns⟩ := h.runs r hr hid hw
      refine ⟨held, ⟨ws, ?_, hshut⟩, fun j r' hj hid' hk' => ?_⟩
      · obtain ⟨t, ht, hk⟩ := Option.bind_eq_some_iff.1 hws
        obtain ⟨t', ht', hv⟩ := hx.forth id t ht
        rw [Option.mem_def, World.worker, ht', Option.bind_some, hv.arena]
        exact hk
      · rcases hthreads j r' hj with hj | hj
        · exact hruns j r' hj hid' hk'
        · exact noWorker_shut hj.noWorker
    · rw [hr.noWorker] at hw
      cases hw

theorem World.Calm.commit {w : World} (h : w.Calm slices id) (hi : w.threads[i]? = some r)
    (hc : r.code = s :: rest) (hx : exec c (w.context r rest) s = some x)
    (hsorted : ∀ t ∈ (w.commit i r.task x).threads, t.Sorted)
    (hb : r.task = id → s.isGate = false) :
    (w.commit i r.task x).Calm (w.slicesAfter id slices (.step i c)) id := by
  have hmem := List.mem_of_getElem? hi
  have hstart : ∀ r' ∈ x.spawned, r'.task = id → r'.owner ≠ .worker := by
    intro r' hr' hid ho
    have hid : r.task = id := (exec_spawned rfl hx r' hr').1.symm.trans hid
    have hs := exec_starts rfl hx hr' ho
    have := (pastGate_rest (hc ▸ h.gates r hmem hid) (hb hid)).1
    rw [hs] at this
    cases this
  refine ⟨hsorted, fun r' hr' hid => ?_, fun r' hr' hid hw => ?_⟩
  · rcases World.mem_commit hr' with ⟨j, _, hj⟩ | rfl | hr'
    · exact h.gates r' (List.mem_of_getElem? hj) hid
    · rw [pastGate, reaches_settle (by intro frame; cases frame <;> rfl)]
      rw [Thread.settle_task] at hid
      rcases exec_moves rfl hx with he | ⟨action, _, he, _⟩
      · have hid : r.task = id := he.symm.trans hid
        exact exec_pastGate rfl hx (hc ▸ h.gates r hmem hid) (hb hid)
      · rw [he]
        cases action <;> rfl
    · obtain ⟨_, _, _, ⟨_, hcode⟩ | ⟨_, hcode⟩⟩ := exec_spawned rfl hx r' hr' <;> rw [hcode] <;> rfl
  · rcases World.mem_commit hr' with ⟨j, _, hj⟩ | rfl | hr'
    · obtain ⟨held, hshut⟩ := h.runs r' (List.mem_of_getElem? hj) hid hw
      exact ⟨held, hshut.commit h.sorted hi hc hx hstart⟩
    · have ho : r.owner = .worker := by
        by_contra ho
        have := (hsorted _ hr').2 (by rwa [Thread.settle_owner, (exec_same rfl hx).1])
        rw [this] at hw
        cases hw
      obtain ⟨_, full, hfull, hsuf⟩ := (h.sorted r hmem).1 ho
      rw [hc] at hsuf
      obtain ⟨m, rfl⟩ := suffix_worker hfull hsuf
      obtain ⟨t, t', _, hq⟩ := exec_quiet (by simp) rfl hx
      rw [Thread.settle_task] at hid
      have hid : r.task = id := hq.id.symm.trans hid
      obtain ⟨held, hshut⟩ := h.runs r hmem hid (by simp [hc, Section.isWorker])
      rw [Thread.settle_worker, hq.worker]
      exact ⟨held, hshut.commit h.sorted hi hc hx hstart⟩
    · obtain ⟨_, _, _, ⟨ho, _⟩ | ⟨_, hcode⟩⟩ := exec_spawned rfl hx r' hr'
      · exact absurd ho (hstart r' hr' hid)
      · rw [hcode] at hw
        cases hw

theorem World.Calm.step {w w' : World} (h : w.Calm slices id) (hb : ¬ w.Begins id a)
    (hs : w.step a = some w') : w'.Calm (w.slicesAfter id slices a) id := by
  by_cases ha : ∃ i c, a = .step i c
  · obtain ⟨i, c, rfl⟩ := ha
    have hsorted := World.sorted_step h.sorted hs
    obtain ⟨r, s, rest, x, hi, hc, hx, rfl⟩ := World.stepThread_some hs
    refine h.commit hi hc hx hsorted fun hid => Bool.eq_false_iff.2 fun hg => hb ?_
    exact ⟨_, World.next_eq hi hc, hid, hg⟩
  · have ha' : ∀ i c, a ≠ .step i c := fun i c he => ha ⟨i, c, he⟩
    have : w.slicesAfter id slices a = slices := by
      cases a with
      | step i c => exact absurd rfl (ha' i c)
      | _ => rfl
    rw [this]
    exact h.external hs ha'

/-- From a calm state on, every run leaves the task alone until a start or resume begins. -/
theorem World.Calm.sticks {w : World} (h : w.Calm slices id) (as : List Act) :
    World.Sticks id slices w as := by
  induction as generalizing w slices with
  | nil => trivial
  | cons a as ih =>
    by_cases hb : w.Begins id a
    · exact .inl hb
    · refine .inr ⟨h.leavesAlone hb, ?_⟩
      cases hs : w.step a with
      | none => trivial
      | some w' => exact ih (h.step hb hs)

theorem World.disturbs_inProgress {w : World} (hj : w.threads[j]? = some r) (hid : r.task = id)
    (hs : s ∈ r.code) (hd : disturbs (w.slicesInProgress id) j s = true) : s = .worker .send := by
  have hlt := (List.getElem?_eq_some_iff.1 hj).1
  simp only [disturbs, Bool.or_eq_true, Bool.and_eq_true, beq_iff_eq, Bool.not_eq_true'] at hd
  rcases hd with hd | ⟨rfl, hd⟩
  · exact hd
  · simp only [World.slicesInProgress, List.contains_eq_mem, List.mem_filter, List.mem_range, hj,
      Option.any_some, hid, beq_self_eq_true, Bool.true_and, decide_eq_false_iff_not, not_and,
      decide_eq_true_eq] at hd
    exact absurd hs (hd hlt)

theorem World.Shut.inProgress {w : World} (h : w.Shut slices held id k) :
    w.Shut (w.slicesInProgress id) held id k := by
  refine ⟨h.1, fun j r hj hid hk => (h.2 j r hj hid hk).imp_right fun hr => ?_⟩
  refine reaches_mono (fun s hs hd => ?_) hr
  rw [World.disturbs_inProgress hj hid hs hd]
  rfl

theorem World.Settled.calm {w : World} (h : w.Settled id) (hs : ∀ t ∈ w.threads, t.Sorted) :
    w.Calm (w.slicesInProgress id) id := by
  refine ⟨hs, fun r hr hid => (h r hr hid).1, fun r hr hid hw => ?_⟩
  have hmono : ∀ (j : Nat) r', w.threads[j]? = some r' → r'.task = id → ∀ gate,
      comesTo gate (· == .worker .send) r'.code = false →
      comesTo gate (disturbs (w.slicesInProgress id) j) r'.code = false := by
    intro j r' hj hid' gate hc
    refine reaches_mono (fun s hs hd => ?_) hc
    rw [World.disturbs_inProgress hj hid' hs hd]
    rfl
  rcases (h r hr hid).2 hw with hstop | hheld
  · exact ⟨false, hstop.1, fun j r' hj hid' hk => ⟨nofun, hmono j r' hj hid' _
      (hstop.2 r' (List.mem_of_getElem? hj) hid' hk)⟩⟩
  · exact ⟨true, hheld.1, fun j r' hj hid' hk =>
      have hr' := hheld.2 r' (List.mem_of_getElem? hj) hid' hk
      ⟨fun _ => hr'.1, hmono j r' hj hid' _ hr'.2⟩⟩

theorem Section.returnsStop_gate {s : Section} (h : s.returnsStop t = true) : s.isGate = false := by
  unfold Section.returnsStop at h
  split at h
  · rfl
  · rfl
  · cases h

/-- In every run in which `pause` and `cancel` return only when the task is settled, they stick: until
a start or resume begins, the task is left alone, but for the slices in progress at the return. -/
theorem stopped_task_sticks (permits : Nat) (before : List Act) (w w' : World) (id : Nat) (a : Act)
    (as : List Act) (hr : Transition.run World.step (World.new permits) before = some w)
    (hc : Transition.Meets World.step SettlesBeforeReturn (World.new permits) (before ++ [a]))
    (hstop : w.ReturnsStop id a) (hs : w.step a = some w') :
    World.Sticks id (w'.slicesInProgress id) w' as := by
  have hsorted : ∀ t ∈ w.threads, t.Sorted :=
    Transition.run_invariant (I := fun w : World => ∀ t ∈ w.threads, t.Sorted)
      (fun _ _ _ h hs => World.sorted_step h hs) (by simp [World.new]) hr
  have hlt : id < w.tasks.length := by
    cases a with
    | step i c =>
      obtain ⟨_, _, _, _, _, t, ht, _⟩ := hstop
      exact (List.getElem?_eq_some_iff.1 ht).1
    | _ => exact hstop.elim
  have hbegin : ¬ w.Begins id a := by
    cases a with
    | step i c =>
      rintro ⟨e₁, he₁, _, hg⟩
      obtain ⟨e, he, _, _, _, t, _, hret⟩ := hstop
      cases he.symm.trans he₁
      rw [Section.returnsStop_gate hret] at hg
      cases hg
    | _ => exact hstop.elim
  have hcalm := ((hc.last hr id hlt hstop).calm hsorted).step hbegin hs
  exact World.Calm.sticks ⟨hcalm.sorted, hcalm.gates, fun r hr hid hw =>
    (hcalm.runs r hr hid hw).imp fun _ h => h.inProgress⟩ as

/-- A task with one worker is paused when its run is about to send the first request. -/
def pausedBeforeRequest : List Act :=
  List.flatten [[.addTask .pending, .call .startTask 0], proceed 0 5, [.step 0 (.ready false)],
    proceed 0 2, [.step 0 (.create 1)], proceed 0 2, [.step 0 (.create 1)], proceed 0 3, proceed 1 3,
    [.step 1 .more, .call .pauseTask 0], proceed 2 9]

theorem paused_worker_waits :
    ∃ w w', Transition.run World.step (World.new 1) pausedBeforeRequest = some w ∧
      w.ReturnsStop 0 (.step 2 .ok) ∧ w.step (.step 2 .ok) = some w' ∧
      World.Sticks 0 (w'.slicesInProgress 0) w' [.step 1 .ok, .step 1 .ok] := by
  obtain ⟨w, hr, hstop, w', hs, _⟩ :
      ∃ w, Transition.run World.step (World.new 1) pausedBeforeRequest = some w ∧
        w.ReturnsStop 0 (.step 2 .ok) ∧ ∃ w' ∈ w.step (.step 2 .ok), True :=
    Transition.run_any (by decide)
  exact ⟨w, w', hr, hstop, hs,
    stopped_task_sticks 1 pausedBeforeRequest w w' 0 _ _ hr (by decide) hstop hs⟩

/-- The task is paused while its start prepares the download; the start goes on after that. -/
def pausedWhilePreparing : List Act :=
  List.flatten [[.addTask .pending, .call .startTask 0], proceed 0 5, [.call .pauseTask 0],
    proceed 1 6]

theorem paused_start_runs_on :
    ∃ w, Transition.run World.step (World.new 1) pausedWhilePreparing = some w ∧
      w.ReturnsStop 0 (.step 1 .ok) ∧ ∃ w' ∈ w.step (.step 1 .ok),
        ¬ World.Sticks 0 (w'.slicesInProgress 0) w' [.step 0 (.ready false), .step 0 .ok] :=
  Transition.run_any (by decide)

end Paradown
