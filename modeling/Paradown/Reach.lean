import Paradown.Permits

namespace Paradown
set_option autoImplicit true

/-- The call will execute a section of `goal`: all sections before it are in `through`. -/
def reaches (through goal : Section → Bool) : Code → Bool
  | [] => false
  | s :: rest => goal s || through s && reaches through goal rest

/-- The task sections after which the code goes on elsewhere. -/
def TaskSection.jumps : TaskSection → Bool
  | .prepareForStart | .prepareDownload | .markEngineRunning | .resumeGate | .pauseGate | .cancelGate
  | .ensureWorkers | .persistWorker | .unlessFailed | .checkEach _ | .finalizeDownload => true
  | _ => false

theorem TaskEffect.code_cases (h : TaskEffect t rest frame s status code frame')
    (hs : s.jumps = false) :
    code = rest ∧ frame' = frame ∨
      (∃ pre, s.isStop = true ∧ pre.all TaskSection.isStop = true ∧ code = inTask pre ++ rest ∧
        frame' = frame) ∨
      (s.mayFail = true ∧ code = frame.onErr ∧ frame' = .plain) ∨
      s = .ioOrFail ∧ ∃ err, code = deleteFailedCode err ∧ frame' = .plain := by
  cases h with
  | next | set => exact .inl ⟨rfl, rfl⟩
  | stop h hp => exact .inr (.inl ⟨_, h, hp, rfl, rfl⟩)
  | fail h => exact .inr (.inr (.inl ⟨h, rfl, rfl⟩))
  | deleteFailed => exact .inr (.inr (.inr ⟨rfl, _, rfl, rfl⟩))
  | halt h => rcases h with rfl | rfl <;> cases hs
  | reset | check | prepared | engineOver | engineRunning | resumeStart | resumeSession | resumeAgain
  | pause | cancel | recreate | reuse | persistFailed | checked | finalize => cases hs

theorem reaches_append (h : pre.all through = true) (hr : reaches through goal rest = true) :
    reaches through goal (pre ++ rest) = true := by
  induction pre with
  | nil => exact hr
  | cons s pre ih =>
    rw [List.all_cons, Bool.and_eq_true] at h
    simp only [List.cons_append, reaches, h.1, ih h.2, Bool.true_and, Bool.or_true]

theorem reaches_append_right (h : reaches through goal code = true) :
    reaches through goal (code ++ more) = true := by
  induction code with
  | nil => cases h
  | cons s rest ih =>
    rw [reaches, Bool.or_eq_true, Bool.and_eq_true] at h
    rw [List.cons_append, reaches, Bool.or_eq_true, Bool.and_eq_true]
    exact h.imp_right fun h => ⟨h.1, ih h.2⟩

theorem reaches_stop (hp : pre.all TaskSection.isStop = true)
    (ht : ∀ s : TaskSection, s.isStop = true → through (.task s) = true)
    (hr : reaches through goal rest = true) :
    reaches through goal (inTask pre ++ rest) = true := by
  refine reaches_append (List.all_eq_true.2 fun s hs => ?_) hr
  obtain ⟨m, hm, rfl⟩ := List.mem_map.1 hs
  exact ht m (List.all_eq_true.1 hp m hm)

theorem reaches_eq_false (h : ∀ s ∈ code, goal s = false) : reaches through goal code = false := by
  induction code with
  | nil => rfl
  | cons s rest ih =>
    rw [reaches, h s List.mem_cons_self, ih fun m hm => h m (List.mem_cons_of_mem s hm)]
    simp

theorem reaches_mono (h : ∀ s ∈ code, goal s = true → goal' s = true)
    (hr : reaches through goal' code = false) : reaches through goal code = false := by
  induction code with
  | nil => rfl
  | cons s rest ih =>
    rw [reaches, Bool.or_eq_false_iff, Bool.and_eq_false_iff] at hr ⊢
    refine ⟨Bool.eq_false_iff.2 fun hs => ?_, hr.2.imp_right fun hr => ?_⟩
    · rw [h s List.mem_cons_self hs] at hr
      cases hr.1
    · exact ih (fun m hm => h m (List.mem_cons_of_mem s hm)) hr

theorem reaches_settle (h : ∀ frame : Frame, reaches through goal frame.onOk = false) (t : Thread) :
    reaches through goal t.settle.code = reaches through goal t.code := by
  unfold Thread.settle
  split
  · rename_i hc
    rw [List.isEmpty_iff.1 hc, h]
    rfl
  · rfl

/-- The run has still to read the status of its worker, or to take back its pause. -/
def revives (code : Code) : Bool :=
  code.any fun s => s == .worker .claimRun || s == .worker .readStatus || s == .worker .unpause

/-- The codes of a worker run. -/
inductive RunCode : Code → Prop where
  | begun : RunCode workerCode
  | ended : RunCode []
  | revived : RunCode (inWorker [.unpause, .setStatus .running, .checkLength])
  | running : RunCode (inWorker [.setStatus .running, .checkLength])
  | failed (err : Error) : RunCode (markFailedCode err)
  | ending : RunCode (inWorker [.endRun])
  | success : RunCode finishSuccessCode
  | attempt : RunCode attemptCode
  | chunk : RunCode (inWorker [.nextChunk])
  | slices : RunCode (inWorker [.stopGate, .waitGate, .nextSlice])
  | received : RunCode (inWorker [.stopGate, .emit .progress, .validateLength])
  | slice : RunCode (inWorker [.stopGate, .waitGate, .write, .report, .nextSlice])

theorem RunCode.eq_inWorker (h : RunCode code) : ∃ run, code = inWorker run := by
  cases h with
  | ended => exact ⟨[], rfl⟩
  | _ => exact ⟨_, rfl⟩

theorem retryOrFail_run (x : Context) (c : Choice) (P : Prop) :
    RunCode (x.retryOrFail c).thread.code ∧ (P → revives (x.retryOrFail c).thread.code = false) := by
  unfold Context.retryOrFail
  split
  · exact ⟨.failed _, fun _ => rfl⟩
  · exact ⟨.attempt, fun _ => rfl⟩

theorem execWorker_code (h : execWorker c x t w s = some y) :
    y.thread.code = x.thread.code ∨
      RunCode y.thread.code ∧ (s ≠ .readStatus → revives y.thread.code = false) := by
  cases s with
  | claimRun =>
    simp only [execWorker] at h
    split at h <;> cases h
    · exact .inr ⟨.ended, fun _ => rfl⟩
    · exact .inl rfl
  | readStatus =>
    simp only [execWorker] at h
    split at h <;> cases h
    · exact .inr ⟨.revived, fun h => absurd rfl h⟩
    · exact .inr ⟨.failed _, fun h => absurd rfl h⟩
    · exact .inr ⟨.failed _, fun h => absurd rfl h⟩
    · exact .inr ⟨.ending, fun h => absurd rfl h⟩
    · exact .inr ⟨.running, fun h => absurd rfl h⟩
  | unpause | setStatus _ | emit _ | endRun =>
    cases h
    exact .inl rfl
  | checkLength =>
    simp only [execWorker] at h
    split at h <;> cases h
    · exact .inr ⟨.success, fun _ => rfl⟩
    · exact .inr ⟨.attempt, fun _ => rfl⟩
  | stopGate =>
    simp only [execWorker] at h
    split at h <;> cases h
    · exact .inr ⟨.ending, fun _ => rfl⟩
    · exact .inl rfl
  | waitGate =>
    simp only [execWorker] at h
    split at h
    · cases h
      exact .inl rfl
    · split at h <;> cases h
      exact .inr ⟨.ending, fun _ => rfl⟩
  | buildRequest | write =>
    simp only [execWorker] at h
    split at h <;> cases h
    · exact .inl rfl
    · exact .inr (retryOrFail_run x c _)
  | send =>
    simp only [execWorker] at h
    split at h <;> cases h
    · exact .inr ⟨.chunk, fun _ => rfl⟩
    · exact .inr (retryOrFail_run x c _)
  | nextChunk =>
    simp only [execWorker] at h
    split at h <;> cases h
    · exact .inr ⟨.slices, fun _ => rfl⟩
    · exact .inr ⟨.received, fun _ => rfl⟩
    · exact .inr (retryOrFail_run x _ _)
  | nextSlice =>
    simp only [execWorker] at h
    split at h <;> cases h
    · exact .inr ⟨.slice, fun _ => rfl⟩
    · exact .inr ⟨.chunk, fun _ => rfl⟩
  | report =>
    simp only [execWorker] at h
    split at h <;> cases h <;> exact .inl rfl
  | validateLength =>
    simp only [execWorker] at h
    split at h <;> cases h
    · exact .inr ⟨.failed _, fun _ => rfl⟩
    · exact .inr ⟨.success, fun _ => rfl⟩

/-- The codes a call can turn to, other than what was left of its code. -/
inductive FixedCode : Code → Prop where
  | ended : FixedCode []
  | enqueue (action : PendingAction) : FixedCode (inManager [.enqueue action])
  | transition (action : PendingAction) : FixedCode (transitionCode action)
  | store : FixedCode (inManager [.storePermit])
  | onErr (frame : Frame) : FixedCode frame.onErr
  | ready (discard : Bool) : FixedCode (discardCode discard ++ readyCode)
  | finish (discard : Bool) (outcome : Except Error Unit) :
    FixedCode (discardCode discard ++ finishJobCode outcome)
  | engine : FixedCode engineCode
  | listen : FixedCode (inTask [.listenToEngine])
  | engineRunning : FixedCode (inTask [.io, .listenToEngine])
  | start : FixedCode startCode
  | session : FixedCode (inTask [.io, .io])
  | again : FixedCode (inTask [.io] ++ startCode)
  | pause : FixedCode (stopCode .pause .pause)
  | cancel : FixedCode (stopCode .cancel .cancel)
  | recreate : FixedCode
      (inTask [.clearTaskWorkers, .io, .createWorkers, .installWorkers, .spawnWorkers])
  | reuse : FixedCode (inTask [.spawnWorkers])
  | fail (err : Error) : FixedCode (stopWorkersAndFailCode err)
  | checked (check : WorkerCheck) : FixedCode (checkedCode check)
  | finalize (outcome : Except Error Unit) : FixedCode (finishJobCode outcome)
  | deleteFailed (err : Error) : FixedCode (deleteFailedCode err)
  | persist : FixedCode (inTask [.persistWorker])

/-- The sections that can be put in front of the rest of a code. -/
def TaskSection.isAside : TaskSection → Bool
  | .clearTaskWorkers | .io | .clearManifestState | .checkEach _ => true
  | s => s.isStop

theorem TaskEffect.fixed (h : TaskEffect t rest frame s status code frame') :
    (∃ pre, pre.all TaskSection.isAside = true ∧ code = inTask pre ++ rest) ∨ FixedCode code := by
  cases h with
  | next | set => exact .inl ⟨[], rfl, rfl⟩
  | reset => exact .inl ⟨[.clearTaskWorkers, .io, .clearManifestState, .io], rfl, rfl⟩
  | stop h hp =>
    refine .inl ⟨_, List.all_eq_true.2 fun m hm => ?_, rfl⟩
    have := List.all_eq_true.1 hp m hm
    cases m <;> first | rfl | cases this
  | check => exact .inl ⟨[.checkEach _], rfl, rfl⟩
  | prepared h =>
    unfold preparedCode at h
    split at h <;> cases h
    · exact .inr (.ready _)
    · exact .inr (.finish _ _)
    · exact .inr .engine
  | fail => exact .inr (.onErr _)
  | halt => exact .inr .ended
  | deleteFailed => exact .inr (.deleteFailed _)
  | engineOver => exact .inr .listen
  | engineRunning => exact .inr .engineRunning
  | resumeStart => exact .inr .start
  | resumeSession => exact .inr .session
  | resumeAgain => exact .inr .again
  | pause => exact .inr .pause
  | cancel => exact .inr .cancel
  | recreate => exact .inr .recreate
  | reuse => exact .inr .reuse
  | persistFailed => exact .inr (.fail _)
  | checked => exact .inr (.checked _)
  | finalize => exact .inr (.finalize _)

theorem execManager_code {x y : Context} (h : execManager c x s = some y) :
    y.thread.code = x.thread.code ∧ y.thread.frame = x.thread.frame ∨ y.thread.code = [] ∨
      (∃ action, y.thread.code = inManager [.enqueue action] ∧ y.thread.frame = .plain) ∨
      ∃ action, y.thread.code = transitionCode action ∧ y.thread.frame = .transition := by
  cases s with
  | enqueue _ | dropPermit | removeFromQueue | emit _ =>
    cases h
    exact .inl ⟨rfl, rfl⟩
  | acquire action =>
    simp only [execManager] at h
    split at h <;> cases h
    · exact .inr (.inr (.inl ⟨action, rfl, rfl⟩))
    · exact .inl ⟨rfl, rfl⟩
  | lookup | persistTask | persistHttpSession =>
    simp only [execManager] at h
    split at h <;> cases h
    · exact .inl ⟨rfl, rfl⟩
    · exact .inr (.inl rfl)
  | storePermit | clearSlot | releasePermit | removeTask =>
    simp only [execManager] at h
    split at h <;> cases h
    exact .inl ⟨rfl, rfl⟩
  | releaseTaskPermit =>
    simp only [execManager] at h
    split at h
    · cases h
      exact .inl ⟨rfl, rfl⟩
    · split at h <;> cases h <;> exact .inl ⟨rfl, rfl⟩
  | popNext =>
    simp only [execManager] at h
    split at h <;> cases h
    · exact .inr (.inl rfl)
    · exact .inr (.inr (.inr ⟨_, rfl, rfl⟩))

theorem execManager_fixed {x y : Context} (h : execManager c x s = some y) :
    y.thread.code = x.thread.code ∨ FixedCode y.thread.code := by
  rcases execManager_code h with ⟨hc, _⟩ | hc | ⟨action, hc, _⟩ | ⟨action, hc, _⟩
  · exact .inl hc
  · exact .inr (hc ▸ .ended)
  · exact .inr (hc ▸ .enqueue action)
  · exact .inr (hc ▸ .transition action)

/-- A property of codes that every call has as it begins and that every section keeps. -/
structure CodeInvariant (f : Code → Bool) : Prop where
  tail : ∀ s rest, f (s :: rest) = true → f rest = true
  aside : ∀ pre rest, pre.all TaskSection.isAside = true → f rest = true →
    f (inTask pre ++ rest) = true
  fixed : ∀ code, FixedCode code → f code = true
  run : ∀ code, RunCode code → f code = true
  entry : ∀ t : Thread, t.Entry → f t.code = true

theorem CodeInvariant.exec {f : Code → Bool} (hf : CodeInvariant f) {x y : Context}
    (hr : f x.thread.code = true) (hn : x.spawned = []) (h : exec c x s = some y) :
    f y.thread.settle.code = true ∧ ∀ r ∈ y.spawned, f r.code = true := by
  refine ⟨?_, fun r hr => ?_⟩
  · have hcode : f y.thread.code = true := by
      cases s with
      | manager m =>
        rcases execManager_fixed h with hc | hc
        · rwa [hc]
        · exact hf.fixed _ hc
      | task m =>
        simp only [Paradown.exec] at h
        split at h
        · cases h
        · rename_i t ht
          obtain ⟨t', _, he⟩ := execTask_effect ht hn h
          rcases he.fixed with ⟨pre, hp, hc⟩ | hc
          · rw [hc]
            exact hf.aside pre _ hp hr
          · exact hf.fixed _ hc
      | worker m =>
        simp only [Paradown.exec] at h
        split at h
        · cases h
        · split at h
          · cases h
          · rcases execWorker_code h with hc | ⟨hc, _⟩
            · rwa [hc]
            · exact hf.run _ hc
    unfold Thread.settle
    split
    · cases y.thread.frame with
      | transition => exact hf.fixed _ .store
      | plain | finalize => exact hf.fixed _ .ended
    · exact hcode
  · obtain ⟨_, _, _, ⟨_, hc⟩ | ⟨_, hc⟩⟩ := exec_spawned hn h r hr <;> rw [hc]
    · exact hf.run _ .begun
    · exact hf.fixed _ .persist

theorem CodeInvariant.step {f : Code → Bool} (hf : CodeInvariant f) {w w' : World}
    (h : ∀ t ∈ w.threads, f t.code = true) (hs : w.step a = some w') :
    ∀ t ∈ w'.threads, f t.code = true :=
  World.threads_step hf.entry
    (fun w t s rest _ _ ht hc hx => hf.exec (x := w.context t rest) (hf.tail s rest (hc ▸ ht)) rfl hx)
    h hs

/-- A stage of a call that only the sections of `gate` lead to: whoever is in it has passed one. -/
structure Gated (gate : Section → Bool) (f : Code → Bool) : Prop where
  tail : ∀ s rest, f (s :: rest) = false → gate s = false → f rest = false
  effect : ∀ {t rest frame s status code frame'}, TaskEffect t rest frame s status code frame' →
    f (.task s :: rest) = false → gate (.task s) = false → f code = false
  transition : ∀ action, f (transitionCode action) = false
  manager : ∀ sections, f (inManager sections) = false
  run : ∀ sections, f (inWorker sections) = false
  entry : ∀ t : Thread, t.Entry → f t.code = false
  persist : f (inTask [.persistWorker]) = false

theorem Gated.code {gate : Section → Bool} {f : Code → Bool} (hf : Gated gate f) {x y : Context}
    (hn : x.spawned = []) (h : exec c x s = some y) (hc : f (s :: x.thread.code) = false)
    (hg : gate s = false) : f y.thread.code = false := by
  have hrest := hf.tail s _ hc hg
  cases s with
  | manager m =>
    rcases execManager_code h with ⟨hcode, _⟩ | hcode | ⟨action, hcode, _⟩ | ⟨action, hcode, _⟩ <;>
      rw [hcode]
    · exact hrest
    · exact hf.manager []
    · exact hf.manager _
    · exact hf.transition action
  | task m =>
    simp only [exec] at h
    split at h
    · cases h
    · rename_i t ht
      obtain ⟨t', _, he⟩ := execTask_effect ht hn h
      exact hf.effect he hc hg
  | worker m =>
    simp only [exec] at h
    split at h
    · cases h
    · split at h
      · cases h
      · rcases execWorker_code h with hcode | ⟨hcode, _⟩
        · rw [hcode]
          exact hrest
        · obtain ⟨run, hrun⟩ := hcode.eq_inWorker
          rw [hrun]
          exact hf.run run

theorem Gated.settle {gate : Section → Bool} {f : Code → Bool} (hf : Gated gate f) {t : Thread}
    (h : f t.code = false) : f t.settle.code = false := by
  unfold Thread.settle
  split
  · cases t.frame with
    | transition => exact hf.manager _
    | plain | finalize => exact hf.manager []
  · exact h

theorem Gated.spawned {gate : Section → Bool} {f : Code → Bool} (hf : Gated gate f) {x y : Context}
    (hn : x.spawned = []) (h : exec c x s = some y) (hr : r ∈ y.spawned) : f r.code = false := by
  obtain ⟨_, _, _, ⟨_, hc⟩ | ⟨_, hc⟩⟩ := exec_spawned hn h r hr <;> rw [hc]
  · exact hf.run [.claimRun, .readStatus]
  · exact hf.persist

/-- After a section, a call in the stage was in it before, or has just passed a gate. -/
theorem Gated.commit {gate : Section → Bool} {f : Code → Bool} (hf : Gated gate f) {w : World}
    (hi : w.threads[i]? = some r) (hc : r.code = s :: rest)
    (hx : exec c (w.context r rest) s = some x)
    (hj : (w.commit i r.task x).threads[j]? = some r') (hr : f r'.code = true) :
    (j ≠ i ∧ w.threads[j]? = some r') ∨
      (j = i ∧ r' = x.thread.settle ∧ (f r.code = true ∨ gate s = true)) := by
  rcases World.getElem_commit hj with hj | ⟨rfl, rfl⟩ | hj
  · exact .inl hj
  · refine .inr ⟨rfl, rfl, ?_⟩
    by_contra hcon
    rw [not_or, Bool.not_eq_true, Bool.not_eq_true, hc] at hcon
    have hs := hf.settle (hf.code rfl hx hcon.1 hcon.2)
    rw [hs] at hr
    cases hr
  · rw [hf.spawned rfl hx hj] at hr
    cases hr

theorem Gated.external {gate : Section → Bool} {f : Code → Bool} (hf : Gated gate f)
    {w w' : World} {j : Nat} {r : Thread} (hs : w.step a = some w') (ha : ∀ i c, a ≠ .step i c)
    (hj : w'.threads[j]? = some r) (hr : f r.code = true) : w.threads[j]? = some r := by
  rcases World.step_entry hs ha with he | ⟨t, ht, he⟩
  · exact he ▸ hj
  · rw [he, List.getElem?_append] at hj
    split at hj
    · exact hj
    · cases List.mem_singleton.1 (List.mem_of_getElem? hj)
      rw [hf.entry r ht] at hr
      cases hr

theorem exec_events {x y : Context} (hn : x.spawned = []) (h : exec c x s = some y) :
    ∃ added, y.events = x.events ++ added := by
  by_cases hm : ∃ m, s = .manager m
  · obtain ⟨m, rfl⟩ := hm
    cases m with
    | emit event =>
      cases h
      exact ⟨_, rfl⟩
    | enqueue _ | dropPermit | removeFromQueue =>
      cases h
      exact ⟨[], (List.append_nil _).symm⟩
    | releaseTaskPermit =>
      simp only [exec, execManager] at h
      split at h
      · cases h
        exact ⟨[], (List.append_nil _).symm⟩
      · split at h <;> cases h <;> exact ⟨[], (List.append_nil _).symm⟩
    | _ =>
      simp only [exec, execManager] at h
      split at h <;> cases h <;> exact ⟨[], (List.append_nil _).symm⟩
  · obtain ⟨_, _, _, hq⟩ := exec_quiet (fun m he => hm ⟨m, he⟩) hn h
    exact ⟨[], by rw [hq.events, List.append_nil]⟩

end Paradown
