import Paradown.Reach

namespace Paradown
set_option autoImplicit true

variable {id k n : Nat}

def Section.isWorker : Section → Bool
  | .worker _ => true
  | _ => false

/-- A worker run is somewhere in one of its codes; no other call executes worker sections. -/
def Thread.Sorted (t : Thread) : Prop :=
  (t.owner = .worker → t.frame = .plain ∧ ∃ full, RunCode full ∧ t.code <:+ full) ∧
  (t.owner ≠ .worker → t.code.any Section.isWorker = false)

theorem FixedCode.noWorker (h : FixedCode code) : code.any Section.isWorker = false := by
  cases h with
  | transition action => cases action <;> rfl
  | onErr frame => cases frame <;> rfl
  | ready discard => cases discard <;> rfl
  | finish discard outcome => rcases outcome with _ | ⟨⟨⟩⟩ <;> cases discard <;> rfl
  | checked check => cases check <;> rfl
  | finalize outcome => rcases outcome with _ | ⟨⟨⟩⟩ <;> rfl
  | _ => rfl

theorem Thread.Entry.noWorker {t : Thread} (h : t.Entry) : t.code.any Section.isWorker = false := by
  cases h with
  | call call id => cases call <;> rfl
  | handler event id => cases event <;> rfl
  | listener event id worker => cases event <;> rfl
  | engine event id => cases event <;> rfl
  | joiner id runs =>
    refine List.any_eq_false.2 fun s hs => ?_
    obtain ⟨err, _, hs⟩ := List.mem_flatMap.1 hs
    have : (stopWorkersAndFailCode err).any Section.isWorker = false := rfl
    exact List.any_eq_false.1 this s hs

theorem suffix_worker (h : RunCode full) (hs : s :: rest <:+ full) : ∃ m, s = .worker m := by
  obtain ⟨run, rfl⟩ := h.eq_inWorker
  obtain ⟨m, _, hm⟩ := List.mem_map.1 (hs.subset List.mem_cons_self)
  exact ⟨m, hm.symm⟩

theorem Thread.settle_run {t : Thread} (hf : t.frame = .plain) :
    t.settle.code = t.code ∧ t.settle.frame = .plain := by
  unfold Thread.settle
  split
  · rename_i hc
    rw [List.isEmpty_iff.1 hc, hf]
    exact ⟨rfl, rfl⟩
  · exact ⟨rfl, hf⟩

theorem Thread.settle_noWorker {t : Thread} (h : t.code.any Section.isWorker = false) :
    t.settle.code.any Section.isWorker = false := by
  unfold Thread.settle
  split
  · cases t.frame <;> rfl
  · exact h

/-- The sections of a run stay in the run, and those of other calls outside. -/
theorem exec_sorted {w : World} {t : Thread} (ht : t.Sorted) (hc : t.code = s :: rest)
    (h : exec c (w.context t rest) s = some x) :
    x.thread.settle.Sorted ∧ ∀ r ∈ x.spawned, r.Sorted := by
  refine ⟨?_, fun r hr => ?_⟩
  · by_cases ho : t.owner = .worker
    · obtain ⟨hf, full, hfull, hsuf⟩ := ht.1 ho
      rw [hc] at hsuf
      obtain ⟨m, rfl⟩ := suffix_worker hfull hsuf
      simp only [exec] at h
      split at h
      · cases h
      · rename_i t₀ ht₀
        split at h
        · cases h
        · obtain ⟨t₁, hq, -, -, hframe⟩ := execWorker_effect ht₀ rfl h
          have hf' : x.thread.frame = .plain := hframe.elim (fun h => h.trans hf) id
          have ho' : x.thread.settle.owner = .worker := by
            rw [Thread.settle_owner, hq.owner]
            exact ho
          refine ⟨fun _ => ?_, fun hn => absurd ho' hn⟩
          rw [(Thread.settle_run hf').1]
          refine ⟨(Thread.settle_run hf').2, ?_⟩
          rcases execWorker_code h with hcode | ⟨hcode, _⟩
          · exact ⟨full, hfull, hcode ▸ (List.suffix_cons _ rest).trans hsuf⟩
          · exact ⟨_, hcode, List.suffix_rfl⟩
    · have hno := ht.2 ho
      rw [hc, List.any_cons, Bool.or_eq_false_iff] at hno
      have hkey : x.thread.owner = t.owner ∧ x.thread.code.any Section.isWorker = false := by
        cases s with
        | manager m =>
          refine ⟨(execManager_owner h).1, ?_⟩
          rcases execManager_fixed h with hcode | hcode
          · rw [hcode]
            exact hno.2
          · exact hcode.noWorker
        | task m =>
          simp only [exec] at h
          split at h
          · cases h
          · rename_i t₀ ht₀
            obtain ⟨t₁, hq, he⟩ := execTask_effect ht₀ rfl h
            refine ⟨hq.owner, ?_⟩
            rcases he.fixed with ⟨pre, _, hcode⟩ | hcode
            · rw [hcode, List.any_append, show (w.context t rest).thread.code = rest from rfl, hno.2]
              simp [inTask, Section.isWorker]
            · exact hcode.noWorker
        | worker m => cases hno.1
      refine ⟨fun hw => ?_, fun _ => Thread.settle_noWorker hkey.2⟩
      rw [Thread.settle_owner, hkey.1] at hw
      exact absurd hw ho
  · obtain ⟨_, _, hf, ⟨ho, hc⟩ | ⟨ho, hc⟩⟩ := exec_spawned rfl h r hr
    · exact ⟨fun _ => ⟨hf, _, .begun, hc ▸ List.suffix_rfl⟩, fun hn => absurd ho hn⟩
    · exact ⟨fun hw => absurd (ho.symm.trans hw) (by simp), fun _ => by rw [hc]; rfl⟩

theorem World.sorted_step {w w' : World} (h : ∀ t ∈ w.threads, t.Sorted) (hs : w.step a = some w') :
    ∀ t ∈ w'.threads, t.Sorted :=
  World.threads_step (fun _ ht => ⟨fun ho => absurd ho ht.owner_ne, fun _ => ht.noWorker⟩)
    (fun _ _ _ _ _ _ ht hc hx => exec_sorted ht hc hx) h hs

/-- The flags that stop a worker for good stay raised. -/
structure WorkerState.Keeps (ws ws' : WorkerState) : Prop where
  stop : ws.shouldStopGracefully = true → ws'.shouldStopGracefully = true
  paused : ws.paused = true → ws'.paused = true

theorem WorkerState.Keeps.refl (ws : WorkerState) : ws.Keeps ws := ⟨fun h => h, fun h => h⟩

theorem WorkerState.raise_keeps (kind : StopKind) (ws : WorkerState) : ws.Keeps (ws.raise kind) := by
  cases kind with
  | pause => exact ⟨fun h => h, fun _ => rfl⟩
  | cancel => exact ⟨fun _ => by simp [raise, shouldStopGracefully], fun h => h⟩
  | delete => exact ⟨fun _ => by simp [raise, shouldStopGracefully], fun h => h⟩

theorem WorkerState.stop_keeps (kind : StopKind) (ws : WorkerState) : ws.Keeps (ws.stop kind).1 := by
  cases kind with
  | pause =>
    simp only [WorkerState.stop]
    split <;> exact ⟨fun h => h, fun h => h⟩
  | cancel | delete => exact ⟨fun h => h, fun h => h⟩

theorem TaskState.modifyWorker_keeps {t : TaskState} {f : WorkerState → WorkerState}
    (hk : t.arena[k]? = some ws) (hf : j = k → ws.Keeps (f ws)) :
    ∃ ws', (t.modifyWorker j f).arena[k]? = some ws' ∧ ws.Keeps ws' := by
  simp only [TaskState.modifyWorker, List.getElem?_modify, hk]
  by_cases h : j = k
  · exact ⟨f ws, by simp [h], hf h⟩
  · exact ⟨ws, by simp [h], .refl ws⟩

theorem execManager_view {x y : Context} (hx : x.task = some t) (hy : y.task = some t')
    (h : execManager c x s = some y) :
    t'.status = t.status ∧ t'.arena = t.arena ∧ t'.workers = t.workers := by
  cases s with
  | enqueue _ | dropPermit | removeFromQueue | emit _ =>
    cases h
    cases hx.symm.trans hy
    exact ⟨rfl, rfl, rfl⟩
  | acquire _ | lookup | popNext | persistTask | persistHttpSession =>
    simp only [execManager] at h
    split at h <;> cases h <;> cases hx.symm.trans hy <;> exact ⟨rfl, rfl, rfl⟩
  | storePermit | clearSlot | releasePermit | removeTask =>
    simp only [execManager, hx] at h
    cases h
    cases hy
    exact ⟨rfl, rfl, rfl⟩
  | releaseTaskPermit =>
    simp only [execManager, hx] at h
    split at h <;> cases h
    · cases hy
      exact ⟨rfl, rfl, rfl⟩
    · cases hx.symm.trans hy
      exact ⟨rfl, rfl, rfl⟩

theorem execTask_keeps {x y : Context} (hx : x.task = some t) (hy : y.task = some t')
    (h : execTask c x t s = some y) (hk : t.arena[k]? = some ws) :
    ∃ ws', t'.arena[k]? = some ws' ∧ ws.Keeps ws' := by
  have hsame : t'.arena = t.arena → ∃ ws', t'.arena[k]? = some ws' ∧ ws.Keeps ws' :=
    fun he => ⟨ws, he ▸ hk, .refl ws⟩
  cases s with
  | stopEach kind =>
    simp only [execTask] at h
    split at h <;> cases h
    · cases hx.symm.trans hy
      exact hsame rfl
    · cases hy
      exact TaskState.modifyWorker_keeps hk fun _ => ws.raise_keeps kind
  | stopWorker kind j =>
    simp only [execTask] at h
    split at h <;> cases h
    · cases hx.symm.trans hy
      exact hsame rfl
    · rename_i state hj
      cases hy
      refine TaskState.modifyWorker_keeps hk fun he => ?_
      subst j
      cases hk.symm.trans hj
      exact ws.stop_keeps kind
  | createWorkers =>
    simp only [execTask] at h
    split at h <;> cases h
    · cases hy
      exact ⟨ws, (List.getElem?_append_left (List.getElem?_eq_some_iff.1 hk).1).trans hk, .refl ws⟩
    · cases hx.symm.trans hy
      exact hsame rfl
  | setStatus _ | setTorrentSession | clearManifestState | listenToEngine | clearTaskWorkers
  | emitStop _ _ | spawnWorkers =>
    cases h
    cases hy
    exact hsame rfl
  | snapshotWorkers | persistWorkerLater | finalizeDownload =>
    cases h
    cases hx.symm.trans hy
    exact hsame rfl
  | resumeGate =>
    simp only [execTask, resumePaused] at h
    repeat' split at h
    all_goals cases h
    all_goals first | (cases hx.symm.trans hy; exact hsame rfl) | (cases hy; exact hsame rfl)
  | prepareForStart | io | ioOrFail | sessionIo | prepareDownload | markEngineRunning | pauseGate
  | cancelGate | ensureWorkers | installWorkers | persistWorker | unlessFailed | checkEach _ =>
    simp only [execTask] at h
    repeat' split at h
    all_goals cases h
    all_goals first | (cases hx.symm.trans hy; exact hsame rfl) | (cases hy; exact hsame rfl)

theorem execWorker_keeps {x y : Context} (hx : x.task = some t) (hy : y.task = some t')
    (h : execWorker c x t w s = some y) (hk : t.arena[k]? = some ws) :
    ∃ ws', t'.arena[k]? = some ws' ∧
      (ws.Keeps ws' ∨ s = .unpause ∧ x.thread.worker = k ∧
        ws'.shouldStopGracefully = ws.shouldStopGracefully) := by
  have hsame : t'.arena = t.arena → ∃ ws', t'.arena[k]? = some ws' ∧
      (ws.Keeps ws' ∨ s = .unpause ∧ x.thread.worker = k ∧
        ws'.shouldStopGracefully = ws.shouldStopGracefully) :=
    fun he => ⟨ws, he ▸ hk, .inl (.refl ws)⟩
  have hmodify : ∀ f : WorkerState → WorkerState, t' = t.modifyWorker x.thread.worker f →
      ws.Keeps (f ws) → ∃ ws', t'.arena[k]? = some ws' ∧
        (ws.Keeps ws' ∨ s = .unpause ∧ x.thread.worker = k ∧
          ws'.shouldStopGracefully = ws.shouldStopGracefully) := by
    rintro f rfl hf
    obtain ⟨ws', h1, h2⟩ := TaskState.modifyWorker_keeps (j := x.thread.worker) hk fun _ => hf
    exact ⟨ws', h1, .inl h2⟩
  cases s with
  | unpause =>
    cases h
    cases hy
    by_cases hj : x.thread.worker = k
    · refine ⟨{ ws with paused := false }, ?_, .inr ⟨rfl, hj, rfl⟩⟩
      simp [TaskState.modifyWorker, hk, hj]
    · refine ⟨ws, ?_, .inl (.refl ws)⟩
      simp [TaskState.modifyWorker, hk, hj]
  | setStatus _ | endRun =>
    cases h
    exact hmodify _ (Option.some.inj hy).symm ⟨fun h => h, fun h => h⟩
  | claimRun =>
    simp only [execWorker] at h
    split at h <;> cases h
    · cases hx.symm.trans hy
      exact hsame rfl
    · exact hmodify _ (Option.some.inj hy).symm ⟨fun h => h, fun h => h⟩
  | emit _ =>
    cases h
    cases hy
    exact hsame rfl
  | report =>
    simp only [execWorker] at h
    split at h <;> cases h
    · cases hy
      exact hsame rfl
    · cases hx.symm.trans hy
      exact hsame rfl
  | readStatus | checkLength | stopGate | waitGate | buildRequest | send | nextChunk | nextSlice | write
  | validateLength =>
    have hkeep : ∀ c, (x.retryOrFail c).task = x.task := by
      intro c
      unfold Context.retryOrFail
      split <;> rfl
    simp only [execWorker] at h
    repeat' split at h
    all_goals cases h
    all_goals first
      | (cases hx.symm.trans hy; exact hsame rfl)
      | (cases hx.symm.trans ((hkeep _).symm.trans hy); exact hsame rfl)

/-- What a section does to the flags of a worker: those that stop it stay raised, and only its own
run takes back that it is paused. -/
theorem exec_flags {x y : Context} (hx : x.task = some t) (hy : y.task = some t')
    (h : exec c x s = some y) (hk : t.arena[k]? = some ws) :
    ∃ ws', t'.arena[k]? = some ws' ∧
      (ws.Keeps ws' ∨ s = .worker .unpause ∧ x.thread.worker = k ∧
        ws'.shouldStopGracefully = ws.shouldStopGracefully) := by
  cases s with
  | manager m => exact ⟨ws, (execManager_view hx hy h).2.1 ▸ hk, .inl (.refl ws)⟩
  | task m =>
    simp only [exec, hx] at h
    obtain ⟨ws', h1, h2⟩ := execTask_keeps hx hy h hk
    exact ⟨ws', h1, .inl h2⟩
  | worker m =>
    simp only [exec, hx] at h
    split at h
    · cases h
    · obtain ⟨ws', h1, h2⟩ := execWorker_keeps hx hy h hk
      exact ⟨ws', h1, h2.imp_right fun h => ⟨by rw [h.1], h.2⟩⟩

theorem exec_isSome {x y : Context} (hn : x.spawned = []) (h : exec c x s = some y) :
    y.task.isSome = x.task.isSome := by
  by_cases hm : ∃ m, s = .manager m
  · obtain ⟨m, rfl⟩ := hm
    cases m with
    | enqueue _ | dropPermit | removeFromQueue | emit _ =>
      cases h
      rfl
    | releaseTaskPermit =>
      simp only [exec, execManager] at h
      split at h
      · cases h
        rfl
      · split at h <;> cases h <;> simp_all [Context.clearSlot]
    | _ =>
      simp only [exec, execManager] at h
      split at h <;> cases h <;>
        simp_all [Context.clearSlot, Context.setTask, Context.halt, Context.dropPermit]
  · obtain ⟨t, t', ht, hq⟩ := exec_quiet (fun m he => hm ⟨m, he⟩) hn h
    rw [hq.task, ht]
    rfl

theorem exec_starts {x y : Context} (hn : x.spawned = []) (h : exec c x s = some y)
    (hr : r ∈ y.spawned) (ho : r.owner = .worker) : s = .task .spawnWorkers := by
  have hnone : y.spawned = x.spawned → s = .task .spawnWorkers := by
    intro he
    rw [he, hn] at hr
    cases hr
  cases s with
  | manager m => exact hnone (execManager_owner h).2
  | task m =>
    simp only [exec] at h
    split at h
    · cases h
    · cases m with
      | spawnWorkers => rfl
      | persistWorkerLater =>
        cases h
        cases List.mem_singleton.1 hr
        cases ho
      | setStatus _ | setTorrentSession | clearManifestState | listenToEngine | clearTaskWorkers
      | emitStop _ _ | snapshotWorkers | finalizeDownload =>
        cases h
        exact hnone rfl
      | _ =>
        simp only [execTask, resumePaused] at h
        repeat' split at h
        all_goals cases h
        all_goals exact hnone rfl
  | worker m =>
    simp only [exec] at h
    split at h
    · cases h
    · split at h
      · cases h
      · have hkeep : ∀ c, (x.retryOrFail c).spawned = x.spawned := by
          intro c
          unfold Context.retryOrFail
          split <;> rfl
        cases m with
        | unpause | setStatus _ | emit _ | endRun =>
          cases h
          exact hnone rfl
        | _ =>
          simp only [execWorker] at h
          repeat' split at h
          all_goals cases h
          all_goals first | exact hnone rfl | exact hnone (hkeep _)

theorem exec_moves {x y : Context} (hn : x.spawned = []) (h : exec c x s = some y) :
    y.thread.task = x.thread.task ∨ ∃ action, s = .manager .popNext ∧
      y.thread.code = transitionCode action.requested ∧
      x.queue = (y.thread.task, action) :: y.queue := by
  by_cases hm : ∃ m, s = .manager m
  · obtain ⟨m, rfl⟩ := hm
    cases m with
    | enqueue _ | dropPermit | removeFromQueue | emit _ =>
      cases h
      exact .inl rfl
    | popNext =>
      simp only [exec, execManager] at h
      split at h <;> cases h
      · exact .inl rfl
      · exact .inr ⟨_, rfl, rfl, ‹_›⟩
    | releaseTaskPermit =>
      simp only [exec, execManager] at h
      split at h
      · cases h
        exact .inl rfl
      · split at h <;> cases h <;> exact .inl rfl
    | _ =>
      simp only [exec, execManager] at h
      split at h <;> cases h <;> exact .inl rfl
  · obtain ⟨_, _, _, hq⟩ := exec_quiet (fun m he => hm ⟨m, he⟩) hn h
    exact .inl hq.id

end Paradown
