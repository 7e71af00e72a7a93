import Paradown.Outcome

namespace Paradown
set_option autoImplicit true

variable {id k : Nat}

/-- The worker belongs to the current run of the task. -/
def World.current (w : World) (id worker : Nat) : Bool :=
  (w.tasks[id]?).any fun t => t.workers.contains worker

/-- The call handles a message of a worker that has been replaced since. -/
def World.outdated (w : World) (t : Thread) : Bool := t.sources.any fun k => !w.current t.task k

/-- What comes from a worker of an earlier run of the task: its transfer, its message, the result of
its run, and every section of the handling. -/
def World.isLate (w : World) (id : Nat) : Act → Bool
  | .step i _ =>
    (w.threads[i]?).any fun r =>
      r.task == id && (w.outdated r || r.owner == .worker && !w.current id r.worker)
  | .listen j =>
    j == id && (w.tasks[id]?).any fun t => t.channel.head?.any fun e => !t.workers.contains e.1
  | .join j batch => j == id && (w.batch id batch).any fun r => !w.current id r.worker
  | _ => false

/-- The status of the task, its worker list, the workers in it and the events sent to the manager are
as they were. -/
def World.Unaffected (w w' : World) (id : Nat) : Prop :=
  w'.events = w.events ∧ w'.status id = w.status id ∧
    ∀ t ∈ w.tasks[id]?, ∃ t' ∈ w'.tasks[id]?, t'.workers = t.workers ∧
      ∀ k ∈ t.workers, t'.arena[k]? = t.arena[k]?

instance : Decidable (World.Unaffected w w' id) := inferInstanceAs (Decidable (_ ∧ _ ∧ _))

/-- What comes from an earlier run decides nothing and changes nothing. -/
def Isolated (id : Nat) (w : World) (a : Act) : Prop :=
  w.isLate id a = true →
    w.sectionOn id a ≠ some (.task .finalizeDownload) ∧ ∀ w' ∈ w.step a, w.Unaffected w' id

instance : Decidable (Isolated id w a) := inferInstanceAs (Decidable (_ → _))

/-- Note a change of the status; one that something of an earlier run makes only if `late` says so. -/
def noteStatus (id : Nat) (late : Bool) (log : List (Option Status)) (w : World) (a : Act)
    (w' : World) : List (Option Status) :=
  if w'.status id = w.status id ∨ late = false ∧ w.isLate id a = true then log
  else log ++ [w'.status id]

/-- The statuses that the task goes through. -/
def statusLog (id : Nat) (late : Bool) (w : World) (as : List Act) : List (Option Status) :=
  Transition.history World.step (noteStatus id late) [] w as

/-- The sections of a handler that only look at the task, or write a row of it. -/
def Section.isMute : Section → Bool
  | .task s =>
    match s with
    | .persistWorkerLater | .persistWorker | .unlessFailed | .snapshotWorkers | .checkEach _ => true
    | _ => false
  | _ => false

def Section.isCheck : Section → Bool
  | .task (.checkEach _) => true
  | _ => false

def WorkerEvent.isError : WorkerEvent → Bool
  | .error _ => true
  | _ => false

def Choice.isFail : Choice → Bool
  | .fail _ => true
  | _ => false

/-- A worker in the list has the lane of this worker, so that its row is found. -/
def TaskState.hasLaneOf (t : TaskState) (worker : Nat) : Bool :=
  t.workers.any fun k => (t.arena[k]?).map (·.lane) == (t.arena[worker]?).map (·.lane)

/-- The check of a late message does not succeed, a row written for one does not fail where a
current worker has the lane, and the workers are replaced only while no handler of their messages
is about to act. -/
def World.SectionKeepsApart (w : World) (c : Choice) (r : Thread) (s : Section) : Prop :=
  (s.isCheck = true → w.outdated r = true → r.snapshot ≠ []) ∧
  (s = .task .persistWorker → w.outdated r = true → c.isFail = true →
    ∀ t ∈ w.tasks[r.task]?, t.hasLaneOf r.worker = false) ∧
  (s = .task .clearTaskWorkers →
    ∀ h ∈ w.threads, h.task = r.task → h.sources ≠ [] → h.code.all Section.isMute = true)

instance : Decidable (World.SectionKeepsApart w c r s) := inferInstanceAs (Decidable (_ ∧ _ ∧ _))

/-- No error reaches the task from a worker of an earlier run, and no section mixes its runs. -/
def KeepsRunsApart (id : Nat) (w : World) : Act → Prop
  | .step i c => ∀ e ∈ w.next i, e.1.task = id → w.SectionKeepsApart c e.1 e.2.1
  | .listen j => j = id → ∀ t ∈ w.tasks[id]?, ∀ e ∈ t.channel.head?, e.2.isError = true →
      e.1 ∈ t.workers
  | .join j batch => j = id → (∃ r ∈ w.batch id batch, r.result ≠ none) →
      ∀ r ∈ w.batch id batch, w.current id r.worker = true
  | _ => True

instance : Decidable (KeepsRunsApart id w a) :=
  match a with
  | .step _ _ => inferInstanceAs (Decidable (∀ _ ∈ _, _))
  | .listen _ | .join _ _ => inferInstanceAs (Decidable (_ → _))
  | .addTask _ | .call _ _ | .deliver | .lag | .listenerLag _ | .engineEvent _ _ =>
    inferInstanceAs (Decidable True)

/-- The sections that the handling of a message can consist of. -/
def Section.inHandler : Section → Bool
  | .task _ => true
  | .manager s => s != .popNext
  | .worker _ => false

/-- Whoever handles a message has no caller to return to and takes nothing from the queue. -/
def Thread.Handling (t : Thread) : Prop :=
  t.sources ≠ [] → t.frame ≠ .transition ∧ t.code.all Section.inHandler = true

theorem inHandler_inTask (pre : List TaskSection) : (inTask pre).all Section.inHandler = true := by
  simp [inTask, Section.inHandler]

theorem TaskEffect.inHandler (h : TaskEffect t rest frame s status code frame')
    (hf : frame ≠ .transition) (hr : rest.all Section.inHandler = true) :
    frame' ≠ .transition ∧ code.all Section.inHandler = true := by
  have haside : ∀ pre, (inTask pre ++ rest).all Section.inHandler = true := fun pre => by
    rw [List.all_append, inHandler_inTask, hr]
    rfl
  cases h with
  | next | set => exact ⟨hf, hr⟩
  | reset => exact ⟨hf, haside _⟩
  | stop | check => exact ⟨hf, haside _⟩
  | fail =>
    refine ⟨nofun, ?_⟩
    cases frame with
    | transition => exact absurd rfl hf
    | plain | finalize => rfl
  | prepared h =>
    refine ⟨hf, ?_⟩
    unfold preparedCode at h
    split at h <;> cases h
    · rename_i discard
      cases discard <;> rfl
    · rename_i discard outcome
      rcases outcome with _ | ⟨⟨⟩⟩ <;> cases discard <;> rfl
    · rfl
  | checked =>
    rename_i check
    exact ⟨hf, by cases check <;> rfl⟩
  | finalize =>
    rename_i outcome
    exact ⟨nofun, by rcases outcome with _ | ⟨⟨⟩⟩ <;> rfl⟩
  | halt | deleteFailed => exact ⟨nofun, rfl⟩
  | engineOver | engineRunning | resumeStart | resumeSession | resumeAgain | pause | cancel
  | recreate | reuse | persistFailed => exact ⟨hf, rfl⟩

theorem execManager_frame {x y : Context} (h : execManager c x m = some y) (hp : m ≠ .popNext) :
    y.thread.frame = x.thread.frame ∨ y.thread.frame = .plain := by
  cases m with
  | popNext => exact absurd rfl hp
  | enqueue _ | dropPermit | removeFromQueue | emit _ =>
    cases h
    exact .inl rfl
  | acquire _ =>
    simp only [execManager] at h
    split at h <;> cases h
    · exact .inr rfl
    · exact .inl rfl
  | lookup | persistTask | persistHttpSession =>
    simp only [execManager] at h
    split at h <;> cases h
    · exact .inl rfl
    · exact .inr rfl
  | storePermit | clearSlot | releasePermit | removeTask =>
    simp only [execManager] at h
    split at h <;> cases h
    exact .inl rfl
  | releaseTaskPermit =>
    simp only [execManager] at h
    split at h
    · cases h
      exact .inl rfl
    · split at h <;> cases h <;> exact .inl rfl

theorem execManager_inHandler {x y : Context} (h : execManager c x m = some y)
    (hr : x.thread.code.all Section.inHandler = true) :
    y.thread.code.all Section.inHandler = true := by
  rcases execManager_code h with ⟨hc, _⟩ | hc | ⟨action, hc, _⟩ | ⟨action, hc, _⟩ <;> rw [hc]
  · exact hr
  · rfl
  · rfl
  · cases action <;> rfl

theorem exec_spawned_sources {x y : Context} (hn : x.spawned = []) (h : exec c x s = some y)
    (hr : r ∈ y.spawned) : r.sources = [] ∨ r.frame = .plain ∧ r.code = inTask [.persistWorker] := by
  obtain ⟨_, _, hf, ⟨ho, _⟩ | ⟨_, hc⟩⟩ := exec_spawned hn h r hr
  · cases exec_starts hn h hr ho
    simp only [exec] at h
    split at h
    · cases h
    · cases h
      obtain ⟨k, _, rfl⟩ := List.mem_map.1 hr
      exact .inl rfl
  · exact .inr ⟨hf, hc⟩

theorem Thread.Handling.settle {t : Thread} (h : t.Handling) : t.settle.Handling := by
  unfold Thread.settle
  split
  · intro hs
    obtain ⟨hf, _⟩ := h hs
    refine ⟨nofun, ?_⟩
    cases hframe : t.frame with
    | transition => exact absurd hframe hf
    | plain | finalize => rfl
  · exact h

theorem exec_handling {w : World} {t : Thread} (ht : t.Handling) (hc : t.code = s :: rest)
    (h : exec c (w.context t rest) s = some x) :
    x.thread.Handling ∧ ∀ r ∈ x.spawned, r.Handling := by
  refine ⟨fun hs => ?_, fun r hr hs => ?_⟩
  · rw [(exec_same rfl h).2.2] at hs
    obtain ⟨hf, hcode⟩ := ht hs
    rw [hc, List.all_cons, Bool.and_eq_true] at hcode
    cases s with
    | manager m =>
      have hp : m ≠ .popNext := by simpa [Section.inHandler] using hcode.1
      refine ⟨?_, execManager_inHandler h hcode.2⟩
      rcases execManager_frame h hp with he | he <;> rw [he]
      · exact hf
      · nofun
    | task m =>
      simp only [exec] at h
      split at h
      · cases h
      · rename_i t₀ ht₀
        obtain ⟨_, _, he⟩ := execTask_effect ht₀ rfl h
        exact he.inHandler hf hcode.2
    | worker m => cases hcode.1
  · rcases exec_spawned_sources rfl h hr with he | ⟨hf, hcode⟩
    · exact absurd he hs
    · exact ⟨hf ▸ nofun, hcode ▸ rfl⟩

theorem Thread.Entry.handling {t : Thread} (h : t.Entry) : t.Handling := by
  cases h with
  | call call id => exact fun hs => absurd rfl hs
  | handler event id => exact fun hs => absurd rfl hs
  | engine event id => exact fun hs => absurd rfl hs
  | listener event id worker => exact fun _ => ⟨nofun, by cases event <;> rfl⟩
  | joiner id runs =>
    refine fun _ => ⟨nofun, List.all_eq_true.2 fun s hs => ?_⟩
    obtain ⟨err, _, hm⟩ := List.mem_flatMap.1 hs
    have hall : (stopWorkersAndFailCode err).all Section.inHandler = true := rfl
    exact List.all_eq_true.1 hall s hm

theorem World.handling_step {w w' : World} (h : ∀ t ∈ w.threads, t.Handling)
    (hs : w.step a = some w') : ∀ t ∈ w'.threads, t.Handling :=
  World.threads_step (fun _ ht => ht.handling)
    (fun _ _ _ _ _ _ ht hc hx => (exec_handling ht hc hx).imp_left Thread.Handling.settle) h hs

theorem execTask_workers {x y : Context} (hx : x.task = some t) (hy : y.task = some t')
    (h : execTask c x t s = some y) :
    t'.workers = t.workers ∨ s = .clearTaskWorkers ∨ s = .installWorkers ∧ t.workers = [] := by
  cases s with
  | clearTaskWorkers => exact .inr (.inl rfl)
  | installWorkers =>
    simp only [execTask] at h
    split at h <;> cases h
    · exact .inr (.inr ⟨rfl, ‹_›⟩)
    · cases hx.symm.trans hy
      exact .inl rfl
  | setStatus _ | setTorrentSession | clearManifestState | listenToEngine | emitStop _ _ | spawnWorkers =>
    cases h
    cases hy
    exact .inl rfl
  | snapshotWorkers | persistWorkerLater | finalizeDownload =>
    cases h
    cases hx.symm.trans hy
    exact .inl rfl
  | _ =>
    refine .inl ?_
    simp only [execTask, resumePaused] at h
    repeat' split at h
    all_goals cases h
    all_goals first | (cases hx.symm.trans hy; rfl) | (cases hy; rfl)

theorem execWorker_frame {x y : Context} (hx : x.task = some t) (hy : y.task = some t')
    (h : execWorker c x t w s = some y) :
    t'.status = t.status ∧ t'.workers = t.workers ∧
      ∀ k, k ≠ x.thread.worker → t'.arena[k]? = t.arena[k]? := by
  have hmodify : ∀ f : WorkerState → WorkerState, t' = t.modifyWorker x.thread.worker f →
      t'.status = t.status ∧ t'.workers = t.workers ∧
        ∀ k, k ≠ x.thread.worker → t'.arena[k]? = t.arena[k]? := by
    rintro f rfl
    refine ⟨rfl, rfl, fun k hk => ?_⟩
    simp [TaskState.modifyWorker, Ne.symm hk]
  have hsame : t' = t → t'.status = t.status ∧ t'.workers = t.workers ∧
      ∀ k, k ≠ x.thread.worker → t'.arena[k]? = t.arena[k]? := by
    rintro rfl
    exact ⟨rfl, rfl, fun _ _ => rfl⟩
  cases s with
  | unpause | setStatus _ | endRun =>
    cases h
    exact hmodify _ (Option.some.inj hy).symm
  | claimRun =>
    simp only [execWorker] at h
    split at h <;> cases h
    · exact hsame (Option.some.inj (hy.symm.trans hx))
    · exact hmodify _ (Option.some.inj hy).symm
  | emit _ =>
    cases h
    cases hy
    exact ⟨rfl, rfl, fun _ _ => rfl⟩
  | report =>
    simp only [execWorker] at h
    split at h <;> cases h
    · cases hy
      exact ⟨rfl, rfl, fun _ _ => rfl⟩
    · exact hsame (Option.some.inj (hy.symm.trans hx))
  | readStatus | checkLength | stopGate | waitGate | buildRequest | send | nextChunk | nextSlice | write
  | validateLength =>
    have hkeep : ∀ c, (x.retryOrFail c).task = x.task := by
      intro c
      unfold Context.retryOrFail
      split <;> rfl
    simp only [execWorker] at h
    repeat' split at h
    all_goals cases h
    all_goals first
      | exact hsame (Option.some.inj (hy.symm.trans hx))
      | exact hsame (Option.some.inj (((hkeep _).symm.trans hy).symm.trans hx))

/-- A handler that only looks at the task goes on doing so, unless its check succeeds or the row of a
current worker cannot be written. -/
theorem execTask_mute {x y : Context} (hx : x.task = some t) (h : execTask c x t m = some y)
    (hm : Section.isMute (.task m) = true) (hr : x.thread.code.all Section.isMute = true)
    (hcheck : Section.isCheck (.task m) = true → x.thread.snapshot ≠ [])
    (hrow : m = .persistWorker → c.isFail = true → t.hasLaneOf x.thread.worker = false) :
    y.task = some t ∧ y.events = x.events ∧ y.thread.code.all Section.isMute = true := by
  cases m with
  | persistWorkerLater | snapshotWorkers =>
    cases h
    exact ⟨hx, rfl, hr⟩
  | persistWorker =>
    cases c with
    | fail err =>
      have hno := hrow rfl rfl
      simp only [execTask] at h
      split at h
      · rename_i hlane
        rw [TaskState.hasLaneOf, hlane] at hno
        cases hno
      · cases h
        exact ⟨hx, rfl, hr⟩
    | _ =>
      cases h
      exact ⟨hx, rfl, hr⟩
  | unlessFailed =>
    simp only [execTask] at h
    split at h <;> cases h
    · exact ⟨hx, rfl, rfl⟩
    · exact ⟨hx, rfl, hr⟩
  | checkEach check =>
    simp only [execTask] at h
    split at h
    · exact absurd ‹_› (hcheck rfl)
    · split at h <;> cases h
      · exact ⟨hx, rfl, hr⟩
      · exact ⟨hx, rfl, rfl⟩
  | _ => cases hm

/-- Every handler of an outdated message only looks at the task. -/
def World.Apart (id : Nat) (w : World) : Prop :=
  ∀ t ∈ w.threads, t.task = id → w.outdated t = true → t.code.all Section.isMute = true

theorem World.outdated_mono {w w' : World} {h : Thread}
    (hc : ∀ k, w.current h.task k = true → w'.current h.task k = true)
    (ho : w'.outdated h = true) : w.outdated h = true := by
  obtain ⟨k, hk, hno⟩ := List.any_eq_true.1 ho
  refine List.any_eq_true.2 ⟨k, hk, ?_⟩
  rw [Bool.not_eq_true'] at hno ⊢
  refine Bool.eq_false_iff.2 fun hcur => ?_
  rw [hc k hcur] at hno
  cases hno

theorem World.sources_of_outdated {w : World} {h : Thread} (ho : w.outdated h = true) :
    h.sources ≠ [] := by
  intro hs
  rw [World.outdated, hs] at ho
  cases ho

theorem World.outdated_commit {w : World} {r h : Thread}
    (hx : exec c (w.context r rest) s = some x)
    (ho : (w.commit i r.task x).outdated h = true) :
    w.outdated h = true ∨ r.task = h.task ∧ s = .task .clearTaskWorkers := by
  by_cases hid : r.task = h.task
  · have hsome := exec_isSome (x := w.context r rest) rfl hx
    have hnew : ∀ k, (w.commit i r.task x).current h.task k =
        x.task.any fun t => t.workers.contains k := by
      intro k
      rw [World.current, ← hid, World.commit_task hsome]
    cases ht : w.tasks[r.task]? with
    | none =>
      refine .inl (World.outdated_mono (fun k hk => ?_) ho)
      rw [World.current, ← hid, ht] at hk
      cases hk
    | some t =>
      have hxt : (w.context r rest).task = some t := ht
      obtain ⟨t', ht'⟩ := Option.isSome_iff_exists.1 (hsome.trans (by rw [hxt, Option.isSome_some]))
      have hsame : t'.workers = t.workers → w.outdated h = true := by
        intro he
        refine World.outdated_mono (fun k hk => ?_) ho
        rw [hnew, ht', Option.any_some, he]
        rwa [World.current, ← hid, ht, Option.any_some] at hk
      cases s with
      | manager m => exact .inl (hsame (execManager_view hxt ht' hx).2.2)
      | task m =>
        simp only [exec, hxt] at hx
        rcases execTask_workers hxt ht' hx with he | rfl | ⟨_, he⟩
        · exact .inl (hsame he)
        · exact .inr ⟨hid, rfl⟩
        · refine .inl (World.outdated_mono (fun k hk => ?_) ho)
          rw [World.current, ← hid, ht, Option.any_some, he] at hk
          cases hk
      | worker m =>
        simp only [exec, hxt] at hx
        split at hx
        · cases hx
        · exact .inl (hsame (execWorker_frame hxt ht' hx).2.1)
  · refine .inl (World.outdated_mono (fun k hk => ?_) ho)
    rwa [World.current, World.commit_task_ne (Ne.symm hid)]

theorem World.Apart.mute {w : World} (h : w.Apart id) (hok : KeepsRunsApart id w (.step i c))
    (hi : w.threads[i]? = some r) (hc : r.code = s :: rest) (hid : r.task = id)
    (ho : w.outdated r = true) (hx : exec c (w.context r rest) s = some x) :
    ∃ t, w.tasks[r.task]? = some t ∧ x.task = some t ∧ x.events = w.events ∧
      x.thread.code.all Section.isMute = true := by
  have hcode := h r (List.mem_of_getElem? hi) hid ho
  rw [hc, List.all_cons, Bool.and_eq_true] at hcode
  obtain ⟨hcheck, hrow, _⟩ := hok _ (World.next_eq hi hc) hid
  cases s with
  | manager m => cases hcode.1
  | worker m => cases hcode.1
  | task m =>
    simp only [exec] at hx
    split at hx
    · cases hx
    · rename_i t ht
      have ht' : w.tasks[r.task]? = some t := ht
      obtain ⟨h1, h2, h3⟩ := execTask_mute (x := w.context r rest) ht hx hcode.1 hcode.2
        (fun hch => hcheck hch ho) (fun he hf => hrow (he ▸ rfl) ho hf t ht')
      exact ⟨t, ht', h1, h2, h3⟩

theorem Thread.settle_mute {t : Thread} (hf : t.frame ≠ .transition)
    (h : t.code.all Section.isMute = true) : t.settle.code.all Section.isMute = true := by
  unfold Thread.settle
  split
  · cases hframe : t.frame with
    | transition => exact absurd hframe hf
    | plain | finalize => rfl
  · exact h

theorem World.Apart.commit {w : World} (h : w.Apart id) (hh : ∀ t ∈ w.threads, t.Handling)
    (hok : KeepsRunsApart id w (.step i c)) (hi : w.threads[i]? = some r) (hc : r.code = s :: rest)
    (hx : exec c (w.context r rest) s = some x) : (w.commit i r.task x).Apart id := by
  intro t ht hid ho
  rcases World.mem_commit ht with ⟨j, _, hj⟩ | rfl | ht
  · have hm := List.mem_of_getElem? hj
    rcases World.outdated_commit hx ho with hold | ⟨htask, rfl⟩
    · exact h t hm hid hold
    · exact (hok _ (World.next_eq hi hc) (htask.trans hid)).2.2 rfl t hm htask.symm
        (World.sources_of_outdated ho)
  · have hsources : x.thread.settle.sources = r.sources :=
      (Thread.settle_sources x.thread).trans (exec_same rfl hx).2.2
    have hr : r.sources ≠ [] := hsources ▸ World.sources_of_outdated ho
    have hcode := (hh r (List.mem_of_getElem? hi) hr).2
    rw [hc, List.all_cons, Bool.and_eq_true] at hcode
    have htask : x.thread.settle.task = r.task := by
      rw [Thread.settle_task]
      rcases exec_moves rfl hx with he | ⟨_, rfl, _⟩
      · exact he
      · cases hcode.1
    have hold : w.outdated x.thread.settle = w.outdated r := by
      rw [World.outdated, World.outdated, hsources, htask]
    rcases World.outdated_commit hx ho with ho | ⟨_, rfl⟩
    · obtain ⟨_, _, _, _, hmute⟩ := h.mute hok hi hc (htask.symm.trans hid) (hold ▸ ho) hx
      have hframe := ((exec_handling (hh r (List.mem_of_getElem? hi)) hc hx).1
        ((exec_same rfl hx).2.2 ▸ hr)).1
      exact Thread.settle_mute hframe hmute
    · -- No handler clears the worker list.
      have hno := (hok _ (World.next_eq hi hc) (htask.symm.trans hid)).2.2 rfl r
        (List.mem_of_getElem? hi) rfl hr
      rw [hc] at hno
      cases hno
  · rcases exec_spawned_sources rfl hx ht with he | ⟨_, hcode⟩
    · exact absurd he (World.sources_of_outdated ho)
    · rw [hcode]
      rfl

theorem World.current_external {w w' : World} (hs : w.step a = some w') (ha : ∀ i c, a ≠ .step i c)
    (k : Nat) (hk : w.current id k = true) : w'.current id k = true := by
  unfold World.current at hk ⊢
  cases ht : w.tasks[id]? with
  | none =>
    rw [ht] at hk
    cases hk
  | some t =>
    obtain ⟨t', ht', hv⟩ := (World.step_external hs ha).forth id t ht
    rw [ht, Option.any_some] at hk
    rw [ht', Option.any_some, hv.workers]
    exact hk

theorem World.Apart.external {w w' : World} (h : w.Apart id) (hok : KeepsRunsApart id w a)
    (hs : w.step a = some w') (ha : ∀ i c, a ≠ .step i c) : w'.Apart id := by
  have hcur : ∀ k, w.current id k = true → w'.current id k = true := World.current_external hs ha
  intro t ht hid ho
  have hold : w.outdated t = true := World.outdated_mono (hid ▸ hcur) ho
  have hsources := World.sources_of_outdated ho
  rcases World.step_starts hs ha with he | ⟨r, hr, he⟩
  · exact h t (he ▸ ht) hid hold
  · rw [he] at ht
    rcases List.mem_append.1 ht with ht | ht
    · exact h t ht hid hold
    · cases List.mem_singleton.1 ht
      cases hr with
      | call | handler | engine => exact absurd rfl hsources
      | listener event j worker t₀ ht₀ hc =>
        cases event with
        | error err =>
          -- The error of a replaced worker is not delivered.
          have hj : j = id := hid
          subst hj
          have hin := hok rfl t₀ ht₀ (worker, .error err) hc rfl
          have hcurrent : w.current j worker = true := by
            rw [World.current, ht₀, Option.any_some]
            exact List.contains_iff_mem.2 hin
          simp [World.outdated, listenerThread, hcurrent] at hold
        | progress | pause | complete | cancel => rfl
      | joiner j batch =>
        have hj : j = id := hid
        subst hj
        by_cases hfailed : ∃ r ∈ w.batch j batch, r.result ≠ none
        · -- No failed result of a replaced worker is joined.
          have hall := hok rfl hfailed
          obtain ⟨k, hk, hno⟩ := List.any_eq_true.1 hold
          obtain ⟨r, hr, rfl⟩ := List.mem_map.1 hk
          have hcurrent := hall r hr
          simp [joinerThread, hcurrent] at hno
        · have hnone : (w.batch j batch).filterMap (·.result) = [] := by
            refine List.filterMap_eq_nil_iff.2 fun r hr => ?_
            by_contra hne
            exact hfailed ⟨r, hr, hne⟩
          rw [joinerThread, hnone]
          rfl

theorem World.Apart.step {w w' : World} (h : w.Apart id) (hh : ∀ t ∈ w.threads, t.Handling)
    (hok : KeepsRunsApart id w a) (hs : w.step a = some w') : w'.Apart id := by
  by_cases ha : ∃ i c, a = .step i c
  · obtain ⟨i, c, rfl⟩ := ha
    obtain ⟨r, s, rest, x, hi, hc, hx, rfl⟩ := World.stepThread_some hs
    exact h.commit hh hok hi hc hx
  · exact h.external hok hs fun i c he => ha ⟨i, c, he⟩

theorem World.unaffected_external {w w' : World} (ht : w.tasks[id]? = some t)
    (hs : w.step a = some w') (ha : ∀ i c, a ≠ .step i c) (he : w'.events = w.events) :
    w.Unaffected w' id := by
  refine ⟨he, World.status_external ?_ hs ha, fun t₀ ht₀ => ?_⟩
  · rw [World.status, ht]
    rfl
  · obtain ⟨t', ht', hv⟩ := (World.step_external hs ha).forth id t₀ ht₀
    exact ⟨t', ht', hv.workers, fun k _ => by rw [hv.arena]⟩

theorem World.unaffected_commit {w : World} {r : Thread} (hx : exec c (w.context r rest) s = some x)
    (ht : w.tasks[r.task]? = some t) (ht' : x.task = some t') (he : x.events = w.events)
    (hst : t'.status = t.status) (hw : t'.workers = t.workers)
    (ha : ∀ k ∈ t.workers, t'.arena[k]? = t.arena[k]?) :
    w.Unaffected (w.commit i r.task x) r.task := by
  refine ⟨he, ?_, fun t₀ ht₀ => ?_⟩
  · rw [World.status_commit hx, ht', World.status, ht, Option.map_some, Option.map_some, hst]
  · cases Option.some.inj (ht.symm.trans ht₀)
    refine ⟨t', ?_, hw, ha⟩
    rw [World.commit_task (exec_isSome (x := w.context r rest) rfl hx), ht']
    exact Option.mem_some_self t'

/-- A section of an outdated handler, or of the run of a replaced worker. -/
theorem World.Apart.isolated_step {w : World} (h : w.Apart id) (hsorted : ∀ t ∈ w.threads, t.Sorted)
    (hok : KeepsRunsApart id w (.step i c)) : Isolated id w (.step i c) := by
  intro hlate
  obtain ⟨r, hi, hr⟩ := (Option.any_eq_true _ _).1 hlate
  rw [Bool.and_eq_true, beq_iff_eq, Bool.or_eq_true, Bool.and_eq_true, beq_iff_eq] at hr
  obtain ⟨hid, hcase⟩ := hr
  have hm := List.mem_of_getElem? hi
  cases hc : r.code with
  | nil =>
    have hnext : w.next i = none := by simp only [World.next, hi, hc]
    refine ⟨by simp [World.sectionOn, hnext], fun w' hs => ?_⟩
    obtain ⟨r', s, rest, x, hi', hc', _⟩ := World.stepThread_some hs
    cases hi.symm.trans hi'
    cases hc.symm.trans hc'
  | cons s rest =>
    rw [World.sectionOn_step hi hc, if_pos hid]
    -- What the step does, once its section is known.
    have hstep : ∀ w' ∈ w.step (.step i c), ∃ x, exec c (w.context r rest) s = some x ∧
        w' = w.commit i r.task x := by
      intro w' hs
      obtain ⟨r', s', rest', x, hi', hc', hx, he⟩ := World.stepThread_some hs
      cases hi.symm.trans hi'
      cases hc.symm.trans hc'
      exact ⟨x, hx, he⟩
    subst hid
    rcases hcase with ho | ⟨hworker, hno⟩
    · have hcode := h r hm rfl ho
      rw [hc, List.all_cons, Bool.and_eq_true] at hcode
      refine ⟨?_, fun w' hs => ?_⟩
      · rintro ⟨⟩
        cases hcode.1
      · obtain ⟨x, hx, rfl⟩ := hstep w' hs
        obtain ⟨t, ht, htask, hev, _⟩ := h.mute hok hi hc rfl ho hx
        exact World.unaffected_commit hx ht htask hev rfl rfl fun _ _ => rfl
    · obtain ⟨_, full, hfull, hsuf⟩ := (hsorted r hm).1 hworker
      obtain ⟨m, rfl⟩ := suffix_worker hfull (hc ▸ hsuf)
      refine ⟨by simp, fun w' hs => ?_⟩
      obtain ⟨x, hx, rfl⟩ := hstep w' hs
      obtain ⟨t, t', ht, hq⟩ := exec_quiet (x := w.context r rest) (by simp) rfl hx
      have ht₀ : w.tasks[r.task]? = some t := ht
      have hne : ∀ k ∈ t.workers, k ≠ r.worker := by
        rintro k hk rfl
        rw [World.current, ht₀, Option.any_some, List.contains_iff_mem.2 hk] at hno
        cases hno
      have hx' := hx
      simp only [exec, ht] at hx'
      split at hx'
      · cases hx'
      · obtain ⟨hst, hw, hframe⟩ := execWorker_frame ht hq.task hx'
        exact World.unaffected_commit hx ht₀ hq.task hq.events hst hw fun k hk => hframe k (hne k hk)

theorem World.Apart.isolated {w : World} (h : w.Apart id) (hsorted : ∀ t ∈ w.threads, t.Sorted)
    (hok : KeepsRunsApart id w a) : Isolated id w a := by
  cases a with
  | step i c => exact h.isolated_step hsorted hok
  | listen j =>
    refine fun hlate => ⟨by simp [World.sectionOn], fun w' hs => ?_⟩
    obtain ⟨_, hany⟩ := Bool.and_eq_true_iff.1 hlate
    obtain ⟨t, ht, _⟩ := (Option.any_eq_true _ _).1 hany
    rcases World.step_events hs (by simp) with he | ⟨he, _⟩ | ⟨he, _⟩
    · exact World.unaffected_external ht hs (by simp) he
    · cases he
    · cases he
  | join j batch =>
    refine fun hlate => ⟨by simp [World.sectionOn], fun w' hs => ?_⟩
    obtain ⟨hj, _⟩ := Bool.and_eq_true_iff.1 hlate
    cases eq_of_beq hj
    cases ht : w.tasks[id]? with
    | none => simp [World.step, ht] at hs
    | some t =>
      rcases World.step_events hs (by simp) with he | ⟨he, _⟩ | ⟨he, _⟩
      · exact World.unaffected_external ht hs (by simp) he
      · cases he
      · cases he
  | _ =>
    intro hlate
    cases hlate

/-- What holds in every state of a run that keeps the runs of a task apart. -/
structure World.RunsApart (id : Nat) (w : World) : Prop where
  sorted : ∀ t ∈ w.threads, t.Sorted
  handling : ∀ t ∈ w.threads, t.Handling
  apart : w.Apart id

theorem World.RunsApart.step {w w' : World} (h : w.RunsApart id) (hok : KeepsRunsApart id w a)
    (hs : w.step a = some w') : w'.RunsApart id where
  sorted := World.sorted_step h.sorted hs
  handling := World.handling_step h.handling hs
  apart := h.apart.step h.handling hok hs

theorem World.RunsApart.isolated {w : World} (h : w.RunsApart id)
    (hc : Transition.Meets World.step (KeepsRunsApart id) w as) :
    Transition.Meets World.step (Isolated id) w as := by
  induction as generalizing w with
  | nil => trivial
  | cons a as ih =>
    exact ⟨h.apart.isolated h.sorted hc.1, fun w' hs => ih (h.step hc.1 hs) (hc.2 w' hs)⟩

/-- Where nothing of an earlier run changes the status, it does not matter whether it is looked at. -/
theorem statusLog_late {w : World} (h : Transition.Meets World.step (Isolated id) w as) :
    statusLog id true w as = statusLog id false w as := by
  have hlog : ∀ log, Transition.history World.step (noteStatus id true) log w as =
      Transition.history World.step (noteStatus id false) log w as := by
    induction as generalizing w with
    | nil => exact fun _ => rfl
    | cons a as ih =>
      intro log
      simp only [Transition.history]
      split
      · rename_i w' hs
        have hsame : noteStatus id true log w a w' = noteStatus id false log w a w' := by
          by_cases hst : w'.status id = w.status id
          · rw [noteStatus, noteStatus, if_pos (.inl hst), if_pos (.inl hst)]
          · have hown : w.isLate id a ≠ true := fun hlate => hst ((h.1 hlate).2 w' hs).2.1
            simp [noteStatus, hst, hown]
        rw [hsame]
        exact ih (h.2 w' hs) _
      · rfl
  exact hlog []

/-- In every run that keeps the runs of the task apart, whatever is left of an earlier run decides
nothing and changes neither the status nor the workers of the current one; the statuses the task
goes through are those without it. -/
theorem earlier_runs_are_isolated (permits : Nat) (as : List Act) (id : Nat)
    (hc : Transition.Meets World.step (KeepsRunsApart id) (World.new permits) as) :
    Transition.Meets World.step (Isolated id) (World.new permits) as ∧
      statusLog id true (World.new permits) as = statusLog id false (World.new permits) as := by
  have hinit : (World.new permits).RunsApart id :=
    ⟨by simp [World.new], by simp [World.new], fun t ht => absurd ht List.not_mem_nil⟩
  have hisolated := hinit.isolated hc
  exact ⟨hisolated, statusLog_late hisolated⟩

/-- A task with one worker is canceled and started again; the event of the canceled worker is handled
after that. -/
def restartedAfterCancel : List Act :=
  List.flatten [startedWithOne, proceed 1 3, [.call .cancelTask 0], proceed 2 10, [.deliver],
    proceed 3 5, [.call .startTask 0], proceed 4 9, [.step 4 (.ready false)], proceed 4 2,
    [.step 4 (.create 1)], proceed 4 2, [.step 4 (.create 1)], proceed 4 3, [.listen 0], proceed 6 4]

theorem late_cancel_is_ignored :
    ∃ w, Transition.run World.step (World.new 1) restartedAfterCancel = some w ∧
      w.status 0 = some .running ∧
      Transition.Meets World.step (Isolated 0) (World.new 1) restartedAfterCancel ∧
      statusLog 0 false (World.new 1) restartedAfterCancel = [some .pending, some .preparing,
        some .running, some .canceled, some .preparing, some .running] := by
  obtain ⟨w, hr, hst⟩ : ∃ w, Transition.run World.step (World.new 1) restartedAfterCancel = some w ∧
      w.status 0 = some .running := Transition.run_any (by decide)
  obtain ⟨hisolated, hlog⟩ := earlier_runs_are_isolated 1 restartedAfterCancel 0 (by decide +kernel)
  exact ⟨w, hr, hst, hisolated, hlog.symm.trans (by decide)⟩

/-- The worker of a task fails, the task is started again. -/
def restartedAfterFailure : List Act :=
  List.flatten [startedWithOne, proceed 1 3, [.step 1 .more], proceed 1 3,
    [.step 1 (.fail (.other "connection reset"))], proceed 1 3, [.listen 0], proceed 2 9, [.deliver],
    proceed 4 5, [.call .startTask 0], proceed 5 9, [.step 5 (.ready false)], proceed 5 2,
    [.step 5 (.create 1)], proceed 5 2, [.step 5 (.create 1)], proceed 5 3]

/-- The result of the first run is joined only then. -/
def joinedLate : List Act := List.flatten [[.join 0 0], proceed 7 8]

theorem late_join_fails_new_run :
    ∃ w, Transition.run World.step (World.new 1) restartedAfterFailure = some w ∧
      w.status 0 = some .running ∧
      Transition.Meets World.step (fun v a => v.isLate 0 a = true) w joinedLate ∧
      ¬ Transition.Meets World.step (Isolated 0) w joinedLate ∧
      ∃ w' ∈ Transition.run World.step w joinedLate,
        w'.status 0 = some (.failed (.other "connection reset")) :=
  Transition.run_any (by decide)

end Paradown
