import Paradown.System
import Paradown.Tally

namespace Paradown
set_option autoImplicit true

/-- The task sections that can return an error. -/
def TaskSection.mayFail : TaskSection → Bool
  | .prepareForStart | .io | .sessionIo | .prepareDownload | .resumeGate | .pauseGate | .cancelGate
  | .createWorkers => true
  | _ => false

/-- The sections that stop the workers of a task one after the other. -/
def TaskSection.isStop : TaskSection → Bool
  | .stopEach _ | .stopWorker _ _ | .emitStop _ _ => true
  | _ => false

/-- What a task section does to the status of its task, the rest of its code and its frame. -/
inductive TaskEffect (t : TaskState) (rest : Code) (frame : Frame) :
    TaskSection → Status → Code → Frame → Prop where
  | next : TaskEffect t rest frame s t.status rest frame
  | set : TaskEffect t rest frame (.setStatus new) new rest frame
  | reset : TaskEffect t rest frame .prepareForStart t.status (resetTaskCode ++ rest) frame
  | fail (h : s.mayFail = true) : TaskEffect t rest frame s t.status frame.onErr .plain
  | halt (h : s = .unlessFailed ∨ s = .checkEach check) :
    TaskEffect t rest frame s t.status [] .plain
  | stop (h : s.isStop = true) (hp : pre.all TaskSection.isStop = true) :
    TaskEffect t rest frame s t.status (inTask pre ++ rest) frame
  | check :
    TaskEffect t rest frame (.checkEach kind) t.status (inTask [.checkEach kind] ++ rest) frame
  | deleteFailed : TaskEffect t rest frame .ioOrFail t.status (deleteFailedCode err) .plain
  | prepared (h : preparedCode c = some code) :
    TaskEffect t rest frame .prepareDownload t.status code frame
  | engineOver :
    TaskEffect t rest frame .markEngineRunning t.status (inTask [.listenToEngine]) frame
  | engineRunning (h : t.status.isTerminal = false) :
    TaskEffect t rest frame .markEngineRunning .running (inTask [.io, .listenToEngine]) frame
  | resumeStart : TaskEffect t rest frame .resumeGate t.status startCode frame
  | resumeSession (h : t.status = .paused) (hs : t.torrentSession = true) :
    TaskEffect t rest frame .resumeGate .running (inTask [.io, .io]) frame
  | resumeAgain (h : t.status = .paused) :
    TaskEffect t rest frame .resumeGate .pending (inTask [.io] ++ startCode) frame
  | pause (h : t.status.isActive = true) :
    TaskEffect t rest frame .pauseGate .paused (stopCode .pause .pause) frame
  | cancel : TaskEffect t rest frame .cancelGate .canceled (stopCode .cancel .cancel) frame
  | recreate : TaskEffect t rest frame .ensureWorkers t.status
      (inTask [.clearTaskWorkers, .io, .createWorkers, .installWorkers, .spawnWorkers]) frame
  | reuse : TaskEffect t rest frame .ensureWorkers t.status (inTask [.spawnWorkers]) frame
  | persistFailed :
    TaskEffect t rest frame .persistWorker t.status (stopWorkersAndFailCode err) frame
  | checked : TaskEffect t rest frame (.checkEach check) t.status (checkedCode check) frame
  | finalize :
    TaskEffect t rest frame .finalizeDownload t.status (finishJobCode outcome) .finalize

/-- The threads that a section can start: a worker run, or the writing of a worker row. -/
def Thread.Spawned (id : Nat) (t : Thread) : Prop :=
  t.task = id ∧ t.permit = false ∧ t.frame = .plain ∧
    (t.owner = .worker ∧ t.code = workerCode ∨ t.owner = .detached ∧ t.code = inTask [.persistWorker])

/-- A section that leaves the manager alone and keeps the permits where they are. -/
structure Quiet (x y : Context) (t t' : TaskState) : Prop where
  available : y.available = x.available
  queue : y.queue = x.queue
  events : y.events = x.events
  task : y.task = some t'
  permit : t'.permit = t.permit
  registered : t'.registered = t.registered
  owner : y.thread.owner = x.thread.owner
  id : y.thread.task = x.thread.task
  held : y.thread.permit = x.thread.permit
  worker : y.thread.worker = x.thread.worker
  sources : y.thread.sources = x.thread.sources
  spawned : ∀ r ∈ y.spawned, r.Spawned x.thread.task

theorem noneSpawned (id : Nat) : ∀ r ∈ ([] : List Thread), r.Spawned id :=
  fun _ h => absurd h List.not_mem_nil

/-- The section does to its task and to the rest of its call what is said of it. -/
def TaskSection.Does (s : TaskSection) (x : Context) (t : TaskState) (y : Context) : Prop :=
  ∃ t', Quiet x y t t' ∧ TaskEffect t x.thread.code x.thread.frame s t'.status y.thread.code
    y.thread.frame

section
variable {x y : Context} {t t' : TaskState} {c : Choice}

/-- A section that touches nothing but its task and the rest of its call. -/
theorem Quiet.own {permits : Nat} {pending : List (Nat × PendingAction)}
    {sent : List (TaskEvent × Nat)} {thread : Thread} (hp : t'.permit = t.permit)
    (hr : t'.registered = t.registered) :
    Quiet ⟨permits, pending, sent, some t, thread, []⟩
      ⟨permits, pending, sent, some t',
        { thread with code, frame, snapshot, batch, result }, []⟩ t t' :=
  ⟨rfl, rfl, rfl, rfl, hp, hr, rfl, rfl, rfl, rfl, rfl, noneSpawned _⟩

theorem prepareForStart_effect (hx : x.task = some t) (hs : x.spawned = [])
    (h : execTask c x t .prepareForStart = some y) : TaskSection.Does .prepareForStart x t y := by
  obtain ⟨available, queue, events, _, thread, _⟩ := x
  cases hx
  cases hs
  simp only [execTask] at h
  split at h <;> cases h
  · exact ⟨t, .own rfl rfl, .next⟩
  · exact ⟨t, .own rfl rfl, .next⟩
  · exact ⟨t, .own rfl rfl, .reset⟩
  · exact ⟨t, .own rfl rfl, .reset⟩
  · exact ⟨t, .own rfl rfl, .fail rfl⟩

theorem markEngineRunning_effect (hx : x.task = some t) (hs : x.spawned = [])
    (h : execTask c x t .markEngineRunning = some y) : TaskSection.Does .markEngineRunning x t y := by
  obtain ⟨available, queue, events, _, thread, _⟩ := x
  cases hx
  cases hs
  simp only [execTask] at h
  split at h <;> cases h
  · exact ⟨t, .own rfl rfl, .engineOver⟩
  · rename_i ht
    exact ⟨_, .own rfl rfl,
      .engineRunning (Bool.eq_false_iff.2 ht)⟩

theorem resumeGate_effect (hx : x.task = some t) (hs : x.spawned = [])
    (h : execTask c x t .resumeGate = some y) : TaskSection.Does .resumeGate x t y := by
  obtain ⟨available, queue, events, _, thread, _⟩ := x
  cases hx
  cases hs
  simp only [execTask] at h
  split at h
  · cases h
    exact ⟨t, .own rfl rfl, .resumeStart⟩
  · cases h
    exact ⟨t, .own rfl rfl, .resumeStart⟩
  · rename_i hp
    unfold resumePaused at h
    split at h <;> cases h
    · rename_i hs
      exact ⟨_, .own rfl rfl, .resumeSession hp hs⟩
    · exact ⟨_, .own rfl rfl, .resumeAgain hp⟩
  · cases h
    exact ⟨t, .own rfl rfl, .fail rfl⟩

theorem pauseGate_effect (hx : x.task = some t) (hs : x.spawned = [])
    (h : execTask c x t .pauseGate = some y) : TaskSection.Does .pauseGate x t y := by
  obtain ⟨available, queue, events, _, thread, _⟩ := x
  cases hx
  cases hs
  simp only [execTask] at h
  split at h <;> cases h
  · rename_i hp
    exact ⟨_, .own rfl rfl, .pause (by simp [hp, Status.isActive])⟩
  · rename_i hp
    exact ⟨_, .own rfl rfl, .pause (by simp [hp, Status.isActive])⟩
  · exact ⟨t, .own rfl rfl, .next⟩
  · exact ⟨t, .own rfl rfl, .fail rfl⟩

theorem cancelGate_effect (hx : x.task = some t) (hs : x.spawned = [])
    (h : execTask c x t .cancelGate = some y) : TaskSection.Does .cancelGate x t y := by
  obtain ⟨available, queue, events, _, thread, _⟩ := x
  cases hx
  cases hs
  simp only [execTask] at h
  split at h <;> cases h
  · exact ⟨_, .own rfl rfl, .cancel⟩
  · exact ⟨_, .own rfl rfl, .cancel⟩
  · exact ⟨_, .own rfl rfl, .cancel⟩
  · exact ⟨_, .own rfl rfl, .cancel⟩
  · exact ⟨t, .own rfl rfl, .fail rfl⟩

theorem stopWorker_effect (hx : x.task = some t) (hs : x.spawned = [])
    (h : execTask c x t (.stopWorker kind w) = some y) : TaskSection.Does (.stopWorker kind w) x t y := by
  obtain ⟨available, queue, events, _, thread, _⟩ := x
  cases hx
  cases hs
  simp only [execTask] at h
  split at h <;> cases h
  · exact ⟨t, .own rfl rfl, .next⟩
  · rename_i state _
    refine ⟨_, .own rfl rfl, ?_⟩
    cases (state.stop kind).2 with
    | true => exact @TaskEffect.stop _ _ _ _ [.emitStop kind w] rfl rfl
    | false => exact .next

theorem ensureWorkers_effect (hx : x.task = some t) (hs : x.spawned = [])
    (h : execTask c x t .ensureWorkers = some y) : TaskSection.Does .ensureWorkers x t y := by
  obtain ⟨available, queue, events, _, thread, _⟩ := x
  cases hx
  cases hs
  simp only [execTask] at h
  split at h
  · cases h
    exact ⟨t, .own rfl rfl, .recreate⟩
  · split at h <;> cases h
    exact ⟨t, .own rfl rfl, .reuse⟩

theorem spawnWorkers_effect (hx : x.task = some t) (hs : x.spawned = [])
    (h : execTask c x t .spawnWorkers = some y) : TaskSection.Does .spawnWorkers x t y := by
  obtain ⟨available, queue, events, _, thread, _⟩ := x
  cases hx
  cases hs
  cases h
  refine ⟨_, ⟨rfl, rfl, rfl, rfl, rfl, rfl, rfl, rfl, rfl, rfl, rfl, fun r hr => ?_⟩, .next⟩
  obtain ⟨w, _, rfl⟩ := List.mem_map.1 hr
  exact ⟨rfl, rfl, rfl, .inl ⟨rfl, rfl⟩⟩

theorem persistWorkerLater_effect (hx : x.task = some t) (hs : x.spawned = [])
    (h : execTask c x t .persistWorkerLater = some y) : TaskSection.Does .persistWorkerLater x t y := by
  obtain ⟨available, queue, events, _, thread, _⟩ := x
  cases hx
  cases hs
  cases h
  refine ⟨_, ⟨rfl, rfl, rfl, rfl, rfl, rfl, rfl, rfl, rfl, rfl, rfl, fun r hr => ?_⟩, .next⟩
  cases List.mem_singleton.1 hr
  exact ⟨rfl, rfl, rfl, .inr ⟨rfl, rfl⟩⟩

theorem persistWorker_effect (hx : x.task = some t) (hs : x.spawned = [])
    (h : execTask c x t .persistWorker = some y) : TaskSection.Does .persistWorker x t y := by
  obtain ⟨available, queue, events, _, thread, _⟩ := x
  cases hx
  cases hs
  simp only [execTask] at h
  split at h
  · split at h <;> cases h
    · exact ⟨t, .own rfl rfl, .persistFailed⟩
    · exact ⟨t, .own rfl rfl, .next⟩
  · cases h
    exact ⟨t, .own rfl rfl, .next⟩

theorem checkEach_effect (hx : x.task = some t) (hs : x.spawned = [])
    (h : execTask c x t (.checkEach check) = some y) : TaskSection.Does (.checkEach check) x t y := by
  obtain ⟨available, queue, events, _, thread, _⟩ := x
  cases hx
  cases hs
  simp only [execTask] at h
  split at h
  · cases h
    exact ⟨t, .own rfl rfl, .checked⟩
  · split at h <;> cases h
    · exact ⟨t, .own rfl rfl, .check⟩
    · exact ⟨t, .own rfl rfl, .halt (.inr rfl)⟩

end

/-- What each section of a task does. -/
theorem execTask_effect (hx : x.task = some t) (hs : x.spawned = [])
    (h : execTask c x t s = some y) : s.Does x t y := by
  have hown := hx
  have hnone := hs
  obtain ⟨available, queue, events, _, thread, _⟩ := x
  cases hx
  cases hs
  cases s with
  | prepareForStart => exact prepareForStart_effect hown hnone h
  | setStatus status =>
    cases h
    exact ⟨_, .own rfl rfl, .set⟩
  | io =>
    simp only [execTask] at h
    split at h <;> cases h
    · exact ⟨t, .own rfl rfl, .next⟩
    · exact ⟨t, .own rfl rfl, .fail rfl⟩
  | ioOrFail =>
    simp only [execTask] at h
    split at h <;> cases h
    · exact ⟨t, .own rfl rfl, .deleteFailed⟩
    · exact ⟨t, .own rfl rfl, .next⟩
  | sessionIo =>
    simp only [execTask] at h
    split at h <;> cases h
    · exact ⟨t, .own rfl rfl, .fail rfl⟩
    · exact ⟨t, .own rfl rfl, .next⟩
  | prepareDownload =>
    simp only [execTask] at h
    split at h <;> cases h
    · rename_i hp
      exact ⟨t, .own rfl rfl, .prepared hp⟩
    · exact ⟨t, .own rfl rfl, .fail rfl⟩
  | setTorrentSession | clearManifestState | listenToEngine | clearTaskWorkers =>
    cases h
    exact ⟨_, .own rfl rfl, .next⟩
  | markEngineRunning => exact markEngineRunning_effect hown hnone h
  | resumeGate => exact resumeGate_effect hown hnone h
  | pauseGate => exact pauseGate_effect hown hnone h
  | cancelGate => exact cancelGate_effect hown hnone h
  | snapshotWorkers =>
    cases h
    exact ⟨t, .own rfl rfl, .next⟩
  | stopEach kind =>
    simp only [execTask] at h
    split at h <;> cases h
    · exact ⟨t, .own rfl rfl, .next⟩
    · exact ⟨_, .own rfl rfl, .stop rfl rfl⟩
  | stopWorker kind w => exact stopWorker_effect hown hnone h
  | emitStop kind w =>
    cases h
    exact ⟨_, .own rfl rfl, .next⟩
  | ensureWorkers => exact ensureWorkers_effect hown hnone h
  | createWorkers =>
    simp only [execTask] at h
    split at h <;> cases h
    · exact ⟨_, .own rfl rfl, .next⟩
    · exact ⟨t, .own rfl rfl, .fail rfl⟩
  | installWorkers =>
    simp only [execTask] at h
    split at h <;> cases h
    · exact ⟨_, .own rfl rfl, .next⟩
    · exact ⟨t, .own rfl rfl, .next⟩
  | spawnWorkers => exact spawnWorkers_effect hown hnone h
  | persistWorkerLater => exact persistWorkerLater_effect hown hnone h
  | persistWorker => exact persistWorker_effect hown hnone h
  | unlessFailed =>
    simp only [execTask] at h
    split at h <;> cases h
    · exact ⟨t, .own rfl rfl, @TaskEffect.halt _ _ _ _ .completed (.inl rfl)⟩
    · exact ⟨t, .own rfl rfl, .next⟩
  | checkEach check => exact checkEach_effect hown hnone h
  | finalizeDownload =>
    cases h
    exact ⟨t, .own rfl rfl, .finalize⟩

theorem retryOrFail_code (x : Context) (c : Choice) :
    ∃ run result, x.retryOrFail c =
      { x with thread := { x.thread with code := inWorker run, result } } := by
  unfold Context.retryOrFail
  split
  · exact ⟨_, _, rfl⟩
  · exact ⟨_, x.thread.result, rfl⟩

/-- A worker section stays inside the run of its worker. -/
theorem execWorker_effect (hx : x.task = some t) (hs : x.spawned = [])
    (h : execWorker c x t w s = some y) :
    ∃ t', Quiet x y t t' ∧ t'.status = t.status ∧
      (y.thread.code = x.thread.code ∨ ∃ run, y.thread.code = inWorker run) ∧
      (y.thread.frame = x.thread.frame ∨ y.thread.frame = .plain) := by
  obtain ⟨available, queue, events, _, thread, _⟩ := x
  cases hx
  cases hs
  have hn := noneSpawned thread.task
  obtain ⟨run, result, hretry⟩ := retryOrFail_code ⟨available, queue, events, some t, thread, []⟩ c
  cases s with
  | claimRun =>
    simp only [execWorker] at h
    split at h <;> cases h
    · exact ⟨t, .own rfl rfl, rfl, .inr ⟨[], rfl⟩, .inr rfl⟩
    · exact ⟨_, .own rfl rfl, rfl, .inl rfl, .inl rfl⟩
  | readStatus =>
    simp only [execWorker] at h
    split at h <;> cases h <;>
      exact ⟨t, .own rfl rfl, rfl, .inr ⟨_, rfl⟩, .inl rfl⟩
  | unpause | setStatus _ | emit _ | endRun =>
    cases h
    exact ⟨_, .own rfl rfl, rfl, .inl rfl, .inl rfl⟩
  | checkLength =>
    simp only [execWorker] at h
    split at h <;> cases h <;>
      exact ⟨t, .own rfl rfl, rfl, .inr ⟨_, rfl⟩, .inl rfl⟩
  | stopGate =>
    simp only [execWorker] at h
    split at h <;> cases h
    · exact ⟨t, .own rfl rfl, rfl, .inr ⟨_, rfl⟩, .inl rfl⟩
    · exact ⟨t, .own rfl rfl, rfl, .inl rfl, .inl rfl⟩
  | waitGate =>
    simp only [execWorker] at h
    split at h
    · cases h
      exact ⟨t, .own rfl rfl, rfl, .inl rfl, .inl rfl⟩
    · split at h <;> cases h
      exact ⟨t, .own rfl rfl, rfl, .inr ⟨_, rfl⟩, .inl rfl⟩
  | buildRequest | write =>
    simp only [execWorker, hretry] at h
    split at h <;> cases h
    · exact ⟨t, .own rfl rfl, rfl, .inl rfl, .inl rfl⟩
    · exact ⟨t, .own rfl rfl, rfl, .inr ⟨_, rfl⟩, .inl rfl⟩
  | send | nextChunk | nextSlice | validateLength =>
    simp only [execWorker, hretry] at h
    split at h <;> cases h <;>
      exact ⟨t, .own rfl rfl, rfl, .inr ⟨_, rfl⟩, .inl rfl⟩
  | report =>
    simp only [execWorker] at h
    split at h <;> cases h <;>
      exact ⟨_, .own rfl rfl, rfl, .inl rfl, .inl rfl⟩

end Paradown
