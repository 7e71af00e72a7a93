import Mathlib.Data.List.Forall2
import Paradown.Prepare

namespace Paradown
set_option autoImplicit true

/-- The order of `ranked_transfer_sources`: fewer failures, more successes, the primary, the id. -/
def rankedLe (runtime : String → SourceRuntimeState) (primaryId : Option String)
    (left right : SourceDescriptor) : Bool :=
  let l := runtime left.id
  let r := runtime right.id
  if l.consecutiveFailures != r.consecutiveFailures then
    l.consecutiveFailures < r.consecutiveFailures
  else if l.successfulTransfers != r.successfulTransfers then
    r.successfulTransfers < l.successfulTransfers
  else
    let leftIsPrimary := primaryId == some left.id
    let rightIsPrimary := primaryId == some right.id
    if leftIsPrimary != rightIsPrimary then leftIsPrimary else left.id ≤ right.id

def Task.rankedTransferSources (t : Task) : List SourceDescriptor :=
  let primaryId := t.sources.primary.map (·.id)
  t.sources.activeTransferSources.insertionSort fun l r =>
    rankedLe t.sourceRuntime primaryId l r = true

def Task.preferredTransferSourceIds (t : Task) : List String :=
  t.rankedTransferSources.map (·.id)

def Task.planLanesOf (t : Task) (manifest : SessionManifest) :
    Option (List ExecutionLaneAssignment) :=
  let requestedWorkers := if t.rangeRequestsSupported then t.config.segmentsPerTask else 1
  planExecutionLanesWithSourceOrder manifest requestedWorkers t.rangeRequestsSupported
    t.preferredTransferSourceIds

/-- A panic of the planner ends the call, as an error does. -/
def Task.planExecutionLanes (t : Task) : Except Error (List ExecutionLaneAssignment) :=
  match t.manifest with
  | none => .error (.other s!"Task {t.id} manifest not initialized")
  | some manifest =>
    match t.planLanesOf manifest with
    | some lanes => .ok lanes
    | none => .error (.other "attempt to multiply with overflow")

def Task.planPanics (t : Task) : Bool :=
  t.manifest.any fun manifest => (t.planLanesOf manifest).isNone

/-- The loop of `seeded_downloaded_from_block_states` over the blocks inside the lane. -/
def seedLoop (states : List BlockState) : List PieceBlock → Nat → Nat
  | [], downloaded => downloaded
  | block :: rest, downloaded =>
    if blockCompleted states block then seedLoop states rest (satAdd downloaded block.length)
    else downloaded

def seededDownloadedFromBlockStates (manifest : SessionManifest) (states : List BlockState)
    (lane : ExecutionLaneAssignment) : Nat :=
  let inside := manifest.blocks.filter fun block =>
    decide (lane.start ≤ block.offset) && decide (block.blockEnd ≤ lane.endByte)
  min (seedLoop states inside 0) (satAdd (lane.endByte - lane.start) 1)

/-- Build the worker of one lane; a lane whose source is gone is an error. -/
def Task.createWorker (t : Task) (now : Nat) (manifest : SessionManifest)
    (lane : ExecutionLaneAssignment) : Except Error Worker :=
  match t.sources.get lane.sourceId with
  | none =>
    .error (.other
      s!"Task {t.id} source {lane.sourceId} not found while building execution lanes")
  | some source =>
    .ok (.new lane.laneId source lane
      (some (seededDownloadedFromBlockStates manifest t.blockStates lane)) (some .pending) (some now))

def Task.createWorkers (t : Task) (now : Nat) : Except Error (List Worker) :=
  match t.manifest with
  | none => .error (.other s!"Task {t.id} manifest not initialized")
  | some manifest =>
    match t.planExecutionLanes with
    | .error err => .error err
    | .ok lanes => lanes.mapM (t.createWorker now manifest)

def matchesAssignment (w : Worker) (lane : ExecutionLaneAssignment) : Bool :=
  w.id == lane.laneId && w.start == lane.start && w.endByte == lane.endByte &&
    w.source.id == lane.sourceId && decide (w.downloadedSize ≤ satAdd (lane.endByte - lane.start) 1)

def Task.canReuseExistingWorkers (t : Task) : Bool :=
  match t.planExecutionLanes with
  | .error _ => false
  | .ok lanes =>
    t.workers.length == lanes.length && (t.workers.zip lanes).all fun p => matchesAssignment p.1 p.2

/-- `ensure_workers`; existing workers are kept only when they match the planned lanes. -/
def Task.ensureWorkers (t : Task) (now : Nat) : Except Error (List Worker) × Task :=
  if !t.workers.isEmpty && t.canReuseExistingWorkers then (.ok t.workers, t)
  else
    let t := { t with workers := [] }
    match t.createWorkers now with
    | .error err => (.error err, t)
    | .ok created => (.ok created, { t with workers := created })

def resetTask (m : Machine) : Machine :=
  let t := { m.task with
    workers := [], downloadedSize := 0, totalSize := 0, totalSizeKnown := false
    rangeRequestsSupported := false, protocolProbeCompleted := false }
  let fs := match t.filePath with
    | some path => m.fs.removeFile path
    | none => m.fs
  ⟨t.clearManifestState, fs⟩

/-- `prepare_for_start`: the task that may go on, reset when it failed or was canceled. -/
def prepareForStart (m : Machine) : Except Error Unit × Machine :=
  match m.task.status with
  | .pending | .paused => (.ok (), m)
  | .preparing => (.error (.other "Task is Preparing, cannot start again"), m)
  | .running => (.error (.other "Task is Running, cannot start again"), m)
  | .completed => (.error (.other "Task already completed"), m)
  | .canceled | .failed _ => (.ok (), resetTask m)
  | .deleted => (.error (.other "Task deleted"), m)

/-- The part of `Task::start` that follows `prepare_download`. -/
def afterPreparation (env : Env) :
    Except Error PreparationOutcome × Machine → Except Error Unit × Machine
  | (.error err, m) => (.error err, m)
  | (.ok .finished, m) => (.ok (), m)
  | (.ok .startedByEngine, m) =>
    if m.task.status.isTerminal then (.ok (), m) else (.ok (), m.setStatus .running)
  | (.ok (.ready _), m) =>
    match (m.setStatus .running).task.ensureWorkers env.now with
    | (.error err, task) => (.error err, { m with task })
    | (.ok _, task) => (.ok (), { m with task })

/-- `Task::start` on its own: no other call on the task runs in between. -/
def start (env : Env) (probe : Except Error OriginMetadata) (m : Machine) :
    Except Error Unit × Machine :=
  match prepareForStart m with
  | (.error err, m) => (.error err, m)
  | (.ok (), m) => afterPreparation env (prepareDownload env probe (m.setStatus .preparing))

/-- The check at the head of `run_download_loop` that completes a lane without a request. -/
def Worker.finishesAtOnce (w : Worker) : Bool :=
  w.lengthKnown && decide (w.expectedLength ≤ w.downloadedSize)

/-- Whether `run_download_loop` may end in `finish_success` after receiving slices of the given
lengths, over all its attempts: at once, or when the counter passes `validate_downloaded_length`. -/
def Worker.mayFinishAfter (w : Worker) (slices : List Nat) : Bool :=
  (w.finishesAtOnce && slices.isEmpty) ||
    (!w.lengthKnown || w.downloadedSize + slices.sum == w.expectedLength)

theorem seedLoop_of_noBlockCompleted (h : NoBlockCompleted states) (blocks : List PieceBlock)
    (n : Nat) : seedLoop states blocks n = n := by
  cases blocks with
  | nil => rfl
  | cons b bs => simp [seedLoop, h.blockCompleted b]

theorem seeded_of_noBlockCompleted (h : NoBlockCompleted states) (manifest : SessionManifest)
    (lane : ExecutionLaneAssignment) :
    seededDownloadedFromBlockStates manifest states lane = 0 := by
  simp [seededDownloadedFromBlockStates, seedLoop_of_noBlockCompleted h]

theorem mapM_eq_ok {f : α → Except ε β} :
    xs.mapM f = .ok ys ↔ List.Forall₂ (fun x y => f x = .ok y) xs ys := by
  induction xs generalizing ys with
  | nil =>
    rw [List.mapM_nil, List.forall₂_nil_left_iff]
    exact ⟨fun h => (Except.ok.inj h).symm, fun h => h ▸ rfl⟩
  | cons x xs ih =>
    rw [List.mapM_cons, List.forall₂_cons_left_iff]
    simp only [← ih]
    cases hx : f x with
    | error err => exact ⟨nofun, fun ⟨_, _, hy, _⟩ => nomatch hy⟩
    | ok y =>
      cases hxs : xs.mapM f with
      | error err => exact ⟨nofun, fun ⟨_, _, _, hrest, _⟩ => nomatch hrest⟩
      | ok rest =>
        constructor
        · rintro ⟨⟩
          exact ⟨y, rest, rfl, rfl, rfl⟩
        · rintro ⟨_, _, ⟨⟩, ⟨⟩, rfl⟩
          rfl

theorem exists_of_forall₂ (h : List.Forall₂ R xs ys) (hy : y ∈ ys) : ∃ x ∈ xs, R x y := by
  induction h with
  | nil => cases hy
  | cons hxy _ ih =>
    rcases List.mem_cons.1 hy with rfl | hy
    · exact ⟨_, List.mem_cons_self, hxy⟩
    · obtain ⟨x, hx, hr⟩ := ih hy
      exact ⟨x, List.mem_cons_of_mem _ hx, hr⟩

/-- Where workers are created, there is a plan, with a worker for each of its lanes. -/
theorem Task.createWorkers_ok {t : Task} {m : SessionManifest} (hm : t.manifest = some m)
    (h : t.createWorkers now = .ok ws) :
    ∃ lanes, t.planLanesOf m = some lanes ∧
      List.Forall₂ (fun lane w => t.createWorker now m lane = .ok w) lanes ws := by
  simp only [Task.createWorkers, Task.planExecutionLanes, hm] at h
  cases hplan : t.planLanesOf m with
  | none =>
    rw [hplan] at h
    cases h
  | some lanes =>
    rw [hplan] at h
    exact ⟨lanes, rfl, mapM_eq_ok.1 h⟩

theorem Task.createWorker_eq_ok {t : Task} {m : SessionManifest}
    (h : t.createWorker now m lane = .ok w) :
    ∃ source, w = .new lane.laneId source lane
      (some (seededDownloadedFromBlockStates m t.blockStates lane)) (some .pending)
      (some now) := by
  unfold Task.createWorker at h
  split at h
  · cases h
  · exact ⟨_, (Except.ok.inj h).symm⟩

theorem Task.createWorkers_seed {t : Task} (h : t.createWorkers now = .ok ws) (hw : w ∈ ws) :
    ∃ manifest lane, t.manifest = some manifest ∧
      w.downloadedSize = seededDownloadedFromBlockStates manifest t.blockStates lane := by
  cases hm : t.manifest with
  | none =>
    rw [Task.createWorkers, hm] at h
    cases h
  | some manifest =>
    obtain ⟨lanes, _, hall⟩ := Task.createWorkers_ok hm h
    obtain ⟨lane, _, hlane⟩ := exists_of_forall₂ hall hw
    obtain ⟨source, rfl⟩ := Task.createWorker_eq_ok hlane
    exact ⟨manifest, lane, rfl, rfl⟩

end Paradown
