import Paradown.Recovery
import Paradown.Workers

namespace Paradown
set_option autoImplicit true

def notBlank (text : String) : Bool := trim text != ""

/-- `add_task_with_workers` up to `Task::new`; `id` is what `next_task_id` answers. -/
def Task.new (config : Config) (now id : Nat) (r : TaskRequest) : Task :=
  let httpRequest := config.httpRequest.merged (r.httpRequest.getD {})
  { id
    spec := r.spec
    config
    status := r.status.getD .pending
    fileName := r.fileName.filter notBlank
    filePath := r.filePath.filter notBlank
    identity := r.resourceIdentity.getD {}
    httpRequest
    sources := r.sources.getD (.forSpec r.spec (some httpRequest))
    sourceRuntime := fun _ => {}
    checksums := r.checksums.getD []
    manifest := none
    pieceStates := r.pieceStates.getD []
    blockStates := r.blockStates.getD []
    payloadStore := none
    torrentResume := r.torrentResume
    workers := []
    totalSize := r.totalSize.getD 0
    totalSizeKnown := r.totalSize.isSome
    downloadedSize := r.downloadedSize.getD 0
    rangeRequestsSupported := false
    protocolProbeCompleted := false
    createdAt := some (r.createdAt.getD now)
    updatedAt := some (r.updatedAt.getD now) }

/-- One worker of `build_restored_workers`; an unknown source falls back to the primary one. -/
def restoredWorker (t : Task) (now : Nat) (w : SegmentRequest) : Worker :=
  let fallback := t.sources.primary.getD (.fromSpec t.spec none)
  let source := (w.sourceId.bind t.sources.get).getD fallback
  .new w.index source
    { laneId := w.index, sourceId := source.id, lengthKnown := true
      pieceStart := w.pieceStart.getD 0, pieceEnd := w.pieceEnd.getD 0
      blockStart := w.blockStart.getD 0, blockEnd := w.blockEnd.getD 0
      start := w.start, endByte := w.endByte }
    w.downloaded (w.status.bind Status.fromText) (some (w.updatedAt.getD now))

def addTaskWithWorkers (config : Config) (now id : Nat) (r : TaskRequest)
    (workers : Option (List SegmentRequest)) : Task :=
  let t := Task.new config now id r
  match workers with
  | none => t
  | some requests => { t with workers := requests.map (restoredWorker t now) }

/-- The task of the next process: saved, read back and registered again. -/
def restoreTask (codec : Codec) (now : Nat) (m : Machine) : Task :=
  let plan := buildRestorePlan codec m.fs.view (saveTask codec m.task)
  addTaskWithWorkers m.task.config now (plan.taskRequest.id.getD 1) plan.taskRequest plan.workers

/-- The fields of a restore request that the plan takes over from the row. -/
theorem buildRestorePlan_request (codec : Codec) (view : FileView) (b : StoredBundle) :
    let r := dbTaskToRequest codec b.task b.pieces b.blocks b.checksums
    (buildRestorePlan codec view b).taskRequest.spec = r.spec ∧
      (buildRestorePlan codec view b).taskRequest.filePath = r.filePath ∧
      (buildRestorePlan codec view b).taskRequest.blockStates = r.blockStates := by
  simp only [buildRestorePlan, apply_ite TaskRequest.spec, apply_ite TaskRequest.filePath,
    apply_ite TaskRequest.blockStates, ite_self, and_self]

theorem buildRestorePlan_status (codec : Codec) (view : FileView) {b : StoredBundle}
    (h : b.task.status = Status.paused.toText ∨ b.task.status = Status.pending.toText) :
    (buildRestorePlan codec view b).taskRequest.status = some .paused ∨
      (buildRestorePlan codec view b).taskRequest.status = some .pending := by
  rcases h with h | h
  · have hn : normalizeRestoredStatus ((dbTaskToRequest codec b.task b.pieces b.blocks
        b.checksums).status.getD .pending) = .paused := by
      simp only [dbTaskToRequest, h, Status.fromText_toText, Status.forgetError, Option.getD_some,
        normalizeRestoredStatus]
    simp only [buildRestorePlan, apply_ite TaskRequest.status, ite_self, hn, reduceCtorEq,
      decide_false, Bool.false_and, Bool.false_eq_true, ↓reduceIte, true_and, Option.some.injEq]
    exact (ite_eq_or_eq _ _ _).symm
  · have hn : normalizeRestoredStatus ((dbTaskToRequest codec b.task b.pieces b.blocks
        b.checksums).status.getD .pending) = .pending := by
      simp only [dbTaskToRequest, h, Status.fromText_toText, Status.forgetError, Option.getD_some,
        normalizeRestoredStatus]
    simp only [buildRestorePlan, apply_ite TaskRequest.status, ite_self, hn, reduceCtorEq,
      false_and, ↓reduceIte, or_true]

theorem addTaskWithWorkers_spec (config : Config) (now id : Nat) (r : TaskRequest)
    (workers : Option (List SegmentRequest)) :
    (addTaskWithWorkers config now id r workers).spec = r.spec ∧
      (addTaskWithWorkers config now id r workers).config = config ∧
      (addTaskWithWorkers config now id r workers).filePath = r.filePath.filter notBlank ∧
      (addTaskWithWorkers config now id r workers).status = r.status.getD .pending := by
  cases workers with
  | none => exact ⟨rfl, rfl, rfl, rfl⟩
  | some ws => exact ⟨rfl, rfl, rfl, rfl⟩

theorem notBlank_of_normalized (h : normalizedTextField path = some path) :
    notBlank path = true := by
  unfold normalizedTextField at h
  split at h
  · cases h
  · simpa [notBlank] using ‹_›

theorem restoreTask_target (codec : Codec) (now : Nat) {m : Machine}
    (hj : codec.specFromJson (codec.specToJson m.task.spec) = some m.task.spec) :
    (restoreTask codec now m).spec = m.task.spec ∧
      ∀ path, m.task.filePath = some path → normalizedTextField path = some path →
        (restoreTask codec now m).filePath = some path := by
  obtain ⟨hspec, hpath, _⟩ := buildRestorePlan_request codec m.fs.view (saveTask codec m.task)
  have hrow : (saveTask codec m.task).task.specJson = codec.specToJson m.task.spec := rfl
  simp only [dbTaskToRequest, hrow, hj] at hspec hpath
  obtain ⟨h1, _, h3, _⟩ := addTaskWithWorkers_spec m.task.config now
    ((buildRestorePlan codec m.fs.view (saveTask codec m.task)).taskRequest.id.getD 1)
    (buildRestorePlan codec m.fs.view (saveTask codec m.task)).taskRequest
    (buildRestorePlan codec m.fs.view (saveTask codec m.task)).workers
  refine ⟨h1.trans hspec, fun path hp hn => ?_⟩
  have hrowPath : (saveTask codec m.task).task.filePath = path := by
    simp [saveTask, taskToDb, hp]
  rw [hrowPath, hn] at hpath
  unfold restoreTask
  rw [h3, hpath]
  simp [notBlank_of_normalized hn]

theorem restoreTask_spec (codec : Codec) (now : Nat) {m : Machine}
    (hj : codec.specFromJson (codec.specToJson m.task.spec) = some m.task.spec)
    (hp : m.task.filePath = some path) (hn : normalizedTextField path = some path)
    (hs : m.task.status = .paused ∨ m.task.status = .pending) :
    (restoreTask codec now m).spec = m.task.spec ∧
      (restoreTask codec now m).config = m.task.config ∧
      (restoreTask codec now m).filePath = some path ∧
      ((restoreTask codec now m).status = .paused ∨
        (restoreTask codec now m).status = .pending) := by
  obtain ⟨hspec, hpath⟩ := restoreTask_target codec now hj
  have hstatus := buildRestorePlan_status codec m.fs.view (b := saveTask codec m.task)
    (by rcases hs with hs | hs <;> simp [saveTask, taskToDb, hs])
  obtain ⟨_, h2, _, h4⟩ := addTaskWithWorkers_spec m.task.config now
    ((buildRestorePlan codec m.fs.view (saveTask codec m.task)).taskRequest.id.getD 1)
    (buildRestorePlan codec m.fs.view (saveTask codec m.task)).taskRequest
    (buildRestorePlan codec m.fs.view (saveTask codec m.task)).workers
  refine ⟨hspec, h2, hpath path hp hn, ?_⟩
  unfold restoreTask
  rw [h4]
  rcases hstatus with hs | hs <;> simp [hs]

end Paradown
