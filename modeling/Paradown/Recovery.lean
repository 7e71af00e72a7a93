import Paradown.Storage

namespace Paradown
set_option autoImplicit true

/-- What the file system answers for a path: nothing there, or its length when it can be read. -/
abbrev FileView := String → Option (Option Nat)

def FileSystem.view (fs : FileSystem) : FileView := fun path =>
  (fs.file path).map fun f => some f.len

structure RestoreFileState where
  present : Bool
  size : Option Nat
  deriving DecidableEq, Repr

def RestoreFileState.isUsableForCompleted (s : RestoreFileState) (totalSize : Option Nat) : Bool :=
  if !s.present then false
  else
    match s.size, totalSize with
    | some size, some total => decide (0 < total) && size == total
    | _, _ => false

def inspectRestoreFileState (view : FileView) (filePath : Option String) : RestoreFileState :=
  match filePath.filter fun path => trim path != "" with
  | none => ⟨false, none⟩
  | some path =>
    match view path with
    | none => ⟨false, none⟩
    | some size => ⟨true, size⟩

structure RestorePlan where
  taskRequest : TaskRequest
  workers : Option (List SegmentRequest)
  deriving DecidableEq, Repr

def hasRestorablePieceState (r : TaskRequest) : Bool :=
  (r.pieceStates.getD []).any (·.completed) || (r.blockStates.getD []).any (·.completed)

def normalizeRestoredStatus : Status → Status
  | .running | .preparing => .paused
  | other => other

def normalizeWorkerStatus : Option String → Option String
  | none => some "Pending"
  | some s =>
    if s = "Running" ∨ s = "Preparing" then some "Paused"
    else if s = "Deleted" then some "Pending"
    else some s

/-- The lane metadata of a row is absent, or complete and ordered. -/
def laneMetadataOk (w : SegmentRequest) : Bool :=
  match w.pieceStart, w.pieceEnd, w.blockStart, w.blockEnd with
  | none, none, none, none => true
  | some pieceStart, some pieceEnd, some blockStart, some blockEnd =>
    decide (pieceStart ≤ pieceEnd) && decide (blockStart ≤ blockEnd)
  | _, _, _, _ => false

/-- One turn of the loop of `sanitize_worker_requests`: `none` rejects the whole layout. -/
def sanitizeWorker (taskId : Nat) (totalSize : Option Nat) (knownSources : List String)
    (singleSource : Option String) (seen : List Nat) (expectedStart : Nat) (w : SegmentRequest) :
    Option SegmentRequest :=
  let expectedLength := satAdd (w.endByte - w.start) 1
  if w.taskId ≠ taskId ∨ w.index ∈ seen ∨ w.endByte < w.start ∨ expectedLength < w.downloaded.getD 0 ∨
      (∃ total ∈ totalSize, 0 < total ∧ total ≤ w.endByte) ∨ w.start ≠ expectedStart then none
  else
    match w.sourceId <|> singleSource with
    | none => none
    | some sourceId =>
      if knownSources ≠ [] ∧ sourceId ∉ knownSources then none
      else if laneMetadataOk w then
        some { w with sourceId := some sourceId, status := normalizeWorkerStatus w.status }
      else none

def sanitizeLoop (taskId : Nat) (totalSize : Option Nat) (knownSources : List String)
    (singleSource : Option String) :
    List Nat → Nat → List SegmentRequest → Option (List SegmentRequest × Nat)
  | _, expectedStart, [] => some ([], expectedStart)
  | seen, expectedStart, w :: ws =>
    match sanitizeWorker taskId totalSize knownSources singleSource seen expectedStart w with
    | none => none
    | some w' =>
      match sanitizeLoop taskId totalSize knownSources singleSource (w.index :: seen)
          (satAdd w.endByte 1) ws with
      | none => none
      | some (ws', last) => some (w' :: ws', last)

def sanitizeWorkerRequests (taskId : Nat) (totalSize : Option Nat) (sources : Option SourceSet)
    (workers : List SegmentRequest) : List SegmentRequest :=
  let sorted := workers.insertionSort fun a b => a.index ≤ b.index
  let knownSources := ((sources.map (·.sources)).getD []).map (·.id)
  let singleSource := match knownSources.dedup with
    | [source] => some source
    | _ => none
  match sanitizeLoop taskId totalSize knownSources singleSource [] 0 sorted with
  | none => []
  | some (sanitized, last) =>
    if ∃ total ∈ totalSize, 0 < total ∧ last ≠ total then [] else sanitized

def buildRestorePlan (codec : Codec) (view : FileView) (bundle : StoredBundle) : RestorePlan :=
  let request := dbTaskToRequest codec bundle.task bundle.pieces bundle.blocks bundle.checksums
  let workerRequests := dbWorkersToRequests bundle.workers
  let status := normalizeRestoredStatus (request.status.getD .pending)
  let fileState := inspectRestoreFileState view request.filePath
  let unusable := decide (status = .completed) && !fileState.isUsableForCompleted request.totalSize
  let status := if unusable then .pending else status
  let request := if unusable then { request with pieceStates := some [] } else request
  let sanitized :=
    if status = .paused ∧ fileState.present then
      sanitizeWorkerRequests bundle.task.id request.totalSize request.sources workerRequests
    else []
  let status :=
    if status = .paused ∧ sanitized = [] ∧ hasRestorablePieceState request = false then .pending
    else status
  let request := { request with status := some status }
  let request :=
    if sanitized ≠ [] then
      { request with
        downloadedSize := some ((sanitized.map fun w => w.downloaded.getD 0).sum % 2 ^ 64)
        totalSize :=
          if request.totalSize = none ∨ request.totalSize = some 0 then
            (sanitized.map fun w => satAdd w.endByte 1).max?
          else request.totalSize }
    else if !fileState.present ||
        (decide (status ≠ .completed) && !hasRestorablePieceState request) then
      { request with downloadedSize := some 0 }
    else request
  let request := if !fileState.present then { request with pieceStates := some [] } else request
  ⟨request, if sanitized = [] then none else some sanitized⟩

/-- The path column of the row is blank or names no existing file. The column is read with the
white space around it removed. -/
def NoLocalFile (view : FileView) (row : DBDownloadTask) : Prop :=
  trim row.filePath = "" ∨ view (trim row.filePath) = none

/-- A restored task that claims nothing about bytes on disk. -/
structure PlanTrustsNothing (plan : RestorePlan) : Prop where
  workers : plan.workers = none
  downloaded : plan.taskRequest.downloadedSize = some 0
  pieces : NoPieceCompleted (plan.taskRequest.pieceStates.getD [])
  blocks : NoBlockCompleted (plan.taskRequest.blockStates.getD [])
  status : plan.taskRequest.status ≠ some .paused ∧ plan.taskRequest.status ≠ some .completed

theorem inspect_of_noLocalFile (h : NoLocalFile view row) :
    inspectRestoreFileState view (normalizedTextField row.filePath) = ⟨false, none⟩ := by
  unfold inspectRestoreFileState
  split
  · rfl
  · rename_i path hp
    obtain ⟨hp, _⟩ := Option.filter_eq_some_iff.1 hp
    unfold normalizedTextField at hp
    split at hp
    · cases hp
    · cases hp
      rcases h with h | h
      · contradiction
      · rw [h]

/-- The status a row without a local file is restored with. -/
def statusWithoutFile (status : Status) (restorable : Bool) : Status :=
  if status = .completed ∨ status = .paused ∧ restorable = false then .pending else status

theorem buildRestorePlan_noLocalFile (codec : Codec) (h : NoLocalFile view bundle.task) :
    let request := dbTaskToRequest codec bundle.task bundle.pieces bundle.blocks bundle.checksums
    buildRestorePlan codec view bundle =
      ⟨{ request with
          status := some (statusWithoutFile
            (normalizeRestoredStatus (request.status.getD .pending))
            (hasRestorablePieceState request))
          downloadedSize := some 0
          pieceStates := some [] }, none⟩ := by
  intro request
  have hi : inspectRestoreFileState view request.filePath = ⟨false, none⟩ := by
    rw [dbTaskToRequest_filePath]
    exact inspect_of_noLocalFile h
  simp only [buildRestorePlan, show dbTaskToRequest codec bundle.task bundle.pieces bundle.blocks
    bundle.checksums = request from rfl, hi, RestoreFileState.isUsableForCompleted,
    statusWithoutFile]
  by_cases hc : normalizeRestoredStatus (request.status.getD .pending) = .completed
  · simp [hc]
  · by_cases hp : normalizeRestoredStatus (request.status.getD .pending) = .paused
    · simp [hp]
    · simp [hc, hp]

theorem normalizeRestoredStatus_eq_paused (text : String) :
    normalizeRestoredStatus ((Status.fromText text).getD .pending) = .paused ↔
      text ∈ ["Running", "Preparing", "Paused"] := by
  unfold Status.fromText
  split_ifs <;> simp_all [normalizeRestoredStatus]

theorem statusWithoutFile_ne_completed (status : Status) (restorable : Bool) :
    statusWithoutFile status restorable ≠ .completed := by
  unfold statusWithoutFile
  split
  · simp
  · rename_i h
    exact fun hc => h (.inl hc)

theorem statusWithoutFile_eq_paused (status : Status) (restorable : Bool) :
    statusWithoutFile status restorable = .paused ↔ status = .paused ∧ restorable = true := by
  unfold statusWithoutFile
  cases restorable <;> cases status <;> simp

/-- A task restored without its local file trusts nothing exactly when no block row is marked
completed and, if the row was stored while the task was running or paused, no piece row is. -/
theorem restorePlan_trustsNothing_iff (codec : Codec) (view : FileView) (bundle : StoredBundle)
    (h : NoLocalFile view bundle.task) :
    PlanTrustsNothing (buildRestorePlan codec view bundle) ↔
      (∀ b ∈ bundle.blocks, b.completed = false) ∧
        (bundle.task.status ∈ ["Running", "Preparing", "Paused"] →
          ∀ p ∈ bundle.pieces, p.completed = false) := by
  rw [buildRestorePlan_noLocalFile codec h, ← noBlockCompleted_dbBlocks,
    ← noPieceCompleted_dbPieces, ← normalizeRestoredStatus_eq_paused]
  have hr : hasRestorablePieceState
      (dbTaskToRequest codec bundle.task bundle.pieces bundle.blocks bundle.checksums) = false ↔
      NoPieceCompleted (dbPiecesToPieceStates bundle.pieces) ∧
        NoBlockCompleted (dbBlocksToBlockStates bundle.blocks) := by
    simp [hasRestorablePieceState, dbTaskToRequest, NoPieceCompleted, NoBlockCompleted]
  constructor
  · intro ht
    refine ⟨ht.blocks, fun hp => ?_⟩
    have hs := ht.status.1
    simp only [ne_eq, Option.some.injEq, statusWithoutFile_eq_paused, not_and,
      Bool.not_eq_true] at hs
    exact (hr.1 (hs hp)).1
  · rintro ⟨hb, hp⟩
    refine ⟨rfl, rfl, fun s hs => absurd hs List.not_mem_nil, hb, ?_, ?_⟩
    · simp only [ne_eq, Option.some.injEq, statusWithoutFile_eq_paused, not_and, Bool.not_eq_true]
      exact fun hs => hr.2 ⟨hp hs, hb⟩
    · simp [statusWithoutFile_ne_completed]

/-- Rows of a running task of two blocks, the first of them downloaded, as the tests write them:
without JSON columns. -/
def halfDownloadedBundle (completed : Bool) : StoredBundle where
  task :=
    { id := 1, url := "https://example.com/file.bin", specJson := "", sourceSetJson := ""
      resolvedUrl := "", entityTag := "", lastModified := "", fileName := "file.bin"
      filePath := "/tmp/missing-file.bin", status := "Running", downloadedSize := 50
      totalSize := some 100, torrentBackend := none, torrentExternalId := none
      torrentStateJson := none, torrentMetadataJson := none, torrentResumeData := none
      createdAt := none, updatedAt := none }
  workers := []
  pieces := [⟨1, 0, completed, none⟩, ⟨1, 1, false, none⟩]
  blocks := [⟨1, 0, 0, completed, none⟩, ⟨1, 1, 0, false, none⟩]
  checksums := []

/-- A codec for rows without JSON columns. -/
def bareCodec : Codec where
  specToJson := fun _ => ""
  specFromJson := fun _ => none
  parseSpec := fun url => some (.https url)
  sourcesToJson := fun _ => ""
  sourcesFromJson := fun _ => none
  stateToJson := fun _ => none
  stateFromJson := fun _ => none
  metadataToJson := fun _ => none
  metadataFromJson := fun _ => none

/-- The file is gone, yet the task comes back as paused with a completed block. -/
theorem restorePlan_keeps_completed_block :
    let plan := buildRestorePlan bareCodec (fun _ => none) (halfDownloadedBundle true)
    NoLocalFile (fun _ => none) (halfDownloadedBundle true).task ∧
      plan.taskRequest.status = some .paused ∧
      plan.taskRequest.blockStates = some [⟨0, 0, true⟩, ⟨1, 0, false⟩] ∧
      ¬ PlanTrustsNothing plan := by
  refine ⟨.inr rfl, by decide, by decide, fun h => h.status.1 (by decide)⟩

theorem restorePlan_without_completed_rows :
    PlanTrustsNothing (buildRestorePlan bareCodec (fun _ => none) (halfDownloadedBundle false)) :=
  (restorePlan_trustsNothing_iff bareCodec (fun _ => none) (halfDownloadedBundle false)
    (.inr rfl)).2 ⟨by decide, fun _ => by decide⟩

end Paradown
