import Paradown.Store
import Paradown.Torrent

namespace Paradown
set_option autoImplicit true

inductive FileConflictStrategy where
  | overwrite
  | skipIfValid
  | resume
  deriving DecidableEq, Repr

structure Config where
  downloadDir : String
  concurrentTasks : Nat
  segmentsPerTask : Nat
  fileConflictStrategy : FileConflictStrategy
  httpRequest : HttpRequestOptions := {}
  deriving DecidableEq, Repr

structure Worker where
  id : Nat
  source : SourceDescriptor
  lane : ExecutionLaneAssignment
  lengthKnown : Bool
  start : Nat
  endByte : Nat
  downloadedSize : Nat
  paused : Bool
  canceled : Bool
  deleted : Bool
  status : Status
  updatedAt : Option Nat
  isRunning : Bool
  deriving DecidableEq, Repr

def Worker.new (id : Nat) (source : SourceDescriptor) (lane : ExecutionLaneAssignment)
    (downloadedSize : Option Nat) (status : Option Status) (updatedAt : Option Nat) : Worker where
  id := id
  source := source
  lane := lane
  lengthKnown := lane.lengthKnown
  start := lane.start
  endByte := lane.endByte
  downloadedSize := downloadedSize.getD 0
  paused := decide (status = some .paused)
  canceled := decide (status = some .canceled)
  deleted := decide (status = some .deleted)
  status := status.getD .pending
  updatedAt := updatedAt
  isRunning := false

def Worker.expectedLength (w : Worker) : Nat :=
  if w.lengthKnown then satAdd (w.endByte - w.start) 1 else 0

structure SourceRuntimeState where
  consecutiveFailures : Nat := 0
  successfulTransfers : Nat := 0
  deriving DecidableEq, Repr, Inhabited

/-- The in-memory task, without its locks, channels, live torrent session and counters for
display. A missing key of `sourceRuntime` reads as the default entry. -/
structure Task where
  id : Nat
  spec : DownloadSpec
  config : Config
  status : Status
  fileName : Option String
  filePath : Option String
  identity : HttpResourceIdentity
  httpRequest : HttpRequestOptions
  sources : SourceSet
  sourceRuntime : String → SourceRuntimeState
  checksums : List Checksum
  manifest : Option SessionManifest
  pieceStates : List PieceState
  blockStates : List BlockState
  payloadStore : Option FileMap
  torrentResume : Option TorrentResumeSnapshot
  workers : List Worker
  totalSize : Nat
  totalSizeKnown : Bool
  downloadedSize : Nat
  rangeRequestsSupported : Bool
  protocolProbeCompleted : Bool
  createdAt : Option Nat
  updatedAt : Option Nat

def Task.totalSizeOption (t : Task) : Option Nat :=
  if t.totalSizeKnown then some t.totalSize else none

def Task.updateProtocolProbe (t : Task) (totalSize : Option Nat) (supportsRange : Bool) : Task :=
  { t with
    totalSize := totalSize.getD 0
    totalSizeKnown := totalSize.isSome
    rangeRequestsSupported := supportsRange
    protocolProbeCompleted := true }

def pieceStateLayoutMatches (expected restored : List PieceState) : Bool :=
  expected.map (·.pieceIndex) == restored.map (·.pieceIndex)

def blockStateLayoutMatches (expected restored : List BlockState) : Bool :=
  expected.map (fun s => (s.pieceIndex, s.blockIndex)) ==
    restored.map fun s => (s.pieceIndex, s.blockIndex)

/-- Copy the flags of the restored states onto the freshly initialised ones. -/
def carryPieceFlags : List PieceState → List PieceState → List PieceState
  | next :: ns, restored :: rs => { next with completed := restored.completed } :: carryPieceFlags ns rs
  | ns, _ => ns

def carryBlockFlags : List BlockState → List BlockState → List BlockState
  | next :: ns, restored :: rs => { next with completed := restored.completed } :: carryBlockFlags ns rs
  | ns, _ => ns

def Task.installManifest (t : Task) (manifest : SessionManifest) : Task :=
  let freshPieces := initializePieceStates manifest.pieces
  let freshBlocks := initializeBlockStates manifest.blocks
  let carriedPieces :=
    if pieceStateLayoutMatches freshPieces t.pieceStates then carryPieceFlags freshPieces t.pieceStates
    else freshPieces
  let matched := blockStateLayoutMatches freshBlocks t.blockStates
  let blockStates := if matched then carryBlockFlags freshBlocks t.blockStates else freshBlocks
  let pieceStates :=
    if matched then derivePieceStatesFromBlocks manifest.pieces manifest.blocks blockStates
    else carriedPieces
  { t with
    manifest := some manifest
    sources := manifest.sources
    pieceStates
    blockStates
    payloadStore := some (.fromManifest manifest) }

def Task.resetPieceProgress (t : Task) : Task :=
  { t with pieceStates := t.pieceStates.map fun s => { s with completed := false } }

def Task.resetBlockProgress (t : Task) : Task :=
  { t with blockStates := t.blockStates.map fun s => { s with completed := false } }

/-- What one worker contributes to the block map: nothing, or the blocks inside the bytes it
counted. -/
def markWorkerBlocks (blocks : List PieceBlock) (states : List BlockState) (w : Worker) :
    List BlockState :=
  let downloaded := min w.downloadedSize w.expectedLength
  if downloaded = 0 then states
  else markCompletedBlocks states blocks w.start (satAdd w.start downloaded - 1)

def workersDownloaded (workers : List Worker) : Nat :=
  workers.foldl (fun n w => satAdd n (min w.downloadedSize w.expectedLength)) 0

/-- `sync_piece_progress_from_workers`; for an unknown total size only the counter is stored. -/
def Task.syncPieceProgressFromWorkers (t : Task) : Except Error Nat × Task :=
  match t.manifest with
  | none => (.error (.other s!"Task {t.id} manifest not initialized"), t)
  | some manifest =>
    let fresh := initializeBlockStates manifest.blocks
    let existing := if blockStateLayoutMatches fresh t.blockStates then t.blockStates else fresh
    let blockStates := t.workers.foldl (markWorkerBlocks manifest.blocks) existing
    let pieceStates := derivePieceStatesFromBlocks manifest.pieces manifest.blocks blockStates
    let downloaded := workersDownloaded t.workers
    if !manifest.totalSizeKnown then (.ok downloaded, { t with downloadedSize := downloaded })
    else
      let downloaded := min downloaded manifest.totalSize
      (.ok downloaded, { t with blockStates, pieceStates, downloadedSize := downloaded })

def Task.markAllPiecesCompleted (t : Task) : Task :=
  match t.manifest with
  | none => t
  | some manifest =>
    let pieces :=
      if t.pieceStates.length ≠ manifest.pieces.length then initializePieceStates manifest.pieces
      else t.pieceStates
    let blocks :=
      if t.blockStates.length ≠ manifest.blocks.length then initializeBlockStates manifest.blocks
      else t.blockStates
    { t with
      pieceStates := pieces.map fun s => { s with completed := true }
      blockStates := blocks.map fun s => { s with completed := true }
      downloadedSize := if manifest.totalSizeKnown then manifest.totalSize else t.downloadedSize }

def Task.clearManifestState (t : Task) : Task :=
  { t with
    manifest := none, pieceStates := [], blockStates := [], payloadStore := none
    torrentResume := none }

theorem carryBlockFlags_eq (h : blockStateLayoutMatches fresh restored = true) :
    carryBlockFlags fresh restored = restored := by
  induction fresh generalizing restored with
  | nil =>
    cases restored with
    | nil => rfl
    | cons r rs => simp [blockStateLayoutMatches] at h
  | cons f fs ih =>
    cases restored with
    | nil => simp [blockStateLayoutMatches] at h
    | cons r rs =>
      simp only [blockStateLayoutMatches, List.map_cons, beq_iff_eq, List.cons.injEq,
        Prod.mk.injEq] at h
      have ht := @ih rs (by simp [blockStateLayoutMatches, h.2])
      simp only [carryBlockFlags, ht, h.1.1, h.1.2]

theorem carryPieceFlags_length (fresh restored : List PieceState) :
    (carryPieceFlags fresh restored).length = fresh.length := by
  induction fresh generalizing restored with
  | nil => cases restored <;> rfl
  | cons f fs ih =>
    cases restored with
    | nil => rfl
    | cons r rs => simp [carryPieceFlags, ih]

/-- The block states after `install_manifest`: the restored ones when their layout is the new
one, otherwise all incomplete. -/
theorem Task.installManifest_blockStates (t : Task) (manifest : SessionManifest) :
    (t.installManifest manifest).blockStates =
      if blockStateLayoutMatches (initializeBlockStates manifest.blocks) t.blockStates
      then t.blockStates else initializeBlockStates manifest.blocks := by
  simp only [Task.installManifest]
  split
  · rw [carryBlockFlags_eq ‹_›]
  · rfl

theorem blockStateLayoutMatches_self (states : List BlockState) :
    blockStateLayoutMatches states states = true := by
  simp [blockStateLayoutMatches]

theorem blockStateLayoutMatches_reset (fresh states : List BlockState) :
    blockStateLayoutMatches fresh (states.map fun s => { s with completed := false }) =
      blockStateLayoutMatches fresh states := by
  simp [blockStateLayoutMatches, Function.comp_def]

end Paradown
