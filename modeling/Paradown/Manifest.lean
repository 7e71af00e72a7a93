import Paradown.Piece
import Paradown.Source
import Paradown.Checksum
import Mathlib.Data.List.Sort

namespace Paradown
set_option autoImplicit true

def DEFAULT_PIECE_SIZE : Nat := 1024 * 1024

def DEFAULT_BLOCK_SIZE : Nat := 256 * 1024

def MAX_HTTP_PIECE_SIZE : Nat := 1024 * 1024

structure FileManifest where
  path : String
  fileName : String
  length : Nat
  offset : Nat
  deriving DecidableEq, Repr

structure SessionManifest where
  id : String
  spec : DownloadSpec
  sources : SourceSet
  totalSize : Nat
  totalSizeKnown : Bool
  pieceSize : Nat
  pieceCount : Nat
  blockSize : Nat
  blockCount : Nat
  files : List FileManifest
  pieces : List PieceLayout
  blocks : List PieceBlock
  checksums : List Checksum
  deriving DecidableEq, Repr

def SessionManifest.forSingleFileWithPieceSize (spec : DownloadSpec) (sources : SourceSet)
    (fileName filePath : String) (totalSize pieceSize blockSize : Nat)
    (checksums : List Checksum) : SessionManifest :=
  let maxPieceSize := min (max totalSize 1) (2 ^ 32 - 1)
  let pieceSize := min (max pieceSize 1) maxPieceSize
  let pieces := planPieceLayouts totalSize pieceSize
  let blockSize := min (max blockSize 1) pieceSize
  let blocks := planPieceBlocks pieces blockSize
  { id := spec.identityKey, spec, sources, totalSize, totalSizeKnown := true, pieceSize
    pieceCount := pieces.length % 2 ^ 32, blockSize, blockCount := blocks.length % 2 ^ 32
    files := [⟨filePath, fileName, totalSize, 0⟩], pieces, blocks, checksums }

def SessionManifest.forFilesWithPieceSize (spec : DownloadSpec) (sources : SourceSet) (id : String)
    (totalSize pieceSize blockSize : Nat) (files : List FileManifest)
    (checksums : List Checksum) : SessionManifest :=
  let maxPieceSize := min (max totalSize 1) (2 ^ 32 - 1)
  let pieceSize := min (max pieceSize 1) maxPieceSize
  let pieces := planPieceLayouts totalSize pieceSize
  let blockSize := min (max blockSize 1) pieceSize
  let blocks := planPieceBlocks pieces blockSize
  { id, spec, sources, totalSize, totalSizeKnown := true, pieceSize
    pieceCount := pieces.length % 2 ^ 32, blockSize, blockCount := blocks.length % 2 ^ 32
    files, pieces, blocks, checksums }

def SessionManifest.forStreamingFile (spec : DownloadSpec) (sources : SourceSet)
    (fileName filePath : String) (checksums : List Checksum) : SessionManifest where
  id := spec.identityKey
  spec := spec
  sources := sources
  totalSize := 0
  totalSizeKnown := false
  pieceSize := DEFAULT_PIECE_SIZE
  pieceCount := 0
  blockSize := DEFAULT_BLOCK_SIZE
  blockCount := 0
  files := [⟨filePath, fileName, 0, 0⟩]
  pieces := []
  blocks := []
  checksums := checksums

def suggestedHttpPieceSize (totalSize requestedWorkers : Nat) : Nat :=
  if totalSize = 0 then 1
  else
    let targetWorkers := min (max requestedWorkers 1) totalSize
    let idealPieceSize := (totalSize + targetWorkers - 1) / targetWorkers
    max (min idealPieceSize MAX_HTTP_PIECE_SIZE) 1

structure ExecutionLaneAssignment where
  laneId : Nat
  sourceId : String
  lengthKnown : Bool
  pieceStart : Nat
  pieceEnd : Nat
  blockStart : Nat
  blockEnd : Nat
  start : Nat
  endByte : Nat
  deriving DecidableEq, Repr

/-- `source_rank`: the position in the preferred order, then the primary source first. -/
def sourceRank (sourceId : String) (preferred : List String) (primaryId : Option String) :
    Nat × Nat :=
  ((preferred.findIdx? (· == sourceId)).getD (2 ^ 64 - 1), if primaryId = some sourceId then 0 else 1)

def sourceLe (preferred : List String) (primaryId : Option String)
    (left right : SourceDescriptor) : Bool :=
  let l := sourceRank left.id preferred primaryId
  let r := sourceRank right.id preferred primaryId
  if l.1 != r.1 then l.1 < r.1
  else if l.2 != r.2 then l.2 < r.2
  else left.id ≤ right.id

def assignmentFromPieceSlice (laneId : Nat) (sourceId : String) (pieces : List PieceLayout)
    (blocks : List PieceBlock) : Option ExecutionLaneAssignment :=
  match pieces.head?, pieces.getLast? with
  | some first, some last =>
    some
      { laneId, sourceId, lengthKnown := true
        pieceStart := first.pieceIndex, pieceEnd := last.pieceIndex
        blockStart := ((blocks.find? (·.pieceIndex == first.pieceIndex)).map (·.blockIndex)).getD 0
        blockEnd :=
          ((blocks.reverse.find? (·.pieceIndex == last.pieceIndex)).map (·.blockIndex)).getD 0
        start := first.offset
        endByte := satAdd last.offset last.length - 1 }
  | _, _ => none

/-- The contiguous share of the pieces that lane `index` of `workerCount` receives. -/
def lanePieces (pieces : List PieceLayout) (workerCount index : Nat) : List PieceLayout :=
  let pieceStart := index * pieces.length / workerCount
  let pieceEnd := (index + 1) * pieces.length / workerCount
  (pieces.drop pieceStart).take (pieceEnd - pieceStart)

/-- The slice of a lane, whose bounds are products of type `usize`. Where one overflows the planner
panics; a product that has wrapped around would have the slice end before it starts. -/
def laneSlice (pieces : List PieceLayout) (workerCount index : Nat) : Option (List PieceLayout) :=
  if (index + 1) * pieces.length < 2 ^ 64 then some (lanePieces pieces workerCount index) else none

def streamingAssignment (sourceId : String) : ExecutionLaneAssignment :=
  ⟨0, sourceId, false, 0, 0, 0, 0, 0, 0⟩

/-- The lanes of a plan; `none` where the planner panics. -/
def planExecutionLanesWithSourceOrder (manifest : SessionManifest) (requestedWorkers : Nat)
    (allowParallel : Bool) (preferred : List String) : Option (List ExecutionLaneAssignment) :=
  let active := manifest.sources.activeTransferSources
  if manifest.pieces.isEmpty then
    if !manifest.totalSizeKnown || active.isEmpty then
      some (active.head?.map fun source => streamingAssignment source.id).toList
    else some []
  else
    let primaryId := manifest.sources.primary.map (·.id)
    let ranked := active.insertionSort fun l r => sourceLe preferred primaryId l r = true
    match ranked with
    | [] => some []
    | first :: _ =>
      if !allowParallel then
        some (assignmentFromPieceSlice 0 first.id manifest.pieces manifest.blocks).toList
      else
        let workerCount := min (max requestedWorkers 1) manifest.pieces.length
        let assignments := (List.range workerCount).mapM fun index =>
          let source := ranked.getD (index % ranked.length) first
          (laneSlice manifest.pieces workerCount index).map fun slice =>
            assignmentFromPieceSlice (index % 2 ^ 32) source.id slice manifest.blocks
        assignments.map (List.filterMap id)

theorem forSingleFile_pieces_covered (ht : totalSize < 2 ^ 64) :
    let m := SessionManifest.forSingleFileWithPieceSize spec sources fileName filePath totalSize
      pieceSize blockSize checksums
    ∀ p ∈ m.pieces, ∃ b ∈ m.blocks, b.pieceIndex = p.pieceIndex := by
  intro m p hp
  have hb := planPieceLayouts_bound p hp
  exact planPieceBlocks_covers hp (planPieceLayouts_length_pos p hp) (by omega)

end Paradown
