import Paradown.Task
import Mathlib.Data.List.DropRight

namespace Paradown
set_option autoImplicit true

structure DBDownloadTask where
  id : Nat
  url : String
  specJson : String
  sourceSetJson : String
  resolvedUrl : String
  entityTag : String
  lastModified : String
  fileName : String
  filePath : String
  status : String
  downloadedSize : Nat
  totalSize : Option Nat
  torrentBackend : Option String
  torrentExternalId : Option String
  torrentStateJson : Option String
  torrentMetadataJson : Option String
  torrentResumeData : Option (List UInt8)
  createdAt : Option Nat
  updatedAt : Option Nat
  deriving DecidableEq, Repr

structure DBDownloadWorker where
  id : Nat
  taskId : Nat
  index : Nat
  sourceId : Option String
  pieceStart : Option Nat
  pieceEnd : Option Nat
  blockStart : Option Nat
  blockEnd : Option Nat
  start : Nat
  endByte : Nat
  downloaded : Nat
  status : String
  updatedAt : Option Nat
  deriving DecidableEq, Repr

structure DBDownloadPiece where
  taskId : Nat
  pieceIndex : Nat
  completed : Bool
  updatedAt : Option Nat
  deriving DecidableEq, Repr

structure DBDownloadBlock where
  taskId : Nat
  pieceIndex : Nat
  blockIndex : Nat
  completed : Bool
  updatedAt : Option Nat
  deriving DecidableEq, Repr

structure DBDownloadChecksum where
  id : Nat
  taskId : Nat
  algorithm : String
  value : String
  verified : Bool
  verifiedAt : Option Nat
  deriving DecidableEq, Repr

structure StoredBundle where
  task : DBDownloadTask
  workers : List DBDownloadWorker
  pieces : List DBDownloadPiece
  blocks : List DBDownloadBlock
  checksums : List DBDownloadChecksum
  deriving DecidableEq, Repr

structure TaskRequest where
  id : Option Nat
  spec : DownloadSpec
  fileName : Option String
  filePath : Option String
  resourceIdentity : Option HttpResourceIdentity
  httpRequest : Option HttpRequestOptions
  sources : Option SourceSet
  pieceStates : Option (List PieceState)
  blockStates : Option (List BlockState)
  checksums : Option (List Checksum)
  status : Option Status
  downloadedSize : Option Nat
  totalSize : Option Nat
  torrentResume : Option TorrentResumeSnapshot
  createdAt : Option Nat
  updatedAt : Option Nat
  deriving DecidableEq, Repr

structure SegmentRequest where
  id : Option Nat
  taskId : Nat
  index : Nat
  sourceId : Option String
  pieceStart : Option Nat
  pieceEnd : Option Nat
  blockStart : Option Nat
  blockEnd : Option Nat
  start : Nat
  endByte : Nat
  downloaded : Option Nat
  status : Option String
  updatedAt : Option Nat
  deriving DecidableEq, Repr

/-- The text forms that `serde_json` and the `url` crate give to the values of a row. -/
structure Codec where
  specToJson : DownloadSpec → String
  specFromJson : String → Option DownloadSpec
  parseSpec : String → Option DownloadSpec
  sourcesToJson : SourceSet → String
  sourcesFromJson : String → Option SourceSet
  stateToJson : TorrentEngineState → Option String
  stateFromJson : String → Option TorrentEngineState
  metadataToJson : TorrentMetadata → Option String
  metadataFromJson : String → Option TorrentMetadata

/-- The Unicode property `White_Space`, which `str::trim` removes at both ends. -/
def isWhiteSpace (c : Char) : Bool :=
  let n := c.toNat
  (9 ≤ n && n ≤ 13) || n == 0x20 || n == 0x85 || n == 0xA0 || n == 0x1680 ||
    (0x2000 ≤ n && n ≤ 0x200A) || n == 0x2028 || n == 0x2029 || n == 0x202F || n == 0x205F ||
    n == 0x3000

def trim (s : String) : String :=
  String.ofList ((s.toList.dropWhile isWhiteSpace).reverse.dropWhile isWhiteSpace).reverse

def normalizedTextField (value : String) : Option String :=
  if trim value = "" then none else some (trim value)

def torrentBackendToDb : TorrentEngineBackend → String
  | .libtorrent => "libtorrent"

def torrentBackendFromDb (value : String) : Option TorrentEngineBackend :=
  if (trim value).toLower = "libtorrent" then some .libtorrent else none

def taskToDb (codec : Codec) (t : Task) : DBDownloadTask where
  id := t.id
  url := t.spec.identityKey
  specJson := codec.specToJson t.spec
  sourceSetJson := codec.sourcesToJson t.sources
  resolvedUrl := t.identity.resolvedUrl.getD ""
  entityTag := t.identity.entityTag.getD ""
  lastModified := t.identity.lastModified.getD ""
  fileName := t.fileName.getD ""
  filePath := t.filePath.getD ""
  status := t.status.toText
  downloadedSize := t.downloadedSize
  totalSize := t.totalSizeOption
  torrentBackend := t.torrentResume.map fun r => torrentBackendToDb r.handle.backend
  torrentExternalId := t.torrentResume.map (·.handle.externalId)
  torrentStateJson := t.torrentResume.bind fun r => codec.stateToJson r.state
  torrentMetadataJson := t.torrentResume.bind fun r => r.metadata.bind codec.metadataToJson
  torrentResumeData := t.torrentResume.bind (·.resumeData)
  createdAt := t.createdAt
  updatedAt := t.updatedAt

def workerToDb (taskId : Nat) (w : Worker) : DBDownloadWorker where
  id := w.id
  taskId := taskId
  index := w.id
  sourceId := some w.source.id
  pieceStart := some w.lane.pieceStart
  pieceEnd := some w.lane.pieceEnd
  blockStart := some w.lane.blockStart
  blockEnd := some w.lane.blockEnd
  start := w.start
  endByte := w.endByte
  downloaded := w.downloadedSize
  status := w.status.toText
  updatedAt := w.updatedAt

def ChecksumAlgorithm.toText : ChecksumAlgorithm → String
  | .md5 => "MD5"
  | .sha1 => "SHA1"
  | .sha256 => "SHA256"
  | .none => "NONE"

def ChecksumAlgorithm.fromText (s : String) : ChecksumAlgorithm :=
  if s = "MD5" then .md5 else if s = "SHA1" then .sha1 else if s = "SHA256" then .sha256 else .none

def checksumToDb (c : Checksum) (taskId : Nat) : DBDownloadChecksum :=
  ⟨0, taskId, c.algorithm.toText, c.value.getD "", c.verified.getD false, c.verifiedAt⟩

/-- A stored checksum always comes back with a value, the empty text included. -/
def dbToChecksum (c : DBDownloadChecksum) : Checksum :=
  ⟨.fromText c.algorithm, some c.value, some c.verified, c.verifiedAt⟩

def pieceStatesToDb (taskId : Nat) (states : List PieceState) : List DBDownloadPiece :=
  states.map fun s => ⟨taskId, s.pieceIndex, s.completed, none⟩

def dbPiecesToPieceStates (pieces : List DBDownloadPiece) : List PieceState :=
  (pieces.insertionSort fun a b => a.pieceIndex ≤ b.pieceIndex).map fun p =>
    ⟨p.pieceIndex, p.completed⟩

def blockStatesToDb (taskId : Nat) (states : List BlockState) : List DBDownloadBlock :=
  states.map fun s => ⟨taskId, s.pieceIndex, s.blockIndex, s.completed, none⟩

def dbBlocksToBlockStates (blocks : List DBDownloadBlock) : List BlockState :=
  (blocks.insertionSort fun a b => a.pieceIndex < b.pieceIndex ∨
    a.pieceIndex = b.pieceIndex ∧ a.blockIndex ≤ b.blockIndex).map fun b =>
    ⟨b.pieceIndex, b.blockIndex, b.completed⟩

def dbTaskToTorrentResume (codec : Codec) (task : DBDownloadTask) : Option TorrentResumeSnapshot :=
  match task.torrentBackend.bind torrentBackendFromDb,
      normalizedTextField (task.torrentExternalId.getD "") with
  | some backend, some externalId =>
    some
      { handle := ⟨backend, externalId⟩
        state := (task.torrentStateJson.bind codec.stateFromJson).getD .paused
        metadata := task.torrentMetadataJson.bind codec.metadataFromJson
        resumeData := task.torrentResumeData }
  | _, _ => none

def dbTaskToRequest (codec : Codec) (task : DBDownloadTask) (pieces : List DBDownloadPiece)
    (blocks : List DBDownloadBlock) (checksums : List DBDownloadChecksum) : TaskRequest where
  id := some task.id
  spec := (codec.specFromJson task.specJson <|> codec.parseSpec task.url).getD (.https task.url)
  fileName := normalizedTextField task.fileName
  filePath := normalizedTextField task.filePath
  resourceIdentity := some
    ⟨normalizedTextField task.resolvedUrl, normalizedTextField task.entityTag,
      normalizedTextField task.lastModified⟩
  httpRequest := none
  sources := codec.sourcesFromJson task.sourceSetJson
  pieceStates := some (dbPiecesToPieceStates pieces)
  blockStates := some (dbBlocksToBlockStates blocks)
  checksums := some (checksums.map dbToChecksum)
  status := some ((Status.fromText task.status).getD .pending)
  downloadedSize := some task.downloadedSize
  totalSize := task.totalSize
  torrentResume := dbTaskToTorrentResume codec task
  createdAt := task.createdAt
  updatedAt := task.updatedAt

theorem dbTaskToRequest_filePath (codec : Codec) (task : DBDownloadTask)
    (pieces : List DBDownloadPiece) (blocks : List DBDownloadBlock)
    (checksums : List DBDownloadChecksum) :
    (dbTaskToRequest codec task pieces blocks checksums).filePath =
      normalizedTextField task.filePath := by
  rw [dbTaskToRequest]

def dbWorkersToRequests (workers : List DBDownloadWorker) : List SegmentRequest :=
  workers.map fun w =>
    { id := some w.id, taskId := w.taskId, index := w.index, sourceId := w.sourceId
      pieceStart := w.pieceStart, pieceEnd := w.pieceEnd, blockStart := w.blockStart
      blockEnd := w.blockEnd, start := w.start, endByte := w.endByte, downloaded := some w.downloaded
      status := some w.status, updatedAt := w.updatedAt }

/-- `Store::save_task`: the rows that stand for a task. -/
def saveTask (codec : Codec) (t : Task) : StoredBundle where
  task := taskToDb codec t
  workers := t.workers.map (workerToDb t.id)
  pieces := pieceStatesToDb t.id t.pieceStates
  blocks := blockStatesToDb t.id t.blockStates
  checksums := t.checksums.map fun c => checksumToDb c t.id

theorem dropWhile_of_isPrefix {xs ys : List α} (h : xs <+: ys) (hy : ys.dropWhile p = ys) :
    xs.dropWhile p = xs := by
  rw [List.dropWhile_eq_self_iff] at hy ⊢
  intro hl
  rw [h.getElem hl]
  exact hy (Nat.lt_of_lt_of_le hl h.length_le)

theorem trim_trim (s : String) : trim (trim s) = trim s := by
  unfold trim
  rw [String.toList_ofList]
  generalize hx : s.toList.dropWhile isWhiteSpace = xs
  have hxs : xs.dropWhile isWhiteSpace = xs := by
    rw [← hx]
    exact List.dropWhile_idempotent _ _
  have hr : (xs.reverse.dropWhile isWhiteSpace).reverse.dropWhile isWhiteSpace =
      (xs.reverse.dropWhile isWhiteSpace).reverse :=
    dropWhile_of_isPrefix (List.rdropWhile_prefix isWhiteSpace xs) hxs
  rw [hr, List.reverse_reverse, List.dropWhile_idempotent]

theorem normalizedTextField_trim (h : trim value ≠ "") :
    normalizedTextField (trim value) = some (trim value) := by
  simp only [normalizedTextField, trim_trim, h, if_false]

theorem noBlockCompleted_dbBlocks (blocks : List DBDownloadBlock) :
    NoBlockCompleted (dbBlocksToBlockStates blocks) ↔ ∀ b ∈ blocks, b.completed = false := by
  simp only [NoBlockCompleted, dbBlocksToBlockStates, List.mem_map, forall_exists_index, and_imp,
    forall_apply_eq_imp_iff₂, List.mem_insertionSort]

theorem noPieceCompleted_dbPieces (pieces : List DBDownloadPiece) :
    NoPieceCompleted (dbPiecesToPieceStates pieces) ↔ ∀ p ∈ pieces, p.completed = false := by
  simp only [NoPieceCompleted, dbPiecesToPieceStates, List.mem_map, forall_exists_index, and_imp,
    forall_apply_eq_imp_iff₂, List.mem_insertionSort]

end Paradown
