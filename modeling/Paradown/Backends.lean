import Paradown.Keyed
import Paradown.Storage
import Mathlib.Data.String.Basic

namespace Paradown
set_option autoImplicit true

open Keyed (save upsert addAll insert values)

def DBDownloadWorker.key (w : DBDownloadWorker) : Nat × Nat := (w.taskId, w.index)

def DBDownloadPiece.key (p : DBDownloadPiece) : Nat × Nat := (p.taskId, p.pieceIndex)

def DBDownloadBlock.key (b : DBDownloadBlock) : Nat × Nat × Nat :=
  (b.taskId, b.pieceIndex, b.blockIndex)

def DBDownloadChecksum.key (c : DBDownloadChecksum) : Nat × String := (c.taskId, c.algorithm)

/-- A call that changes a repository, and may fail. -/
def RepositoryCall (σ : Type) : Type := σ → Except Error Unit × σ

namespace RepositoryCall

/-- A call that cannot fail. -/
def modify (f : σ → σ) : RepositoryCall σ := fun s => (.ok (), f s)

/-- Two calls, the second only after the first has returned `Ok`. -/
def andThen (f g : RepositoryCall σ) : RepositoryCall σ := fun s =>
  match f s with
  | (.ok (), s) => g s
  | (.error err, s) => (.error err, s)

def forEach (f : α → RepositoryCall σ) : List α → RepositoryCall σ
  | [] => modify id
  | x :: xs => (f x).andThen (forEach f xs)

/-- Either the whole call, or nothing of it. -/
def transaction (f : RepositoryCall σ) : RepositoryCall σ := fun s =>
  match f s with
  | (.ok (), s') => (.ok (), s')
  | (.error err, _) => (.error err, s)

end RepositoryCall

class Repository (σ : Type) where
  loadTasks : σ → List DBDownloadTask
  saveTask : DBDownloadTask → RepositoryCall σ
  deleteTask : Nat → RepositoryCall σ
  loadWorkers : σ → Nat → List DBDownloadWorker
  saveWorker : DBDownloadWorker → RepositoryCall σ
  deleteWorkers : Nat → RepositoryCall σ
  loadPieces : σ → Nat → List DBDownloadPiece
  savePieces : Nat → List DBDownloadPiece → RepositoryCall σ
  deletePieces : Nat → RepositoryCall σ
  loadBlocks : σ → Nat → List DBDownloadBlock
  saveBlocks : Nat → List DBDownloadBlock → RepositoryCall σ
  deleteBlocks : Nat → RepositoryCall σ
  loadChecksums : σ → Nat → List DBDownloadChecksum
  saveChecksum : DBDownloadChecksum → RepositoryCall σ
  deleteChecksums : Nat → RepositoryCall σ
  saveBundle : StoredBundle → RepositoryCall σ := fun b =>
    (saveTask b.task).andThen <| (deleteWorkers b.task.id).andThen <|
      (RepositoryCall.forEach saveWorker b.workers).andThen <|
        (savePieces b.task.id b.pieces).andThen <|
        (saveBlocks b.task.id b.blocks).andThen <| (deleteChecksums b.task.id).andThen <|
          RepositoryCall.forEach saveChecksum b.checksums

inductive RepositoryOp where
  | saveTask (task : DBDownloadTask)
  | deleteTask (taskId : Nat)
  | saveBundle (bundle : StoredBundle)
  | saveWorker (worker : DBDownloadWorker)
  | deleteWorkers (taskId : Nat)
  | savePieces (taskId : Nat) (pieces : List DBDownloadPiece)
  | deletePieces (taskId : Nat)
  | saveBlocks (taskId : Nat) (blocks : List DBDownloadBlock)
  | deleteBlocks (taskId : Nat)
  | saveChecksum (checksum : DBDownloadChecksum)
  | deleteChecksums (taskId : Nat)
  deriving DecidableEq, Repr

def RepositoryOp.perform [Repository σ] : RepositoryOp → RepositoryCall σ
  | .saveTask task => Repository.saveTask task
  | .deleteTask taskId => Repository.deleteTask taskId
  | .saveBundle bundle => Repository.saveBundle bundle
  | .saveWorker worker => Repository.saveWorker worker
  | .deleteWorkers taskId => Repository.deleteWorkers taskId
  | .savePieces taskId pieces => Repository.savePieces taskId pieces
  | .deletePieces taskId => Repository.deletePieces taskId
  | .saveBlocks taskId blocks => Repository.saveBlocks taskId blocks
  | .deleteBlocks taskId => Repository.deleteBlocks taskId
  | .saveChecksum checksum => Repository.saveChecksum checksum
  | .deleteChecksums taskId => Repository.deleteChecksums taskId

/-- The order in which the rows of a task are loaded. -/
def sortTasks (rows : List DBDownloadTask) : List DBDownloadTask :=
  rows.insertionSort fun a b => a.id ≤ b.id

def sortWorkers (rows : List DBDownloadWorker) : List DBDownloadWorker :=
  rows.insertionSort fun a b => a.index ≤ b.index

def sortPieces (rows : List DBDownloadPiece) : List DBDownloadPiece :=
  rows.insertionSort fun a b => a.pieceIndex ≤ b.pieceIndex

def sortBlocks (rows : List DBDownloadBlock) : List DBDownloadBlock :=
  rows.insertionSort fun a b =>
    a.pieceIndex < b.pieceIndex ∨ a.pieceIndex = b.pieceIndex ∧ a.blockIndex ≤ b.blockIndex

def sortChecksums (rows : List DBDownloadChecksum) : List DBDownloadChecksum :=
  rows.insertionSort fun a b => a.algorithm ≤ b.algorithm

structure JsonRepositoryState where
  tasks : List DBDownloadTask := []
  workers : List DBDownloadWorker := []
  pieces : List DBDownloadPiece := []
  blocks : List DBDownloadBlock := []
  checksums : List DBDownloadChecksum := []
  deriving DecidableEq, Repr

/-- What an operation of `JsonFileRepository` does under its write lock. -/
def JsonRepositoryState.apply (s : JsonRepositoryState) : RepositoryOp → JsonRepositoryState
  | .saveTask task => { s with tasks := save (·.id) s.tasks task }
  | .deleteTask taskId =>
    { tasks := s.tasks.filter (·.id ≠ taskId)
      workers := s.workers.filter (·.taskId ≠ taskId)
      pieces := s.pieces.filter (·.taskId ≠ taskId)
      blocks := s.blocks.filter (·.taskId ≠ taskId)
      checksums := s.checksums.filter (·.taskId ≠ taskId) }
  | .saveBundle b =>
    { tasks := save (·.id) s.tasks b.task
      workers := s.workers.filter (·.taskId ≠ b.task.id) ++ b.workers
      pieces := s.pieces.filter (·.taskId ≠ b.task.id) ++ b.pieces
      blocks := s.blocks.filter (·.taskId ≠ b.task.id) ++ b.blocks
      checksums := s.checksums.filter (·.taskId ≠ b.task.id) ++ b.checksums }
  | .saveWorker worker => { s with workers := save DBDownloadWorker.key s.workers worker }
  | .deleteWorkers taskId => { s with workers := s.workers.filter (·.taskId ≠ taskId) }
  | .savePieces taskId pieces =>
    { s with pieces := s.pieces.filter (·.taskId ≠ taskId) ++ pieces }
  | .deletePieces taskId => { s with pieces := s.pieces.filter (·.taskId ≠ taskId) }
  | .saveBlocks taskId blocks =>
    { s with blocks := s.blocks.filter (·.taskId ≠ taskId) ++ blocks }
  | .deleteBlocks taskId => { s with blocks := s.blocks.filter (·.taskId ≠ taskId) }
  | .saveChecksum checksum =>
    { s with checksums := save DBDownloadChecksum.key s.checksums checksum }
  | .deleteChecksums taskId => { s with checksums := s.checksums.filter (·.taskId ≠ taskId) }

/-- `JsonFileRepository`, as long as its file can be written. -/
instance : Repository JsonRepositoryState where
  loadTasks s := sortTasks s.tasks
  saveTask task := .modify (·.apply (.saveTask task))
  deleteTask taskId := .modify (·.apply (.deleteTask taskId))
  loadWorkers s taskId := sortWorkers (s.workers.filter (·.taskId = taskId))
  saveWorker worker := .modify (·.apply (.saveWorker worker))
  deleteWorkers taskId := .modify (·.apply (.deleteWorkers taskId))
  loadPieces s taskId := sortPieces (s.pieces.filter (·.taskId = taskId))
  savePieces taskId pieces := .modify (·.apply (.savePieces taskId pieces))
  deletePieces taskId := .modify (·.apply (.deletePieces taskId))
  loadBlocks s taskId := sortBlocks (s.blocks.filter (·.taskId = taskId))
  saveBlocks taskId blocks := .modify (·.apply (.saveBlocks taskId blocks))
  deleteBlocks taskId := .modify (·.apply (.deleteBlocks taskId))
  loadChecksums s taskId := sortChecksums (s.checksums.filter (·.taskId = taskId))
  saveChecksum checksum := .modify (·.apply (.saveChecksum checksum))
  deleteChecksums taskId := .modify (·.apply (.deleteChecksums taskId))
  saveBundle bundle := .modify (·.apply (.saveBundle bundle))

/-- The maps are given by their entries. -/
structure MemoryRepository where
  tasks : List (Nat × DBDownloadTask) := []
  workers : List ((Nat × Nat) × DBDownloadWorker) := []
  pieces : List ((Nat × Nat) × DBDownloadPiece) := []
  blocks : List ((Nat × Nat × Nat) × DBDownloadBlock) := []
  checksums : List ((Nat × String) × DBDownloadChecksum) := []
  deriving DecidableEq, Repr

def workerStorageId (taskId index : Nat) : Nat :=
  taskId % 2 ^ 16 * 2 ^ 16 + index % 2 ^ 16

def checksumStorageId (taskId : Nat) (algorithm : String) : Nat :=
  let algorithmCode := match algorithm with
    | "MD5" => 1
    | "SHA1" => 2
    | "SHA256" => 3
    | "NONE" => 4
    | _ => 15
  min (min (taskId * 16) (2 ^ 32 - 1) + algorithmCode) (2 ^ 32 - 1)

instance : Repository MemoryRepository where
  loadTasks s := sortTasks (values s.tasks)
  saveTask task := .modify fun s => { s with tasks := insert s.tasks task.id task }
  deleteTask taskId := .modify fun s =>
    { tasks := s.tasks.filter (·.1 ≠ taskId)
      workers := s.workers.filter (·.2.taskId ≠ taskId)
      pieces := s.pieces.filter (·.2.taskId ≠ taskId)
      blocks := s.blocks.filter (·.2.taskId ≠ taskId)
      checksums := s.checksums.filter (·.2.taskId ≠ taskId) }
  loadWorkers s taskId := sortWorkers ((values s.workers).filter (·.taskId = taskId))
  saveWorker worker := .modify fun s =>
    { s with
      workers := insert s.workers (worker.taskId, worker.index)
        { worker with id := workerStorageId worker.taskId worker.index } }
  deleteWorkers taskId := .modify fun s =>
    { s with workers := s.workers.filter (·.2.taskId ≠ taskId) }
  loadPieces s taskId := sortPieces ((values s.pieces).filter (·.taskId = taskId))
  savePieces taskId pieces := .modify fun s =>
    { s with
      pieces := pieces.foldl (fun m piece => insert m (taskId, piece.pieceIndex) piece)
        (s.pieces.filter (·.1.1 ≠ taskId)) }
  deletePieces taskId := .modify fun s =>
    { s with pieces := s.pieces.filter (·.2.taskId ≠ taskId) }
  loadBlocks s taskId := sortBlocks ((values s.blocks).filter (·.taskId = taskId))
  saveBlocks taskId blocks := .modify fun s =>
    { s with
      blocks := blocks.foldl
        (fun m block => insert m (taskId, block.pieceIndex, block.blockIndex) block)
        (s.blocks.filter (·.1.1 ≠ taskId)) }
  deleteBlocks taskId := .modify fun s =>
    { s with blocks := s.blocks.filter (·.2.taskId ≠ taskId) }
  loadChecksums s taskId := sortChecksums ((values s.checksums).filter (·.taskId = taskId))
  saveChecksum checksum := .modify fun s =>
    { s with
      checksums := insert s.checksums (checksum.taskId, checksum.algorithm)
        { checksum with id := checksumStorageId checksum.taskId checksum.algorithm } }
  deleteChecksums taskId := .modify fun s =>
    { s with checksums := s.checksums.filter (·.2.taskId ≠ taskId) }

/-- What the database adds to the rows: the time of day, and the ids that `AUTOINCREMENT` gives. -/
structure SqliteDefaults where
  now : Nat
  workerId : Nat × Nat → Nat
  checksumId : Nat × String → Nat

/-- The tables of the database. Numbers and dates come back as they were bound. -/
structure SqliteRepository where
  tasks : List DBDownloadTask := []
  workers : List DBDownloadWorker := []
  pieces : List DBDownloadPiece := []
  blocks : List DBDownloadBlock := []
  checksums : List DBDownloadChecksum := []
  defaults : SqliteDefaults

def uniqueViolation (columns : String) : Error :=
  .other ("error returned from database: (code: 2067) UNIQUE constraint failed: " ++ columns)

namespace SqliteRepository

def taskRow (s : SqliteRepository) (task : DBDownloadTask) : DBDownloadTask :=
  { task with
    createdAt := task.createdAt <|> some s.defaults.now
    updatedAt := task.updatedAt <|> some s.defaults.now }

def workerRow (s : SqliteRepository) (worker : DBDownloadWorker) : DBDownloadWorker :=
  { worker with
    id := s.defaults.workerId worker.key
    updatedAt := worker.updatedAt <|> some s.defaults.now }

def pieceRow (s : SqliteRepository) (piece : DBDownloadPiece) : DBDownloadPiece :=
  { piece with updatedAt := piece.updatedAt <|> some s.defaults.now }

def blockRow (s : SqliteRepository) (block : DBDownloadBlock) : DBDownloadBlock :=
  { block with updatedAt := block.updatedAt <|> some s.defaults.now }

def checksumRow (s : SqliteRepository) (checksum : DBDownloadChecksum) : DBDownloadChecksum :=
  { checksum with id := s.defaults.checksumId checksum.key }

/-- `INSERT INTO download_tasks … ON CONFLICT(id) DO UPDATE`, with the unique `url`. -/
def upsertTask (task : DBDownloadTask) : RepositoryCall SqliteRepository := fun s =>
  if s.tasks.any fun other => decide (other.id ≠ task.id ∧ other.url = task.url) then
    (.error (uniqueViolation "download_tasks.url"), s)
  else
    let row := s.taskRow task
    let change (old : DBDownloadTask) := { row with createdAt := old.createdAt }
    (.ok (), { s with tasks := upsert (·.id) change s.tasks row })

def deleteFromWorkers (taskId : Nat) : RepositoryCall SqliteRepository :=
  .modify fun s => { s with workers := s.workers.filter (·.taskId ≠ taskId) }

def deleteFromPieces (taskId : Nat) : RepositoryCall SqliteRepository :=
  .modify fun s => { s with pieces := s.pieces.filter (·.taskId ≠ taskId) }

def deleteFromBlocks (taskId : Nat) : RepositoryCall SqliteRepository :=
  .modify fun s => { s with blocks := s.blocks.filter (·.taskId ≠ taskId) }

def deleteFromChecksums (taskId : Nat) : RepositoryCall SqliteRepository :=
  .modify fun s => { s with checksums := s.checksums.filter (·.taskId ≠ taskId) }

/-- One `INSERT` after the other; the first one that violates the constraint ends the call. -/
def insertAll [DecidableEq κ] (key : ρ → κ) (columns : String) (rows added : List ρ) :
    Except Error Unit × List ρ :=
  match addAll key rows added with
  | (true, rows) => (.ok (), rows)
  | (false, rows) => (.error (uniqueViolation columns), rows)

def insertWorkers (workers : List DBDownloadWorker) : RepositoryCall SqliteRepository := fun s =>
  let (result, rows) := insertAll DBDownloadWorker.key
    "download_workers.task_id, download_workers.index" s.workers (workers.map s.workerRow)
  (result, { s with workers := rows })

def insertPieces (pieces : List DBDownloadPiece) : RepositoryCall SqliteRepository := fun s =>
  let (result, rows) := insertAll DBDownloadPiece.key
    "download_pieces.task_id, download_pieces.piece_index" s.pieces (pieces.map s.pieceRow)
  (result, { s with pieces := rows })

def insertBlocks (blocks : List DBDownloadBlock) : RepositoryCall SqliteRepository := fun s =>
  let (result, rows) := insertAll DBDownloadBlock.key
    "download_blocks.task_id, download_blocks.piece_index, download_blocks.block_index"
    s.blocks (blocks.map s.blockRow)
  (result, { s with blocks := rows })

def insertChecksums (checksums : List DBDownloadChecksum) : RepositoryCall SqliteRepository := fun s =>
  let (result, rows) := insertAll DBDownloadChecksum.key
    "download_checksums.task_id, download_checksums.algorithm"
    s.checksums (checksums.map s.checksumRow)
  (result, { s with checksums := rows })

end SqliteRepository

open SqliteRepository in
/-- `load_checksums` gives no order. -/
instance : Repository SqliteRepository where
  loadTasks s := sortTasks s.tasks
  saveTask := upsertTask
  deleteTask taskId :=
    (RepositoryCall.modify fun s => { s with tasks := s.tasks.filter (·.id ≠ taskId) }).andThen
      (deleteFromBlocks taskId)
  loadWorkers s taskId := sortWorkers (s.workers.filter (·.taskId = taskId))
  saveWorker worker := .modify fun s =>
    let row := s.workerRow worker
    let change (old : DBDownloadWorker) := { row with id := old.id }
    { s with workers := upsert DBDownloadWorker.key change s.workers row }
  deleteWorkers := deleteFromWorkers
  loadPieces s taskId := sortPieces (s.pieces.filter (·.taskId = taskId))
  savePieces taskId pieces := (deleteFromPieces taskId).andThen (insertPieces pieces)
  deletePieces := deleteFromPieces
  loadBlocks s taskId := sortBlocks (s.blocks.filter (·.taskId = taskId))
  saveBlocks taskId blocks := (deleteFromBlocks taskId).andThen (insertBlocks blocks)
  deleteBlocks := deleteFromBlocks
  loadChecksums s taskId := s.checksums.filter (·.taskId = taskId)
  saveChecksum checksum := .modify fun s =>
    let row := s.checksumRow checksum
    let change (old : DBDownloadChecksum) := { row with id := old.id }
    { s with checksums := upsert DBDownloadChecksum.key change s.checksums row }
  deleteChecksums := deleteFromChecksums
  saveBundle b := RepositoryCall.transaction <|
    (upsertTask b.task).andThen <| (deleteFromWorkers b.task.id).andThen <|
      (insertWorkers b.workers).andThen <| (deleteFromPieces b.task.id).andThen <|
        (insertPieces b.pieces).andThen <| (deleteFromBlocks b.task.id).andThen <|
          (insertBlocks b.blocks).andThen <| (deleteFromChecksums b.task.id).andThen <|
            insertChecksums b.checksums

end Paradown
