import Paradown.Storage

namespace Paradown
set_option autoImplicit true

inductive Table where
  | tasks
  | workers
  | pieces
  | blocks
  | checksums
  deriving DecidableEq, Repr

inductive Row where
  | task (row : DBDownloadTask)
  | worker (row : DBDownloadWorker)
  | piece (row : DBDownloadPiece)
  | block (row : DBDownloadBlock)
  | checksum (row : DBDownloadChecksum)
  deriving DecidableEq, Repr

def Row.table : Row → Table
  | .task _ => .tasks
  | .worker _ => .workers
  | .piece _ => .pieces
  | .block _ => .blocks
  | .checksum _ => .checksums

def Row.taskId : Row → Nat
  | .task row => row.id
  | .worker row => row.taskId
  | .piece row => row.taskId
  | .block row => row.taskId
  | .checksum row => row.taskId

/-- Two rows that cannot stand side by side in their table. -/
def Row.sameKey : Row → Row → Bool
  | .task a, .task b => a.id == b.id
  | .worker a, .worker b => a.taskId == b.taskId && a.index == b.index
  | .piece a, .piece b => a.taskId == b.taskId && a.pieceIndex == b.pieceIndex
  | .block a, .block b =>
    a.taskId == b.taskId && a.pieceIndex == b.pieceIndex && a.blockIndex == b.blockIndex
  | .checksum a, .checksum b => a.taskId == b.taskId && a.algorithm == b.algorithm
  | _, _ => false

/-- The row belongs to the task and stands in the table. -/
def Row.isOf (table : Table) (id : Nat) (row : Row) : Bool := row.table == table && row.taskId == id

def StoredBundle.rows (b : StoredBundle) : List Row :=
  .task b.task :: (b.workers.map .worker ++ b.pieces.map .piece ++ b.blocks.map .block ++
    b.checksums.map .checksum)

/-- What a repository does in one go. -/
inductive Statement where
  | upsert (row : Row)
  | replace (table : Table) (id : Nat) (rows : List Row)
  | saveBundle (id : Nat) (rows : List Row)
  | delete (table : Table) (id : Nat)
  | deleteAll (id : Nat)
  deriving DecidableEq, Repr

def Statement.apply (rows : List Row) : Statement → List Row
  | .upsert row => rows.filter (fun r => !r.sameKey row) ++ [row]
  | .replace table id new => rows.filter (fun r => !r.isOf table id) ++ new
  | .saveBundle id new => rows.filter (fun r => r.taskId != id) ++ new
  | .delete table id => rows.filter (fun r => !r.isOf table id)
  | .deleteAll id => rows.filter (fun r => r.taskId != id)

inductive Backend where
  | memory
  | jsonFile
  | sqlite
  deriving DecidableEq, Repr

/-- `save_bundle`: a transaction, or one table after the other. -/
def Backend.saveBundle (b : StoredBundle) : Backend → List Statement
  | .memory =>
    [.upsert (.task b.task), .delete .workers b.task.id] ++
      b.workers.map (fun w => .upsert (.worker w)) ++
      [.replace .pieces b.task.id (b.pieces.map .piece),
        .replace .blocks b.task.id (b.blocks.map .block), .delete .checksums b.task.id] ++
      b.checksums.map fun c => .upsert (.checksum c)
  | .jsonFile | .sqlite => [.saveBundle b.task.id b.rows]

/-- `Repository::delete_task`. -/
def Backend.deleteTask (id : Nat) : Backend → List Statement
  | .memory => [.delete .tasks id, .delete .workers id, .delete .pieces id, .delete .blocks id,
      .delete .checksums id]
  | .jsonFile => [.deleteAll id]
  | .sqlite => [.delete .tasks id, .delete .blocks id]

/-- `purge_task_workers`, `purge_task_checksums` and `purge_task`, as `delete` calls them. -/
def Backend.purge (id : Nat) (backend : Backend) : List Statement :=
  [.delete .workers id, .delete .checksums id] ++ backend.deleteTask id ++
    [.delete .pieces id, .delete .blocks id, .delete .workers id]

/-- `load_task_bundles`, which restoring starts from. -/
def loadTaskBundles (rows : List Row) : List StoredBundle :=
  rows.filterMap fun
    | .task t => some
      { task := t
        workers := rows.filterMap fun
          | .worker w => if w.taskId = t.id then some w else none
          | _ => none
        pieces := rows.filterMap fun
          | .piece p => if p.taskId = t.id then some p else none
          | _ => none
        blocks := rows.filterMap fun
          | .block b => if b.taskId = t.id then some b else none
          | _ => none
        checksums := rows.filterMap fun
          | .checksum c => if c.taskId = t.id then some c else none
          | _ => none }
    | _ => none

/-- Rows of the task that a statement puts into the table. -/
def Statement.writes (table : Table) (id : Nat) : Statement → Bool
  | .upsert row => row.isOf table id
  | .replace _ _ rows | .saveBundle _ rows => rows.any (·.isOf table id)
  | .delete _ _ | .deleteAll _ => false

/-- After the statement the table has no row of the task. -/
def Statement.purges (table : Table) (id : Nat) : Statement → Bool
  | .delete table' id' => table' == table && id' == id
  | .deleteAll id' => id' == id
  | _ => false

/-- The table has no row of the task. -/
def NoRows (table : Table) (id : Nat) (rows : List Row) : Prop :=
  ∀ row ∈ rows, row.isOf table id = false

instance {id : Nat} : Decidable (NoRows table id rows) := inferInstanceAs (Decidable (∀ _ ∈ _, _))

section
variable {table : Table} {id : Nat} {rows : List Row} {s : Statement}

theorem NoRows.filter (h : NoRows table id rows) (p : Row → Bool) :
    NoRows table id (rows.filter p) := fun row hr => h row (List.mem_filter.1 hr).1

theorem NoRows.append (h : NoRows table id rows) (h' : NoRows table id more) :
    NoRows table id (rows ++ more) := by
  intro row hr
  rcases List.mem_append.1 hr with hr | hr
  · exact h row hr
  · exact h' row hr

theorem noRows_of_any (h : rows.any (·.isOf table id) = false) : NoRows table id rows := by
  intro row hr
  simpa using List.any_eq_false.1 h row hr

theorem Statement.apply_noRows (h : NoRows table id rows) (hs : s.writes table id = false) :
    NoRows table id (s.apply rows) := by
  cases s with
  | upsert row =>
    refine (h.filter _).append fun r hr => ?_
    cases List.mem_singleton.1 hr
    exact hs
  | replace table' id' new => exact (h.filter _).append (noRows_of_any hs)
  | saveBundle id' new => exact (h.filter _).append (noRows_of_any hs)
  | delete table' id' => exact h.filter _
  | deleteAll id' => exact h.filter _

theorem Statement.apply_purges (hs : s.purges table id = true) : NoRows table id (s.apply rows) := by
  cases s with
  | delete table' id' =>
    simp only [Statement.purges, Bool.and_eq_true, beq_iff_eq] at hs
    obtain ⟨rfl, rfl⟩ := hs
    intro row hr
    simpa using (List.mem_filter.1 hr).2
  | deleteAll id' =>
    simp only [Statement.purges, beq_iff_eq] at hs
    subst hs
    intro row hr
    have hne : row.taskId ≠ id' := by simpa using (List.mem_filter.1 hr).2
    rw [Row.isOf, beq_eq_false_iff_ne.2 hne, Bool.and_false]
  | upsert row | replace table' id' new | saveBundle id' new => cases hs

/-- Without its row a task is not restored. -/
theorem loadTaskBundles_noRows (h : NoRows .tasks id rows) :
    ∀ b ∈ loadTaskBundles rows, b.task.id ≠ id := by
  intro b hb
  obtain ⟨row, hr, he⟩ := List.mem_filterMap.1 hb
  have hrow := h row hr
  cases row with
  | task t =>
    cases he
    simpa [Row.isOf, Row.table, Row.taskId] using hrow
  | worker _ | piece _ | block _ | checksum _ => cases he

end

theorem Backend.purge_purges (backend : Backend) (table : Table) (id : Nat) :
    (backend.purge id).any (·.purges table id) = true := by
  cases backend <;> cases table <;> simp [purge, deleteTask, Statement.purges]

end Paradown
