import Paradown.Backends
import Paradown.Transition

namespace Paradown
set_option autoImplicit true

open Keyed

/-- The rows as they are compared: without dates that a default may fill, and without surrogate
ids. -/
def DBDownloadTask.view (t : DBDownloadTask) : DBDownloadTask :=
  { t with createdAt := none, updatedAt := none }

def DBDownloadWorker.view (w : DBDownloadWorker) : DBDownloadWorker :=
  { w with id := 0, updatedAt := none }

def DBDownloadPiece.view (p : DBDownloadPiece) : DBDownloadPiece := { p with updatedAt := none }

def DBDownloadBlock.view (b : DBDownloadBlock) : DBDownloadBlock := { b with updatedAt := none }

def DBDownloadChecksum.view (c : DBDownloadChecksum) : DBDownloadChecksum := { c with id := 0 }

/-- What a repository is for: sets of rows. -/
structure RepositoryView where
  tasks : Set DBDownloadTask
  workers : Set DBDownloadWorker
  pieces : Set DBDownloadPiece
  blocks : Set DBDownloadBlock
  checksums : Set DBDownloadChecksum

/-- The effect of an operation on the sets. -/
def RepositoryView.apply (v : RepositoryView) : RepositoryOp → RepositoryView
  | .saveTask task => { v with tasks := saved (·.id) task.view v.tasks }
  | .deleteTask taskId =>
    { tasks := {y | y ∈ v.tasks ∧ decide (y.id ≠ taskId) = true}
      workers := {y | y ∈ v.workers ∧ decide (y.taskId ≠ taskId) = true}
      pieces := {y | y ∈ v.pieces ∧ decide (y.taskId ≠ taskId) = true}
      blocks := {y | y ∈ v.blocks ∧ decide (y.taskId ≠ taskId) = true}
      checksums := {y | y ∈ v.checksums ∧ decide (y.taskId ≠ taskId) = true} }
  | .saveBundle b =>
    { tasks := saved (·.id) b.task.view v.tasks
      workers := replaced DBDownloadWorker.view (·.taskId ≠ b.task.id) b.workers v.workers
      pieces := replaced DBDownloadPiece.view (·.taskId ≠ b.task.id) b.pieces v.pieces
      blocks := replaced DBDownloadBlock.view (·.taskId ≠ b.task.id) b.blocks v.blocks
      checksums :=
        replaced DBDownloadChecksum.view (·.taskId ≠ b.task.id) b.checksums v.checksums }
  | .saveWorker worker =>
    { v with workers := saved DBDownloadWorker.key worker.view v.workers }
  | .deleteWorkers taskId =>
    { v with workers := {y | y ∈ v.workers ∧ decide (y.taskId ≠ taskId) = true} }
  | .savePieces taskId pieces =>
    { v with pieces := replaced DBDownloadPiece.view (·.taskId ≠ taskId) pieces v.pieces }
  | .deletePieces taskId =>
    { v with pieces := {y | y ∈ v.pieces ∧ decide (y.taskId ≠ taskId) = true} }
  | .saveBlocks taskId blocks =>
    { v with blocks := replaced DBDownloadBlock.view (·.taskId ≠ taskId) blocks v.blocks }
  | .deleteBlocks taskId =>
    { v with blocks := {y | y ∈ v.blocks ∧ decide (y.taskId ≠ taskId) = true} }
  | .saveChecksum checksum =>
    { v with checksums := saved DBDownloadChecksum.key checksum.view v.checksums }
  | .deleteChecksums taskId =>
    { v with checksums := {y | y ∈ v.checksums ∧ decide (y.taskId ≠ taskId) = true} }

/-- The tables stand for the sets. -/
structure JsonRepositoryState.Shows (s : JsonRepositoryState) (v : RepositoryView) : Prop where
  tasks : Represents DBDownloadTask.id DBDownloadTask.view s.tasks v.tasks
  workers : Represents DBDownloadWorker.key DBDownloadWorker.view s.workers v.workers
  pieces : Represents DBDownloadPiece.key DBDownloadPiece.view s.pieces v.pieces
  blocks : Represents DBDownloadBlock.key DBDownloadBlock.view s.blocks v.blocks
  checksums : Represents DBDownloadChecksum.key DBDownloadChecksum.view s.checksums v.checksums

/-- The rows carry the id of the task they are saved for. -/
def RepositoryOp.Carries : RepositoryOp → Prop
  | .saveBundle b =>
    (∀ w ∈ b.workers, w.taskId = b.task.id) ∧ (∀ p ∈ b.pieces, p.taskId = b.task.id) ∧
      (∀ b' ∈ b.blocks, b'.taskId = b.task.id) ∧ ∀ c ∈ b.checksums, c.taskId = b.task.id
  | .savePieces taskId pieces => ∀ p ∈ pieces, p.taskId = taskId
  | .saveBlocks taskId blocks => ∀ b ∈ blocks, b.taskId = taskId
  | _ => True

/-- No two rows that are saved together have the same key. -/
def RepositoryOp.KeysDiffer : RepositoryOp → Prop
  | .saveBundle b =>
    (b.workers.map DBDownloadWorker.key).Nodup ∧ (b.pieces.map DBDownloadPiece.key).Nodup ∧
      (b.blocks.map DBDownloadBlock.key).Nodup ∧ (b.checksums.map DBDownloadChecksum.key).Nodup
  | .savePieces _ pieces => (pieces.map DBDownloadPiece.key).Nodup
  | .saveBlocks _ blocks => (blocks.map DBDownloadBlock.key).Nodup
  | _ => True

def RepositoryOp.savedTask : RepositoryOp → Option DBDownloadTask
  | .saveTask task => some task
  | .saveBundle b => some b.task
  | _ => none

/-- A task is deleted only when it has no worker, no piece and no checksum left. -/
def RepositoryOp.LeavesNothing (s : JsonRepositoryState) : RepositoryOp → Prop
  | .deleteTask taskId =>
    (∀ w ∈ s.workers, w.taskId ≠ taskId) ∧ (∀ p ∈ s.pieces, p.taskId ≠ taskId) ∧
      ∀ c ∈ s.checksums, c.taskId ≠ taskId
  | _ => True

theorem JsonRepositoryState.Shows.apply {s : JsonRepositoryState} (h : s.Shows v)
    (hc : op.Carries) (hk : op.KeysDiffer) : (s.apply op).Shows (v.apply op) := by
  cases op with
  | saveTask task => exact { h with tasks := h.tasks.save (fun _ => rfl) task }
  | deleteTask taskId =>
    constructor
    case tasks => exact h.tasks.filter fun _ => rfl
    case workers => exact h.workers.filter fun _ => rfl
    case pieces => exact h.pieces.filter fun _ => rfl
    case blocks => exact h.blocks.filter fun _ => rfl
    case checksums => exact h.checksums.filter fun _ => rfl
  | saveBundle b =>
    obtain ⟨hw, hp, hb, hs⟩ := hc
    obtain ⟨kw, kp, kb, ks⟩ := hk
    constructor
    case tasks => exact h.tasks.save (fun _ => rfl) b.task
    case workers => exact h.workers.regroup (fun _ => rfl) (fun _ _ he => congrArg Prod.fst he) kw hw
    case pieces => exact h.pieces.regroup (fun _ => rfl) (fun _ _ he => congrArg Prod.fst he) kp hp
    case blocks => exact h.blocks.regroup (fun _ => rfl) (fun _ _ he => congrArg Prod.fst he) kb hb
    case checksums => exact h.checksums.regroup (fun _ => rfl) (fun _ _ he => congrArg Prod.fst he) ks hs
  | saveWorker worker => exact { h with workers := h.workers.save (fun _ => rfl) worker }
  | deleteWorkers taskId => exact { h with workers := h.workers.filter fun _ => rfl }
  | savePieces taskId pieces =>
    exact { h with pieces := h.pieces.regroup (fun _ => rfl) (fun _ _ he => congrArg Prod.fst he) hk hc }
  | deletePieces taskId => exact { h with pieces := h.pieces.filter fun _ => rfl }
  | saveBlocks taskId blocks =>
    exact { h with blocks := h.blocks.regroup (fun _ => rfl) (fun _ _ he => congrArg Prod.fst he) hk hc }
  | deleteBlocks taskId => exact { h with blocks := h.blocks.filter fun _ => rfl }
  | saveChecksum checksum => exact { h with checksums := h.checksums.save (fun _ => rfl) checksum }
  | deleteChecksums taskId => exact { h with checksums := h.checksums.filter fun _ => rfl }

theorem RepositoryCall.andThen_ok {f g : RepositoryCall σ} (h : f s = (.ok (), s')) :
    f.andThen g s = g s' := by
  rw [RepositoryCall.andThen, h]

theorem RepositoryCall.transaction_ok {f : RepositoryCall σ} (h : f s = (.ok (), s')) :
    f.transaction s = (.ok (), s') := by
  rw [RepositoryCall.transaction, h]

/-- The call returns an error. -/
def RepositoryCall.Fails (f : RepositoryCall σ) (s : σ) : Prop := ∃ err s', f s = (.error err, s')

theorem RepositoryCall.Fails.first {f g : RepositoryCall σ} (h : f.Fails s) :
    (f.andThen g).Fails s := by
  obtain ⟨err, s', h⟩ := h
  exact ⟨err, s', by rw [RepositoryCall.andThen, h]⟩

theorem RepositoryCall.Fails.second {f g : RepositoryCall σ} (hf : f s = (.ok (), s'))
    (h : g.Fails s') : (f.andThen g).Fails s := by
  obtain ⟨err, t, h⟩ := h
  exact ⟨err, t, (RepositoryCall.andThen_ok hf).trans h⟩

theorem RepositoryCall.Fails.modify {f : σ → σ} {g : RepositoryCall σ} (h : g.Fails (f s)) :
    ((RepositoryCall.modify f).andThen g).Fails s := h

theorem RepositoryCall.Fails.transaction {f : RepositoryCall σ} (h : f.Fails s) :
    f.transaction.Fails s := by
  obtain ⟨err, s', h⟩ := h
  exact ⟨err, s, by rw [RepositoryCall.transaction, h]⟩

namespace MemoryRepository

def state (s : MemoryRepository) : JsonRepositoryState :=
  ⟨values s.tasks, values s.workers, values s.pieces, values s.blocks, values s.checksums⟩

/-- Every row is filed under its own key. -/
structure Filed (s : MemoryRepository) : Prop where
  tasks : Keyed.Filed DBDownloadTask.id s.tasks
  workers : Keyed.Filed DBDownloadWorker.key s.workers
  pieces : Keyed.Filed DBDownloadPiece.key s.pieces
  blocks : Keyed.Filed DBDownloadBlock.key s.blocks
  checksums : Keyed.Filed DBDownloadChecksum.key s.checksums

def storedWorker (w : DBDownloadWorker) : DBDownloadWorker :=
  { w with id := workerStorageId w.taskId w.index }

def storedChecksum (c : DBDownloadChecksum) : DBDownloadChecksum :=
  { c with id := checksumStorageId c.taskId c.algorithm }

theorem forEach_saveWorker (workers : List DBDownloadWorker) (s : MemoryRepository) :
    RepositoryCall.forEach Repository.saveWorker workers s =
      (.ok (), { s with
        workers := workers.foldl (fun m w => Keyed.insert m w.key (storedWorker w)) s.workers }) := by
  induction workers generalizing s with
  | nil => rfl
  | cons w rest ih => exact ih _

theorem forEach_saveChecksum (checksums : List DBDownloadChecksum) (s : MemoryRepository) :
    RepositoryCall.forEach Repository.saveChecksum checksums s =
      (.ok (), { s with
        checksums := checksums.foldl (fun m c => Keyed.insert m c.key (storedChecksum c))
          s.checksums }) := by
  induction checksums generalizing s with
  | nil => rfl
  | cons c rest ih => exact ih _

/-- What the default `save_bundle` comes to. -/
theorem saveBundle_eq (b : StoredBundle) (s : MemoryRepository) :
    Repository.saveBundle b s =
      (.ok (),
        { tasks := Keyed.insert s.tasks b.task.id b.task
          workers := b.workers.foldl (fun m w => Keyed.insert m w.key (storedWorker w))
            (s.workers.filter (·.2.taskId ≠ b.task.id))
          pieces := b.pieces.foldl (fun m p => Keyed.insert m (b.task.id, p.pieceIndex) p)
            (s.pieces.filter (·.1.1 ≠ b.task.id))
          blocks := b.blocks.foldl
            (fun m p => Keyed.insert m (b.task.id, p.pieceIndex, p.blockIndex) p)
            (s.blocks.filter (·.1.1 ≠ b.task.id))
          checksums := b.checksums.foldl (fun m c => Keyed.insert m c.key (storedChecksum c))
            (s.checksums.filter (·.2.taskId ≠ b.task.id)) }) := by
  apply (RepositoryCall.andThen_ok rfl).trans
  apply (RepositoryCall.andThen_ok rfl).trans
  apply (RepositoryCall.andThen_ok (forEach_saveWorker _ _)).trans
  apply (RepositoryCall.andThen_ok rfl).trans
  apply (RepositoryCall.andThen_ok rfl).trans
  apply (RepositoryCall.andThen_ok rfl).trans
  exact forEach_saveChecksum _ _

theorem perform_ok (op : RepositoryOp) (s : MemoryRepository) : (op.perform s).1 = .ok () := by
  cases op with
  | saveBundle b => exact congrArg Prod.fst (saveBundle_eq b s)
  | _ => rfl

section
variable {s : MemoryRepository} {v : RepositoryView} {taskId : Nat}

theorem workers_regroup (h : s.Filed) (hs : s.state.Shows v) {workers : List DBDownloadWorker}
    (hk : (workers.map DBDownloadWorker.key).Nodup) (hc : ∀ w ∈ workers, w.taskId = taskId) :
    let stored := workers.foldl (fun m w => Keyed.insert m w.key (storedWorker w))
      (s.workers.filter (·.2.taskId ≠ taskId))
    Keyed.Filed DBDownloadWorker.key stored ∧
      Represents DBDownloadWorker.key DBDownloadWorker.view (values stored)
        (replaced DBDownloadWorker.view (·.taskId ≠ taskId) workers v.workers) :=
  h.workers.regroup hs.workers (fun _ => rfl) (fun _ _ he => congrArg Prod.fst he) (fun _ _ => rfl)
    (fun _ => ⟨rfl, rfl⟩) (fun _ _ => rfl) hk hc

theorem pieces_regroup (h : s.Filed) (hs : s.state.Shows v) {pieces : List DBDownloadPiece}
    (hk : (pieces.map DBDownloadPiece.key).Nodup) (hc : ∀ p ∈ pieces, p.taskId = taskId) :
    let stored := pieces.foldl (fun m p => Keyed.insert m (taskId, p.pieceIndex) p)
      (s.pieces.filter (·.1.1 ≠ taskId))
    Keyed.Filed DBDownloadPiece.key stored ∧
      Represents DBDownloadPiece.key DBDownloadPiece.view (values stored)
        (replaced DBDownloadPiece.view (·.taskId ≠ taskId) pieces v.pieces) :=
  h.pieces.regroup hs.pieces (fun _ => rfl) (fun _ _ he => congrArg Prod.fst he)
    (fun e he => by rw [h.pieces e he]; rfl) (fun _ => ⟨rfl, rfl⟩)
    (fun p hp => by rw [← hc p hp]; rfl) hk hc

theorem blocks_regroup (h : s.Filed) (hs : s.state.Shows v) {blocks : List DBDownloadBlock}
    (hk : (blocks.map DBDownloadBlock.key).Nodup) (hc : ∀ b ∈ blocks, b.taskId = taskId) :
    let stored := blocks.foldl (fun m b => Keyed.insert m (taskId, b.pieceIndex, b.blockIndex) b)
      (s.blocks.filter (·.1.1 ≠ taskId))
    Keyed.Filed DBDownloadBlock.key stored ∧
      Represents DBDownloadBlock.key DBDownloadBlock.view (values stored)
        (replaced DBDownloadBlock.view (·.taskId ≠ taskId) blocks v.blocks) :=
  h.blocks.regroup hs.blocks (fun _ => rfl) (fun _ _ he => congrArg Prod.fst he)
    (fun e he => by rw [h.blocks e he]; rfl) (fun _ => ⟨rfl, rfl⟩)
    (fun b hb => by rw [← hc b hb]; rfl) hk hc

theorem checksums_regroup (h : s.Filed) (hs : s.state.Shows v)
    {checksums : List DBDownloadChecksum} (hk : (checksums.map DBDownloadChecksum.key).Nodup)
    (hc : ∀ c ∈ checksums, c.taskId = taskId) :
    let stored := checksums.foldl (fun m c => Keyed.insert m c.key (storedChecksum c))
      (s.checksums.filter (·.2.taskId ≠ taskId))
    Keyed.Filed DBDownloadChecksum.key stored ∧
      Represents DBDownloadChecksum.key DBDownloadChecksum.view (values stored)
        (replaced DBDownloadChecksum.view (·.taskId ≠ taskId) checksums v.checksums) :=
  h.checksums.regroup hs.checksums (fun _ => rfl) (fun _ _ he => congrArg Prod.fst he)
    (fun _ _ => rfl) (fun _ => ⟨rfl, rfl⟩) (fun _ _ => rfl) hk hc

end

theorem Filed.perform {s : MemoryRepository} {v : RepositoryView} {op : RepositoryOp} (h : s.Filed)
    (hs : s.state.Shows v) (hc : op.Carries) (hk : op.KeysDiffer) :
    (op.perform s).2.Filed ∧ (op.perform s).2.state.Shows (v.apply op) := by
  cases op with
  | saveTask task =>
    obtain ⟨hfiled, hrows⟩ := h.tasks.save hs.tasks (fun _ => rfl) task
    exact ⟨{ h with tasks := hfiled }, { hs with tasks := hrows }⟩
  | deleteTask taskId =>
    obtain ⟨ft, rt⟩ := h.tasks.keep hs.tasks (p := fun r => r.id ≠ taskId)
      (fun e he => congrArg (fun k => decide (k ≠ taskId)) (h.tasks e he)) fun _ => rfl
    obtain ⟨fw, rk⟩ := h.workers.keep hs.workers (p := fun r => r.taskId ≠ taskId)
      (fun _ _ => rfl) fun _ => rfl
    obtain ⟨fp, rp⟩ := h.pieces.keep hs.pieces (p := fun r => r.taskId ≠ taskId)
      (fun _ _ => rfl) fun _ => rfl
    obtain ⟨fb, rb⟩ := h.blocks.keep hs.blocks (p := fun r => r.taskId ≠ taskId)
      (fun _ _ => rfl) fun _ => rfl
    obtain ⟨fc, rc⟩ := h.checksums.keep hs.checksums (p := fun r => r.taskId ≠ taskId)
      (fun _ _ => rfl) fun _ => rfl
    exact ⟨⟨ft, fw, fp, fb, fc⟩, ⟨rt, rk, rp, rb, rc⟩⟩
  | saveBundle b =>
    obtain ⟨hw, hp, hb, hsums⟩ := hc
    obtain ⟨kw, kp, kb, ksums⟩ := hk
    obtain ⟨ft, rt⟩ := h.tasks.save hs.tasks (fun _ => rfl) b.task
    obtain ⟨fw, rk⟩ := workers_regroup h hs kw hw
    obtain ⟨fp, rp⟩ := pieces_regroup h hs kp hp
    obtain ⟨fb, rb⟩ := blocks_regroup h hs kb hb
    obtain ⟨fc, rc⟩ := checksums_regroup h hs ksums hsums
    rw [RepositoryOp.perform, saveBundle_eq]
    exact ⟨⟨ft, fw, fp, fb, fc⟩, ⟨rt, rk, rp, rb, rc⟩⟩
  | saveWorker worker =>
    obtain ⟨hfiled, hrows⟩ := h.workers.save hs.workers (fun _ => rfl) (storedWorker worker)
    exact ⟨{ h with workers := hfiled }, { hs with workers := hrows }⟩
  | deleteWorkers taskId =>
    obtain ⟨hfiled, hrows⟩ := h.workers.keep hs.workers (p := fun r => r.taskId ≠ taskId)
      (fun _ _ => rfl) fun _ => rfl
    exact ⟨{ h with workers := hfiled }, { hs with workers := hrows }⟩
  | savePieces taskId pieces =>
    obtain ⟨hfiled, hrows⟩ := pieces_regroup h hs hk hc
    exact ⟨{ h with pieces := hfiled }, { hs with pieces := hrows }⟩
  | deletePieces taskId =>
    obtain ⟨hfiled, hrows⟩ := h.pieces.keep hs.pieces (p := fun r => r.taskId ≠ taskId)
      (fun _ _ => rfl) fun _ => rfl
    exact ⟨{ h with pieces := hfiled }, { hs with pieces := hrows }⟩
  | saveBlocks taskId blocks =>
    obtain ⟨hfiled, hrows⟩ := blocks_regroup h hs hk hc
    exact ⟨{ h with blocks := hfiled }, { hs with blocks := hrows }⟩
  | deleteBlocks taskId =>
    obtain ⟨hfiled, hrows⟩ := h.blocks.keep hs.blocks (p := fun r => r.taskId ≠ taskId)
      (fun _ _ => rfl) fun _ => rfl
    exact ⟨{ h with blocks := hfiled }, { hs with blocks := hrows }⟩
  | saveChecksum checksum =>
    obtain ⟨hfiled, hrows⟩ := h.checksums.save hs.checksums (fun _ => rfl) (storedChecksum checksum)
    exact ⟨{ h with checksums := hfiled }, { hs with checksums := hrows }⟩
  | deleteChecksums taskId =>
    obtain ⟨hfiled, hrows⟩ := h.checksums.keep hs.checksums (p := fun r => r.taskId ≠ taskId)
      (fun _ _ => rfl) fun _ => rfl
    exact ⟨{ h with checksums := hfiled }, { hs with checksums := hrows }⟩

end MemoryRepository

namespace SqliteRepository

def state (s : SqliteRepository) : JsonRepositoryState :=
  ⟨s.tasks, s.workers, s.pieces, s.blocks, s.checksums⟩

section
variable [DecidableEq κ] {key : ρ → κ} {view stamp : ρ → ρ} {task : ρ → Nat}
  {rows added : List ρ} {shown : Set ρ} {taskId : Nat}

theorem insertAll_ok (h : Represents key view rows shown) (hv : ∀ r, task (view r) = task r)
    (hkey : ∀ a b, key a = key b → task a = task b)
    (hs : ∀ r, key (stamp r) = key r ∧ view (stamp r) = view r) (hk : (added.map key).Nodup)
    (hc : ∀ a ∈ added, task a = taskId) :
    (∀ columns, insertAll key columns (rows.filter (fun r => task r ≠ taskId))
        (added.map stamp) =
      (.ok (), rows.filter (fun r => task r ≠ taskId) ++ added.map stamp)) ∧
      Represents key view (rows.filter (fun r => task r ≠ taskId) ++ added.map stamp)
        (replaced view (fun r => task r ≠ taskId) added shown) := by
  have hkeys : ((added.map stamp).map key).Nodup := by
    rw [List.map_map, show key ∘ stamp = key from funext fun r => (hs r).1]
    exact hk
  have hcarry : ∀ a ∈ added.map stamp, task a = taskId := by
    intro a ha
    obtain ⟨b, hb, rfl⟩ := List.mem_map.1 ha
    exact (hkey _ _ (hs b).1).trans (hc b hb)
  have hnew : ∀ r ∈ rows.filter (fun r => task r ≠ taskId), ∀ a ∈ added.map stamp,
      key r ≠ key a := by
    intro r hr a ha he
    exact of_decide_eq_true (List.mem_filter.1 hr).2 ((hkey r a he).trans (hcarry a ha))
  constructor
  · intro columns
    have hadd := (addAll_iff _ _).2 ⟨hkeys, hnew⟩
    rw [insertAll, ← addAll_rows hadd]
    split <;> simp_all
  · rw [← replaced_map fun r => (hs r).2]
    exact h.regroup hv hkey hkeys hcarry

theorem insertAll_error (rows : List ρ) (hs : ∀ r, key (stamp r) = key r)
    (hk : ¬ (added.map key).Nodup) :
    ∃ rows', ∀ columns, insertAll key columns rows (added.map stamp) =
      (.error (uniqueViolation columns), rows') := by
  refine ⟨(addAll key rows (added.map stamp)).2, fun columns => ?_⟩
  have hadd : ¬ (addAll key rows (added.map stamp)).1 = true := by
    rw [addAll_iff, List.map_map, show key ∘ stamp = key from funext hs]
    exact fun h => hk h.1
  rw [insertAll]
  split <;> simp_all

end

section
variable {s : SqliteRepository} {taskId : Nat}

theorem insertWorkers_ok {workers : List DBDownloadWorker} {shown : Set DBDownloadWorker}
    (h : Represents DBDownloadWorker.key DBDownloadWorker.view s.workers shown)
    (hk : (workers.map DBDownloadWorker.key).Nodup) (hc : ∀ w ∈ workers, w.taskId = taskId) :
    insertWorkers workers { s with workers := s.workers.filter (·.taskId ≠ taskId) } =
        (.ok (), { s with
          workers := s.workers.filter (·.taskId ≠ taskId) ++ workers.map s.workerRow }) ∧
      Represents DBDownloadWorker.key DBDownloadWorker.view
        (s.workers.filter (·.taskId ≠ taskId) ++ workers.map s.workerRow)
        (replaced DBDownloadWorker.view (·.taskId ≠ taskId) workers shown) := by
  obtain ⟨hinsert, hrows⟩ := insertAll_ok h (fun _ => rfl) (fun _ _ he => congrArg Prod.fst he)
    (fun w => (⟨rfl, rfl⟩ : (s.workerRow w).key = w.key ∧ (s.workerRow w).view = w.view)) hk hc
  exact ⟨congrArg (fun r => (r.1, { s with workers := r.2 })) (hinsert _), hrows⟩

theorem insertWorkers_error {workers : List DBDownloadWorker} (s : SqliteRepository)
    (hk : ¬ (workers.map DBDownloadWorker.key).Nodup) :
    (insertWorkers workers).Fails s := by
  obtain ⟨rows, hrows⟩ := insertAll_error s.workers
    (fun w => (rfl : (s.workerRow w).key = w.key)) hk
  exact ⟨_, { s with workers := rows }, congrArg (fun r => (r.1, { s with workers := r.2 })) (hrows _)⟩

theorem insertPieces_ok {pieces : List DBDownloadPiece} {shown : Set DBDownloadPiece}
    (h : Represents DBDownloadPiece.key DBDownloadPiece.view s.pieces shown)
    (hk : (pieces.map DBDownloadPiece.key).Nodup) (hc : ∀ p ∈ pieces, p.taskId = taskId) :
    insertPieces pieces { s with pieces := s.pieces.filter (·.taskId ≠ taskId) } =
        (.ok (), { s with
          pieces := s.pieces.filter (·.taskId ≠ taskId) ++ pieces.map s.pieceRow }) ∧
      Represents DBDownloadPiece.key DBDownloadPiece.view
        (s.pieces.filter (·.taskId ≠ taskId) ++ pieces.map s.pieceRow)
        (replaced DBDownloadPiece.view (·.taskId ≠ taskId) pieces shown) := by
  obtain ⟨hinsert, hrows⟩ := insertAll_ok h (fun _ => rfl) (fun _ _ he => congrArg Prod.fst he)
    (fun p => (⟨rfl, rfl⟩ : (s.pieceRow p).key = p.key ∧ (s.pieceRow p).view = p.view)) hk hc
  exact ⟨congrArg (fun r => (r.1, { s with pieces := r.2 })) (hinsert _), hrows⟩

theorem insertPieces_error {pieces : List DBDownloadPiece} (s : SqliteRepository)
    (hk : ¬ (pieces.map DBDownloadPiece.key).Nodup) :
    (insertPieces pieces).Fails s := by
  obtain ⟨rows, hrows⟩ := insertAll_error s.pieces
    (fun p => (rfl : (s.pieceRow p).key = p.key)) hk
  exact ⟨_, { s with pieces := rows }, congrArg (fun r => (r.1, { s with pieces := r.2 })) (hrows _)⟩

theorem insertBlocks_ok {blocks : List DBDownloadBlock} {shown : Set DBDownloadBlock}
    (h : Represents DBDownloadBlock.key DBDownloadBlock.view s.blocks shown)
    (hk : (blocks.map DBDownloadBlock.key).Nodup) (hc : ∀ b ∈ blocks, b.taskId = taskId) :
    insertBlocks blocks { s with blocks := s.blocks.filter (·.taskId ≠ taskId) } =
        (.ok (), { s with
          blocks := s.blocks.filter (·.taskId ≠ taskId) ++ blocks.map s.blockRow }) ∧
      Represents DBDownloadBlock.key DBDownloadBlock.view
        (s.blocks.filter (·.taskId ≠ taskId) ++ blocks.map s.blockRow)
        (replaced DBDownloadBlock.view (·.taskId ≠ taskId) blocks shown) := by
  obtain ⟨hinsert, hrows⟩ := insertAll_ok h (fun _ => rfl) (fun _ _ he => congrArg Prod.fst he)
    (fun b => (⟨rfl, rfl⟩ : (s.blockRow b).key = b.key ∧ (s.blockRow b).view = b.view)) hk hc
  exact ⟨congrArg (fun r => (r.1, { s with blocks := r.2 })) (hinsert _), hrows⟩

theorem insertBlocks_error {blocks : List DBDownloadBlock} (s : SqliteRepository)
    (hk : ¬ (blocks.map DBDownloadBlock.key).Nodup) :
    (insertBlocks blocks).Fails s := by
  obtain ⟨rows, hrows⟩ := insertAll_error s.blocks
    (fun b => (rfl : (s.blockRow b).key = b.key)) hk
  exact ⟨_, { s with blocks := rows }, congrArg (fun r => (r.1, { s with blocks := r.2 })) (hrows _)⟩

theorem insertChecksums_ok {checksums : List DBDownloadChecksum} {shown : Set DBDownloadChecksum}
    (h : Represents DBDownloadChecksum.key DBDownloadChecksum.view s.checksums shown)
    (hk : (checksums.map DBDownloadChecksum.key).Nodup) (hc : ∀ c ∈ checksums, c.taskId = taskId) :
    insertChecksums checksums { s with checksums := s.checksums.filter (·.taskId ≠ taskId) } =
        (.ok (), { s with
          checksums := s.checksums.filter (·.taskId ≠ taskId) ++ checksums.map s.checksumRow }) ∧
      Represents DBDownloadChecksum.key DBDownloadChecksum.view
        (s.checksums.filter (·.taskId ≠ taskId) ++ checksums.map s.checksumRow)
        (replaced DBDownloadChecksum.view (·.taskId ≠ taskId) checksums shown) := by
  obtain ⟨hinsert, hrows⟩ := insertAll_ok h (fun _ => rfl) (fun _ _ he => congrArg Prod.fst he)
    (fun c => (⟨rfl, rfl⟩ : (s.checksumRow c).key = c.key ∧ (s.checksumRow c).view = c.view)) hk hc
  exact ⟨congrArg (fun r => (r.1, { s with checksums := r.2 })) (hinsert _), hrows⟩

theorem insertChecksums_error {checksums : List DBDownloadChecksum} (s : SqliteRepository)
    (hk : ¬ (checksums.map DBDownloadChecksum.key).Nodup) :
    (insertChecksums checksums).Fails s := by
  obtain ⟨rows, hrows⟩ := insertAll_error s.checksums
    (fun c => (rfl : (s.checksumRow c).key = c.key)) hk
  exact ⟨_, { s with checksums := rows }, congrArg (fun r => (r.1, { s with checksums := r.2 })) (hrows _)⟩

/-- Each url belongs to the task that `owner` says. -/
def UrlsOwned (owner : String → Nat) (s : SqliteRepository) : Prop :=
  ∀ t ∈ s.tasks, owner t.url = t.id

theorem upsertTask_ok {task : DBDownloadTask} {shown : Set DBDownloadTask}
    (h : Represents DBDownloadTask.id DBDownloadTask.view s.tasks shown)
    (hu : s.UrlsOwned owner) (ht : owner task.url = task.id) :
    ∃ tasks, upsertTask task s = (.ok (), { s with tasks }) ∧
      Represents DBDownloadTask.id DBDownloadTask.view tasks
        (saved DBDownloadTask.id task.view shown) ∧
      UrlsOwned owner { s with tasks } := by
  have hfree : ¬ (s.tasks.any fun other =>
      decide (other.id ≠ task.id ∧ other.url = task.url)) = true := by
    intro hany
    obtain ⟨other, hother, hclash⟩ := List.any_eq_true.1 hany
    obtain ⟨hne, he⟩ := of_decide_eq_true hclash
    rw [← hu other hother, he, ht] at hne
    exact hne rfl
  refine ⟨_, if_neg hfree, ?_, ?_⟩
  · exact h.upsert (fun _ => rfl) fun _ _ _ => ⟨rfl, rfl⟩
  · intro t hmem
    have hmem : t ∈ upsert DBDownloadTask.id
        (fun old => { s.taskRow task with createdAt := old.createdAt }) s.tasks
        (s.taskRow task) := hmem
    unfold upsert at hmem
    split at hmem
    · obtain ⟨old, hold, rfl⟩ := List.mem_map.1 hmem
      split
      · exact ht
      · exact hu old hold
    · rcases List.mem_append.1 hmem with hmem | hmem
      · exact hu t hmem
      · rw [List.mem_singleton.1 hmem]
        exact ht

end

theorem represents_unchanged {task : ρ → Nat} {key : ρ → κ} {view : ρ → ρ} {rows : List ρ}
    {shown : Set ρ} (h : Represents key view rows shown) (hv : ∀ r, task (view r) = task r)
    (hnone : ∀ r ∈ rows, task r ≠ taskId) :
    Represents key view rows {y | y ∈ shown ∧ decide (task y ≠ taskId) = true} := by
  have hrows := h.filter (p := fun r => task r ≠ taskId) fun r => by rw [hv]
  rw [List.filter_eq_self.2 fun r hr => decide_eq_true (hnone r hr)] at hrows
  exact hrows

section
variable {s : SqliteRepository} {v : RepositoryView} {b : StoredBundle}
  {tasks : List DBDownloadTask}

/-- The tables of the bundle, stamped, in the place of the old rows. -/
def withBundle (s : SqliteRepository) (b : StoredBundle) (tasks : List DBDownloadTask) :
    SqliteRepository where
  tasks := tasks
  workers := s.workers.filter (·.taskId ≠ b.task.id) ++ b.workers.map s.workerRow
  pieces := s.pieces.filter (·.taskId ≠ b.task.id) ++ b.pieces.map s.pieceRow
  blocks := s.blocks.filter (·.taskId ≠ b.task.id) ++ b.blocks.map s.blockRow
  checksums := s.checksums.filter (·.taskId ≠ b.task.id) ++ b.checksums.map s.checksumRow
  defaults := s.defaults

theorem saveBundle_ok (h : s.state.Shows v)
    (hupsert : upsertTask b.task s = (.ok (), { s with tasks }))
    (hc : (RepositoryOp.saveBundle b).Carries) (hk : (RepositoryOp.saveBundle b).KeysDiffer) :
    Repository.saveBundle b s = (.ok (), s.withBundle b tasks) := by
  obtain ⟨hw, hp, hb, hsums⟩ := hc
  obtain ⟨kw, kp, kb, ksums⟩ := hk
  let s₁ : SqliteRepository := { s with tasks }
  let s₂ : SqliteRepository := { s₁ with workers := (s.withBundle b tasks).workers }
  let s₃ : SqliteRepository := { s₂ with pieces := (s.withBundle b tasks).pieces }
  let s₄ : SqliteRepository := { s₃ with blocks := (s.withBundle b tasks).blocks }
  apply RepositoryCall.transaction_ok
  apply (RepositoryCall.andThen_ok hupsert).trans
  apply (RepositoryCall.andThen_ok rfl).trans
  apply (RepositoryCall.andThen_ok (insertWorkers_ok (s := s₁) h.workers kw hw).1).trans
  apply (RepositoryCall.andThen_ok rfl).trans
  apply (RepositoryCall.andThen_ok (insertPieces_ok (s := s₂) h.pieces kp hp).1).trans
  apply (RepositoryCall.andThen_ok rfl).trans
  apply (RepositoryCall.andThen_ok (insertBlocks_ok (s := s₃) h.blocks kb hb).1).trans
  apply (RepositoryCall.andThen_ok rfl).trans
  exact (insertChecksums_ok (s := s₄) h.checksums ksums hsums).1

theorem saveBundle_fails (h : s.state.Shows v)
    (hupsert : upsertTask b.task s = (.ok (), { s with tasks }))
    (hc : (RepositoryOp.saveBundle b).Carries) (hk : ¬ (RepositoryOp.saveBundle b).KeysDiffer) :
    (Repository.saveBundle b).Fails s := by
  obtain ⟨hw, hp, hb, hsums⟩ := hc
  let s₁ : SqliteRepository := { s with tasks }
  let s₂ : SqliteRepository := { s₁ with workers := (s.withBundle b tasks).workers }
  let s₃ : SqliteRepository := { s₂ with pieces := (s.withBundle b tasks).pieces }
  apply RepositoryCall.Fails.transaction
  apply RepositoryCall.Fails.second hupsert
  apply RepositoryCall.Fails.modify
  by_cases kw : (b.workers.map DBDownloadWorker.key).Nodup
  case neg => exact (insertWorkers_error _ kw).first
  apply RepositoryCall.Fails.second (insertWorkers_ok (s := s₁) h.workers kw hw).1
  apply RepositoryCall.Fails.modify
  by_cases kp : (b.pieces.map DBDownloadPiece.key).Nodup
  case neg => exact (insertPieces_error _ kp).first
  apply RepositoryCall.Fails.second (insertPieces_ok (s := s₂) h.pieces kp hp).1
  apply RepositoryCall.Fails.modify
  by_cases kb : (b.blocks.map DBDownloadBlock.key).Nodup
  case neg => exact (insertBlocks_error _ kb).first
  apply RepositoryCall.Fails.second (insertBlocks_ok (s := s₃) h.blocks kb hb).1
  apply RepositoryCall.Fails.modify
  apply insertChecksums_error
  intro ksums
  exact hk ⟨kw, kp, kb, ksums⟩

end

/-- With different keys, and without rows that a deletion leaves behind, the tables follow the
sets. -/
theorem perform_ok {s : SqliteRepository} {v : RepositoryView} {op : RepositoryOp}
    (h : s.state.Shows v) (hu : s.UrlsOwned owner)
    (ht : ∀ t ∈ op.savedTask, owner t.url = t.id) (hc : op.Carries) (hk : op.KeysDiffer)
    (hl : op.LeavesNothing s.state) :
    (op.perform s).1 = .ok () ∧ (op.perform s).2.state.Shows (v.apply op) ∧
      (op.perform s).2.UrlsOwned owner := by
  cases op with
  | saveTask task =>
    obtain ⟨tasks, htasks, hrows, hurls⟩ := upsertTask_ok h.tasks hu (ht task rfl)
    have hperform : (RepositoryOp.saveTask task).perform s = (.ok (), { s with tasks }) := htasks
    rw [hperform]
    exact ⟨rfl, { h with tasks := hrows }, hurls⟩
  | deleteTask taskId =>
    obtain ⟨hw, hp, hsums⟩ := hl
    refine ⟨rfl, ?_, ?_⟩
    · constructor
      case tasks => exact h.tasks.filter fun _ => rfl
      case workers => exact represents_unchanged h.workers (fun _ => rfl) hw
      case pieces => exact represents_unchanged h.pieces (fun _ => rfl) hp
      case blocks => exact h.blocks.filter fun _ => rfl
      case checksums => exact represents_unchanged h.checksums (fun _ => rfl) hsums
    · intro t hmem
      exact hu t (List.mem_filter.1 hmem).1
  | saveBundle b =>
    obtain ⟨tasks, htasks, hrows, hurls⟩ := upsertTask_ok h.tasks hu (ht b.task rfl)
    have hperform : (RepositoryOp.saveBundle b).perform s = (.ok (), s.withBundle b tasks) :=
      saveBundle_ok h htasks hc hk
    obtain ⟨hw, hp, hb, hsums⟩ := hc
    obtain ⟨kw, kp, kb, ksums⟩ := hk
    rw [hperform]
    refine ⟨rfl, ?_, hurls⟩
    constructor
    case tasks => exact hrows
    case workers => exact (insertWorkers_ok h.workers kw hw).2
    case pieces => exact (insertPieces_ok h.pieces kp hp).2
    case blocks => exact (insertBlocks_ok h.blocks kb hb).2
    case checksums => exact (insertChecksums_ok h.checksums ksums hsums).2
  | saveWorker worker =>
    exact ⟨rfl, { h with
      workers := h.workers.upsert (fun _ => rfl) fun _ _ _ => ⟨rfl, rfl⟩ }, hu⟩
  | deleteWorkers taskId => exact ⟨rfl, { h with workers := h.workers.filter fun _ => rfl }, hu⟩
  | savePieces taskId pieces =>
    obtain ⟨hinsert, hrows⟩ := insertPieces_ok h.pieces hk hc
    have hperform : (RepositoryOp.savePieces taskId pieces).perform s = (.ok (), _) :=
      (RepositoryCall.andThen_ok rfl).trans hinsert
    rw [hperform]
    exact ⟨rfl, { h with pieces := hrows }, hu⟩
  | deletePieces taskId => exact ⟨rfl, { h with pieces := h.pieces.filter fun _ => rfl }, hu⟩
  | saveBlocks taskId blocks =>
    obtain ⟨hinsert, hrows⟩ := insertBlocks_ok h.blocks hk hc
    have hperform : (RepositoryOp.saveBlocks taskId blocks).perform s = (.ok (), _) :=
      (RepositoryCall.andThen_ok rfl).trans hinsert
    rw [hperform]
    exact ⟨rfl, { h with blocks := hrows }, hu⟩
  | deleteBlocks taskId => exact ⟨rfl, { h with blocks := h.blocks.filter fun _ => rfl }, hu⟩
  | saveChecksum checksum =>
    exact ⟨rfl, { h with
      checksums := h.checksums.upsert (fun _ => rfl) fun _ _ _ => ⟨rfl, rfl⟩ }, hu⟩
  | deleteChecksums taskId =>
    exact ⟨rfl, { h with checksums := h.checksums.filter fun _ => rfl }, hu⟩

theorem perform_fails {s : SqliteRepository} {v : RepositoryView} {op : RepositoryOp}
    (h : s.state.Shows v) (hu : s.UrlsOwned owner)
    (ht : ∀ t ∈ op.savedTask, owner t.url = t.id) (hc : op.Carries) (hk : ¬ op.KeysDiffer) :
    RepositoryCall.Fails op.perform s := by
  cases op with
  | saveBundle b =>
    obtain ⟨tasks, htasks, _⟩ := upsertTask_ok h.tasks hu (ht b.task rfl)
    exact saveBundle_fails h htasks hc hk
  | savePieces taskId pieces => exact RepositoryCall.Fails.modify (insertPieces_error _ hk)
  | saveBlocks taskId blocks => exact RepositoryCall.Fails.modify (insertBlocks_error _ hk)
  | _ => exact absurd trivial hk

end SqliteRepository

section
variable {s s' : JsonRepositoryState} {v : RepositoryView}

theorem tasks_same (h : s.Shows v) (h' : s'.Shows v) :
    (sortTasks s.tasks).map DBDownloadTask.view = (sortTasks s'.tasks).map DBDownloadTask.view := by
  have hsame : (sortTasks (s.tasks.filter fun _ => true)).map DBDownloadTask.view =
      (sortTasks (s'.tasks.filter fun _ => true)).map DBDownloadTask.view := by
    apply h.tasks.sort_eq h'.tasks (fun _ => rfl) (fun _ => rfl) fun _ _ => Iff.rfl
    intro a b _ _ hab hba
    exact Nat.le_antisymm hab hba
  rw [List.filter_true, List.filter_true] at hsame
  exact hsame

theorem workers_same (h : s.Shows v) (h' : s'.Shows v) (taskId : Nat) :
    (sortWorkers (s.workers.filter (·.taskId = taskId))).map DBDownloadWorker.view =
      (sortWorkers (s'.workers.filter (·.taskId = taskId))).map DBDownloadWorker.view := by
  apply h.workers.sort_eq h'.workers (fun _ => rfl) (fun _ => rfl) fun _ _ => Iff.rfl
  intro a b ha hb hab hba
  have htask := (of_decide_eq_true ha).trans (of_decide_eq_true hb).symm
  rw [DBDownloadWorker.key, DBDownloadWorker.key, htask, Nat.le_antisymm hab hba]

theorem pieces_same (h : s.Shows v) (h' : s'.Shows v) (taskId : Nat) :
    (sortPieces (s.pieces.filter (·.taskId = taskId))).map DBDownloadPiece.view =
      (sortPieces (s'.pieces.filter (·.taskId = taskId))).map DBDownloadPiece.view := by
  apply h.pieces.sort_eq h'.pieces (fun _ => rfl) (fun _ => rfl) fun _ _ => Iff.rfl
  intro a b ha hb hab hba
  have htask := (of_decide_eq_true ha).trans (of_decide_eq_true hb).symm
  rw [DBDownloadPiece.key, DBDownloadPiece.key, htask, Nat.le_antisymm hab hba]

theorem blocks_same (h : s.Shows v) (h' : s'.Shows v) (taskId : Nat) :
    (sortBlocks (s.blocks.filter (·.taskId = taskId))).map DBDownloadBlock.view =
      (sortBlocks (s'.blocks.filter (·.taskId = taskId))).map DBDownloadBlock.view := by
  have htotal : Std.Total fun a b : DBDownloadBlock =>
      a.pieceIndex < b.pieceIndex ∨ a.pieceIndex = b.pieceIndex ∧ a.blockIndex ≤ b.blockIndex :=
    ⟨fun a b => by omega⟩
  have htrans : IsTrans DBDownloadBlock fun a b =>
      a.pieceIndex < b.pieceIndex ∨ a.pieceIndex = b.pieceIndex ∧ a.blockIndex ≤ b.blockIndex :=
    ⟨fun a b c => by omega⟩
  apply h.blocks.sort_eq h'.blocks (fun _ => rfl) (fun _ => rfl) fun _ _ => Iff.rfl
  intro a b ha hb hab hba
  have htask := (of_decide_eq_true ha).trans (of_decide_eq_true hb).symm
  have hpiece : a.pieceIndex = b.pieceIndex := by omega
  have hblock : a.blockIndex = b.blockIndex := by omega
  rw [DBDownloadBlock.key, DBDownloadBlock.key, htask, hpiece, hblock]

theorem checksums_same (h : s.Shows v) (h' : s'.Shows v) (taskId : Nat) :
    (sortChecksums (s.checksums.filter (·.taskId = taskId))).map DBDownloadChecksum.view =
      (sortChecksums (s'.checksums.filter (·.taskId = taskId))).map DBDownloadChecksum.view := by
  apply h.checksums.sort_eq h'.checksums (fun _ => rfl) (fun _ => rfl) fun _ _ => Iff.rfl
  intro a b ha hb hab hba
  have htask := (of_decide_eq_true ha).trans (of_decide_eq_true hb).symm
  rw [DBDownloadChecksum.key, DBDownloadChecksum.key, htask, le_antisymm hab hba]

end

/-- The repositories in which the same operations are performed. -/
structure Repositories where
  memory : MemoryRepository
  json : JsonRepositoryState
  sqlite : SqliteRepository

namespace Repositories

def step (s : Repositories) (a : SqliteDefaults × RepositoryOp) : Option Repositories :=
  some
    { memory := (a.2.perform s.memory).2
      json := (a.2.perform s.json).2
      sqlite := (a.2.perform { s.sqlite with defaults := a.1 }).2 }

/-- The loads of all tasks are the same, up to dates and ids; SQLite gives no order to checksums. -/
structure LoadSame (s : Repositories) : Prop where
  tasks : (Repository.loadTasks s.memory).map DBDownloadTask.view =
      (Repository.loadTasks s.json).map DBDownloadTask.view ∧
    (Repository.loadTasks s.sqlite).map DBDownloadTask.view =
      (Repository.loadTasks s.json).map DBDownloadTask.view
  workers : ∀ taskId, (Repository.loadWorkers s.memory taskId).map DBDownloadWorker.view =
      (Repository.loadWorkers s.json taskId).map DBDownloadWorker.view ∧
    (Repository.loadWorkers s.sqlite taskId).map DBDownloadWorker.view =
      (Repository.loadWorkers s.json taskId).map DBDownloadWorker.view
  pieces : ∀ taskId, (Repository.loadPieces s.memory taskId).map DBDownloadPiece.view =
      (Repository.loadPieces s.json taskId).map DBDownloadPiece.view ∧
    (Repository.loadPieces s.sqlite taskId).map DBDownloadPiece.view =
      (Repository.loadPieces s.json taskId).map DBDownloadPiece.view
  blocks : ∀ taskId, (Repository.loadBlocks s.memory taskId).map DBDownloadBlock.view =
      (Repository.loadBlocks s.json taskId).map DBDownloadBlock.view ∧
    (Repository.loadBlocks s.sqlite taskId).map DBDownloadBlock.view =
      (Repository.loadBlocks s.json taskId).map DBDownloadBlock.view
  checksums : ∀ taskId, (Repository.loadChecksums s.memory taskId).map DBDownloadChecksum.view =
      (Repository.loadChecksums s.json taskId).map DBDownloadChecksum.view ∧
    ((Repository.loadChecksums s.sqlite taskId).map DBDownloadChecksum.view).Perm
      ((Repository.loadChecksums s.json taskId).map DBDownloadChecksum.view)

/-- The operation succeeds everywhere or nowhere, and then the loads are the same. -/
def AgreesOn (s : Repositories) (a : SqliteDefaults × RepositoryOp) : Prop :=
  (((a.2.perform s.memory).1.isOk ↔ (a.2.perform s.json).1.isOk) ∧
    ((a.2.perform { s.sqlite with defaults := a.1 }).1.isOk ↔ (a.2.perform s.json).1.isOk)) ∧
  ∀ s', s.step a = some s' → s'.LoadSame

/-- Rows saved together have different keys, and a task is deleted only after its workers, pieces
and checksums. -/
def Unambiguous (s : Repositories) (a : SqliteDefaults × RepositoryOp) : Prop :=
  a.2.KeysDiffer ∧ a.2.LeavesNothing s.json

/-- All three stand for the same sets. -/
structure Agree (owner : String → Nat) (s : Repositories) (v : RepositoryView) : Prop where
  filed : s.memory.Filed
  memory : s.memory.state.Shows v
  json : s.json.Shows v
  sqlite : s.sqlite.state.Shows v
  urls : s.sqlite.UrlsOwned owner

variable {owner : String → Nat} {s : Repositories} {v : RepositoryView}
  {a : SqliteDefaults × RepositoryOp}

theorem Agree.loadSame (h : s.Agree owner v) : s.LoadSame where
  tasks := ⟨tasks_same h.memory h.json, tasks_same h.sqlite h.json⟩
  workers taskId := ⟨workers_same h.memory h.json taskId, workers_same h.sqlite h.json taskId⟩
  pieces taskId := ⟨pieces_same h.memory h.json taskId, pieces_same h.sqlite h.json taskId⟩
  blocks taskId := ⟨blocks_same h.memory h.json taskId, blocks_same h.sqlite h.json taskId⟩
  checksums taskId := by
    refine ⟨checksums_same h.memory h.json taskId, ?_⟩
    have hrows := (h.sqlite.checksums.filter (p := fun c => c.taskId = taskId) fun _ => rfl).perm
      (h.json.checksums.filter fun _ => rfl) fun _ => rfl
    exact hrows.trans ((List.perm_insertionSort _ _).symm.map _)

theorem json_ok (op : RepositoryOp) (s : JsonRepositoryState) :
    op.perform s = (.ok (), s.apply op) := by
  cases op <;> rfl

theorem Agree.leavesNothing_iff (h : s.Agree owner v) (op : RepositoryOp) :
    op.LeavesNothing s.json ↔ op.LeavesNothing s.sqlite.state := by
  cases op with
  | deleteTask taskId =>
    have hw := (h.json.workers.forall_iff (p := fun w => w.taskId ≠ taskId) fun _ => Iff.rfl).trans
      (h.sqlite.workers.forall_iff fun _ => Iff.rfl).symm
    have hp := (h.json.pieces.forall_iff (p := fun p => p.taskId ≠ taskId) fun _ => Iff.rfl).trans
      (h.sqlite.pieces.forall_iff fun _ => Iff.rfl).symm
    have hc := (h.json.checksums.forall_iff (p := fun c => c.taskId ≠ taskId)
      fun _ => Iff.rfl).trans (h.sqlite.checksums.forall_iff fun _ => Iff.rfl).symm
    exact and_congr hw (and_congr hp hc)
  | _ => exact Iff.rfl

theorem Agree.step (h : s.Agree owner v) (hc : a.2.Carries)
    (ht : ∀ t ∈ a.2.savedTask, owner t.url = t.id) (hu : s.Unambiguous a)
    (hs : s.step a = some s') : s'.Agree owner (v.apply a.2) := by
  obtain rfl := Option.some.inj hs
  obtain ⟨hk, hl⟩ := hu
  obtain ⟨hfiled, hmemory⟩ := h.filed.perform h.memory hc hk
  obtain ⟨_, hsqlite, hurls⟩ := SqliteRepository.perform_ok
    (s := { s.sqlite with defaults := a.1 }) h.sqlite h.urls ht hc hk
    ((h.leavesNothing_iff a.2).1 hl)
  constructor
  case filed => exact hfiled
  case memory => exact hmemory
  case json =>
    dsimp only
    rw [json_ok]
    exact h.json.apply hc hk
  case sqlite => exact hsqlite
  case urls => exact hurls

/-- Where the loads of a task show as much as those of a repository that has dropped its rows, the
task has no row. -/
theorem none_left {rows rows' loaded loaded' : List ρ} {view : ρ → ρ} {task : ρ → Nat}
    (h : (loaded'.map view).Perm (loaded.map view))
    (hl : loaded.Perm ((rows.filter (fun r => task r ≠ taskId)).filter (fun r => task r = taskId)))
    (hl' : loaded'.Perm (rows'.filter (fun r => task r = taskId))) :
    ∀ r ∈ rows', task r ≠ taskId := by
  intro r hr he
  have hloaded : loaded = [] := by
    rw [← List.perm_nil]
    apply hl.trans
    rw [List.filter_filter, List.filter_eq_nil_iff.2]
    intro r _
    simp only [ne_eq, Bool.and_eq_true, decide_eq_true_eq, not_and, not_not]
    exact id
  rw [hloaded, List.map_nil, List.perm_nil, List.map_eq_nil_iff] at h
  rw [h, List.nil_perm, List.filter_eq_nil_iff] at hl'
  exact hl' r hr (decide_eq_true he)

theorem AgreesOn.leavesNothing (h : s.Agree owner v) (ha : s.AgreesOn (d, .deleteTask taskId)) :
    (RepositoryOp.deleteTask taskId).LeavesNothing s.json := by
  have hsame := ha.2 _ rfl
  rw [h.leavesNothing_iff]
  refine ⟨?_, ?_, ?_⟩
  · exact none_left (.of_eq (hsame.workers taskId).2) (List.perm_insertionSort _ _)
      (List.perm_insertionSort _ _)
  · exact none_left (.of_eq (hsame.pieces taskId).2) (List.perm_insertionSort _ _)
      (List.perm_insertionSort _ _)
  · exact none_left (hsame.checksums taskId).2 (List.perm_insertionSort _ _) (.refl _)

/-- Under agreement the step decides: it agrees exactly when it is unambiguous. -/
theorem Agree.agreesOn_iff (h : s.Agree owner v) (hc : a.2.Carries)
    (ht : ∀ t ∈ a.2.savedTask, owner t.url = t.id) : s.AgreesOn a ↔ s.Unambiguous a := by
  obtain ⟨d, op⟩ := a
  constructor
  · intro ha
    have hk : op.KeysDiffer := by
      by_contra hk
      obtain ⟨err, s', hfails⟩ := SqliteRepository.perform_fails
        (s := { s.sqlite with defaults := d }) h.sqlite h.urls ht hc hk
      have hok := ha.1.2.2
      rw [json_ok, hfails] at hok
      cases hok rfl
    refine ⟨hk, ?_⟩
    cases op with
    | deleteTask taskId => exact AgreesOn.leavesNothing h ha
    | _ => trivial
  · intro hu
    refine ⟨⟨?_, ?_⟩, fun s' hs => (h.step hc ht hu hs).loadSame⟩
    · dsimp only
      rw [MemoryRepository.perform_ok, json_ok]
    · have hsqlite := (SqliteRepository.perform_ok (s := { s.sqlite with defaults := d }) h.sqlite
        h.urls ht hc hu.1 ((h.leavesNothing_iff op).1 hu.2)).1
      dsimp only
      rw [hsqlite, json_ok]

/-- Nothing has been saved yet. -/
def empty (d : SqliteDefaults) : Repositories where
  memory := {}
  json := {}
  sqlite := { defaults := d }

theorem Agree.empty (owner : String → Nat) (d : SqliteDefaults) :
    (Repositories.empty d).Agree owner ⟨∅, ∅, ∅, ∅, ∅⟩ := by
  have hshows : JsonRepositoryState.Shows {} ⟨∅, ∅, ∅, ∅, ∅⟩ :=
    ⟨.empty, .empty, .empty, .empty, .empty⟩
  have hfiled : MemoryRepository.Filed {} := by
    constructor <;>
    · intro e he
      cases he
  refine ⟨hfiled, hshows, hshows, hshows, ?_⟩
  intro t ht
  cases ht

end Repositories

/-- The tasks that a sequence of operations saves. -/
def savedTasks (acts : List (SqliteDefaults × RepositoryOp)) : List DBDownloadTask :=
  acts.filterMap fun a => a.2.savedTask

theorem exists_owner {saved : List DBDownloadTask}
    (h : ∀ t ∈ saved, ∀ t' ∈ saved, t.id ≠ t'.id → t.url ≠ t'.url) :
    ∃ owner : String → Nat, ∀ t ∈ saved, owner t.url = t.id := by
  refine ⟨fun url => ((saved.find? fun t => t.url = url).map (·.id)).getD 0, ?_⟩
  intro t ht
  cases hfind : saved.find? fun t' => t'.url = t.url with
  | none => exact absurd (decide_eq_true rfl) (List.find?_eq_none.1 hfind t ht)
  | some t' =>
    have hurl := List.find?_some hfind
    have hid : t'.id = t.id := by
      by_contra hne
      exact h t' (List.mem_of_find?_eq_some hfind) t ht hne (of_decide_eq_true hurl)
    simp only [hfind, Option.map_some, Option.getD_some, hid]

instance : (op : RepositoryOp) → Decidable op.Carries
  | .saveBundle _ => inferInstanceAs (Decidable (_ ∧ _))
  | .savePieces _ pieces => inferInstanceAs (Decidable (∀ p ∈ pieces, _))
  | .saveBlocks _ blocks => inferInstanceAs (Decidable (∀ b ∈ blocks, _))
  | .saveTask _ | .deleteTask _ | .saveWorker _ | .deleteWorkers _ | .deletePieces _
  | .deleteBlocks _ | .saveChecksum _ | .deleteChecksums _ => isTrue trivial

instance : (op : RepositoryOp) → Decidable op.KeysDiffer
  | .saveBundle _ => inferInstanceAs (Decidable (_ ∧ _))
  | .savePieces _ _ | .saveBlocks _ _ => inferInstanceAs (Decidable (List.Nodup _))
  | .saveTask _ | .deleteTask _ | .saveWorker _ | .deleteWorkers _ | .deletePieces _
  | .deleteBlocks _ | .saveChecksum _ | .deleteChecksums _ => isTrue trivial

instance (s : JsonRepositoryState) : (op : RepositoryOp) → Decidable (op.LeavesNothing s)
  | .deleteTask _ => inferInstanceAs (Decidable (_ ∧ _))
  | .saveTask _ | .saveBundle _ | .saveWorker _ | .deleteWorkers _ | .savePieces _ _
  | .deletePieces _ | .saveBlocks _ _ | .deleteBlocks _ | .saveChecksum _
  | .deleteChecksums _ => isTrue trivial

instance (s : Repositories) (a : SqliteDefaults × RepositoryOp) : Decidable (s.Unambiguous a) :=
  inferInstanceAs (Decidable (_ ∧ _))

def zeroDefaults : SqliteDefaults := ⟨0, fun _ => 1, fun _ => 1⟩

def savedRow (id : Nat) (url : String) : DBDownloadTask where
  id := id
  url := url
  specJson := "\x7b\x7d"
  sourceSetJson := "\x7b\x7d"
  resolvedUrl := ""
  entityTag := ""
  lastModified := ""
  fileName := ""
  filePath := ""
  status := "Pending"
  downloadedSize := 0
  totalSize := none
  torrentBackend := none
  torrentExternalId := none
  torrentStateJson := none
  torrentMetadataJson := none
  torrentResumeData := none
  createdAt := none
  updatedAt := none

def savedLane (taskId index downloaded : Nat) : DBDownloadWorker where
  id := 0
  taskId := taskId
  index := index
  sourceId := none
  pieceStart := none
  pieceEnd := none
  blockStart := none
  blockEnd := none
  start := 0
  endByte := 9
  downloaded := downloaded
  status := "Running"
  updatedAt := none

/-- Two tasks are saved, one with everything that belongs to it, and removed again as `purge_task`
does. -/
def orderlyCalls : List (SqliteDefaults × RepositoryOp) :=
  [.saveTask (savedRow 2 "https://b"),
    .saveBundle ⟨savedRow 1 "https://a", [savedLane 1 0 0, savedLane 1 1 4], [⟨1, 1, false, none⟩,
      ⟨1, 0, true, none⟩], [⟨1, 0, 0, true, none⟩], [⟨0, 1, "SHA256", "ab", false, none⟩]⟩,
    .saveWorker (savedLane 1 0 7), .saveChecksum ⟨9, 1, "MD5", "cd", true, some 3⟩,
    .savePieces 1 [⟨1, 0, true, none⟩], .deleteWorkers 1, .deleteChecksums 1, .deletePieces 1,
    .deleteTask 1].map fun op => (zeroDefaults, op)

def repeatedPiece : List (SqliteDefaults × RepositoryOp) :=
  [(zeroDefaults, .savePieces 1 [⟨1, 0, true, none⟩, ⟨1, 0, false, none⟩])]

def leftWorker : List (SqliteDefaults × RepositoryOp) :=
  [(zeroDefaults, .saveWorker (savedLane 1 0 0)), (zeroDefaults, .deleteTask 1)]

end Paradown
