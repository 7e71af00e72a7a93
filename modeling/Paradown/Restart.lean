import Paradown.Acceptance
import Paradown.Registry

namespace Paradown
set_option autoImplicit true

/-- `restore_tasks` for one bundle: the plan, then the registration of the task it describes. -/
def restoreBundle (codec : Codec) (config : Config) (now : Nat) (view : FileView)
    (bundle : StoredBundle) : Task :=
  let plan := buildRestorePlan codec view bundle
  addTaskWithWorkers config now (plan.taskRequest.id.getD 1) plan.taskRequest plan.workers

/-- The rows that `Task::init` writes for the new task. -/
def persistTask (codec : Codec) (now : Nat) (t : Task) : StoredBundle :=
  saveTask codec { t with updatedAt := some now }

/-- The range of a worker and how far it has come. -/
structure LaneProgress where
  index : Nat
  start : Nat
  endByte : Nat
  pieceStart : Nat
  pieceEnd : Nat
  blockStart : Nat
  blockEnd : Nat
  downloaded : Nat
  deriving DecidableEq, Repr

def Worker.progress (w : Worker) : LaneProgress :=
  ⟨w.id, w.start, w.endByte, w.lane.pieceStart, w.lane.pieceEnd, w.lane.blockStart,
    w.lane.blockEnd, w.downloadedSize⟩

/-- Two restored tasks that nobody can tell apart by their recorded progress. -/
structure SameRestore (t t' : Task) : Prop where
  status : t.status = t'.status
  downloaded : t.downloadedSize = t'.downloadedSize
  total : t.totalSizeOption = t'.totalSizeOption
  workers : t.workers.map (·.progress) = t'.workers.map (·.progress)
  pieces : t.pieceStates = t'.pieceStates
  blocks : t.blockStates = t'.blockStates

/-- The file is gone and only piece rows record progress: the first restore keeps the task paused
because of them and drops them. -/
def PiecesOnly (view : FileView) (bundle : StoredBundle) : Prop :=
  NoLocalFile view bundle.task ∧ bundle.task.status ∈ ["Running", "Preparing", "Paused"] ∧
    (∃ p ∈ bundle.pieces, p.completed = true) ∧ ∀ b ∈ bundle.blocks, b.completed = false

/-- The worker rows of a running task as the restore accepts them. -/
def acceptedRows (codec : Codec) (bundle : StoredBundle) : List SegmentRequest :=
  sanitizeWorkerRequests bundle.task.id bundle.task.totalSize
    (codec.sourcesFromJson bundle.task.sourceSetJson) (dbWorkersToRequests bundle.workers)

/-- The size of the file is not recorded and an accepted lane ends at the last 64-bit offset: the
size taken from the lanes is one byte short. -/
def LastOffset (codec : Codec) (view : FileView) (bundle : StoredBundle) : Prop :=
  ¬ NoLocalFile view bundle.task ∧ bundle.task.status ∈ ["Running", "Preparing", "Paused"] ∧
    (bundle.task.totalSize = none ∨ bundle.task.totalSize = some 0) ∧
    ∃ w ∈ acceptedRows codec bundle, 2 ^ 64 - 1 ≤ w.endByte

theorem addTaskWithWorkers_eq (config : Config) (now id : Nat) (r : TaskRequest)
    (workers : Option (List SegmentRequest)) :
    addTaskWithWorkers config now id r workers =
      { Task.new config now id r with
        workers := (workers.getD []).map (restoredWorker (Task.new config now id r) now) } := by
  cases workers <;> rfl

theorem dbPieces_sorted (rows : List DBDownloadPiece) :
    (dbPiecesToPieceStates rows).Pairwise fun a b => a.pieceIndex ≤ b.pieceIndex := by
  rw [dbPiecesToPieceStates, List.pairwise_map]
  exact List.pairwise_insertionSort (fun a b : DBDownloadPiece => a.pieceIndex ≤ b.pieceIndex) rows

theorem dbPieces_saved (taskId : Nat)
    (h : states.Pairwise fun a b : PieceState => a.pieceIndex ≤ b.pieceIndex) :
    dbPiecesToPieceStates (pieceStatesToDb taskId states) = states := by
  have hs : (pieceStatesToDb taskId states).Pairwise fun a b => a.pieceIndex ≤ b.pieceIndex := by
    rw [pieceStatesToDb, List.pairwise_map]
    exact h
  rw [dbPiecesToPieceStates, hs.insertionSort_eq, pieceStatesToDb, List.map_map]
  exact List.map_id states

theorem dbBlocks_sorted (rows : List DBDownloadBlock) :
    (dbBlocksToBlockStates rows).Pairwise fun a b =>
      a.pieceIndex < b.pieceIndex ∨ a.pieceIndex = b.pieceIndex ∧ a.blockIndex ≤ b.blockIndex := by
  have htotal : Std.Total fun a b : DBDownloadBlock =>
      a.pieceIndex < b.pieceIndex ∨ a.pieceIndex = b.pieceIndex ∧ a.blockIndex ≤ b.blockIndex :=
    ⟨fun a b => by omega⟩
  have htrans : IsTrans DBDownloadBlock fun a b =>
      a.pieceIndex < b.pieceIndex ∨ a.pieceIndex = b.pieceIndex ∧ a.blockIndex ≤ b.blockIndex :=
    ⟨fun a b c => by omega⟩
  rw [dbBlocksToBlockStates, List.pairwise_map]
  exact List.pairwise_insertionSort _ rows

theorem dbBlocks_saved (taskId : Nat) (h : states.Pairwise fun a b : BlockState =>
      a.pieceIndex < b.pieceIndex ∨ a.pieceIndex = b.pieceIndex ∧ a.blockIndex ≤ b.blockIndex) :
    dbBlocksToBlockStates (blockStatesToDb taskId states) = states := by
  have hs : (blockStatesToDb taskId states).Pairwise fun a b =>
      a.pieceIndex < b.pieceIndex ∨ a.pieceIndex = b.pieceIndex ∧ a.blockIndex ≤ b.blockIndex := by
    rw [blockStatesToDb, List.pairwise_map]
    exact h
  rw [dbBlocksToBlockStates, hs.insertionSort_eq, blockStatesToDb, List.map_map]
  exact List.map_id states

theorem normalizedTextField_saved (text : String) :
    normalizedTextField (((normalizedTextField text).filter notBlank).getD "") =
      normalizedTextField text := by
  by_cases ht : trim text = ""
  · have hn : normalizedTextField text = none := if_pos ht
    rw [hn]
    rfl
  · have hn : normalizedTextField text = some (trim text) := if_neg ht
    have hb : notBlank (trim text) = true := by
      rw [notBlank, trim_trim]
      exact bne_iff_ne.2 ht
    rw [hn, Option.filter_some, if_pos hb, Option.getD_some, normalizedTextField_trim ht]

theorem Status.forgetError_fromText (text : String) :
    ((fromText text).getD .pending).forgetError = (fromText text).getD .pending := by
  unfold fromText
  split_ifs <;> rfl

/-- What a row, a plan or a task records about the download, the workers apart. -/
@[ext] structure Recorded where
  status : Status
  downloaded : Nat
  total : Option Nat
  pieces : List PieceState
  blocks : List BlockState

def StoredBundle.recorded (b : StoredBundle) : Recorded :=
  ⟨(Status.fromText b.task.status).getD .pending, b.task.downloadedSize, b.task.totalSize,
    dbPiecesToPieceStates b.pieces, dbBlocksToBlockStates b.blocks⟩

def TaskRequest.recorded (r : TaskRequest) : Recorded :=
  ⟨r.status.getD .pending, r.downloadedSize.getD 0, r.totalSize, r.pieceStates.getD [],
    r.blockStates.getD []⟩

def Task.recorded (t : Task) : Recorded :=
  ⟨t.status, t.downloadedSize, t.totalSizeOption, t.pieceStates, t.blockStates⟩

def anyCompleted (pieces : List PieceState) (blocks : List BlockState) : Bool :=
  pieces.any (·.completed) || blocks.any (·.completed)

def Recorded.restorable (r : Recorded) : Bool := anyCompleted r.pieces r.blocks

theorem hasRestorablePieceState_eq (r : TaskRequest) :
    hasRestorablePieceState r = anyCompleted (r.pieceStates.getD []) (r.blockStates.getD []) := rfl

def Recorded.normalize (r : Recorded) : Recorded :=
  { r with status := normalizeRestoredStatus r.status }

/-- A completed record without a usable file counts as pending and loses its pieces. -/
def Recorded.dropUnusable (file : RestoreFileState) (r : Recorded) : Recorded :=
  if r.status = .completed ∧ file.isUsableForCompleted r.total = false then
    { r with status := .pending, pieces := [] }
  else r

/-- A paused record without trustworthy progress counts as pending. -/
def Recorded.downgrade (r : Recorded) : Recorded :=
  if r.status = .paused ∧ r.restorable = false then { r with status := .pending } else r

/-- A counter that nothing backs is reset. -/
def Recorded.forgetBytes (r : Recorded) : Recorded :=
  if r.status ≠ .completed ∧ r.restorable = false then { r with downloaded := 0 } else r

/-- What a restore makes of the records when no worker row is accepted and the file exists. -/
def Recorded.settle (file : RestoreFileState) (r : Recorded) : Recorded :=
  (r.normalize.dropUnusable file).downgrade.forgetBytes

/-- What a restore makes of the records when the file does not exist. -/
def Recorded.settleMissing (r : Recorded) : Recorded :=
  { r with
    status := statusWithoutFile (normalizeRestoredStatus r.status) r.restorable
    downloaded := 0
    pieces := [] }

theorem normalizeRestoredStatus_idem (s : Status) :
    normalizeRestoredStatus (normalizeRestoredStatus s) = normalizeRestoredStatus s := by
  cases s <;> rfl

/-- Records that a restore over an existing file leaves as they are. -/
structure Recorded.Settled (file : RestoreFileState) (r : Recorded) : Prop where
  status : normalizeRestoredStatus r.status = r.status
  usable : ¬ (r.status = .completed ∧ file.isUsableForCompleted r.total = false)
  restorable : ¬ (r.status = .paused ∧ r.restorable = false)
  downloaded : r.status ≠ .completed ∧ r.restorable = false → r.downloaded = 0

theorem Recorded.Settled.settle {r : Recorded} (h : r.Settled file) : r.settle file = r := by
  have hn : r.normalize = r := by
    rw [Recorded.normalize, h.status]
  rw [Recorded.settle, hn, Recorded.dropUnusable, if_neg h.usable, Recorded.downgrade,
    if_neg h.restorable, Recorded.forgetBytes]
  split
  · rename_i hd
    rw [← h.downloaded hd]
  · rfl

theorem Recorded.dropUnusable_usable (file : RestoreFileState) (r : Recorded) :
    ¬ ((r.dropUnusable file).status = .completed ∧
      file.isUsableForCompleted (r.dropUnusable file).total = false) := by
  unfold Recorded.dropUnusable
  split
  · rintro ⟨hc, _⟩
    cases hc
  · assumption

theorem Recorded.settle_settled (file : RestoreFileState) (r : Recorded) :
    (r.settle file).Settled file := by
  have hnormal : normalizeRestoredStatus (r.normalize.dropUnusable file).status =
      (r.normalize.dropUnusable file).status := by
    unfold Recorded.dropUnusable
    split
    · rfl
    · exact normalizeRestoredStatus_idem _
  have husable := r.normalize.dropUnusable_usable file
  unfold Recorded.settle
  generalize r.normalize.dropUnusable file = r at *
  have hd : normalizeRestoredStatus r.downgrade.status = r.downgrade.status ∧
      ¬ (r.downgrade.status = .completed ∧
        file.isUsableForCompleted r.downgrade.total = false) ∧
      ¬ (r.downgrade.status = .paused ∧ r.downgrade.restorable = false) := by
    unfold Recorded.downgrade
    split
    · refine ⟨rfl, ?_, ?_⟩
      · rintro ⟨hc, _⟩
        cases hc
      · rintro ⟨hp, _⟩
        cases hp
    · exact ⟨hnormal, husable, ‹_›⟩
  generalize r.downgrade = r at *
  unfold Recorded.forgetBytes
  split
  · exact ⟨hd.1, hd.2.1, hd.2.2, fun _ => rfl⟩
  · exact ⟨hd.1, hd.2.1, hd.2.2, fun h => absurd h ‹_›⟩

theorem statusWithoutFile_eq_self (h : s ≠ .completed) :
    statusWithoutFile s restorable = s ↔ ¬ (s = .paused ∧ restorable = false) := by
  unfold statusWithoutFile
  constructor
  · rintro hs ⟨hp, hr⟩
    rw [if_pos (.inr ⟨hp, hr⟩), hp] at hs
    cases hs
  · intro hs
    exact if_neg fun hc => hc.elim h hs

theorem Recorded.settleMissing_settleMissing (r : Recorded) :
    r.settleMissing.settleMissing = r.settleMissing ↔
      ¬ (normalizeRestoredStatus r.status = .paused ∧ r.pieces.any (·.completed) = true ∧
        r.blocks.any (·.completed) = false) := by
  have hblocks : r.settleMissing.restorable = r.blocks.any (·.completed) := rfl
  have hnormal : normalizeRestoredStatus r.settleMissing.status = r.settleMissing.status := by
    show normalizeRestoredStatus (statusWithoutFile _ _) = statusWithoutFile _ _
    unfold statusWithoutFile
    split
    · rfl
    · exact normalizeRestoredStatus_idem _
  have hpaused : r.settleMissing.status = .paused ↔
      normalizeRestoredStatus r.status = .paused ∧ r.restorable = true :=
    statusWithoutFile_eq_paused _ _
  have hfix : r.settleMissing.settleMissing = r.settleMissing ↔
      statusWithoutFile r.settleMissing.status (r.blocks.any (·.completed)) =
        r.settleMissing.status := by
    constructor
    · intro h
      have hs := congrArg Recorded.status h
      rw [← hblocks]
      nth_rewrite 1 [← hnormal]
      exact hs
    · intro h
      rw [← hblocks] at h
      nth_rewrite 1 [← hnormal] at h
      ext1
      · exact h
      · rfl
      · rfl
      · rfl
      · rfl
  have hne : r.settleMissing.status ≠ .completed := statusWithoutFile_ne_completed _ _
  rw [hfix, statusWithoutFile_eq_self hne, hpaused]
  constructor
  · rintro h ⟨hp, hpieces, hb⟩
    refine h ⟨⟨hp, ?_⟩, hb⟩
    rw [Recorded.restorable, anyCompleted, hpieces, Bool.true_or]
  · rintro h ⟨⟨hp, hr⟩, hb⟩
    refine h ⟨hp, ?_, hb⟩
    rw [Recorded.restorable, anyCompleted, hb, Bool.or_false] at hr
    exact hr

theorem buildRestorePlan_settle (codec : Codec) (view : FileView) (bundle : StoredBundle)
    (hfile : (inspectRestoreFileState view (normalizedTextField bundle.task.filePath)).present =
      true)
    (hnone : bundle.task.status ∈ ["Running", "Preparing", "Paused"] →
      acceptedRows codec bundle = []) :
    (buildRestorePlan codec view bundle).taskRequest.recorded =
        bundle.recorded.settle
          (inspectRestoreFileState view (normalizedTextField bundle.task.filePath)) ∧
      (buildRestorePlan codec view bundle).workers = none := by
  generalize hi : inspectRestoreFileState view (normalizedTextField bundle.task.filePath) = file
    at hfile ⊢
  have hrow : bundle.recorded.normalize = ⟨normalizeRestoredStatus bundle.recorded.status,
    bundle.task.downloadedSize, bundle.task.totalSize, dbPiecesToPieceStates bundle.pieces,
    dbBlocksToBlockStates bundle.blocks⟩ := rfl
  rw [← normalizeRestoredStatus_eq_paused] at hnone
  unfold acceptedRows at hnone
  have hstatus : (Status.fromText bundle.task.status).getD .pending = bundle.recorded.status := rfl
  simp only [buildRestorePlan, dbTaskToRequest, Option.getD_some, hi, hstatus] at hnone ⊢
  unfold Recorded.settle
  rw [hrow]
  by_cases hc : normalizeRestoredStatus bundle.recorded.status = .completed
  · by_cases hu : file.isUsableForCompleted bundle.task.totalSize = false
    · cases hr : anyCompleted [] (dbBlocksToBlockStates bundle.blocks) <;>
        simp [hc, hu, hr, hfile, hasRestorablePieceState_eq, Recorded.dropUnusable,
          Recorded.downgrade, Recorded.forgetBytes, Recorded.restorable, TaskRequest.recorded]
    · simp [hc, hu, hfile, TaskRequest.recorded, Recorded.dropUnusable, Recorded.downgrade,
        Recorded.forgetBytes]
  · by_cases hp : normalizeRestoredStatus bundle.recorded.status = .paused
    · cases hr : anyCompleted (dbPiecesToPieceStates bundle.pieces)
          (dbBlocksToBlockStates bundle.blocks) <;>
        simp [hp, hr, hfile, hnone hp, hasRestorablePieceState_eq, Recorded.dropUnusable,
          Recorded.downgrade, Recorded.forgetBytes, Recorded.restorable, TaskRequest.recorded]
    · cases hr : anyCompleted (dbPiecesToPieceStates bundle.pieces)
          (dbBlocksToBlockStates bundle.blocks) <;>
        simp [hp, hc, hr, hfile, hasRestorablePieceState_eq, Recorded.dropUnusable,
          Recorded.downgrade, Recorded.forgetBytes, Recorded.restorable, TaskRequest.recorded]

theorem buildRestorePlan_settleMissing (codec : Codec) (h : NoLocalFile view bundle.task) :
    (buildRestorePlan codec view bundle).taskRequest.recorded = bundle.recorded.settleMissing ∧
      (buildRestorePlan codec view bundle).workers = none := by
  rw [buildRestorePlan_noLocalFile codec h]
  exact ⟨rfl, rfl⟩

theorem Task.new_recorded (config : Config) (now id : Nat) (r : TaskRequest)
    (workers : Option (List SegmentRequest)) :
    (addTaskWithWorkers config now id r workers).recorded = r.recorded := by
  rw [addTaskWithWorkers_eq]
  cases ht : r.totalSize <;> simp [Task.recorded, TaskRequest.recorded, Task.new, ht,
    Task.totalSizeOption]

/-- Records in the form in which the rows of a task can hold them. -/
structure Recorded.Storable (r : Recorded) : Prop where
  status : r.status.forgetError = r.status
  pieces : r.pieces.Pairwise fun a b => a.pieceIndex ≤ b.pieceIndex
  blocks : r.blocks.Pairwise fun a b =>
    a.pieceIndex < b.pieceIndex ∨ a.pieceIndex = b.pieceIndex ∧ a.blockIndex ≤ b.blockIndex

theorem persistTask_recorded (codec : Codec) (now : Nat) {t : Task} (h : t.recorded.Storable) :
    (persistTask codec now t).recorded = t.recorded := by
  ext1
  · show (Status.fromText t.status.toText).getD .pending = t.status
    rw [Status.fromText_toText, Option.getD_some]
    exact h.status
  · rfl
  · rfl
  · exact dbPieces_saved t.id h.pieces
  · exact dbBlocks_saved t.id h.blocks

theorem StoredBundle.storable (b : StoredBundle) : b.recorded.Storable :=
  ⟨Status.forgetError_fromText _, dbPieces_sorted _, dbBlocks_sorted _⟩

theorem Status.forgetError_normalize (h : s.forgetError = s) :
    (normalizeRestoredStatus s).forgetError = normalizeRestoredStatus s := by
  cases s <;> first | rfl | exact h

theorem Recorded.Storable.settle {r : Recorded} (h : r.Storable) (file : RestoreFileState) :
    (r.settle file).Storable := by
  have hn : r.normalize.Storable := ⟨Status.forgetError_normalize h.status, h.pieces, h.blocks⟩
  have hd : (r.normalize.dropUnusable file).Storable := by
    unfold Recorded.dropUnusable
    split
    · exact ⟨rfl, .nil, hn.blocks⟩
    · exact hn
  have hg : (r.normalize.dropUnusable file).downgrade.Storable := by
    unfold Recorded.downgrade
    split
    · exact ⟨rfl, hd.pieces, hd.blocks⟩
    · exact hd
  unfold Recorded.settle Recorded.forgetBytes
  split
  · exact ⟨hg.status, hg.pieces, hg.blocks⟩
  · exact hg

theorem Recorded.Storable.settleMissing {r : Recorded} (h : r.Storable) :
    r.settleMissing.Storable := by
  refine ⟨?_, .nil, h.blocks⟩
  show (statusWithoutFile _ _).forgetError = statusWithoutFile _ _
  unfold statusWithoutFile
  split
  · rfl
  · exact Status.forgetError_normalize h.status

theorem restoredWorker_source (t : Task) (now : Nat) (w : SegmentRequest) :
    t.sources.sources.map (·.id) = [] ∨
      (restoredWorker t now w).source.id ∈ t.sources.sources.map (·.id) := by
  have hget : ∀ {id : String} {source : SourceDescriptor}, t.sources.get id = some source →
      source ∈ t.sources.sources := fun h => List.mem_of_find?_eq_some h
  show _ ∨ ((w.sourceId.bind t.sources.get).getD
    (t.sources.primary.getD (.fromSpec t.spec none))).id ∈ _
  cases hs : w.sourceId.bind t.sources.get with
  | some source =>
    obtain ⟨id, _, hid⟩ := Option.bind_eq_some_iff.1 hs
    exact .inr (List.mem_map_of_mem (hget hid))
  | none =>
    cases hp : t.sources.primary with
    | some source =>
      refine .inr (List.mem_map_of_mem ?_)
      rcases (Option.orElse_eq_some _ _ _).1 hp with hp | ⟨_, hp⟩
      · obtain ⟨id, _, hid⟩ := Option.bind_eq_some_iff.1 hp
        exact hget hid
      · exact List.mem_of_mem_head? hp
    | none =>
      obtain ⟨_, hh⟩ := (Option.orElse_eq_none _ _).1 hp
      rw [List.head?_eq_none_iff] at hh
      exact .inl (by rw [hh, List.map_nil])

/-- A row that was accepted once passes again after the worker has been built from it. -/
theorem sanitizeWorker_again (t : Task) (now : Nat)
    (h : RowAccepted taskId total known single seen expected w w')
    (htotal : ∀ n ∈ total', 0 < n → w'.endByte < n) (single' : Option String) :
    sanitizeWorker taskId total' (t.sources.sources.map (·.id)) single' seen expected
      (workerRequest taskId (restoredWorker t now w')) =
        some (restoredRequest taskId (restoredWorker t now w')) := by
  obtain ⟨id, _, _, rfl⟩ := h.source
  rw [sanitizeWorker_eq_some]
  refine
    { taskId := rfl
      fresh := h.fresh
      order := h.order
      count := h.count
      total := htotal
      start := h.start
      lane := ?_
      source := ⟨_, rfl, restoredWorker_source t now _, rfl⟩ }
  have hlane := h.lane
  unfold laneMetadataOk at hlane
  split at hlane
  · rename_i hps hpe hbs hbe
    simp [laneMetadataOk, workerRequest, restoredWorker, Worker.new, hps, hpe, hbs, hbe]
  · rename_i hps hpe hbs hbe
    simpa [laneMetadataOk, workerRequest, restoredWorker, Worker.new, hps, hpe, hbs, hbe]
      using hlane
  · cases hlane

theorem sanitizeLoop_again (t : Task) (now : Nat)
    (h : sanitizeLoop taskId total known single seen expected rows = some (ws, last))
    (htotal : ∀ w ∈ ws, ∀ n ∈ total', 0 < n → w.endByte < n) (single' : Option String) :
    sanitizeLoop taskId total' (t.sources.sources.map (·.id)) single' seen expected
      (ws.map fun w => workerRequest taskId (restoredWorker t now w)) =
        some (ws.map fun w => restoredRequest taskId (restoredWorker t now w), last) := by
  induction rows generalizing seen expected ws with
  | nil =>
    cases h
    rfl
  | cons w rows ih =>
    simp only [sanitizeLoop] at h
    split at h
    · cases h
    · rename_i w' hw
      split at h
      · cases h
      · rename_i ws' last' hrest
        cases h
        have hrow := sanitizeWorker_eq_some.1 hw
        obtain ⟨id, _, _, hw'⟩ := hrow.source
        have hone := sanitizeWorker_again t now hrow (htotal w' List.mem_cons_self) single'
        have htail := ih hrest fun v hv => htotal v (List.mem_cons_of_mem _ hv)
        have hindex : (workerRequest taskId (restoredWorker t now w')).index = w.index := by
          rw [hw']
          rfl
        have hend : (workerRequest taskId (restoredWorker t now w')).endByte = w.endByte := by
          rw [hw']
          rfl
        simp only [List.map_cons, sanitizeLoop, hone, hindex, hend, htail]

theorem sanitizeLoop_nil
    (h : sanitizeLoop taskId total known single seen expected rows = some ([], last)) :
    last = expected := by
  cases rows with
  | nil =>
    cases h
    rfl
  | cons w rows =>
    simp only [sanitizeLoop] at h
    split at h
    · cases h
    · split at h
      · cases h
      · cases h

theorem sanitizeLoop_last
    (h : sanitizeLoop taskId total known single seen expected rows = some (ws, last))
    (hexpected : expected ≤ 2 ^ 64 - 1) :
    ws.map (·.index) = rows.map (·.index) ∧ expected ≤ last ∧
      (∀ w ∈ ws, satAdd w.endByte 1 ≤ last ∧ ∀ n ∈ total, 0 < n → w.endByte < n) ∧
      (ws ≠ [] → last ∈ ws.map fun w => satAdd w.endByte 1) := by
  induction rows generalizing seen expected ws with
  | nil =>
    cases h
    exact ⟨rfl, le_rfl, fun w hw => absurd hw List.not_mem_nil, fun hne => absurd rfl hne⟩
  | cons w rows ih =>
    simp only [sanitizeLoop] at h
    split at h
    · cases h
    · rename_i w' hw
      split at h
      · cases h
      · rename_i ws' last' hrest
        cases h
        have hrow := sanitizeWorker_eq_some.1 hw
        obtain ⟨id, _, _, rfl⟩ := hrow.source
        obtain ⟨hindex, hle, hall, hmem⟩ := ih hrest (Nat.min_le_right _ _)
        have horder := hrow.order
        have hstart := hrow.start
        refine ⟨by rw [List.map_cons, List.map_cons, hindex], ?_, fun v hv => ?_, fun _ => ?_⟩
        · refine Nat.le_trans ?_ hle
          unfold satAdd
          omega
        · rcases List.mem_cons.1 hv with rfl | hv
          · exact ⟨hle, hrow.total⟩
          · exact hall v hv
        · rw [List.map_cons]
          by_cases hws : ws' = []
          · subst hws
            rw [sanitizeLoop_nil hrest]
            exact List.mem_cons_self
          · exact List.mem_cons_of_mem _ (hmem hws)

theorem sanitizeLoop_beyond (hw : w ∈ rows) (hn : 0 < n) (he : n ≤ w.endByte) :
    sanitizeLoop taskId (some n) known single seen expected rows = none := by
  induction rows generalizing seen expected with
  | nil => cases hw
  | cons v rows ih =>
    rw [sanitizeLoop]
    split
    · rfl
    · rename_i v' hv
      rcases List.mem_cons.1 hw with rfl | hw
      · exact absurd ((sanitizeWorker_eq_some.1 hv).total n rfl hn) (Nat.not_lt.2 he)
      · rw [ih hw]

/-- Rows that the restore accepts for a task of this recorded size, and the size they add up to. -/
structure AcceptedLanes (taskId : Nat) (total : Option Nat) (ws : List SegmentRequest)
    (last : Nat) : Prop where
  loop : ∃ known single rows, sanitizeLoop taskId total known single [] 0 rows = some (ws, last)
  sorted : ws.Pairwise fun a b => a.index ≤ b.index
  size : (if total = none ∨ total = some 0 then (ws.map fun w => satAdd w.endByte 1).max?
    else total) = some last
  pos : 0 < last
  within : (∀ w ∈ ws, w.endByte < last) ↔
    ¬ ((total = none ∨ total = some 0) ∧ ∃ w ∈ ws, 2 ^ 64 - 1 ≤ w.endByte)

theorem sanitizeWorkerRequests_lanes
    (h : sanitizeWorkerRequests taskId total sources requests = ws) (hne : ws ≠ []) :
    ∃ last, AcceptedLanes taskId total ws last := by
  unfold sanitizeWorkerRequests at h
  dsimp only at h
  split at h
  · exact absurd h.symm hne
  · rename_i sanitized last hloop
    split at h
    · exact absurd h.symm hne
    · rename_i hsize
      subst h
      obtain ⟨hindex, _, hall, hmem⟩ := sanitizeLoop_last hloop (Nat.zero_le _)
      obtain ⟨v, hv, hlast⟩ := List.mem_map.1 (hmem hne)
      have hlastPos : 0 < last := by
        rw [← hlast, satAdd]
        omega
      have hlastLe : last ≤ 2 ^ 64 - 1 := by
        rw [← hlast]
        exact Nat.min_le_right _ _
      have hknown : ¬ (total = none ∨ total = some 0) → total = some last := by
        intro hk
        rw [not_or] at hk
        obtain ⟨n, rfl⟩ := Option.ne_none_iff_exists'.1 hk.1
        have hn : 0 < n := Nat.pos_of_ne_zero fun h0 => hk.2 (by rw [h0])
        by_contra hd
        exact hsize ⟨n, rfl, hn, fun he => hd (by rw [he])⟩
      refine ⟨last, ⟨_, _, _, hloop⟩, ?_, ?_, hlastPos, ?_⟩
      · have hs := List.pairwise_insertionSort
          (fun a b : SegmentRequest => a.index ≤ b.index) requests
        rw [← List.pairwise_map (f := SegmentRequest.index) (R := (· ≤ ·))] at hs ⊢
        rw [hindex]
        exact hs
      · split
        · rw [List.max?_eq_some_iff]
          refine ⟨hmem hne, fun b hb => ?_⟩
          obtain ⟨w, hw, rfl⟩ := List.mem_map.1 hb
          exact (hall w hw).1
        · exact hknown ‹_›
      · constructor
        · rintro hw ⟨_, w, hmem, hbig⟩
          have := hw w hmem
          omega
        · intro hbig w hw
          by_cases hk : total = none ∨ total = some 0
          · have hsmall : w.endByte < 2 ^ 64 - 1 := by
              by_contra hge
              exact hbig ⟨hk, w, hw, Nat.not_lt.1 hge⟩
            have hle := (hall w hw).1
            rw [satAdd_of_lt (by omega)] at hle
            exact hle
          · exact (hall w hw).2 last (hknown hk) hlastPos

theorem AcceptedLanes.restored_sorted (h : AcceptedLanes taskId total ws last) (t : Task)
    (now : Nat) :
    (ws.map fun w => workerRequest taskId (restoredWorker t now w)).insertionSort
        (fun a b => a.index ≤ b.index) =
      ws.map fun w => workerRequest taskId (restoredWorker t now w) := by
  apply List.Pairwise.insertionSort_eq
  rw [List.pairwise_map]
  exact h.sorted

/-- The rows of the restored workers are accepted again if no lane reaches the size of the task. -/
theorem AcceptedLanes.again (h : AcceptedLanes taskId total ws last) (t : Task) (now : Nat)
    (hw : ∀ w ∈ ws, w.endByte < last) :
    sanitizeWorkerRequests taskId (some last) (some t.sources)
        (ws.map fun w => workerRequest taskId (restoredWorker t now w)) =
      ws.map fun w => restoredRequest taskId (restoredWorker t now w) := by
  obtain ⟨known, single, rows, hloop⟩ := h.loop
  have hbelow : ∀ w ∈ ws, ∀ n ∈ some last, 0 < n → w.endByte < n := by
    intro w hmem n hn _
    cases hn
    exact hw w hmem
  simp only [sanitizeWorkerRequests, h.restored_sorted t now, Option.map_some, Option.getD_some,
    sanitizeLoop_again t now hloop hbelow]
  rw [if_neg]
  rintro ⟨n, hn, _, hne⟩
  cases hn
  exact hne rfl

theorem AcceptedLanes.rejected (h : AcceptedLanes taskId total ws last) (t : Task) (now : Nat)
    (hw : ¬ ∀ w ∈ ws, w.endByte < last) :
    sanitizeWorkerRequests taskId (some last) (some t.sources)
        (ws.map fun w => workerRequest taskId (restoredWorker t now w)) = [] := by
  simp only [not_forall, not_lt] at hw
  obtain ⟨w, hmem, hle⟩ := hw
  have hrow : workerRequest taskId (restoredWorker t now w) ∈
      ws.map fun w => workerRequest taskId (restoredWorker t now w) := List.mem_map_of_mem hmem
  simp only [sanitizeWorkerRequests, h.restored_sorted t now]
  rw [sanitizeLoop_beyond hrow h.pos hle]

theorem sameRestore_iff :
    SameRestore t t' ↔ t.recorded = t'.recorded ∧
      t.workers.map (·.progress) = t'.workers.map (·.progress) := by
  constructor
  · intro h
    refine ⟨?_, h.workers⟩
    ext1
    · exact h.status
    · exact h.downloaded
    · exact h.total
    · exact h.pieces
    · exact h.blocks
  · rintro ⟨hr, hw⟩
    exact ⟨congrArg Recorded.status hr, congrArg Recorded.downloaded hr,
      congrArg Recorded.total hr, hw, congrArg Recorded.pieces hr, congrArg Recorded.blocks hr⟩

theorem noLocalFile_iff :
    NoLocalFile view row ↔
      (inspectRestoreFileState view (normalizedTextField row.filePath)).present = false := by
  constructor
  · intro h
    rw [inspect_of_noLocalFile h]
  · intro h
    by_cases hb : trim row.filePath = ""
    · exact .inl hb
    · right
      cases hv : view (trim row.filePath) with
      | none => rfl
      | some size =>
        rw [inspect_of_path hb hv] at h
        cases h

theorem persisted_path (codec : Codec) (config : Config) (now later : Nat) (view : FileView)
    (bundle : StoredBundle) :
    normalizedTextField
        (persistTask codec later (restoreBundle codec config now view bundle)).task.filePath =
      normalizedTextField bundle.task.filePath := by
  have hpath := (buildRestorePlan_request codec view bundle).2.1
  show normalizedTextField ((restoreBundle codec config now view bundle).filePath.getD "") = _
  rw [restoreBundle, (addTaskWithWorkers_spec config now _ _ _).2.2.1, hpath,
    dbTaskToRequest_filePath]
  exact normalizedTextField_saved bundle.task.filePath

theorem restoreBundle_recorded (codec : Codec) (config : Config) (now : Nat) (view : FileView)
    (bundle : StoredBundle) :
    (restoreBundle codec config now view bundle).recorded =
      (buildRestorePlan codec view bundle).taskRequest.recorded :=
  Task.new_recorded config now _ _ _

theorem restoreBundle_workers_none (config : Config) (now : Nat)
    (h : (buildRestorePlan codec view bundle).workers = none) :
    (restoreBundle codec config now view bundle).workers = [] := by
  rw [restoreBundle, h]
  rfl

theorem acceptedRows_of_workers_nil (hw : bundle.workers = []) :
    acceptedRows codec bundle = [] := by
  simp only [acceptedRows, hw, dbWorkersToRequests, List.map_nil, sanitizeWorkerRequests,
    List.insertionSort_nil, sanitizeLoop, ite_self]

section Again
variable (codec : Codec) (config : Config) (view : FileView) (bundle : StoredBundle)
variable (now stored later : Nat)

/-- The rows after one restore. -/
def storedAgain : StoredBundle :=
  persistTask codec stored (restoreBundle codec config now view bundle)

theorem storedAgain_noLocalFile :
    NoLocalFile view (storedAgain codec config view bundle now stored).task ↔
      NoLocalFile view bundle.task := by
  rw [noLocalFile_iff, noLocalFile_iff, storedAgain, persisted_path]

theorem again_missing (h : NoLocalFile view bundle.task) :
    SameRestore (restoreBundle codec config now view bundle)
        (restoreBundle codec config later view (storedAgain codec config view bundle now stored)) ↔
      ¬ PiecesOnly view bundle := by
  obtain ⟨hr, hw⟩ := buildRestorePlan_settleMissing codec h
  obtain ⟨hr', hw'⟩ := buildRestorePlan_settleMissing codec
    ((storedAgain_noLocalFile codec config view bundle now stored).2 h)
  have hstored : (storedAgain codec config view bundle now stored).recorded =
      bundle.recorded.settleMissing := by
    rw [← hr, ← restoreBundle_recorded codec config now]
    apply persistTask_recorded
    rw [restoreBundle_recorded, hr]
    exact bundle.storable.settleMissing
  rw [sameRestore_iff, restoreBundle_workers_none config now hw,
    restoreBundle_workers_none config later hw', restoreBundle_recorded, restoreBundle_recorded,
    hr, hr', hstored, eq_comm, Recorded.settleMissing_settleMissing, and_iff_left rfl, PiecesOnly,
    ← normalizeRestoredStatus_eq_paused]
  apply not_congr
  have hpieces : bundle.recorded.pieces.any (·.completed) = true ↔
      ∃ p ∈ bundle.pieces, p.completed = true := by
    simp [StoredBundle.recorded, dbPiecesToPieceStates]
  have hblocks : bundle.recorded.blocks.any (·.completed) = false ↔
      ∀ b ∈ bundle.blocks, b.completed = false := by
    simp [StoredBundle.recorded, dbBlocksToBlockStates]
  rw [hpieces, hblocks]
  exact (and_iff_right h).symm

/-- Over an existing file and without accepted worker rows, the second restore changes nothing. -/
theorem again_without_workers (hfile : ¬ NoLocalFile view bundle.task)
    (hnone : bundle.task.status ∈ ["Running", "Preparing", "Paused"] →
      acceptedRows codec bundle = []) :
    SameRestore (restoreBundle codec config now view bundle)
      (restoreBundle codec config later view
        (storedAgain codec config view bundle now stored)) := by
  rw [noLocalFile_iff, Bool.not_eq_false] at hfile
  obtain ⟨hr, hw⟩ := buildRestorePlan_settle codec view bundle hfile hnone
  have hpath := persisted_path codec config now stored view bundle
  have hworkers : (storedAgain codec config view bundle now stored).workers = [] := by
    show (restoreBundle codec config now view bundle).workers.map _ = []
    rw [restoreBundle_workers_none config now hw, List.map_nil]
  obtain ⟨hr', hw'⟩ := buildRestorePlan_settle codec view
    (storedAgain codec config view bundle now stored) (by rw [storedAgain, hpath]; exact hfile)
    fun _ => acceptedRows_of_workers_nil hworkers
  have hstored : (storedAgain codec config view bundle now stored).recorded =
      bundle.recorded.settle
        (inspectRestoreFileState view (normalizedTextField bundle.task.filePath)) := by
    rw [← hr, ← restoreBundle_recorded codec config now]
    apply persistTask_recorded
    rw [restoreBundle_recorded, hr]
    exact bundle.storable.settle _
  rw [sameRestore_iff, restoreBundle_workers_none config now hw,
    restoreBundle_workers_none config later hw', restoreBundle_recorded, restoreBundle_recorded,
    hr, hr', hstored]
  refine ⟨?_, rfl⟩
  rw [storedAgain, hpath]
  exact (Recorded.settle_settled _ _).settle.symm

/-- The task of a running row whose worker rows are accepted. -/
structure RestoredRunning (t : Task) (bundle : StoredBundle) (ws : List SegmentRequest)
    (now last : Nat) : Prop where
  id : t.id = bundle.task.id
  recorded : t.recorded = ⟨.paused, (ws.map fun w => w.downloaded.getD 0).sum % 2 ^ 64, some last,
    bundle.recorded.pieces, bundle.recorded.blocks⟩
  workers : ∃ task : Task, task.sources = t.sources ∧ t.workers = ws.map (restoredWorker task now)

theorem restoreBundle_accepted (hfile : ¬ NoLocalFile view bundle.task)
    (hstatus : bundle.task.status ∈ ["Running", "Preparing", "Paused"])
    (hws : acceptedRows codec bundle = ws) (hne : ws ≠ [])
    (hl : AcceptedLanes bundle.task.id bundle.task.totalSize ws last) :
    RestoredRunning (restoreBundle codec config now view bundle) bundle ws now last := by
  rw [noLocalFile_iff, Bool.not_eq_false] at hfile
  have hplan := buildRestorePlan_accepted codec view bundle hstatus hfile hws hne
  refine ⟨?_, ?_, ?_⟩
  · rw [restoreBundle, hplan, addTaskWithWorkers_eq]
    rfl
  · rw [restoreBundle_recorded, hplan, ← hl.size]
    rfl
  · rw [restoreBundle, hplan, addTaskWithWorkers_eq]
    exact ⟨Task.new config now bundle.task.id _, rfl, rfl⟩

theorem acceptedRows_again
    (hj : codec.sourcesFromJson
        (codec.sourcesToJson (restoreBundle codec config now view bundle).sources) =
      some (restoreBundle codec config now view bundle).sources)
    (ht : RestoredRunning (restoreBundle codec config now view bundle) bundle ws now last) :
    ∃ task : Task, (restoreBundle codec config now view bundle).workers =
        ws.map (restoredWorker task now) ∧
      acceptedRows codec (storedAgain codec config view bundle now stored) =
        sanitizeWorkerRequests bundle.task.id (some last) (some task.sources)
          (ws.map fun w => workerRequest bundle.task.id (restoredWorker task now w)) := by
  obtain ⟨task, hsources, hworkers⟩ := ht.workers
  refine ⟨task, hworkers, ?_⟩
  have htotal : (restoreBundle codec config now view bundle).totalSizeOption = some last :=
    congrArg Recorded.total ht.recorded
  show sanitizeWorkerRequests (restoreBundle codec config now view bundle).id
    (restoreBundle codec config now view bundle).totalSizeOption
    (codec.sourcesFromJson
      (codec.sourcesToJson (restoreBundle codec config now view bundle).sources))
    (dbWorkersToRequests ((restoreBundle codec config now view bundle).workers.map
      (workerToDb (restoreBundle codec config now view bundle).id))) = _
  rw [hj, ← hsources, htotal, dbWorkersToRequests_map, ht.id, hworkers, List.map_map]
  rfl

/-- With accepted worker rows, restoring again changes something exactly when a lane ends at the
last offset and the size was not recorded. -/
theorem again_accepted
    (hj : codec.sourcesFromJson
        (codec.sourcesToJson (restoreBundle codec config now view bundle).sources) =
      some (restoreBundle codec config now view bundle).sources)
    (hfile : ¬ NoLocalFile view bundle.task)
    (hstatus : bundle.task.status ∈ ["Running", "Preparing", "Paused"])
    (hne : acceptedRows codec bundle ≠ []) :
    SameRestore (restoreBundle codec config now view bundle)
        (restoreBundle codec config later view (storedAgain codec config view bundle now stored)) ↔
      ¬ LastOffset codec view bundle := by
  obtain ⟨last, hl⟩ :=
    sanitizeWorkerRequests_lanes (show acceptedRows codec bundle = _ from rfl) hne
  have ht := restoreBundle_accepted codec config view bundle now hfile hstatus rfl hne hl
  obtain ⟨task, hworkers, hrows⟩ := acceptedRows_again codec config view bundle now stored hj ht
  have hlast : LastOffset codec view bundle ↔
      ¬ ∀ w ∈ acceptedRows codec bundle, w.endByte < last := by
    rw [hl.within, not_not, LastOffset, and_iff_right hfile, and_iff_right hstatus]
  rw [hlast, not_not]
  have hfile' : ¬ NoLocalFile view (storedAgain codec config view bundle now stored).task := by
    rw [storedAgain_noLocalFile]
    exact hfile
  constructor
  · intro hsame
    by_contra hw
    rw [hl.rejected task now hw] at hrows
    have hnone := buildRestorePlan_rejected codec view
      (storedAgain codec config view bundle now stored) hrows
    have hmap := hsame.workers
    rw [restoreBundle_workers_none config later hnone, hworkers, List.map_nil,
      List.map_eq_nil_iff, List.map_eq_nil_iff] at hmap
    exact hne hmap
  · intro hw
    rw [hl.again task now hw] at hrows
    have hstored : (storedAgain codec config view bundle now stored).recorded =
        (restoreBundle codec config now view bundle).recorded := by
      apply persistTask_recorded
      rw [ht.recorded]
      exact ⟨rfl, bundle.storable.pieces, bundle.storable.blocks⟩
    have hpaused : (storedAgain codec config view bundle now stored).task.status = "Paused" := by
      show (restoreBundle codec config now view bundle).recorded.status.toText = _
      rw [ht.recorded]
      rfl
    have htotal : (storedAgain codec config view bundle now stored).task.totalSize = some last := by
      show (storedAgain codec config view bundle now stored).recorded.total = _
      rw [hstored, ht.recorded]
    have hne' : (acceptedRows codec bundle).map (fun w =>
        restoredRequest bundle.task.id (restoredWorker task now w)) ≠ [] := by
      rw [ne_eq, List.map_eq_nil_iff]
      exact hne
    obtain ⟨last', hl'⟩ := sanitizeWorkerRequests_lanes hrows hne'
    have hsize := hl'.size
    rw [htotal, if_neg (by simp [Nat.ne_of_gt hl.pos]), Option.some.injEq] at hsize
    have ht' := restoreBundle_accepted codec config view _ later hfile' (by simp [hpaused]) hrows
      hne' hl'
    obtain ⟨task', _, hworkers'⟩ := ht'.workers
    rw [sameRestore_iff]
    constructor
    · rw [ht'.recorded, hstored, ht.recorded, ← hsize, List.map_map]
      rfl
    · rw [hworkers, hworkers', List.map_map, List.map_map, List.map_map]
      rfl

/-- Restoring a bundle and restoring what the first restore stored give the same task, exactly
outside two cases: the file is gone and only piece rows record progress, or the size is not
recorded and an accepted lane ends at the last 64-bit offset. -/
theorem restore_idempotent_iff
    (hj : codec.sourcesFromJson
        (codec.sourcesToJson (restoreBundle codec config now view bundle).sources) =
      some (restoreBundle codec config now view bundle).sources) :
    SameRestore (restoreBundle codec config now view bundle)
        (restoreBundle codec config later view (storedAgain codec config view bundle now stored)) ↔
      ¬ PiecesOnly view bundle ∧ ¬ LastOffset codec view bundle := by
  by_cases hfile : NoLocalFile view bundle.task
  · rw [again_missing codec config view bundle now stored later hfile]
    exact (and_iff_left fun h => h.1 hfile).symm
  · have hp : ¬ PiecesOnly view bundle := fun h => hfile h.1
    rw [and_iff_right hp]
    by_cases ha : bundle.task.status ∈ ["Running", "Preparing", "Paused"] ∧
        acceptedRows codec bundle ≠ []
    · exact again_accepted codec config view bundle now stored later hj hfile ha.1 ha.2
    · have hnone : bundle.task.status ∈ ["Running", "Preparing", "Paused"] →
          acceptedRows codec bundle = [] := by
        intro hs
        by_contra hne
        exact ha ⟨hs, hne⟩
      refine iff_of_true
        (again_without_workers codec config view bundle now stored later hfile hnone) ?_
      rintro ⟨_, hs, _, w, hw, _⟩
      rw [hnone hs] at hw
      exact absurd hw List.not_mem_nil

end Again

/-- A codec that reads one set of sources back. -/
def oneSourceCodec : Codec :=
  { bareCodec with
    sourcesToJson := fun _ => "sources"
    sourcesFromJson := fun text =>
      if text = "sources" then some (.forSpec (.https "https://example.com/file.bin") none)
      else none }

/-- A running task of four bytes in two lanes, three of the bytes downloaded. -/
def twoLaneBundle : StoredBundle :=
  let spec := DownloadSpec.https "https://example.com/file.bin"
  let source := SourceDescriptor.fromSpec spec none
  let worker (lane : ExecutionLaneAssignment) (downloaded : Nat) : Worker :=
    .new lane.laneId source lane (some downloaded) (some .running) none
  { task :=
      { (halfDownloadedBundle false).task with
        sourceSetJson := "sources", filePath := " /file.bin ", totalSize := none }
    workers :=
      [workerToDb 1 (worker ⟨1, source.id, true, 1, 1, 0, 0, 2, 3⟩ 1),
        workerToDb 1 (worker ⟨0, source.id, true, 0, 0, 0, 0, 0, 1⟩ 2)]
    pieces := []
    blocks := []
    checksums := [] }

theorem two_lanes_restore_twice :
    let config : Config := ⟨"/downloads", 1, 1, .resume, {}⟩
    let t := restoreBundle oneSourceCodec config 0 (fun _ => some (some 4)) twoLaneBundle
    t.status = .paused ∧ t.totalSizeOption = some 4 ∧ t.workers.map (·.downloadedSize) = [2, 1] ∧
      SameRestore t
        (restoreBundle oneSourceCodec config 1 (fun _ => some (some 4))
          (storedAgain oneSourceCodec config (fun _ => some (some 4)) twoLaneBundle 0 0)) := by
  intro config t
  refine ⟨by decide, by decide, by decide, ?_⟩
  refine (restore_idempotent_iff oneSourceCodec config (fun _ => some (some 4)) twoLaneBundle 0 0 1
    (by decide)).2 ⟨?_, ?_⟩
  · rintro ⟨h | h, _⟩
    · exact absurd h (by decide)
    · cases h
  · rintro ⟨_, _, _, w, hw, hlast⟩
    have hall : ∀ w ∈ acceptedRows oneSourceCodec twoLaneBundle, w.endByte < 2 ^ 64 - 1 := by
      decide
    exact absurd (hall w hw) (Nat.not_lt.2 hlast)

/-- The rows of a running task with one completed piece and no block rows. -/
def piecesOnlyBundle : StoredBundle :=
  { halfDownloadedBundle true with
    task := { (halfDownloadedBundle true).task with sourceSetJson := "sources" }
    blocks := [] }

/-- The file is gone: the task comes back paused the first time and pending the second time. -/
theorem pieces_only_restore_twice :
    let config : Config := ⟨"/downloads", 1, 1, .resume, {}⟩
    let t := restoreBundle oneSourceCodec config 0 (fun _ => none) piecesOnlyBundle
    let t' := restoreBundle oneSourceCodec config 1 (fun _ => none)
      (storedAgain oneSourceCodec config (fun _ => none) piecesOnlyBundle 0 0)
    oneSourceCodec.sourcesFromJson (oneSourceCodec.sourcesToJson t.sources) = some t.sources ∧
      t.status = .paused ∧ t'.status = .pending ∧ ¬ SameRestore t t' := by
  intro config t t'
  have hp : t.status = .paused := by decide
  have hp' : t'.status = .pending := by decide
  refine ⟨by decide, hp, hp', fun h => ?_⟩
  have hs := h.status
  rw [hp, hp'] at hs
  cases hs

end Paradown
