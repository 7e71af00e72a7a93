import Paradown.Acceptance
import Paradown.Assignment
import Paradown.BlockMap
import Paradown.MissingFile

namespace Paradown
set_option autoImplicit true

open Tiling

theorem layoutMatches_iff (blocks : List PieceBlock) (states : List BlockState) :
    blockStateLayoutMatches (initializeBlockStates blocks) states = true ↔
      LayoutMatches blocks states := by
  rw [blockStateLayoutMatches, beq_iff_eq, initializeBlockStates, List.map_map]
  exact eq_comm

/-- The bytes a worker has counted, and no more than its lane has. -/
def Worker.counted (w : Worker) : Nat := min w.downloadedSize w.expectedLength

/-- The bytes of a block were counted by one of the workers. -/
def CountedBy (workers : List Worker) (b : PieceBlock) : Prop :=
  ∃ w ∈ workers, w.start ≤ b.offset ∧ b.offset + b.length ≤ w.start + w.counted

/-- The range of a worker lies inside the payload. -/
def Worker.Inside (total : Nat) (w : Worker) : Prop := w.start ≤ w.endByte ∧ w.endByte < total

theorem Worker.counted_le {w : Worker} (h : w.Inside total) (ht : total < 2 ^ 64) :
    w.start + w.counted ≤ total := by
  have h1 := h.1
  have h2 := h.2
  have hle : w.counted ≤ w.endByte - w.start + 1 := by
    unfold Worker.counted Worker.expectedLength
    split
    · rw [satAdd_of_lt (by omega)]
      omega
    · omega
  omega

theorem markCompletedBlocks_getElem? {blocks : List PieceBlock} {states : List BlockState} {i : Nat}
    (hb : blocks[i]? = some b) (hs : states[i]? = some s) (a e : Nat) :
    (markCompletedBlocks states blocks a e)[i]? =
      some (if a ≤ b.offset ∧ b.blockEnd ≤ e then { s with completed := true } else s) := by
  induction blocks generalizing states i with
  | nil => cases hb
  | cons c cs ih =>
    cases states with
    | nil => cases hs
    | cons t ts =>
      cases i with
      | zero =>
        rw [List.getElem?_cons_zero, Option.some.injEq] at hb hs
        subst hb hs
        rfl
      | succ i => exact ih hb hs

theorem markCompletedBlocks_keys (states : List BlockState) (blocks : List PieceBlock) (a e : Nat) :
    (markCompletedBlocks states blocks a e).map (·.key) = states.map (·.key) := by
  induction states generalizing blocks with
  | nil => cases blocks <;> rfl
  | cons s ss ih =>
    cases blocks with
    | nil => rfl
    | cons b bs =>
      rw [markCompletedBlocks, List.map_cons, List.map_cons, ih]
      split <;> rfl

theorem markWorkerBlocks_layoutMatches {blocks : List PieceBlock} (h : LayoutMatches blocks states)
    (w : Worker) : LayoutMatches blocks (markWorkerBlocks blocks states w) := by
  rw [LayoutMatches] at h ⊢
  simp only [markWorkerBlocks]
  split
  · exact h
  · rw [markCompletedBlocks_keys, h]

/-- One worker completes exactly the blocks it has counted. -/
theorem markWorkerBlocks_exact {blocks : List PieceBlock} {i : Nat}
    (hw : w.Inside total) (ht : total < 2 ^ 64) (hl : 0 < b.length)
    (hend : b.offset + b.length ≤ total) (hb : blocks[i]? = some b) (hs : states[i]? = some s) :
    ∃ s', (markWorkerBlocks blocks states w)[i]? = some s' ∧
      (s'.completed = true ↔ s.completed = true ∨ CountedBy [w] b) := by
  have hcounted : CountedBy [w] b ↔ w.start ≤ b.offset ∧
      b.offset + b.length ≤ w.start + w.counted := by
    simp only [CountedBy, List.mem_singleton, exists_eq_left]
  have hle := Worker.counted_le hw ht
  rw [hcounted]
  simp only [markWorkerBlocks]
  split
  · rename_i hzero
    refine ⟨s, hs, ?_⟩
    have hnone : ¬ (w.start ≤ b.offset ∧ b.offset + b.length ≤ w.start + w.counted) := by
      rw [Worker.counted, hzero]
      omega
    rw [or_iff_left hnone]
  · rename_i hpos
    rw [markCompletedBlocks_getElem? hb hs]
    refine ⟨_, rfl, ?_⟩
    have hcover : w.start ≤ b.offset ∧
        b.blockEnd ≤ satAdd w.start (min w.downloadedSize w.expectedLength) - 1 ↔
          w.start ≤ b.offset ∧ b.offset + b.length ≤ w.start + w.counted := by
      rw [Worker.counted] at hle ⊢
      rw [PieceBlock.blockEnd, satAdd_of_lt (by omega), satAdd_of_lt (by omega)]
      omega
    rw [← hcover]
    split
    · rename_i hc
      simp only [hc, and_self, or_true]
    · rename_i hc
      rw [or_iff_left hc]

theorem foldl_markWorkerBlocks_exact {blocks : List PieceBlock} {workers : List Worker} {i : Nat}
    (hw : ∀ w ∈ workers, w.Inside total) (ht : total < 2 ^ 64) (hl : 0 < b.length)
    (hend : b.offset + b.length ≤ total) (hb : blocks[i]? = some b) (hs : states[i]? = some s) :
    ∃ s', (workers.foldl (markWorkerBlocks blocks) states)[i]? = some s' ∧
      (s'.completed = true ↔ s.completed = true ∨ CountedBy workers b) := by
  induction workers generalizing states s with
  | nil =>
    refine ⟨s, hs, ?_⟩
    rw [CountedBy]
    simp
  | cons w ws ih =>
    obtain ⟨s₁, hs₁, h₁⟩ := markWorkerBlocks_exact (hw w List.mem_cons_self) ht hl hend hb hs
    obtain ⟨s₂, hs₂, h₂⟩ := ih (fun v hv => hw v (List.mem_cons_of_mem _ hv)) hs₁
    refine ⟨s₂, hs₂, ?_⟩
    rw [h₂, h₁, or_assoc]
    simp only [CountedBy, List.mem_singleton, exists_eq_left, List.exists_mem_cons_iff]

theorem foldl_markWorkerBlocks_layoutMatches {blocks : List PieceBlock} {states : List BlockState}
    (h : LayoutMatches blocks states) (workers : List Worker) :
    LayoutMatches blocks (workers.foldl (markWorkerBlocks blocks) states) := by
  induction workers generalizing states with
  | nil => exact h
  | cons w ws ih => exact ih (markWorkerBlocks_layoutMatches h w)

/-- The worker runs over the bytes of a lane. -/
def Worker.OnLane (w : Worker) (lane : ExecutionLaneAssignment) : Prop :=
  w.start = lane.start ∧ w.endByte = lane.endByte ∧ w.lengthKnown = lane.lengthKnown

/-- What a synchronisation of the block map with the workers has to achieve. -/
structure SyncedExactly (m : SessionManifest) (t t' : Task) : Prop where
  layout : LayoutMatches m.blocks t'.blockStates
  blocks : ∀ (i : Nat) (b : PieceBlock) (s s' : BlockState), m.blocks[i]? = some b →
    t.blockStates[i]? = some s → t'.blockStates[i]? = some s' →
      (s'.completed = true ↔ s.completed = true ∨ CountedBy t.workers b)
  pieces : PiecesExact m t'.blockStates t'.pieceStates
  monotone : completedBlockCount t.blockStates ≤ completedBlockCount t'.blockStates
  honest : ∀ byte, CompletedByte m.blocks t'.blockStates byte →
    CompletedByte m.blocks t.blockStates byte ∨
      ∃ w ∈ t.workers, w.start ≤ byte ∧ byte < w.start + w.counted
  planned : ∀ (requestedWorkers : Nat) (allowParallel : Bool) (preferred : List String)
    (lanes : List ExecutionLaneAssignment),
    planExecutionLanesWithSourceOrder m requestedWorkers allowParallel preferred = some lanes →
    List.Forall₂ Worker.OnLane t.workers lanes →
      t'.downloadedSize = (t.workers.map (·.counted)).sum ∧ t'.downloadedSize ≤ m.totalSize

/-- Synchronisation is exact for every block map of the layout and all workers inside the
payload. -/
def SessionManifest.SyncsExactly (m : SessionManifest) : Prop :=
  ∀ t : Task, t.manifest = some m → LayoutMatches m.blocks t.blockStates →
    (∀ w ∈ t.workers, w.Inside m.totalSize) →
      SyncedExactly m t t.syncPieceProgressFromWorkers.2

theorem foldl_satAdd {workers : List Worker} (h : n + (workers.map (·.counted)).sum < 2 ^ 64) :
    workers.foldl (fun n w => satAdd n (min w.downloadedSize w.expectedLength)) n =
      n + (workers.map (·.counted)).sum := by
  induction workers generalizing n with
  | nil => rfl
  | cons w ws ih =>
    rw [List.map_cons, List.sum_cons] at h ⊢
    have hadd : satAdd n (min w.downloadedSize w.expectedLength) = n + w.counted := by
      apply satAdd_of_lt
      rw [Worker.counted] at h
      omega
    rw [List.foldl_cons, hadd, ih (by omega)]
    omega

theorem countP_le_of_forall₂ {p : α → Bool} {xs ys : List α}
    (h : List.Forall₂ (fun x y => p x = true → p y = true) xs ys) : xs.countP p ≤ ys.countP p := by
  induction h with
  | nil => exact le_refl _
  | @cons x y xs ys hxy _ ih =>
    rw [List.countP_cons, List.countP_cons]
    by_cases hx : p x = true
    · simp only [hx, hxy hx, if_true]
      omega
    · rw [if_neg hx]
      omega

theorem SessionManifest.KnownSize.plan_nil {m : SessionManifest} (h : m.KnownSize)
    (hs : m.totalSize = 0 ∨ m.sources.activeTransferSources = []) :
    planExecutionLanesWithSourceOrder m requestedWorkers allowParallel preferred = some [] := by
  by_cases hactive : m.sources.activeTransferSources = []
  · simp only [planExecutionLanesWithSourceOrder, hactive, List.insertionSort_nil, List.isEmpty_nil,
      Bool.or_true, List.head?_nil, Option.map_none, Option.toList_none, ite_self]
  · have hz := hs.resolve_right hactive
    obtain ⟨_, _, _, hp, _⟩ := h.layout
    rw [hz, planPieceLayouts, if_pos rfl] at hp
    simp only [planExecutionLanesWithSourceOrder, hp, List.isEmpty_nil, if_true, h.known,
      Bool.not_true, Bool.false_or, List.isEmpty_eq_false_iff.2 hactive, Bool.false_eq_true,
      if_false]

theorem SessionManifest.KnownSize.counted_le {m : SessionManifest} (h : m.KnownSize)
    (hplan : planExecutionLanesWithSourceOrder m requestedWorkers allowParallel preferred =
      some lanes) (hw : List.Forall₂ Worker.OnLane workers lanes) :
    (workers.map (·.counted)).sum ≤ m.totalSize := by
  by_cases hs : m.totalSize = 0 ∨ m.sources.activeTransferSources = []
  · rw [h.plan_nil hs] at hplan
    cases hplan
    cases hw
    exact Nat.zero_le _
  · push Not at hs
    have hchain := (h.planned (Nat.pos_of_ne_zero hs.1)).laneChain hs.2 hplan
    have hle : 0 + (workers.map (·.counted)).sum ≤ m.totalSize := by
      apply hchain.sum_le
      apply hw.imp
      rintro w lane ⟨hstart, hend, _⟩
      rw [← hstart, ← hend]
      unfold Worker.counted Worker.expectedLength satAdd
      split <;> omega
    omega

theorem Task.sync_eq {t : Task} (hm : t.manifest = some m) (hk : m.totalSizeKnown = true)
    (hlayout : LayoutMatches m.blocks t.blockStates) :
    t.syncPieceProgressFromWorkers.2 = { t with
      blockStates := t.workers.foldl (markWorkerBlocks m.blocks) t.blockStates
      pieceStates := derivePieceStatesFromBlocks m.pieces m.blocks
        (t.workers.foldl (markWorkerBlocks m.blocks) t.blockStates)
      downloadedSize := min (workersDownloaded t.workers) m.totalSize } := by
  have hmatch := (layoutMatches_iff _ _).2 hlayout
  simp only [Task.syncPieceProgressFromWorkers, hm, hmatch, if_true, hk, Bool.not_true,
    Bool.false_eq_true, if_false]

theorem SessionManifest.KnownSize.syncsExactly {m : SessionManifest} (h : m.KnownSize)
    (hle : m.pieces.length ≤ 2 ^ 32) : m.SyncsExactly := by
  intro t hm hlayout hw
  rw [Task.sync_eq hm h.known hlayout]
  have hlayout' := foldl_markWorkerBlocks_layoutMatches hlayout t.workers
  have hblocks {i : Nat} {b : PieceBlock} {s : BlockState} (hb : m.blocks[i]? = some b)
      (hs : t.blockStates[i]? = some s) := by
    obtain ⟨⟨_, hend⟩, hl⟩ := h.blocks_tile.inside b (List.mem_of_getElem? hb)
    exact foldl_markWorkerBlocks_exact hw h.size hl hend hb hs
  have hexact {i : Nat} {b : PieceBlock} {s s' : BlockState} (hb : m.blocks[i]? = some b)
      (hs : t.blockStates[i]? = some s)
      (hs' : (t.workers.foldl (markWorkerBlocks m.blocks) t.blockStates)[i]? = some s') :
      s'.completed = true ↔ s.completed = true ∨ CountedBy t.workers b := by
    obtain ⟨s'', hs'', hiff⟩ := hblocks hb hs
    obtain rfl := Option.some.inj (hs'.symm.trans hs'')
    exact hiff
  constructor
  case layout => exact hlayout'
  case blocks => exact fun i b s s' hb hs hs' => hexact hb hs hs'
  case pieces => exact h.derive_exact hle hlayout'
  case monotone =>
    apply countP_le_of_forall₂
    rw [List.forall₂_iff_get]
    refine ⟨by rw [hlayout.length, hlayout'.length], ?_⟩
    intro i h1 h2 hc
    have hb : i < m.blocks.length := by rw [← hlayout.length]; exact h1
    exact (hexact (List.getElem?_eq_getElem hb) (List.getElem?_eq_getElem h1)
      (List.getElem?_eq_getElem h2)).2 (.inl hc)
  case honest =>
    rintro byte ⟨i, b, s', hb, hs', hc, hlow, hhigh⟩
    obtain ⟨s, hs⟩ := hlayout.state hb
    rcases (hexact hb hs hs').1 hc with hc | ⟨w, hwm, h1, h2⟩
    · exact .inl ⟨i, b, s, hb, hs, hc, hlow, hhigh⟩
    · exact .inr ⟨w, hwm, by omega, by omega⟩
  case planned =>
    intro requestedWorkers allowParallel preferred lanes hplan hlanes
    have hsum := h.counted_le hplan hlanes
    have hsize := h.size
    have hdownloaded : workersDownloaded t.workers = (t.workers.map (·.counted)).sum := by
      rw [workersDownloaded, foldl_satAdd (by omega), Nat.zero_add]
    simp only [hdownloaded]
    omega

/-- With more pieces than 32 bits can number, a piece is taken for completed on the strength of the
blocks of another. -/
theorem SessionManifest.KnownSize.not_syncsExactly {m : SessionManifest} (h : m.KnownSize)
    (hlarge : 2 ^ 32 < m.pieces.length) : ¬ m.SyncsExactly := by
  intro hall
  have hkeys : ¬ (m.blocks.map (·.key)).Nodup := by
    rw [h.keys_nodup_iff]
    omega
  obtain ⟨j, b, hb, hhidden⟩ := exists_hidden_block hkeys
  let t : Task := { restoredTask (allBut m.blocks j) with manifest := some m }
  have hlayout := allBut_layoutMatches m.blocks j
  have hexact := hall t rfl hlayout (fun w hw => absurd hw List.not_mem_nil)
  rw [Task.sync_eq rfl h.known hlayout] at hexact
  obtain ⟨p, hp, h1, h2⟩ := h.block_inside (List.mem_of_getElem? hb)
  obtain ⟨i, hi⟩ := List.mem_iff_getElem?.1 hp
  have hall' : (m.blocks.filter (·.pieceIndex == p.pieceIndex)).all
      (blockCompleted (allBut m.blocks j)) = true := by
    apply List.all_eq_true.2
    intro c hc
    exact hhidden c (List.mem_filter.1 hc).1
  have hpiece : (derivePieceStatesFromBlocks m.pieces m.blocks (allBut m.blocks j))[i]? =
      some ⟨p.pieceIndex, true⟩ := by
    rw [derivePieceStatesFromBlocks, List.getElem?_map, hi, Option.map_some, hall']
  have hcompleted := (hexact.pieces.exact i p _ hi hpiece).1 rfl j b _ hb
    (allBut_getElem? j hb) h1 h2
  simp at hcompleted

/-- Synchronising the progress is exact, for every block map and all workers, exactly when 32 bits
can number the pieces. -/
theorem sync_exact_iff (m : SessionManifest) (h : m.KnownSize) :
    m.SyncsExactly ↔ m.pieces.length ≤ 2 ^ 32 := by
  constructor
  · intro hall
    by_contra hlarge
    exact h.not_syncsExactly (by omega) hall
  · exact h.syncsExactly

theorem four_bytes_sync_exactly : fourByteManifest.SyncsExactly :=
  (sync_exact_iff fourByteManifest (forSingleFile_knownSize (by decide))).2 (by decide)

theorem huge_payload_syncs_inexactly :
    hugeManifest.KnownSize ∧ ¬ hugeManifest.SyncsExactly := by
  have h : hugeManifest.KnownSize := forSingleFile_knownSize (by decide)
  refine ⟨h, ?_⟩
  apply h.not_syncsExactly
  rw [hugeManifest_pieces]
  decide

end Paradown
