import Paradown.Partition
import Paradown.Tiling
import Mathlib.Data.List.Forall2

namespace Paradown
set_option autoImplicit true

open Tiling

/-- The blocks of one piece. -/
def pieceBlocks (blockSize : Nat) (piece : PieceLayout) : List PieceBlock :=
  blockLoop piece.pieceIndex (satAdd piece.offset piece.length) (max blockSize 1) piece.length 0
    piece.offset

theorem planPieceBlocks_eq (pieces : List PieceLayout) (blockSize : Nat) :
    planPieceBlocks pieces blockSize = pieces.flatMap (pieceBlocks blockSize) := rfl

abbrev PiecesTile := Tiled PieceLayout.offset PieceLayout.length

abbrev BlocksTile := Tiled PieceBlock.offset PieceBlock.length

theorem PieceChain.tiles {xs : List PieceLayout} (h : PieceChain index base xs total) :
    PiecesTile base xs total := by
  induction xs generalizing index base with
  | nil => exact h
  | cons p ps ih =>
    obtain ⟨_, ho, hl, hr⟩ := h
    exact ⟨ho, hl, ih hr⟩

abbrev LanesTile := Tiled ExecutionLaneAssignment.start fun lane => lane.endByte + 1 - lane.start

theorem LaneChain.tiles (h : LaneChain n count sources k base lanes total) :
    LanesTile base lanes total := by
  induction lanes generalizing k base with
  | nil => exact h.2
  | cons lane rest ih =>
    have hstart := h.1.start
    have horder := h.1.order
    have hnext : base + (lane.endByte + 1 - lane.start) = lane.endByte + 1 := by omega
    have hpos : 0 < lane.endByte + 1 - lane.start := by omega
    refine ⟨hstart, hpos, ?_⟩
    rw [hnext]
    exact ih h.2

theorem LaneChain.known (h : LaneChain n count sources k base lanes total) :
    ∀ lane ∈ lanes, lane.lengthKnown = true := by
  intro lane hm
  obtain ⟨i, hi, rfl⟩ := List.getElem_of_mem hm
  obtain ⟨_, hlane⟩ := h.getElem hi
  exact hlane.known

theorem LaneChain.bounds (h : LaneChain n count sources k base lanes total) :
    ∀ lane ∈ lanes, base ≤ lane.start ∧ lane.start ≤ lane.endByte ∧ lane.endByte < total := by
  intro lane hm
  obtain ⟨⟨h1, h2⟩, h3⟩ := h.tiles.inside lane hm
  dsimp only at h1 h2 h3
  omega

theorem LaneChain.sum_le {amount : β → Nat} (h : LaneChain n count sources k base lanes total)
    (hf : List.Forall₂ (fun y lane => amount y ≤ lane.endByte - lane.start + 1) ys lanes) :
    base + (ys.map amount).sum ≤ total := by
  apply h.tiles.sum_le
  apply ((List.forall₂_and_left _ _).2 ⟨h.bounds, hf.flip⟩).imp
  rintro lane y ⟨hbounds, hle⟩
  have hcount : amount y ≤ lane.endByte - lane.start + 1 := hle
  omega

theorem PieceChain.index_eq {xs : List PieceLayout} (h : PieceChain index base xs total) :
    xs.map (·.pieceIndex) = (List.range' index xs.length).map (· % 2 ^ 32) := by
  induction xs generalizing index base with
  | nil => rfl
  | cons p ps ih =>
    obtain ⟨hi, _, _, hr⟩ := h
    rw [List.map_cons, ih hr, List.length_cons, List.range'_succ, List.map_cons, hi]

theorem blockLoop_tiles (hs : 0 < blockSize) (ho : offset ≤ pieceEnd) (he : pieceEnd < 2 ^ 64)
    (hf : pieceEnd - offset ≤ fuel) :
    BlocksTile offset (blockLoop pieceIndex pieceEnd blockSize fuel blockIndex offset)
      pieceEnd := by
  induction fuel generalizing blockIndex offset with
  | zero =>
    have heq : offset = pieceEnd := by omega
    exact heq
  | succ fuel ih =>
    simp only [blockLoop]
    split
    · have hl : 0 < min (pieceEnd - offset) blockSize := by omega
      have hn : offset + min (pieceEnd - offset) blockSize ≤ pieceEnd := by omega
      have hf' : pieceEnd - (offset + min (pieceEnd - offset) blockSize) ≤ fuel := by omega
      refine ⟨rfl, hl, ?_⟩
      rw [satAdd_of_lt (by omega)]
      exact ih hn hf'
    · have heq : offset = pieceEnd := by omega
      exact heq

theorem pieceBlocks_tiles (h : piece.offset + piece.length < 2 ^ 64) (blockSize : Nat) :
    BlocksTile piece.offset (pieceBlocks blockSize piece) (piece.offset + piece.length) := by
  rw [pieceBlocks, satAdd_of_lt h]
  exact blockLoop_tiles (by omega) (by omega) h (by omega)

theorem pieceBlocks_pieceIndex : ∀ b ∈ pieceBlocks blockSize piece,
    b.pieceIndex = piece.pieceIndex := blockLoop_pieceIndex

/-- The blocks of a tiling into pieces tile the same bytes. -/
theorem planPieceBlocks_tiles (h : PiecesTile base pieces total) (ht : total < 2 ^ 64)
    (blockSize : Nat) : BlocksTile base (planPieceBlocks pieces blockSize) total := by
  rw [planPieceBlocks_eq]
  apply h.flatMap
  intro p hp
  obtain ⟨⟨_, h2⟩, _⟩ := h.inside p hp
  exact pieceBlocks_tiles (by omega) blockSize

theorem blockLoop_blockIndex (h : blockIndex + fuel < 2 ^ 32) :
    (blockLoop pieceIndex pieceEnd blockSize fuel blockIndex offset).map (·.blockIndex) =
      List.range' blockIndex
        (blockLoop pieceIndex pieceEnd blockSize fuel blockIndex offset).length := by
  induction fuel generalizing blockIndex offset with
  | zero => rfl
  | succ fuel ih =>
    have hnext : satAdd32 blockIndex 1 = blockIndex + 1 := by
      unfold satAdd32
      omega
    simp only [blockLoop, hnext]
    split
    · rw [List.map_cons, List.length_cons, List.range'_succ, ih (by omega)]
    · rfl

/-- The pair of numbers by which the block states name a block. -/
def PieceBlock.key (b : PieceBlock) : Nat × Nat := (b.pieceIndex, b.blockIndex)

def BlockState.key (s : BlockState) : Nat × Nat := (s.pieceIndex, s.blockIndex)

theorem pieceBlocks_keys_nodup (h : piece.length < 2 ^ 32) :
    ((pieceBlocks blockSize piece).map (·.key)).Nodup := by
  have hidx : ((pieceBlocks blockSize piece).map (·.blockIndex)).Nodup := by
    rw [pieceBlocks, blockLoop_blockIndex (by omega)]
    exact List.nodup_range'
  apply List.Nodup.of_map Prod.snd
  rw [List.map_map]
  exact hidx

theorem planPieceBlocks_keys_nodup {pieces : List PieceLayout}
    (hn : (pieces.map (·.pieceIndex)).Nodup) (hl : ∀ p ∈ pieces, p.length < 2 ^ 32) :
    ((planPieceBlocks pieces blockSize).map (·.key)).Nodup := by
  rw [planPieceBlocks_eq, List.map_flatMap, List.nodup_flatMap]
  refine ⟨?_, ?_⟩
  · intro p hp
    exact pieceBlocks_keys_nodup (hl p hp)
  · apply (List.pairwise_map.1 hn).imp
    intro p q hne
    apply List.disjoint_left.2
    intro k hk hk'
    obtain ⟨b, hb, rfl⟩ := List.mem_map.1 hk
    obtain ⟨c, hc, he⟩ := List.mem_map.1 hk'
    apply hne
    rw [← pieceBlocks_pieceIndex b hb, ← pieceBlocks_pieceIndex c hc]
    exact (congrArg Prod.fst he).symm

theorem planPieceBlocks_filter {pieces : List PieceLayout}
    (hn : (pieces.map (·.pieceIndex)).Nodup) (hp : p ∈ pieces) :
    (planPieceBlocks pieces blockSize).filter (·.pieceIndex == p.pieceIndex) =
      pieceBlocks blockSize p := by
  have hsame (q : PieceLayout) (he : q.pieceIndex = p.pieceIndex) :
      (pieceBlocks blockSize q).filter (·.pieceIndex == p.pieceIndex) =
        pieceBlocks blockSize q := by
    apply List.filter_eq_self.2
    intro b hb
    rw [pieceBlocks_pieceIndex b hb, he]
    exact beq_self_eq_true _
  have hother (q : PieceLayout) (he : q.pieceIndex ≠ p.pieceIndex) :
      (pieceBlocks blockSize q).filter (·.pieceIndex == p.pieceIndex) = [] := by
    apply List.filter_eq_nil_iff.2
    intro b hb hin
    rw [pieceBlocks_pieceIndex b hb] at hin
    exact he (eq_of_beq hin)
  rw [planPieceBlocks_eq]
  induction pieces with
  | nil => cases hp
  | cons q qs ih =>
    rw [List.map_cons, List.nodup_cons] at hn
    rw [List.flatMap_cons, List.filter_append]
    rcases List.mem_cons.1 hp with rfl | hp
    · have hrest : (qs.flatMap (pieceBlocks blockSize)).filter
          (·.pieceIndex == p.pieceIndex) = [] := by
        rw [List.filter_flatMap]
        apply List.flatMap_eq_nil_iff.2
        intro r hr
        apply hother
        intro he
        apply hn.1
        rw [← he]
        exact List.mem_map_of_mem hr
      rw [hsame p rfl, hrest, List.append_nil]
    · have hne : q.pieceIndex ≠ p.pieceIndex := by
        intro he
        apply hn.1
        rw [he]
        exact List.mem_map_of_mem hp
      rw [hother q hne, List.nil_append]
      exact ih hn.2 hp

theorem find?_of_nodup [DecidableEq κ] {f : α → κ} {l : List α} (hn : (l.map f).Nodup)
    (hx : x ∈ l) : l.find? (fun y => f y == f x) = some x := by
  induction l with
  | nil => cases hx
  | cons y ys ih =>
    rw [List.map_cons, List.nodup_cons] at hn
    rcases List.mem_cons.1 hx with rfl | hx
    · rw [List.find?_cons, beq_self_eq_true]
    · have hne : (f y == f x) = false := by
        rw [beq_eq_false_iff_ne]
        intro he
        apply hn.1
        rw [he]
        exact List.mem_map_of_mem hx
      rw [List.find?_cons, hne]
      exact ih hn.2 hx

/-- The states name the blocks of the list one by one. -/
def LayoutMatches (blocks : List PieceBlock) (states : List BlockState) : Prop :=
  states.map (·.key) = blocks.map (·.key)

instance : Decidable (LayoutMatches blocks states) := inferInstanceAs (Decidable (_ = _))

theorem LayoutMatches.length (h : LayoutMatches blocks states) : states.length = blocks.length := by
  have hl := congrArg List.length h
  rw [List.length_map, List.length_map] at hl
  exact hl

theorem LayoutMatches.key {blocks : List PieceBlock} {i : Nat} (h : LayoutMatches blocks states)
    (hb : blocks[i]? = some b) (hs : states[i]? = some s) : s.key = b.key := by
  have hk := congrArg (fun l => l[i]?) h
  simp only [List.getElem?_map, hb, hs, Option.map_some, Option.some.injEq] at hk
  exact hk

theorem LayoutMatches.initialize (blocks : List PieceBlock) :
    LayoutMatches blocks (initializeBlockStates blocks) := by
  rw [LayoutMatches, initializeBlockStates, List.map_map]
  rfl

theorem blockCompleted_of_nodup {blocks : List PieceBlock} {i : Nat}
    (hn : (blocks.map (·.key)).Nodup) (hm : LayoutMatches blocks states)
    (hb : blocks[i]? = some b) (hs : states[i]? = some s) :
    blockCompleted states b = s.completed := by
  have hkey := hm.key hb hs
  have hfind : states.find? (fun t =>
      t.pieceIndex == b.pieceIndex && t.blockIndex == b.blockIndex) = some s := by
    rw [← find?_of_nodup (f := BlockState.key) (hm ▸ hn) (List.mem_of_getElem? hs)]
    congr 1
    funext t
    rw [hkey, Bool.eq_iff_iff]
    simp only [BlockState.key, PieceBlock.key, Bool.and_eq_true, beq_iff_eq, Prod.mk.injEq]
  rw [blockCompleted, hfind]

theorem pieceBlocks_head (hl : 0 < piece.length) (ht : piece.offset + piece.length < 2 ^ 64)
    (blockSize : Nat) : ∃ b bs, pieceBlocks blockSize piece = b :: bs ∧
      b.key = (piece.pieceIndex, 0) ∧ b.offset = piece.offset := by
  have htiles := pieceBlocks_tiles ht blockSize
  cases hb : pieceBlocks blockSize piece with
  | nil =>
    rw [hb] at htiles
    have he : piece.offset = piece.offset + piece.length := htiles
    omega
  | cons b bs =>
    have hmem : b ∈ pieceBlocks blockSize piece := hb ▸ List.mem_cons_self
    have hidx := pieceBlocks_pieceIndex b hmem
    rw [hb] at htiles
    refine ⟨b, bs, rfl, ?_, htiles.1⟩
    rw [PieceBlock.key, hidx, blockLoop_head hb]

theorem getElem?_map_mod (n k : Nat) (h : k < n) :
    ((List.range' 0 n).map (· % 2 ^ 32))[k]? = some (k % 2 ^ 32) := by
  rw [List.getElem?_map, List.getElem?_range' h, Option.map_some, Nat.zero_add, Nat.one_mul]

theorem PieceChain.nodup_iff {xs : List PieceLayout} (h : PieceChain 0 base xs total) :
    (xs.map (·.pieceIndex)).Nodup ↔ xs.length ≤ 2 ^ 32 := by
  rw [h.index_eq]
  constructor
  · intro hn
    by_contra hlarge
    have h0 := getElem?_map_mod xs.length 0 (by omega)
    have h1 := getElem?_map_mod xs.length (2 ^ 32) (by omega)
    refine List.nodup_iff_getElem?_ne_getElem?.1 hn 0 (2 ^ 32) (by decide) ?_ (h0.trans h1.symm)
    rw [List.length_map, List.length_range']
    omega
  · intro hle
    apply List.Nodup.map_on _ List.nodup_range'
    intro a ha b hb he
    rw [List.mem_range'_1] at ha hb
    rw [Nat.mod_eq_of_lt (by omega), Nat.mod_eq_of_lt (by omega)] at he
    exact he

/-- A manifest of known size, as every constructor plans its pieces and blocks. -/
structure SessionManifest.KnownSize (m : SessionManifest) : Prop where
  known : m.totalSizeKnown = true
  size : m.totalSize < 2 ^ 64
  layout : ∃ pieceSize blockSize, pieceSize < 2 ^ 32 ∧
    m.pieces = planPieceLayouts m.totalSize pieceSize ∧
    m.blocks = planPieceBlocks m.pieces blockSize

theorem forSingleFile_knownSize (ht : totalSize < 2 ^ 64) :
    (SessionManifest.forSingleFileWithPieceSize spec sources fileName filePath totalSize pieceSize
      blockSize checksums).KnownSize :=
  ⟨rfl, ht, _, _, by omega, rfl, rfl⟩

theorem SessionManifest.KnownSize.chain {m : SessionManifest} (h : m.KnownSize) :
    PieceChain 0 0 m.pieces m.totalSize := by
  obtain ⟨pieceSize, _, _, hp, _⟩ := h.layout
  rw [hp]
  exact planPieceLayouts_chain _ _

theorem SessionManifest.KnownSize.pieces_tile {m : SessionManifest} (h : m.KnownSize) :
    PiecesTile 0 m.pieces m.totalSize := h.chain.tiles

theorem SessionManifest.KnownSize.blocks_tile {m : SessionManifest} (h : m.KnownSize) :
    BlocksTile 0 m.blocks m.totalSize := by
  obtain ⟨_, blockSize, _, _, hb⟩ := h.layout
  rw [hb]
  exact planPieceBlocks_tiles h.pieces_tile h.size blockSize

theorem pieceLoop_length_le : ∀ p ∈ pieceLoop totalSize pieceSize fuel index offset,
    p.length ≤ pieceSize := by
  induction fuel generalizing index offset with
  | zero => simp [pieceLoop]
  | succ fuel ih =>
    intro p hm
    simp only [pieceLoop] at hm
    split at hm
    · rcases List.mem_cons.1 hm with rfl | hm
      · exact Nat.min_le_right _ _
      · exact ih p hm
    · cases hm

theorem SessionManifest.KnownSize.length_lt {m : SessionManifest} (h : m.KnownSize) :
    ∀ p ∈ m.pieces, p.length < 2 ^ 32 := by
  intro p hp
  obtain ⟨pieceSize, _, hs, hpieces, _⟩ := h.layout
  rw [hpieces, planPieceLayouts] at hp
  split at hp
  · cases hp
  · have hle := pieceLoop_length_le p hp
    omega

/-- The keys name the blocks of a manifest exactly when it has at most 2^32 pieces. -/
theorem SessionManifest.KnownSize.keys_nodup_iff {m : SessionManifest} (h : m.KnownSize) :
    (m.blocks.map (·.key)).Nodup ↔ m.pieces.length ≤ 2 ^ 32 := by
  obtain ⟨_, blockSize, _, _, hb⟩ := h.layout
  constructor
  · intro hn
    rw [hb, planPieceBlocks_eq, List.map_flatMap, List.nodup_flatMap] at hn
    apply h.chain.nodup_iff.1
    rw [List.Nodup, List.pairwise_map]
    apply hn.2.imp_of_mem
    intro p q hp hq hdisjoint he
    -- each of two pieces with one number has a block of the key `(number, 0)`
    have hkey (r : PieceLayout) (hr : r ∈ m.pieces) :
        (r.pieceIndex, 0) ∈ (pieceBlocks blockSize r).map (·.key) := by
      obtain ⟨⟨_, h2⟩, hl⟩ := h.pieces_tile.inside r hr
      have ht := h.size
      obtain ⟨b, bs, hbs, hk, _⟩ := pieceBlocks_head hl (by omega) blockSize
      rw [hbs, ← hk]
      exact List.mem_cons_self
    apply List.disjoint_left.1 hdisjoint (hkey p hp)
    rw [he]
    exact hkey q hq
  · intro hle
    rw [hb]
    exact planPieceBlocks_keys_nodup (h.chain.nodup_iff.2 hle) h.length_lt

end Paradown
