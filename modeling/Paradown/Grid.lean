import Paradown.Layout

namespace Paradown
set_option autoImplicit true

open Tiling

/-- The plan of the pieces of a payload: they are numbered by their position and follow one another
over the payload, and all but the last have the full size. None of the counters reaches its bound,
not even after the last piece. -/
structure PiecesPlanned (totalSize pieceSize : Nat) (pieces : List PieceLayout) : Prop where
  tiles : PiecesTile 0 pieces totalSize
  index : ∀ (i : Nat) (piece : PieceLayout), pieces[i]? = some piece → piece.pieceIndex = i
  length : ∀ (i : Nat) (piece : PieceLayout), pieces[i]? = some piece →
    piece.length ≤ max pieceSize 1 ∧ (i + 1 < pieces.length → piece.length = max pieceSize 1)
  counters : ∀ piece ∈ pieces, piece.pieceIndex + 1 < 2 ^ 32 ∧ piece.offset + piece.length < 2 ^ 64

/-- The plan of the blocks of one piece. -/
structure BlocksPlanned (blockSize : Nat) (piece : PieceLayout) (blocks : List PieceBlock) :
    Prop where
  tiles : BlocksTile piece.offset blocks (piece.offset + piece.length)
  index : ∀ (i : Nat) (b : PieceBlock), blocks[i]? = some b →
    b.pieceIndex = piece.pieceIndex ∧ b.blockIndex = i
  length : ∀ b ∈ blocks, 1 ≤ b.length ∧ b.length ≤ max blockSize 1
  counters : ∀ b ∈ blocks, b.blockIndex + 1 < 2 ^ 32 ∧ b.offset + b.length < 2 ^ 64

/-- The order of the pairs `(piece_index, block_index)`. -/
def PieceBlock.Precedes (a b : PieceBlock) : Prop :=
  a.pieceIndex < b.pieceIndex ∨ a.pieceIndex = b.pieceIndex ∧ a.blockIndex < b.blockIndex

theorem pieceLoop_fuel (hs : 0 < pieceSize) (hf : total - offset ≤ fuel)
    (hf' : total - offset ≤ fuel') :
    pieceLoop total pieceSize fuel index offset = pieceLoop total pieceSize fuel' index offset := by
  induction fuel generalizing fuel' index offset with
  | zero =>
    have hend : ¬ offset < total := by omega
    cases fuel' with
    | zero => rfl
    | succ fuel' => simp only [pieceLoop, hend, if_false]
  | succ fuel ih =>
    cases fuel' with
    | zero =>
      have hend : ¬ offset < total := by omega
      simp only [pieceLoop, hend, if_false]
    | succ fuel' =>
      simp only [pieceLoop]
      split
      · exact congrArg (List.cons _) (ih (by omega) (by omega))
      · rfl

theorem blockLoop_fuel (hs : 0 < blockSize) (he : pieceEnd < 2 ^ 64) (hf : pieceEnd - offset ≤ fuel)
    (hf' : pieceEnd - offset ≤ fuel') :
    blockLoop pieceIndex pieceEnd blockSize fuel blockIndex offset =
      blockLoop pieceIndex pieceEnd blockSize fuel' blockIndex offset := by
  induction fuel generalizing fuel' blockIndex offset with
  | zero =>
    have hend : ¬ offset < pieceEnd := by omega
    cases fuel' with
    | zero => rfl
    | succ fuel' => simp only [blockLoop, hend, if_false]
  | succ fuel ih =>
    cases fuel' with
    | zero =>
      have hend : ¬ offset < pieceEnd := by omega
      simp only [blockLoop, hend, if_false]
    | succ fuel' =>
      simp only [blockLoop]
      split
      · have hsat : satAdd offset (min (pieceEnd - offset) blockSize) =
            offset + min (pieceEnd - offset) blockSize := satAdd_of_lt (by omega)
        rw [hsat]
        exact congrArg (List.cons _) (ih (by omega) (by omega))
      · rfl

theorem planPieceLayouts_eq_loop (total pieceSize : Nat) :
    planPieceLayouts total pieceSize = pieceLoop total (max pieceSize 1) total 0 0 := by
  unfold planPieceLayouts
  split
  case isTrue h =>
    subst h
    rfl
  case isFalse => rfl

theorem pieceLoop_full {i : Nat}
    (h : (pieceLoop total pieceSize fuel index offset)[i]? = some piece)
    (hi : i + 1 < (pieceLoop total pieceSize fuel index offset).length) :
    piece.length = pieceSize := by
  induction fuel generalizing i index offset with
  | zero => cases h
  | succ fuel ih =>
    simp only [pieceLoop] at h hi
    split at h
    case isFalse => cases h
    case isTrue hlt =>
      rw [if_pos hlt, List.length_cons] at hi
      cases i with
      | zero =>
        cases h
        -- the rest is not empty, so this piece does not reach the end
        by_contra hne
        have hmin : min (total - offset) pieceSize ≠ pieceSize := hne
        have hend : ¬ offset + min (total - offset) pieceSize < total := by omega
        have hnil : pieceLoop total pieceSize fuel ((index + 1) % 2 ^ 32)
            (offset + min (total - offset) pieceSize) = [] := by
          cases fuel with
          | zero => rfl
          | succ fuel => simp only [pieceLoop, hend, if_false]
        rw [hnil] at hi
        simp at hi
      | succ i => exact ih h (by omega)

theorem PieceChain.index_get {xs : List PieceLayout} {i : Nat}
    (h : PieceChain index base xs total) (hi : xs[i]? = some piece) :
    piece.pieceIndex = (index + i) % 2 ^ 32 := by
  have hget : (xs.map (·.pieceIndex))[i]? = some piece.pieceIndex := by
    rw [List.getElem?_map, hi]
    rfl
  have hlt : i < xs.length := (List.getElem?_eq_some_iff.1 hi).1
  rw [h.index_eq, List.getElem?_map, List.getElem?_range' hlt, Nat.one_mul] at hget
  exact (Option.some.inj hget).symm

theorem planPieceLayouts_planned (ht : total < 2 ^ 64)
    (hn : (total + (max pieceSize 1 - 1)) / max pieceSize 1 < 2 ^ 32) :
    PiecesPlanned total pieceSize (planPieceLayouts total pieceSize) := by
  have hchain := planPieceLayouts_chain total pieceSize
  have hcount : (planPieceLayouts total pieceSize).length < 2 ^ 32 := by
    rw [planPieceLayouts_eq_loop, pieceLoop_count (by omega) (Nat.sub_le _ _)]
    exact hn
  have hindex (i : Nat) (piece : PieceLayout)
      (hi : (planPieceLayouts total pieceSize)[i]? = some piece) : piece.pieceIndex = i := by
    have hlt : i < (planPieceLayouts total pieceSize).length := (List.getElem?_eq_some_iff.1 hi).1
    rw [hchain.index_get hi, Nat.zero_add, Nat.mod_eq_of_lt (hlt.trans hcount)]
  constructor
  case tiles => exact hchain.tiles
  case index => exact hindex
  case length =>
    intro i piece hi
    rw [planPieceLayouts_eq_loop] at hi ⊢
    exact ⟨pieceLoop_length_le piece (List.mem_of_getElem? hi), pieceLoop_full hi⟩
  case counters =>
    intro piece hp
    obtain ⟨i, hi⟩ := List.mem_iff_getElem?.1 hp
    have hlt : i < (planPieceLayouts total pieceSize).length := (List.getElem?_eq_some_iff.1 hi).1
    have hbound := planPieceLayouts_bound piece hp
    rw [hindex i piece hi]
    exact ⟨by omega, by omega⟩

theorem blockLoop_length_le : ∀ b ∈ blockLoop pieceIndex pieceEnd blockSize fuel blockIndex offset,
    b.length ≤ blockSize := by
  induction fuel generalizing blockIndex offset with
  | zero => simp [blockLoop]
  | succ fuel ih =>
    intro b hb
    simp only [blockLoop] at hb
    split at hb
    · rcases List.mem_cons.1 hb with rfl | hb
      · exact Nat.min_le_right _ _
      · exact ih b hb
    · cases hb

theorem blockLoop_count_le :
    (blockLoop pieceIndex pieceEnd blockSize fuel blockIndex offset).length ≤ fuel := by
  induction fuel generalizing blockIndex offset with
  | zero => exact Nat.le_refl 0
  | succ fuel ih =>
    simp only [blockLoop]
    split
    · exact Nat.succ_le_succ ih
    · exact Nat.zero_le _

theorem pieceBlocks_planned (hl : piece.length < 2 ^ 32) (ht : piece.offset + piece.length < 2 ^ 64)
    (blockSize : Nat) : BlocksPlanned blockSize piece (pieceBlocks blockSize piece) := by
  have htiles := pieceBlocks_tiles ht blockSize
  have hcount : (pieceBlocks blockSize piece).length ≤ piece.length := blockLoop_count_le
  have hnumbers : (pieceBlocks blockSize piece).map (·.blockIndex) =
      List.range' 0 (pieceBlocks blockSize piece).length := blockLoop_blockIndex (by omega)
  have hindex (i : Nat) (b : PieceBlock) (hi : (pieceBlocks blockSize piece)[i]? = some b) :
      b.blockIndex = i := by
    have hlt : i < (pieceBlocks blockSize piece).length := (List.getElem?_eq_some_iff.1 hi).1
    have hget : ((pieceBlocks blockSize piece).map (·.blockIndex))[i]? = some b.blockIndex := by
      rw [List.getElem?_map, hi]
      rfl
    rw [hnumbers, List.getElem?_range' hlt, Nat.zero_add, Nat.one_mul] at hget
    exact (Option.some.inj hget).symm
  constructor
  case tiles => exact htiles
  case index =>
    intro i b hi
    exact ⟨pieceBlocks_pieceIndex b (List.mem_of_getElem? hi), hindex i b hi⟩
  case length =>
    intro b hb
    exact ⟨(htiles.inside b hb).2, blockLoop_length_le b hb⟩
  case counters =>
    intro b hb
    obtain ⟨i, hi⟩ := List.mem_iff_getElem?.1 hb
    have hlt : i < (pieceBlocks blockSize piece).length := (List.getElem?_eq_some_iff.1 hi).1
    obtain ⟨⟨_, hend⟩, _⟩ := htiles.inside b hb
    rw [hindex i b hi]
    exact ⟨by omega, by omega⟩

/-- Within a piece the blocks are in the order of their numbers, and the pieces are too. -/
theorem planPieceBlocks_precedes {pieces : List PieceLayout}
    (hp : pieces.Pairwise fun p q => p.pieceIndex < q.pieceIndex)
    (hl : ∀ p ∈ pieces, p.length < 2 ^ 32) :
    (planPieceBlocks pieces blockSize).Pairwise PieceBlock.Precedes := by
  rw [planPieceBlocks_eq, List.pairwise_flatMap]
  constructor
  · intro p hm
    have hnumbers : (pieceBlocks blockSize p).map (·.blockIndex) =
        List.range' 0 (pieceBlocks blockSize p).length :=
      blockLoop_blockIndex (by have := hl p hm; omega)
    have hlt : (pieceBlocks blockSize p).Pairwise fun a b => a.blockIndex < b.blockIndex := by
      rw [← List.pairwise_map, hnumbers]
      exact List.pairwise_lt_range'
    apply hlt.imp_of_mem
    intro a b ha hb hab
    exact .inr ⟨(pieceBlocks_pieceIndex a ha).trans (pieceBlocks_pieceIndex b hb).symm, hab⟩
  · apply hp.imp
    intro p q hpq a ha b hb
    left
    rw [pieceBlocks_pieceIndex a ha, pieceBlocks_pieceIndex b hb]
    exact hpq

theorem PiecesPlanned.increasing {pieces : List PieceLayout}
    (h : PiecesPlanned total pieceSize pieces) :
    pieces.Pairwise fun p q => p.pieceIndex < q.pieceIndex := by
  rw [List.pairwise_iff_getElem]
  intro i j hi hj hij
  rw [h.index i _ (List.getElem?_eq_getElem hi), h.index j _ (List.getElem?_eq_getElem hj)]
  exact hij

/-- The pieces of a payload tile it and the blocks tile the pieces, in the order of their numbers.
Both loops have ended when their fuel is used up, and no counter has been cut off. -/
theorem pieces_and_blocks_tile (total pieceSize blockSize : Nat) (ht : total < 2 ^ 64)
    (hp : max pieceSize 1 ≤ 2 ^ 32 - 1)
    (hn : (total + (max pieceSize 1 - 1)) / max pieceSize 1 < 2 ^ 32) :
    PiecesPlanned total pieceSize (planPieceLayouts total pieceSize) ∧
      let pieces := planPieceLayouts total pieceSize
      let blocks := planPieceBlocks pieces blockSize
      (∀ piece ∈ pieces,
        BlocksPlanned blockSize piece (blocks.filter (·.pieceIndex == piece.pieceIndex))) ∧
      (∀ b ∈ blocks, ∃ piece ∈ pieces, b.pieceIndex = piece.pieceIndex) ∧
      BlocksTile 0 blocks total ∧ blocks.Pairwise PieceBlock.Precedes ∧
      (∀ fuel, total ≤ fuel → pieceLoop total (max pieceSize 1) fuel 0 0 = pieces) ∧
      ∀ piece ∈ pieces, ∀ fuel, piece.length ≤ fuel →
        blockLoop piece.pieceIndex (satAdd piece.offset piece.length) (max blockSize 1) fuel 0
          piece.offset = pieceBlocks blockSize piece := by
  have hpieces : PiecesPlanned total pieceSize (planPieceLayouts total pieceSize) :=
    planPieceLayouts_planned ht hn
  refine ⟨hpieces, ?_⟩
  intro pieces blocks
  have hlength (piece : PieceLayout) (hm : piece ∈ pieces) : piece.length < 2 ^ 32 := by
    obtain ⟨i, hi⟩ := List.mem_iff_getElem?.1 hm
    have hle := (hpieces.length i piece hi).1
    omega
  have hincreasing := hpieces.increasing
  have hdistinct : (pieces.map (·.pieceIndex)).Nodup := by
    rw [List.Nodup, List.pairwise_map]
    exact hincreasing.imp fun hlt => Nat.ne_of_lt hlt
  refine ⟨?_, ?_, ?_, ?_, ?_, ?_⟩
  · intro piece hm
    rw [planPieceBlocks_filter hdistinct hm]
    exact pieceBlocks_planned (hlength piece hm) (hpieces.counters piece hm).2 blockSize
  · intro b hb
    obtain ⟨piece, hm, hb⟩ := List.mem_flatMap.1 hb
    exact ⟨piece, hm, blockLoop_pieceIndex b hb⟩
  · exact planPieceBlocks_tiles hpieces.tiles ht blockSize
  · exact planPieceBlocks_precedes hincreasing hlength
  · intro fuel hfuel
    rw [show pieces = _ from planPieceLayouts_eq_loop total pieceSize]
    exact pieceLoop_fuel (by omega) hfuel (Nat.le_refl _)
  · intro piece hm fuel hfuel
    have hend := (hpieces.counters piece hm).2
    rw [pieceBlocks, satAdd_of_lt hend]
    exact blockLoop_fuel (by omega) hend (by omega) (by omega)

/-- Ten bytes in pieces of four and blocks of three. -/
theorem ten_bytes_tile :
    planPieceLayouts 10 4 = [⟨0, 0, 4⟩, ⟨1, 4, 4⟩, ⟨2, 8, 2⟩] ∧
      BlocksTile 0 (planPieceBlocks (planPieceLayouts 10 4) 3) 10 :=
  ⟨by decide, (pieces_and_blocks_tile 10 4 3 (by decide) (by decide) (by decide)).2.2.2.1⟩

end Paradown
