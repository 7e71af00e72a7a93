import Paradown.Layout

namespace Paradown
set_option autoImplicit true

open Tiling

/-- A byte lies in a block that is recorded as completed. -/
def CompletedByte (blocks : List PieceBlock) (states : List BlockState) (byte : Nat) : Prop :=
  ∃ (i : Nat) (b : PieceBlock) (s : BlockState), blocks[i]? = some b ∧ states[i]? = some s ∧
    s.completed = true ∧ b.offset ≤ byte ∧ byte < b.offset + b.length

/-- A piece is completed exactly when all the blocks inside it are. -/
structure PiecesExact (m : SessionManifest) (states : List BlockState)
    (pieceStates : List PieceState) : Prop where
  layout : pieceStates.map (·.pieceIndex) = m.pieces.map (·.pieceIndex)
  exact : ∀ (i : Nat) (p : PieceLayout) (q : PieceState),
    m.pieces[i]? = some p → pieceStates[i]? = some q →
      (q.completed = true ↔ ∀ (j : Nat) (b : PieceBlock) (s : BlockState),
        m.blocks[j]? = some b → states[j]? = some s → p.offset ≤ b.offset →
          b.offset + b.length ≤ p.offset + p.length → s.completed = true)

theorem SessionManifest.KnownSize.blocks_inside {m : SessionManifest} (h : m.KnownSize) :
    ∃ blockSize, m.blocks = planPieceBlocks m.pieces blockSize ∧ ∀ p ∈ m.pieces,
      m.blocks.filter (fun b => decide (Inside PieceBlock.offset PieceBlock.length p.offset
        (p.offset + p.length) b)) = pieceBlocks blockSize p := by
  obtain ⟨_, blockSize, _, _, hb⟩ := h.layout
  refine ⟨blockSize, hb, ?_⟩
  intro p hp
  obtain ⟨before, after, hm⟩ := List.append_of_mem hp
  have htiles := h.pieces_tile
  have hsize := h.size
  rw [hm] at htiles
  obtain ⟨a, hbefore, hoff, hl, hafter⟩ := htiles.split
  have hle := hafter.le
  rw [hb, planPieceBlocks_eq, hm, List.flatMap_append, List.flatMap_cons, ← List.append_assoc]
  rw [← hoff] at hbefore hafter
  exact (planPieceBlocks_tiles hbefore (by omega) blockSize).filter_inside
    (pieceBlocks_tiles (by omega) blockSize) (planPieceBlocks_tiles hafter hsize blockSize)

theorem SessionManifest.KnownSize.block_inside {m : SessionManifest} (h : m.KnownSize)
    (hb : b ∈ m.blocks) : ∃ p ∈ m.pieces, p.offset ≤ b.offset ∧
      b.offset + b.length ≤ p.offset + p.length := by
  obtain ⟨blockSize, hblocks, hinside⟩ := h.blocks_inside
  rw [hblocks, planPieceBlocks_eq] at hb
  obtain ⟨p, hp, hbp⟩ := List.mem_flatMap.1 hb
  rw [← hinside p hp] at hbp
  exact ⟨p, hp, of_decide_eq_true (List.mem_filter.1 hbp).2⟩

theorem LayoutMatches.state {blocks : List PieceBlock} {i : Nat} (h : LayoutMatches blocks states)
    (hb : blocks[i]? = some b) : ∃ s, states[i]? = some s := by
  have hi := (List.getElem?_eq_some_iff.1 hb).1
  rw [← h.length] at hi
  exact ⟨_, List.getElem?_eq_getElem hi⟩

/-- Deriving the pieces from the blocks is exact when keys name the blocks. -/
theorem SessionManifest.KnownSize.derive_exact {m : SessionManifest} (h : m.KnownSize)
    (hle : m.pieces.length ≤ 2 ^ 32) (hm : LayoutMatches m.blocks states) :
    PiecesExact m states (derivePieceStatesFromBlocks m.pieces m.blocks states) := by
  have hkeys := h.keys_nodup_iff.2 hle
  obtain ⟨blockSize, hblocks, hinside⟩ := h.blocks_inside
  constructor
  case layout =>
    rw [derivePieceStatesFromBlocks, List.map_map]
    rfl
  case exact =>
    intro i p q hp hq
    simp only [derivePieceStatesFromBlocks, List.getElem?_map, hp, Option.map_some,
      Option.some.injEq] at hq
    have hpm := List.mem_of_getElem? hp
    have hfilter : m.blocks.filter (·.pieceIndex == p.pieceIndex) = pieceBlocks blockSize p := by
      rw [hblocks]
      exact planPieceBlocks_filter (h.chain.nodup_iff.2 hle) hpm
    rw [← hq, hfilter, ← hinside p hpm]
    simp only [List.all_eq_true, List.mem_filter, decide_eq_true_eq]
    constructor
    · intro hall j b s hb hs h1 h2
      rw [← blockCompleted_of_nodup hkeys hm hb hs]
      exact hall b ⟨List.mem_of_getElem? hb, h1, h2⟩
    · rintro hall b ⟨hbm, h1, h2⟩
      obtain ⟨j, hb⟩ := List.mem_iff_getElem?.1 hbm
      obtain ⟨s, hs⟩ := hm.state hb
      rw [blockCompleted_of_nodup hkeys hm hb hs]
      exact hall j b s hb hs h1 h2

/-- The block map in which the positions chosen by `p` are completed. -/
def flagged (blocks : List PieceBlock) (p : Nat → Bool) : List BlockState :=
  blocks.mapIdx fun i b => ⟨b.pieceIndex, b.blockIndex, p i⟩

theorem flagged_layoutMatches (blocks : List PieceBlock) (p : Nat → Bool) :
    LayoutMatches blocks (flagged blocks p) := by
  apply List.ext_getElem?
  intro i
  rw [List.getElem?_map, List.getElem?_map, flagged, List.getElem?_mapIdx]
  cases blocks[i]? <;> rfl

theorem flagged_getElem? {blocks : List PieceBlock} {i : Nat} (p : Nat → Bool)
    (h : blocks[i]? = some b) :
    (flagged blocks p)[i]? = some ⟨b.pieceIndex, b.blockIndex, p i⟩ := by
  rw [flagged, List.getElem?_mapIdx, h, Option.map_some]

/-- All blocks completed but the one at position `j`. -/
def allBut (blocks : List PieceBlock) (j : Nat) : List BlockState :=
  flagged blocks fun i => decide (i ≠ j)

theorem allBut_getElem? {blocks : List PieceBlock} {i : Nat} (j : Nat) (h : blocks[i]? = some b) :
    (allBut blocks j)[i]? = some ⟨b.pieceIndex, b.blockIndex, decide (i ≠ j)⟩ :=
  flagged_getElem? _ h

theorem allBut_layoutMatches (blocks : List PieceBlock) (j : Nat) :
    LayoutMatches blocks (allBut blocks j) := flagged_layoutMatches _ _

/-- When two blocks share their key, the search by key misses that the second is incomplete. -/
theorem exists_hidden_block {blocks : List PieceBlock} (h : ¬ (blocks.map (·.key)).Nodup) :
    ∃ (j : Nat) (b : PieceBlock), blocks[j]? = some b ∧
      ∀ c ∈ blocks, blockCompleted (allBut blocks j) c = true := by
  rw [List.nodup_iff_getElem?_ne_getElem?] at h
  push Not at h
  obtain ⟨i, j, hij, hj, heq⟩ := h
  rw [List.length_map] at hj
  rw [List.getElem?_map, List.getElem?_map, List.getElem?_eq_getElem hj,
    List.getElem?_eq_getElem (by omega), Option.map_some, Option.map_some,
    Option.some.injEq] at heq
  refine ⟨j, blocks[j], List.getElem?_eq_getElem hj, ?_⟩
  intro c hc
  obtain ⟨k, hk⟩ := List.mem_iff_getElem?.1 hc
  rw [blockCompleted]
  cases hfind : (allBut blocks j).find? fun s =>
      s.pieceIndex == c.pieceIndex && s.blockIndex == c.blockIndex with
  | none =>
    have hnone := List.find?_eq_none.1 hfind _ (List.mem_of_getElem? (allBut_getElem? j hk))
    simp at hnone
  | some s =>
    obtain ⟨hmatch, n, hn, hs, hfirst⟩ := List.find?_eq_some_iff_getElem.1 hfind
    have hlen := (allBut_layoutMatches blocks j).length
    have hat := allBut_getElem? j (List.getElem?_eq_getElem (by omega : n < blocks.length))
    rw [List.getElem?_eq_getElem hn, Option.some.injEq, hs] at hat
    have hne : n ≠ j := by
      rintro rfl
      -- the earlier block with this key would have been found first
      have hi := hfirst i hij
      have hat' := allBut_getElem? n (List.getElem?_eq_getElem (by omega : i < blocks.length))
      rw [List.getElem?_eq_getElem (by omega), Option.some.injEq] at hat'
      have hkey1 := congrArg Prod.fst heq
      have hkey2 := congrArg Prod.snd heq
      rw [hat] at hmatch
      rw [hat'] at hi
      simp only [PieceBlock.key, Bool.and_eq_true, beq_iff_eq] at hmatch hkey1 hkey2
      simp [hkey1, hkey2, hmatch.1, hmatch.2] at hi
    rw [hat]
    exact decide_eq_true hne

end Paradown
