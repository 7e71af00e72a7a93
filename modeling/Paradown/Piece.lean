import Mathlib.Algebra.Ring.Nat
import Mathlib.Data.List.Basic

namespace Paradown
set_option autoImplicit true

/-- `u64::saturating_add`. -/
def satAdd (a b : Nat) : Nat := min (a + b) (2 ^ 64 - 1)

theorem satAdd_of_lt (h : a + b < 2 ^ 64) : satAdd a b = a + b := by
  unfold satAdd
  omega

/-- `u32::saturating_add`. -/
def satAdd32 (a b : Nat) : Nat := min (a + b) (2 ^ 32 - 1)

structure PieceLayout where
  pieceIndex : Nat
  offset : Nat
  length : Nat
  deriving DecidableEq, Repr

structure PieceBlock where
  pieceIndex : Nat
  blockIndex : Nat
  offset : Nat
  length : Nat
  deriving DecidableEq, Repr

structure PieceState where
  pieceIndex : Nat
  completed : Bool
  deriving DecidableEq, Repr

structure BlockState where
  pieceIndex : Nat
  blockIndex : Nat
  completed : Bool
  deriving DecidableEq, Repr

/-- The `while` loop of `plan_piece_layouts`; every turn consumes at least one byte, so as many
turns as there are bytes left are always enough. The `u32` index wraps. -/
def pieceLoop (totalSize pieceSize : Nat) : Nat → Nat → Nat → List PieceLayout
  | 0, _, _ => []
  | fuel + 1, pieceIndex, offset =>
    if offset < totalSize then
      let length := min (totalSize - offset) pieceSize
      ⟨pieceIndex, offset, length⟩ ::
        pieceLoop totalSize pieceSize fuel ((pieceIndex + 1) % 2 ^ 32) (offset + length)
    else []

def planPieceLayouts (totalSize pieceSize : Nat) : List PieceLayout :=
  if totalSize = 0 then [] else pieceLoop totalSize (max pieceSize 1) totalSize 0 0

def initializePieceStates (pieces : List PieceLayout) : List PieceState :=
  pieces.map fun piece => ⟨piece.pieceIndex, false⟩

def blockLoop (pieceIndex pieceEnd blockSize : Nat) : Nat → Nat → Nat → List PieceBlock
  | 0, _, _ => []
  | fuel + 1, blockIndex, offset =>
    if offset < pieceEnd then
      let length := min (pieceEnd - offset) blockSize
      ⟨pieceIndex, blockIndex, offset, length⟩ ::
        blockLoop pieceIndex pieceEnd blockSize fuel (satAdd32 blockIndex 1)
          (satAdd offset length)
    else []

def planPieceBlocks (pieces : List PieceLayout) (blockSize : Nat) : List PieceBlock :=
  pieces.flatMap fun piece =>
    blockLoop piece.pieceIndex (satAdd piece.offset piece.length) (max blockSize 1)
      piece.length 0 piece.offset

def initializeBlockStates (blocks : List PieceBlock) : List BlockState :=
  blocks.map fun block => ⟨block.pieceIndex, block.blockIndex, false⟩

def PieceBlock.blockEnd (b : PieceBlock) : Nat := satAdd b.offset b.length - 1

/-- States and blocks are zipped: what has no partner is left alone. -/
def markCompletedBlocks : List BlockState → List PieceBlock → Nat → Nat → List BlockState
  | s :: ss, b :: bs, coveredStart, coveredEnd =>
    (if coveredStart ≤ b.offset ∧ b.blockEnd ≤ coveredEnd then { s with completed := true }
      else s) :: markCompletedBlocks ss bs coveredStart coveredEnd
  | ss, _, _, _ => ss

def completedBlockCount (states : List BlockState) : Nat :=
  states.countP (·.completed)

/-- The flag recorded for a block; a block without a state counts as incomplete. -/
def blockCompleted (states : List BlockState) (block : PieceBlock) : Bool :=
  match states.find? fun s => s.pieceIndex == block.pieceIndex && s.blockIndex == block.blockIndex with
  | some s => s.completed
  | none => false

def derivePieceStatesFromBlocks (pieces : List PieceLayout) (blocks : List PieceBlock)
    (states : List BlockState) : List PieceState :=
  pieces.map fun piece =>
    ⟨piece.pieceIndex,
      (blocks.filter (·.pieceIndex == piece.pieceIndex)).all (blockCompleted states)⟩

/-- No block of the list is marked as downloaded. -/
def NoBlockCompleted (states : List BlockState) : Prop :=
  ∀ s ∈ states, s.completed = false

def NoPieceCompleted (states : List PieceState) : Prop :=
  ∀ s ∈ states, s.completed = false

theorem noBlockCompleted_of_blocks (blocks : List PieceBlock) :
    NoBlockCompleted (initializeBlockStates blocks) := by
  intro s hs
  obtain ⟨b, _, rfl⟩ := List.mem_map.1 hs
  rfl

theorem noBlockCompleted_reset (states : List BlockState) :
    NoBlockCompleted (states.map fun s => { s with completed := false }) := by
  intro s hs
  obtain ⟨b, _, rfl⟩ := List.mem_map.1 hs
  rfl

theorem NoBlockCompleted.blockCompleted (h : NoBlockCompleted states) (block : PieceBlock) :
    blockCompleted states block = false := by
  unfold Paradown.blockCompleted
  split
  · exact h _ (List.mem_of_find?_eq_some ‹_›)
  · rfl

theorem pieceLoop_length_pos (hp : 0 < pieceSize) :
    ∀ p ∈ pieceLoop totalSize pieceSize fuel index offset, 0 < p.length := by
  induction fuel generalizing index offset with
  | zero => simp [pieceLoop]
  | succ fuel ih =>
    intro p hm
    simp only [pieceLoop] at hm
    split at hm
    · rcases List.mem_cons.1 hm with rfl | hm
      · simp only
        omega
      · exact ih p hm
    · cases hm

theorem planPieceLayouts_length_pos : ∀ p ∈ planPieceLayouts totalSize pieceSize, 0 < p.length := by
  intro p hm
  unfold planPieceLayouts at hm
  split at hm
  · cases hm
  · exact pieceLoop_length_pos (by omega) p hm

theorem pieceLoop_bound : ∀ p ∈ pieceLoop totalSize pieceSize fuel index offset,
    p.offset < totalSize ∧ p.offset + p.length ≤ totalSize := by
  induction fuel generalizing index offset with
  | zero => simp [pieceLoop]
  | succ fuel ih =>
    intro p hm
    simp only [pieceLoop] at hm
    split at hm
    · rcases List.mem_cons.1 hm with rfl | hm
      · simp only
        omega
      · exact ih p hm
    · cases hm

theorem planPieceLayouts_bound : ∀ p ∈ planPieceLayouts totalSize pieceSize,
    p.offset < totalSize ∧ p.offset + p.length ≤ totalSize := by
  intro p hm
  unfold planPieceLayouts at hm
  split at hm
  · cases hm
  · exact pieceLoop_bound p hm

theorem planPieceBlocks_covers (hp : piece ∈ pieces) (hl : 0 < piece.length)
    (hb : piece.offset < 2 ^ 64 - 1) :
    ∃ b ∈ planPieceBlocks pieces blockSize, b.pieceIndex = piece.pieceIndex := by
  obtain ⟨n, hn⟩ : ∃ n, piece.length = n + 1 := ⟨piece.length - 1, by omega⟩
  have hlt : piece.offset < satAdd piece.offset piece.length := by
    unfold satAdd
    omega
  refine ⟨⟨piece.pieceIndex, 0, piece.offset,
    min (satAdd piece.offset piece.length - piece.offset) (max blockSize 1)⟩, ?_, rfl⟩
  refine List.mem_flatMap.2 ⟨piece, hp, ?_⟩
  rw [hn] at hlt ⊢
  simp only [blockLoop, hlt, ↓reduceIte, List.mem_cons, true_or]

theorem noPieceCompleted_derive (h : NoBlockCompleted states)
    (hp : ∀ p ∈ pieces, ∃ b ∈ blocks, b.pieceIndex = p.pieceIndex) :
    NoPieceCompleted (derivePieceStatesFromBlocks pieces blocks states) := by
  intro s hs
  obtain ⟨p, hm, rfl⟩ := List.mem_map.1 hs
  obtain ⟨b, hb, he⟩ := hp p hm
  refine Bool.eq_false_iff.2 fun ha => ?_
  have hc := List.all_eq_true.1 ha b (List.mem_filter.2 ⟨hb, by simp [he]⟩)
  rw [h.blockCompleted b] at hc
  cases hc

end Paradown
