import Mathlib.Algebra.BigOperators.Group.List.Basic
import Mathlib.Algebra.Order.Monoid.Defs
import Mathlib.Data.List.Chain
import Mathlib.Order.Bounds.Image

namespace Packing
set_option autoImplicit true

section

variable {α K : Type _} [AddCommMonoid K] {room arrive : α → K}

/-- Where the item at `k` would stand, had one up to it found nothing before it. -/
def backlog (room arrive : α → K) (xs : List α) (k : Nat) : Set K :=
  { x | ∃ j ≤ k, ∃ a, xs[j]? = some a ∧ x = arrive a + (((xs.drop j).take (k - j)).map room).sum }

theorem sum_take_succ {xs : List α} (hjk : j ≤ k) (hk : xs[k]? = some a) :
    (((xs.drop j).take (k + 1 - j)).map room).sum =
      (((xs.drop j).take (k - j)).map room).sum + room a := by
  have hget : (xs.drop j)[k - j]? = some a := by
    rw [List.getElem?_drop, Nat.add_sub_cancel' hjk]
    exact hk
  rw [Nat.succ_sub hjk, List.take_add_one, hget, Option.toList_some, List.map_append, List.sum_append,
    List.map_singleton, List.sum_singleton]

theorem mem_backlog_self {xs : List α} (hk : xs[k]? = some a) :
    arrive a ∈ backlog room arrive xs k := by
  refine ⟨k, le_refl _, a, hk, ?_⟩
  rw [Nat.sub_self, List.take_zero, List.map_nil, List.sum_nil, add_zero]

theorem backlog_zero {xs : List α} (hk : xs[0]? = some a) :
    backlog room arrive xs 0 = {arrive a} := by
  ext x
  rw [Set.mem_singleton_iff]
  constructor
  · rintro ⟨j, hj, c, hc, rfl⟩
    cases Nat.le_zero.1 hj
    cases hc.symm.trans hk
    rw [List.take_zero, List.map_nil, List.sum_nil, add_zero]
  · rintro rfl
    exact mem_backlog_self hk

theorem backlog_succ {xs : List α} (hk : xs[k]? = some a) (hb : xs[k + 1]? = some b) :
    backlog room arrive xs (k + 1) = insert (arrive b) ((· + room a) '' backlog room arrive xs k) := by
  ext x
  rw [Set.mem_insert_iff, Set.mem_image]
  constructor
  · rintro ⟨j, hj, c, hc, rfl⟩
    rcases Nat.le_succ_iff.1 hj with hle | rfl
    · right
      refine ⟨_, ⟨j, hle, c, hc, rfl⟩, ?_⟩
      rw [sum_take_succ hle hk, add_assoc]
    · left
      cases hc.symm.trans hb
      rw [Nat.sub_self, List.take_zero, List.map_nil, List.sum_nil, add_zero]
  · rintro (rfl | ⟨_, ⟨j, hle, c, hc, rfl⟩, rfl⟩)
    · exact mem_backlog_self hb
    · refine ⟨j, Nat.le_succ_of_le hle, c, hc, ?_⟩
      rw [sum_take_succ hle hk, add_assoc]

end

variable {α K : Type _} [AddCommMonoid K] [LinearOrder K] {place room arrive : α → K}

/-- Each item stands as early as it can: where it arrives, or behind the room of the one before. -/
structure Packed (place room arrive : α → K) (xs : List α) : Prop where
  head : ∀ a ∈ xs.head?, place a = arrive a
  chain : xs.IsChain fun a b => place b = max (arrive b) (place a + room a)

theorem Packed.nil : Packed place room arrive [] where
  head a ha := by cases ha
  chain := .nil

theorem Packed.concat {xs : List α} (h : Packed place room arrive xs)
    (hnil : xs = [] → place b = arrive b)
    (hb : ∀ a ∈ xs.getLast?, place b = max (arrive b) (place a + room a)) :
    Packed place room arrive (xs ++ [b]) where
  head a ha := by
    cases xs with
    | nil =>
      cases ha
      exact hnil rfl
    | cons c xs => exact h.head a ha
  chain := by
    apply List.isChain_append.2
    refine ⟨h.chain, List.isChain_singleton b, ?_⟩
    intro a ha c hc
    cases hc
    exact hb a ha

/-- A packed item stands exactly where the latest of the items up to it lets it. -/
theorem Packed.isGreatest [IsOrderedAddMonoid K] {xs : List α} (h : Packed place room arrive xs)
    (hk : xs[k]? = some b) : IsGreatest (backlog room arrive xs k) (place b) := by
  induction k generalizing b with
  | zero =>
    have hhead : place b = arrive b := by
      apply h.head
      rw [List.head?_eq_getElem?]
      exact hk
    rw [backlog_zero hk, hhead]
    exact isGreatest_singleton
  | succ k ih =>
    obtain ⟨hlt, hget⟩ := List.getElem?_eq_some_iff.1 hk
    have ha : xs[k]? = some xs[k] := List.getElem?_eq_getElem (Nat.lt_of_succ_lt hlt)
    have hnext := List.isChain_iff_getElem.1 h.chain k hlt
    rw [hget] at hnext
    rw [backlog_succ ha hk, hnext]
    have hmono : Monotone (· + room xs[k]) := fun x y hxy => add_le_add_left hxy _
    exact (hmono.map_isGreatest (ih ha)).insert _

end Packing
