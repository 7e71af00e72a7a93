import Mathlib.Data.List.Infix
import Mathlib.Data.List.Nodup

namespace Distinct
set_option autoImplicit true

variable {α : Type _} [DecidableEq α]

def add (xs : List α) (x : α) : List α := if x ∈ xs then xs else xs ++ [x]

/-- Add one item after the other. -/
def addAll (xs ys : List α) : List α := ys.foldl add xs

theorem add_of_mem {xs : List α} (h : x ∈ xs) : add xs x = xs := if_pos h

theorem add_of_notMem {xs : List α} (h : x ∉ xs) : add xs x = xs ++ [x] := if_neg h

theorem mem_add {xs : List α} : y ∈ add xs x ↔ y ∈ xs ∨ y = x := by
  by_cases h : x ∈ xs
  · rw [add_of_mem h]
    constructor
    · exact .inl
    · rintro (hy | rfl)
      · exact hy
      · exact h
  · rw [add_of_notMem h, List.mem_append, List.mem_singleton]

theorem prefix_add (xs : List α) (x : α) : xs <+: add xs x := by
  unfold add
  split
  · exact List.prefix_rfl
  · exact List.prefix_append xs [x]

theorem nodup_add {xs : List α} (h : xs.Nodup) (x : α) : (add xs x).Nodup := by
  unfold add
  split
  case isTrue => exact h
  case isFalse hx =>
    apply List.nodup_append.2
    refine ⟨h, List.pairwise_singleton _ _, ?_⟩
    intro a ha b hb
    cases List.mem_singleton.1 hb
    rintro rfl
    exact hx ha

theorem length_add_le (xs : List α) (x : α) : (add xs x).length ≤ xs.length + 1 := by
  unfold add
  split
  · exact Nat.le_succ _
  · exact Nat.le_of_eq (List.length_append ..)

theorem addAll_cons (xs : List α) (y : α) (ys : List α) :
    addAll xs (y :: ys) = addAll (add xs y) ys := rfl

theorem addAll_append (xs ys zs : List α) : addAll xs (ys ++ zs) = addAll (addAll xs ys) zs :=
  List.foldl_append

theorem mem_addAll {xs ys : List α} : y ∈ addAll xs ys ↔ y ∈ xs ∨ y ∈ ys := by
  induction ys generalizing xs with
  | nil => exact (or_iff_left List.not_mem_nil).symm
  | cons z ys ih => rw [addAll_cons, ih, mem_add, List.mem_cons, or_assoc]

theorem addAll_of_subset {xs ys : List α} (h : ys ⊆ xs) : addAll xs ys = xs := by
  induction ys generalizing xs with
  | nil => rfl
  | cons y ys ih =>
    rw [addAll_cons, add_of_mem (h List.mem_cons_self)]
    exact ih (List.subset_of_cons_subset h)

/-- What has been added comes after the list, each item of it once. -/
theorem addAll_eq_append (xs ys : List α) :
    ∃ new, addAll xs ys = xs ++ new ∧ new.Nodup ∧ ∀ x ∈ new, x ∈ ys ∧ x ∉ xs := by
  induction ys generalizing xs with
  | nil => exact ⟨[], (List.append_nil xs).symm, .nil, fun x hx => absurd hx List.not_mem_nil⟩
  | cons y ys ih =>
    obtain ⟨new, hnew, hnodup, hmem⟩ := ih (add xs y)
    rw [addAll_cons, hnew]
    by_cases hy : y ∈ xs
    · rw [add_of_mem hy] at hmem ⊢
      refine ⟨new, rfl, hnodup, ?_⟩
      intro x hx
      exact ⟨List.mem_cons_of_mem y (hmem x hx).1, (hmem x hx).2⟩
    · rw [add_of_notMem hy, List.append_assoc] at *
      refine ⟨y :: new, rfl, ?_, ?_⟩
      · apply List.nodup_cons.2
        refine ⟨?_, hnodup⟩
        intro hm
        exact (hmem y hm).2 (List.mem_append_right xs List.mem_cons_self)
      · intro x hx
        rcases List.mem_cons.1 hx with rfl | hx
        · exact ⟨List.mem_cons_self, hy⟩
        · obtain ⟨hys, hxs⟩ := hmem x hx
          refine ⟨List.mem_cons_of_mem y hys, ?_⟩
          intro hin
          exact hxs (List.mem_append_left [y] hin)

/-- What becomes of a list that is added to while it is shorter than a limit. -/
structure Grows (limit : Nat) (xs ys : List α) : Prop where
  keeps : xs <+: ys
  nodup : xs.Nodup → ys.Nodup
  length_le : ys.length ≤ max xs.length limit

omit [DecidableEq α] in
theorem Grows.refl (limit : Nat) (xs : List α) : Grows limit xs xs :=
  ⟨List.prefix_rfl, id, Nat.le_max_left _ _⟩

omit [DecidableEq α] in
theorem Grows.trans {xs ys zs : List α} (h : Grows limit xs ys) (h' : Grows limit ys zs) :
    Grows limit xs zs := by
  refine ⟨h.keeps.trans h'.keeps, fun hx => h'.nodup (h.nodup hx), ?_⟩
  apply Nat.le_trans h'.length_le
  exact Nat.max_le.2 ⟨h.length_le, Nat.le_max_right _ _⟩

theorem Grows.add {xs : List α} (h : xs.length < limit) (x : α) : Grows limit xs (add xs x) := by
  refine ⟨prefix_add xs x, fun hx => nodup_add hx x, ?_⟩
  apply Nat.le_trans (length_add_le xs x)
  exact Nat.le_trans h (Nat.le_max_right _ _)

end Distinct
