import Mathlib.Algebra.Order.BigOperators.Group.List
import Mathlib.Algebra.Order.Group.Defs
import Mathlib.Data.List.Chain

namespace Spacing
set_option autoImplicit true

variable {α K : Type _} [AddCommGroup K] [LinearOrder K] {place room : α → K}

/-- Each item stands behind the room that the one before it takes up. -/
def Spaced (place room : α → K) (xs : List α) : Prop :=
  xs.IsChain fun a b => place a + room a ≤ place b

theorem Spaced.concat {xs : List α} (h : Spaced place room xs)
    (hb : ∀ a ∈ xs.getLast?, place a + room a ≤ place b) : Spaced place room (xs ++ [b]) := by
  apply List.isChain_append.2
  refine ⟨h, List.isChain_singleton b, ?_⟩
  intro a ha c hc
  cases hc
  exact hb a ha

variable [IsOrderedAddMonoid K]

theorem Spaced.sum_take_le {n : Nat} {xs : List α} (h : Spaced place room (a :: xs))
    (hn : (a :: xs)[n]? = some b) :
    place a + (((a :: xs).take n).map room).sum ≤ place b := by
  induction n generalizing a xs with
  | zero =>
    cases hn
    simp only [List.take_zero, List.map_nil, List.sum_nil, add_zero, le_refl]
  | succ n ih =>
    cases xs with
    | nil => cases hn
    | cons c xs =>
      rw [Spaced, List.isChain_cons_cons] at h
      calc place a + (((a :: c :: xs).take (n + 1)).map room).sum
          = place a + room a + (((c :: xs).take n).map room).sum := by
            rw [List.take_succ_cons, List.map_cons, List.sum_cons, add_assoc]
        _ ≤ place c + (((c :: xs).take n).map room).sum := by gcongr; exact h.1
        _ ≤ place b := ih h.2 hn

theorem Spaced.sum_le {xs : List α} {i j : Nat} (h : Spaced place room xs) (hij : i ≤ j)
    (hi : xs[i]? = some a) (hj : xs[j]? = some b) :
    place a + (((xs.drop i).take (j - i)).map room).sum ≤ place b := by
  have hdrop : xs.drop i = a :: xs.drop (i + 1) := by
    obtain ⟨hlt, he⟩ := List.getElem?_eq_some_iff.1 hi
    rw [List.drop_eq_getElem_cons hlt, he]
  have hspaced : Spaced place room (a :: xs.drop (i + 1)) := by
    rw [← hdrop]
    exact List.IsChain.drop h i
  rw [hdrop]
  apply hspaced.sum_take_le
  rw [← hdrop, List.getElem?_drop, Nat.add_sub_cancel' hij]
  exact hj

theorem Spaced.pairwise {xs : List α} (h : Spaced place room xs) (h0 : ∀ a ∈ xs, 0 ≤ room a) :
    xs.Pairwise fun a b => place a + room a ≤ place b := by
  induction xs with
  | nil => exact .nil
  | cons a xs ih =>
    have hrest := ih (List.IsChain.tail h) fun b hb => h0 b (List.mem_cons_of_mem a hb)
    refine List.Pairwise.cons ?_ hrest
    cases xs with
    | nil =>
      intro b hb
      cases hb
    | cons c xs =>
      have hac := (List.isChain_cons_cons.1 h).1
      intro b hb
      rcases List.mem_cons.1 hb with rfl | hb
      · exact hac
      · have hc : 0 ≤ room c := h0 c (List.mem_cons_of_mem a List.mem_cons_self)
        calc place a + room a ≤ place c := hac
          _ ≤ place c + room c := le_add_of_nonneg_right hc
          _ ≤ place b := List.rel_of_pairwise_cons hrest hb

/-- The items between two places take up no more room than there is, the last of them apart. -/
theorem Spaced.window {xs : List α} (h : Spaced place room xs) (h0 : ∀ a ∈ xs, 0 ≤ room a)
    (low high : K) :
    let inside := xs.filter fun a => decide (low ≤ place a ∧ place a ≤ high)
    inside = [] ∨ ∃ last ∈ inside, (inside.map room).sum ≤ high - low + room last := by
  intro inside
  have hpairs : inside.Pairwise fun a b => place a + room a ≤ place b :=
    (h.pairwise h0).filter _
  have hbounds (a : α) (ha : a ∈ inside) : low ≤ place a ∧ place a ≤ high :=
    of_decide_eq_true (List.mem_filter.1 ha).2
  rcases List.eq_nil_or_concat' inside with hnil | ⟨init, last, hinit⟩
  · exact .inl hnil
  · right
    have hlast : last ∈ inside := by
      rw [hinit]
      exact List.mem_append_right _ List.mem_cons_self
    refine ⟨last, hlast, ?_⟩
    rw [hinit, List.map_append, List.sum_append, List.map_singleton, List.sum_singleton]
    gcongr
    cases init with
    | nil =>
      have hle := (hbounds last hlast).1.trans (hbounds last hlast).2
      simpa using hle
    | cons first init =>
      have hfirst : first ∈ inside := by
        rw [hinit]
        exact List.mem_cons_self
      have hspaced : Spaced place room (first :: (init ++ [last])) := by
        have hp : (first :: (init ++ [last])).Pairwise fun a b => place a + room a ≤ place b := by
          rw [← List.cons_append, ← hinit]
          exact hpairs
        exact hp.isChain
      have hsum := hspaced.sum_take_le (n := init.length + 1) (b := last) (by simp)
      have htake : (first :: (init ++ [last])).take (init.length + 1) = first :: init := by simp
      rw [htake] at hsum
      have hlow := (hbounds first hfirst).1
      have hhigh := (hbounds last hlast).2
      rw [le_sub_iff_add_le']
      calc low + ((first :: init).map room).sum ≤ place first + ((first :: init).map room).sum := by
            gcongr
        _ ≤ place last := hsum
        _ ≤ high := hhigh

end Spacing
