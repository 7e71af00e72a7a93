import Mathlib.Data.List.Basic

namespace Paradown
set_option autoImplicit true

/-- The list `xs` with the window that starts at `offset` overwritten by `ys`. -/
def splice (xs : List α) (offset : Nat) (ys : List α) : List α :=
  xs.take offset ++ ys ++ xs.drop (offset + ys.length)

/-- The `n` elements of `xs` from `start` on. -/
def window (xs : List α) (start n : Nat) : List α :=
  (xs.drop start).take n

@[simp] theorem splice_nil (xs : List α) (offset : Nat) : splice xs offset [] = xs := by
  simp [splice]

theorem splice_append_left {xs ys zs : List α} (h : offset ≤ xs.length) :
    splice (xs ++ ys) offset zs =
      splice xs offset (zs.take (xs.length - offset)) ++
        splice ys 0 (zs.drop (xs.length - offset)) := by
  have hz : zs = zs.take (xs.length - offset) ++ zs.drop (xs.length - offset) := by simp
  by_cases hl : zs.length ≤ xs.length - offset
  · have ht : zs.take (xs.length - offset) = zs := List.take_of_length_le hl
    have hd : zs.drop (xs.length - offset) = [] := List.drop_eq_nil_of_le hl
    rw [ht, hd, splice_nil]
    simp only [splice]
    rw [List.take_append_of_le_length h, List.drop_append_of_le_length (by omega)]
    simp only [List.append_assoc]
  · have hx : xs.drop (offset + (zs.take (xs.length - offset)).length) = [] := by
      apply List.drop_eq_nil_of_le
      simp only [List.length_take]
      omega
    have hy : (xs ++ ys).drop (offset + zs.length) =
        ys.drop (zs.drop (xs.length - offset)).length := by
      rw [List.drop_append, List.drop_eq_nil_of_le (by omega), List.nil_append, List.length_drop]
      congr 1
      omega
    simp only [splice, hx, hy]
    rw [List.take_append_of_le_length h]
    simp only [List.take_zero, List.nil_append, List.append_nil, Nat.zero_add, List.append_assoc]
    nth_rewrite 1 [hz]
    simp only [List.append_assoc]

theorem splice_append_min {xs ys zs : List α} (h : offset ≤ xs.length)
    (hn : n = min (xs.length - offset) zs.length) :
    splice (xs ++ ys) offset zs = splice xs offset (zs.take n) ++ splice ys 0 (zs.drop n) := by
  rw [splice_append_left h, hn]
  rcases Nat.le_total zs.length (xs.length - offset) with hl | hl
  · rw [Nat.min_eq_right hl, List.take_of_length_le hl, List.drop_eq_nil_of_le hl, List.take_length,
      List.drop_length]
  · rw [Nat.min_eq_left hl]

theorem splice_append_right {xs ys zs : List α} (h : xs.length ≤ offset) :
    splice (xs ++ ys) offset zs = xs ++ splice ys (offset - xs.length) zs := by
  have ht : xs.take offset = xs := List.take_of_length_le h
  have hd : xs.drop (offset + zs.length) = [] := List.drop_eq_nil_of_le (by omega)
  have he : offset + zs.length - xs.length = offset - xs.length + zs.length := by omega
  simp only [splice, List.take_append, List.drop_append, ht, hd, he, List.nil_append,
    List.append_assoc]

theorem window_add (xs : List α) (start n m : Nat) :
    window xs start (n + m) = window xs start n ++ window xs (start + n) m := by
  simp only [window, List.take_add, List.drop_drop]

theorem window_of_isPrefix {xs ys : List α} (h : ys <+: window xs start n) :
    window xs start ys.length = ys := by
  have hl := h.length_le
  have ht := List.prefix_iff_eq_take.1 h
  simp only [window, List.length_take] at hl
  rw [window, List.take_take, Nat.min_eq_left (by omega)] at ht
  exact ht.symm

/-- Bytes before the overwritten window stay. -/
theorem window_splice_before {xs ys : List α} (h : start + n ≤ offset) (hx : offset ≤ xs.length) :
    window (splice xs offset ys) start n = window xs start n := by
  have hl : (xs.take offset).length = offset := by
    rw [List.length_take]
    omega
  simp only [window, splice, List.append_assoc]
  rw [List.drop_append_of_le_length (by omega), List.take_append_of_le_length (by
    rw [List.length_drop]
    omega), List.drop_take, List.take_take]
  congr 1
  omega

theorem window_splice_after {xs ys : List α} (h : offset + ys.length ≤ start)
    (hx : offset ≤ xs.length) : window (splice xs offset ys) start n = window xs start n := by
  have hl : (xs.take offset ++ ys).length = offset + ys.length := by
    rw [List.length_append, List.length_take]
    omega
  simp only [window, splice]
  rw [List.drop_append, List.drop_eq_nil_of_le (by omega), List.nil_append, List.drop_drop]
  congr 2
  omega

theorem window_splice_self {xs : List α} (ys : List α) (hx : offset ≤ xs.length) :
    window (splice xs offset ys) offset ys.length = ys := by
  have hl : (xs.take offset).length = offset := by
    rw [List.length_take]
    omega
  have hd : (splice xs offset ys).drop offset = ys ++ xs.drop (offset + ys.length) := by
    rw [splice, List.append_assoc]
    nth_rewrite 1 [← hl]
    exact List.drop_left
  rw [window, hd, List.take_left]

theorem getElem?_splice {xs ys : List α} (hx : offset ≤ xs.length) (i : Nat) :
    (splice xs offset ys)[i]? =
      if offset ≤ i ∧ i < offset + ys.length then ys[i - offset]? else xs[i]? := by
  have hl : (xs.take offset).length = offset := by
    rw [List.length_take]
    omega
  have hn : (xs.take offset ++ ys).length = offset + ys.length := by rw [List.length_append, hl]
  rw [splice]
  split
  · rename_i hin
    rw [List.getElem?_append_left (by omega), List.getElem?_append_right (by omega), hl]
  · rename_i hout
    by_cases hlt : i < offset
    · rw [List.getElem?_append_left (by omega), List.getElem?_append_left (by omega),
        List.getElem?_take_of_lt hlt]
    · rw [List.getElem?_append_right (by omega), hn, List.getElem?_drop]
      congr 1
      omega

theorem window_eq_iff {xs ys : List α} : window xs start n = window ys start n ↔
    ∀ i, start ≤ i → i < start + n → xs[i]? = ys[i]? := by
  have hget (zs : List α) (k : Nat) : (window zs start n)[k]? =
      if k < n then zs[start + k]? else none := by
    rw [window, List.getElem?_take, List.getElem?_drop]
  constructor
  · intro h i hlow hhigh
    have hi := congrArg (·[i - start]?) h
    simp only [hget] at hi
    rw [if_pos (by omega), if_pos (by omega), Nat.add_sub_cancel' hlow] at hi
    exact hi
  · intro h
    apply List.ext_getElem?
    intro k
    rw [hget, hget]
    split
    · exact h _ (Nat.le_add_right _ _) (by omega)
    · rfl

/-- Overwriting a window with what another list has there loses no place where the two agree. -/
theorem splice_agrees {xs ys zs : List α} {i : Nat} (hx : offset ≤ xs.length)
    (hy : window zs offset ys.length = ys) (h : xs[i]? = zs[i]?) :
    (splice xs offset ys)[i]? = zs[i]? := by
  rw [getElem?_splice hx]
  split
  · rename_i hin
    rw [← hy, window, List.getElem?_take_of_lt (by omega), List.getElem?_drop]
    congr 1
    omega
  · exact h

end Paradown
