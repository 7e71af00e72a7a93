import Mathlib.Algebra.BigOperators.Group.List.Basic
import Mathlib.Algebra.Ring.Nat
import Mathlib.Data.Finset.Card
import Mathlib.Data.Finset.Range

set_option autoImplicit true

/-- The sum of `f` over the list. -/
def List.tally (f : α → Nat) (l : List α) : Nat := (l.map f).sum

namespace List

@[simp] theorem tally_nil (f : α → Nat) : [].tally f = 0 := rfl

@[simp] theorem tally_cons (f : α → Nat) (a : α) (l : List α) :
    (a :: l).tally f = f a + l.tally f := by
  simp [tally]

@[simp] theorem tally_append (f : α → Nat) (l l' : List α) :
    (l ++ l').tally f = l.tally f + l'.tally f := by
  simp [tally]

theorem tally_set {f : α → Nat} {l : List α} (h : l[i]? = some a) (b : α) :
    (l.set i b).tally f + f a = l.tally f + f b := by
  induction l generalizing i with
  | nil => simp at h
  | cons c l ih =>
    cases i with
    | zero =>
      simp only [getElem?_cons_zero, Option.some.injEq] at h
      subst c
      simp only [set_cons_zero, tally_cons]
      omega
    | succ i =>
      simp only [getElem?_cons_succ] at h
      have := ih h
      simp only [set_cons_succ, tally_cons]
      omega

theorem tally_eq_zero {f : α → Nat} {l : List α} (h : ∀ a ∈ l, f a = 0) : l.tally f = 0 := by
  induction l with
  | nil => rfl
  | cons a l ih =>
    rw [tally_cons, h a mem_cons_self, ih fun b hb => h b (mem_cons_of_mem a hb)]

theorem tally_le_tally {f g : α → Nat} {l : List α} (h : ∀ a ∈ l, f a ≤ g a) :
    l.tally f ≤ l.tally g := by
  induction l with
  | nil => exact Nat.le_refl 0
  | cons a l ih =>
    have ha := h a mem_cons_self
    have hl := ih fun b hb => h b (mem_cons_of_mem a hb)
    simp only [tally_cons]
    omega

theorem le_tally {f : α → Nat} {l : List α} (h : a ∈ l) : f a ≤ l.tally f := by
  induction l with
  | nil => cases h
  | cons b l ih =>
    rcases mem_cons.1 h with rfl | h
    · simp
    · exact Nat.le_trans (ih h) (by simp)

/-- If `g` is nowhere smaller than `f` but at `i`, its sum is smaller by what it lacks there. -/
theorem tally_exchange {f g : Nat → Nat} {l : List Nat} (hl : l.Nodup)
    (hne : ∀ j, j ≠ i → f j ≤ g j) (hi : i ∉ l → g i ≤ f i) :
    l.tally f + g i ≤ l.tally g + f i := by
  induction l with
  | nil => simpa using hi not_mem_nil
  | cons a l ih =>
    rw [nodup_cons] at hl
    simp only [tally_cons]
    by_cases ha : a = i
    · subst a
      have : l.tally f ≤ l.tally g := tally_le_tally fun j hj => hne j fun h => hl.1 (h ▸ hj)
      omega
    · have := ih hl.2 fun h => hi fun hm => (mem_cons.1 hm).elim (fun e => ha e.symm) h
      have := hne a ha
      omega

theorem countP_eq_tally (p : α → Bool) (l : List α) : l.countP p = l.tally fun a => (p a).toNat := by
  induction l with
  | nil => rfl
  | cons a l ih =>
    rw [tally_cons, countP_cons, ih]
    cases p a <;> simp [Nat.add_comm]

theorem countP_set_add {p : α → Bool} {l : List α} (h : l[i]? = some a) (b : α) :
    (l.set i b).countP p + (p a).toNat = l.countP p + (p b).toNat := by
  rw [countP_eq_tally, countP_eq_tally]
  exact tally_set h b

/-- The positions whose entry satisfies `p`. -/
def positions (p : α → Bool) (l : List α) : Finset Nat :=
  (Finset.range l.length).filter fun i => ∃ a, l[i]? = some a ∧ p a = true

theorem mem_positions {p : α → Bool} {l : List α} :
    i ∈ l.positions p ↔ ∃ a, l[i]? = some a ∧ p a = true := by
  simp only [positions, Finset.mem_filter, Finset.mem_range, and_iff_right_iff_imp]
  rintro ⟨a, ha, _⟩
  exact (getElem?_eq_some_iff.1 ha).1

theorem card_positions (p : α → Bool) (l : List α) : (l.positions p).card = l.countP p := by
  induction l using List.reverseRecOn with
  | nil => rfl
  | append_singleton l a ih =>
    have hlt : ∀ i, i < l.length → ((l ++ [a])[i]? = l[i]?) := fun i hi => getElem?_append_left hi
    have hset : (l ++ [a]).positions p =
        if p a then insert l.length (l.positions p) else l.positions p := by
      ext i
      rcases Nat.lt_trichotomy i l.length with hi | rfl | hi
      · cases hp : p a <;> simp [mem_positions, hlt i hi, Nat.ne_of_lt hi]
      · cases hp : p a <;> simp [mem_positions, hp]
      · have hn : (l ++ [a])[i]? = none := by simp; omega
        have hn' : l[i]? = none := by simp; omega
        cases hp : p a <;> simp [mem_positions, hn, hn']
        omega
    rw [hset, countP_append]
    cases hp : p a with
    | false => simp [ih, hp]
    | true =>
      have hnot : l.length ∉ l.positions p := by simp [mem_positions]
      simp [Finset.card_insert_of_notMem hnot, ih, hp]

end List
