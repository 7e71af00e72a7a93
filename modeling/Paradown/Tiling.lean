import Mathlib.Algebra.Ring.Nat
import Mathlib.Data.List.Basic
import Mathlib.Order.Basic

namespace Tiling
set_option autoImplicit true

variable {α : Type _} {offset length : α → Nat}

/-- The items follow one another from `base` to `total`, and none of them is empty. -/
def Tiled (offset length : α → Nat) : Nat → List α → Nat → Prop
  | base, [], total => base = total
  | base, x :: xs, total =>
    offset x = base ∧ 0 < length x ∧ Tiled offset length (base + length x) xs total

/-- An item lies between two numbers. -/
def Inside (offset length : α → Nat) (a b : Nat) (x : α) : Prop :=
  a ≤ offset x ∧ offset x + length x ≤ b

instance : DecidablePred (Inside offset length a b) := fun _ => instDecidableAnd

theorem Tiled.le {xs : List α} (h : Tiled offset length base xs total) : base ≤ total := by
  induction xs generalizing base with
  | nil => exact le_of_eq h
  | cons x xs ih =>
    have hle := ih h.2.2
    omega

theorem Tiled.append {xs ys : List α} (hx : Tiled offset length base xs m)
    (hy : Tiled offset length m ys total) : Tiled offset length base (xs ++ ys) total := by
  induction xs generalizing base with
  | nil =>
    have hm : base = m := hx
    subst hm
    exact hy
  | cons x xs ih => exact ⟨hx.1, hx.2.1, ih hx.2.2⟩

theorem tiled_map {β : Type _} (f : β → α) (xs : List β) :
    Tiled offset length base (xs.map f) total ↔
      Tiled (fun x => offset (f x)) (fun x => length (f x)) base xs total := by
  induction xs generalizing base with
  | nil => exact Iff.rfl
  | cons x xs ih => exact and_congr_right fun _ => and_congr_right fun _ => ih

theorem Tiled.split {xs ys : List α} (h : Tiled offset length base (xs ++ ys) total) :
    ∃ m, Tiled offset length base xs m ∧ Tiled offset length m ys total := by
  induction xs generalizing base with
  | nil => exact ⟨base, rfl, h⟩
  | cons x xs ih =>
    obtain ⟨m, hx, hy⟩ := ih h.2.2
    exact ⟨m, ⟨h.1, h.2.1, hx⟩, hy⟩

theorem Tiled.inside {xs : List α} (h : Tiled offset length base xs total) :
    ∀ x ∈ xs, Inside offset length base total x ∧ 0 < length x := by
  induction xs generalizing base with
  | nil =>
    intro x hx
    cases hx
  | cons y ys ih =>
    intro x hx
    obtain ⟨ho, hl, hr⟩ := h
    rcases List.mem_cons.1 hx with rfl | hx
    · have hle := hr.le
      exact ⟨⟨by omega, by omega⟩, hl⟩
    · obtain ⟨⟨h1, h2⟩, h3⟩ := ih hr x hx
      exact ⟨⟨by omega, h2⟩, h3⟩

theorem Tiled.sum {xs : List α} (h : Tiled offset length base xs total) :
    base + (xs.map length).sum = total := by
  induction xs generalizing base with
  | nil => exact h
  | cons x xs ih =>
    have hs := ih h.2.2
    rw [List.map_cons, List.sum_cons]
    omega

/-- Amounts that fit their items one by one fit the whole range. -/
theorem Tiled.sum_le {β : Type _} {amount : β → Nat} {xs : List α} {ys : List β}
    (h : Tiled offset length base xs total)
    (hf : List.Forall₂ (fun x y => amount y ≤ length x) xs ys) :
    base + (ys.map amount).sum ≤ total := by
  induction hf generalizing base with
  | nil => exact le_of_eq h
  | cons hle _ ih =>
    have hs := ih h.2.2
    rw [List.map_cons, List.sum_cons]
    omega

theorem Tiled.covers {xs : List α} (h : Tiled offset length base xs total) (ha : base ≤ a)
    (hb : a < total) : ∃ x ∈ xs, offset x ≤ a ∧ a < offset x + length x := by
  induction xs generalizing base with
  | nil =>
    have he : base = total := h
    omega
  | cons x xs ih =>
    obtain ⟨ho, _, hr⟩ := h
    by_cases hlt : a < base + length x
    · exact ⟨x, List.mem_cons_self, by omega, by omega⟩
    · obtain ⟨y, hy, hin⟩ := ih hr (by omega)
      exact ⟨y, List.mem_cons_of_mem _ hy, hin⟩

theorem Tiled.ordered {xs : List α} (h : Tiled offset length base xs total) :
    xs.Pairwise fun x y => offset x + length x ≤ offset y := by
  induction xs generalizing base with
  | nil => exact .nil
  | cons x xs ih =>
    obtain ⟨ho, _, hr⟩ := h
    refine .cons ?_ (ih hr)
    intro y hy
    have hin := (hr.inside y hy).1.1
    omega

theorem Tiled.getLast {xs : List α} {x : α} (h : Tiled offset length base xs total)
    (hl : xs.getLast? = some x) : offset x + length x = total := by
  obtain ⟨ys, rfl⟩ := List.getLast?_eq_some_iff.1 hl
  obtain ⟨m, _, ho, _, hr⟩ := h.split
  have ht : m + length x = total := hr
  rw [ho, ht]

theorem Tiled.position_le_iff {xs : List α} {i j : Nat} (h : Tiled offset length base xs total)
    (hi : xs[i]? = some x) (hj : xs[j]? = some y) :
    (i ≤ j ↔ offset x ≤ offset y) ∧ (i ≤ j ↔ offset x + length x ≤ offset y + length y) := by
  have hp := List.pairwise_iff_getElem.1 h.ordered
  have hx := (h.inside x (List.mem_of_getElem? hi)).2
  have hy := (h.inside y (List.mem_of_getElem? hj)).2
  obtain ⟨hil, rfl⟩ := List.getElem?_eq_some_iff.1 hi
  obtain ⟨hjl, rfl⟩ := List.getElem?_eq_some_iff.1 hj
  rcases Nat.lt_trichotomy i j with hlt | heq | hgt
  · have hle := hp i j hil hjl hlt
    omega
  · subst heq
    omega
  · have hle := hp j i hjl hil hgt
    omega

theorem Tiled.eq_iff {xs : List α} (h : Tiled offset length base xs total) (hx : x ∈ xs)
    (hy : y ∈ xs) : (offset x = offset y ↔ x = y) ∧
      (offset x + length x = offset y + length y ↔ x = y) := by
  obtain ⟨i, hi⟩ := List.mem_iff_getElem?.1 hx
  obtain ⟨j, hj⟩ := List.mem_iff_getElem?.1 hy
  have hij := h.position_le_iff hi hj
  have hji := h.position_le_iff hj hi
  have heq (he : i = j) : x = y := by
    subst he
    exact Option.some.inj (hi.symm.trans hj)
  constructor
  · constructor
    · intro ho
      apply heq
      exact le_antisymm (hij.1.2 ho.le) (hji.1.2 ho.ge)
    · rintro rfl
      rfl
  · constructor
    · intro ho
      apply heq
      exact le_antisymm (hij.2.2 ho.le) (hji.2.2 ho.ge)
    · rintro rfl
      rfl

theorem Tiled.position_unique {xs : List α} {i j : Nat} (h : Tiled offset length base xs total)
    (hi : xs[i]? = some x) (hj : xs[j]? = some y) (hx : offset x ≤ a)
    (hx' : a < offset x + length x) (hy : offset y ≤ a) (hy' : a < offset y + length y) : i = j := by
  have hp := List.pairwise_iff_getElem.1 h.ordered
  obtain ⟨hil, rfl⟩ := List.getElem?_eq_some_iff.1 hi
  obtain ⟨hjl, rfl⟩ := List.getElem?_eq_some_iff.1 hj
  by_contra hne
  rcases Nat.lt_or_gt_of_ne hne with hlt | hgt
  · have hle := hp i j hil hjl hlt
    omega
  · have hle := hp j i hjl hil hgt
    omega

/-- The items inside a range that starts and ends where items do are the ones between them. -/
theorem Tiled.filter_inside {xs ys zs : List α}
    (hx : Tiled offset length base xs a) (hy : Tiled offset length a ys b)
    (hz : Tiled offset length b zs total) :
    (xs ++ ys ++ zs).filter (fun x => decide (Inside offset length a b x)) = ys := by
  have hleft : xs.filter (fun x => decide (Inside offset length a b x)) = [] := by
    apply List.filter_eq_nil_iff.2
    intro x hm hin
    obtain ⟨⟨_, h1⟩, h2⟩ := hx.inside x hm
    have h3 := (of_decide_eq_true hin).1
    omega
  have hright : zs.filter (fun x => decide (Inside offset length a b x)) = [] := by
    apply List.filter_eq_nil_iff.2
    intro x hm hin
    obtain ⟨⟨h1, _⟩, h2⟩ := hz.inside x hm
    have h3 := (of_decide_eq_true hin).2
    omega
  have hmid : ys.filter (fun x => decide (Inside offset length a b x)) = ys := by
    apply List.filter_eq_self.2
    intro x hm
    exact decide_eq_true (hy.inside x hm).1
  rw [List.filter_append, List.filter_append, hleft, hright, hmid, List.nil_append, List.append_nil]

theorem Tiled.flatMap {β : Type _} {offset' length' : β → Nat} {parts : α → List β} {xs : List α}
    (h : Tiled offset length base xs total)
    (hp : ∀ x ∈ xs, Tiled offset' length' (offset x) (parts x) (offset x + length x)) :
    Tiled offset' length' base (xs.flatMap parts) total := by
  induction xs generalizing base with
  | nil => exact h
  | cons x xs ih =>
    obtain ⟨ho, _, hr⟩ := h
    rw [List.flatMap_cons]
    have hx := hp x List.mem_cons_self
    rw [ho] at hx
    apply hx.append
    apply ih hr
    intro y hy
    exact hp y (List.mem_cons_of_mem _ hy)

/-- Of two tilings with as many items, each item of the second lies in its partner exactly when the
items start at the same places and the second is no longer. -/
theorem Tiled.contained_iff {xs ys : List α} (hx : Tiled offset length base xs m)
    (hy : Tiled offset length base ys n) (hl : xs.length = ys.length) :
    List.Forall₂ (fun x y => Inside offset length (offset x) (offset x + length x) y) xs ys ↔
      xs.map offset = ys.map offset ∧ n ≤ m := by
  induction xs generalizing base ys with
  | nil =>
    obtain rfl := List.length_eq_zero_iff.1 hl.symm
    have hm : base = m := hx
    have hn : base = n := hy
    constructor
    · intro _
      exact ⟨rfl, by omega⟩
    · intro _
      exact .nil
  | cons x xs ih =>
    obtain ⟨y, ys, rfl⟩ := List.exists_cons_of_length_eq_add_one hl.symm
    obtain ⟨hx1, hx2, hx3⟩ := hx
    obtain ⟨hy1, hy2, hy3⟩ := hy
    simp only [List.length_cons, Nat.add_right_cancel_iff] at hl
    cases xs with
    | nil =>
      obtain rfl := List.length_eq_zero_iff.1 hl.symm
      have hm : base + length x = m := hx3
      have hn : base + length y = n := hy3
      constructor
      · intro hf
        obtain ⟨⟨_, h2⟩, _⟩ := List.forall₂_cons.1 hf
        refine ⟨?_, by omega⟩
        rw [List.map_cons, List.map_cons, hx1, hy1]
      · rintro ⟨_, hle⟩
        refine .cons ⟨by omega, by omega⟩ .nil
    | cons x' xs =>
      obtain ⟨y', ys, rfl⟩ := List.exists_cons_of_length_eq_add_one hl.symm
      have hnext (he : length x = length y) := ih (he ▸ hx3 : Tiled offset length (base + length y)
        (x' :: xs) m) hy3 hl
      constructor
      · intro hf
        obtain ⟨⟨_, h2⟩, hf⟩ := List.forall₂_cons.1 hf
        obtain ⟨⟨h3, _⟩, _⟩ := List.forall₂_cons.1 hf
        have h4 := hx3.1
        have h5 := hy3.1
        obtain ⟨hmap, hle⟩ := (hnext (by omega)).1 hf
        refine ⟨?_, hle⟩
        rw [List.map_cons, hmap, hx1, ← hy1]
        rfl
      · rintro ⟨hmap, hle⟩
        obtain ⟨_, hrest⟩ := List.cons.inj hmap
        obtain ⟨hstart, _⟩ := List.cons.inj hrest
        have h4 := hx3.1
        have h5 := hy3.1
        have he : length x = length y := by omega
        exact .cons ⟨by omega, by omega⟩ ((hnext he).2 ⟨hrest, hle⟩)

end Tiling
