import Mathlib.Algebra.GroupWithZero.Nat
import Mathlib.Data.List.Basic
import Mathlib.Data.Nat.Find
import Paradown.Transition

namespace Transition
set_option autoImplicit true
variable {S A : Type _} {step : S → A → Option S}

/-- When every counted action is paid for by the potential or by what the actions bring in, a run
takes no more of them than it can pay for. -/
theorem run_amortized {I : S → Prop} {Q : A → Prop} {p : A → Bool} (potential : S → Nat)
    (gain : A → Nat)
    (hI : ∀ s a s', I s → Q a → step s a = some s' →
      I s' ∧ potential s' + (p a).toNat ≤ potential s + gain a)
    (hQ : ∀ a ∈ as, Q a) (hs : I s) (hr : run step s as = some t) :
    potential t + as.countP p ≤ potential s + (as.map gain).sum := by
  induction as generalizing s with
  | nil =>
    cases hr
    exact Nat.le_refl _
  | cons a as ih =>
    obtain ⟨s', ha, hr'⟩ := run_cons hr
    obtain ⟨hq, hQ⟩ := List.forall_mem_cons.1 hQ
    obtain ⟨hs', hpay⟩ := hI s a s' hs hq ha
    have hrest := ih hQ hs' hr'
    have hcount : (a :: as).countP p = as.countP p + (p a).toNat := by
      rw [List.countP_cons]
      cases p a <;> rfl
    rw [hcount, List.map_cons, List.sum_cons]
    omega

/-- The first actions of a schedule. -/
def firstActs (schedule : Nat → A) (n : Nat) : List A := (List.range n).map schedule

theorem firstActs_succ (schedule : Nat → A) (n : Nat) :
    firstActs schedule (n + 1) = firstActs schedule n ++ [schedule n] := by
  rw [firstActs, List.range_succ, List.map_append]
  rfl

theorem firstActs_sublist (schedule : Nat → A) (h : m ≤ n) :
    (firstActs schedule m).Sublist (firstActs schedule n) :=
  (List.range_sublist.2 h).map schedule

/-- Where a schedule can take only so many actions of a kind, and no other brings anything in, what
comes in is bounded however long it goes on. -/
theorem gain_bounded {schedule : Nat → A} {p : A → Bool} (gain : A → Nat)
    (hgain : ∀ a, p a = false → gain a = 0)
    (hb : ∀ n t, run step s (firstActs schedule n) = some t →
      (firstActs schedule n).countP p ≤ bound) :
    ∃ total, ∀ n t, run step s (firstActs schedule n) = some t →
      ((firstActs schedule n).map gain).sum ≤ total := by
  classical
  -- the run that takes most of them
  have hex : ∃ d n t, run step s (firstActs schedule n) = some t ∧
      bound - (firstActs schedule n).countP p = d := ⟨_, 0, s, rfl, rfl⟩
  obtain ⟨n₁, t₁, hr₁, hd₁⟩ := Nat.find_spec hex
  have hmax (n : Nat) (t : S) (hr : run step s (firstActs schedule n) = some t) :
      (firstActs schedule n).countP p ≤ (firstActs schedule n₁).countP p := by
    have hmin := Nat.find_min' hex ⟨n, t, hr, rfl⟩
    have hle := hb n t hr
    have hle₁ := hb n₁ t₁ hr₁
    omega
  have hmono {m n : Nat} (h : m ≤ n) :
      ((firstActs schedule m).map gain).sum ≤ ((firstActs schedule n).map gain).sum := by
    induction h with
    | refl => exact Nat.le_refl _
    | step _ ih =>
      rw [firstActs_succ, List.map_append, List.sum_append]
      exact Nat.le_trans ih (Nat.le_add_right _ _)
  refine ⟨((firstActs schedule n₁).map gain).sum, ?_⟩
  intro n
  induction n with
  | zero => exact fun _ _ => hmono (Nat.zero_le n₁)
  | succ n ih =>
    intro t hr
    rcases Nat.lt_or_ge n n₁ with hlt | hge
    · exact hmono hlt
    have hcount := hmax (n + 1) t hr
    rw [firstActs_succ] at hr hcount ⊢
    obtain ⟨t', hr', _⟩ := run_concat hr
    have hkind : p (schedule n) = false := by
      have hless := (firstActs_sublist schedule hge).countP_le (p := p)
      rw [List.countP_append, List.countP_singleton] at hcount
      cases hp : p (schedule n) with
      | false => rfl
      | true =>
        rw [if_pos hp] at hcount
        omega
    rw [List.map_append, List.sum_append, List.map_singleton, hgain _ hkind]
    exact ih t' hr'

end Transition
