import Mathlib.Logic.Basic

namespace Transition
set_option autoImplicit true

variable {S A : Type _} (step : S → A → Option S)

/-- Perform the actions in order; `none` as soon as one of them is not enabled. -/
def run : S → List A → Option S
  | s, [] => some s
  | s, a :: as =>
    match step s a with
    | some s' => run s' as
    | none => none

/-- Every action of the run meets `C` in the state in which it is taken. -/
def Meets (C : S → A → Prop) : S → List A → Prop
  | _, [] => True
  | s, a :: as => C s a ∧ ∀ s', step s a = some s' → Meets C s' as

variable {step}

theorem run_cons (h : run step s (a :: as) = some t) :
    ∃ s', step s a = some s' ∧ run step s' as = some t := by
  simp only [run] at h
  split at h
  · exact ⟨_, ‹_›, h⟩
  · cases h

theorem run_any {P : S → Prop} [DecidablePred P]
    (h : (run step s as).any (fun t => decide (P t)) = true) : ∃ t, run step s as = some t ∧ P t := by
  obtain ⟨t, ht, hp⟩ := (Option.any_eq_true _ _).1 h
  exact ⟨t, ht, of_decide_eq_true hp⟩

variable (step) in
/-- The state is reached by a run of such actions alone. -/
def Reaches (P : A → Prop) (s t : S) : Prop := ∃ as, (∀ a ∈ as, P a) ∧ run step s as = some t

theorem Reaches.refl (P : A → Prop) (s : S) : Reaches step P s s :=
  ⟨[], fun _ ha => absurd ha List.not_mem_nil, rfl⟩

theorem Reaches.head {P : A → Prop} (ha : P a) (hs : step s a = some s')
    (h : Reaches step P s' t) : Reaches step P s t := by
  obtain ⟨as, has, hr⟩ := h
  refine ⟨a :: as, List.forall_mem_cons.2 ⟨ha, has⟩, ?_⟩
  rw [run, hs]
  exact hr

theorem run_total (h : ∀ s a, ∃ s', step s a = some s') : ∃ t, run step s as = some t := by
  induction as generalizing s with
  | nil => exact ⟨s, rfl⟩
  | cons a as ih =>
    obtain ⟨s', hs⟩ := h s a
    obtain ⟨t, ht⟩ := ih (s := s')
    refine ⟨t, ?_⟩
    rw [run, hs]
    exact ht

/-- What every step preserves, a run preserves. -/
theorem run_invariant {I : S → Prop} (hI : ∀ s a s', I s → step s a = some s' → I s') (hs : I s)
    (hr : run step s as = some t) : I t := by
  induction as generalizing s with
  | nil =>
    simp only [run, Option.some.injEq] at hr
    subst t
    exact hs
  | cons a as ih =>
    obtain ⟨s', ha, hr'⟩ := run_cons hr
    exact ih (hI s a s' hs ha) hr'

theorem run_concat (h : run step s (as ++ [a]) = some t) :
    ∃ s', run step s as = some s' ∧ step s' a = some t := by
  induction as generalizing s with
  | nil =>
    obtain ⟨s', ha, hr⟩ := run_cons h
    cases hr
    exact ⟨s, rfl, ha⟩
  | cons b as ih =>
    obtain ⟨s', hb, hr⟩ := run_cons h
    obtain ⟨m, hm, ha⟩ := ih hr
    refine ⟨m, ?_, ha⟩
    rw [run, hb]
    exact hm

theorem Meets.cons {C : S → A → Prop} (h : C s a) (hs : step s a = some s')
    (ht : Meets step C s' as) : Meets step C s (a :: as) := by
  refine ⟨h, fun s₁ h₁ => ?_⟩
  cases hs.symm.trans h₁
  exact ht

/-- Whether a run meets a decidable condition can be found out by performing it. -/
instance decidableMeets {C : S → A → Prop} [∀ s a, Decidable (C s a)] :
    (s : S) → (as : List A) → Decidable (Meets step C s as)
  | _, [] => isTrue trivial
  | s, a :: as =>
    match h : step s a with
    | none =>
      decidable_of_iff (C s a) ⟨fun hc => ⟨hc, fun _ h' => nomatch h.symm.trans h'⟩, fun hm => hm.1⟩
    | some s' =>
      have := decidableMeets (C := C) s' as
      decidable_of_iff (C s a ∧ Meets step C s' as)
        ⟨fun hm => .cons hm.1 h hm.2, fun hm => ⟨hm.1, hm.2 s' h⟩⟩

/-- What a step preserves under its condition, a run whose steps all meet it preserves. -/
theorem Meets.invariant {C : S → A → Prop} {I : S → Prop}
    (hI : ∀ s a s', I s → C s a → step s a = some s' → I s')
    (hc : Meets step C s as) (hs : I s) (hr : run step s as = some t) : I t := by
  induction as generalizing s with
  | nil =>
    simp only [run, Option.some.injEq] at hr
    subst t
    exact hs
  | cons a as ih =>
    obtain ⟨s', ha, hr'⟩ := run_cons hr
    exact ih (hc.2 s' ha) (hI s a s' hs hc.1 ha) hr'

theorem Meets.last {C : S → A → Prop} (hc : Meets step C s (as ++ [a]))
    (hr : run step s as = some t) : C t a := by
  induction as generalizing s with
  | nil =>
    simp only [run, Option.some.injEq] at hr
    subst t
    exact hc.1
  | cons b as ih =>
    obtain ⟨s', hb, hr'⟩ := run_cons hr
    exact ih (hc.2 s' hb) hr'

variable (step) in
/-- What an observer of a run has noted, who takes a note at every step. -/
def history (note : H → S → A → S → H) : H → S → List A → H
  | h, _, [] => h
  | h, s, a :: as =>
    match step s a with
    | some s' => history note (note h s a s') s' as
    | none => h

/-- What a step preserves under its condition, together with the note taken of it, holds of the
state and the notes at the end of a run whose steps all meet the condition. -/
theorem Meets.history {C : S → A → Prop} {I : S → H → Prop} {n : H → S → A → S → H}
    (hI : ∀ s h a s', I s h → C s a → step s a = some s' → I s' (n h s a s'))
    (hc : Meets step C s as) (hs : I s h) (hr : run step s as = some t) :
    I t (history step n h s as) := by
  induction as generalizing s h with
  | nil =>
    simp only [run, Option.some.injEq] at hr
    subst t
    exact hs
  | cons a as ih =>
    obtain ⟨s', ha, hr'⟩ := run_cons hr
    simp only [Transition.history, ha]
    exact ih (hc.2 s' ha) (hI s h a s' hs hc.1 ha) hr'

/-- Two conditions that agree on the steps of a run agree on the run; the invariant that makes them
agree may rest on the first of them. -/
theorem meets_iff {C D : S → A → Prop} {I : S → Prop}
    (hI : ∀ s a s', I s → C s a → step s a = some s' → I s')
    (h : ∀ s a s', I s → step s a = some s' → (C s a ↔ D s a))
    (hs : I s) (hr : run step s as = some t) : Meets step C s as ↔ Meets step D s as := by
  induction as generalizing s with
  | nil => exact Iff.rfl
  | cons a as ih =>
    obtain ⟨s', ha, hr'⟩ := run_cons hr
    simp only [Meets, ha, Option.some.injEq, forall_eq']
    rw [← h s a s' hs ha]
    apply and_congr_right
    intro hc
    exact ih (hI s a s' hs hc ha) hr'

theorem Meets.iff {C D E : S → A → Prop} {I : S → Prop} (he : Meets step E s as)
    (hI : ∀ s a s', I s → E s a → step s a = some s' → I s')
    (h : ∀ s a s', I s → E s a → step s a = some s' → (C s a ↔ D s a))
    (hs : I s) (hr : run step s as = some t) : Meets step C s as ↔ Meets step D s as := by
  induction as generalizing s with
  | nil => exact Iff.rfl
  | cons a as ih =>
    obtain ⟨s', ha, hr'⟩ := run_cons hr
    simp only [Meets, ha, Option.some.injEq, forall_eq']
    rw [h s a s' hs he.1 ha, ih (he.2 s' ha) (hI s a s' hs he.1 ha) hr']

theorem Meets.imp {C D : S → A → Prop} {I : S → Prop} (hc : Meets step C s as)
    (hI : ∀ s a s', I s → C s a → step s a = some s' → I s')
    (h : ∀ s a s', I s → C s a → step s a = some s' → D s a)
    (hs : I s) (hr : run step s as = some t) : Meets step D s as := by
  induction as generalizing s with
  | nil => exact hc
  | cons a as ih =>
    obtain ⟨s', ha, hr'⟩ := run_cons hr
    exact .cons (h s a s' hs hc.1 ha) ha (ih (hc.2 s' ha) (hI s a s' hs hc.1 ha) hr')

theorem Meets.mono {C D : S → A → Prop} {I : S → Prop} (hc : Meets step C s as)
    (hI : ∀ s a s', I s → C s a → step s a = some s' → I s') (h : ∀ s a, I s → C s a → D s a)
    (hs : I s) : Meets step D s as := by
  induction as generalizing s with
  | nil => trivial
  | cons a as ih =>
    refine ⟨h s a hs hc.1, fun s' ha => ?_⟩
    exact ih (hc.2 s' ha) (hI s a s' hs hc.1 ha)

theorem meets_and_iff {C : S → A → Prop} {Q : A → Prop} (h : ∀ a ∈ as, Q a) :
    Meets step C s as ↔ Meets step (fun s a => Q a ∧ C s a) s as := by
  induction as generalizing s with
  | nil => exact Iff.rfl
  | cons a as ih =>
    rw [List.forall_mem_cons] at h
    simp only [Meets, h.1, true_and, ih h.2]

theorem meets_of_forall {Q : A → Prop} (h : ∀ a ∈ as, Q a) : Meets step (fun _ a => Q a) s as := by
  induction as generalizing s with
  | nil => trivial
  | cons a as ih =>
    rw [List.forall_mem_cons] at h
    exact ⟨h.1, fun _ _ => ih h.2⟩

/-- A run that ends where no step is left: when every step either meets the condition and goes on,
or ends the run and meets it exactly when it ends it well, the whole run meets the condition exactly
when it ends well. -/
theorem meets_iff_end {C : S → A → Prop} {I F Q : S → Prop}
    (hI : ∀ s a s', I s → step s a = some s' → C s a ∧ I s' ∨ F s' ∧ (C s a ↔ Q s'))
    (hF : ∀ s a, F s → step s a = none) (hIF : ∀ s, I s → ¬ F s)
    (hs : I s) (hr : run step s as = some t) (ht : F t) : Meets step C s as ↔ Q t := by
  induction as generalizing s with
  | nil =>
    cases hr
    exact absurd ht (hIF _ hs)
  | cons a as ih =>
    obtain ⟨s', ha, hr'⟩ := run_cons hr
    simp only [Meets, ha, Option.some.injEq, forall_eq']
    rcases hI s a s' hs ha with ⟨hc, hs'⟩ | ⟨hend, hc⟩
    · rw [ih hs' hr', and_iff_right hc]
    · cases as with
      | nil =>
        cases hr'
        rw [hc, Meets, and_true]
      | cons b as =>
        obtain ⟨_, hb, _⟩ := run_cons hr'
        cases (hF s' b hend).symm.trans hb

/-- Two conditions that agree on every step agree on every run. -/
theorem meets_congr {C D : S → A → Prop} (h : ∀ s a, C s a ↔ D s a) :
    Meets step C s as ↔ Meets step D s as := by
  induction as generalizing s with
  | nil => exact Iff.rfl
  | cons a as ih =>
    simp only [Meets, h s a]
    refine and_congr_right fun _ => forall_congr' fun s' => ?_
    exact imp_congr_right fun _ => ih

end Transition
