import Mathlib.Data.List.Induction
import Mathlib.Logic.Function.Basic
import Paradown.Transition

namespace Paradown
set_option autoImplicit true

structure ProgressThrottleConfig where
  intervalMs : Nat := 200
  thresholdBytes : Nat := 1024 * 1024

/-- Instants are in nanoseconds. -/
def ProgressThrottleConfig.interval (c : ProgressThrottleConfig) : Nat := c.intervalMs * 1000000

structure ProgressPersistState where
  lastPersistedAt : Nat
  lastDownloaded : Nat
  deriving DecidableEq

/-- The event loop, the clock, what the loop itself has last given the repository of each task (the
byte count and when it asked for the save), and how often a progress event has saved it. Other calls
save and purge the same row; `given` is not that row. -/
structure ProgressLoop where
  now : Nat
  progressPersistState : Nat → Option ProgressPersistState
  given : Nat → Option (Nat × Nat)
  saves : Nat → Nat

/-- Time passes, or the loop handles an event: `written` is the byte count that its call of
`persist_task` has given the repository, if it has, and `returned` says that the calls before
`clear_progress_persist_state` have returned `Ok`. -/
inductive ProgressAct where
  | tick (elapsed : Nat)
  | progress (id downloaded : Nat) (written : Option Nat)
  | terminal (id : Nat) (written : Option Nat) (returned : Bool)
  | deleted (id : Nat) (returned : Bool)

namespace ProgressLoop

def new (now : Nat) : ProgressLoop := ⟨now, fun _ => none, fun _ => none, fun _ => 0⟩

def bytesDue (c : ProgressThrottleConfig) (mark : ProgressPersistState) (downloaded : Nat) : Bool :=
  decide (c.thresholdBytes ≤ downloaded - mark.lastDownloaded)

def timeDue (c : ProgressThrottleConfig) (mark : ProgressPersistState) (now : Nat) : Bool :=
  decide (c.interval ≤ now - mark.lastPersistedAt)

def shouldPersistProgress (c : ProgressThrottleConfig) (s : ProgressLoop) (id downloaded : Nat) :
    Bool × ProgressLoop :=
  let marked := { s with
    progressPersistState := Function.update s.progressPersistState id (some ⟨s.now, downloaded⟩) }
  match s.progressPersistState id with
  | some mark =>
    if bytesDue c mark downloaded || timeDue c mark s.now then (true, marked) else (false, s)
  | none => (true, marked)

def clearProgressPersistState (s : ProgressLoop) (id : Nat) : ProgressLoop :=
  { s with progressPersistState := Function.update s.progressPersistState id none }

def persistTask (s : ProgressLoop) (id : Nat) (written : Option Nat) : ProgressLoop :=
  match written with
  | some count => { s with given := Function.update s.given id (some (count, s.now)) }
  | none => s

/-- `handle_task_event`, and the clock. -/
def step (c : ProgressThrottleConfig) (s : ProgressLoop) : ProgressAct → Option ProgressLoop
  | .tick elapsed => some { s with now := s.now + elapsed }
  | .progress id downloaded written =>
    match s.shouldPersistProgress c id downloaded with
    | (true, s) =>
      some { s.persistTask id written with saves := Function.update s.saves id (s.saves id + 1) }
    | (false, s) => some s
  | .terminal id written returned =>
    let s := s.persistTask id written
    some (if returned then s.clearProgressPersistState id else s)
  | .deleted id returned => some (if returned then s.clearProgressPersistState id else s)

end ProgressLoop

namespace ProgressAct

/-- The byte count that a progress event of the task reports. -/
def reported (id : Nat) : ProgressAct → Option Nat
  | .progress i downloaded _ => if i = id then some downloaded else none
  | _ => none

/-- What a run reports of the task. -/
def reports (id : Nat) (acts : List ProgressAct) : List Nat := acts.filterMap (reported id)

/-- The event makes the loop forget when it has saved the task. -/
def clears (id : Nat) : ProgressAct → Bool
  | .terminal i _ returned => decide (i = id) && returned
  | .deleted i returned => decide (i = id) && returned
  | _ => false

/-- The repository takes what the loop gives it, the counter of a task is not behind what it has
reported, and the cookie jar is saved before a task that has ended is forgotten. -/
def Succeeds : ProgressAct → Prop
  | .progress _ downloaded written => ∃ count ∈ written, downloaded ≤ count
  | .terminal _ _ returned => returned = true
  | _ => True

theorem reports_concat_none {id : Nat} (h : a.reported id = none) :
    reports id (acts ++ [a]) = reports id acts := by
  rw [reports, List.filterMap_append, List.filterMap_cons_none h, List.filterMap_nil,
    List.append_nil, reports]

theorem reports_concat_some {id : Nat} (h : a.reported id = some downloaded) :
    reports id (acts ++ [a]) = reports id acts ++ [downloaded] := by
  rw [reports, List.filterMap_append, List.filterMap_cons_some h, List.filterMap_nil, reports]

end ProgressAct

/-- By how much the counts of a list rise, falls left out. -/
def rises : List Nat → Nat
  | a :: b :: rest => (b - a) + rises (b :: rest)
  | _ => 0

theorem rises_concat (l : List Nat) (a b : Nat) :
    rises (l ++ [a, b]) = rises (l ++ [a]) + (b - a) := by
  induction l with
  | nil => exact Nat.add_comm _ _
  | cons c l ih =>
    cases l with
    | nil =>
      simp only [List.cons_append, List.nil_append, rises]
      omega
    | cons d l =>
      simp only [List.cons_append, rises] at ih ⊢
      omega

theorem rises_mono (l : List Nat) (b : Nat) : rises l ≤ rises (l ++ [b]) := by
  rcases List.eq_nil_or_concat l with rfl | ⟨l, a, rfl⟩
  · exact Nat.zero_le _
  · rw [List.concat_eq_append, List.append_assoc, List.singleton_append, rises_concat]
    exact Nat.le_add_right _ _

namespace ProgressLoop

variable {s s' t : ProgressLoop} {id start : Nat}

@[simp] theorem persistTask_now (s : ProgressLoop) (id : Nat) (written : Option Nat) :
    (s.persistTask id written).now = s.now := by
  cases written <;> rfl

@[simp] theorem persistTask_saves (s : ProgressLoop) (id : Nat) (written : Option Nat) :
    (s.persistTask id written).saves = s.saves := by
  cases written <;> rfl

@[simp] theorem persistTask_progressPersistState (s : ProgressLoop) (id : Nat)
    (written : Option Nat) :
    (s.persistTask id written).progressPersistState = s.progressPersistState := by
  cases written <;> rfl

/-- What a step does to the entries of one task: no save is due, one is made, or the mark goes. -/
inductive Effect (c : ProgressThrottleConfig) (id : Nat) (a : ProgressAct) (s s' : ProgressLoop) :
    Prop
  | quiet (mark : s'.progressPersistState id = s.progressPersistState id)
      (saves : s'.saves id = s.saves id) (now : s.now ≤ s'.now)
      (early : ∀ downloaded ∈ a.reported id, ∃ mark, s.progressPersistState id = some mark ∧
        bytesDue c mark downloaded = false ∧ timeDue c mark s.now = false)
  | saved (downloaded : Nat) (report : a.reported id = some downloaded)
      (mark : s'.progressPersistState id = some ⟨s.now, downloaded⟩)
      (saves : s'.saves id = s.saves id + 1) (now : s'.now = s.now)
      (due : ∀ mark, s.progressPersistState id = some mark →
        bytesDue c mark downloaded = true ∨ timeDue c mark s.now = true)
  | cleared (clears : a.clears id = true) (report : a.reported id = none)
      (mark : s'.progressPersistState id = none) (saves : s'.saves id = s.saves id)
      (now : s'.now = s.now)

theorem shouldPersistProgress_cases (c : ProgressThrottleConfig) (s : ProgressLoop)
    (id downloaded : Nat) :
    (s.shouldPersistProgress c id downloaded = (false, s) ∧
      ∃ mark, s.progressPersistState id = some mark ∧
        bytesDue c mark downloaded = false ∧ timeDue c mark s.now = false) ∨
    s.shouldPersistProgress c id downloaded = (true, { s with
      progressPersistState :=
        Function.update s.progressPersistState id (some ⟨s.now, downloaded⟩) }) ∧
      ∀ mark, s.progressPersistState id = some mark →
        bytesDue c mark downloaded = true ∨ timeDue c mark s.now = true := by
  unfold shouldPersistProgress
  cases hm : s.progressPersistState id with
  | none => exact .inr ⟨rfl, fun mark hmark => nomatch hmark⟩
  | some mark =>
    by_cases hdue : (bytesDue c mark downloaded || timeDue c mark s.now) = true
    · refine .inr ⟨if_pos hdue, ?_⟩
      rintro _ ⟨⟩
      exact Bool.or_eq_true_iff.1 hdue
    · refine .inl ⟨if_neg hdue, mark, rfl, ?_⟩
      exact Bool.or_eq_false_iff.1 (Bool.not_eq_true _ ▸ hdue)

theorem step_progress_now (h : s.step c (.progress i downloaded written) = some s') :
    s'.now = s.now := by
  rcases shouldPersistProgress_cases c s i downloaded with ⟨hs, _⟩ | ⟨hs, _⟩
  · simp only [step, hs, Option.some.injEq] at h
    rw [← h]
  · simp only [step, hs, Option.some.injEq] at h
    rw [← h, persistTask_now]

theorem Effect.of_progress (h : s.step c (.progress i downloaded written) = some s') :
    Effect c id (.progress i downloaded written) s s' := by
  have hreport (hi : i ≠ id) : ProgressAct.reported id (.progress i downloaded written) = none :=
    if_neg hi
  have hnow := step_progress_now h
  rcases shouldPersistProgress_cases c s i downloaded with ⟨hs, mark, hm, hearly⟩ | ⟨hs, hdue⟩
  · simp only [step, hs, Option.some.injEq] at h
    subst h
    refine .quiet rfl rfl (Nat.le_refl _) ?_
    intro d hd
    by_cases hi : i = id
    · subst hi
      cases (if_pos rfl).symm.trans hd
      exact ⟨mark, hm, hearly⟩
    · cases (hreport hi).symm.trans hd
  · simp only [step, hs, Option.some.injEq] at h
    subst h
    by_cases hi : i = id
    · subst hi
      refine .saved downloaded (if_pos rfl) ?_ (Function.update_self ..) ?_ hdue
      · rw [persistTask_progressPersistState]
        exact Function.update_self ..
      · exact hnow
    · refine .quiet ?_ (Function.update_of_ne (Ne.symm hi) ..) ?_ ?_
      · rw [persistTask_progressPersistState]
        exact Function.update_of_ne (Ne.symm hi) ..
      · exact Nat.le_of_eq hnow.symm
      · intro d hd
        cases (hreport hi).symm.trans hd

theorem Effect.of_clear {t : ProgressLoop} (hr : a.reported id = none)
    (hc : a.clears id = (decide (i = id) && returned))
    (hmark : t.progressPersistState = s.progressPersistState) (hsaves : t.saves = s.saves)
    (hnow : t.now = s.now)
    (h : (if returned then t.clearProgressPersistState i else t) = s') : Effect c id a s s' := by
  subst h
  by_cases hcleared : returned = true ∧ i = id
  · obtain ⟨rfl, rfl⟩ := hcleared
    exact .cleared (by rw [hc, Bool.and_true, decide_eq_true rfl]) hr (Function.update_self ..)
      (congrFun hsaves i) hnow
  · refine .quiet ?_ ?_ ?_ (by rw [hr]; exact fun _ hd => nomatch hd)
    · split
      · rename_i hret
        have hi : id ≠ i := fun hi => hcleared ⟨hret, hi.symm⟩
        exact (Function.update_of_ne hi ..).trans (congrFun hmark id)
      · exact congrFun hmark id
    · split <;> exact congrFun hsaves id
    · split <;> exact Nat.le_of_eq hnow.symm

theorem Effect.of_step (h : s.step c a = some s') (id : Nat) : Effect c id a s s' := by
  cases a with
  | tick elapsed =>
    cases h
    exact .quiet rfl rfl (Nat.le_add_right _ _) fun _ hd => nomatch hd
  | progress i downloaded written => exact .of_progress h
  | terminal i written returned =>
    simp only [step, Option.some.injEq] at h
    exact .of_clear rfl rfl (persistTask_progressPersistState s i written)
      (persistTask_saves s i written) (persistTask_now s i written) h
  | deleted i returned =>
    simp only [step, Option.some.injEq] at h
    exact .of_clear rfl rfl rfl rfl rfl h

/-- How the saves of a task are paid for: the first one and the first after each clearing, those due
for the bytes, by the rise of the reports, and those due for the time. -/
def Metered (c : ProgressThrottleConfig) (start id : Nat) (acts : List ProgressAct)
    (s : ProgressLoop) : Prop :=
  start ≤ s.now ∧ ∃ opened byBytes byTime, s.saves id = opened + byBytes + byTime ∧
    match s.progressPersistState id with
    | none =>
      opened ≤ acts.countP (·.clears id) ∧
        c.thresholdBytes * byBytes ≤ rises (ProgressAct.reports id acts) ∧
        c.interval * byTime ≤ s.now - start
    | some mark =>
      opened ≤ acts.countP (·.clears id) + 1 ∧
        start ≤ mark.lastPersistedAt ∧ mark.lastPersistedAt ≤ s.now ∧
        c.interval * byTime ≤ mark.lastPersistedAt - start ∧
        ∃ before last, ProgressAct.reports id acts = before ++ [last] ∧
          c.thresholdBytes * byBytes + (last - mark.lastDownloaded) ≤ rises (before ++ [last])

theorem Metered.quiet (h : Metered c start id acts s)
    (hmark : s'.progressPersistState id = s.progressPersistState id)
    (hsaves : s'.saves id = s.saves id) (hnow : s.now ≤ s'.now)
    (hreport : ∀ downloaded ∈ a.reported id, ∃ mark, s.progressPersistState id = some mark ∧
      bytesDue c mark downloaded = false ∧ timeDue c mark s.now = false) :
    Metered c start id (acts ++ [a]) s' := by
  obtain ⟨hstart, opened, byBytes, byTime, hsum, hpaid⟩ := h
  refine ⟨by omega, opened, byBytes, byTime, hsaves.trans hsum, ?_⟩
  rw [hmark, List.countP_append]
  cases hm : s.progressPersistState id with
  | none =>
    rw [hm] at hpaid
    obtain ⟨hopened, hbytes, htime⟩ := hpaid
    have hr : a.reported id = none := by
      apply Option.eq_none_iff_forall_not_mem.2
      intro downloaded hd
      obtain ⟨mark, hmark, _⟩ := hreport downloaded hd
      cases hm.symm.trans hmark
    rw [ProgressAct.reports_concat_none hr]
    exact ⟨by omega, hbytes, by omega⟩
  | some mark =>
    rw [hm] at hpaid
    obtain ⟨hopened, hle, hge, htime, before, last, hlast, hbytes⟩ := hpaid
    refine ⟨by omega, hle, by omega, htime, ?_⟩
    cases hr : a.reported id with
    | none => exact ⟨before, last, (ProgressAct.reports_concat_none hr).trans hlast, hbytes⟩
    | some downloaded =>
      refine ⟨before ++ [last], downloaded, ?_, ?_⟩
      · rw [ProgressAct.reports_concat_some hr, hlast]
      · rw [List.append_assoc, List.singleton_append, rises_concat]
        omega

theorem Metered.of_mark (hstart : start ≤ s.now)
    (hmark : s.progressPersistState id = some ⟨s.now, downloaded⟩)
    (hr : ProgressAct.reports id acts = before ++ [downloaded])
    (hsum : s.saves id = opened + byBytes + byTime)
    (hopened : opened ≤ acts.countP (·.clears id) + 1)
    (hbytes : c.thresholdBytes * byBytes ≤ rises (before ++ [downloaded]))
    (htime : c.interval * byTime ≤ s.now - start) : Metered c start id acts s := by
  refine ⟨hstart, opened, byBytes, byTime, hsum, ?_⟩
  rw [hmark]
  refine ⟨hopened, hstart, Nat.le_refl _, htime, before, downloaded, hr, ?_⟩
  rw [Nat.sub_self]
  exact hbytes

theorem Metered.saved (h : Metered c start id acts s) (hr : a.reported id = some downloaded)
    (hmark : s'.progressPersistState id = some ⟨s.now, downloaded⟩)
    (hsaves : s'.saves id = s.saves id + 1) (hnow : s'.now = s.now)
    (hdue : ∀ mark, s.progressPersistState id = some mark →
      bytesDue c mark downloaded = true ∨ timeDue c mark s.now = true) :
    Metered c start id (acts ++ [a]) s' := by
  obtain ⟨hstart, opened, byBytes, byTime, hsum, hpaid⟩ := h
  have hcount : acts.countP (·.clears id) ≤ (acts ++ [a]).countP (·.clears id) := by
    rw [List.countP_append]
    exact Nat.le_add_right _ _
  have hr' : ProgressAct.reports id (acts ++ [a]) = ProgressAct.reports id acts ++ [downloaded] :=
    ProgressAct.reports_concat_some hr
  rw [← hnow] at hmark
  cases hm : s.progressPersistState id with
  | none =>
    rw [hm] at hpaid
    obtain ⟨hopened, hbytes, htime⟩ := hpaid
    have hrise := rises_mono (ProgressAct.reports id acts) downloaded
    have hsum' : s'.saves id = opened + 1 + byBytes + byTime := by omega
    exact .of_mark (by omega) hmark hr' hsum' (by omega) (by omega) (by omega)
  | some mark =>
    rw [hm] at hpaid
    obtain ⟨hopened, hle, hge, htime, before, last, hlast, hbytes⟩ := hpaid
    have hrise : rises (ProgressAct.reports id acts ++ [downloaded]) =
        rises (before ++ [last]) + (downloaded - last) := by
      rw [hlast, List.append_assoc, List.singleton_append, rises_concat]
    rcases hdue mark hm with hdue | hdue
    · have hth : c.thresholdBytes ≤ downloaded - mark.lastDownloaded := of_decide_eq_true hdue
      have hpay : c.thresholdBytes * (byBytes + 1) ≤
          rises (ProgressAct.reports id acts ++ [downloaded]) := by
        rw [hrise, Nat.mul_succ]
        omega
      have hsum' : s'.saves id = opened + (byBytes + 1) + byTime := by omega
      exact .of_mark (by omega) hmark hr' hsum' (by omega) hpay (by omega)
    · have hiv : c.interval ≤ s.now - mark.lastPersistedAt := of_decide_eq_true hdue
      have hpay : c.interval * (byTime + 1) ≤ s'.now - start := by
        rw [hnow, Nat.mul_succ]
        omega
      have hsum' : s'.saves id = opened + byBytes + (byTime + 1) := by omega
      exact .of_mark (by omega) hmark hr' hsum' (by omega) (by omega) hpay

theorem Metered.cleared (h : Metered c start id acts s) (hclears : a.clears id = true)
    (hr : a.reported id = none) (hmark : s'.progressPersistState id = none)
    (hsaves : s'.saves id = s.saves id) (hnow : s'.now = s.now) :
    Metered c start id (acts ++ [a]) s' := by
  obtain ⟨hstart, opened, byBytes, byTime, hsum, hpaid⟩ := h
  refine ⟨by omega, opened, byBytes, byTime, hsaves.trans hsum, ?_⟩
  have hcount : (acts ++ [a]).countP (·.clears id) = acts.countP (·.clears id) + 1 := by
    rw [List.countP_append, List.countP_singleton, if_pos hclears]
  rw [hmark, hcount, ProgressAct.reports_concat_none hr, hnow]
  cases hm : s.progressPersistState id with
  | none =>
    rw [hm] at hpaid
    exact ⟨by omega, hpaid.2⟩
  | some mark =>
    rw [hm] at hpaid
    obtain ⟨hopened, hle, hge, htime, before, last, hlast, hbytes⟩ := hpaid
    rw [hlast]
    exact ⟨hopened, by omega, by omega⟩

theorem Metered.step (h : Metered c start id acts s) (hs : s.step c a = some s') :
    Metered c start id (acts ++ [a]) s' := by
  cases Effect.of_step hs id with
  | quiet hmark hsaves hnow hearly => exact h.quiet hmark hsaves hnow hearly
  | saved downloaded hr hmark hsaves hnow hdue => exact h.saved hr hmark hsaves hnow hdue
  | cleared hclears hr hmark hsaves hnow => exact h.cleared hclears hr hmark hsaves hnow

theorem Metered.run (acts : List ProgressAct)
    (hrun : Transition.run (ProgressLoop.step c) (new start) acts = some s) :
    Metered c start id acts s := by
  induction acts using List.reverseRecOn generalizing s with
  | nil =>
    cases hrun
    exact ⟨Nat.le_refl _, 0, 0, 0, rfl, Nat.le_refl _, Nat.zero_le _, Nat.zero_le _⟩
  | append_singleton acts a ih =>
    obtain ⟨t, ht, hs⟩ := Transition.run_concat hrun
    exact (ih ht).step hs

/-- Where the loop remembers a save, it has given the repository at least the count remembered. -/
def Recorded (s : ProgressLoop) : Prop :=
  ∀ id mark, s.progressPersistState id = some mark →
    ∃ count, s.given id = some (count, mark.lastPersistedAt) ∧ mark.lastDownloaded ≤ count

theorem Recorded.clear (h : s.Recorded)
    (hgiven : ∀ other, other ≠ id → t.given other = s.given other)
    (hmark : t.progressPersistState = s.progressPersistState) :
    (t.clearProgressPersistState id).Recorded := by
  intro other mark hm
  by_cases ho : other = id
  · subst ho
    cases (Function.update_self ..).symm.trans hm
  · obtain ⟨count, hcount⟩ := h other mark ((congrFun hmark other).symm.trans
      ((Function.update_of_ne ho ..).symm.trans hm))
    exact ⟨count, (hgiven other ho).trans hcount.1, hcount.2⟩

theorem persistTask_given_of_ne (s : ProgressLoop) (written : Option Nat) (h : other ≠ id) :
    (s.persistTask id written).given other = s.given other := by
  cases written with
  | none => rfl
  | some count => exact Function.update_of_ne h ..

theorem Recorded.step (h : s.Recorded) (ha : a.Succeeds) (hs : s.step c a = some s') :
    s'.Recorded := by
  cases a with
  | tick elapsed =>
    cases hs
    exact h
  | progress i downloaded written =>
    obtain ⟨count, hcount, hle⟩ := ha
    cases Option.mem_def.1 hcount
    rcases shouldPersistProgress_cases c s i downloaded with ⟨hdue, _⟩ | ⟨hdue, _⟩
    · simp only [ProgressLoop.step, hdue, Option.some.injEq] at hs
      subst hs
      exact h
    · simp only [ProgressLoop.step, hdue, Option.some.injEq] at hs
      subst hs
      intro other mark hm
      by_cases ho : other = i
      · subst ho
        cases (Function.update_self ..).symm.trans hm
        exact ⟨count, Function.update_self .., hle⟩
      · obtain ⟨n, hn⟩ := h other mark ((Function.update_of_ne ho ..).symm.trans hm)
        exact ⟨n, (Function.update_of_ne ho ..).trans hn.1, hn.2⟩
  | terminal i written returned =>
    cases (ha : returned = true)
    cases hs
    exact h.clear (fun other => persistTask_given_of_ne s written)
      (persistTask_progressPersistState s i written)
  | deleted i returned =>
    cases returned with
    | false =>
      cases hs
      exact h
    | true =>
      cases hs
      exact h.clear (fun _ _ => rfl) rfl

theorem Recorded.run (hsucceeds : ∀ a ∈ acts, a.Succeeds)
    (hrun : Transition.run (ProgressLoop.step c) (new start) acts = some s) : s.Recorded := by
  apply (Transition.meets_of_forall hsucceeds).invariant (I := Recorded) _ _ hrun
  · intro s a s' hs ha hstep
    exact hs.step ha hstep
  · intro id mark hm
    cases hm

end ProgressLoop

/-- However often a task reports its progress, the event loop saves it at most once at first and
after each clearing, once for each threshold the reports have risen by and once for each interval
that has passed. -/
theorem progress_saves_bounded (c : ProgressThrottleConfig) (hinterval : 0 < c.intervalMs)
    (hthreshold : 0 < c.thresholdBytes) (start id : Nat) (acts : List ProgressAct)
    (s : ProgressLoop) (hrun : Transition.run (ProgressLoop.step c) (.new start) acts = some s) :
    s.saves id ≤ (acts.countP (·.clears id) + 1) +
      rises (ProgressAct.reports id acts) / c.thresholdBytes + (s.now - start) / c.interval := by
  have hiv : 0 < c.interval := Nat.mul_pos hinterval (by decide)
  have hmetered : ProgressLoop.Metered c start id acts s := .run acts hrun
  obtain ⟨hstart, opened, byBytes, byTime, hsum, hpaid⟩ := hmetered
  have hbound : opened ≤ acts.countP (·.clears id) + 1 ∧
      byBytes * c.thresholdBytes ≤ rises (ProgressAct.reports id acts) ∧
      byTime * c.interval ≤ s.now - start := by
    rw [Nat.mul_comm byBytes, Nat.mul_comm byTime]
    cases hm : s.progressPersistState id with
    | none =>
      rw [hm] at hpaid
      exact ⟨Nat.le_succ_of_le hpaid.1, hpaid.2⟩
    | some mark =>
      rw [hm] at hpaid
      obtain ⟨hopened, hle, hge, htime, before, last, hlast, hbytes⟩ := hpaid
      rw [hlast]
      exact ⟨hopened, by omega, by omega⟩
  have hbytes := (Nat.le_div_iff_mul_le hthreshold).2 hbound.2.1
  have htime := (Nat.le_div_iff_mul_le hiv).2 hbound.2.2
  omega

/-- A minute, or a kibibyte. -/
def slowThrottle : ProgressThrottleConfig where
  intervalMs := 60000
  thresholdBytes := 1024

def threeReports : List ProgressAct :=
  [.progress 1 128 (some 128), .progress 1 256 (some 256), .progress 1 2048 (some 2048)]

theorem three_reports_save_twice : ∃ s,
    Transition.run (ProgressLoop.step slowThrottle) (.new 0) threeReports = some s ∧ s.saves 1 = 2 ∧
      s.saves 1 ≤ (threeReports.countP (·.clears 1) + 1) +
        rises (ProgressAct.reports 1 threeReports) / slowThrottle.thresholdBytes +
        (s.now - 0) / slowThrottle.interval :=
  ⟨_, rfl, rfl, progress_saves_bounded slowThrottle (by decide) (by decide) 0 1 threeReports _ rfl⟩

/-- As long as the repository takes what the loop gives it, at a progress report the last record that
the loop has given it of the task is not behind the report or less than the threshold, and of that
moment or younger than the interval. -/
theorem progress_record_fresh (c : ProgressThrottleConfig) (start : Nat) (acts : List ProgressAct)
    (id downloaded : Nat) (written : Option Nat) (s : ProgressLoop)
    (hsucceeds : ∀ a ∈ acts ++ [.progress id downloaded written], ProgressAct.Succeeds a)
    (hrun : Transition.run (ProgressLoop.step c) (.new start)
      (acts ++ [.progress id downloaded written]) = some s) :
    ∃ count at_, s.given id = some (count, at_) ∧
      (downloaded ≤ count ∨ downloaded < count + c.thresholdBytes) ∧
      (at_ = s.now ∨ s.now < at_ + c.interval) := by
  have hrecorded := ProgressLoop.Recorded.run hsucceeds hrun
  obtain ⟨t, ht, hstep⟩ := Transition.run_concat hrun
  cases ProgressLoop.Effect.of_step hstep id with
  | quiet hmark hsaves hnow hearly =>
    obtain ⟨mark, hm, hbytes, htime⟩ := hearly downloaded (if_pos rfl)
    obtain ⟨count, hcount, hle⟩ := hrecorded id mark (hmark.trans hm)
    have hbehind := of_decide_eq_false hbytes
    have hyoung := of_decide_eq_false htime
    have hsame : s.now = t.now := ProgressLoop.step_progress_now hstep
    exact ⟨count, _, hcount, .inr (by omega), .inr (by omega)⟩
  | saved d hr hmark hsaves hnow hdue =>
    cases (if_pos rfl).symm.trans hr
    obtain ⟨count, hcount, hle⟩ := hrecorded id _ hmark
    exact ⟨count, _, hcount, .inl hle, .inl hnow.symm⟩
  | cleared hclears hr hmark hsaves hnow => cases hclears

/-- The second report is not saved; the record of the first is not far behind it. -/
theorem second_report_fresh : ∃ s,
    Transition.run (ProgressLoop.step slowThrottle) (.new 0)
      ([.progress 1 128 (some 130)] ++ [.progress 1 256 (some 256)]) = some s ∧
      ∃ count at_, s.given 1 = some (count, at_) ∧
        (256 ≤ count ∨ 256 < count + slowThrottle.thresholdBytes) ∧
        (at_ = s.now ∨ s.now < at_ + slowThrottle.interval) := by
  refine ⟨_, rfl, progress_record_fresh slowThrottle 0 [.progress 1 128 (some 130)] 1 256 (some 256)
    _ ?_ rfl⟩
  rw [List.forall_mem_append, List.forall_mem_singleton, List.forall_mem_singleton]
  exact ⟨⟨130, rfl, by decide⟩, 256, rfl, by decide⟩

end Paradown
