import Mathlib.Algebra.Order.Field.Rat
import Mathlib.Tactic.FieldSimp
import Mathlib.Tactic.Linarith
import Paradown.Spacing
import Paradown.Transition

namespace Paradown
set_option autoImplicit true

open Spacing

/-- Where a call of `acquire` stands: before it loads the limit, before it takes the lock, asleep
until its slot, or back with the slot it got, if it needed one. -/
inductive AcquirePhase where
  | loading
  | reserving (reservation : ℚ)
  | sleeping (waitUntil : ℚ)
  | returned (slot : Option ℚ) (time : ℚ)
  deriving DecidableEq

/-- A call of `acquire` and the last update of the limit that it has seen. -/
structure Acquire where
  bytes : Nat
  seen : Nat
  phase : AcquirePhase
  deriving DecidableEq

/-- The limiter, the clock, and the number of updates that have been sent. A limit of zero is none. -/
structure Limiter where
  bytesPerSecond : Nat
  nextAvailableAt : ℚ
  now : ℚ
  updates : Nat := 0
  calls : List Acquire := []

def kibToBytes (limitKibPerSec : Option Nat) : Nat :=
  (limitKibPerSec.map fun value => min (value * 1024) (2 ^ 64 - 1)).getD 0

def durationFor (bytes bytesPerSecond : Nat) : ℚ := bytes / bytesPerSecond

def Limiter.new (limitKibPerSec : Option Nat) (now : ℚ) : Limiter where
  bytesPerSecond := kibToBytes limitKibPerSec
  nextAvailableAt := now
  now := now

/-- Time passes, somebody calls, or a call goes on: `acquire` loads the limit, takes the lock, wakes
up or hears of a new limit; `set_limit_kib_per_sec` stores it, resets the clock and sends the
update. -/
inductive LimiterAct where
  | tick (elapsed : ℚ)
  | acquire (bytes : Nat)
  | load (call : Nat)
  | reserve (call : Nat)
  | wake (call : Nat)
  | changed (call : Nat)
  | storeLimit (limitKibPerSec : Option Nat)
  | resetClock
  | notify

def LimiterAct.setsLimit : LimiterAct → Bool
  | .storeLimit _ | .resetClock | .notify => true
  | _ => false

namespace Limiter

def setCall (l : Limiter) (i : Nat) (c : Acquire) : Limiter := { l with calls := l.calls.set i c }

/-- The slot of the next call that takes the lock. -/
def slot (l : Limiter) : ℚ := max l.nextAvailableAt l.now

def beginAcquire (l : Limiter) (bytes : Nat) : Acquire :=
  ⟨bytes, l.updates, if bytes = 0 then .returned none l.now else .loading⟩

/-- The next section of a call; a call that is asleep goes on where `tokio::select!` lets it. -/
def proceed (l : Limiter) (i : Nat) (c : Acquire) : LimiterAct → Option Limiter
  | .load _ =>
    match c.phase with
    | .loading =>
      some (l.setCall i { c with
        phase := if l.bytesPerSecond = 0 then .returned none l.now
          else .reserving (durationFor c.bytes l.bytesPerSecond) })
    | _ => none
  | .reserve _ =>
    match c.phase with
    | .reserving reservation =>
      some { l.setCall i { c with phase := .sleeping l.slot } with
        nextAvailableAt := l.slot + reservation }
    | _ => none
  | .wake _ =>
    match c.phase with
    | .sleeping waitUntil =>
      if waitUntil ≤ l.now then
        some (l.setCall i { c with phase := .returned (some waitUntil) l.now })
      else none
    | _ => none
  | .changed _ =>
    match c.phase with
    | .sleeping _ =>
      if c.seen = l.updates then none
      else some (l.setCall i { c with seen := l.updates, phase := .loading })
    | _ => none
  | _ => none

def step (l : Limiter) : LimiterAct → Option Limiter
  | .tick elapsed => if 0 ≤ elapsed then some { l with now := l.now + elapsed } else none
  | .acquire bytes => some { l with calls := l.calls ++ [l.beginAcquire bytes] }
  | .storeLimit limitKibPerSec => some { l with bytesPerSecond := kibToBytes limitKibPerSec }
  | .resetClock => some { l with nextAvailableAt := l.now }
  | .notify => some { l with updates := l.updates + 1 }
  | .load i => l.calls[i]?.bind fun c => l.proceed i c (.load i)
  | .reserve i => l.calls[i]?.bind fun c => l.proceed i c (.reserve i)
  | .wake i => l.calls[i]?.bind fun c => l.proceed i c (.wake i)
  | .changed i => l.calls[i]?.bind fun c => l.proceed i c (.changed i)

end Limiter

/-- What a call got when it took the lock. -/
structure Grant where
  call : Nat
  slot : ℚ
  bytes : Nat
  deriving DecidableEq

/-- The grants in the order in which they were made. -/
def noteGrant (grants : List Grant) (l : Limiter) (a : LimiterAct) (_ : Limiter) : List Grant :=
  match a with
  | .reserve i => grants ++ (l.calls[i]?.map fun c => ⟨i, l.slot, c.bytes⟩).toList
  | _ => grants

/-- The time that the bytes of a grant take at `rate` bytes per second. -/
def Grant.time (rate : Nat) (g : Grant) : ℚ := durationFor g.bytes rate

/-- What the grants say of a call for so many bytes. -/
def AcquirePhase.Served (rate : Nat) (grants : List Grant) (i bytes : Nat) : AcquirePhase → Prop
  | .loading => ∀ g ∈ grants, g.call ≠ i
  | .reserving reservation => reservation = durationFor bytes rate ∧ ∀ g ∈ grants, g.call ≠ i
  | .sleeping waitUntil => ⟨i, waitUntil, bytes⟩ ∈ grants
  | .returned (some slot) time => ⟨i, slot, bytes⟩ ∈ grants ∧ slot ≤ time
  | .returned none _ => bytes = 0

/-- While the limit stays: each grant stands behind the time that the one before it takes, and every
call has at most one. -/
structure Limiter.Paced (rate : Nat) (l : Limiter) (grants : List Grant) : Prop where
  limit : l.bytesPerSecond = rate
  seen : ∀ c ∈ l.calls, c.seen = l.updates
  spaced : Spaced Grant.slot (Grant.time rate) grants
  next : ∀ g ∈ grants.getLast?, g.slot + g.time rate ≤ l.nextAvailableAt
  calls : ∀ (i : Nat) (c : Acquire), l.calls[i]? = some c → c.phase.Served rate grants i c.bytes
  known : ∀ g ∈ grants, g.call < l.calls.length
  distinct : (grants.map Grant.call).Nodup

theorem durationFor_nonneg (bytes rate : Nat) : 0 ≤ durationFor bytes rate := by
  unfold durationFor
  exact div_nonneg (Nat.cast_nonneg bytes) (Nat.cast_nonneg rate)

theorem Grant.time_nonneg (rate : Nat) (g : Grant) : 0 ≤ g.time rate := durationFor_nonneg _ _

theorem AcquirePhase.Served.concat {phase : AcquirePhase} (h : phase.Served rate grants j bytes)
    (hne : g.call ≠ j) : phase.Served rate (grants ++ [g]) j bytes := by
  have hnone (hall : ∀ g' ∈ grants, g'.call ≠ j) : ∀ g' ∈ grants ++ [g], g'.call ≠ j := by
    intro g' hg'
    rcases List.mem_append.1 hg' with hg' | hg'
    · exact hall g' hg'
    · cases List.mem_singleton.1 hg'
      exact hne
  cases phase with
  | loading => exact hnone h
  | reserving reservation => exact ⟨h.1, hnone h.2⟩
  | sleeping waitUntil => exact List.mem_append_left _ h
  | returned slot time =>
    cases slot with
    | none => exact h
    | some slot => exact ⟨List.mem_append_left _ h.1, h.2⟩

namespace Limiter.Paced

theorem setCall {l : Limiter} (h : l.Paced rate grants) (hc : c.seen = l.updates)
    (hs : c.phase.Served rate grants i c.bytes) : (l.setCall i c).Paced rate grants where
  limit := h.limit
  seen c' hc' := by
    rcases List.mem_or_eq_of_mem_set hc' with hc' | rfl
    · exact h.seen c' hc'
    · exact hc
  spaced := h.spaced
  next := h.next
  calls j c' hj := by
    have hj' : (l.calls.set i c)[j]? = some c' := hj
    rw [List.getElem?_set] at hj'
    split at hj'
    · split at hj' <;> cases hj'
      subst j
      exact hs
    · exact h.calls j c' hj'
  known g hg := by
    have hlt := h.known g hg
    simpa only [Limiter.setCall, List.length_set] using hlt
  distinct := h.distinct

theorem load {l : Limiter} (h : l.Paced rate grants) (hrate : 0 < rate) (hi : l.calls[i]? = some c)
    (hs : l.proceed i c (.load i) = some l') : l'.Paced rate grants := by
  have hserved := h.calls i c hi
  simp only [Limiter.proceed] at hs
  split at hs <;> cases hs
  rename_i hphase
  rw [hphase] at hserved
  have hne : l.bytesPerSecond ≠ 0 := by
    rw [h.limit]
    exact Nat.ne_of_gt hrate
  rw [if_neg hne]
  have hseen := h.seen c (List.mem_of_getElem? hi)
  apply h.setCall (i := i) (c := { c with phase := .reserving _ }) hseen
  exact ⟨by rw [h.limit], hserved⟩

theorem wake {l : Limiter} (h : l.Paced rate grants) (hi : l.calls[i]? = some c)
    (hs : l.proceed i c (.wake i) = some l') : l'.Paced rate grants := by
  have hserved := h.calls i c hi
  simp only [Limiter.proceed] at hs
  split at hs
  case h_2 => cases hs
  case h_1 waitUntil hphase =>
    rw [hphase] at hserved
    split at hs
    case isFalse => cases hs
    case isTrue hle =>
      cases hs
      exact h.setCall (h.seen c (List.mem_of_getElem? hi)) ⟨hserved, hle⟩

theorem not_changed {l : Limiter} (h : l.Paced rate grants) (hi : l.calls[i]? = some c) :
    l.proceed i c (.changed i) = none := by
  have hseen := h.seen c (List.mem_of_getElem? hi)
  simp only [Limiter.proceed, hseen, if_true]
  split <;> rfl

/-- The clock has come at least to the end of the last grant, so the next one stands behind it. -/
theorem reserve {l : Limiter} (h : l.Paced rate grants) (hi : l.calls[i]? = some c)
    (hs : l.proceed i c (.reserve i) = some l') :
    l'.Paced rate (grants ++ [⟨i, l.slot, c.bytes⟩]) := by
  have hserved := h.calls i c hi
  have hlt : i < l.calls.length := (List.getElem?_eq_some_iff.1 hi).1
  simp only [Limiter.proceed] at hs
  split at hs <;> cases hs
  rename_i reservation hphase
  rw [hphase] at hserved
  obtain ⟨htime, hnone⟩ := hserved
  constructor
  case limit => exact h.limit
  case seen =>
    intro c' hc'
    rcases List.mem_or_eq_of_mem_set hc' with hc' | rfl
    · exact h.seen c' hc'
    · exact h.seen c (List.mem_of_getElem? hi)
  case spaced =>
    apply h.spaced.concat
    intro g hg
    exact (h.next g hg).trans (le_max_left _ _)
  case next =>
    intro g hg
    rw [List.getLast?_append, List.getLast?_singleton] at hg
    cases hg
    rw [htime]
    exact le_refl _
  case calls =>
    intro j c' hj
    have hj' : (l.calls.set i { c with phase := .sleeping l.slot })[j]? = some c' := hj
    rw [List.getElem?_set] at hj'
    split at hj'
    case isTrue he =>
      cases hj'
      subst j
      exact List.mem_append_right _ List.mem_cons_self
    case isFalse hne => exact (h.calls j c' hj').concat hne
  case known =>
    intro g hg
    have hlength : (l.calls.set i { c with phase := .sleeping l.slot }).length = l.calls.length :=
      List.length_set
    show g.call < (l.calls.set i { c with phase := .sleeping l.slot }).length
    rw [hlength]
    rcases List.mem_append.1 hg with hg | hg
    · exact h.known g hg
    · cases List.mem_singleton.1 hg
      exact hlt
  case distinct =>
    rw [List.map_append, List.map_singleton]
    apply List.nodup_append.2
    refine ⟨h.distinct, List.pairwise_singleton _ _, ?_⟩
    intro a ha b hb
    obtain ⟨g, hg, rfl⟩ := List.mem_map.1 ha
    cases List.mem_singleton.1 hb
    exact hnone g hg

theorem acquire {l : Limiter} (h : l.Paced rate grants) (bytes : Nat) :
    ({ l with calls := l.calls ++ [l.beginAcquire bytes] } : Limiter).Paced rate grants where
  limit := h.limit
  seen c hc := by
    rcases List.mem_append.1 hc with hc | hc
    · exact h.seen c hc
    · cases List.mem_singleton.1 hc
      rfl
  spaced := h.spaced
  next := h.next
  calls j c hj := by
    rcases Nat.lt_or_ge j l.calls.length with hlt | hge
    · rw [List.getElem?_append_left hlt] at hj
      exact h.calls j c hj
    · have hnone : ∀ g ∈ grants, g.call ≠ j := by
        intro g hg he
        have hlt := h.known g hg
        omega
      rw [List.getElem?_append_right hge] at hj
      cases List.mem_singleton.1 (List.mem_of_getElem? hj)
      unfold Limiter.beginAcquire
      split
      case isTrue hzero => exact hzero
      case isFalse => exact hnone
  known g hg := by
    rw [List.length_append]
    exact Nat.lt_add_right _ (h.known g hg)
  distinct := h.distinct

theorem begin {l : Limiter} (hcalls : l.calls = []) : l.Paced l.bytesPerSecond [] where
  limit := rfl
  seen c hc := by
    rw [hcalls] at hc
    cases hc
  spaced := .nil
  next g hg := by cases hg
  calls i c hi := by
    rw [hcalls] at hi
    cases hi
  known g hg := by cases hg
  distinct := .nil

theorem step {l : Limiter} (h : l.Paced rate grants) (hrate : 0 < rate) (ha : a.setsLimit = false)
    (hs : l.step a = some l') : l'.Paced rate (noteGrant grants l a l') := by
  cases a with
  | storeLimit _ | resetClock | notify => cases ha
  | tick elapsed =>
    simp only [Limiter.step] at hs
    split at hs <;> cases hs
    exact ⟨h.limit, h.seen, h.spaced, h.next, h.calls, h.known, h.distinct⟩
  | acquire bytes =>
    cases hs
    exact h.acquire bytes
  | load i =>
    obtain ⟨c, hi, hs⟩ := Option.bind_eq_some_iff.1 hs
    exact h.load hrate hi hs
  | wake i =>
    obtain ⟨c, hi, hs⟩ := Option.bind_eq_some_iff.1 hs
    exact h.wake hi hs
  | changed i =>
    obtain ⟨c, hi, hs⟩ := Option.bind_eq_some_iff.1 hs
    rw [h.not_changed hi] at hs
    cases hs
  | reserve i =>
    obtain ⟨c, hi, hs⟩ := Option.bind_eq_some_iff.1 hs
    have hnote : noteGrant grants l (.reserve i) l' = grants ++ [⟨i, l.slot, c.bytes⟩] := by
      simp only [noteGrant, hi, Option.map_some, Option.toList_some]
    rw [hnote]
    exact h.reserve hi hs

end Limiter.Paced

theorem durationFor_mul {rate : Nat} (hrate : 0 < rate) (bytes : Nat) :
    (rate : ℚ) * durationFor bytes rate = bytes := by
  have hne : (rate : ℚ) ≠ 0 := Nat.cast_ne_zero.2 (Nat.ne_of_gt hrate)
  unfold durationFor
  field_simp

theorem sum_time_mul {rate : Nat} (hrate : 0 < rate) (grants : List Grant) :
    (rate : ℚ) * (grants.map (Grant.time rate)).sum = ((grants.map Grant.bytes).sum : ℕ) := by
  induction grants with
  | nil => simp
  | cons g grants ih =>
    rw [List.map_cons, List.sum_cons, mul_add, ih, Grant.time, durationFor_mul hrate, List.map_cons,
      List.sum_cons, Nat.cast_add]

/-- From any state of the limiter with no call in progress, and as long as its limit stays: in the
order in which calls take the lock, the slots do not decrease, the bytes granted between two slots
fit between them at the limit, so that those of a window of slots exceed it by at most one grant, and
no call is back before its slot. -/
theorem rate_limit_cap (l l' : Limiter) (as : List LimiterAct) (hrate : 0 < l.bytesPerSecond)
    (hcalls : l.calls = []) (has : ∀ a ∈ as, a.setsLimit = false)
    (hrun : Transition.run Limiter.step l as = some l') :
    let grants := Transition.history Limiter.step noteGrant [] l as
    (∀ (i j : Nat) (g g' : Grant), grants[i]? = some g → grants[j]? = some g' → i < j →
      g.slot ≤ g'.slot ∧
        ((((grants.drop i).take (j - i)).map Grant.bytes).sum : ℕ) ≤
          (l.bytesPerSecond : ℚ) * (g'.slot - g.slot)) ∧
    (∀ low high : ℚ,
      let window := grants.filter fun g => decide (low ≤ g.slot ∧ g.slot ≤ high)
      window = [] ∨ ∃ last ∈ window, ((window.map Grant.bytes).sum : ℕ) ≤
        (l.bytesPerSecond : ℚ) * (high - low) + last.bytes) ∧
    (grants.map Grant.call).Nodup ∧
    ∀ (i : Nat) (c : Acquire) (slot : Option ℚ) (time : ℚ), l'.calls[i]? = some c →
      c.phase = .returned slot time →
      c.bytes = 0 ∨ ∃ g ∈ grants, g.call = i ∧ g.bytes = c.bytes ∧ g.slot ≤ time := by
  intro grants
  have hpaced : l'.Paced l.bytesPerSecond grants := by
    have hmeets : Transition.Meets Limiter.step (fun _ a => a.setsLimit = false) l as :=
      Transition.meets_of_forall has
    apply hmeets.history (I := fun l' gs => l'.Paced l.bytesPerSecond gs)
      (fun _ _ _ _ h ha hs => h.step hrate ha hs) (.begin hcalls) hrun
  refine ⟨?_, ?_, hpaced.distinct, ?_⟩
  · intro i j g g' hi hj hij
    have hsum := hpaced.spaced.sum_le (Nat.le_of_lt hij) hi hj
    have hnonneg : 0 ≤ (((grants.drop i).take (j - i)).map (Grant.time l.bytesPerSecond)).sum := by
      apply List.sum_nonneg
      intro x hx
      obtain ⟨g, _, rfl⟩ := List.mem_map.1 hx
      exact g.time_nonneg _
    constructor
    · linarith
    · rw [← sum_time_mul hrate]
      have hpos : (0 : ℚ) ≤ l.bytesPerSecond := Nat.cast_nonneg _
      apply mul_le_mul_of_nonneg_left _ hpos
      linarith
  · intro low high window
    apply (hpaced.spaced.window (fun g _ => g.time_nonneg _) low high).imp_right
    rintro ⟨last, hlast, hsum⟩
    refine ⟨last, hlast, ?_⟩
    have hpos : (0 : ℚ) ≤ l.bytesPerSecond := Nat.cast_nonneg _
    calc (((window.map Grant.bytes).sum : ℕ) : ℚ)
        = l.bytesPerSecond * (window.map (Grant.time l.bytesPerSecond)).sum :=
          (sum_time_mul hrate window).symm
      _ ≤ l.bytesPerSecond * (high - low + last.time l.bytesPerSecond) :=
          mul_le_mul_of_nonneg_left hsum hpos
      _ = l.bytesPerSecond * (high - low) + last.bytes := by
          rw [mul_add, Grant.time, durationFor_mul hrate]
  · intro i c slot time hi hphase
    have hserved := hpaced.calls i c hi
    rw [hphase] at hserved
    cases slot with
    | none => exact .inl hserved
    | some slot => exact .inr ⟨_, hserved.1, rfl, rfl, hserved.2⟩

/-- Two calls at one KiB per second; the second waits for the two seconds that the first one takes. -/
def twoAcquires : List LimiterAct :=
  [.acquire 2048, .acquire 1024, .load 0, .load 1, .reserve 0, .reserve 1, .wake 0, .tick 2, .wake 1]

theorem second_acquire_waits :
    Transition.history Limiter.step noteGrant [] (.new (some 1) 0) twoAcquires =
        [⟨0, 0, 2048⟩, ⟨1, 2, 1024⟩] ∧
      (2048 : ℕ) ≤ (1024 : ℚ) * (2 - 0) := by
  have hgrants : Transition.history Limiter.step noteGrant [] (.new (some 1) 0) twoAcquires =
      [⟨0, 0, 2048⟩, ⟨1, 2, 1024⟩] := by decide +kernel
  have hrun : (Transition.run Limiter.step (.new (some 1) 0) twoAcquires).isSome = true := by
    decide +kernel
  obtain ⟨l', hl⟩ := Option.isSome_iff_exists.1 hrun
  have hcap := (rate_limit_cap (.new (some 1) 0) l' twoAcquires (by decide) rfl (by decide) hl).1
  rw [hgrants] at hcap
  exact ⟨hgrants, (hcap 0 1 _ _ rfl rfl (by decide)).2⟩

end Paradown
