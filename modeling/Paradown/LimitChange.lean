import Paradown.Packing
import Paradown.RateLimiter
import Paradown.Tally

namespace Paradown
set_option autoImplicit true

open Packing

/-- Where a call of `set_limit_kib_per_sec` stands once it has stored the limit. -/
inductive SetLimitPhase where
  | resetting
  | notifying
  | returned
  deriving DecidableEq

def SetLimitPhase.hasReset : SetLimitPhase → Bool
  | .resetting => false
  | _ => true

def SetLimitPhase.hasTold : SetLimitPhase → Bool
  | .returned => true
  | _ => false

/-- The limiter, and the calls of `set_limit_kib_per_sec` beside those of `acquire`. -/
structure SharedLimiter where
  limiter : Limiter
  setters : List SetLimitPhase := []

inductive SharedLimiterAct where
  | acquiring (a : LimiterAct)
  | setLimit (limitKibPerSec : Option Nat)
  | goOn (setter : Nat)

/-- A place in the line of `acquire`, with the limit it was reserved at. -/
structure Reservation where
  call : Nat
  arrived : ℚ
  slot : ℚ
  length : ℚ

/-- The limit that each call has loaded last, and the reservations since the clock was last reset. -/
structure LimitNotes where
  loaded : Nat → Nat
  reservations : List Reservation

namespace SharedLimiter

def new (limitKibPerSec : Option Nat) (now : ℚ) : SharedLimiter where
  limiter := .new limitKibPerSec now

/-- The next section of a call of `set_limit_kib_per_sec`: it resets the clock and then sends the
update. -/
def goOn (s : SharedLimiter) (j : Nat) : SetLimitPhase → Option SharedLimiter
  | .resetting =>
    (s.limiter.step .resetClock).map fun limiter => ⟨limiter, s.setters.set j .notifying⟩
  | .notifying => (s.limiter.step .notify).map fun limiter => ⟨limiter, s.setters.set j .returned⟩
  | .returned => none

def step (s : SharedLimiter) : SharedLimiterAct → Option SharedLimiter
  | .acquiring a =>
    if a.setsLimit then none else (s.limiter.step a).map fun limiter => { s with limiter }
  | .setLimit limitKibPerSec =>
    (s.limiter.step (.storeLimit limitKibPerSec)).map fun limiter =>
      ⟨limiter, s.setters ++ [.resetting]⟩
  | .goOn j => s.setters[j]?.bind (s.goOn j)

/-- How many calls have reset the clock. -/
def resets (s : SharedLimiter) : Nat := s.setters.countP SetLimitPhase.hasReset

/-- No call of `set_limit_kib_per_sec` is in progress. -/
def settled (s : SharedLimiter) : Bool := s.setters.all SetLimitPhase.hasTold

/-- What a call of `acquire` reserves. -/
def reserved (l : Limiter) (i : Nat) : Option Reservation :=
  l.calls[i]?.bind fun c =>
    match c.phase with
    | .reserving reservation => some ⟨i, l.now, l.slot, reservation⟩
    | _ => none

def note (notes : LimitNotes) (s : SharedLimiter) (a : SharedLimiterAct) (_ : SharedLimiter) :
    LimitNotes :=
  match a with
  | .acquiring (.load i) =>
    { notes with loaded := Function.update notes.loaded i s.limiter.bytesPerSecond }
  | .acquiring (.reserve i) =>
    { notes with reservations := notes.reservations ++ (reserved s.limiter i).toList }
  | .goOn j =>
    match s.setters[j]? with
    | some .resetting => { notes with reservations := [] }
    | _ => notes
  | _ => notes

end SharedLimiter

/-- What is known of a call in progress: it has reserved at the limit it has loaded, and where that
limit or the line has changed since, the update that tells it is still to come. -/
def Acquire.Hears (rate sets resets loaded : Nat) (gs : List Reservation) (i : Nat) (c : Acquire) :
    Prop :=
  match c.phase with
  | .loading | .returned _ _ => True
  | .reserving reservation =>
    reservation = durationFor c.bytes loaded ∧ (loaded = rate ∧ loaded ≠ 0 ∨ c.seen < sets)
  | .sleeping waitUntil =>
    (loaded = rate ∧ loaded ≠ 0 ∨ c.seen < sets) ∧
    (c.seen < resets ∨ ∃ g ∈ gs, g.call = i ∧ g.slot = waitUntil ∧
      g.length = durationFor c.bytes loaded)

/-- No call misses an update. -/
structure SharedLimiter.Heard (s : SharedLimiter) (notes : LimitNotes) : Prop where
  updates : s.limiter.updates = s.setters.countP SetLimitPhase.hasTold
  seen : ∀ c ∈ s.limiter.calls, c.seen ≤ s.limiter.updates
  hears : ∀ (i : Nat) (c : Acquire), s.limiter.calls[i]? = some c →
    c.Hears s.limiter.bytesPerSecond s.setters.length s.resets (notes.loaded i) notes.reservations i

/-- The line since the clock was last reset. -/
structure Limiter.Queued (l : Limiter) (gs : List Reservation) : Prop where
  packed : Packed Reservation.slot Reservation.length Reservation.arrived gs
  free : gs = [] → l.nextAvailableAt ≤ l.now
  next : ∀ g ∈ gs.getLast?, l.nextAvailableAt = g.slot + g.length

namespace Acquire.Hears

variable {c : Acquire}

theorem setLimit (h : c.Hears rate sets resets loaded gs i) (hseen : c.seen ≤ sets) (rate' : Nat) :
    c.Hears rate' (sets + 1) resets loaded gs i := by
  unfold Hears at h ⊢
  cases hp : c.phase with
  | loading | returned _ _ => trivial
  | reserving reservation =>
    rw [hp] at h
    exact ⟨h.1, .inr (Nat.lt_succ_of_le hseen)⟩
  | sleeping waitUntil =>
    rw [hp] at h
    exact ⟨.inr (Nat.lt_succ_of_le hseen), h.2⟩

theorem resetClock (h : c.Hears rate sets resets loaded gs i) (hseen : c.seen ≤ resets) :
    c.Hears rate sets (resets + 1) loaded [] i := by
  unfold Hears at h ⊢
  cases hp : c.phase with
  | loading | returned _ _ => trivial
  | reserving reservation =>
    rw [hp] at h
    exact h
  | sleeping waitUntil =>
    rw [hp] at h
    exact ⟨h.1, .inl (Nat.lt_succ_of_le hseen)⟩

theorem append (h : c.Hears rate sets resets loaded gs i) (gs' : List Reservation) :
    c.Hears rate sets resets loaded (gs ++ gs') i := by
  unfold Hears at h ⊢
  cases hp : c.phase with
  | loading | returned _ _ => trivial
  | reserving reservation =>
    rw [hp] at h
    exact h
  | sleeping waitUntil =>
    rw [hp] at h
    refine ⟨h.1, h.2.imp_right ?_⟩
    rintro ⟨g, hg, hcall⟩
    exact ⟨g, List.mem_append_left _ hg, hcall⟩

theorem late (h : c.Hears 0 sets resets loaded gs i) (hload : c.phase ≠ .loading)
    (hback : ∀ slot time, c.phase ≠ .returned slot time) : c.seen < sets := by
  unfold Hears at h
  cases hp : c.phase with
  | loading => exact absurd hp hload
  | returned slot time => exact absurd hp (hback slot time)
  | reserving reservation =>
    rw [hp] at h
    exact h.2.resolve_left fun hloaded => hloaded.2 hloaded.1
  | sleeping waitUntil =>
    rw [hp] at h
    exact h.1.resolve_left fun hloaded => hloaded.2 hloaded.1

end Acquire.Hears

namespace Limiter.Queued

variable {l l' : Limiter}

theorem keep (h : l.Queued gs) (hnext : l'.nextAvailableAt = l.nextAvailableAt)
    (hnow : l.now ≤ l'.now) : l'.Queued gs where
  packed := h.packed
  free hnil := by
    rw [hnext]
    exact (h.free hnil).trans hnow
  next g hg := by
    rw [hnext]
    exact h.next g hg

theorem resetClock (hs : l.step .resetClock = some l') : l'.Queued [] := by
  cases hs
  refine ⟨.nil, fun _ => le_refl _, ?_⟩
  intro g hg
  cases hg

/-- A new reservation stands where the line ends, or now if the line is empty. -/
theorem reserve (h : l.Queued gs) (hnow : l'.nextAvailableAt = l.slot + length) :
    l'.Queued (gs ++ [⟨i, l.now, l.slot, length⟩]) where
  packed := by
    apply h.packed.concat
    · intro hnil
      exact max_eq_right (h.free hnil)
    · intro g hg
      show max l.nextAvailableAt l.now = max l.now (g.slot + g.length)
      rw [h.next g hg, max_comm]
  free hnil := absurd hnil (List.concat_ne_nil _ _)
  next g hg := by
    rw [List.getLast?_concat] at hg
    cases hg
    exact hnow

end Limiter.Queued

namespace SharedLimiter

variable {s s' : SharedLimiter} {notes : LimitNotes}

theorem Heard.updates_le_resets (h : s.Heard notes) : s.limiter.updates ≤ s.resets := by
  rw [h.updates]
  apply List.countP_mono_left
  intro p _ hp
  cases p with
  | returned => rfl
  | resetting | notifying => cases hp

theorem Heard.resets_le (_ : s.Heard notes) : s.resets ≤ s.setters.length := List.countP_le_length

theorem Heard.setLimit (h : s.Heard notes) (rate : Nat) :
    Heard ⟨{ s.limiter with bytesPerSecond := rate }, s.setters ++ [.resetting]⟩ notes := by
  have hresets : (s.setters ++ [SetLimitPhase.resetting]).countP SetLimitPhase.hasReset = s.resets := by
    rw [List.countP_append]
    exact Nat.add_zero _
  constructor
  case updates =>
    rw [List.countP_append]
    exact h.updates
  case seen => exact h.seen
  case hears =>
    intro i c hi
    rw [resets, hresets, List.length_append]
    apply (h.hears i c hi).setLimit
    have hseen := h.seen c (List.mem_of_getElem? hi)
    have := h.updates_le_resets
    have := h.resets_le
    omega

theorem Heard.reset (h : s.Heard notes) (hj : s.setters[j]? = some .resetting) (now : ℚ) :
    Heard ⟨{ s.limiter with nextAvailableAt := now }, s.setters.set j .notifying⟩
      { notes with reservations := [] } := by
  have hresets := List.countP_set_add (p := SetLimitPhase.hasReset) hj .notifying
  have htold := List.countP_set_add (p := SetLimitPhase.hasTold) hj .notifying
  simp only [SetLimitPhase.hasReset, SetLimitPhase.hasTold, Bool.toNat_true, Bool.toNat_false,
    Nat.add_zero] at hresets htold
  constructor
  case updates => exact h.updates.trans htold.symm
  case seen => exact h.seen
  case hears =>
    intro i c hi
    rw [resets, hresets, List.length_set]
    apply (h.hears i c hi).resetClock
    exact (h.seen c (List.mem_of_getElem? hi)).trans h.updates_le_resets

theorem Heard.notify (h : s.Heard notes) (hj : s.setters[j]? = some .notifying) :
    Heard ⟨{ s.limiter with updates := s.limiter.updates + 1 }, s.setters.set j .returned⟩ notes := by
  have hresets := List.countP_set_add (p := SetLimitPhase.hasReset) hj .returned
  have htold := List.countP_set_add (p := SetLimitPhase.hasTold) hj .returned
  simp only [SetLimitPhase.hasReset, SetLimitPhase.hasTold, Bool.toNat_true, Bool.toNat_false,
    Nat.add_zero] at hresets htold
  constructor
  case updates =>
    rw [htold, ← h.updates]
  case seen =>
    intro c hc
    exact Nat.le_succ_of_le (h.seen c hc)
  case hears =>
    intro i c hi
    have hears := h.hears i c hi
    rw [resets, List.length_set, Nat.add_right_cancel hresets]
    exact hears

theorem Heard.setCall (h : s.Heard notes) (hseen : c.seen ≤ s.limiter.updates)
    (hrate : l.bytesPerSecond = s.limiter.bytesPerSecond)
    (hupdates : l.updates = s.limiter.updates) (hcalls : l.calls = s.limiter.calls.set i c)
    (hloaded : ∀ j, j ≠ i → loaded j = notes.loaded j) (gs : List Reservation)
    (hears : c.Hears s.limiter.bytesPerSecond s.setters.length s.resets (loaded i)
      (notes.reservations ++ gs) i) :
    Heard { s with limiter := l } ⟨loaded, notes.reservations ++ gs⟩ := by
  constructor
  case updates => exact hupdates.trans h.updates
  case seen =>
    intro c' hc'
    rw [hcalls] at hc'
    rw [hupdates]
    rcases List.mem_or_eq_of_mem_set hc' with hc' | rfl
    · exact h.seen c' hc'
    · exact hseen
  case hears =>
    intro j c' hj
    have hj' : (s.limiter.calls.set i c)[j]? = some c' := hcalls ▸ hj
    show c'.Hears l.bytesPerSecond _ _ _ _ _
    rw [hrate]
    rw [List.getElem?_set] at hj'
    split at hj'
    case isTrue he =>
      subst he
      split at hj' <;> cases hj'
      exact hears
    case isFalse hne =>
      show c'.Hears _ _ _ (loaded j) _ _
      rw [hloaded j (Ne.symm hne)]
      exact (h.hears j c' hj').append gs

theorem Heard.acquire (h : s.Heard notes) (bytes : Nat) :
    Heard { s with limiter := { s.limiter with
      calls := s.limiter.calls ++ [s.limiter.beginAcquire bytes] } } notes := by
  constructor
  case updates => exact h.updates
  case seen =>
    intro c hc
    rcases List.mem_append.1 hc with hc | hc
    · exact h.seen c hc
    · cases List.mem_singleton.1 hc
      exact le_refl _
  case hears =>
    intro j c hj
    have hj' : (s.limiter.calls ++ [s.limiter.beginAcquire bytes])[j]? = some c := hj
    rcases Nat.lt_or_ge j s.limiter.calls.length with hlt | hge
    · rw [List.getElem?_append_left hlt] at hj'
      exact h.hears j c hj'
    · rw [List.getElem?_append_right hge] at hj'
      cases List.mem_singleton.1 (List.mem_of_getElem? hj')
      unfold Acquire.Hears Limiter.beginAcquire
      by_cases hzero : bytes = 0 <;> simp only [hzero, if_true, if_false]

theorem Heard.load (h : s.Heard notes) (hi : s.limiter.calls[i]? = some c)
    (hs : s.limiter.proceed i c (.load i) = some l) :
    Heard { s with limiter := l }
      { notes with loaded := Function.update notes.loaded i s.limiter.bytesPerSecond } := by
  simp only [Limiter.proceed] at hs
  split at hs <;> cases hs
  rw [← List.append_nil notes.reservations]
  refine h.setCall ?_ ?_ ?_ rfl ?_ [] ?_
  · exact h.seen c (List.mem_of_getElem? hi)
  · rfl
  · rfl
  · intro j hj
    exact Function.update_of_ne hj _ _
  · rw [Function.update_self]
    by_cases hzero : s.limiter.bytesPerSecond = 0
    · rw [if_pos hzero]
      trivial
    · rw [if_neg hzero]
      exact ⟨rfl, .inl ⟨rfl, hzero⟩⟩

theorem reserved_eq (hi : s.limiter.calls[i]? = some c)
    (hphase : c.phase = .reserving reservation) :
    reserved s.limiter i = some ⟨i, s.limiter.now, s.limiter.slot, reservation⟩ := by
  simp only [reserved, hi, Option.bind_some, hphase]

theorem Heard.reserve (h : s.Heard notes) (hi : s.limiter.calls[i]? = some c)
    (hs : s.limiter.proceed i c (.reserve i) = some l) :
    Heard { s with limiter := l }
      { notes with reservations := notes.reservations ++ (reserved s.limiter i).toList } := by
  have hears := h.hears i c hi
  simp only [Limiter.proceed] at hs
  split at hs <;> cases hs
  rename_i reservation hphase
  simp only [Acquire.Hears, hphase] at hears
  obtain ⟨hlength, hload⟩ := hears
  rw [reserved_eq hi hphase]
  refine h.setCall ?_ ?_ ?_ rfl ?_ _ ?_
  · exact h.seen c (List.mem_of_getElem? hi)
  · rfl
  · rfl
  · exact fun _ _ => rfl
  · exact ⟨hload, .inr ⟨_, List.mem_append_right _ List.mem_cons_self, rfl, rfl, hlength⟩⟩

theorem Heard.leave (h : s.Heard notes) (hseen : c.seen ≤ s.limiter.updates)
    (hears : ∀ rate sets resets loaded gs, c.Hears rate sets resets loaded gs i) :
    Heard { s with limiter := s.limiter.setCall i c } notes := by
  have hnext : Heard { s with limiter := s.limiter.setCall i c }
      ⟨notes.loaded, notes.reservations ++ []⟩ := by
    refine h.setCall (i := i) hseen ?_ ?_ rfl ?_ [] (hears _ _ _ _ _)
    · rfl
    · rfl
    · exact fun _ _ => rfl
  rw [List.append_nil] at hnext
  exact hnext

theorem Heard.wake (h : s.Heard notes) (hi : s.limiter.calls[i]? = some c)
    (hs : s.limiter.proceed i c (.wake i) = some l) : Heard { s with limiter := l } notes := by
  simp only [Limiter.proceed] at hs
  split at hs
  case h_2 => cases hs
  case h_1 waitUntil hphase =>
    split at hs <;> cases hs
    apply h.leave
    · exact h.seen c (List.mem_of_getElem? hi)
    · exact fun _ _ _ _ _ => trivial

theorem Heard.changed (h : s.Heard notes) (hs : s.limiter.proceed i c (.changed i) = some l) :
    Heard { s with limiter := l } notes := by
  simp only [Limiter.proceed] at hs
  split at hs
  case h_2 => cases hs
  case h_1 waitUntil hphase =>
    split at hs <;> cases hs
    apply h.leave
    · exact le_refl s.limiter.updates
    · exact fun _ _ _ _ _ => trivial

theorem Heard.step (h : s.Heard notes) (hs : s.step a = some s') :
    s'.Heard (note notes s a s') := by
  cases a with
  | setLimit limitKibPerSec =>
    cases hs
    exact h.setLimit _
  | goOn j =>
    obtain ⟨p, hj, hs⟩ := Option.bind_eq_some_iff.1 hs
    cases p with
    | resetting =>
      cases hs
      simp only [note, hj]
      exact h.reset hj _
    | notifying =>
      cases hs
      simp only [note, hj]
      exact h.notify hj
    | returned => cases hs
  | acquiring a =>
    simp only [SharedLimiter.step] at hs
    split at hs
    case isTrue => cases hs
    case isFalse hset =>
      obtain ⟨l, hl, rfl⟩ := Option.map_eq_some_iff.1 hs
      cases a with
      | storeLimit _ | resetClock | notify => exact absurd rfl hset
      | tick elapsed =>
        simp only [Limiter.step] at hl
        split at hl <;> cases hl
        exact ⟨h.updates, h.seen, h.hears⟩
      | acquire bytes =>
        cases hl
        exact h.acquire bytes
      | load i =>
        obtain ⟨c, hi, hl⟩ := Option.bind_eq_some_iff.1 hl
        exact h.load hi hl
      | reserve i =>
        obtain ⟨c, hi, hl⟩ := Option.bind_eq_some_iff.1 hl
        exact h.reserve hi hl
      | wake i =>
        obtain ⟨c, hi, hl⟩ := Option.bind_eq_some_iff.1 hl
        exact h.wake hi hl
      | changed i =>
        obtain ⟨c, hi, hl⟩ := Option.bind_eq_some_iff.1 hl
        exact h.changed hl

theorem queued_step (h : s.limiter.Queued notes.reservations) (hs : s.step a = some s') :
    s'.limiter.Queued (note notes s a s').reservations := by
  cases a with
  | setLimit limitKibPerSec =>
    cases hs
    exact h.keep rfl (le_refl _)
  | goOn j =>
    obtain ⟨p, hj, hs⟩ := Option.bind_eq_some_iff.1 hs
    cases p with
    | resetting =>
      cases hs
      simp only [note, hj]
      exact .resetClock rfl
    | notifying =>
      cases hs
      simp only [note, hj]
      exact h.keep rfl (le_refl _)
    | returned => cases hs
  | acquiring a =>
    simp only [SharedLimiter.step] at hs
    split at hs
    case isTrue => cases hs
    case isFalse hset =>
      obtain ⟨l, hl, rfl⟩ := Option.map_eq_some_iff.1 hs
      cases a with
      | storeLimit _ | resetClock | notify => exact absurd rfl hset
      | tick elapsed =>
        simp only [Limiter.step] at hl
        split at hl <;> cases hl
        rename_i helapsed
        exact h.keep rfl (le_add_of_nonneg_right helapsed)
      | acquire bytes =>
        cases hl
        exact h.keep rfl (le_refl _)
      | load i =>
        obtain ⟨c, hi, hl⟩ := Option.bind_eq_some_iff.1 hl
        simp only [Limiter.proceed] at hl
        split at hl <;> cases hl
        exact h.keep rfl (le_refl _)
      | reserve i =>
        obtain ⟨c, hi, hl⟩ := Option.bind_eq_some_iff.1 hl
        simp only [Limiter.proceed] at hl
        split at hl <;> cases hl
        rename_i reservation hphase
        simp only [note, reserved_eq hi hphase, Option.toList_some]
        exact h.reserve rfl
      | wake i =>
        obtain ⟨c, hi, hl⟩ := Option.bind_eq_some_iff.1 hl
        simp only [Limiter.proceed] at hl
        split at hl
        case h_2 => cases hl
        case h_1 =>
          split at hl <;> cases hl
          exact h.keep rfl (le_refl _)
      | changed i =>
        obtain ⟨c, hi, hl⟩ := Option.bind_eq_some_iff.1 hl
        simp only [Limiter.proceed] at hl
        split at hl
        case h_2 => cases hl
        case h_1 =>
          split at hl <;> cases hl
          exact h.keep rfl (le_refl _)

theorem new_heard (limitKibPerSec : Option Nat) (now : ℚ) :
    (new limitKibPerSec now).Heard notes where
  updates := rfl
  seen c hc := by cases hc
  hears i c hi := by cases hi

theorem new_queued (limitKibPerSec : Option Nat) (now : ℚ) :
    (new limitKibPerSec now).limiter.Queued [] where
  packed := .nil
  free _ := le_refl now
  next g hg := by cases hg

theorem Heard.settled (h : s.Heard notes) (hq : s.settled = true) :
    s.setters.length = s.limiter.updates ∧ s.resets = s.limiter.updates := by
  have hall : s.setters.countP SetLimitPhase.hasTold = s.setters.length :=
    List.countP_eq_length.2 (List.all_eq_true.1 hq)
  have hlength := h.updates.trans hall
  have hle := h.updates_le_resets
  have hresets := h.resets_le
  omega

/-- The call can come back in so many steps, with no time passing. -/
def ReturnsWithin (n : Nat) (s : SharedLimiter) (i : Nat) : Prop :=
  ∃ path : List SharedLimiterAct, path.length ≤ n ∧
    ∃ s', Transition.run step s path = some s' ∧
      ∃ c, s'.limiter.calls[i]? = some c ∧ c.phase = .returned none s.limiter.now

theorem ReturnsWithin.mono (h : ReturnsWithin n s i) (hn : n ≤ m) : ReturnsWithin m s i := by
  obtain ⟨path, hlength, hback⟩ := h
  exact ⟨path, hlength.trans hn, hback⟩

theorem ReturnsWithin.head (hs : s.step a = some s') (hnow : s'.limiter.now = s.limiter.now)
    (h : ReturnsWithin n s' i) : ReturnsWithin (n + 1) s i := by
  obtain ⟨path, hlength, s'', hr, hback⟩ := h
  refine ⟨a :: path, Nat.succ_le_succ hlength, s'', ?_, hnow ▸ hback⟩
  rw [Transition.run, hs]
  exact hr

theorem returnsWithin_of_loading (hzero : s.limiter.bytesPerSecond = 0)
    (hi : s.limiter.calls[i]? = some c) (hphase : c.phase = .loading) : ReturnsWithin 1 s i := by
  have hlt := (List.getElem?_eq_some_iff.1 hi).1
  obtain ⟨s', hs, hcall⟩ : ∃ s', s.step (.acquiring (.load i)) = some s' ∧
      s'.limiter.calls[i]? = some { c with phase := .returned none s.limiter.now } := by
    refine ⟨⟨s.limiter.setCall i { c with phase := .returned none s.limiter.now }, s.setters⟩, ?_,
      List.getElem?_set_self hlt⟩
    simp only [step, LimiterAct.setsLimit, Limiter.step, hi, Option.bind_some, Limiter.proceed, hphase,
      hzero, if_true]
    rfl
  refine ⟨[.acquiring (.load i)], le_refl _, s', ?_, _, hcall, rfl⟩
  rw [Transition.run, hs]
  rfl

theorem returnsWithin_of_sleeping (hzero : s.limiter.bytesPerSecond = 0)
    (hi : s.limiter.calls[i]? = some c) (hphase : c.phase = .sleeping waitUntil)
    (hseen : c.seen ≠ s.limiter.updates) : ReturnsWithin 2 s i := by
  have hlt := (List.getElem?_eq_some_iff.1 hi).1
  have hs : s.step (.acquiring (.changed i)) = some ⟨s.limiter.setCall i
      { c with seen := s.limiter.updates, phase := .loading }, s.setters⟩ := by
    simp only [step, LimiterAct.setsLimit, Limiter.step, hi, Option.bind_some, Limiter.proceed, hphase,
      if_neg hseen]
    rfl
  apply ReturnsWithin.head hs rfl
  exact returnsWithin_of_loading hzero (List.getElem?_set_self hlt) rfl

theorem returnsWithin_of_reserving (hzero : s.limiter.bytesPerSecond = 0)
    (hi : s.limiter.calls[i]? = some c) (hphase : c.phase = .reserving reservation)
    (hseen : c.seen ≠ s.limiter.updates) : ReturnsWithin 3 s i := by
  have hlt := (List.getElem?_eq_some_iff.1 hi).1
  have hs : s.step (.acquiring (.reserve i)) = some ⟨{ s.limiter.setCall i
      { c with phase := .sleeping s.limiter.slot } with
        nextAvailableAt := s.limiter.slot + reservation }, s.setters⟩ := by
    simp only [step, LimiterAct.setsLimit, Limiter.step, hi, Option.bind_some, Limiter.proceed, hphase]
    rfl
  apply ReturnsWithin.head hs rfl
  exact returnsWithin_of_sleeping hzero (List.getElem?_set_self hlt) rfl hseen

end SharedLimiter

open SharedLimiter

/-- Whenever no call that sets the limit is in progress: a sleeping call of `acquire` can hear of an
update, or has reserved its slot at the limit that holds now, exactly where the reservations since the
last reset of the clock let it; and where there is no limit, every call can come back at once. -/
theorem limit_change_reaches_every_call (limitKibPerSec : Option Nat) (now : ℚ)
    (loaded : Nat → Nat) (acts : List SharedLimiterAct) (s : SharedLimiter)
    (hr : Transition.run SharedLimiter.step (.new limitKibPerSec now) acts = some s)
    (hq : s.settled = true) (i : Nat) (c : Acquire) (hi : s.limiter.calls[i]? = some c) :
    let reserved := (Transition.history SharedLimiter.step note ⟨loaded, []⟩
      (.new limitKibPerSec now) acts).reservations
    (∀ waitUntil, c.phase = .sleeping waitUntil →
      (s.step (.acquiring (.changed i))).isSome = true ∨
      ∃ (k : Nat) (g : Reservation), reserved[k]? = some g ∧ g.call = i ∧ g.slot = waitUntil ∧
        g.length = durationFor c.bytes s.limiter.bytesPerSecond ∧
        IsGreatest (backlog Reservation.length Reservation.arrived reserved k) waitUntil) ∧
    (s.limiter.bytesPerSecond = 0 →
      (∃ slot time, c.phase = .returned slot time) ∨ ReturnsWithin 3 s i) := by
  intro reserved
  have hnotes : s.Heard (Transition.history SharedLimiter.step note ⟨loaded, []⟩
      (.new limitKibPerSec now) acts) ∧ s.limiter.Queued reserved := by
    have hmeets : Transition.Meets SharedLimiter.step (fun _ _ => True) (.new limitKibPerSec now) acts :=
      Transition.meets_of_forall fun _ _ => trivial
    apply hmeets.history (I := fun s notes => s.Heard notes ∧ s.limiter.Queued notes.reservations)
      (fun s notes a s' h _ hs => ⟨h.1.step hs, queued_step h.2 hs⟩)
      ⟨new_heard _ _, new_queued _ _⟩ hr
  obtain ⟨hheard, hqueued⟩ := hnotes
  obtain ⟨hlength, hresets⟩ := hheard.settled hq
  have hears := hheard.hears i c hi
  rw [hlength, hresets] at hears
  constructor
  · intro waitUntil hphase
    simp only [Acquire.Hears, hphase] at hears
    by_cases hseen : c.seen = s.limiter.updates
    · right
      rw [hseen] at hears
      obtain ⟨hrate, _⟩ := hears.1.resolve_right (Nat.lt_irrefl _)
      obtain ⟨g, hg, hcall, hslot, hroom⟩ := hears.2.resolve_left (Nat.lt_irrefl _)
      obtain ⟨k, hk⟩ := List.getElem?_of_mem hg
      refine ⟨k, g, hk, hcall, hslot, ?_, ?_⟩
      · rw [hroom, hrate]
      · rw [← hslot]
        exact hqueued.packed.isGreatest hk
    · left
      simp only [SharedLimiter.step, LimiterAct.setsLimit, Limiter.step, hi, Option.bind_some,
        Limiter.proceed, hphase, if_neg hseen]
      rfl
  · intro hzero
    rw [hzero] at hears
    cases hphase : c.phase with
    | returned slot time => exact .inl ⟨slot, time, rfl⟩
    | loading =>
      right
      exact (returnsWithin_of_loading hzero hi hphase).mono (by decide)
    | sleeping waitUntil =>
      right
      have hseen : c.seen < s.limiter.updates := by
        apply hears.late <;> rw [hphase]
        · intro h
          cases h
        · intro slot time h
          cases h
      exact (returnsWithin_of_sleeping hzero hi hphase (Nat.ne_of_lt hseen)).mono (by decide)
    | reserving reservation =>
      right
      have hseen : c.seen < s.limiter.updates := by
        apply hears.late <;> rw [hphase]
        · intro h
          cases h
        · intro slot time h
          cases h
      exact returnsWithin_of_reserving hzero hi hphase (Nat.ne_of_lt hseen)

/-- The limit is raised from one to four KiB per second while one call waits for another; a third one
has loaded the old limit, and reserves at it after the clock was reset. -/
def raisedLimit : List SharedLimiterAct :=
  [.acquiring (.acquire 2048), .acquiring (.acquire 1024), .acquiring (.acquire 512),
    .acquiring (.load 0), .acquiring (.reserve 0), .acquiring (.load 1), .acquiring (.reserve 1),
    .acquiring (.load 2), .setLimit (some 4), .goOn 0, .acquiring (.reserve 2), .goOn 0,
    .acquiring (.changed 1), .acquiring (.load 1), .acquiring (.reserve 1)]

theorem raised_limit_is_heard :
    ∃ s, Transition.run SharedLimiter.step (.new (some 1) 0) raisedLimit = some s ∧
      (s.step (.acquiring (.changed 2))).isSome = true ∧
      ∃ (k : Nat) (g : Reservation),
        (Transition.history SharedLimiter.step note ⟨fun _ => 0, []⟩ (.new (some 1) 0)
          raisedLimit).reservations[k]? = some g ∧
        g.call = 1 ∧ g.slot = 1 / 2 ∧ g.length = durationFor 1024 4096 := by
  have hrun : (Transition.run SharedLimiter.step (.new (some 1) 0) raisedLimit).any (fun s =>
      decide (s.settled = true ∧ (s.step (.acquiring (.changed 2))).isSome = true ∧
        (s.step (.acquiring (.changed 1))).isSome = false ∧ s.limiter.bytesPerSecond = 4096 ∧
        s.limiter.calls[1]? = some ⟨1024, 1, .sleeping (1 / 2)⟩)) = true := by decide +kernel
  obtain ⟨s, hs, hq, htwo, hone, hrate, hcall⟩ := Transition.run_any hrun
  have hline := (limit_change_reaches_every_call (some 1) 0 (fun _ => 0) raisedLimit s hs hq 1 _
    hcall).1 _ rfl
  rw [hone] at hline
  obtain ⟨k, g, hk, hi, hslot, hlength, _⟩ := hline.resolve_left Bool.false_ne_true
  rw [hrate] at hlength
  exact ⟨s, hs, htwo, k, g, hk, hi, hslot, hlength⟩

end Paradown
