import Mathlib.Data.List.Basic

namespace Tickets
set_option autoImplicit true

/-- Whoever joins the queue draws the next number. -/
structure Ticket (E : Type _) where
  number : Nat
  entry : E
  deriving DecidableEq, Repr

/-- `serving` has the servers with the numbers they took from the queue, `waiting` the tickets that
are neither started nor withdrawn, in the order in which they were drawn. -/
structure Line (E : Type _) where
  next : Nat
  queued : List (Ticket E) := []
  serving : List (Nat × Nat) := []
  waiting : List (Ticket E) := []
  deriving DecidableEq, Repr

inductive Turn (E : Type _) where
  | arrive (server : Nat) (entry : E)
  | take (server : Nat)
  | start (server : Nat) (p : E → Bool)
  | drop (p : E → Bool) (withdrawn : Bool)
  | clear

section
variable {E : Type _}

/-- A queue that nobody has been served from. -/
def Line.ofList (entries : List E) : Line E where
  next := entries.length
  queued := entries.zipIdx.map fun e => ⟨e.2, e.1⟩
  waiting := entries.zipIdx.map fun e => ⟨e.2, e.1⟩

def Line.entries (l : Line E) : List E := l.queued.map (·.entry)

/-- The number that a server took and has still to serve. -/
def Line.held (l : Line E) (server : Nat) : Option Nat :=
  (l.serving.find? (·.1 == server)).map (·.2)

def Line.release (l : Line E) (server : Nat) : Line E :=
  { l with serving := l.serving.eraseP (·.1 == server) }

/-- These tickets wait no longer. -/
def Line.strike (l : Line E) (gone : List (Ticket E)) : Line E :=
  { l with waiting := l.waiting.filter fun t => gone.all (·.number != t.number) }

/-- What a server starts: the ticket it took, or the first that waits for the same thing. -/
def Line.due (l : Line E) (server : Nat) (p : E → Bool) : Option (Ticket E) :=
  match l.held server with
  | some n => l.waiting.find? (·.number == n)
  | none => l.waiting.find? (p ·.entry)

def Line.join (l : Line E) (entry : E) : Line E :=
  { l with
    next := l.next + 1
    queued := l.queued ++ [⟨l.next, entry⟩]
    waiting := l.waiting ++ [⟨l.next, entry⟩] }

def Line.putBack (l : Line E) (server n : Nat) (entry : E) : Line E :=
  { l.release server with queued := l.queued ++ [⟨n, entry⟩] }

/-- No entry is queued twice. -/
def Line.arrive [DecidableEq E] (l : Line E) (server : Nat) (entry : E) : Line E :=
  if entry ∈ l.entries then l.release server
  else
    match l.held server with
    | some n => l.putBack server n entry
    | none => l.join entry

def Line.take (l : Line E) (server : Nat) : Line E :=
  match l.queued with
  | [] => l
  | t :: queued => { l with queued, serving := (server, t.number) :: l.serving }

def Line.start (l : Line E) (server : Nat) (p : E → Bool) : Line E :=
  (l.strike (l.due server p).toList).release server

/-- The ticket that leaves the queue unserved. -/
def Line.dropped (l : Line E) (p : E → Bool) : Option (Ticket E) := l.queued.find? (p ·.entry)

/-- The first that matches leaves the queue; it waits on unless it is withdrawn. -/
def Line.drop (l : Line E) (p : E → Bool) (withdrawn : Bool) : Line E :=
  { l.strike (if withdrawn then (l.dropped p).toList else []) with
    queued := l.queued.eraseP (p ·.entry) }

def Line.clear (l : Line E) : Line E := { l.strike l.queued with queued := [] }

def Line.turn [DecidableEq E] (l : Line E) : Turn E → Line E
  | .arrive server entry => l.arrive server entry
  | .take server => l.take server
  | .start server p => l.start server p
  | .drop p withdrawn => l.drop p withdrawn
  | .clear => l.clear

/-- The ticket that a turn starts. -/
def Line.starts (l : Line E) : Turn E → Option (Ticket E)
  | .start server p => l.due server p
  | _ => none

/-- The ticket with this number still waits. -/
def Line.Waits (l : Line E) (n : Nat) : Prop := ∃ t ∈ l.waiting, t.number = n

/-- Nobody who waits has drawn a smaller number. -/
def Line.IsFirst (l : Line E) (t : Ticket E) : Prop := ∀ u ∈ l.waiting, t.number ≤ u.number

instance (l : Line E) (n : Nat) : Decidable (l.Waits n) := inferInstanceAs (Decidable (∃ _ ∈ _, _))

instance (l : Line E) (t : Ticket E) : Decidable (l.IsFirst t) :=
  inferInstanceAs (Decidable (∀ _ ∈ _, _))

/-- Of those who wait, nobody is put back behind one who came later, or into the place of another
entry; no server overtakes another; nobody jumps the queue, and nobody leaves it unserved. -/
def Line.Orderly (l : Line E) : Turn E → Prop
  | .arrive server entry => ∀ n ∈ l.held server, l.Waits n →
      entry ∉ l.entries ∧ ∀ t ∈ l.waiting, t.number ≤ n
  | .start server p =>
    (∀ n ∈ l.held server, l.Waits n → ∀ s ∈ l.serving, l.Waits s.2 → n ≤ s.2) ∧
      (l.held server = none → ∀ t ∈ l.waiting.find? (p ·.entry), l.IsFirst t)
  | .drop p withdrawn => withdrawn = false → ∀ q ∈ l.dropped p, ¬ l.Waits q.number
  | _ => True

instance [DecidableEq E] (l : Line E) (u : Turn E) : Decidable (l.Orderly u) :=
  match u with
  | .arrive _ _ => inferInstanceAs (Decidable (∀ _ ∈ _, _ → _))
  | .start _ _ => inferInstanceAs (Decidable (_ ∧ _))
  | .drop _ _ => inferInstanceAs (Decidable (_ = _ → _))
  | .take _ | .clear => inferInstanceAs (Decidable True)

/-- Those who wait are in the queue in the order of their numbers, behind the servers who took an
entry from it, and nobody is lost. -/
structure Line.Fair (l : Line E) : Prop where
  queued : l.queued.Pairwise fun t u => l.Waits t.number → l.Waits u.number → t.number ≤ u.number
  behind : ∀ s ∈ l.serving, l.Waits s.2 → ∀ t ∈ l.queued, l.Waits t.number → s.2 ≤ t.number
  queuedNext : ∀ t ∈ l.queued, t.number < l.next
  servingNext : ∀ s ∈ l.serving, s.2 < l.next
  placed : ∀ t ∈ l.waiting,
    (∃ q ∈ l.queued, q.number = t.number) ∨ ∃ s ∈ l.serving, s.2 = t.number

@[simp] theorem Line.entries_ofList (entries : List E) :
    (Line.ofList entries).entries = entries := by
  simp [Line.entries, Line.ofList, Function.comp_def]

theorem Line.entries_arrive [DecidableEq E] (l : Line E) (server : Nat) (entry : E) :
    (l.arrive server entry).entries =
      if entry ∈ l.entries then l.entries else l.entries ++ [entry] := by
  unfold Line.arrive
  split
  · rfl
  · split <;> exact List.map_append

theorem Line.entries_take (l : Line E) (server : Nat) :
    (l.take server).entries = l.entries.tail := by
  cases hq : l.queued <;> simp [Line.take, Line.entries, hq]

theorem Line.entries_drop (l : Line E) (p : E → Bool) (withdrawn : Bool) :
    (l.drop p withdrawn).entries = l.entries.eraseP p :=
  List.eraseP_map.symm

theorem mem_eraseP_or_find? {p : α → Bool} {xs : List α} (h : x ∈ xs) :
    x ∈ xs.eraseP p ∨ xs.find? p = some x := by
  induction xs with
  | nil => cases h
  | cons a xs ih =>
    rw [List.eraseP_cons, List.find?_cons]
    rcases List.mem_cons.1 h with rfl | h
    · cases p x with
      | true => exact .inr rfl
      | false => exact .inl List.mem_cons_self
    · cases p a with
      | true => exact .inl h
      | false => exact (ih h).imp_left (List.mem_cons_of_mem a)

theorem Line.mem_strike {l : Line E} {gone : List (Ticket E)} :
    t ∈ (l.strike gone).waiting ↔ t ∈ l.waiting ∧ ∀ g ∈ gone, g.number ≠ t.number := by
  simp only [Line.strike, List.mem_filter, List.all_eq_true, bne_iff_ne]

theorem Line.mem_release {l : Line E} (server : Nat) (h : s ∈ l.serving) :
    s ∈ (l.release server).serving ∨ l.held server = some s.2 := by
  refine (mem_eraseP_or_find? h).imp_right fun hfind => ?_
  rw [Line.held, hfind]
  rfl

theorem Line.Waits.of_strike {l : Line E} {gone : List (Ticket E)} (h : (l.strike gone).Waits n) :
    l.Waits n := by
  obtain ⟨t, ht, he⟩ := h
  exact ⟨t, (Line.mem_strike.1 ht).1, he⟩

theorem Line.Waits.of_join {l : Line E} (h : (l.join entry).Waits n) (hn : n < l.next) :
    l.Waits n := by
  obtain ⟨t, ht, rfl⟩ := h
  rcases List.mem_append.1 ht with ht | ht
  · exact ⟨t, ht, rfl⟩
  · cases List.mem_singleton.1 ht
    exact absurd hn (Nat.lt_irrefl _)

theorem Line.Fair.ofList (entries : List E) : (Line.ofList entries).Fair where
  queued := by
    rw [List.pairwise_iff_getElem]
    intro i j hi hj hij _ _
    simpa [Line.ofList] using Nat.le_of_lt hij
  behind := fun _ hs => absurd hs List.not_mem_nil
  queuedNext := fun t ht => by
    obtain ⟨e, he, rfl⟩ := List.mem_map.1 ht
    exact List.snd_lt_of_mem_zipIdx he
  servingNext := fun _ hs => absurd hs List.not_mem_nil
  placed := fun t ht => .inl ⟨t, ht, rfl⟩

theorem Line.Fair.strike {l : Line E} (h : l.Fair) (gone : List (Ticket E)) :
    (l.strike gone).Fair where
  queued := h.queued.imp fun hle ht hu => hle ht.of_strike hu.of_strike
  behind := fun s hs hw t ht hu => h.behind s hs hw.of_strike t ht hu.of_strike
  queuedNext := h.queuedNext
  servingNext := h.servingNext
  placed := fun t ht => h.placed t (Line.mem_strike.1 ht).1

theorem Line.Fair.unqueue {l : Line E} {rest : List (Ticket E)} (h : l.Fair)
    (hsub : rest.Sublist l.queued) (hgone : ∀ q ∈ l.queued, q ∈ rest ∨ ¬ l.Waits q.number) :
    ({ l with queued := rest } : Line E).Fair where
  queued := h.queued.sublist hsub
  behind := fun s hs hw t ht => h.behind s hs hw t (hsub.subset ht)
  queuedNext := fun t ht => h.queuedNext t (hsub.subset ht)
  servingNext := h.servingNext
  placed := fun t ht => by
    rcases h.placed t ht with ⟨q, hq, he⟩ | hs
    · rcases hgone q hq with hq | hnone
      · exact .inl ⟨q, hq, he⟩
      · exact absurd ⟨t, ht, he.symm⟩ hnone
    · exact .inr hs

theorem Line.Fair.release {l : Line E} (h : l.Fair) (hgone : ∀ n ∈ l.held server, ¬ l.Waits n) :
    (l.release server).Fair where
  queued := h.queued
  behind := fun s hs => h.behind s (List.eraseP_subset hs)
  queuedNext := h.queuedNext
  servingNext := fun s hs => h.servingNext s (List.eraseP_subset hs)
  placed := fun t ht => by
    rcases h.placed t ht with hq | ⟨s, hs, he⟩
    · exact .inl hq
    · rcases Line.mem_release server hs with hs | hheld
      · exact .inr ⟨s, hs, he⟩
      · exact absurd ⟨t, ht, he.symm⟩ (hgone s.2 hheld)

theorem Line.Fair.join {l : Line E} (h : l.Fair) (entry : E) : (l.join entry).Fair where
  queued := by
    refine List.pairwise_append.2 ⟨?_, List.pairwise_singleton _ _, fun t ht u hu _ _ => ?_⟩
    · refine h.queued.imp_of_mem fun ht hu hle hwt hwu => ?_
      exact hle (hwt.of_join (h.queuedNext _ ht)) (hwu.of_join (h.queuedNext _ hu))
    · cases List.mem_singleton.1 hu
      exact Nat.le_of_lt (h.queuedNext t ht)
  behind := fun s hs hw t ht hu => by
    rcases List.mem_append.1 ht with ht | ht
    · exact h.behind s hs (hw.of_join (h.servingNext s hs)) t ht (hu.of_join (h.queuedNext t ht))
    · cases List.mem_singleton.1 ht
      exact Nat.le_of_lt (h.servingNext s hs)
  queuedNext := fun t ht => by
    rcases List.mem_append.1 ht with ht | ht
    · exact Nat.lt_succ_of_lt (h.queuedNext t ht)
    · cases List.mem_singleton.1 ht
      exact Nat.lt_succ_self _
  servingNext := fun s hs => Nat.lt_succ_of_lt (h.servingNext s hs)
  placed := fun t ht => by
    rcases List.mem_append.1 ht with ht | ht
    · rcases h.placed t ht with ⟨q, hq, he⟩ | hs
      · exact .inl ⟨q, List.mem_append_left _ hq, he⟩
      · exact .inr hs
    · exact .inl ⟨t, List.mem_append_right _ ht, rfl⟩

theorem Line.Fair.putBack {l : Line E} (h : l.Fair) (hn : l.held server = some n)
    (hlast : l.Waits n → ∀ t ∈ l.waiting, t.number ≤ n) (entry : E) :
    (l.putBack server n entry).Fair where
  queued := by
    refine List.pairwise_append.2 ⟨h.queued, List.pairwise_singleton _ _, ?_⟩
    intro t ht u hu hwt hwu
    cases List.mem_singleton.1 hu
    obtain ⟨t', ht', he⟩ := hwt
    exact le_of_eq_of_le he.symm (hlast hwu t' ht')
  behind := fun s hs hw t ht hu => by
    rcases List.mem_append.1 ht with ht | ht
    · exact h.behind s (List.eraseP_subset hs) hw t ht hu
    · cases List.mem_singleton.1 ht
      obtain ⟨s', hs', he⟩ := hw
      exact le_of_eq_of_le he.symm (hlast hu s' hs')
  queuedNext := fun t ht => by
    rcases List.mem_append.1 ht with ht | ht
    · exact h.queuedNext t ht
    · cases List.mem_singleton.1 ht
      obtain ⟨s, hs, rfl⟩ := Option.map_eq_some_iff.1 hn
      exact h.servingNext s (List.mem_of_find?_eq_some hs)
  servingNext := fun s hs => h.servingNext s (List.eraseP_subset hs)
  placed := fun t ht => by
    rcases h.placed t ht with ⟨q, hq, he⟩ | ⟨s, hs, he⟩
    · exact .inl ⟨q, List.mem_append_left _ hq, he⟩
    · rcases Line.mem_release server hs with hs | hheld
      · exact .inr ⟨s, hs, he⟩
      · cases hn.symm.trans hheld
        exact .inl ⟨_, List.mem_append_right _ (List.mem_singleton_self _), he⟩

theorem Line.Fair.take {l : Line E} (h : l.Fair) (server : Nat) : (l.take server).Fair := by
  unfold Line.take
  split
  · exact h
  · rename_i t rest hq
    have hmem : t ∈ l.queued := hq ▸ List.mem_cons_self
    have hsub : ∀ u ∈ rest, u ∈ l.queued := fun u hu => hq ▸ List.mem_cons_of_mem t hu
    obtain ⟨hfirst, hsorted⟩ := List.pairwise_cons.1 (hq ▸ h.queued)
    refine ⟨hsorted, ?_, fun u hu => h.queuedNext u (hsub u hu), ?_, fun u hu => ?_⟩
    · intro s hs hw u hu hwu
      rcases List.mem_cons.1 hs with rfl | hs
      · exact hfirst u hu hw hwu
      · exact h.behind s hs hw u (hsub u hu) hwu
    · intro s hs
      rcases List.mem_cons.1 hs with rfl | hs
      · exact h.queuedNext t hmem
      · exact h.servingNext s hs
    · rcases h.placed u hu with ⟨q, hmemq, he⟩ | ⟨s, hs, he⟩
      · rw [hq] at hmemq
        rcases List.mem_cons.1 hmemq with rfl | hmemq
        · exact .inr ⟨_, List.mem_cons_self, he⟩
        · exact .inl ⟨q, hmemq, he⟩
      · exact .inr ⟨s, List.mem_cons_of_mem _ hs, he⟩

theorem Line.Fair.arrive [DecidableEq E] {l : Line E} (h : l.Fair)
    (ho : l.Orderly (.arrive server entry)) : (l.arrive server entry).Fair := by
  unfold Line.arrive
  split
  · exact h.release fun n hn hw => (ho n hn hw).1 ‹_›
  · split
    · rename_i n hn
      exact h.putBack hn (fun hw => (ho n hn hw).2) entry
    · exact h.join entry

theorem Line.Fair.start {l : Line E} (h : l.Fair) (server : Nat) (p : E → Bool) :
    (l.start server p).Fair := by
  refine (h.strike _).release ?_
  rintro n hn ⟨t, ht, rfl⟩
  obtain ⟨ht, hgone⟩ := Line.mem_strike.1 ht
  have hheld : l.held server = some t.number := hn
  -- the ticket that the server holds is the one it has started
  have hsome : (l.waiting.find? (·.number == t.number)).isSome := by
    rw [List.find?_isSome]
    exact ⟨t, ht, beq_self_eq_true _⟩
  obtain ⟨d, hd⟩ := Option.isSome_iff_exists.1 hsome
  have hdue : l.due server p = some d := by simp only [Line.due, hheld, hd]
  have hnumber := List.find?_some hd
  refine hgone d ?_ (beq_iff_eq.1 hnumber)
  rw [hdue, Option.toList_some]
  exact List.mem_singleton_self d

theorem Line.Fair.drop {l : Line E} (h : l.Fair) (ho : l.Orderly (.drop p withdrawn)) :
    (l.drop p withdrawn).Fair := by
  refine (h.strike _).unqueue List.eraseP_sublist fun q hq => ?_
  refine (mem_eraseP_or_find? hq).imp_right fun hfind hw => ?_
  have hdropped : l.dropped p = some q := hfind
  cases withdrawn with
  | true =>
    obtain ⟨t, ht, he⟩ := hw
    refine (Line.mem_strike.1 ht).2 q ?_ he.symm
    simp only [if_true, hdropped, Option.toList_some, List.mem_singleton]
  | false => exact ho rfl q hdropped hw.of_strike

theorem Line.Fair.clear {l : Line E} (h : l.Fair) : l.clear.Fair := by
  refine (h.strike _).unqueue (List.nil_sublist _) fun q hq => .inr ?_
  rintro ⟨t, ht, he⟩
  exact (Line.mem_strike.1 ht).2 q hq he.symm

/-- An orderly turn keeps the line fair. -/
theorem Line.Fair.turn [DecidableEq E] {l : Line E} (h : l.Fair) (ho : l.Orderly u) :
    (l.turn u).Fair := by
  cases u with
  | arrive server entry => exact h.arrive ho
  | take server => exact h.take server
  | start server p => exact h.start server p
  | drop p withdrawn => exact h.drop ho
  | clear => exact h.clear

/-- What an orderly turn starts has waited longest. -/
theorem Line.Fair.starts_first {l : Line E} (h : l.Fair) (ho : l.Orderly u)
    (ht : l.starts u = some t) : l.IsFirst t := by
  cases u with
  | start server p =>
    obtain ⟨hfirst, hdirect⟩ := ho
    simp only [Line.starts, Line.due] at ht
    split at ht
    · rename_i n hn
      have hfound := List.find?_some ht
      have hwaits : l.Waits n := ⟨t, List.mem_of_find?_eq_some ht, beq_iff_eq.1 hfound⟩
      intro u hu
      rw [beq_iff_eq.1 hfound]
      -- whoever waits is in the queue or with a server
      rcases h.placed u hu with ⟨q, hq, he⟩ | ⟨s, hs, he⟩
      · obtain ⟨s, hs, rfl⟩ := Option.map_eq_some_iff.1 hn
        have hle := h.behind s (List.mem_of_find?_eq_some hs) hwaits q hq ⟨u, hu, he.symm⟩
        exact le_of_le_of_eq hle he
      · exact le_of_le_of_eq (hfirst n hn hwaits s hs ⟨u, hu, he.symm⟩) he
    · exact hdirect ‹_› t ht
  | arrive | take | drop | clear => cases ht

end

end Tickets
