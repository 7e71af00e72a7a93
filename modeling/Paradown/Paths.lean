import Mathlib.Data.List.Infix
import Mathlib.Order.Basic

namespace Paths
set_option autoImplicit true

/-- One component of a path, as a walk through directories takes it. -/
inductive Move (α : Type u) where
  | stay
  | up
  | down (name : α)
  deriving DecidableEq, Repr

/-- Where a walk ends: `ups` levels above its start, then down along `names`. -/
@[ext] structure Place (α : Type u) where
  rooted : Bool
  ups : Nat
  names : List α
  /-- Nothing is above a root. -/
  top : rooted = true → ups = 0
  deriving DecidableEq

namespace Place

def start (rooted : Bool) : Place α := ⟨rooted, 0, [], fun _ => rfl⟩

def down (p : Place α) (names : List α) : Place α := { p with names := p.names ++ names }

/-- The parent: a root is its own parent, and above the start of a relative walk the levels are
counted. -/
def up (p : Place α) : Place α where
  rooted := p.rooted
  ups := if p.names.length = 0 ∧ p.rooted = false then p.ups + 1 else p.ups
  names := p.names.dropLast
  top h := by
    rw [if_neg (fun hp => Bool.noConfusion (h.symm.trans hp.2))]
    exact p.top h

def move (p : Place α) : Move α → Place α
  | .stay => p
  | .up => p.up
  | .down name => p.down [name]

def walk (p : Place α) (moves : List (Move α)) : Place α := moves.foldl move p

def climb (p : Place α) : Nat → Place α
  | 0 => p
  | n + 1 => (p.climb n).up

/-- The place that the relative place `q` is, seen from `p`. -/
def join (p q : Place α) : Place α := (p.climb q.ups).down q.names

@[simp] theorem down_nil (p : Place α) : p.down [] = p :=
  Place.ext rfl rfl (List.append_nil _)

@[simp] theorem down_down (p : Place α) (xs ys : List α) :
    (p.down xs).down ys = p.down (xs ++ ys) :=
  Place.ext rfl rfl (List.append_assoc ..)

theorem up_down (p : Place α) (h : xs ≠ []) : (p.down xs).up = p.down xs.dropLast := by
  apply Place.ext
  case rooted => rfl
  case ups =>
    apply if_neg
    intro hp
    exact List.append_ne_nil_of_right_ne_nil _ h (List.length_eq_zero_iff.1 hp.1)
  case names => exact List.dropLast_append_of_ne_nil h

theorem walk_append (p : Place α) (ms ns : List (Move α)) :
    p.walk (ms ++ ns) = (p.walk ms).walk ns :=
  List.foldl_append

theorem walk_down (p : Place α) (names : List α) : p.walk (names.map .down) = p.down names := by
  induction names generalizing p with
  | nil => exact (down_nil p).symm
  | cons name rest ih =>
    calc p.walk ((name :: rest).map .down) = (p.down [name]).walk (rest.map .down) := rfl
      _ = (p.down [name]).down rest := ih _
      _ = p.down (name :: rest) := down_down p [name] rest

theorem climb_rooted (p : Place α) (n : Nat) : (p.climb n).rooted = p.rooted := by
  induction n with
  | zero => rfl
  | succ n ih => exact ih

theorem climb_names (p : Place α) (n : Nat) :
    (p.climb n).names = p.names.take (p.names.length - n) := by
  induction n with
  | zero => exact (List.take_length).symm
  | succ n ih =>
    calc (p.climb n).names.dropLast = (p.names.take (p.names.length - n)).dropLast := by rw [ih]
      _ = p.names.take (p.names.length - (n + 1)) := by
        rw [List.dropLast_eq_take, List.take_take, List.length_take]
        congr 1
        omega

theorem climb_ups (p : Place α) (n : Nat) (h : p.rooted = false) :
    (p.climb n).ups = p.ups + (n - p.names.length) := by
  induction n with
  | zero => rw [Nat.zero_sub]; rfl
  | succ n ih =>
    have hlen : (p.climb n).names.length = p.names.length - n := by
      rw [climb_names, List.length_take, Nat.min_eq_left (Nat.sub_le ..)]
    have hups : (p.climb (n + 1)).ups =
        if p.names.length - n = 0 ∧ p.rooted = false then (p.climb n).ups + 1
        else (p.climb n).ups := by
      rw [← hlen, ← climb_rooted p n]
      rfl
    rw [hups, ih]
    split
    case isTrue hp => omega
    case isFalse hp =>
      have hn : p.names.length - n ≠ 0 := fun hz => hp ⟨hz, h⟩
      omega

theorem join_down (p q : Place α) (names : List α) : p.join (q.down names) = (p.join q).down names :=
  (down_down _ _ _).symm

theorem join_up (p q : Place α) (h : q.rooted = false) : p.join q.up = (p.join q).up := by
  by_cases hq : q.names = []
  · have hups : q.up.ups = q.ups + 1 := if_pos ⟨List.length_eq_zero_iff.2 hq, h⟩
    have hnames : q.up.names = [] := congrArg List.dropLast hq
    rw [join, join, hups, hnames, hq, down_nil, down_nil]
    rfl
  · have hups : q.up.ups = q.ups := if_neg fun hp => hq (List.length_eq_zero_iff.1 hp.1)
    rw [join, join, hups, up_down _ hq]
    rfl

theorem walk_rooted (p : Place α) (moves : List (Move α)) : (p.walk moves).rooted = p.rooted := by
  induction moves generalizing p with
  | nil => rfl
  | cons m rest ih =>
    calc ((p.move m).walk rest).rooted = (p.move m).rooted := ih _
      _ = p.rooted := by cases m <;> rfl

theorem walk_eq_join (p : Place α) (moves : List (Move α)) :
    p.walk moves = p.join ((start false).walk moves) := by
  induction moves using List.reverseRecOn with
  | nil => exact (down_nil p).symm
  | append_singleton moves m ih =>
    rw [walk_append, walk_append, ih]
    cases m with
    | stay => rfl
    | up => exact (join_up p _ (walk_rooted _ _)).symm
    | down name => exact (join_down p _ [name]).symm

/-- One place is within another when it is reached from there by going down. -/
instance : PartialOrder (Place α) where
  le p q := p.rooted = q.rooted ∧ p.ups = q.ups ∧ q.names <+: p.names
  le_refl _ := ⟨rfl, rfl, List.prefix_rfl⟩
  le_trans _ _ _ hpq hqr := ⟨hpq.1.trans hqr.1, hpq.2.1.trans hqr.2.1, hqr.2.2.trans hpq.2.2⟩
  le_antisymm _ _ hpq hqp := Place.ext hpq.1 hpq.2.1
    (hqp.2.2.eq_of_length (Nat.le_antisymm hqp.2.2.length_le hpq.2.2.length_le))

theorem le_def {p q : Place α} :
    p ≤ q ↔ p.rooted = q.rooted ∧ p.ups = q.ups ∧ q.names <+: p.names :=
  Iff.rfl

theorem lt_def {p q : Place α} :
    p < q ↔ p.rooted = q.rooted ∧ p.ups = q.ups ∧ q.names <+: p.names ∧ q.names ≠ p.names := by
  rw [lt_iff_le_and_ne, le_def]
  constructor
  · intro h
    exact ⟨h.1.1, h.1.2.1, h.1.2.2, fun he => h.2 (Place.ext h.1.1 h.1.2.1 he.symm)⟩
  · intro h
    exact ⟨⟨h.1, h.2.1, h.2.2.1⟩, fun he => h.2.2.2 (congrArg names he.symm)⟩

instance [DecidableEq α] : DecidableLE (Place α) := fun _ _ => decidable_of_iff _ le_def.symm

instance [DecidableEq α] : DecidableLT (Place α) := fun _ _ => decidable_of_iff _ lt_def.symm

theorem down_lt (p : Place α) (h : xs ≠ []) : p.down xs < p := by
  rw [lt_def]
  refine ⟨rfl, rfl, List.prefix_append _ _, fun he => h ?_⟩
  exact List.append_cancel_left (he.symm.trans (List.append_nil _).symm)

theorem down_lt_down {p : Place α} {xs ys : List α} :
    p.down ys < p.down xs ↔ xs <+: ys ∧ xs ≠ ys := by
  rw [lt_def]
  constructor
  · intro h
    exact ⟨(List.prefix_append_right_inj _).1 h.2.2.1, fun he => h.2.2.2 (congrArg (p.names ++ ·) he)⟩
  · intro h
    exact ⟨rfl, rfl, (List.prefix_append_right_inj _).2 h.1,
      fun he => h.2 (List.append_cancel_left he)⟩

/-- Going down from `p` leads below `q` from within `q`, or from above it along what is missing. -/
theorem down_lt_iff {p q : Place α} (h : xs ≠ []) :
    p.down xs < q ↔ p ≤ q ∨ ∃ rest, q = p.down rest ∧ rest <+: xs ∧ rest ≠ xs := by
  constructor
  · intro hlt
    have hle := hlt.le
    rcases List.prefix_or_prefix_of_prefix (List.prefix_append p.names xs) hle.2.2 with hpre | hpre
    · right
      obtain ⟨rest, hrest⟩ := hpre
      have hq : q = p.down rest := Place.ext hle.1.symm hle.2.1.symm hrest.symm
      subst hq
      exact ⟨rest, rfl, down_lt_down.1 hlt⟩
    · left
      exact ⟨hle.1, hle.2.1, hpre⟩
  · rintro (hle | ⟨rest, rfl, hrest⟩)
    · exact (down_lt p h).trans_le hle
    · exact down_lt_down.2 hrest

/-- Where `q` climbs above `p`, it does not leave the top, and it comes down again along the names
it climbed past, and further. -/
def Regains (p q : Place α) : Prop :=
  (p.rooted = true ∨ q.ups ≤ p.names.length) ∧
    p.names.drop (p.names.length - q.ups) <+: q.names ∧
    p.names.drop (p.names.length - q.ups) ≠ q.names

theorem join_lt_iff {p q : Place α} : p.join q < p ↔ p.Regains q := by
  have hnames : (p.join q).names = p.names.take (p.names.length - q.ups) ++ q.names := by
    rw [← climb_names]
    rfl
  have hsplit := List.take_append_drop (p.names.length - q.ups) p.names
  have hups : (p.join q).ups = p.ups ↔ (p.rooted = true ∨ q.ups ≤ p.names.length) := by
    have hrooted := climb_rooted p q.ups
    cases hp : p.rooted with
    | true =>
      have hjoin : (p.join q).rooted = true := hrooted.trans hp
      rw [p.top hp, (p.join q).top hjoin]
      exact iff_of_true rfl (.inl rfl)
    | false =>
      have hclimb : (p.join q).ups = p.ups + (q.ups - p.names.length) := climb_ups p q.ups hp
      rw [hclimb]
      constructor
      · intro he
        right
        omega
      · intro he
        rcases he with he | he
        · cases he
        · omega
  have hrest : (p.names <+: (p.join q).names ∧ p.names ≠ (p.join q).names) ↔
      p.names.drop (p.names.length - q.ups) <+: q.names ∧
        p.names.drop (p.names.length - q.ups) ≠ q.names := by
    rw [hnames]
    generalize p.names.take (p.names.length - q.ups) = front at hsplit ⊢
    generalize p.names.drop (p.names.length - q.ups) = back at hsplit ⊢
    rw [← hsplit, List.prefix_append_right_inj, Ne, Ne, List.append_cancel_left_eq]
  rw [lt_def, hups, hrest, Regains]
  exact and_iff_right (climb_rooted p q.ups)

end Place

/-- The component that a part of a path between two separators names. -/
def component (part : List Char) : Move (List Char) :=
  if part = [] ∨ part = ['.'] then .stay
  else if part = ['.', '.'] then .up
  else .down part

def isAbsolute (text : List Char) : Bool := text.head? == some '/'

def moves (text : List Char) : List (Move (List Char)) := (text.splitOn '/').map component

/-- Lexical normalisation of a path. -/
def normalize (text : List Char) : Place (List Char) :=
  (Place.start (isAbsolute text)).walk (moves text)

/-- An absolute path replaces the one it is joined to. -/
def join (dir text : List Char) : List Char :=
  if isAbsolute text then text
  else if dir = [] ∨ dir.getLast? = some '/' then dir ++ text
  else dir ++ '/' :: text

/-- A part that names something below the directory it stands in. -/
def IsName (part : List Char) : Prop :=
  part ≠ [] ∧ part ≠ ['.'] ∧ part ≠ ['.', '.'] ∧ '/' ∉ part

theorem IsName.component (h : IsName part) : component part = .down part := by
  unfold Paths.component
  rw [if_neg (not_or.2 ⟨h.1, h.2.1⟩), if_neg h.2.2.1]

theorem moves_append_slash (xs ys : List Char) : moves (xs ++ '/' :: ys) = moves xs ++ moves ys := by
  rw [moves, List.splitOn_append_cons_self, List.map_append]
  rfl

theorem walk_moves_join (p : Place (List Char)) (h : isAbsolute text = false) :
    p.walk (moves (join dir text)) = (p.walk (moves dir)).walk (moves text) := by
  unfold join
  rw [if_neg (ne_true_of_eq_false h), ← Place.walk_append]
  split
  case isTrue hdir =>
    rcases hdir with rfl | hlast
    · rfl
    · obtain ⟨front, rfl⟩ := List.getLast?_eq_some_iff.1 hlast
      rw [List.append_assoc, List.singleton_append, moves_append_slash, moves_append_slash]
      rw [List.append_assoc, Place.walk_append, Place.walk_append]
      rfl
  case isFalse hdir => rw [moves_append_slash]

theorem isAbsolute_join (h : isAbsolute text = false) : isAbsolute (join dir text) = isAbsolute dir := by
  unfold join
  rw [if_neg (ne_true_of_eq_false h)]
  cases dir with
  | nil => exact h
  | cons c rest => split <;> rfl

/-- A joined path names the place that the second names, seen from the first. -/
theorem normalize_join (h : isAbsolute text = false) :
    normalize (join dir text) = (normalize dir).join (normalize text) := by
  rw [normalize, isAbsolute_join h, walk_moves_join _ h, Place.walk_eq_join]
  rw [normalize, normalize, h]

theorem isAbsolute_intercalate (hne : parts ≠ []) (h : ∀ part ∈ parts, IsName part) :
    isAbsolute (['/'].intercalate parts) = false := by
  obtain ⟨part, rest, rfl⟩ := List.exists_cons_of_ne_nil hne
  have hpart := h part (List.mem_cons_self ..)
  obtain ⟨c, chars, rfl⟩ := List.exists_cons_of_ne_nil hpart.1
  have hc : c ≠ '/' := fun he => hpart.2.2.2 (he ▸ List.mem_cons_self ..)
  cases rest with
  | nil => exact beq_false_of_ne fun he => hc (Option.some.inj he)
  | cons part' rest => exact beq_false_of_ne fun he => hc (Option.some.inj he)

theorem normalize_intercalate (hne : parts ≠ []) (h : ∀ part ∈ parts, IsName part) :
    normalize (['/'].intercalate parts) = (Place.start false).down parts := by
  have hmoves : moves (['/'].intercalate parts) = parts.map .down := by
    rw [moves, List.splitOn_intercalate '/' (fun part hp => (h part hp).2.2.2) hne]
    exact List.map_congr_left fun part hp => (h part hp).component
  rw [normalize, isAbsolute_intercalate hne h, hmoves, Place.walk_down]

theorem normalize_join_intercalate (hne : parts ≠ []) (h : ∀ part ∈ parts, IsName part) :
    normalize (join dir (['/'].intercalate parts)) = (normalize dir).down parts := by
  rw [normalize_join (isAbsolute_intercalate hne h), normalize_intercalate hne h]
  rfl

theorem normalize_join_name (h : IsName part) :
    normalize (join dir part) = (normalize dir).down [part] := by
  have hparts : ∀ p ∈ [part], IsName p := fun p hp => List.mem_singleton.1 hp ▸ h
  have hjoin : normalize (join dir (['/'].intercalate [part])) = (normalize dir).down [part] :=
    normalize_join_intercalate (List.cons_ne_nil _ _) hparts
  rwa [List.intercalate_singleton] at hjoin

theorem normalize_join_lt_iff {dir text : List Char} :
    normalize (join dir text) < normalize dir ↔
      if isAbsolute text then normalize text < normalize dir
      else (normalize dir).Regains (normalize text) := by
  cases h : isAbsolute text with
  | true =>
    have hjoin : join dir text = text := if_pos h
    rw [hjoin, if_pos rfl]
  | false => rw [normalize_join h, Place.join_lt_iff, if_neg Bool.false_ne_true]

end Paths
