import Mathlib.Algebra.Ring.Nat
import Mathlib.Data.List.Sort
import Mathlib.Data.Set.Basic

namespace Keyed
set_option autoImplicit true

variable {κ ρ : Type _}

section
variable [DecidableEq κ]

/-- Replace the row of the same key, or add one. -/
def save (key : ρ → κ) (rows : List ρ) (row : ρ) : List ρ :=
  rows.filter (fun r => decide (key r ≠ key row)) ++ [row]

/-- The same in place: a row of this key is changed, and otherwise the row is added. -/
def upsert (key : ρ → κ) (change : ρ → ρ) (rows : List ρ) (row : ρ) : List ρ :=
  if rows.any fun r => decide (key r = key row) then
    rows.map fun r => if key r = key row then change r else r
  else rows ++ [row]

/-- Add rows one after the other until a key is there already; says whether all were added. -/
def addAll (key : ρ → κ) (rows : List ρ) : List ρ → Bool × List ρ
  | [] => (true, rows)
  | row :: rest =>
    if rows.any fun r => decide (key r = key row) then (false, rows)
    else addAll key (rows ++ [row]) rest

/-- Change the rows of a key. -/
def updateAt (key : ρ → κ) (k : κ) (change : ρ → ρ) (rows : List ρ) : List ρ :=
  rows.map fun r => if key r = k then change r else r

/-- Set the value of a key in a map, given by its entries. -/
def insert (entries : List (κ × ρ)) (k : κ) (row : ρ) : List (κ × ρ) :=
  entries.filter (fun e => decide (e.1 ≠ k)) ++ [(k, row)]

end

def values (entries : List (κ × ρ)) : List ρ := entries.map Prod.snd

/-- Each value is filed under its own key. -/
def Filed (key : ρ → κ) (entries : List (κ × ρ)) : Prop := ∀ e ∈ entries, e.1 = key e.2

/-- The rows have different keys, and what they show of themselves is the set. -/
structure Represents (key : ρ → κ) (view : ρ → ρ) (rows : List ρ) (shown : Set ρ) : Prop where
  distinct : (rows.map key).Nodup
  shows : ∀ x, x ∈ rows.map view ↔ x ∈ shown

/-- The set after the row of a key has been set. -/
def saved (key : ρ → κ) (x : ρ) (shown : Set ρ) : Set ρ :=
  {y | (y ∈ shown ∧ key y ≠ key x) ∨ y = x}

/-- The set with the rows that `p` keeps, and the shown rows of a list. -/
def replaced (view : ρ → ρ) (p : ρ → Bool) (added : List ρ) (shown : Set ρ) : Set ρ :=
  {y | (y ∈ shown ∧ p y = true) ∨ y ∈ added.map view}

section
variable {key : ρ → κ} {view : ρ → ρ} {rows : List ρ} {shown : Set ρ}

theorem Represents.empty : Represents key view [] ∅ where
  distinct := List.nodup_nil
  shows x := by
    rw [List.map_nil]
    exact iff_of_false List.not_mem_nil (Set.notMem_empty x)

theorem Represents.forall_iff (h : Represents key view rows shown) {p : ρ → Prop}
    (hp : ∀ r, p (view r) ↔ p r) : (∀ r ∈ rows, p r) ↔ ∀ x ∈ shown, p x := by
  constructor
  · intro hrows x hx
    obtain ⟨r, hr, rfl⟩ := List.mem_map.1 ((h.shows x).2 hx)
    exact (hp r).2 (hrows r hr)
  · intro hshown r hr
    exact (hp r).1 (hshown _ ((h.shows _).1 (List.mem_map_of_mem hr)))

theorem Represents.filter (h : Represents key view rows shown) {p : ρ → Bool}
    (hp : ∀ r, p (view r) = p r) :
    Represents key view (rows.filter p) {y | y ∈ shown ∧ p y = true} where
  distinct := h.distinct.sublist (List.filter_sublist.map key)
  shows x := by
    rw [Set.mem_ofPred_eq, ← h.shows, List.mem_map, List.mem_map]
    constructor
    · rintro ⟨r, hr, rfl⟩
      obtain ⟨hr, hkept⟩ := List.mem_filter.1 hr
      exact ⟨⟨r, hr, rfl⟩, (hp r).trans hkept⟩
    · rintro ⟨⟨r, hr, rfl⟩, hkept⟩
      exact ⟨r, List.mem_filter.2 ⟨hr, (hp r).symm.trans hkept⟩, rfl⟩

theorem Represents.append (h : Represents key view rows shown) {added : List ρ}
    (hadded : (added.map key).Nodup) (hnew : ∀ r ∈ rows, ∀ a ∈ added, key r ≠ key a) :
    Represents key view (rows ++ added) {y | y ∈ shown ∨ y ∈ added.map view} where
  distinct := by
    rw [List.map_append]
    apply h.distinct.append hadded
    intro k hk hk'
    obtain ⟨r, hr, rfl⟩ := List.mem_map.1 hk
    obtain ⟨a, ha, he⟩ := List.mem_map.1 hk'
    exact hnew r hr a ha he.symm
  shows x := by
    rw [Set.mem_ofPred_eq, ← h.shows, List.map_append, List.mem_append]

theorem Represents.replace (h : Represents key view rows shown) {p : ρ → Bool} {added : List ρ}
    (hp : ∀ r, p (view r) = p r) (hadded : (added.map key).Nodup)
    (hnew : ∀ r, p r = true → ∀ a ∈ added, key r ≠ key a) :
    Represents key view (rows.filter p ++ added) (replaced view p added shown) := by
  apply (h.filter hp).append hadded
  intro r hr
  exact hnew r (List.mem_filter.1 hr).2

/-- The rows of one group are exchanged for others of this group. -/
theorem Represents.regroup {γ : Type _} [DecidableEq γ] (h : Represents key view rows shown)
    {group : ρ → γ} {g : γ} {added : List ρ} (hv : ∀ r, group (view r) = group r)
    (hkey : ∀ a b, key a = key b → group a = group b) (hadded : (added.map key).Nodup)
    (hg : ∀ a ∈ added, group a = g) :
    Represents key view (rows.filter (fun r => decide (group r ≠ g)) ++ added)
      (replaced view (fun r => decide (group r ≠ g)) added shown) := by
  apply h.replace _ hadded
  · intro r hr a ha he
    exact of_decide_eq_true hr ((hkey r a he).trans (hg a ha))
  · intro r
    rw [hv]

theorem replaced_map {stamp : ρ → ρ} (hs : ∀ r, view (stamp r) = view r) (p : ρ → Bool)
    (added : List ρ) (shown : Set ρ) :
    replaced view p (added.map stamp) shown = replaced view p added shown := by
  rw [replaced, List.map_map, show view ∘ stamp = view from funext hs]
  rfl

variable [DecidableEq κ]

theorem Represents.save (h : Represents key view rows shown) (hv : ∀ r, key (view r) = key r)
    (row : ρ) : Represents key view (save key rows row) (saved key (view row) shown) := by
  have hnew (r : ρ) (hr : decide (key r ≠ key row) = true) (a : ρ) (ha : a ∈ [row]) :
      key r ≠ key a := by
    rw [List.mem_singleton.1 ha]
    exact of_decide_eq_true hr
  have hone : ([row].map key).Nodup := List.nodup_singleton _
  have hrows := h.replace (p := fun r => decide (key r ≠ key row)) (fun r => by rw [hv]) hone hnew
  constructor
  · exact hrows.distinct
  · intro x
    rw [Keyed.save, hrows.shows, replaced, saved, Set.mem_ofPred_eq, Set.mem_ofPred_eq, hv,
      decide_eq_true_eq, List.map_singleton, List.mem_singleton]

theorem Represents.upsert (h : Represents key view rows shown) (hv : ∀ r, key (view r) = key r)
    {change : ρ → ρ} {row : ρ}
    (hc : ∀ r ∈ rows, key r = key row → key (change r) = key row ∧ view (change r) = view row) :
    Represents key view (upsert key change rows row) (saved key (view row) shown) := by
  unfold Keyed.upsert
  split
  · rename_i hany
    obtain ⟨old, hold, hkey⟩ := List.any_eq_true.1 hany
    have hkey := of_decide_eq_true hkey
    constructor
    · have hkeys : (rows.map fun r => if key r = key row then change r else r).map key =
          rows.map key := by
        rw [List.map_map]
        apply List.map_congr_left
        intro r hr
        rw [Function.comp_apply]
        split
        · rename_i he
          exact (hc r hr he).1.trans he.symm
        · rfl
      rw [hkeys]
      exact h.distinct
    · intro x
      rw [saved, Set.mem_ofPred_eq, ← h.shows, List.map_map, List.mem_map, List.mem_map, hv]
      constructor
      · rintro ⟨r, hr, rfl⟩
        rw [Function.comp_apply]
        split
        · rename_i he
          exact .inr (hc r hr he).2
        · rename_i hne
          left
          rw [hv]
          exact ⟨⟨r, hr, rfl⟩, hne⟩
      · rintro (⟨⟨r, hr, rfl⟩, hne⟩ | rfl)
        · rw [hv] at hne
          exact ⟨r, hr, by rw [Function.comp_apply, if_neg hne]⟩
        · exact ⟨old, hold, by rw [Function.comp_apply, if_pos hkey, (hc old hold hkey).2]⟩
  · rename_i hany
    have hnew : ∀ r ∈ rows, key r ≠ key row := by
      intro r hr he
      exact hany (List.any_eq_true.2 ⟨r, hr, decide_eq_true he⟩)
    have hother (r : ρ) (hr : r ∈ rows) (a : ρ) (ha : a ∈ [row]) : key r ≠ key a := by
      rw [List.mem_singleton.1 ha]
      exact hnew r hr
    have hone : ([row].map key).Nodup := List.nodup_singleton _
    have hrows := h.append hone hother
    constructor
    · exact hrows.distinct
    · intro x
      rw [hrows.shows, saved, Set.mem_ofPred_eq, Set.mem_ofPred_eq, List.map_singleton,
        List.mem_singleton]
      apply or_congr_left
      constructor
      · intro hx
        refine ⟨hx, ?_⟩
        obtain ⟨r, hr, rfl⟩ := List.mem_map.1 ((h.shows x).2 hx)
        rw [hv, hv]
        exact hnew r hr
      · exact And.left

theorem foldl_save_eq {added : List ρ} (hadded : (added.map key).Nodup)
    (hnew : ∀ r ∈ rows, ∀ a ∈ added, key r ≠ key a) :
    added.foldl (Keyed.save key) rows = rows ++ added := by
  induction added generalizing rows with
  | nil => rw [List.foldl_nil, List.append_nil]
  | cons a rest ih =>
    rw [List.map_cons, List.nodup_cons] at hadded
    have hsave : Keyed.save key rows a = rows ++ [a] := by
      rw [Keyed.save, List.filter_eq_self.2]
      intro r hr
      exact decide_eq_true (hnew r hr a List.mem_cons_self)
    rw [List.foldl_cons, hsave, ih hadded.2, List.append_assoc, List.singleton_append]
    intro r hr b hb he
    rcases List.mem_append.1 hr with hr | hr
    · exact hnew r hr b (List.mem_cons_of_mem a hb) he
    · rw [List.mem_singleton.1 hr] at he
      exact hadded.1 (List.mem_map.2 ⟨b, hb, he.symm⟩)

theorem addAll_iff (rows added : List ρ) :
    (addAll key rows added).1 = true ↔
      (added.map key).Nodup ∧ ∀ r ∈ rows, ∀ a ∈ added, key r ≠ key a := by
  induction added generalizing rows with
  | nil =>
    apply iff_of_true rfl
    refine ⟨List.nodup_nil, ?_⟩
    intro r _ a ha
    cases ha
  | cons a rest ih =>
    rw [addAll, List.map_cons, List.nodup_cons]
    split
    · rename_i hany
      obtain ⟨r, hr, he⟩ := List.any_eq_true.1 hany
      apply iff_of_false Bool.false_ne_true
      intro h
      exact h.2 r hr a List.mem_cons_self (of_decide_eq_true he)
    · rename_i hany
      rw [ih]
      constructor
      · rintro ⟨hnodup, hnew⟩
        refine ⟨⟨?_, hnodup⟩, ?_⟩
        · intro hmem
          obtain ⟨b, hb, he⟩ := List.mem_map.1 hmem
          exact hnew a (List.mem_append_right _ List.mem_cons_self) b hb he.symm
        · intro r hr b hb he
          rcases List.mem_cons.1 hb with rfl | hb
          · exact hany (List.any_eq_true.2 ⟨r, hr, decide_eq_true he⟩)
          · exact hnew r (List.mem_append_left _ hr) b hb he
      · rintro ⟨⟨hmem, hnodup⟩, hnew⟩
        refine ⟨hnodup, ?_⟩
        intro r hr b hb he
        rcases List.mem_append.1 hr with hr | hr
        · exact hnew r hr b (List.mem_cons_of_mem a hb) he
        · rw [List.mem_singleton.1 hr] at he
          exact hmem (List.mem_map.2 ⟨b, hb, he.symm⟩)

theorem addAll_rows {added : List ρ} (h : (addAll key rows added).1 = true) :
    (addAll key rows added).2 = rows ++ added := by
  induction added generalizing rows with
  | nil =>
    rw [List.append_nil]
    rfl
  | cons a rest ih =>
    rw [addAll] at h ⊢
    split
    · rename_i hany
      rw [if_pos hany] at h
      cases h
    · rename_i hany
      rw [if_neg hany] at h
      rw [ih h, List.append_assoc, List.singleton_append]

omit [DecidableEq κ] in
theorem Filed.filter {entries : List (κ × ρ)} (h : Filed key entries) (p : κ × ρ → Bool) :
    Filed key (entries.filter p) := by
  intro e he
  exact h e (List.mem_filter.1 he).1

theorem Filed.insert {entries : List (κ × ρ)} (h : Filed key entries) (row : ρ) :
    Filed key (Keyed.insert entries (key row) row) := by
  intro e he
  rcases List.mem_append.1 he with he | he
  · exact h e (List.mem_filter.1 he).1
  · rw [List.mem_singleton.1 he]

theorem Filed.values_insert {entries : List (κ × ρ)} (h : Filed key entries) (row : ρ) :
    values (Keyed.insert entries (key row) row) = Keyed.save key (values entries) row := by
  rw [values, Keyed.insert, List.map_append, Keyed.save, values, List.filter_map, List.map_singleton]
  congr 2
  apply List.filter_congr
  intro e he
  rw [Function.comp_apply, h e he]

theorem Filed.foldl_insert {entries : List (κ × ρ)} (h : Filed key entries) (added : List ρ) :
    Filed key (added.foldl (fun m row => Keyed.insert m (key row) row) entries) ∧
      values (added.foldl (fun m row => Keyed.insert m (key row) row) entries) =
        added.foldl (Keyed.save key) (values entries) := by
  induction added generalizing entries with
  | nil => exact ⟨h, rfl⟩
  | cons a rest ih =>
    obtain ⟨hfiled, hvalues⟩ := ih (h.insert a)
    refine ⟨hfiled, ?_⟩
    rw [List.foldl_cons, hvalues, h.values_insert]
    rfl

omit [DecidableEq κ] in
theorem values_filter {entries : List (κ × ρ)} {keep : κ × ρ → Bool} {p : ρ → Bool}
    (h : ∀ e ∈ entries, keep e = p e.2) :
    values (entries.filter keep) = (values entries).filter p := by
  rw [values, values, List.filter_map]
  congr 1
  apply List.filter_congr
  exact h

theorem Filed.save {entries : List (κ × ρ)} (h : Filed key entries)
    (hr : Represents key view (values entries) shown) (hv : ∀ r, key (view r) = key r) (row : ρ) :
    Filed key (Keyed.insert entries (key row) row) ∧
      Represents key view (values (Keyed.insert entries (key row) row))
        (saved key (view row) shown) := by
  rw [h.values_insert]
  exact ⟨h.insert row, hr.save hv row⟩

omit [DecidableEq κ] in
theorem Filed.keep {entries : List (κ × ρ)} (h : Filed key entries)
    (hr : Represents key view (values entries) shown) {keep : κ × ρ → Bool} {p : ρ → Bool}
    (hkeep : ∀ e ∈ entries, keep e = p e.2) (hp : ∀ r, p (view r) = p r) :
    Filed key (entries.filter keep) ∧
      Represents key view (values (entries.filter keep)) {y | y ∈ shown ∧ p y = true} := by
  rw [values_filter hkeep]
  exact ⟨h.filter keep, hr.filter hp⟩

theorem Filed.regroup {γ : Type _} [DecidableEq γ] {entries : List (κ × ρ)} (h : Filed key entries)
    (hr : Represents key view (values entries) shown) {group : ρ → γ} {g : γ}
    {keep : κ × ρ → Bool} {added : List ρ} {k : ρ → κ} {stamp : ρ → ρ}
    (hv : ∀ r, group (view r) = group r) (hkey : ∀ a b, key a = key b → group a = group b)
    (hkeep : ∀ e ∈ entries, keep e = decide (group e.2 ≠ g))
    (hs : ∀ r, key (stamp r) = key r ∧ view (stamp r) = view r)
    (hk : ∀ a ∈ added, k a = key a) (hadded : (added.map key).Nodup)
    (hg : ∀ a ∈ added, group a = g) :
    Filed key (added.foldl (fun m a => Keyed.insert m (k a) (stamp a)) (entries.filter keep)) ∧
      Represents key view
        (values (added.foldl (fun m a => Keyed.insert m (k a) (stamp a)) (entries.filter keep)))
        (replaced view (fun r => decide (group r ≠ g)) added shown) := by
  have hfold : added.foldl (fun m a => Keyed.insert m (k a) (stamp a)) (entries.filter keep) =
      (added.map stamp).foldl (fun m row => Keyed.insert m (key row) row)
        (entries.filter keep) := by
    rw [List.foldl_map]
    apply List.foldl_ext
    intro m a ha
    rw [hk a ha, (hs a).1]
  have hkeys : (added.map stamp).map key = added.map key := by
    rw [List.map_map]
    exact List.map_congr_left fun a _ => (hs a).1
  have hgroup : ∀ a ∈ added.map stamp, group a = g := by
    intro a ha
    obtain ⟨b, hb, rfl⟩ := List.mem_map.1 ha
    exact (hkey _ _ (hs b).1).trans (hg b hb)
  obtain ⟨hfiled, hvalues⟩ := (h.filter keep).foldl_insert (added.map stamp)
  rw [hfold]
  refine ⟨hfiled, ?_⟩
  rw [hvalues, values_filter (p := fun r => decide (group r ≠ g)) hkeep, foldl_save_eq (by rw [hkeys]; exact hadded),
    ← replaced_map fun r => (hs r).2]
  · exact hr.regroup hv hkey (by rw [hkeys]; exact hadded) hgroup
  · intro r hr a ha he
    have hne := of_decide_eq_true (List.mem_filter.1 hr).2
    exact hne ((hkey r a he).trans (hgroup a ha))

end

section
variable [DecidableEq κ]

/-- Changing the rows of different keys one after the other changes each row once, so that the
order of the keys does not matter. -/
theorem foldl_updateAt {key : ρ → κ} {change : κ → ρ → ρ} (hkey : ∀ k r, key (change k r) = key r)
    {ks : List κ} (hks : ks.Nodup) (rows : List ρ) :
    ks.foldl (fun rows k => updateAt key k (change k) rows) rows =
      rows.map fun r => if key r ∈ ks then change (key r) r else r := by
  induction ks generalizing rows with
  | nil => simp only [List.foldl_nil, List.not_mem_nil, if_false, List.map_id']
  | cons k ks ih =>
    obtain ⟨hk, hks⟩ := List.nodup_cons.1 hks
    rw [List.foldl_cons, ih hks, updateAt, List.map_map]
    apply List.map_congr_left
    intro r _
    by_cases hr : key r = k
    · simp only [Function.comp_apply, hr, if_true, hkey, hk, if_false, List.mem_cons_self]
    · simp only [Function.comp_apply, hr, if_false, List.mem_cons, false_or]

end

/-- Two lists that represent one set show the same rows. -/
theorem Represents.perm {key : ρ → κ} {view : ρ → ρ} {rows rows' : List ρ} {shown : Set ρ}
    (h : Represents key view rows shown) (h' : Represents key view rows' shown)
    (hv : ∀ r, key (view r) = key r) : (rows.map view).Perm (rows'.map view) := by
  have hnodup {rows : List ρ} (h : Represents key view rows shown) : (rows.map view).Nodup := by
    apply List.Nodup.of_map key
    rw [List.map_map, show key ∘ view = key from funext hv]
    exact h.distinct
  rw [List.perm_ext_iff_of_nodup (hnodup h) (hnodup h')]
  intro x
  rw [h.shows, h'.shows]

theorem Represents.sort_eq {key : ρ → κ} {view : ρ → ρ} {rows rows' : List ρ} {shown : Set ρ}
    (h : Represents key view rows shown) (h' : Represents key view rows' shown)
    (hv : ∀ r, key (view r) = key r) {p : ρ → Bool} (hp : ∀ r, p (view r) = p r)
    {le : ρ → ρ → Prop} [DecidableRel le] [Std.Total le] [IsTrans ρ le]
    (hle : ∀ a b, le (view a) (view b) ↔ le a b)
    (hanti : ∀ a b, p a = true → p b = true → le a b → le b a → key a = key b) :
    ((rows.filter p).insertionSort le).map view = ((rows'.filter p).insertionSort le).map view := by
  have hsorted (rows : List ρ) : (((rows.filter p).insertionSort le).map view).Pairwise le := by
    rw [List.pairwise_map]
    apply (List.pairwise_insertionSort le _).imp
    intro a b hab
    exact (hle a b).2 hab
  have hperm : (((rows.filter p).insertionSort le).map view).Perm
      (((rows'.filter p).insertionSort le).map view) :=
    ((List.perm_insertionSort le _).map view).trans
      (((h.filter hp).perm (h'.filter hp) hv).trans ((List.perm_insertionSort le _).map view).symm)
  apply List.Perm.eq_of_pairwise _ (hsorted rows) (hsorted rows') hperm
  intro a b ha hb hab hba
  obtain ⟨r, hr, rfl⟩ := List.mem_map.1 ha
  obtain ⟨r', hr', rfl⟩ := List.mem_map.1 hb
  rw [List.mem_insertionSort, List.mem_filter] at hr hr'
  have hkey : key (view r) = key (view r') :=
    hanti _ _ ((hp r).trans hr.2) ((hp r').trans hr'.2) hab hba
  obtain ⟨r₁, hr₁, he⟩ := List.mem_map.1
    ((h.shows _).2 ((h'.shows _).1 (List.mem_map_of_mem hr'.1)))
  rw [← he, hv, hv] at hkey
  rw [← he, List.inj_on_of_nodup_map h.distinct hr.1 hr₁ hkey]

end Keyed
