import Mathlib.Data.List.Infix

namespace Placeholder
set_option autoImplicit true

variable {α τ : Type _}

/-- The marks of a set of names, each between two characters that stand in no name. -/
structure Marks (α τ : Type _) where
  opening : α
  closing : α
  name : τ → List α
  opening_notMem : ∀ t, opening ∉ name t
  closing_notMem : ∀ t, closing ∉ name t
  opening_ne_closing : opening ≠ closing
  injective : ∀ t u, name t = name u → t = u

def Marks.mark (m : Marks α τ) (t : τ) : List α := m.opening :: (m.name t ++ [m.closing])

inductive Part (α τ : Type _) where
  | literal (text : List α)
  | mark (t : τ)
  deriving DecidableEq

/-- What a part stands for, once the names have their values; some have none. -/
def Part.resolve (value : τ → Option (List α)) : Part α τ → Option (List α)
  | .literal text => some text
  | .mark t => value t

def Part.fill [DecidableEq τ] (t : τ) (value : List α) : Part α τ → Part α τ
  | .literal text => .literal text
  | .mark u => if u = t then .literal value else .mark u

namespace Marks

variable (m : Marks α τ)

def write (parts : List (Part α τ)) : List α :=
  parts.flatMap fun
    | .literal text => text
    | .mark t => m.mark t

/-- No literal part holds the character that opens a mark. -/
def Plain (parts : List (Part α τ)) : Prop := ∀ text, .literal text ∈ parts → m.opening ∉ text

variable {m}

theorem Plain.tail (h : m.Plain (part :: parts)) : m.Plain parts :=
  fun text ht => h text (List.mem_cons_of_mem _ ht)

theorem tail_notMem (u : τ) : m.opening ∉ m.name u ++ [m.closing] := by
  rw [List.mem_append, List.mem_singleton, not_or]
  exact ⟨m.opening_notMem u, m.opening_ne_closing⟩

theorem write_cons (part : Part α τ) (parts : List (Part α τ)) :
    m.write (part :: parts) = m.write [part] ++ m.write parts := by
  rw [write, List.flatMap_cons, write, write, List.flatMap_singleton]

theorem write_mark (t : τ) : m.write [.mark t] = m.mark t := by
  rw [write, List.flatMap_singleton]

theorem write_literal (text : List α) : m.write [.literal text] = text := by
  rw [write, List.flatMap_singleton]

theorem eq_of_begins_with (h : m.mark t <+: m.mark u ++ rest) : t = u := by
  classical
  apply m.injective
  obtain ⟨more, hmore⟩ : ∃ more, m.name t ++ [m.closing] ++ more = m.name u ++ [m.closing] ++ rest :=
    (List.cons_prefix_cons.1 h).2
  have hname (v : τ) (tail : List α) :
      List.takeWhile (· ≠ m.closing) (m.name v ++ ([m.closing] ++ tail)) = m.name v := by
    rw [List.takeWhile_append_of_pos]
    · simp
    · intro c hc
      have hne : c ≠ m.closing := fun he => m.closing_notMem v (he ▸ hc)
      simpa using hne
  have htake := congrArg (List.takeWhile (· ≠ m.closing)) hmore
  rw [List.append_assoc, List.append_assoc, hname, hname] at htake
  exact htake

theorem infix_append_of_notMem {c : α} {text : List α} (h : c ∉ text)
    (hi : c :: pattern <:+: text ++ rest) : c :: pattern <:+: rest := by
  induction text with
  | nil => exact hi
  | cons d text ih =>
    obtain ⟨hd, htext⟩ := not_or.1 (mt List.mem_cons.2 h)
    rw [List.cons_append, List.infix_cons_iff] at hi
    rcases hi with hp | hi
    · exact absurd (List.cons_prefix_cons.1 hp).1 hd
    · exact ih htext hi

theorem mark_infix_write (h : m.Plain parts) (t : τ) :
    m.mark t <:+: m.write parts ↔ .mark t ∈ parts := by
  constructor
  · intro hi
    induction parts with
    | nil => exact absurd (List.infix_nil.1 hi) (List.cons_ne_nil _ _)
    | cons part parts ih =>
      rw [write_cons] at hi
      cases part with
      | literal text =>
        rw [write_literal] at hi
        have hopen := h text List.mem_cons_self
        exact List.mem_cons_of_mem _ (ih h.tail (infix_append_of_notMem hopen hi))
      | mark u =>
        rw [write_mark] at hi
        rcases List.infix_cons_iff.1 hi with hp | hi
        · have hsame : t = u := eq_of_begins_with hp
          rw [hsame]
          exact List.mem_cons_self
        · exact List.mem_cons_of_mem _ (ih h.tail (infix_append_of_notMem (tail_notMem u) hi))
  · intro hm
    obtain ⟨before, behind, rfl⟩ := List.append_of_mem hm
    refine ⟨m.write before, m.write behind, ?_⟩
    rw [write, write, write, List.flatMap_append, List.flatMap_cons, List.append_assoc]

end Marks

section
variable [DecidableEq α]

/-- Replace `pattern` from left to right; `skip` characters of the last one found are still to be
passed over. -/
def replaceFrom (pattern value : List α) : Nat → List α → List α
  | _, [] => []
  | skip + 1, _ :: text => replaceFrom pattern value skip text
  | 0, c :: text =>
    if pattern <+: c :: text then value ++ replaceFrom pattern value (pattern.length - 1) text
    else c :: replaceFrom pattern value 0 text

def replace (pattern value text : List α) : List α := replaceFrom pattern value 0 text

theorem replaceFrom_append (pattern value skipped text : List α) :
    replaceFrom pattern value skipped.length (skipped ++ text) = replace pattern value text := by
  induction skipped with
  | nil => rfl
  | cons c skipped ih => exact ih

theorem replace_append (hne : pattern ≠ []) (value text : List α) :
    replace pattern value (pattern ++ text) = value ++ replace pattern value text := by
  cases pattern with
  | nil => exact absurd rfl hne
  | cons c pattern =>
    have hprefix : c :: pattern <+: c :: (pattern ++ text) := List.prefix_append _ _
    rw [replace, List.cons_append, replaceFrom, if_pos hprefix, List.length_cons,
      Nat.add_sub_cancel, replaceFrom_append]

theorem replace_cons_of_not_prefix (h : ¬ pattern <+: c :: text) (value : List α) :
    replace pattern value (c :: text) = c :: replace pattern value text := by
  rw [replace, replaceFrom, if_neg h]
  rfl

theorem replace_append_of_notMem {c : α} {text : List α} (h : c ∉ text)
    (pattern value rest : List α) :
    replace (c :: pattern) value (text ++ rest) = text ++ replace (c :: pattern) value rest := by
  induction text with
  | nil => rfl
  | cons d text ih =>
    obtain ⟨hd, htext⟩ := not_or.1 (mt List.mem_cons.2 h)
    have hnot : ¬ c :: pattern <+: d :: (text ++ rest) :=
      fun hp => hd (List.cons_prefix_cons.1 hp).1
    rw [List.cons_append, replace_cons_of_not_prefix hnot, ih htext, List.cons_append]

variable {m : Marks α τ}

theorem Marks.replace_mark_ne (hne : t ≠ u) (value rest : List α) :
    replace (m.mark t) value (m.mark u ++ rest) = m.mark u ++ replace (m.mark t) value rest := by
  have hnot : ¬ m.mark t <+: m.mark u ++ rest := fun hp => hne (eq_of_begins_with hp)
  calc replace (m.mark t) value (m.mark u ++ rest)
      = m.opening :: replace (m.mark t) value (m.name u ++ [m.closing] ++ rest) :=
        replace_cons_of_not_prefix hnot value
    _ = m.opening :: (m.name u ++ [m.closing] ++ replace (m.mark t) value rest) := by
        rw [mark, replace_append_of_notMem (tail_notMem u)]
    _ = m.mark u ++ replace (m.mark t) value rest := rfl

end

theorem mapM_eq_none_iff {f : β → Option γ} {parts : List β} :
    parts.mapM f = none ↔ ∃ part ∈ parts, f part = none := by
  induction parts with
  | nil => simp
  | cons first parts ih =>
    rw [List.mapM_cons]
    simp only [List.mem_cons, exists_eq_or_imp, ← ih]
    cases f first with
    | none => simp
    | some text => cases parts.mapM f <;> simp

namespace Marks

variable {m : Marks α τ} {value : τ → Option (List α)}

theorem resolve_literals {parts : List (Part α τ)} (h : ∀ t, .mark t ∉ parts) :
    (parts.mapM (Part.resolve value)).map List.flatten = some (m.write parts) := by
  induction parts with
  | nil => rfl
  | cons part parts ih =>
    have hrest := ih fun t ht => h t (List.mem_cons_of_mem _ ht)
    obtain ⟨texts, htexts, he⟩ := Option.map_eq_some_iff.1 hrest
    cases part with
    | literal text =>
      rw [List.mapM_cons, htexts, write_cons, write_literal, ← he]
      rfl
    | mark t => exact absurd List.mem_cons_self (h t)

variable [DecidableEq τ]

theorem Plain.fill (h : m.Plain parts) (hvalue : m.opening ∉ text) (t : τ) :
    m.Plain (parts.map (Part.fill t text)) := by
  intro other ht
  obtain ⟨part, hp, he⟩ := List.mem_map.1 ht
  cases part with
  | literal text =>
    cases he
    exact h _ hp
  | mark u =>
    rw [Part.fill] at he
    split at he <;> cases he
    exact hvalue

theorem resolve_fill (h : value t = some text) (part : Part α τ) :
    (part.fill t text).resolve value = part.resolve value := by
  cases part with
  | literal other => rfl
  | mark u =>
    rw [Part.fill]
    by_cases hu : u = t
    · rw [if_pos hu, Part.resolve, Part.resolve, hu, h]
    · rw [if_neg hu]

variable [DecidableEq α]

/-- To replace a mark in the text is to fill it in the parts. -/
theorem replace_write (h : m.Plain parts) (t : τ) (text : List α) :
    replace (m.mark t) text (m.write parts) = m.write (parts.map (Part.fill t text)) := by
  induction parts with
  | nil => rfl
  | cons part parts ih =>
    have hrest := ih h.tail
    rw [List.map_cons, write_cons, write_cons (Part.fill t text part), ← hrest]
    cases part with
    | literal other =>
      have hopen := h other List.mem_cons_self
      rw [Part.fill, write_literal, mark, replace_append_of_notMem hopen]
    | mark u =>
      rw [Part.fill, write_mark]
      by_cases hu : u = t
      · have hne : m.mark t ≠ [] := List.cons_ne_nil _ _
        rw [if_pos hu, write_literal, hu, replace_append hne]
      · rw [if_neg hu, write_mark, replace_mark_ne (Ne.symm hu)]

variable (m) in
/-- Replace the marks of a name wherever they stand; a name that stands somewhere needs a value. -/
def replaceMarks (text : List α) (entry : τ × Option (List α)) : Option (List α) :=
  if m.mark entry.1 <:+: text then entry.2.map fun value => replace (m.mark entry.1) value text
  else some text

/-- Marks that are replaced one name after the other get the values that all of them stand for at
once, and there is no text exactly when a mark has no value. -/
theorem replaceMarks_write {parts : List (Part α τ)} {names : List τ} (h : m.Plain parts)
    (hall : ∀ t, .mark t ∈ parts → t ∈ names)
    (hvalue : ∀ t text, value t = some text → m.opening ∉ text) :
    (names.map fun t => (t, value t)).foldlM m.replaceMarks (m.write parts) =
      (parts.mapM (Part.resolve value)).map List.flatten := by
  induction names generalizing parts with
  | nil =>
    have hnone : ∀ t, .mark t ∉ parts := fun t ht => absurd (hall t ht) List.not_mem_nil
    exact (resolve_literals hnone).symm
  | cons t names ih =>
    have hrest (u : τ) (hu : .mark u ∈ parts) (hne : u ≠ t) : u ∈ names :=
      (List.mem_cons.1 (hall u hu)).resolve_left hne
    rw [List.map_cons, List.foldlM_cons, replaceMarks]
    by_cases hm : .mark t ∈ parts
    · rw [if_pos ((mark_infix_write h t).2 hm)]
      cases hv : value t with
      | none =>
        rw [mapM_eq_none_iff.2 ⟨_, hm, hv⟩]
        rfl
      | some text =>
        have hparts := ih (h.fill (hvalue t text hv) t) fun u hu => by
          obtain ⟨part, hp, he⟩ := List.mem_map.1 hu
          cases part with
          | literal other => cases he
          | mark u' =>
            rw [Part.fill] at he
            split at he
            case isTrue => cases he
            case isFalse hne =>
              cases he
              exact hrest u hp hne
        have hresolve : (parts.map (Part.fill t text)).mapM (Part.resolve value) =
            parts.mapM (Part.resolve value) := by
          rw [List.mapM_map]
          exact congrArg (parts.mapM ·) (funext fun part => resolve_fill hv part)
        rw [hresolve, ← replace_write h] at hparts
        exact hparts
    · rw [if_neg (mt (mark_infix_write h t).1 hm)]
      exact ih h fun u hu => hrest u hu fun he => hm (he ▸ hu)

end Marks

end Placeholder
