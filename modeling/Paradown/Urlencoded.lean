import Paradown.Percent

namespace Urlencoded
set_option autoImplicit true

/-- A letter, a digit, `*`, `-`, `.` or `_` stands for itself, and `+` for a space. -/
def literal (byte : UInt8) : Option Char :=
  let c := Char.ofNat byte.toNat
  if byte = 0x20 then some '+'
  else if c.isAlphanum ∨ c ∈ ['*', '-', '.', '_'] then some c
  else none

def plain (c : Char) : List UInt8 := if c = '+' then [0x20] else String.utf8EncodeChar c

def encode (text : String) : List Char := Percent.encode literal text.toUTF8.data.toList

/-- Text that is not UTF-8 is read as no text. -/
def decode (text : List Char) : String :=
  (String.fromUTF8? ⟨(Percent.decode plain text).toArray⟩).getD ""

def serialize (pairs : List (String × String)) : List Char :=
  ['&'].intercalate (pairs.map fun pair => encode pair.1 ++ '=' :: encode pair.2)

/-- A name ends at the first `=` of its field. -/
def parseField (field : List Char) : String × String :=
  (decode (field.takeWhile (· != '=')), decode (field.dropWhile (· != '=')).tail)

def parse (text : List Char) : List (String × String) :=
  ((text.splitOn '&').filter (· != [])).map parseField

theorem literal_all : ∀ byte < 256, (literal (.ofNat byte)).all fun c =>
    c ≠ '%' ∧ c ≠ '&' ∧ c ≠ '=' ∧ plain c = [.ofNat byte] := by
  decide +kernel

theorem literal_spec (h : literal byte = some c) :
    c ≠ '%' ∧ c ≠ '&' ∧ c ≠ '=' ∧ plain c = [byte] := by
  have hall := literal_all byte.toNat byte.toNat_lt
  rw [UInt8.ofNat_toNat, h] at hall
  exact of_decide_eq_true hall

theorem decode_encode (text : String) : decode (encode text) = text := by
  have henc := Percent.encode_encodes literal text.toUTF8.data.toList
  have hdec : Percent.decode plain (Percent.encode literal text.toUTF8.data.toList) =
      text.toUTF8.data.toList :=
    henc.decode fun byte c h => ⟨(literal_spec h).1, (literal_spec h).2.2.2⟩
  rw [decode, encode, hdec, Array.toArray_toList]
  change (String.fromUTF8? text.toByteArray).getD "" = text
  rw [String.fromUTF8?, dif_pos text.isValidUTF8]
  rfl

theorem encode_no_separator (text : String) : ∀ c ∈ encode text, c ≠ '&' ∧ c ≠ '=' := by
  apply (Percent.encode_encodes literal text.toUTF8.data.toList).forall_mem
    (p := fun c => c ≠ '&' ∧ c ≠ '=')
  · intro byte c h
    exact ⟨(literal_spec h).2.1, (literal_spec h).2.2.1⟩
  · decide
  · rintro c value hc
    constructor <;>
    · rintro rfl
      cases hc

theorem parseField_append (name value : String) :
    parseField (encode name ++ '=' :: encode value) = (name, value) := by
  have hname : ∀ c ∈ encode name, (c != '=') = true := fun c hc =>
    bne_iff_ne.2 (encode_no_separator name c hc).2
  rw [parseField, List.takeWhile_append_of_pos hname, List.dropWhile_append_of_pos hname,
    List.takeWhile_cons_of_neg (by decide), List.dropWhile_cons_of_neg (by decide), List.append_nil,
    List.tail_cons, decode_encode, decode_encode]

/-- The pairs are read back as they were written. -/
theorem parse_serialize (pairs : List (String × String)) : parse (serialize pairs) = pairs := by
  let field (pair : String × String) := encode pair.1 ++ '=' :: encode pair.2
  have hparse : ((pairs.map field).filter (· != [])).map parseField = pairs := by
    induction pairs with
    | nil => rfl
    | cons pair pairs ih =>
      have hne : (field pair != []) = true := by simp [field]
      rw [List.map_cons, List.filter_cons, if_pos hne, List.map_cons, ih]
      exact congrArg (· :: pairs) (parseField_append pair.1 pair.2)
  cases pairs with
  | nil => rfl
  | cons pair pairs =>
    have hamp : ∀ text ∈ (pair :: pairs).map field, '&' ∉ text := by
      intro text ht hmem
      obtain ⟨p, _, rfl⟩ := List.mem_map.1 ht
      rcases List.mem_append.1 hmem with hm | hm
      · exact (encode_no_separator p.1 _ hm).1 rfl
      · rcases List.mem_cons.1 hm with he | hm
        · cases he
        · exact (encode_no_separator p.2 _ hm).1 rfl
    have hsplit := List.splitOn_intercalate '&' hamp (List.cons_ne_nil _ _)
    exact (congrArg (fun fields => (fields.filter (· != [])).map parseField) hsplit).trans hparse

end Urlencoded
