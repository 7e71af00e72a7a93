import Mathlib.Data.Bool.AllAny
import Paradown.FileName
import Paradown.Percent

namespace Paradown
set_option autoImplicit true

/-- The characters that need no escape in an extended value. -/
def isAttrChar (c : Char) : Bool := c.isAlphanum || "!#$&+-.^_`|~".toList.contains c

/-- A byte that is written as the character it is the code of. -/
def StandsForItself (byte : UInt8) (c : Char) : Prop :=
  isAttrChar c = true ∧ byte = .ofNat c.toNat

/-- A language tag, which may be empty. -/
def IsLanguageTag (tag : List Char) : Prop := ∀ c ∈ tag, c.isAlphanum = true ∨ c = '-'

def asciiBytes (text : List Char) : List UInt8 := text.map fun c => .ofNat c.toNat

/-- An extended value: the charset, the language and the encoded name. -/
def extendedValue (charset language encoded : List Char) : List Char :=
  charset ++ apostrophe :: language ++ apostrophe :: encoded

/-- White space that may stand around a parameter. -/
def IsBlank (text : List Char) : Prop := ∀ c ∈ text, c = ' ' ∨ c = '\t'

/-- The segment of a header that holds an extended name. -/
def extendedSegment (pad value padAfter : List Char) : List Char :=
  pad ++ ("filename*=".toList ++ value) ++ padAfter

/-- A header with an extended name behind a semicolon; more may follow behind another one. -/
def extendedHeader (before : List UInt8) (pad value padAfter : List Char)
    (after : Option (List UInt8)) : List UInt8 :=
  before ++ asciiBytes (';' :: extendedSegment pad value padAfter) ++
    (after.map (59 :: ·)).getD []

/-- The name in a segment of a header that has an extended name which can be decoded. -/
def extendedName (segment : List Char) : Option String :=
  ((trimMatches isWhiteSpace segment).dropPrefix? "filename*=".toList).bind
    decodeContentDispositionExtendedFilename

/-- What the loop keeps as its fallback after a segment. -/
def plainName (fallback : Option String) (segment : List Char) : Option String :=
  let segment := trimMatches isWhiteSpace segment
  match segment.dropPrefix? "filename*=".toList with
  | some _ => fallback
  | none =>
    match segment.dropPrefix? "filename=".toList with
    | some filename => normalizeContentDispositionFilename filename
    | none => fallback

/-- The segments that come before an extended name, and those behind it. -/
def segmentsBefore (before : List UInt8) : List (List Char) :=
  ((before.map fun byte => Char.ofNat byte.toNat).splitOn ';').drop 1

def segmentsAfter (after : Option (List UInt8)) : List (List Char) :=
  match after with
  | none => []
  | some rest => (rest.map fun byte => Char.ofNat byte.toNat).splitOn ';'

/-- An extended name counts when the rest of the header can be read as text, no extended name before
it gives another name, and it either has no language tag or could as well be left out. -/
def ExtendedNameCounts (before : List UInt8) (language : List Char) (after : Option (List UInt8))
    (name : String) : Prop :=
  (∀ byte ∈ before ++ after.getD [], isVisibleAscii byte = true) ∧
    ((segmentsBefore before).findSome? extendedName = some name ∨
      (segmentsBefore before).findSome? extendedName = none ∧
        (language = [] ∨ (segmentsAfter after).findSome? extendedName = some name ∨
          (segmentsAfter after).findSome? extendedName = none ∧
            (segmentsBefore before ++ segmentsAfter after).foldl plainName none = some name))

theorem fileNameOfSegments_eq (fallback : Option String) (segments : List (List Char)) :
    fileNameOfSegments fallback segments =
      (segments.findSome? extendedName).or (segments.foldl plainName fallback) := by
  induction segments generalizing fallback with
  | nil => rfl
  | cons segment segments ih =>
    rw [fileNameOfSegments, List.findSome?_cons, List.foldl_cons]
    cases hx : (trimMatches isWhiteSpace segment).dropPrefix? "filename*=".toList with
    | none =>
      simp only [extendedName, plainName, hx, Option.bind_none]
      cases (trimMatches isWhiteSpace segment).dropPrefix? "filename=".toList with
      | none => exact ih fallback
      | some filename => exact ih _
    | some filename =>
      simp only [extendedName, plainName, hx, Option.bind_some]
      cases decodeContentDispositionExtendedFilename filename with
      | none => exact ih fallback
      | some decoded => rfl

theorem decodeHexNibble_ascii : ∀ code < 128,
    decodeHexNibble (.ofNat code) = (Percent.hexValue (Char.ofNat code)).map .ofNat := by
  decide

theorem hexValue_lt : ∀ code < 128, (Percent.hexValue (Char.ofNat code)).all (· < 16) = true := by
  decide

theorem joinNibbles : ∀ high < 16, ∀ low < 16,
    (UInt8.ofNat high <<< 4 ||| UInt8.ofNat low) = UInt8.ofNat (16 * high + low) := by
  decide

theorem hexValue_ascii (h : Percent.hexValue c = some value) : c.toNat < 128 := by
  rcases Percent.hexValue_cases h with ⟨_, hle, _⟩ | ⟨_, hle, _⟩ | ⟨_, hle, _⟩
  all_goals exact Nat.lt_of_le_of_lt hle (by decide)

theorem decodeHexNibble_of_hexValue (h : Percent.hexValue c = some value) :
    decodeHexNibble (.ofNat c.toNat) = some (.ofNat value) ∧ value < 16 := by
  have hc := hexValue_ascii h
  have hd := decodeHexNibble_ascii c.toNat hc
  have hl := hexValue_lt c.toNat hc
  rw [Char.ofNat_toNat, h] at hd hl
  exact ⟨hd, of_decide_eq_true hl⟩

/-- A character that a segment of a header may hold. -/
structure InSegment (c : Char) : Prop where
  ascii : c.toNat < 128
  visible : isVisibleAscii (.ofNat c.toNat) = true
  notSemicolon : c ≠ ';'

/-- A character that a header neither splits at nor trims. -/
structure IsPlain (c : Char) : Prop extends InSegment c where
  notWhite : isWhiteSpace c = false
  notQuote : c ≠ quote
  notApostrophe : c ≠ apostrophe

instance : DecidablePred InSegment := fun c =>
  decidable_of_iff (c.toNat < 128 ∧ isVisibleAscii (.ofNat c.toNat) = true ∧ c ≠ ';')
    ⟨fun ⟨hc, hv, hs⟩ => ⟨hc, hv, hs⟩, fun h => ⟨h.ascii, h.visible, h.notSemicolon⟩⟩

instance : DecidablePred IsPlain := fun c =>
  decidable_of_iff (InSegment c ∧ isWhiteSpace c = false ∧ c ≠ quote ∧ c ≠ apostrophe)
    ⟨fun ⟨hc, hw, hq, ha⟩ => ⟨hc, hw, hq, ha⟩,
      fun h => ⟨h.toInSegment, h.notWhite, h.notQuote, h.notApostrophe⟩⟩

theorem of_ascii {p : Char → Prop} (h : ∀ code < 128, p (Char.ofNat code)) (hc : c.toNat < 128) :
    p c := by
  rw [← Char.ofNat_toNat c]
  exact h c.toNat hc

theorem alphanum_ascii {c : Char} (h : c.isAlphanum = true) : c.toNat < 128 := by
  have hdigit (h : c.isDigit = true) : c.toNat ≤ 57 := (Char.isDigit_iff_toNat.1 h).2
  have hupper (h : c.isUpper = true) : c.toNat ≤ 90 := by
    have h : decide (65 ≤ c.val ∧ c.val ≤ 90) = true := h
    exact (of_decide_eq_true h).2
  have hlower (h : c.isLower = true) : c.toNat ≤ 122 := by
    have h : (decide (97 ≤ c.val) && decide (c.val ≤ 122)) = true := h
    exact of_decide_eq_true (Bool.and_eq_true_iff.1 h).2
  have h : ((c.isUpper || c.isLower) || c.isDigit) = true := h
  rw [Bool.or_eq_true, Bool.or_eq_true] at h
  rcases h with (h | h) | h
  · exact Nat.lt_of_le_of_lt (hupper h) (by decide)
  · exact Nat.lt_of_le_of_lt (hlower h) (by decide)
  · exact Nat.lt_of_le_of_lt (hdigit h) (by decide)

theorem attrChar_ascii {c : Char} (h : isAttrChar c = true) : c.toNat < 128 := by
  rcases Bool.or_eq_true_iff.1 h with h | h
  · exact alphanum_ascii h
  · have hall : ∀ c ∈ "!#$&+-.^_`|~".toList, c.toNat < 128 :=
      List.all_iff_forall_prop.1 (by decide)
    exact hall c (List.contains_iff_mem.1 h)

theorem attrChar_plain (h : isAttrChar c = true) : IsPlain c ∧ c ≠ '%' :=
  of_ascii (p := fun c => isAttrChar c = true → IsPlain c ∧ c ≠ '%') (by decide)
    (attrChar_ascii h) h

theorem hexValue_plain (h : Percent.hexValue c = some value) : IsPlain c :=
  of_ascii (p := fun c => (Percent.hexValue c).isSome = true → IsPlain c) (by decide)
    (hexValue_ascii h) (h ▸ rfl)

theorem languageTag_plain {c : Char} (h : c.isAlphanum = true ∨ c = '-') : IsPlain c := by
  rcases h with h | rfl
  · exact of_ascii (p := fun c => c.isAlphanum = true → IsPlain c) (by decide)
      (alphanum_ascii h) h
  · decide

theorem charset_plain {c : Char} (h : c.toLower ∈ "utf-8".toList) : IsPlain c := by
  have hc : c.toNat < 128 := by
    unfold Char.toLower at h
    split at h
    case isTrue hupper => exact Nat.lt_of_le_of_lt hupper.2 (by decide)
    case isFalse =>
      have hall : ∀ c ∈ "utf-8".toList, c.toNat < 128 := List.all_iff_forall_prop.1 (by decide)
      exact hall c h
  exact of_ascii (p := fun c => c.toLower ∈ "utf-8".toList → IsPlain c) (by decide) hc h

theorem percentDecodeBytes_cons (h : byte ≠ 37) (bytes : List UInt8) :
    percentDecodeBytes (byte :: bytes) = (percentDecodeBytes bytes).map (byte :: ·) := by
  rw [percentDecodeBytes.eq_def]
  exact if_neg h

/-- Every encoding of every list of bytes is undone. -/
theorem percentDecodeBytes_of_encodes (h : Percent.Encodes StandsForItself bytes text) :
    percentDecodeBytes (asciiBytes text) = some bytes := by
  induction h with
  | nil => rfl
  | @char byte c bytes text hc ht ih =>
    obtain ⟨hattr, rfl⟩ := hc
    have hne : UInt8.ofNat c.toNat ≠ 37 :=
      of_ascii (p := fun c => isAttrChar c = true → UInt8.ofNat c.toNat ≠ 37) (by decide)
        (attrChar_ascii hattr) hattr
    have hcons : asciiBytes (c :: text) = .ofNat c.toNat :: asciiBytes text := rfl
    rw [hcons, percentDecodeBytes_cons hne, ih]
    rfl
  | @escape high h low l bytes text hh hl ht ih =>
    obtain ⟨hhigh, hh⟩ := decodeHexNibble_of_hexValue hh
    obtain ⟨hlow, hl⟩ := decodeHexNibble_of_hexValue hl
    have hcons : asciiBytes ('%' :: high :: low :: text) =
        37 :: .ofNat high.toNat :: .ofNat low.toNat :: asciiBytes text := rfl
    rw [hcons, percentDecodeBytes, if_pos rfl]
    simp only [hhigh, hlow, ih, bind, Option.bind, joinNibbles h hh l hl]

theorem toUTF8_ascii (h : ∀ c ∈ text, c.toNat < 128) :
    (String.ofList text).toUTF8.data.toList = asciiBytes text := by
  have hchars : text.flatMap String.utf8EncodeChar = asciiBytes text := by
    induction text with
    | nil => rfl
    | cons c text ih =>
      obtain ⟨hc, htext⟩ := List.forall_mem_cons.1 h
      have hone : String.utf8EncodeChar c = [.ofNat c.toNat] := if_pos (Nat.le_of_lt_succ hc)
      rw [List.flatMap_cons, hone, ih htext]
      rfl
  rw [← hchars]
  exact List.toList_data_toByteArray

theorem encodes_plain (h : Percent.Encodes StandsForItself bytes text) :
    ∀ c ∈ text, IsPlain c := by
  apply h.forall_mem (p := IsPlain)
  · intro byte c hc
    exact (attrChar_plain hc.1).1
  · decide
  · intro c value hc
    exact hexValue_plain hc

theorem percentDecodeBytes_toUTF8 (h : Percent.Encodes StandsForItself bytes text) :
    percentDecodeBytes (String.ofList text).toUTF8.data.toList = some bytes := by
  rw [toUTF8_ascii fun c hc => (encodes_plain h c hc).ascii]
  exact percentDecodeBytes_of_encodes h

theorem trimMatches_pad (hb : ∀ c ∈ before, p c = true) (ha : ∀ c ∈ after, p c = true)
    (ht : ∀ c ∈ text, p c = false) : trimMatches p (before ++ text ++ after) = text := by
  have hdrop {xs : List Char} (rest : List Char) (hx : ∀ c ∈ xs, p c = false) (hne : xs ≠ []) :
      (xs ++ rest).dropWhile p = xs ++ rest := by
    cases xs with
    | nil => exact absurd rfl hne
    | cons x xs =>
      rw [List.cons_append, List.dropWhile_cons_of_neg]
      exact Bool.eq_false_iff.1 (hx x List.mem_cons_self)
  rw [trimMatches, List.append_assoc, List.dropWhile_append_of_pos hb]
  by_cases hne : text = []
  · rw [hne, List.nil_append, ← List.append_nil after, List.dropWhile_append_of_pos ha]
    rfl
  · have hr : ∀ c ∈ text.reverse, p c = false := fun c hc => ht c (List.mem_reverse.1 hc)
    have hrest := hdrop [] hr (mt List.reverse_eq_nil_iff.1 hne)
    rw [List.append_nil] at hrest
    rw [hdrop after ht hne, List.reverse_append,
      List.dropWhile_append_of_pos fun c hc => ha c (List.mem_reverse.1 hc), hrest,
      List.reverse_reverse]

theorem trimMatches_of_forall (h : ∀ c ∈ text, p c = false) : trimMatches p text = text := by
  have hpad : trimMatches p ([] ++ text ++ []) = text :=
    trimMatches_pad (fun _ hc => absurd hc List.not_mem_nil)
      (fun _ hc => absurd hc List.not_mem_nil) h
  rwa [List.nil_append, List.append_nil] at hpad

theorem splitOnText_append (h : apostrophe ∉ text) (rest : List Char) :
    splitOnText [apostrophe, apostrophe] (text ++ rest) =
      (splitOnText [apostrophe, apostrophe] rest).map fun halves =>
        (text ++ halves.1, halves.2) := by
  induction text with
  | nil => exact Option.map_id'.symm
  | cons c text ih =>
    obtain ⟨hc, htext⟩ := not_or.1 (mt List.mem_cons.2 h)
    have hnone : (c :: (text ++ rest)).dropPrefix? [apostrophe, apostrophe] = none := by
      simp [List.dropPrefix?, Ne.symm hc]
    rw [List.cons_append, splitOnText, hnone, ih htext, Option.map_map]
    rfl

theorem splitOnText_untagged (h : apostrophe ∉ charset) (encoded : List Char) :
    splitOnText [apostrophe, apostrophe] (extendedValue charset [] encoded) =
      some (charset, encoded) := by
  rw [extendedValue, List.append_assoc, splitOnText_append h]
  have hfound : splitOnText [apostrophe, apostrophe] (apostrophe :: apostrophe :: encoded) =
      some ([], encoded) := by
    simp [splitOnText, List.dropPrefix?]
  rw [List.cons_append, List.nil_append, hfound, Option.map_some, List.append_nil]

theorem splitOnText_tagged (hcharset : apostrophe ∉ charset) (hlang : apostrophe ∉ language)
    (henc : apostrophe ∉ encoded) (hne : language ≠ []) :
    splitOnText [apostrophe, apostrophe] (extendedValue charset language encoded) = none := by
  have hend : splitOnText [apostrophe, apostrophe] (apostrophe :: encoded) = none := by
    have hskip := splitOnText_append henc []
    rw [List.append_nil] at hskip
    have hnone : (apostrophe :: encoded).dropPrefix? [apostrophe, apostrophe] = none := by
      cases encoded with
      | nil => simp [List.dropPrefix?]
      | cons c encoded =>
        have hc : c ≠ apostrophe := fun he => henc (he ▸ List.mem_cons_self)
        simp [List.dropPrefix?, hc]
    rw [splitOnText, hnone, hskip]
    rfl
  cases language with
  | nil => exact absurd rfl hne
  | cons c language =>
    have hc : c ≠ apostrophe := fun he => hlang (he ▸ List.mem_cons_self)
    have hnone (rest : List Char) :
        (apostrophe :: c :: rest).dropPrefix? [apostrophe, apostrophe] = none := by
      simp [List.dropPrefix?, hc]
    rw [extendedValue, List.append_assoc, splitOnText_append hcharset, List.cons_append,
      List.cons_append, splitOnText, hnone, ← List.cons_append, splitOnText_append hlang, hend]
    rfl

/-- An extended value whose parts are well formed: the charset is UTF-8 in any letter case. -/
structure IsExtended (charset language encoded : List Char) (name : String) : Prop where
  charset : charset.map Char.toLower = "utf-8".toList
  language : IsLanguageTag language
  encoded : Percent.Encodes StandsForItself name.toUTF8.data.toList encoded

namespace IsExtended
variable {charset language encoded : List Char} {name : String}

theorem charset_plain (h : IsExtended charset language encoded name) : ∀ c ∈ charset, IsPlain c :=
  fun _ hc => Paradown.charset_plain (h.charset ▸ List.mem_map_of_mem hc)

theorem language_plain (h : IsExtended charset language encoded name) :
    ∀ c ∈ language, IsPlain c :=
  fun c hc => languageTag_plain (h.language c hc)

theorem value_chars (h : IsExtended charset language encoded name) :
    ∀ c ∈ extendedValue charset language encoded,
      InSegment c ∧ isWhiteSpace c = false ∧ (c == quote) = false := by
  have happ : InSegment apostrophe ∧ isWhiteSpace apostrophe = false ∧
      (apostrophe == quote) = false := by
    decide
  have hplain (c : Char) (hc : IsPlain c) :
      InSegment c ∧ isWhiteSpace c = false ∧ (c == quote) = false :=
    ⟨hc.toInSegment, hc.notWhite, beq_false_of_ne hc.notQuote⟩
  intro c hc
  rcases List.mem_append.1 hc with hc | hc
  · rcases List.mem_append.1 hc with hc | hc
    · exact hplain c (h.charset_plain c hc)
    · rcases List.mem_cons.1 hc with rfl | hc
      · exact happ
      · exact hplain c (h.language_plain c hc)
  · rcases List.mem_cons.1 hc with rfl | hc
    · exact happ
    · exact hplain c (encodes_plain h.encoded c hc)

theorem decode_untagged (h : IsExtended charset [] encoded name) :
    decodeContentDispositionExtendedFilename (extendedValue charset [] encoded) = some name := by
  have htrim := trimMatches_of_forall fun c hc => (h.value_chars c hc).2.1
  have hquotes := trimMatches_of_forall fun c hc => (h.value_chars c hc).2.2
  have hsplit := splitOnText_untagged
    (fun hm => (h.charset_plain _ hm).notApostrophe rfl) encoded
  have htake : encoded.takeWhile (· != apostrophe) = encoded :=
    List.takeWhile_eq_self_iff.2 fun c hc =>
      bne_iff_ne.2 (encodes_plain h.encoded c hc).notApostrophe
  unfold decodeContentDispositionExtendedFilename
  simp only [htrim, hquotes, hsplit, htake, percentDecodeBytes_toUTF8 h.encoded, h.charset, if_true,
    bind, Option.bind]
  change String.fromUTF8? name.toByteArray = some name
  exact dif_pos name.isValidUTF8

theorem decode_tagged (h : IsExtended charset language encoded name) (hne : language ≠ []) :
    decodeContentDispositionExtendedFilename (extendedValue charset language encoded) = none := by
  have htrim := trimMatches_of_forall fun c hc => (h.value_chars c hc).2.1
  have hquotes := trimMatches_of_forall fun c hc => (h.value_chars c hc).2.2
  have hsplit := splitOnText_tagged (fun hm => (h.charset_plain _ hm).notApostrophe rfl)
    (fun hm => (h.language_plain _ hm).notApostrophe rfl)
    (fun hm => (encodes_plain h.encoded _ hm).notApostrophe rfl) hne
  unfold decodeContentDispositionExtendedFilename
  simp only [htrim, hquotes, hsplit, bind, Option.bind]

end IsExtended

section
variable {charset language encoded pad padAfter : List Char} {name : String}

theorem trimMatches_segment (h : IsExtended charset language encoded name) (hpad : IsBlank pad)
    (hpadAfter : IsBlank padAfter) :
    trimMatches isWhiteSpace
        (extendedSegment pad (extendedValue charset language encoded) padAfter) =
      "filename*=".toList ++ extendedValue charset language encoded := by
  have hblank {text : List Char} (ht : IsBlank text) : ∀ c ∈ text, isWhiteSpace c = true := by
    intro c hc
    rcases ht c hc with rfl | rfl <;> rfl
  apply trimMatches_pad (hblank hpad) (hblank hpadAfter)
  intro c hc
  rcases List.mem_append.1 hc with hc | hc
  · have hkey : ∀ c ∈ "filename*=".toList, isWhiteSpace c = false :=
      List.all_iff_forall_prop.1 (by decide)
    exact hkey c hc
  · exact (h.value_chars c hc).2.1

theorem inSegment_segment (h : IsExtended charset language encoded name) (hpad : IsBlank pad)
    (hpadAfter : IsBlank padAfter) :
    ∀ c ∈ extendedSegment pad (extendedValue charset language encoded) padAfter, InSegment c := by
  have hblank {text : List Char} (ht : IsBlank text) : ∀ c ∈ text, InSegment c := by
    intro c hc
    rcases ht c hc with rfl | rfl <;> decide
  intro c hc
  rcases List.mem_append.1 hc with hc | hc
  · rcases List.mem_append.1 hc with hc | hc
    · exact hblank hpad c hc
    · rcases List.mem_append.1 hc with hc | hc
      · have hkey : ∀ c ∈ "filename*=".toList, InSegment c :=
          List.all_iff_forall_prop.1 (by decide)
        exact hkey c hc
      · exact (h.value_chars c hc).1
  · exact hblank hpadAfter c hc

theorem extendedName_segment (h : IsExtended charset language encoded name) (hpad : IsBlank pad)
    (hpadAfter : IsBlank padAfter) :
    extendedName (extendedSegment pad (extendedValue charset language encoded) padAfter) =
      if language = [] then some name else none := by
  rw [extendedName, trimMatches_segment h hpad hpadAfter,
    List.dropPrefix?_append_of_beq _ (beq_self_eq_true _), Option.bind_some]
  split
  case isTrue he =>
    cases he
    exact h.decode_untagged
  case isFalse hne => exact h.decode_tagged hne

theorem plainName_segment (h : IsExtended charset language encoded name) (hpad : IsBlank pad)
    (hpadAfter : IsBlank padAfter) (fallback : Option String) :
    plainName fallback (extendedSegment pad (extendedValue charset language encoded) padAfter) =
      fallback := by
  simp only [plainName, trimMatches_segment h hpad hpadAfter,
    List.dropPrefix?_append_of_beq _ (beq_self_eq_true "filename*=".toList)]

theorem map_asciiBytes (h : ∀ c ∈ text, InSegment c) :
    (asciiBytes text).map (fun byte => Char.ofNat byte.toNat) = text := by
  rw [asciiBytes, List.map_map]
  conv_rhs => rw [← List.map_id text]
  apply List.map_congr_left
  intro c hc
  have hlt : c.toNat < 256 := Nat.lt_trans (h c hc).ascii (by decide)
  change Char.ofNat (UInt8.ofNat c.toNat).toNat = c
  rw [UInt8.toNat_ofNat_of_lt' hlt, Char.ofNat_toNat]

theorem all_asciiBytes (h : ∀ c ∈ text, InSegment c) :
    (asciiBytes text).all isVisibleAscii = true := by
  rw [asciiBytes, List.all_map]
  exact List.all_eq_true.2 fun c hc => (h c hc).visible

theorem splitOn_segments {segment : List Char} (before : List Char) (hsegment : ';' ∉ segment)
    (after : Option (List Char)) :
    ((before ++ ';' :: segment ++ (after.map (';' :: ·)).getD []).splitOn ';').drop 1 =
      (before.splitOn ';').drop 1 ++ segment :: (after.map (·.splitOn ';')).getD [] := by
  have hlen : 1 ≤ (before.splitOn ';').length :=
    List.length_pos_iff.2 (List.splitOn_ne_nil _ _)
  rw [List.append_assoc, List.cons_append, List.splitOn_append_cons_self,
    List.drop_append_of_le_length hlen]
  cases after with
  | none =>
    rw [Option.map_none, Option.getD_none, List.append_nil, List.splitOn_eq_singleton hsegment]
    rfl
  | some rest =>
    rw [Option.map_some, Option.getD_some, List.splitOn_append_cons_self_of_not_mem hsegment]
    rfl

theorem all_extendedHeader (h : IsExtended charset language encoded name) (hpad : IsBlank pad)
    (hpadAfter : IsBlank padAfter) (before : List UInt8) (after : Option (List UInt8)) :
    (extendedHeader before pad (extendedValue charset language encoded) padAfter
      after).all isVisibleAscii = (before ++ after.getD []).all isVisibleAscii := by
  have hsegment := inSegment_segment h hpad hpadAfter
  have hown : (asciiBytes (';' :: extendedSegment pad (extendedValue charset language encoded)
      padAfter)).all isVisibleAscii = true :=
    Bool.and_eq_true_iff.2 ⟨rfl, all_asciiBytes hsegment⟩
  rw [extendedHeader, List.all_append, List.all_append, hown, Bool.and_true, List.all_append]
  cases after <;> rfl

theorem toText_extendedHeader (h : IsExtended charset language encoded name) (hpad : IsBlank pad)
    (hpadAfter : IsBlank padAfter) (before : List UInt8) (after : Option (List UInt8)) :
    let segment := extendedSegment pad (extendedValue charset language encoded) padAfter
    let toText (bytes : List UInt8) := bytes.map fun byte => Char.ofNat byte.toNat
    toText (extendedHeader before pad (extendedValue charset language encoded) padAfter after) =
      toText before ++ ';' :: segment ++ ((after.map toText).map (';' :: ·)).getD [] := by
  intro segment toText
  have htext : toText (asciiBytes (';' :: segment)) = ';' :: segment :=
    congrArg (';' :: ·) (map_asciiBytes (inSegment_segment h hpad hpadAfter))
  simp only [toText, extendedHeader, List.map_append]
  apply congrArg₂
  · exact congrArg (toText before ++ ·) htext
  · cases after <;> rfl

/-- What a header is read as: the segments before the extended name, its own, and those behind. -/
theorem parse_extendedHeader (hread : ReadsVisibleAscii toStr)
    (h : IsExtended charset language encoded name) (hpad : IsBlank pad) (hpadAfter : IsBlank padAfter)
    (before : List UInt8) (after : Option (List UInt8))
    (hvisible : (before ++ after.getD []).all isVisibleAscii = true) :
    parseContentDispositionHeader toStr
        (extendedHeader before pad (extendedValue charset language encoded) padAfter after) =
      .ok (fileNameOfSegments none (segmentsBefore before ++
        extendedSegment pad (extendedValue charset language encoded) padAfter ::
          segmentsAfter after)) := by
  have hsemicolon : ';' ∉ extendedSegment pad (extendedValue charset language encoded) padAfter :=
    fun hm => (inSegment_segment h hpad hpadAfter _ hm).notSemicolon rfl
  have hsplit := splitOn_segments (before.map fun byte => Char.ofNat byte.toNat) hsemicolon
    (after.map fun bytes => bytes.map fun byte => Char.ofNat byte.toNat)
  have htext := toText_extendedHeader h hpad hpadAfter before after
  dsimp only at htext
  rw [parseContentDispositionHeader,
    hread.reads _ ((all_extendedHeader h hpad hpadAfter before after).trans hvisible), htext]
  simp only [bind, Except.bind, hsplit]
  cases after <;> rfl

theorem parse_extendedHeader_fails (hread : ReadsVisibleAscii toStr)
    (h : IsExtended charset language encoded name) (hpad : IsBlank pad) (hpadAfter : IsBlank padAfter)
    (before : List UInt8) (after : Option (List UInt8))
    (hvisible : (before ++ after.getD []).all isVisibleAscii = false) :
    ∃ err, parseContentDispositionHeader toStr
      (extendedHeader before pad (extendedValue charset language encoded) padAfter after) =
        .error err := by
  obtain ⟨err, herr⟩ := hread.refuses _
    ((all_extendedHeader h hpad hpadAfter before after).trans hvisible)
  rw [parseContentDispositionHeader, herr]
  exact ⟨err, rfl⟩

/-- A header with an extended name gives the name exactly when the extended name counts; and the
percent decoder undoes every encoding of every list of bytes. -/
theorem extended_name_decodes_iff (hread : ReadsVisibleAscii toStr)
    (h : IsExtended charset language encoded name) (hpad : IsBlank pad) (hpadAfter : IsBlank padAfter)
    (before : List UInt8) (after : Option (List UInt8)) :
    (parseContentDispositionHeader toStr
        (extendedHeader before pad (extendedValue charset language encoded) padAfter after) =
        .ok (some name) ↔ ExtendedNameCounts before language after name) ∧
      ∀ bytes text, Percent.Encodes StandsForItself bytes text →
        percentDecodeBytes (String.ofList text).toUTF8.data.toList = some bytes := by
  refine ⟨?_, fun _ _ => percentDecodeBytes_toUTF8⟩
  have hfold : (segmentsBefore before ++
      extendedSegment pad (extendedValue charset language encoded) padAfter ::
        segmentsAfter after).foldl plainName none =
      (segmentsBefore before ++ segmentsAfter after).foldl plainName none := by
    rw [List.foldl_append, List.foldl_cons, plainName_segment h hpad hpadAfter, List.foldl_append]
  rw [ExtendedNameCounts, ← List.all_eq_true]
  cases hv : (before ++ after.getD []).all isVisibleAscii with
  | false =>
    obtain ⟨err, herr⟩ := parse_extendedHeader_fails hread h hpad hpadAfter before after hv
    rw [herr]
    exact iff_of_false nofun fun hc => Bool.false_ne_true hc.1
  | true =>
    rw [parse_extendedHeader hread h hpad hpadAfter before after hv, fileNameOfSegments_eq, hfold,
      List.findSome?_append, List.findSome?_cons, extendedName_segment h hpad hpadAfter,
      and_iff_right rfl, Except.ok.injEq]
    cases hbefore : (segmentsBefore before).findSome? extendedName with
    | some other => simp
    | none =>
      by_cases hl : language = []
      · simp [hl]
      · cases (segmentsAfter after).findSome? extendedName <;> simp [hl]

end

/-- The shortest encoding of a byte. -/
def attrChar (byte : UInt8) : Option Char :=
  let c := Char.ofNat byte.toNat
  if isAttrChar c then some c else none

theorem encode_attrChar (bytes : List UInt8) :
    Percent.Encodes StandsForItself bytes (Percent.encode attrChar bytes) := by
  have hcodes : ∀ code < 256, UInt8.ofNat (Char.ofNat code).toNat = .ofNat code := by
    decide +kernel
  apply (Percent.encode_encodes attrChar bytes).imp
  intro byte c h
  simp only [attrChar, Option.ite_none_right_eq_some, Option.some.injEq] at h
  obtain ⟨hattr, rfl⟩ := h
  refine ⟨hattr, ?_⟩
  rw [hcodes byte.toNat byte.toNat_lt, UInt8.ofNat_toNat]

theorem isExtended_naive (language : List Char) (hlang : IsLanguageTag language) :
    IsExtended "Utf-8".toList language "na%C3%AFve.txt".toList "naïve.txt" := by
  refine ⟨by decide, hlang, ?_⟩
  have henc : Percent.encode attrChar "naïve.txt".toUTF8.data.toList =
      "na%C3%AFve.txt".toList := by decide +kernel
  rw [← henc]
  exact encode_attrChar _

theorem isBlank_nil : IsBlank [] := fun _ hc => absurd hc List.not_mem_nil

theorem isBlank_space : IsBlank [' '] := fun _ hc => .inl (List.mem_singleton.1 hc)

/-- Plain names stand before the extended one and behind it. -/
theorem untagged_name_decodes :
    parseContentDispositionHeader headerToStr
        "inline; filename=\"a.txt\"; filename*=Utf-8''na%C3%AFve.txt; filename=b".toUTF8.data.toList =
        .ok (some "naïve.txt") ∧
      ∀ bytes text, Percent.Encodes StandsForItself bytes text →
        percentDecodeBytes (String.ofList text).toUTF8.data.toList = some bytes := by
  have h := isExtended_naive [] fun _ hc => absurd hc List.not_mem_nil
  have hname := extended_name_decodes_iff headerToStr_reads h isBlank_space isBlank_nil
    "inline; filename=\"a.txt\"".toUTF8.data.toList (some " filename=b".toUTF8.data.toList)
  have hheader : extendedHeader "inline; filename=\"a.txt\"".toUTF8.data.toList [' ']
      (extendedValue "Utf-8".toList [] "na%C3%AFve.txt".toList) []
      (some " filename=b".toUTF8.data.toList) =
      "inline; filename=\"a.txt\"; filename*=Utf-8''na%C3%AFve.txt; filename=b".toUTF8.data.toList := by
    decide +kernel
  rw [hheader] at hname
  refine ⟨hname.1.2 ⟨by decide +kernel, .inr ⟨by decide +kernel, .inl rfl⟩⟩, hname.2⟩

/-- The same name with a language tag. -/
theorem tagged_name_is_lost :
    IsExtended "UTF-8".toList "en".toList "na%C3%AFve.txt".toList "naïve.txt" ∧
      extendedHeader "inline".toUTF8.data.toList [' ']
          (extendedValue "UTF-8".toList "en".toList "na%C3%AFve.txt".toList) [] none =
        "inline; filename*=UTF-8'en'na%C3%AFve.txt".toUTF8.data.toList ∧
      parseContentDispositionHeader headerToStr
        "inline; filename*=UTF-8'en'na%C3%AFve.txt".toUTF8.data.toList = .ok none := by
  refine ⟨⟨by decide, ?_, (isExtended_naive [] fun _ hc => absurd hc List.not_mem_nil).encoded⟩,
    by decide +kernel, by decide +kernel⟩
  exact List.all_iff_forall_prop.1 (by decide)

end Paradown
