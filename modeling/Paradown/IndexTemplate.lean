import Paradown.FileName
import Paradown.Magnet
import Paradown.Placeholder

namespace Paradown
set_option autoImplicit true

open Placeholder

inductive IndexToken where
  | btih
  | infoHash
  | displayName
  | query
  | locator
  deriving DecidableEq, Repr

def IndexToken.name : IndexToken → String
  | .btih => "btih"
  | .infoHash => "info_hash"
  | .displayName => "display_name"
  | .query => "query"
  | .locator => "locator"

/-- A placeholder is the name of a token in braces. -/
def indexMarks : Marks Char IndexToken where
  opening := '\x7b'
  closing := '\x7d'
  name token := token.name.toList
  opening_notMem token := by cases token <;> decide
  closing_notMem token := by cases token <;> decide
  opening_ne_closing := by decide
  injective t u := by cases t <;> cases u <;> decide

section
-- `form_urlencoded::byte_serialize`; and `Url::parse`, of which the query pairs and the last of the
-- `path_segments` are read.
variable (byteSerialize : List UInt8 → List Char) (parseUrl : String → Except Error ParsedUrl)
  (lastSegment : String → Option String)

def btihFromSpec : DownloadSpec → Option String
  | .magnet uri =>
    match MagnetLink.parse parseUrl uri with
    | .ok magnet =>
      magnet.exactTopics.findSome? fun
        | .btih hash => some hash
        | _ => none
    | .error _ => none
  | .metadata _ infoHash => infoHash
  | _ => none

def indexLocator : DownloadSpec → Option String
  | .metadata _ _ => none
  | spec => some spec.locator

def indexValue (spec : DownloadSpec) : IndexToken → Option String
  | .btih | .infoHash => btihFromSpec parseUrl spec
  | .displayName => spec.fileNameHint lastSegment
  | .query => spec.fileNameHint lastSegment <|> btihFromSpec parseUrl spec <|> indexLocator spec
  | .locator => indexLocator spec

def urlEncode (value : String) : List Char := byteSerialize value.toUTF8.data.toList

def indexText (spec : DownloadSpec) (token : IndexToken) : Option (List Char) :=
  (indexValue parseUrl lastSegment spec token).map (urlEncode byteSerialize)

/-- One placeholder after the other is replaced wherever it stands in what the ones before it left. -/
def expandIndexUrlTemplate (template : String) (spec : DownloadSpec) : Option String :=
  let expanded := trim template
  if expanded = "" then none
  else
    let tokens := [IndexToken.btih, .infoHash, .displayName, .query, .locator]
    ((tokens.map fun token =>
        (token, indexText byteSerialize parseUrl lastSegment spec token)).foldlM
      indexMarks.replaceMarks expanded.toList).map String.ofList

/-- A query string with these pairs of names and values. -/
def queryText (pairs : List (String × String)) : List Char :=
  ['&'].intercalate
    (pairs.map fun pair => urlEncode byteSerialize pair.1 ++ '=' :: urlEncode byteSerialize pair.2)

/-- What `form_urlencoded` is documented to do: a byte is written as a letter, a digit, one of a few
other marks, or escaped, and the pairs of a query string are read as they were written. -/
structure FormUrlencoded (parse : List Char → List (String × String)) : Prop where
  plain : ∀ bytes, indexMarks.opening ∉ byteSerialize bytes
  parses : ∀ pairs, parse (queryText byteSerialize pairs) = pairs

/-- The parts of a query string whose values are all placeholders. -/
def fieldParts : List (String × IndexToken) → List (Part Char IndexToken)
  | [] => []
  | [field] => [.literal (urlEncode byteSerialize field.1 ++ ['=']), .mark field.2]
  | field :: next :: fields =>
    .literal (urlEncode byteSerialize field.1 ++ ['=']) :: .mark field.2 :: .literal ['&'] ::
      fieldParts (next :: fields)

/-- A template for an address and the query string behind it. -/
def queryParts (base : List Char) (fields : List (String × IndexToken)) :
    List (Part Char IndexToken) :=
  .literal (base ++ ['?']) :: fieldParts byteSerialize fields

end

theorem literal_not_opening : ∀ byte < 256, (Urlencoded.literal (.ofNat byte)).all fun c =>
    c ≠ '\x7b' := by
  decide +kernel

theorem percent_encode_plain (bytes : List UInt8) :
    indexMarks.opening ∉ Percent.encode Urlencoded.literal bytes := by
  intro hm
  have hall := (Percent.encode_encodes Urlencoded.literal bytes).forall_mem
    (p := fun c => c ≠ '\x7b') ?_ (by decide) ?_
  · exact hall _ hm rfl
  · intro byte c h
    have hbyte := literal_not_opening byte.toNat byte.toNat_lt
    rw [UInt8.ofNat_toNat, h] at hbyte
    exact of_decide_eq_true hbyte
  · rintro c value hc rfl
    cases hc

theorem urlencoded_formUrlencoded :
    FormUrlencoded (Percent.encode Urlencoded.literal) Urlencoded.parse where
  plain := percent_encode_plain
  parses := Urlencoded.parse_serialize

section
variable {byteSerialize : List UInt8 → List Char}
  {parseQuery : List Char → List (String × String)}

theorem indexText_plain (hform : FormUrlencoded byteSerialize parseQuery)
    (h : indexText byteSerialize parseUrl lastSegment spec token = some text) :
    indexMarks.opening ∉ text := by
  obtain ⟨value, _, rfl⟩ := Option.map_eq_some_iff.1 h
  exact hform.plain _

theorem expandIndexUrlTemplate_eq {parts : List (Part Char IndexToken)}
    (hform : FormUrlencoded byteSerialize parseQuery)
    (htext : (trim template).toList = indexMarks.write parts) (hplain : indexMarks.Plain parts)
    (hne : indexMarks.write parts ≠ []) :
    expandIndexUrlTemplate byteSerialize parseUrl lastSegment template spec =
      (parts.mapM (Part.resolve (indexText byteSerialize parseUrl lastSegment spec))).map
        fun texts => String.ofList texts.flatten := by
  have hblank : trim template ≠ "" := by
    intro he
    rw [he] at htext
    exact hne htext.symm
  have hall : ∀ token, .mark token ∈ parts →
      token ∈ [IndexToken.btih, .infoHash, .displayName, .query, .locator] := by
    intro token _
    cases token <;> decide
  have hvalue : ∀ token text,
      indexText byteSerialize parseUrl lastSegment spec token = some text →
        indexMarks.opening ∉ text := fun _ _ h => indexText_plain hform h
  have hexpand := Marks.replaceMarks_write hplain hall hvalue
  rw [expandIndexUrlTemplate, if_neg hblank, htext]
  exact (congrArg (Option.map String.ofList) hexpand).trans (Option.map_map _ _ _)

/-- The values of the fields, in their order, where all are known. -/
def fieldValues (value : IndexToken → Option String) :
    List (String × IndexToken) → Option (List (String × String))
  | [] => some []
  | field :: fields =>
    (value field.2).bind fun text => (fieldValues value fields).map ((field.1, text) :: ·)

theorem fieldValues_cons_ne_nil (h : fieldValues value (field :: fields) = some pairs) :
    pairs ≠ [] := by
  obtain ⟨text, _, hrest⟩ := Option.bind_eq_some_iff.1 h
  obtain ⟨rest, _, rfl⟩ := Option.map_eq_some_iff.1 hrest
  exact List.cons_ne_nil _ _

theorem queryText_singleton (pair : String × String) :
    queryText byteSerialize [pair] =
      urlEncode byteSerialize pair.1 ++ ['='] ++ urlEncode byteSerialize pair.2 := by
  simp [queryText, List.intercalate]

theorem queryText_cons (pair : String × String) {pairs : List (String × String)}
    (hne : pairs ≠ []) :
    queryText byteSerialize (pair :: pairs) =
      urlEncode byteSerialize pair.1 ++ ['='] ++ (urlEncode byteSerialize pair.2 ++
        (['&'] ++ queryText byteSerialize pairs)) := by
  cases pairs with
  | nil => exact absurd rfl hne
  | cons next pairs => simp [queryText, List.intercalate]

theorem fieldParts_resolve (value : IndexToken → Option String)
    (fields : List (String × IndexToken)) :
    ((fieldParts byteSerialize fields).mapM
        (Part.resolve fun token => (value token).map (urlEncode byteSerialize))).map List.flatten =
      (fieldValues value fields).map (queryText byteSerialize) := by
  induction fields using fieldParts.induct with
  | case1 => rfl
  | case2 field =>
    cases hv : value field.2 with
    | none => simp [fieldParts, fieldValues, List.mapM_cons, Part.resolve, hv]
    | some text =>
      simp [fieldParts, fieldValues, List.mapM_cons, Part.resolve, hv, queryText_singleton]
  | case3 field next fields ih =>
    rw [fieldValues]
    cases hv : value field.2 with
    | none => simp [fieldParts, List.mapM_cons, Part.resolve, hv]
    | some text =>
      rw [Option.bind_some, Option.map_map]
      cases hp : fieldValues value (next :: fields) with
      | none =>
        rw [hp, Option.map_none, Option.map_eq_none_iff] at ih
        simp [fieldParts, List.mapM_cons, Part.resolve, hv, ih]
      | some pairs =>
        rw [hp, Option.map_some] at ih
        obtain ⟨texts, htexts, hflat⟩ := Option.map_eq_some_iff.1 ih
        simp [fieldParts, List.mapM_cons, Part.resolve, hv, htexts, hflat,
          queryText_cons (field.1, text) (fieldValues_cons_ne_nil hp)]

theorem plain_cons_literal {parts : List (Part Char IndexToken)} (h : indexMarks.Plain parts)
    (htext : indexMarks.opening ∉ text) : indexMarks.Plain (.literal text :: parts) := by
  intro other ho
  rcases List.mem_cons.1 ho with he | ho
  · cases he
    exact htext
  · exact h other ho

theorem plain_cons_mark {parts : List (Part Char IndexToken)} (h : indexMarks.Plain parts)
    (token : IndexToken) : indexMarks.Plain (.mark token :: parts) := by
  intro other ho
  rcases List.mem_cons.1 ho with he | ho
  · cases he
  · exact h other ho

theorem fieldParts_plain (hform : FormUrlencoded byteSerialize parseQuery)
    (fields : List (String × IndexToken)) : indexMarks.Plain (fieldParts byteSerialize fields) := by
  have hkey (key : String) : indexMarks.opening ∉ urlEncode byteSerialize key ++ ['='] := by
    rw [List.mem_append, not_or]
    exact ⟨hform.plain _, by decide⟩
  induction fields using fieldParts.induct with
  | case1 => exact fun text ht => absurd ht List.not_mem_nil
  | case2 field =>
    have hnil : indexMarks.Plain [] := fun text ht => absurd ht List.not_mem_nil
    exact plain_cons_literal (plain_cons_mark hnil _) (hkey _)
  | case3 field next fields ih =>
    have hopen : indexMarks.opening ∉ ['&'] := by decide
    have hamp := plain_cons_literal ih hopen
    exact plain_cons_literal (plain_cons_mark hamp _) (hkey _)

end

/-- Whatever is known of a torrent, a template of placeholders and of text without braces expands to
its text with the encoded values in place of all placeholders at once, and to nothing exactly when a
placeholder has no value; where the placeholders are the values of a query string, the server reads
from the URL the fields with these values. -/
theorem index_template_expands (byteSerialize : List UInt8 → List Char)
    (parseQuery : List Char → List (String × String))
    (hform : FormUrlencoded byteSerialize parseQuery) (parseUrl : String → Except Error ParsedUrl)
    (lastSegment : String → Option String) (spec : DownloadSpec) (template : String)
    (parts : List (Part Char IndexToken)) (htext : (trim template).toList = indexMarks.write parts)
    (hplain : indexMarks.Plain parts) (hne : indexMarks.write parts ≠ []) :
    let value := indexValue parseUrl lastSegment spec
    let url := expandIndexUrlTemplate byteSerialize parseUrl lastSegment template spec
    (url = none ↔ ∃ token, .mark token ∈ parts ∧ value token = none) ∧
    (∀ texts,
      parts.mapM (Part.resolve fun token => (value token).map (urlEncode byteSerialize)) =
          some texts →
        url = some (String.ofList texts.flatten)) ∧
    ∀ base fields, parts = queryParts byteSerialize base fields →
      ∀ expanded, url = some expanded →
        ∃ query, expanded.toList = base ++ '?' :: query ∧
          fieldValues value fields = some (parseQuery query) := by
  intro value url
  have hurl : url =
      (parts.mapM (Part.resolve (indexText byteSerialize parseUrl lastSegment spec))).map
        fun texts => String.ofList texts.flatten := expandIndexUrlTemplate_eq hform htext hplain hne
  refine ⟨?_, ?_, ?_⟩
  · rw [hurl, Option.map_eq_none_iff, mapM_eq_none_iff]
    constructor
    · rintro ⟨part, hm, hnone⟩
      cases part with
      | literal text => cases hnone
      | mark token => exact ⟨token, hm, Option.map_eq_none_iff.1 hnone⟩
    · rintro ⟨token, hm, hnone⟩
      exact ⟨.mark token, hm, Option.map_eq_none_iff.2 hnone⟩
  · intro texts htexts
    rw [hurl]
    exact congrArg (Option.map fun texts => String.ofList texts.flatten) htexts
  · rintro base fields rfl expanded hex
    have hfields : ((fieldParts byteSerialize fields).mapM
        (Part.resolve fun token => (value token).map (urlEncode byteSerialize))).map List.flatten =
          (fieldValues value fields).map (queryText byteSerialize) := fieldParts_resolve value fields
    rw [hex] at hurl
    obtain ⟨texts, htexts, rfl⟩ := Option.map_eq_some_iff.1 hurl.symm
    rw [queryParts, List.mapM_cons] at htexts
    obtain ⟨first, hfirst, htexts⟩ := Option.bind_eq_some_iff.1 htexts
    obtain ⟨rest, hrest, htexts⟩ := Option.bind_eq_some_iff.1 htexts
    cases hfirst
    cases htexts
    have hflat : (fieldValues value fields).map (queryText byteSerialize) = some rest.flatten := by
      rw [← hfields]
      exact congrArg (Option.map List.flatten) hrest
    obtain ⟨pairs, hpairs, hquery⟩ := Option.map_eq_some_iff.1 hflat
    refine ⟨queryText byteSerialize pairs, ?_, ?_⟩
    · rw [String.toList_ofList, List.flatten_cons, hquery, List.append_assoc]
      rfl
    · rw [hform.parses, hpairs]

/-- A template for a search by the name and the hash of a torrent. -/
def searchTemplate : String := " https://index.example/?q=\x7bdisplay_name\x7d&h=\x7bbtih\x7d"

theorem search_template_expands :
    expandIndexUrlTemplate (Percent.encode Urlencoded.literal) (fun uri => .error (.other uri))
        (fun _ => none) searchTemplate (.metadata (some "a b") (some "ff")) =
      some "https://index.example/?q=a+b&h=ff" ∧
      ∃ query, "https://index.example/?q=a+b&h=ff".toList =
          "https://index.example/".toList ++ '?' :: query ∧
        Urlencoded.parse query = [("q", "a b"), ("h", "ff")] := by
  have hplain : indexMarks.Plain (queryParts (Percent.encode Urlencoded.literal)
      "https://index.example/".toList [("q", .displayName), ("h", .btih)]) :=
    plain_cons_literal (fieldParts_plain urlencoded_formUrlencoded _) (by decide)
  have hexpand := index_template_expands (Percent.encode Urlencoded.literal) Urlencoded.parse
    urlencoded_formUrlencoded (fun uri => .error (.other uri)) (fun _ => none)
    (.metadata (some "a b") (some "ff")) searchTemplate _ (by decide) hplain
    (by decide)
  have hurl : expandIndexUrlTemplate (Percent.encode Urlencoded.literal)
      (fun uri => .error (.other uri)) (fun _ => none) searchTemplate
      (.metadata (some "a b") (some "ff")) = some "https://index.example/?q=a+b&h=ff" := by
    decide
  obtain ⟨query, hquery, hvalues⟩ := hexpand.2.2 _ _ rfl _ hurl
  exact ⟨hurl, query, hquery, (Option.some.inj hvalues).symm⟩

end Paradown
