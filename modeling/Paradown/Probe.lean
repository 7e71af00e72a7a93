import Paradown.FileName
import Paradown.Magnet

namespace Paradown
set_option autoImplicit true

def DownloadSpec.scheme : DownloadSpec → String
  | .http _ => "http"
  | .https _ => "https"
  | .ftp _ => "ftp"
  | .torrentFile _ => "torrent"
  | .magnet _ => "magnet"
  | .metadata _ _ => "metadata"

/-- The parts of an answer that the probe reads. -/
structure ProbeAnswer where
  status : Nat
  statusText : String
  contentLength : Option (List UInt8)
  acceptRanges : Option (List UInt8)
  contentRange : Option (List UInt8)
  entityTag : Option (List UInt8)
  lastModified : Option (List UInt8)
  naming : NamingHeaders

structure DownloadProtocolProbe where
  totalSize : Option Nat
  supportsRangeRequests : Bool
  resourceIdentity : HttpResourceIdentity
  suggestedFileName : Option String
  deriving DecidableEq, Repr

structure HeadProbe where
  totalSize : Option Nat
  acceptsRanges : Bool
  resourceIdentity : HttpResourceIdentity
  suggestedFileName : Option String

/-- `str::parse::<u64>`, with the texts of its errors. -/
def parseU64Text (text : List Char) : Except String Nat :=
  match text with
  | [] => .error "cannot parse integer from empty string"
  | ['+'] => .error "invalid digit found in string"
  | '+' :: digits => parseDigits (2 ^ 64) 0 digits
  | digits => parseDigits (2 ^ 64) 0 digits

section
variable (toStr : List UInt8 → Except Error (List Char)) (lastSegment : String → Option String)

def parseContentLength : Option (List UInt8) → Except Error (Option Nat)
  | none => .ok none
  | some value => do
    let text ← toStr value
    match parseU64Text text with
    | .error message => .error (.parse message)
    | .ok length => .ok (some length)

def headerAcceptsRanges (value : Option (List UInt8)) : Bool :=
  match value.map toStr with
  | some (.ok text) => (splitOnText "bytes".toList (text.map Char.toLower)).isSome
  | _ => false

def parseUnsatisfiedContentRange (value : List Char) : Option Nat := do
  let size ← (trim (String.ofList value)).toList.dropPrefix? "bytes */".toList
  parseU64 size

/-- A header that must be readable where it is there. -/
def headerText : Option (List UInt8) → Except Error (Option String)
  | none => .ok none
  | some value => (toStr value).map fun text => some (String.ofList text)

def ProbeAnswer.extractResourceIdentity (r : ProbeAnswer) : Except Error HttpResourceIdentity := do
  let entityTag ← headerText toStr r.entityTag
  let lastModified ← headerText toStr r.lastModified
  .ok ⟨some r.naming.url, entityTag, lastModified⟩

def mergeResourceIdentity (head : Option HttpResourceIdentity) (response : HttpResourceIdentity) :
    HttpResourceIdentity where
  resolvedUrl := response.resolvedUrl <|> head.bind (·.resolvedUrl)
  entityTag := response.entityTag <|> head.bind (·.entityTag)
  lastModified := response.lastModified <|> head.bind (·.lastModified)

/-- What the answer to the range request says of the size and of ranges. -/
def ProbeAnswer.sizeAndRanges (r : ProbeAnswer) (head : Option HeadProbe) :
    Except Error (Option Nat × Bool) :=
  if r.status = 206 then
    match r.contentRange with
    | none => .error (.other "Missing Content-Range")
    | some value => do
      let text ← toStr value
      match parseContentRange (String.ofList text) with
      | none => .error (.other "Invalid Content-Range")
      | some range => .ok (range.totalSize, true)
  else if r.status = 200 then do
    let length ← parseContentLength toStr r.contentLength
    .ok (length <|> head.bind (·.totalSize), false)
  else if r.status = 416 then
    let size := (r.contentRange.bind fun value => (toStr value).toOption).bind
      parseUnsatisfiedContentRange
    let totalSize := size <|> head.bind (·.totalSize)
    .ok (totalSize, totalSize.any (0 < ·))
  else .error (.other s!"Failed to probe download target: {r.statusText}")

def probeWithRangeResponse (r : ProbeAnswer) (head : Option HeadProbe) :
    Except Error DownloadProtocolProbe := do
  let (totalSize, supportsRangeRequests) ← r.sizeAndRanges toStr head
  let identity ← r.extractResourceIdentity toStr
  let suggested ← r.naming.extractSuggestedFileName toStr lastSegment
  .ok ⟨totalSize, supportsRangeRequests,
    mergeResourceIdentity (head.map (·.resourceIdentity)) identity,
    suggested <|> head.bind (·.suggestedFileName)⟩

/-- A `HEAD` request that is not answered, or not with success, tells nothing. -/
def probeWithHead : Option ProbeAnswer → Except Error (Option HeadProbe)
  | none => .ok none
  | some r =>
    if 200 ≤ r.status ∧ r.status < 300 then do
      let totalSize ← parseContentLength toStr r.contentLength
      let identity ← r.extractResourceIdentity toStr
      let suggested ← r.naming.extractSuggestedFileName toStr lastSegment
      .ok (some ⟨totalSize, headerAcceptsRanges toStr r.acceptRanges, identity, suggested⟩)
    else .ok none

/-- The probe, with what becomes of its two requests: the second is sent when the first has not
told that the resource is empty. An error is one of the request options, or of the connection. -/
def probeDownloadTarget (head : Except Error (Option ProbeAnswer))
    (range : Except Error ProbeAnswer) : Except Error DownloadProtocolProbe := do
  let head ← probeWithHead toStr lastSegment (← head)
  match head with
  | some h =>
    if h.totalSize = some 0 then
      .ok ⟨some 0, h.acceptsRanges, h.resourceIdentity, h.suggestedFileName⟩
    else probeWithRangeResponse toStr lastSegment (← range) head
  | none => probeWithRangeResponse toStr lastSegment (← range) head

end

/-- The text of a `Content-Range` header. -/
def contentRangeText (start endByte : Nat) (totalSize : Option Nat) : String :=
  "bytes " ++ toString start ++ "-" ++ toString endByte ++ "/" ++
    match totalSize with
    | some size => toString size
    | none => "*"

theorem toList_toString (n : Nat) : (toString n).toList = Nat.toDigits 10 n := by
  rw [Nat.toString_eq_repr, Nat.toList_repr]

theorem isDigit_toDigits (n : Nat) : ∀ c ∈ Nat.toDigits 10 n, c.isDigit = true := fun _ hc =>
  Nat.isDigit_of_mem_toDigits (by decide) (by decide) hc

theorem not_mem_toDigits (n : Nat) (h : c.isDigit = false) : c ∉ Nat.toDigits 10 n := by
  intro hm
  rw [isDigit_toDigits n c hm] at h
  cases h

theorem toDigits_ne_plus (n : Nat) (rest : List Char) : Nat.toDigits 10 n ≠ '+' :: rest := by
  intro h
  exact not_mem_toDigits (c := '+') n rfl (h ▸ List.mem_cons_self)

theorem parseU64_toDigits (h : n < 2 ^ 64) : parseU64 (Nat.toDigits 10 n) = some n := by
  have hne : (Nat.toDigits 10 n).isEmpty = false := by
    rw [List.isEmpty_eq_false_iff]
    exact Nat.toDigits_ne_nil
  have hall : (Nat.toDigits 10 n).all Char.isDigit = true := List.all_eq_true.2 (isDigit_toDigits n)
  have hvalue : (Nat.toDigits 10 n).foldl (fun n d => n * 10 + (d.toNat - '0'.toNat)) 0 = n := by
    have hfold := Nat.ofDigitChars_ten_toDigits (n := n)
    unfold Nat.ofDigitChars at hfold
    simp only [Nat.mul_comm 10] at hfold
    exact hfold
  unfold parseU64
  split
  case h_1 rest hplus => exact absurd hplus (toDigits_ne_plus n rest)
  case h_2 => simp only [hne, hall, hvalue, if_pos h, Bool.not_true, Bool.or_self,
    Bool.false_eq_true, if_false]

theorem parseU64Text_toDigits (h : n < 2 ^ 64) : parseU64Text (Nat.toDigits 10 n) = .ok n := by
  have hlt : Nat.ofDigitChars 10 (Nat.toDigits 10 n) 0 < 2 ^ 64 := by
    rw [Nat.ofDigitChars_ten_toDigits]
    exact h
  have hparse := parseDigits_of_lt (isDigit_toDigits n) hlt
  rw [Nat.ofDigitChars_ten_toDigits] at hparse
  unfold parseU64Text
  split
  case h_1 hnil => exact absurd hnil Nat.toDigits_ne_nil
  case h_2 hplus => exact absurd hplus (toDigits_ne_plus n [])
  case h_3 hplus => exact absurd hplus (toDigits_ne_plus n _)
  case h_4 => exact hparse

theorem trim_ofList (hc : isWhiteSpace c = false) (hne : back ≠ [])
    (hback : ∀ d ∈ back, isWhiteSpace d = false) :
    trim (String.ofList (c :: (front ++ back))) = String.ofList (c :: (front ++ back)) := by
  obtain ⟨init, d, rfl⟩ : ∃ init d, back = init ++ [d] :=
    ⟨_, _, (List.dropLast_append_getLast hne).symm⟩
  have hd := hback d (List.mem_append_right init List.mem_cons_self)
  rw [trim, String.toList_ofList, List.dropWhile_cons_of_neg (by rw [hc]; exact Bool.false_ne_true)]
  congr 1
  simp [List.dropWhile_cons_of_neg, hd]

/-- The last part of a `Content-Range` text: a size, or that it is unknown. -/
def totalText : Option Nat → List Char
  | some size => Nat.toDigits 10 size
  | none => ['*']

theorem contentRangeText_toList (first last : Nat) (totalSize : Option Nat) :
    (contentRangeText first last totalSize).toList = 'b' :: 'y' :: 't' :: 'e' :: 's' :: ' ' ::
      (Nat.toDigits 10 first ++ '-' :: (Nat.toDigits 10 last ++ '/' :: totalText totalSize)) := by
  unfold contentRangeText
  simp only [String.toList_append, toList_toString, List.append_assoc]
  cases totalSize with
  | some size =>
    rw [toList_toString]
    rfl
  | none => rfl

theorem totalText_plain (totalSize : Option Nat) :
    totalText totalSize ≠ [] ∧ ∀ c ∈ totalText totalSize, isWhiteSpace c = false := by
  cases totalSize with
  | some size =>
    exact ⟨Nat.toDigits_ne_nil, fun c hc => isWhiteSpace_of_isDigit (isDigit_toDigits size c hc)⟩
  | none =>
    refine ⟨List.cons_ne_nil _ _, fun c hc => ?_⟩
    rw [List.mem_singleton.1 hc]
    rfl

/-- What a `Content-Range` header says is read from its text. -/
theorem parseContentRange_text (hf : first < 2 ^ 64) (hl : last < 2 ^ 64)
    (ht : ∀ size ∈ totalSize, size < 2 ^ 64) :
    parseContentRange (contentRangeText first last totalSize) =
      some ⟨first, last, totalSize⟩ := by
  have htext := contentRangeText_toList first last totalSize
  obtain ⟨hne, hplain⟩ := totalText_plain totalSize
  have htrim : trim (contentRangeText first last totalSize) =
      contentRangeText first last totalSize := by
    have h : trim (String.ofList ('b' :: (('y' :: 't' :: 'e' :: 's' :: ' ' ::
        (Nat.toDigits 10 first ++ '-' :: (Nat.toDigits 10 last ++ ['/']))) ++
          totalText totalSize))) = _ :=
      trim_ofList rfl hne hplain
    simp only [List.cons_append, List.append_assoc, List.nil_append] at h
    rw [← htext, String.ofList_toList] at h
    exact h
  have hslash : '/' ∉ Nat.toDigits 10 first ++ '-' :: Nat.toDigits 10 last := by
    simp only [List.mem_append, List.mem_cons, not_or]
    exact ⟨not_mem_toDigits first rfl, by decide, not_mem_toDigits last rfl⟩
  have hminus := not_mem_toDigits (c := '-') first rfl
  have hparts : Nat.toDigits 10 first ++ '-' :: (Nat.toDigits 10 last ++ '/' :: totalText totalSize)
      = (Nat.toDigits 10 first ++ '-' :: Nat.toDigits 10 last) ++ '/' :: totalText totalSize := by
    rw [List.append_assoc, List.cons_append]
  unfold parseContentRange
  rw [htrim, htext, hparts]
  simp only [bind, Option.bind, splitOnce_append hslash, splitOnce_append hminus,
    parseU64_toDigits hf, parseU64_toDigits hl]
  cases totalSize with
  | none => rfl
  | some size =>
    have hstar : Nat.toDigits 10 size ≠ ['*'] := by
      intro h
      exact not_mem_toDigits (c := '*') size rfl (h ▸ List.mem_cons_self)
    simp only [totalText, if_neg hstar, parseU64_toDigits (ht size rfl), pure]

end Paradown
