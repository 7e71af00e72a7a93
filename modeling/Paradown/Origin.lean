import Paradown.Probe
import Paradown.Resumption
import Paradown.RetryBudget

namespace Paradown
set_option autoImplicit true

/-- A server of one resource. It may honour range requests or answer them with the whole. Which
validators it recognises in `If-Range` is its own affair: a weak entity tag is none of them, and
not every server takes its own `Last-Modified`. -/
structure Origin where
  resource : List UInt8
  entityTag : Option String
  lastModified : Option String
  honoursRanges : Bool
  recognises : String → Bool

/-- A header that says the text, where it is there. -/
def MaySay (toStr : List UInt8 → Except Error (List Char)) (header : Option (List UInt8))
    (text : List Char) : Prop :=
  ∀ value ∈ header, toStr value = .ok text

namespace Origin

def size (o : Origin) : Nat := o.resource.length

section
variable (toStr : List UInt8 → Except Error (List Char))

/-- The headers that every answer carries can be read, and name the validators of the resource. -/
structure Signs (o : Origin) (r : ProbeAnswer) : Prop where
  entityTag : headerText toStr r.entityTag = .ok o.entityTag
  lastModified : headerText toStr r.lastModified = .ok o.lastModified
  disposition : ∀ value ∈ r.naming.contentDisposition, ∃ text, toStr value = .ok text

/-- The answer to a `HEAD` request: a refusal, or the headers of the resource, with its size or
without. -/
def AnswersHead (o : Origin) (r : ProbeAnswer) : Prop :=
  200 ≤ r.status ∧ r.status < 300 →
    o.Signs toStr r ∧ MaySay toStr r.contentLength (Nat.toDigits 10 o.size)

/-- The answer to the request for the first byte. -/
inductive AnswersProbe (o : Origin) (r : ProbeAnswer) : Prop where
  | part (hh : o.honoursRanges = true) (hne : o.resource ≠ []) (hs : r.status = 206)
      (ht : totalSize = none ∨ totalSize = some o.size) (hr : r.contentRange = some value)
      (hv : toStr value = .ok (contentRangeText 0 0 totalSize).toList)
  | whole (hh : o.honoursRanges = true → o.resource = []) (hs : r.status = 200)
      (hl : MaySay toStr r.contentLength (Nat.toDigits 10 o.size))
  | empty (he : o.resource = []) (hs : r.status = 416)
      (hr : MaySay toStr r.contentRange "bytes */0".toList)

end

/-- A body, or the beginning of one that the connection breaks off. -/
structure Sends (body : List UInt8) (r : Response) : Prop where
  isPrefix : r.body <+: body
  whole : r.failure = none → r.body = body

instance (body : List UInt8) (r : Response) : Decidable (Sends body r) :=
  decidable_of_iff (r.body <+: body ∧ (r.failure = none → r.body = body))
    ⟨fun h => ⟨h.1, h.2⟩, fun h => ⟨h.isPrefix, h.whole⟩⟩

def SendsPart (o : Origin) (first last : Nat) (r : Response) : Prop :=
  r.status = 206 ∧ Sends (window o.resource first (last + 1 - first)) r ∧
    (r.contentRange = some (some (contentRangeText first last none)) ∨
      r.contentRange = some (some (contentRangeText first last (some o.size))))

def SendsAll (o : Origin) (r : Response) : Prop := r.status = 200 ∧ Sends o.resource r

/-- The answer to a worker: the part that it asks for, where ranges are honoured and the resource
is recognised by the validator on which the request depends, if there is one; else the whole. -/
def Answers (o : Origin) (request : TransferRequest) (r : Response) : Prop :=
  match request.range with
  | some (first, last) =>
    if o.honoursRanges && request.ifRange.all o.recognises then o.SendsPart first last r
    else o.SendsAll r
  | none => o.SendsAll r

instance (o : Origin) (first last : Nat) (r : Response) : Decidable (o.SendsPart first last r) :=
  inferInstanceAs (Decidable (_ ∧ _))

instance (o : Origin) (r : Response) : Decidable (o.SendsAll r) :=
  inferInstanceAs (Decidable (_ ∧ _))

instance (o : Origin) (r : Response) : (request : TransferRequest) → Decidable (o.Answers request r)
  | ⟨_, _, some (first, last), ifRange⟩ => inferInstanceAs (Decidable
    (if o.honoursRanges && ifRange.all o.recognises then o.SendsPart first last r
      else o.SendsAll r))
  | ⟨_, _, none, _⟩ => inferInstanceAs (Decidable (o.SendsAll r))

theorem parseContentLength_says (hs : n < 2 ^ 64) (h : MaySay toStr header (Nat.toDigits 10 n)) :
    ∃ length, parseContentLength toStr header = .ok length ∧ ∀ size ∈ length, size = n := by
  cases header with
  | none => exact ⟨none, rfl, nofun⟩
  | some value =>
    refine ⟨some n, ?_, ?_⟩
    · simp only [parseContentLength, h value rfl, bind, Except.bind, parseU64Text_toDigits hs]
    · intro size hsize
      exact (Option.some.inj hsize).symm

theorem Signs.identity {o : Origin} (h : o.Signs toStr r) :
    r.extractResourceIdentity toStr = .ok ⟨some r.naming.url, o.entityTag, o.lastModified⟩ := by
  simp only [ProbeAnswer.extractResourceIdentity, h.entityTag, h.lastModified, bind, Except.bind]

section
variable {toStr : List UInt8 → Except Error (List Char)} (lastSegment : String → Option String)

theorem Signs.name {o : Origin} (h : o.Signs toStr r) :
    ∃ name, r.naming.extractSuggestedFileName toStr lastSegment = .ok name := by
  unfold NamingHeaders.extractSuggestedFileName NamingHeaders.contentDispositionFileName
  cases hd : r.naming.contentDisposition with
  | none => exact ⟨_, rfl⟩
  | some value =>
    obtain ⟨text, ht⟩ := h.disposition value hd
    simp only [parseContentDispositionHeader, ht, bind, Except.bind]
    split
    · exact ⟨_, rfl⟩
    · exact ⟨_, rfl⟩

/-- What is known of the first half of the probe. -/
structure Heads (o : Origin) (head : HeadProbe) : Prop where
  size : ∀ size ∈ head.totalSize, size = o.size
  entityTag : head.resourceIdentity.entityTag = o.entityTag
  lastModified : head.resourceIdentity.lastModified = o.lastModified

theorem probeWithHead_heads {o : Origin} (hsize : o.size < 2 ^ 64)
    (h : ∀ r ∈ head, o.AnswersHead toStr r) :
    ∃ found, probeWithHead toStr lastSegment head = .ok found ∧ ∀ p ∈ found, o.Heads p := by
  cases head with
  | none => exact ⟨none, rfl, nofun⟩
  | some r =>
    by_cases hs : 200 ≤ r.status ∧ r.status < 300
    · obtain ⟨hsigns, hlength⟩ := h r rfl hs
      obtain ⟨length, hl, hle⟩ := parseContentLength_says hsize hlength
      obtain ⟨name, hn⟩ := hsigns.name lastSegment
      simp only [probeWithHead, if_pos hs, hl, hsigns.identity, hn, bind, Except.bind]
      refine ⟨_, rfl, ?_⟩
      intro p hp
      obtain rfl := Option.some.inj hp
      exact ⟨hle, rfl, rfl⟩
    · exact ⟨none, if_neg hs, nofun⟩

theorem sizeAndRanges_of_origin {o : Origin} (hsize : o.size < 2 ^ 64)
    (hh : ∀ p ∈ head, o.Heads p) (hr : o.AnswersProbe toStr r) :
    ∃ totalSize supports, r.sizeAndRanges toStr head = .ok (totalSize, supports) ∧
      (∀ size ∈ totalSize, size = o.size) ∧ (o.resource ≠ [] → supports = o.honoursRanges) := by
  have hhead : ∀ size ∈ head.bind (·.totalSize), size = o.size := by
    intro size hsize
    obtain ⟨p, hp, hs⟩ := Option.bind_eq_some_iff.1 hsize
    exact (hh p hp).size size hs
  have hor {length : Option Nat} (hl : ∀ size ∈ length, size = o.size) :
      ∀ size ∈ (length <|> head.bind (·.totalSize)), size = o.size := by
    cases length with
    | none => exact hhead
    | some n => exact hl
  unfold ProbeAnswer.sizeAndRanges
  cases hr with
  | @part totalSize value hranges hne hs ht hr hv =>
    have htotal : ∀ size ∈ totalSize, size = o.size := by
      rcases ht with rfl | rfl
      · nofun
      · exact fun size hsize => (Option.some.inj hsize).symm
    have hparse : parseContentRange (contentRangeText 0 0 totalSize) = some ⟨0, 0, totalSize⟩ :=
      parseContentRange_text (by decide) (by decide) fun size hm => by rwa [htotal size hm]
    simp only [hs, hr, hv, if_true, bind, Except.bind, String.ofList_toList, hparse]
    exact ⟨_, _, rfl, htotal, fun _ => hranges.symm⟩
  | whole hranges hs hl =>
    obtain ⟨length, hl, hle⟩ := parseContentLength_says hsize hl
    simp only [hs, hl, bind, Except.bind, show ¬ 200 = 206 by decide, if_false, if_true]
    refine ⟨_, _, rfl, hor hle, fun hne => ?_⟩
    rw [Bool.eq_false_iff.2 (fun h => hne (hranges h))]
  | empty he hs hr =>
    simp only [hs, show ¬ 416 = 206 by decide, show ¬ 416 = 200 by decide, if_false, if_true]
    refine ⟨_, _, rfl, hor ?_, fun hne => absurd he hne⟩
    intro size hsize
    obtain ⟨text, ht, hparse⟩ := Option.bind_eq_some_iff.1 hsize
    obtain ⟨value, hv, hto⟩ := Option.bind_eq_some_iff.1 ht
    rw [hr value hv] at hto
    cases hto
    have hzero : parseUnsatisfiedContentRange "bytes */0".toList = some 0 := by decide
    rw [hzero] at hparse
    rw [← Option.some.inj hparse, Origin.size, he]
    rfl

/-- What the probe finds out about such a server. -/
structure Probed (o : Origin) (p : DownloadProtocolProbe) : Prop where
  size : ∀ size ∈ p.totalSize, size = o.size
  ranges : o.resource ≠ [] → p.supportsRangeRequests = o.honoursRanges
  entityTag : p.resourceIdentity.entityTag = o.entityTag
  lastModified : p.resourceIdentity.lastModified = o.lastModified

theorem merge_of_heads {o : Origin} {head : Option HeadProbe} (hh : ∀ p ∈ head, o.Heads p) (url : Option String) :
    let merged := mergeResourceIdentity (head.map (·.resourceIdentity))
      ⟨url, o.entityTag, o.lastModified⟩
    merged.entityTag = o.entityTag ∧ merged.lastModified = o.lastModified := by
  cases head with
  | none =>
    simp only [mergeResourceIdentity, Option.map_none, Option.bind_none]
    exact ⟨by cases o.entityTag <;> rfl, by cases o.lastModified <;> rfl⟩
  | some p =>
    have h := hh p rfl
    simp only [mergeResourceIdentity, Option.map_some, Option.bind_some, h.entityTag,
      h.lastModified]
    exact ⟨by cases o.entityTag <;> rfl, by cases o.lastModified <;> rfl⟩

theorem probeWithRangeResponse_probed {o : Origin} (hsize : o.size < 2 ^ 64)
    (hh : ∀ p ∈ head, o.Heads p) (hs : o.Signs toStr r) (hr : o.AnswersProbe toStr r) :
    ∃ p, probeWithRangeResponse toStr lastSegment r head = .ok p ∧ o.Probed p := by
  obtain ⟨totalSize, supports, hsr, hle, hsup⟩ := sizeAndRanges_of_origin hsize hh hr
  obtain ⟨name, hn⟩ := hs.name lastSegment
  obtain ⟨htag, hmod⟩ := merge_of_heads hh (some r.naming.url)
  simp only [probeWithRangeResponse, hsr, hs.identity, hn, bind, Except.bind]
  exact ⟨_, rfl, ⟨hle, hsup, htag, hmod⟩⟩

theorem probeDownloadTarget_probed {o : Origin} (hsize : o.size < 2 ^ 64)
    (hhead : ∀ r ∈ head, o.AnswersHead toStr r) (hs : o.Signs toStr range)
    (hr : o.AnswersProbe toStr range) :
    ∃ p, probeDownloadTarget toStr lastSegment (.ok head) (.ok range) = .ok p ∧ o.Probed p := by
  obtain ⟨found, hf, hh⟩ := probeWithHead_heads lastSegment hsize hhead
  simp only [probeDownloadTarget, bind, Except.bind, hf]
  cases found with
  | none => exact probeWithRangeResponse_probed lastSegment hsize hh hs hr
  | some h =>
    have hheads := hh h rfl
    by_cases hzero : h.totalSize = some 0
    · -- an empty resource is not asked for its first byte
      simp only [if_pos hzero]
      have hnil : o.resource = [] := List.length_eq_zero_iff.1 (hheads.size 0 hzero).symm
      refine ⟨_, rfl, ⟨?_, fun hne => absurd hnil hne, hheads.entityTag, hheads.lastModified⟩⟩
      rw [← hzero]
      exact hheads.size
    · simp only [if_neg hzero]
      exact probeWithRangeResponse_probed lastSegment hsize hh hs hr

end

theorem SendsPart.accepted {o : Origin} (hsize : o.size < 2 ^ 64) (hstart : rangeStart ≤ w.endByte)
    (hend : w.endByte < o.size) (h : o.SendsPart rangeStart w.endByte r) :
    Transfer.refusal w r true rangeStart = none := by
  obtain ⟨hs, _, hr⟩ := h
  obtain ⟨totalSize, ht, hr⟩ : ∃ totalSize, (∀ size ∈ totalSize, size < 2 ^ 64) ∧
      r.contentRange = some (some (contentRangeText rangeStart w.endByte totalSize)) := by
    rcases hr with hr | hr
    · exact ⟨none, nofun, hr⟩
    · refine ⟨some o.size, fun size hm => ?_, hr⟩
      rwa [← Option.some.inj hm]
  have hparse : parseContentRange (contentRangeText rangeStart w.endByte totalSize) =
      some ⟨rangeStart, w.endByte, totalSize⟩ :=
    parseContentRange_text (by omega) (by omega) ht
  simp [Transfer.refusal, classifyTerminalHttpError, shouldRetryHttpStatus, validateResponse, hs,
    hr, hparse]

theorem SendsAll.accepted {o : Origin} (h : o.SendsAll r) :
    Transfer.refusal w r false rangeStart = none := by
  have hs : r.status = 200 := h.1
  simp [Transfer.refusal, classifyTerminalHttpError, shouldRetryHttpStatus, validateResponse, hs]

/-- The whole is not what a worker wants that has asked for a range. -/
theorem SendsAll.refused {o : Origin} (h : o.SendsAll r) :
    Transfer.refusal w r true rangeStart ≠ none := by
  have hs : r.status = 200 := h.1
  unfold Transfer.refusal classifyTerminalHttpError shouldRetryHttpStatus validateResponse
  rw [hs, if_neg (by decide), if_neg (by decide), if_pos rfl]
  by_cases hresumed : w.start < rangeStart ∧ 200 = 200
  · rw [if_pos hresumed]
    nofun
  · rw [if_neg hresumed, if_pos (by decide)]
    nofun

/-- The answer to a request inside the resource is written out, unless the request depends on a
validator that the server does not recognise. -/
theorem Answers.accepted_iff {o : Origin} (hsize : o.size < 2 ^ 64)
    (hstart : rangeStart ≤ w.endByte) (hend : w.endByte < o.size)
    (huse : useRange = true → o.honoursRanges = true)
    (h : o.Answers (w.buildRequest options validator rangeStart useRange) r) :
    Transfer.refusal w r useRange rangeStart = none ↔
      ∀ v ∈ (w.buildRequest options validator rangeStart useRange).ifRange, o.recognises v = true := by
  cases useRange with
  | false => exact ⟨fun _ => nofun, fun _ => h.accepted⟩
  | true =>
    simp only [Answers, Worker.buildRequest, Bool.true_and, decide_eq_true hstart, if_true,
      huse rfl] at h ⊢
    generalize (if w.start < rangeStart then validator else none) = ifRange at h ⊢
    simp only [Option.mem_def, ← Option.all_eq_true]
    split at h
    case isTrue hknown => exact ⟨fun _ => hknown, fun _ => h.accepted hsize hstart hend⟩
    case isFalse hunknown =>
      exact ⟨fun hnone => absurd hnone h.refused, fun hknown => absurd hknown hunknown⟩

end Origin

/-- Five bytes, and a server that honours ranges and knows its entity tag. -/
def fiveByteOrigin : Origin := ⟨[1, 2, 3, 4, 5], some "\"tag\"", none, true, (· == "\"tag\"")⟩

def refusedHead : ProbeAnswer :=
  ⟨405, "405 Method Not Allowed", none, none, none, none, none,
    ⟨"https://example.com/file.bin", none, none⟩⟩

def firstByteOfFive : ProbeAnswer :=
  ⟨206, "206 Partial Content", some "1".toUTF8.data.toList, none,
    some "bytes 0-0/5".toUTF8.data.toList, some "\"tag\"".toUTF8.data.toList, none,
    ⟨"https://example.com/file.bin", none, none⟩⟩

end Paradown
