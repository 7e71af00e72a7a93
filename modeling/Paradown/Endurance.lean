import Paradown.Origin

namespace Paradown
set_option autoImplicit true

/-- Something goes wrong on the way: a request, a write, or a connection. -/
def TransferAct.isFault : TransferAct → Bool
  | .buildFails _ | .sendFails _ | .storeFails _ _ | .writeFails _ _ => true
  | .respond r => shouldRetryHttpStatus r.status || r.failure.isSome
  | _ => false

/-- What the requests of the task say beside their range. -/
structure RequestTerms where
  options : HttpRequestOptions
  validator : Option String

/-- The server honours ranges, and recognises the validator that the task sends, if it sends one. -/
structure Origin.Resumes (o : Origin) (terms : RequestTerms) : Prop where
  ranges : o.honoursRanges = true
  validator : ∀ v ∈ terms.validator, o.recognises v = true

/-- The request in flight. -/
def Transfer.requested (terms : RequestTerms) (t : Transfer) : Option TransferRequest :=
  match t.phase with
  | .requesting useRangeRequests rangeStart =>
    some (t.worker.buildRequest terms.options terms.validator rangeStart useRangeRequests)
  | _ => none

/-- A response that the connection breaks off, if it does, before the last byte of the lane. A
break behind that byte makes the worker ask for the whole resource. -/
def Transfer.BreaksWithin (t : Transfer) (r : Response) : Prop :=
  r.failure ≠ none → t.worker.downloadedSize + r.body.length < t.worker.laneLength

/-- A response of the server to the request in flight, or one of an overloaded server. -/
def Transfer.Answered (o : Origin) (terms : RequestTerms) (t : Transfer) (r : Response) : Prop :=
  ∀ request ∈ t.requested terms, shouldRetryHttpStatus r.status = true ∨
    o.Answers request r ∧ t.BreaksWithin r

/-- Nobody stops the worker, and all it downloads from is copies of the server; the probe has found
that it honours ranges. What goes wrong on the way goes wrong for another reason than a changed
resource, and a write that goes wrong says so itself. -/
def Transfer.Faces (o : Origin) (terms : RequestTerms) (t : Transfer) : TransferAct → Prop
  | .cancel | .delete => False
  | .turn supportsRangeRequests => supportsRangeRequests = true
  | .buildFails err | .writeFails _ err => err.isResumeInvalidated = false
  | .respond r => t.Answered o terms r
  | .storeFails r err => t.Answered o terms r ∧ err.isResumeInvalidated = false
  | .retry fallback => ∀ source ∈ fallback, source.kind.usesHttpDriver = true
  | _ => True

instance (t : Transfer) (r : Response) : Decidable (t.BreaksWithin r) :=
  inferInstanceAs (Decidable (_ → _))

instance (o : Origin) (terms : RequestTerms) (t : Transfer) (r : Response) :
    Decidable (t.Answered o terms r) :=
  inferInstanceAs (Decidable (∀ request ∈ t.requested terms, _))

instance (o : Origin) (terms : RequestTerms) (t : Transfer) :
    (a : TransferAct) → Decidable (t.Faces o terms a)
  | .cancel | .delete => isFalse id
  | .turn _ | .buildFails _ | .writeFails _ _ => inferInstanceAs (Decidable (_ = _))
  | .respond r => inferInstanceAs (Decidable (t.Answered o terms r))
  | .storeFails r err =>
    inferInstanceAs (Decidable (t.Answered o terms r ∧ err.isResumeInvalidated = false))
  | .retry fallback =>
    inferInstanceAs (Decidable (∀ source ∈ fallback, source.kind.usesHttpDriver = true))
  | .pause | .resume | .proceed | .sendFails _ => isTrue trivial

theorem cutLoop_ne_nil (hn : 0 < n) : ∀ slice ∈ cutLoop n fuel data, slice ≠ [] := by
  induction fuel generalizing data with
  | zero =>
    intro slice hm
    exact absurd hm List.not_mem_nil
  | succ fuel ih =>
    cases data with
    | nil =>
      intro slice hm
      exact absurd hm List.not_mem_nil
    | cons b bs =>
      rw [cutLoop, List.forall_mem_cons]
      · refine ⟨?_, ih⟩
        obtain ⟨m, rfl⟩ := Nat.exists_eq_succ_of_ne_zero (Nat.ne_of_gt hn)
        exact List.cons_ne_nil _ _
      · exact List.cons_ne_nil b bs

/-- The body in hand, and what it is known to bring: the rest of the lane, or less of it and then
an error. -/
structure Body (lane : List UInt8) (owed : Nat) (faults : Nat) (s : BodyStream) : Prop where
  slices : ∀ slice ∈ s.slices, slice ≠ []
  whole : s.response.failure = none → s.slices.flatten ++ s.chunks.flatten = lane
  broken : s.response.failure ≠ none →
    (s.slices.flatten ++ s.chunks.flatten).length < lane.length ∧ owed < faults

theorem Body.mono {faults : Nat} (h : Body lane owed faults s) (hle : faults ≤ faults') :
    Body lane owed faults' s :=
  { h with broken := fun hf => (h.broken hf).imp_right (Nat.lt_of_lt_of_le · hle) }

/-- The part of the lane that is still to come. -/
def Transfer.rest (o : Origin) (t : Transfer) : List UInt8 :=
  window o.resource (t.worker.start + t.worker.downloadedSize)
    (t.worker.laneLength - t.worker.downloadedSize)

/-- What holds at each place of the loop: there is something left to ask for, and every retry so
far, and the one that is coming, has been somebody's fault. -/
def Transfer.EnduringPhase (o : Origin) (t : Transfer) (faults : Nat) : Phase → Prop
  | .starting => t.worker.status.startsLoop = true ∧ t.retryCount ≤ faults
  | .attempt | .requesting _ _ =>
    t.worker.downloadedSize < t.worker.laneLength ∧ t.retryCount ≤ faults
  | .streaming => t.retryCount ≤ faults ∧
    ∀ s, t.stream = some s → Body (t.rest o) t.retryCount faults s
  | .retrying err => err.isResumeInvalidated = false ∧
    t.worker.downloadedSize < t.worker.laneLength ∧ t.retryCount < faults
  | .streamed => t.retryCount ≤ faults ∧ t.worker.downloadedSize = t.worker.laneLength
  | .succeeding => t.retryCount ≤ faults
  | .finished result =>
    t.retryCount ≤ faults ∧ result = .ok () ∧ t.worker.status = .completed

/-- A run that has met with `faults` faults so far. -/
structure Transfer.Enduring (o : Origin) (env : TransferEnv) (t : Transfer) (faults : Nat) :
    Prop where
  ranged : t.Ranged env.store o.resource
  going : t.worker.shouldStopGracefully = false
  driver : t.worker.source.kind.usesHttpDriver = true
  phase : t.EnduringPhase o faults t.phase

namespace Transfer

section
variable {o : Origin} {env : TransferEnv} {t t' : Transfer}

theorem Enduring.asked (h : t.Enduring o env faults) (hp : t.phase = .requesting useRange rangeStart) :
    useRange = true ∧ rangeStart = t.worker.start + t.worker.downloadedSize ∧
      rangeStart ≤ t.worker.endByte ∧ t.downloaded = t.worker.downloadedSize := by
  have hranged := h.ranged.phase
  have hphase := h.phase
  rw [hp] at hranged hphase
  obtain ⟨hcounter, huse, hstart⟩ := hranged
  have hlt := hphase.1
  have horder := h.ranged.holds.lane.order
  unfold Worker.laneLength at hlt
  exact ⟨huse, hstart, by omega, hcounter⟩

theorem Enduring.answered (h : t.Enduring o env faults) (ho : o.Resumes terms)
    (hp : t.phase = .requesting useRange rangeStart)
    (ha : o.Answers (t.worker.buildRequest terms.options terms.validator rangeStart useRange) r) :
    o.SendsPart rangeStart t.worker.endByte r ∧ Origin.Sends (t.rest o) r := by
  obtain ⟨rfl, rfl, hle, _⟩ := h.asked hp
  have hknown (c : Prop) [Decidable c] :
      (if c then terms.validator else none).all o.recognises = true := by
    rw [Option.all_eq_true]
    intro v hv
    split at hv
    · exact ho.validator v hv
    · cases hv
  simp only [Origin.Answers, Worker.buildRequest, Bool.true_and, decide_eq_true hle, if_true,
    ho.ranges, hknown] at ha
  refine ⟨ha, ?_⟩
  have hrest : t.worker.endByte + 1 - (t.worker.start + t.worker.downloadedSize) =
      t.worker.laneLength - t.worker.downloadedSize := by
    unfold Worker.laneLength
    omega
  rw [Origin.SendsPart, hrest] at ha
  exact ha.2.1

theorem validateResponse_status (h : validateResponse w r true rangeStart = .ok ()) :
    r.status = 206 := by
  unfold validateResponse at h
  rw [if_pos rfl] at h
  split at h
  · cases h
  · by_contra hne
    rw [if_pos hne] at h
    cases h

theorem requested_eq (hp : t.phase = .requesting useRange rangeStart) :
    t.requested terms =
      some (t.worker.buildRequest terms.options terms.validator rangeStart useRange) := by
  rw [requested, hp]

theorem Enduring.serves (h : t.Enduring o env faults) (ho : o.Resumes terms)
    (hf : t.Faces o terms a) : t.ServesRange o.resource a := by
  cases a with
  | turn supports => exact hf
  | respond r =>
    intro rangeStart hasked hv
    cases hp : t.phase with
    | requesting useRange start =>
      obtain ⟨rfl, hstart, _, _⟩ := h.asked hp
      rw [hp] at hasked
      cases hasked
      rcases hf _ (requested_eq hp) with hretry | ⟨ha, _⟩
      · rw [shouldRetryHttpStatus, validateResponse_status hv] at hretry
        cases hretry
      · have hsends := (h.answered ho hp ha).2
        have hrest : t.worker.endByte + 1 - rangeStart =
            t.worker.laneLength - t.worker.downloadedSize := by
          unfold Worker.laneLength
          omega
        rw [hrest, hstart]
        exact hsends.isPrefix
    | _ =>
      rw [hp] at hasked
      cases hasked
  | _ => trivial

theorem rest_length (hlane : t.worker.InPayload o.size)
    (hcount : t.worker.downloadedSize ≤ t.worker.laneLength) :
    (t.rest o).length = t.worker.laneLength - t.worker.downloadedSize := by
  have horder := hlane.order
  have hlast := hlane.last
  unfold Origin.size at hlast
  unfold Worker.laneLength at hcount
  simp only [rest, window, Worker.laneLength, List.length_take, List.length_drop]
  omega

theorem Enduring.body (h : t.Enduring o env faults) (hsize : o.size = env.store.totalSize)
    (hle : t.retryCount ≤ faults) (hsends : Origin.Sends (t.rest o) r) (hbreak : t.BreaksWithin r)
    (offset : Nat) :
    Body (t.rest o) t.retryCount (faults + r.failure.isSome.toNat) ⟨r, offset, [], r.chunks⟩ where
  slices := nofun
  whole := hsends.whole
  broken := by
    intro hne
    have hrest := rest_length (o := o) (hsize ▸ h.ranged.holds.lane) h.ranged.holds.count
    have hshort := hbreak hne
    rw [hrest, Option.isSome_iff_ne_none.2 hne]
    exact ⟨Nat.lt_sub_of_add_lt (by rwa [Nat.add_comm]), Nat.lt_succ_of_le hle⟩

/-- The response to a request either passes, or it is one of an overloaded server. -/
theorem Enduring.refusal (h : t.Enduring o env faults) (ho : o.Resumes terms)
    (hsize : o.size = env.store.totalSize) (hm : env.store.Flat)
    (hp : t.phase = .requesting useRange rangeStart) (hf : t.Answered o terms r) :
    (∃ err, Transfer.refusal t.worker r useRange rangeStart = some (err, true) ∧
      err.isResumeInvalidated = false ∧ shouldRetryHttpStatus r.status = true) ∨
      Transfer.refusal t.worker r useRange rangeStart = none ∧ Origin.Sends (t.rest o) r ∧
        t.BreaksWithin r := by
  obtain ⟨huse, _, hle, _⟩ := h.asked hp
  by_cases hretry : shouldRetryHttpStatus r.status = true
  · left
    have hterminal : classifyTerminalHttpError t.worker r = none := by
      unfold classifyTerminalHttpError
      rw [if_neg]
      intro hs
      simp only [List.mem_cons, List.not_mem_nil, or_false] at hs
      rcases hs with hs | hs | hs
      all_goals
        rw [shouldRetryHttpStatus, hs] at hretry
        cases hretry
    refine ⟨.httpError t.worker.id r.status s!"retryable HTTP status {r.statusText}", ?_, rfl,
      hretry⟩
    rw [Transfer.refusal, hterminal, if_pos hretry]
  · right
    obtain ⟨ha, hbreak⟩ := (hf _ (requested_eq hp)).resolve_left hretry
    obtain ⟨hpart, hsends⟩ := h.answered ho hp ha
    have hlast := h.ranged.holds.lane.last
    have hbound := hm.size
    rw [huse]
    exact ⟨hpart.accepted (by omega) hle (by omega), hsends, hbreak⟩

theorem rest_countSlice (hcounter : t.downloaded = t.worker.downloadedSize)
    (hlen : t.worker.downloadedSize + data.length ≤ t.worker.laneLength)
    (hdata : data <+: t.rest o) (s : BodyStream) (slices : List (List UInt8)) (fs : FileSystem) :
    t.rest o = data ++ (t.countSlice s data slices fs).rest o := by
  have hsplit : t.worker.laneLength - t.worker.downloadedSize =
      data.length + (t.worker.laneLength - (t.worker.downloadedSize + data.length)) := by
    omega
  unfold rest at hdata ⊢
  rw [hsplit, window_add, window_of_isPrefix hdata]
  simp only [countSlice, hcounter, Worker.laneLength, Nat.add_assoc]

theorem Enduring.writes (h : t.Enduring o env faults) (hsize : o.size = env.store.totalSize)
    (hm : env.store.Flat) (hp : t.phase = .streaming) (hs : t.stream = some s)
    (hl : s.slices = data :: slices) :
    data <+: t.rest o ∧ t.worker.downloadedSize + data.length ≤ t.worker.laneLength ∧
      ∃ fs, env.store.writeAt t.fs s.writeOffset data = .ok fs := by
  obtain ⟨hoff, hdata, _⟩ := h.ranged.slice hp hs hl
  have hlane := h.ranged.holds.lane
  have hcount := h.ranged.holds.count
  have hlen := hdata.length_le
  have hrest := rest_length (o := o) (hsize ▸ hlane) hcount
  unfold rest at hrest
  rw [hrest] at hlen
  have horder := hlane.order
  have hlast := hlane.last
  unfold Worker.laneLength at hlen hcount
  refine ⟨hdata, by unfold Worker.laneLength; omega, ?_⟩
  have hin : s.writeOffset + data.length ≤ env.store.totalSize := by omega
  obtain ⟨fs, hok, _⟩ := hm.writeAt h.ranged.holds.allocated hin
  exact ⟨fs, hok⟩

theorem EnduringPhase.streaming (hp : t.phase = .streaming) (hle : t.retryCount ≤ faults)
    (h : ∀ s, t.stream = some s → Body (t.rest o) t.retryCount faults s) :
    EnduringPhase o t faults t.phase := by
  rw [hp]
  exact ⟨hle, h⟩

theorem Enduring.streamStep (h : t.Enduring o env faults) (hsize : o.size = env.store.totalSize)
    (hm : env.store.Flat) (hp : t.phase = .streaming) (hs : t.stream = some s) :
    (t.streamStep env s).worker.shouldStopGracefully = false ∧
      (t.streamStep env s).worker.source = t.worker.source ∧
      EnduringPhase o (t.streamStep env s) faults (t.streamStep env s).phase := by
  have hphase := h.phase
  have hcounter := h.ranged.phase
  rw [hp] at hphase hcounter
  obtain ⟨hle, hbody⟩ := hphase
  have hb := hbody s hs
  have hcount := h.ranged.holds.count
  have hlength := rest_length (o := o) (hsize ▸ h.ranged.holds.lane) hcount
  unfold Transfer.streamStep
  split
  case h_1 hl hc hf =>
    refine ⟨h.going, rfl, hle, ?_⟩
    have hnil := hb.whole hf
    rw [hl, hc, List.flatten_nil, List.append_nil] at hnil
    rw [← hnil, List.length_nil] at hlength
    exact Nat.le_antisymm hcount (Nat.le_of_sub_eq_zero hlength.symm)
  case h_2 hno =>
    rw [if_neg (by simp [h.going])]
    split
    case isTrue =>
      exact ⟨h.going, rfl, EnduringPhase.streaming hp hle hbody⟩
    case isFalse =>
      split
      case h_1 data slices hl =>
        obtain ⟨hdata, hlen, fs, hw⟩ := h.writes hsize hm hp hs hl
        simp only [hw]
        refine ⟨h.going, rfl, ?_⟩
        have hnext := rest_countSlice hcounter.1 hlen hdata s slices fs
        apply EnduringPhase.streaming (t := t.countSlice s data slices fs) hp hle
        intro s' hs'
        cases hs'
        refine ⟨fun slice hm => hb.slices slice (hl ▸ List.mem_cons_of_mem data hm), ?_, ?_⟩
        · intro hf
          have hwhole := hb.whole hf
          rw [hl, List.flatten_cons, List.append_assoc, hnext] at hwhole
          exact List.append_cancel_left hwhole
        · intro hf
          obtain ⟨hshort, howed⟩ := hb.broken hf
          rw [hl, List.flatten_cons, List.append_assoc, hnext] at hshort
          simp only [List.length_append] at hshort ⊢
          exact ⟨Nat.lt_of_add_lt_add_left hshort, howed⟩
      case h_2 chunk chunks hl hc =>
        refine ⟨h.going, rfl, EnduringPhase.streaming hp hle ?_⟩
        intro s' hs'
        cases hs'
        have hflat : (rateLimitSlices chunk).flatten ++ chunks.flatten =
            s.slices.flatten ++ s.chunks.flatten := by
          rw [rateLimitSlices_flatten, hl, hc, List.flatten_nil, List.nil_append, List.flatten_cons]
        refine ⟨cutLoop_ne_nil (by decide), ?_, ?_⟩
        · rw [hflat]
          exact hb.whole
        · rw [hflat]
          exact hb.broken
      case h_3 message hl hc hf =>
        obtain ⟨hshort, howed⟩ := hb.broken (hf ▸ nofun)
        rw [hlength] at hshort
        exact ⟨h.going, rfl, rfl, Nat.lt_of_sub_pos (Nat.zero_lt_of_lt hshort), howed⟩
      case h_4 hl hc hf => exact (hno hl hc hf).elim

theorem EnduringPhase.mono {p : Phase} (h : EnduringPhase o t faults p) (hle : faults ≤ faults') :
    EnduringPhase o t faults' p := by
  cases p with
  | starting => exact ⟨h.1, h.2.trans hle⟩
  | attempt => exact ⟨h.1, h.2.trans hle⟩
  | requesting useRange rangeStart => exact ⟨h.1, h.2.trans hle⟩
  | streaming => exact ⟨h.1.trans hle, fun s hs => (h.2 s hs).mono hle⟩
  | streamed => exact ⟨h.1.trans hle, h.2⟩
  | retrying err => exact ⟨h.1, h.2.1, Nat.lt_of_lt_of_le h.2.2 hle⟩
  | succeeding => exact Nat.le_trans h hle
  | finished result => exact ⟨h.1.trans hle, h.2⟩

theorem EnduringPhase.outside (h : EnduringPhase o t faults t.phase) (hw : SameRange t.worker w)
    (hs : t.worker.status.startsLoop = true → w.status.startsLoop = true)
    (hp : ∀ result, t.phase ≠ .finished result) :
    EnduringPhase o (t.setWorker w) faults t.phase := by
  have hlane := hw.laneLength
  have hsize := hw.downloadedSize
  have hrest : (t.setWorker w).rest o = t.rest o := by
    simp only [rest, setWorker, hw.start, hlane, hsize]
  cases hphase : t.phase with
  | starting =>
    rw [hphase] at h
    exact ⟨hs h.1, h.2⟩
  | streaming =>
    rw [hphase] at h
    refine ⟨h.1, ?_⟩
    rw [hrest]
    exact h.2
  | finished result => exact absurd hphase (hp result)
  | _ =>
    rw [hphase] at h
    simp only [EnduringPhase, setWorker, hlane, hsize] at h ⊢
    exact h

theorem begin_enduring (h : t.Enduring o env faults) (hm : env.store.Flat)
    (hp : t.phase = .starting) :
    t.begin.worker.shouldStopGracefully = false ∧ t.begin.worker.source = t.worker.source ∧
      EnduringPhase o t.begin faults t.begin.phase := by
  have hphase := h.phase
  rw [hp] at hphase
  obtain ⟨hstatus, hle⟩ := hphase
  have hrun (paused : Bool) :
      let worker := { t.worker with paused, status := .running }
      let t' :=
        if t.worker.lengthKnown && decide (t.worker.expectedLength ≤ t.worker.downloadedSize)
        then { t with worker, downloaded := t.worker.downloadedSize, phase := .succeeding }
        else { t with worker, downloaded := t.worker.downloadedSize, phase := .attempt }
      t'.worker.shouldStopGracefully = false ∧ t'.worker.source = t.worker.source ∧
        EnduringPhase o t' faults t'.phase := by
    rw [h.ranged.expectedLength hm, h.ranged.holds.lane.known, Bool.true_and]
    dsimp only
    split
    case isTrue => exact ⟨h.going, rfl, hle⟩
    case isFalse hlt =>
      rw [decide_eq_true_iff, Nat.not_le] at hlt
      exact ⟨h.going, rfl, hlt, hle⟩
  unfold Transfer.begin
  split
  case h_1 hs | h_2 hs | h_3 hs =>
    rw [hs] at hstatus
    cases hstatus
  case h_4 => exact hrun _

theorem Worker.pause_startsLoop {w : Worker} (h : w.status.startsLoop = true) :
    w.pause.status.startsLoop = true := by
  unfold Worker.pause
  dsimp only
  split
  · exact h
  · rfl

theorem Worker.resume_startsLoop {w : Worker} (h : w.status.startsLoop = true) :
    w.resume.status.startsLoop = true := by
  unfold Worker.resume
  split
  · exact h
  · rfl

theorem resume_enduring (h : t.Enduring o env faults) :
    t.worker.resume.shouldStopGracefully = false ∧ t.worker.resume.source = t.worker.source := by
  unfold Worker.resume
  split
  · exact ⟨h.going, rfl⟩
  · exact ⟨h.going, rfl⟩

theorem complete_enduring (h : t.Enduring o env faults) (hm : env.store.Flat)
    (hp : t.phase = .streamed) :
    t.complete.worker = t.worker ∧ EnduringPhase o t.complete faults t.complete.phase := by
  have hphase := h.phase
  have hcounter := h.ranged.phase
  rw [hp] at hphase hcounter
  have hvalid : t.worker.validateDownloadedLength t.downloaded = .ok () := by
    unfold Worker.validateDownloadedLength
    rw [h.ranged.holds.lane.known, h.ranged.expectedLength hm, show t.downloaded = _ from hcounter,
      hphase.2]
    simp
  unfold complete
  rw [if_neg (by simp [h.going]), hvalid]
  exact ⟨rfl, hphase.1⟩

theorem turn_enduring (h : t.Enduring o env faults) (hp : t.phase = .attempt) (supports : Bool) :
    (t.turn supports).worker = t.worker ∧
      EnduringPhase o (t.turn supports) faults (t.turn supports).phase := by
  have hphase := h.phase
  rw [hp] at hphase
  unfold turn
  rw [if_neg (by simp [h.going])]
  split
  case isTrue =>
    refine ⟨rfl, ?_⟩
    rw [hp]
    exact hphase
  case isFalse =>
    rw [if_pos h.driver]
    exact ⟨rfl, hphase⟩

theorem Enduring.retries (h : t.Enduring o env faults)
    (hp : t.phase = .requesting useRange rangeStart) (herr : err.isResumeInvalidated = false) :
    EnduringPhase o (t.goto (.retrying err)) (faults + 1) (.retrying err) := by
  have hphase := h.phase
  rw [hp] at hphase
  exact ⟨herr, hphase.1, Nat.lt_succ_of_le hphase.2⟩

theorem respond_enduring (h : t.Enduring o env faults) (ho : o.Resumes terms)
    (hsize : o.size = env.store.totalSize) (hm : env.store.Flat)
    (hp : t.phase = .requesting useRange rangeStart) (hf : t.Answered o terms r) :
    let t' := t.respond r none useRange rangeStart
    t'.worker = t.worker ∧
      EnduringPhase o t' (faults + (TransferAct.respond r).isFault.toNat) t'.phase := by
  have hphase := h.phase
  rw [hp] at hphase
  unfold respond
  rcases h.refusal ho hsize hm hp hf with ⟨err, hr, herr, hretry⟩ | ⟨hr, hsends, hbreak⟩
  · have hfault : (TransferAct.respond r).isFault = true := by
      rw [TransferAct.isFault, hretry, Bool.true_or]
    rw [hr, hfault]
    exact ⟨rfl, h.retries hp herr⟩
  · rw [hr]
    refine ⟨rfl, Nat.le_add_right_of_le hphase.2, ?_⟩
    intro s hs
    cases hs
    have hbody := h.body hsize hphase.2 hsends hbreak
      (if useRange then rangeStart else t.worker.start)
    refine hbody.mono (Nat.add_le_add_left ?_ faults)
    rw [TransferAct.isFault]
    cases r.failure.isSome <;> simp

theorem storeFails_enduring (h : t.Enduring o env faults) (ho : o.Resumes terms)
    (hsize : o.size = env.store.totalSize) (hm : env.store.Flat)
    (hp : t.phase = .requesting useRange rangeStart) (hf : t.Answered o terms r)
    (herr : err.isResumeInvalidated = false) :
    let t' := t.respond r (some err) useRange rangeStart
    t'.worker = t.worker ∧ EnduringPhase o t' (faults + 1) t'.phase := by
  unfold respond
  rcases h.refusal ho hsize hm hp hf with ⟨err', hr, herr', _⟩ | ⟨hr, _⟩
  · rw [hr]
    exact ⟨rfl, h.retries hp herr'⟩
  · rw [hr]
    exact ⟨rfl, h.retries hp herr⟩

theorem writeFails_enduring {fs : FileSystem} (h : t.Enduring o env faults)
    (hsize : o.size = env.store.totalSize) (hm : env.store.Flat) (hp : t.phase = .streaming)
    (hs : t.stream = some s) (hl : s.slices = data :: slices) (herr : err.isResumeInvalidated = false) :
    EnduringPhase o { t with fs, phase := .retrying err } (faults + 1) (.retrying err) := by
  have hphase := h.phase
  rw [hp] at hphase
  obtain ⟨_, hlen, _⟩ := h.writes hsize hm hp hs hl
  have hpos : 0 < data.length :=
    List.length_pos_iff.2 ((hphase.2 s hs).slices data (hl ▸ List.mem_cons_self))
  exact ⟨herr, Nat.lt_of_lt_of_le (Nat.lt_add_of_pos_right hpos) hlen, Nat.lt_succ_of_le hphase.1⟩

theorem fallBack_enduring (h : t.Enduring o env faults)
    (hf : ∀ source ∈ fallback, source.kind.usesHttpDriver = true) :
    (t.worker.fallBack fallback).shouldStopGracefully = false ∧
      (t.worker.fallBack fallback).source.kind.usesHttpDriver = true := by
  unfold Worker.fallBack
  split
  case h_1 source =>
    split
    · exact ⟨h.going, hf source rfl⟩
    · exact ⟨h.going, h.driver⟩
  case h_2 => exact ⟨h.going, h.driver⟩

theorem retryOrFail_enduring (h : t.Enduring o env faults) (hle : faults ≤ env.maxRetries)
    (hp : t.phase = .retrying err) (fallback : Option SourceDescriptor) :
    (t.retryOrFail env err fallback).worker = t.worker.fallBack fallback ∧
      EnduringPhase o (t.retryOrFail env err fallback) faults
        (t.retryOrFail env err fallback).phase := by
  have hphase := h.phase
  rw [hp] at hphase
  obtain ⟨herr, hlt, howed⟩ := hphase
  have hw := Worker.fallBack_sameRange t.worker fallback
  unfold retryOrFail
  split
  case h_1 => cases herr
  case h_2 =>
    have hleft : ¬ env.maxRetries ≤ t.retryCount := by omega
    dsimp only [setWorker]
    rw [if_neg hleft]
    refine ⟨rfl, ?_, howed⟩
    rw [← hw.downloadedSize, ← hw.laneLength] at hlt
    exact hlt

/-- Every step that an honest server and its network take part in. -/
theorem Enduring.step (h : t.Enduring o env faults) (ho : o.Resumes terms)
    (hsize : o.size = env.store.totalSize) (hm : env.store.Flat) (hf : t.Faces o terms a)
    (hle : faults + a.isFault.toNat ≤ env.maxRetries) (hs : Transfer.step env t a = some t') :
    t'.Enduring o env (faults + a.isFault.toNat) := by
  have hranged := h.ranged.step hm (h.serves ho hf) (step_move hs)
  have hnow : t.Enduring o env (faults + a.isFault.toNat) :=
    { h with phase := h.phase.mono (Nat.le_add_right _ _) }
  cases step_performs hs with
  | pause hp =>
    exact ⟨hranged, h.going, h.driver, hnow.phase.outside (Worker.pause_sameRange _)
      Worker.pause_startsLoop hp⟩
  | resume hp =>
    obtain ⟨hgo, hsource⟩ := resume_enduring h
    exact ⟨hranged, hgo, hsource ▸ h.driver, hnow.phase.outside (Worker.resume_sameRange _)
      Worker.resume_startsLoop hp⟩
  | cancel => exact hf.elim
  | delete => exact hf.elim
  | begin hp =>
    obtain ⟨hgo, hsource, hphase⟩ := begin_enduring hnow hm hp
    exact ⟨hranged, hgo, hsource ▸ h.driver, hphase⟩
  | stream hp hbody =>
    obtain ⟨hgo, hsource, hphase⟩ := hnow.streamStep hsize hm hp hbody
    exact ⟨hranged, hgo, hsource ▸ h.driver, hphase⟩
  | complete hp =>
    obtain ⟨hw, hphase⟩ := complete_enduring hnow hm hp
    exact ⟨hranged, hw ▸ h.going, hw ▸ h.driver, hphase⟩
  | finishSuccess hp =>
    have hphase := hnow.phase
    rw [hp] at hphase
    exact ⟨hranged, h.going, h.driver, hphase, rfl, rfl⟩
  | turn hp supports =>
    obtain ⟨hw, hphase⟩ := turn_enduring hnow hp supports
    exact ⟨hranged, hw ▸ h.going, hw ▸ h.driver, hphase⟩
  | buildFails hp err => exact ⟨hranged, h.going, h.driver, h.retries hp hf⟩
  | sendFails hp message => exact ⟨hranged, h.going, h.driver, h.retries hp rfl⟩
  | respond hp r =>
    obtain ⟨hw, hphase⟩ := respond_enduring h ho hsize hm hp hf
    exact ⟨hranged, hw ▸ h.going, hw ▸ h.driver, hphase⟩
  | storeFails hp r err =>
    obtain ⟨hw, hphase⟩ := storeFails_enduring h ho hsize hm hp hf.1 hf.2
    exact ⟨hranged, hw ▸ h.going, hw ▸ h.driver, hphase⟩
  | writeFails hp hbody hl hn hr hw err =>
    exact ⟨hranged, h.going, h.driver, writeFails_enduring h hsize hm hp hbody hl hf⟩
  | retry hp fallback =>
    obtain ⟨hw, hphase⟩ := retryOrFail_enduring hnow hle hp fallback
    obtain ⟨hgo, hdriver⟩ := fallBack_enduring h hf
    exact ⟨hranged, hw ▸ hgo, hw ▸ hdriver, hphase⟩

open Transition in
theorem Enduring.run (ho : o.Resumes terms) (hsize : o.size = env.store.totalSize)
    (hm : env.store.Flat) (h : t.Enduring o env faults)
    (hf : Meets (Transfer.step env) (Transfer.Faces o terms) t acts)
    (hle : faults + acts.countP TransferAct.isFault ≤ env.maxRetries)
    (hr : run (Transfer.step env) t acts = some t') :
    t'.Enduring o env (faults + acts.countP TransferAct.isFault) := by
  induction acts generalizing t faults with
  | nil =>
    cases hr
    exact h
  | cons a acts ih =>
    obtain ⟨m, ha, hr⟩ := run_cons hr
    have hcount : (a :: acts).countP TransferAct.isFault =
        a.isFault.toNat + acts.countP TransferAct.isFault := by
      rw [List.countP_cons, Nat.add_comm]
      cases a.isFault <;> rfl
    rw [hcount, ← Nat.add_assoc] at hle ⊢
    exact ih (h.step ho hsize hm hf.1 (Nat.le_of_add_right_le hle) ha) (hf.2 m ha) hle hr

end

end Transfer

/-- A worker that downloads its lane from an honest server survives as many faults as it has
retries, wherever before the last byte of the lane they strike: it never fails, it has not retried
more often than something went wrong, and when it ends it has completed the lane with the bytes of
the resource. -/
theorem worker_survives_faults (o : Origin) (terms : RequestTerms) (env : TransferEnv)
    (hm : env.store.Flat) (ho : o.Resumes terms) (hsize : o.size = env.store.totalSize) (t t' : Transfer)
    (acts : List TransferAct) (hstart : t.phase = .starting)
    (hstatus : t.worker.status.startsLoop = true) (hcount : t.retryCount = 0)
    (hgoing : t.worker.shouldStopGracefully = false)
    (hdriver : t.worker.source.kind.usesHttpDriver = true)
    (hlane : t.worker.InPayload env.store.totalSize) (halloc : Allocated t.fs env.store.segments)
    (hdone : t.worker.downloadedSize ≤ t.worker.laneLength)
    (hbytes : window (env.store.payload t.fs) t.worker.start t.worker.downloadedSize =
      window o.resource t.worker.start t.worker.downloadedSize)
    (hfaces : Transition.Meets (Transfer.step env) (Transfer.Faces o terms) t acts)
    (hfaults : acts.countP TransferAct.isFault ≤ env.maxRetries)
    (hrun : Transition.run (Transfer.step env) t acts = some t') :
    t'.retryCount ≤ acts.countP TransferAct.isFault ∧
      (∀ err, t'.phase ≠ .finished (.error err)) ∧
      (t'.phase = .finished (.ok ()) → t'.worker.status = .completed ∧
        window (env.store.payload t'.fs) t.worker.start t.worker.laneLength =
          window o.resource t.worker.start t.worker.laneLength) := by
  have hinit : t.Enduring o env 0 := by
    refine ⟨⟨⟨halloc, hlane, hdone, hbytes⟩, ?_, ?_⟩, hgoing, hdriver, ?_⟩
    · rw [hstart]
      trivial
    · intro he
      rw [he] at hstatus
      cases hstatus
    · rw [hstart]
      exact ⟨hstatus, Nat.le_of_eq hcount⟩
  have h := hinit.run ho hsize hm hfaces (by rwa [Nat.zero_add]) hrun
  rw [Nat.zero_add] at h
  obtain ⟨hfirst, hend, _⟩ := Transfer.run_lane hrun
  have hlen : t.worker.laneLength = t'.worker.laneLength := by
    simp only [Worker.laneLength, hfirst, hend]
  have hphase := h.phase
  refine ⟨?_, ?_, ?_⟩
  · cases hp : t'.phase with
    | retrying err =>
      rw [hp] at hphase
      exact Nat.le_of_lt hphase.2.2
    | succeeding =>
      rw [hp] at hphase
      exact hphase
    | starting | attempt | requesting =>
      rw [hp] at hphase
      exact hphase.2
    | streaming | streamed | finished =>
      rw [hp] at hphase
      exact hphase.1
  · intro err hp
    rw [hp] at hphase
    cases hphase.2.1
  · intro hp
    rw [hp] at hphase
    refine ⟨hphase.2.2, ?_⟩
    rw [← hfirst, hlen, ← h.ranged.completed hphase.2.2]
    exact h.ranged.holds.bytes

/-- Five bytes on disk, and one lane over them. -/
def fiveByteTransfer : Transfer :=
  newTransfer (oneFile 5) ⟨0, "https::https://example.com/file.bin", true, 0, 0, 0, 0, 0, 4⟩

/-- Plain requests that depend on the entity tag. -/
def taggedRequests : RequestTerms := ⟨{}, some "\"tag\""⟩

/-- A timeout, a connection that breaks off after two bytes, an overloaded server, and the rest. -/
def threeFaults : List TransferAct :=
  [.proceed, .turn true, .sendFails "timeout", .retry none, .turn true,
    .respond ⟨206, "206 Partial Content", some (some "bytes 0-4/5"), [[1, 2]], some "reset"⟩,
    .proceed, .proceed, .proceed, .retry none, .turn true,
    .respond ⟨503, "503 Service Unavailable", none, [], none⟩, .retry none, .turn true,
    .respond ⟨206, "206 Partial Content", some (some "bytes 2-4/5"), [[3], [4, 5]], none⟩,
    .proceed, .proceed, .proceed, .proceed, .proceed, .proceed, .proceed]

theorem three_faults_survived :
    let env : TransferEnv := ⟨oneFile 5, 3⟩
    ∃ t', Transition.run (Transfer.step env) fiveByteTransfer threeFaults = some t' ∧
      t'.phase = .finished (.ok ()) ∧ t'.worker.status = .completed := by
  intro env
  obtain ⟨t', hrun, hend⟩ : ∃ t', Transition.run (Transfer.step env) fiveByteTransfer threeFaults =
      some t' ∧ t'.phase = .finished (.ok ()) :=
    Transition.run_any (by decide)
  have hflat := oneFile_flat (show 5 < 2 ^ 64 by decide)
  have hresumes : fiveByteOrigin.Resumes taggedRequests :=
    ⟨rfl, fun v hv => by cases hv; decide⟩
  have h := worker_survives_faults fiveByteOrigin taggedRequests env hflat hresumes rfl
    fiveByteTransfer t' threeFaults rfl rfl rfl rfl rfl ⟨rfl, by decide, by decide⟩ (hflat.prepare .empty) (by decide) rfl
    (by decide) (by decide) hrun
  exact ⟨t', hrun, hend, (h.2.2 hend).1⟩

end Paradown
