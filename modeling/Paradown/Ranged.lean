import Paradown.Transfer

namespace Paradown
set_option autoImplicit true

theorem cutLoop_flatten (hn : 0 < n) (hf : data.length ≤ fuel) :
    (cutLoop n fuel data).flatten = data := by
  induction fuel generalizing data with
  | zero =>
    have he : data = [] := List.eq_nil_of_length_eq_zero (Nat.le_zero.1 hf)
    rw [he]
    rfl
  | succ fuel ih =>
    cases data with
    | nil => rfl
    | cons b bs =>
      have hl : ((b :: bs).drop n).length ≤ fuel := by
        simp only [List.length_drop, List.length_cons] at hf ⊢
        omega
      rw [cutLoop, List.flatten_cons, ih hl, List.take_append_drop]
      exact nofun

theorem rateLimitSlices_flatten (chunk : List UInt8) : (rateLimitSlices chunk).flatten = chunk :=
  cutLoop_flatten (by decide) (le_refl _)

/-- The number of bytes of a lane. -/
def Worker.laneLength (w : Worker) : Nat := w.endByte - w.start + 1

/-- The lane of the worker is a part of the payload, and its length is known. -/
structure Worker.InPayload (w : Worker) (total : Nat) : Prop where
  known : w.lengthKnown = true
  order : w.start ≤ w.endByte
  last : w.endByte < total

theorem Worker.InPayload.expectedLength {w : Worker} (h : w.InPayload total) (ht : total < 2 ^ 64) :
    w.expectedLength = w.laneLength := by
  have ho := h.order
  have hl := h.last
  simp only [Worker.expectedLength, h.known, if_true, Worker.laneLength, satAdd]
  omega

theorem SameRange.laneLength (h : SameRange w w') : w'.laneLength = w.laneLength := by
  simp only [Worker.laneLength, h.start, h.endByte]

theorem SameRange.inPayload (h : SameRange w w') (hw : w.InPayload total) : w'.InPayload total :=
  ⟨h.lengthKnown.trans hw.known, by rw [h.start, h.endByte]; exact hw.order,
    by rw [h.endByte]; exact hw.last⟩

/-- The first byte that a range request in flight asks for. -/
def Phase.askedFrom : Phase → Option Nat
  | .requesting true rangeStart => some rangeStart
  | _ => none

/-- Range mode against sources that all serve `resource`: the task keeps reporting range support,
and a response that passes `validate_response` carries the beginning of the bytes asked for. -/
def Transfer.ServesRange (resource : List UInt8) (t : Transfer) : TransferAct → Prop
  | .turn supportsRangeRequests => supportsRangeRequests = true
  | .respond r => ∀ rangeStart ∈ t.phase.askedFrom,
    validateResponse t.worker r true rangeStart = .ok () →
    r.body <+: window resource rangeStart (t.worker.endByte + 1 - rangeStart)
  | _ => True

instance (resource : List UInt8) (t : Transfer) :
    (a : TransferAct) → Decidable (t.ServesRange resource a)
  | .turn _ => inferInstanceAs (Decidable (_ = _))
  | .respond r => inferInstanceAs (Decidable (∀ rangeStart ∈ t.phase.askedFrom,
    validateResponse t.worker r true rangeStart = .ok () →
    r.body <+: window resource rangeStart (t.worker.endByte + 1 - rangeStart)))
  | .pause | .resume | .cancel | .delete | .proceed | .buildFails _ | .sendFails _
  | .storeFails _ _ | .writeFails _ _ | .retry _ => isTrue trivial

/-- The counted bytes of the lane are on disk, and they are those of the resource. -/
structure Transfer.HoldsPart (store : FileMap) (resource : List UInt8) (t : Transfer) : Prop where
  allocated : Allocated t.fs store.segments
  lane : t.worker.InPayload store.totalSize
  count : t.worker.downloadedSize ≤ t.worker.laneLength
  bytes : window (store.payload t.fs) t.worker.start t.worker.downloadedSize =
    window resource t.worker.start t.worker.downloadedSize

/-- What holds of the local variables at each place of the loop: the counter is the stored one, a
request asks for what follows the counted bytes, and what is left of a response is what follows
them in the resource. -/
def RangedPhase (resource : List UInt8) (w : Worker) (downloaded : Nat)
    (stream : Option BodyStream) : Phase → Prop
  | .starting | .finished _ => True
  | .requesting useRangeRequests rangeStart => downloaded = w.downloadedSize ∧
    useRangeRequests = true ∧ rangeStart = w.start + w.downloadedSize
  | .streaming => downloaded = w.downloadedSize ∧ ∃ s, stream = some s ∧
    s.writeOffset = w.start + w.downloadedSize ∧
    s.slices.flatten ++ s.chunks.flatten <+:
      window resource (w.start + w.downloadedSize) (w.laneLength - w.downloadedSize)
  | .succeeding => downloaded = w.downloadedSize ∧ w.downloadedSize = w.laneLength
  | _ => downloaded = w.downloadedSize

/-- What every step of a run in range mode keeps. -/
structure Transfer.Ranged (store : FileMap) (resource : List UInt8) (t : Transfer) : Prop where
  holds : t.HoldsPart store resource
  phase : RangedPhase resource t.worker t.downloaded t.stream t.phase
  completed : t.worker.status = .completed → t.worker.downloadedSize = t.worker.laneLength

theorem RangedPhase.counter (h : RangedPhase resource w downloaded stream phase)
    (hl : phase.isLoop = true) : downloaded = w.downloadedSize := by
  cases phase with
  | starting => cases hl
  | finished r => cases hl
  | requesting u rs => exact h.1
  | streaming => exact h.1
  | succeeding => exact h.1
  | attempt => exact h
  | streamed => exact h
  | retrying err => exact h

theorem RangedPhase.same (h : RangedPhase resource w downloaded stream phase)
    (hw : SameRange w w') : RangedPhase resource w' downloaded stream phase := by
  cases phase <;> simp only [RangedPhase, hw.start, hw.downloadedSize, hw.laneLength] at h ⊢ <;>
    exact h

theorem RangedPhase.rest (hr : Phase.isRest next = true)
    (hl : next.isLoop = true → downloaded = w.downloadedSize) :
    RangedPhase resource w downloaded stream next := by
  cases next with
  | attempt => exact hl rfl
  | retrying err => exact hl rfl
  | finished r => trivial
  | starting => cases hr
  | requesting u rs => cases hr
  | streaming => cases hr
  | streamed => cases hr
  | succeeding => cases hr

theorem FileMap.Flat.payload_length {m : FileMap} (h : m.Flat) (ha : Allocated fs m.segments) :
    (m.payload fs).length = m.totalSize := by
  have hl := payloadOf_length ha h.contiguous
  rw [Nat.sub_zero] at hl
  exact hl

theorem Transfer.HoldsPart.same {t t' : Transfer} (h : Transfer.HoldsPart store resource t)
    (hw : SameRange t.worker w) (hfs : t'.fs = t.fs) (ht : t'.worker = w) :
    t'.HoldsPart store resource := by
  subst ht
  refine ⟨hfs ▸ h.allocated, hw.inPayload h.lane, ?_, ?_⟩
  · rw [hw.downloadedSize, hw.laneLength]
    exact h.count
  · rw [hfs, hw.downloadedSize, hw.start]
    exact h.bytes

/-- Writing the next bytes of the resource behind the counted ones keeps those, and extends them. -/
theorem Transfer.HoldsPart.write {fs : FileSystem} {data : List UInt8}
    (h : Transfer.HoldsPart store resource t) (hm : store.Flat)
    (hp : data <+: window resource (t.worker.start + t.worker.downloadedSize)
      (t.worker.laneLength - t.worker.downloadedSize))
    (hw : store.writeAt t.fs (t.worker.start + t.worker.downloadedSize) data = .ok fs) :
    Allocated fs store.segments ∧
      window (store.payload fs) t.worker.start t.worker.downloadedSize =
        window resource t.worker.start t.worker.downloadedSize ∧
      t.worker.downloadedSize + data.length ≤ t.worker.laneLength ∧
      window (store.payload fs) t.worker.start (t.worker.downloadedSize + data.length) =
        window resource t.worker.start (t.worker.downloadedSize + data.length) := by
  have hlen := hp.length_le
  have horder := h.lane.order
  have hlast := h.lane.last
  have hcount := h.count
  simp only [window, List.length_take, Worker.laneLength] at hlen hcount ⊢
  obtain ⟨fs', hok, ha, hpay⟩ := hm.writeAt h.allocated (show t.worker.start +
    t.worker.downloadedSize + data.length ≤ store.totalSize by omega)
  cases hok.symm.trans hw
  have hpl := hm.payload_length h.allocated
  have hbefore : window (store.payload fs) t.worker.start t.worker.downloadedSize =
      window resource t.worker.start t.worker.downloadedSize := by
    rw [hpay, window_splice_before (le_refl _) (by omega), h.bytes]
  refine ⟨ha, hbefore, by omega, ?_⟩
  have hself : window (store.payload fs) (t.worker.start + t.worker.downloadedSize) data.length =
      data := by
    rw [hpay]
    exact window_splice_self data (by omega)
  calc window (store.payload fs) t.worker.start (t.worker.downloadedSize + data.length)
      = window resource t.worker.start t.worker.downloadedSize ++ data := by
        rw [window_add, hbefore, hself]
    _ = window resource t.worker.start (t.worker.downloadedSize + data.length) := by
        rw [window_add, window_of_isPrefix hp]

theorem Transfer.Ranged.expectedLength (h : Transfer.Ranged store resource t) (hm : store.Flat) :
    t.worker.expectedLength = t.worker.laneLength :=
  h.holds.lane.expectedLength hm.size

theorem Transfer.Ranged.slice (h : Transfer.Ranged store resource t) (hp : t.phase = .streaming)
    (hs : t.stream = some s) (hl : s.slices = data :: rest) :
    s.writeOffset = t.worker.start + t.worker.downloadedSize ∧
      data <+: window resource (t.worker.start + t.worker.downloadedSize)
        (t.worker.laneLength - t.worker.downloadedSize) ∧
      rest.flatten ++ s.chunks.flatten <+:
        window resource (t.worker.start + (t.worker.downloadedSize + data.length))
          (t.worker.laneLength - (t.worker.downloadedSize + data.length)) := by
  have hphase := h.phase
  rw [hp] at hphase
  obtain ⟨_, s', hs', hoff, hpre⟩ := hphase
  cases hs.symm.trans hs'
  rw [hl, List.flatten_cons, List.append_assoc] at hpre
  have hdata := (List.prefix_append data (rest.flatten ++ s.chunks.flatten)).trans hpre
  refine ⟨hoff, hdata, ?_⟩
  have hlen := hdata.length_le
  simp only [window, List.length_take] at hlen
  have hsplit : t.worker.laneLength - t.worker.downloadedSize =
      data.length + (t.worker.laneLength - (t.worker.downloadedSize + data.length)) := by
    omega
  rw [hsplit, window_add, window_of_isPrefix hdata] at hpre
  rw [← Nat.add_assoc]
  exact (List.prefix_append_right_inj data).1 hpre

theorem Transfer.Ranged.accept {r : Response} (h : Transfer.Ranged store resource t)
    (hp : t.phase = .requesting useRange rangeStart) (hc : t.ServesRange resource (.respond r))
    (hv : validateResponse t.worker r useRange rangeStart = .ok ()) :
    Transfer.Ranged store resource { t with
      stream := some ⟨r, if useRange then rangeStart else t.worker.start, [], r.chunks⟩
      phase := .streaming } := by
  have horder := h.holds.lane.order
  have hphase := h.phase
  rw [hp] at hphase
  obtain ⟨hcounter, rfl, rfl⟩ := hphase
  refine ⟨h.holds.same (.refl _) rfl rfl, ⟨hcounter, _, rfl, rfl, ?_⟩, h.completed⟩
  have hbody := hc _ (by rw [hp]; rfl) hv
  have hrest : t.worker.endByte + 1 - (t.worker.start + t.worker.downloadedSize) =
      t.worker.laneLength - t.worker.downloadedSize := by
    unfold Worker.laneLength
    omega
  rw [hrest] at hbody
  exact hbody

theorem Transfer.Ranged.count {store : FileMap} {fs : FileSystem} (hm : store.Flat)
    (h : Transfer.Ranged store resource t) (hp : t.phase = .streaming) (hs : t.stream = some s)
    (hl : s.slices = data :: rest) (hw : store.writeAt t.fs s.writeOffset data = .ok fs) :
    (t.countSlice s data rest fs).Ranged store resource := by
  obtain ⟨hoff, hdata, hrest⟩ := h.slice hp hs hl
  have hsize := hm.size
  have horder := h.holds.lane.order
  have hlast := h.holds.lane.last
  have hphase := h.phase
  rw [hp] at hphase
  rw [hoff] at hw
  obtain ⟨ha, _, hle, hbytes⟩ := h.holds.write hm hdata hw
  have hnew : t.downloaded + data.length = t.worker.downloadedSize + data.length := by
    rw [hphase.1]
  have hnext : satAdd s.writeOffset data.length =
      t.worker.start + (t.worker.downloadedSize + data.length) := by
    unfold Worker.laneLength at hle
    rw [hoff, ← Nat.add_assoc]
    exact satAdd_of_lt (by omega)
  unfold Transfer.countSlice
  rw [hnew]
  refine ⟨⟨ha, ⟨h.holds.lane.known, h.holds.lane.order, hlast⟩, hle, hbytes⟩, ?_, ?_⟩
  · rw [hp]
    exact ⟨rfl, _, rfl, hnext, hrest⟩
  · intro he
    have hfull := h.completed he
    exact Nat.le_antisymm hle (hfull ▸ Nat.le_add_right _ _)

theorem Transfer.Ranged.step (hm : env.store.Flat) (h : Transfer.Ranged env.store resource t)
    (hc : t.ServesRange resource a) (hmove : Move env t a t') : t'.Ranged env.store resource := by
  have hexp : t.worker.expectedLength = t.worker.laneLength := h.holds.lane.expectedLength hm.size
  have hsize := hm.size
  have horder := h.holds.lane.order
  have hlast := h.holds.lane.last
  have hcount := h.holds.count
  have hphase := h.phase
  cases hmove with
  | idle hw hp =>
    refine ⟨h.holds.same hw rfl rfl, ?_, ?_⟩
    · rcases hp with rfl | ⟨hr, hl⟩
      · exact hphase.same hw
      · refine .rest hr fun hn => ?_
        rw [hw.downloadedSize]
        exact hphase.counter (Phase.isLoop_of_mayRetry (hl hn))
    · intro he
      rw [hw.downloadedSize, hw.laneLength]
      exact h.completed (hw.completed he)
  | begin hp hw hq =>
    refine ⟨h.holds.same hw rfl rfl, ?_, ?_⟩
    · rcases hq with rfl | ⟨rfl, _, hge⟩
      · exact rfl
      · refine ⟨rfl, ?_⟩
        rw [hw.expectedLength, hexp, hw.downloadedSize] at hge
        rw [hw.downloadedSize, hw.laneLength]
        omega
    · intro he
      rw [hw.downloadedSize, hw.laneLength]
      exact h.completed (hw.completed he)
  | request hp supports =>
    rw [hp] at hphase
    refine ⟨h.holds.same (.refl _) rfl rfl, ⟨hphase, ?_, ?_⟩, h.completed⟩
    · rw [h.holds.lane.known, show supports = true from hc]
      rfl
    · rw [show t.downloaded = _ from hphase]
      unfold Worker.laneLength at hcount
      exact satAdd_of_lt (by omega)
  | accept hp hv => exact h.accept hp hc hv
  | @chunk s c rest hp hs hl hch =>
    rw [hp] at hphase
    obtain ⟨hcounter, s', hs', hoff, hpre⟩ := hphase
    cases hs.symm.trans hs'
    refine ⟨h.holds.same (.refl _) rfl rfl, ?_, h.completed⟩
    rw [hp]
    refine ⟨hcounter, _, rfl, hoff, ?_⟩
    rw [hl, hch, List.flatten_nil, List.nil_append, List.flatten_cons] at hpre
    rw [rateLimitSlices_flatten]
    exact hpre
  | slice hp hs hl hw => exact h.count hm hp hs hl hw
  | torn hp hs hl hres hw =>
    obtain ⟨hoff, hdata, _⟩ := h.slice hp hs hl
    rw [hp] at hphase
    rw [hoff] at hw
    obtain ⟨ha, hbytes, _, _⟩ := h.holds.write hm ((List.take_prefix _ _).trans hdata) hw
    exact ⟨⟨ha, h.holds.lane, h.holds.count, hbytes⟩, hphase.1, h.completed⟩
  | ended hp hs he =>
    rw [hp] at hphase
    exact ⟨h.holds.same (.refl _) rfl rfl, hphase.1, h.completed⟩
  | checked hp hn hv =>
    rw [hp] at hphase
    refine ⟨h.holds.same (.refl _) rfl rfl, ⟨hphase, ?_⟩, h.completed⟩
    have hlength := Worker.length_of_validated h.holds.lane.known hv
    rw [hexp, show t.downloaded = _ from hphase] at hlength
    exact hlength
  | finish hp =>
    rw [hp] at hphase
    exact ⟨⟨h.holds.allocated, ⟨h.holds.lane.known, h.holds.lane.order, h.holds.lane.last⟩,
      h.holds.count, h.holds.bytes⟩, trivial, fun _ => hphase.2⟩

/-- A worker with a known lane, in range mode, against sources that serve the resource: whatever
the network and the callers do, the counted bytes of the lane are on disk, and a completed worker
has the whole lane. -/
theorem ranged_worker_holds_resource (env : TransferEnv) (hm : env.store.Flat)
    (resource : List UInt8) (t t' : Transfer) (acts : List TransferAct)
    (hstart : t.phase = .starting) (hstatus : t.worker.status ≠ .completed)
    (hlane : t.worker.InPayload env.store.totalSize) (halloc : Allocated t.fs env.store.segments)
    (hcount : t.worker.downloadedSize ≤ t.worker.laneLength)
    (hbytes : window (env.store.payload t.fs) t.worker.start t.worker.downloadedSize =
      window resource t.worker.start t.worker.downloadedSize)
    (hserves : Transition.Meets (Transfer.step env) (Transfer.ServesRange resource) t acts)
    (hrun : Transition.run (Transfer.step env) t acts = some t') :
    (t'.phase.isLoop = true → t'.downloaded = t'.worker.downloadedSize) ∧
      t'.worker.downloadedSize ≤ t.worker.laneLength ∧
      window (env.store.payload t'.fs) t.worker.start t'.worker.downloadedSize =
        window resource t.worker.start t'.worker.downloadedSize ∧
      (t'.worker.status = .completed →
        window (env.store.payload t'.fs) t.worker.start t.worker.laneLength =
          window resource t.worker.start t.worker.laneLength) := by
  have hinit : t.Ranged env.store resource := by
    refine ⟨⟨halloc, hlane, hcount, hbytes⟩, ?_, fun he => absurd he hstatus⟩
    rw [hstart]
    trivial
  have h : t'.Ranged env.store resource :=
    hserves.invariant (fun s a s' hs hc hstep => hs.step hm hc (Transfer.step_move hstep)) hinit hrun
  obtain ⟨hfirst, hend, _⟩ := Transfer.run_lane hrun
  have hlen : t.worker.laneLength = t'.worker.laneLength := by
    simp only [Worker.laneLength, hfirst, hend]
  rw [← hfirst, hlen]
  refine ⟨h.phase.counter, h.holds.count, h.holds.bytes, fun he => ?_⟩
  rw [← h.completed he]
  exact h.holds.bytes

/-- A map of one file. -/
def oneFile (total : Nat) : FileMap := ⟨[⟨"/file.bin", 0, total⟩], total, true⟩

/-- The first run of the worker of a lane, over freshly allocated files. -/
def newTransfer (store : FileMap) (lane : ExecutionLaneAssignment) : Transfer where
  worker := .new lane.laneId
    (.fromSpec (.https "https://example.com/file.bin") none) lane none none none
  downloaded := 0
  retryCount := 0
  fs := store.prepare .empty
  phase := .starting
  stream := none
  streamTotal := none

theorem oneFile_flat (h : total < 2 ^ 64) : (oneFile total).Flat :=
  ⟨⟨rfl, Nat.zero_add total⟩, List.nodup_singleton _, rfl, h⟩

def fourByteLane : ExecutionLaneAssignment :=
  ⟨0, "https::https://example.com/file.bin", true, 0, 0, 0, 0, 0, 3⟩

/-- A connection that breaks after two bytes, and a retry that brings the other two. -/
def brokenThenResumed : List TransferAct :=
  [.proceed, .turn true,
    .respond ⟨206, "206 Partial Content", some (some "bytes 0-3/4"), [[1, 2]], some "reset"⟩,
    .proceed, .proceed, .proceed, .retry none, .turn true,
    .respond ⟨206, "206 Partial Content", some (some "bytes 2-3/4"), [[3, 4]], none⟩,
    .proceed, .proceed, .proceed, .proceed, .proceed]

theorem resumed_lane_holds_resource :
    let env : TransferEnv := ⟨oneFile 4, 3⟩
    ∃ t', Transition.run (Transfer.step env) (newTransfer env.store fourByteLane) brokenThenResumed =
        some t' ∧ t'.worker.status = .completed ∧
      window (env.store.payload t'.fs) 0 4 = window [1, 2, 3, 4] 0 4 := by
  intro env
  obtain ⟨t', hrun, hdone⟩ : ∃ t', Transition.run (Transfer.step env)
      (newTransfer env.store fourByteLane) brokenThenResumed = some t' ∧
      t'.worker.status = .completed :=
    Transition.run_any (by decide)
  have hflat := oneFile_flat (show 4 < 2 ^ 64 by decide)
  have h := ranged_worker_holds_resource env hflat [1, 2, 3, 4] _ t' brokenThenResumed rfl
    (by decide) ⟨rfl, by decide, by decide⟩ (hflat.prepare .empty) (by decide) rfl
    (by decide) hrun
  exact ⟨t', hrun, hdone, h.2.2.2 hdone⟩

end Paradown
