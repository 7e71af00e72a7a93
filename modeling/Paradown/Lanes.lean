import Paradown.Ranged
import Paradown.Layout
import Mathlib.Data.List.Pairwise

namespace Paradown
set_option autoImplicit true

/-- Two lanes without a common byte. -/
def Apart (a b : ExecutionLaneAssignment) : Prop := a.endByte < b.start ∨ b.endByte < a.start

instance : Std.Symm Apart := ⟨fun _ _ h => h.symm⟩

theorem LaneChain.apart (h : LaneChain n count sources k base lanes total) :
    lanes.Pairwise Apart := by
  apply h.tiles.ordered.imp_of_mem
  intro a b ha hb hle
  have hbounds := h.bounds a ha
  apply Or.inl
  omega

/-- Distinct lanes of a plan share no byte. -/
theorem LaneChain.apart_of_ne (h : LaneChain n count sources k base lanes total) (ha : a ∈ lanes)
    (hb : b ∈ lanes) (hne : a ≠ b) : Apart a b :=
  h.apart.forall ha hb hne

/-- The write that a step performs: the offset and the bytes that `write_at` has put there. -/
def Transfer.written (env : TransferEnv) (t : Transfer) : TransferAct → Option (Nat × List UInt8)
  | .proceed =>
    match t.phase, t.stream with
    | .streaming, some s =>
      match s.slices with
      | data :: _ =>
        if t.worker.shouldStopGracefully || t.worker.paused then none
        else
          match env.store.writeAt t.fs s.writeOffset data with
          | .ok _ => some (s.writeOffset, data)
          | .error _ => none
      | [] => none
    | _, _ => none
  | .writeFails written _ =>
    match t.phase, t.stream with
    | .streaming, some s =>
      match s.slices with
      | data :: _ => some (s.writeOffset, data.take written)
      | [] => none
    | _, _ => none
  | _ => none

/-- Every byte that the step writes lies in the lane of the worker. -/
def Transfer.WritesInLane (env : TransferEnv) (t : Transfer) (a : TransferAct) : Prop :=
  ∀ t', t.step env a = some t' → ∀ offset data, t.written env a = some (offset, data) →
    ∀ byte, offset ≤ byte → byte < offset + data.length →
      t.worker.start ≤ byte ∧ byte ≤ t.worker.endByte

/-- The body of a response that begins to be written out is no longer than the part of the lane
behind its first byte, or the lane ends where the payload does. -/
def Transfer.BodyFits (store : FileMap) (t : Transfer) : TransferAct → Prop
  | .respond r =>
    match t.phase with
    | .requesting useRangeRequests rangeStart =>
      validateResponse t.worker r useRangeRequests rangeStart = .ok () →
      t.worker.endByte + 1 = store.totalSize ∨
        (if useRangeRequests then rangeStart else t.worker.start) + r.body.length ≤
          t.worker.endByte + 1
    | _ => True
  | _ => True

/-- What is left of the response fits in what is left of the lane, unless the payload ends there. -/
def LanePhase (store : FileMap) (w : Worker) (stream : Option BodyStream) : Phase → Prop
  | .requesting _ rangeStart => w.start ≤ rangeStart ∧ rangeStart < 2 ^ 64
  | .streaming => ∃ s, stream = some s ∧ w.start ≤ s.writeOffset ∧ s.writeOffset < 2 ^ 64 ∧
    (w.endByte + 1 = store.totalSize ∨
      s.writeOffset + (s.slices.flatten ++ s.chunks.flatten).length ≤ w.endByte + 1)
  | _ => True

structure Transfer.KeepsLane (store : FileMap) (t : Transfer) : Prop where
  allocated : Allocated t.fs store.segments
  lane : t.worker.InPayload store.totalSize
  phase : LanePhase store t.worker t.stream t.phase

theorem LanePhase.same (h : LanePhase store w stream phase) (hw : SameRange w w') :
    LanePhase store w' stream phase := by
  cases phase <;> simp only [LanePhase, hw.start, hw.endByte] at h ⊢ <;> exact h

theorem LanePhase.rest (hr : Phase.isRest next = true) : LanePhase store w stream next := by
  cases next with
  | requesting u rs => cases hr
  | streaming => cases hr
  | _ => trivial

theorem Transfer.KeepsLane.write (h : Transfer.KeepsLane store t) (hm : store.Flat)
    (hp : t.phase = .streaming) (hs : t.stream = some s) (hl : s.slices = data :: rest)
    (hpart : part.length ≤ data.length)
    (hw : store.writeAt t.fs s.writeOffset part = .ok next) :
    Allocated next store.segments ∧
      store.payload next = splice (store.payload t.fs) s.writeOffset part ∧
      t.worker.start ≤ s.writeOffset ∧ s.writeOffset + part.length ≤ t.worker.endByte + 1 := by
  have hphase := h.phase
  rw [hp] at hphase
  obtain ⟨s', hs', hge, hlt, hfit⟩ := hphase
  cases hs.symm.trans hs'
  have hin : s.writeOffset + part.length ≤ store.totalSize := by
    apply Nat.le_of_not_lt
    intro hout
    obtain ⟨err, he⟩ := hm.resolveWrites_error hlt hout
    simp only [FileMap.writeAt, he, bind, Except.bind] at hw
    cases hw
  obtain ⟨fs', hok, ha, hpay⟩ := hm.writeAt h.allocated hin
  cases hok.symm.trans hw
  refine ⟨ha, hpay, hge, ?_⟩
  rcases hfit with hend | hfit
  · omega
  · rw [hl, List.flatten_cons] at hfit
    simp only [List.length_append] at hfit
    omega

theorem Transfer.KeepsLane.step (h : Transfer.KeepsLane env.store t) (hm : env.store.Flat)
    (hc : t.BodyFits env.store a) (hmove : Move env t a t') : t'.KeepsLane env.store := by
  have hphase := h.phase
  have hsize := hm.size
  have horder := h.lane.order
  have hlast := h.lane.last
  cases hmove with
  | idle hw hp =>
    refine ⟨h.allocated, hw.inPayload h.lane, ?_⟩
    rcases hp with rfl | ⟨hr, _⟩
    · exact hphase.same hw
    · exact .rest hr
  | begin hp hw hq =>
    refine ⟨h.allocated, hw.inPayload h.lane, ?_⟩
    rcases hq with rfl | ⟨rfl, _⟩ <;> trivial
  | request hp supports =>
    refine ⟨h.allocated, h.lane, ?_, ?_⟩
    · change t.worker.start ≤ satAdd t.worker.start t.downloaded
      unfold satAdd
      omega
    · unfold satAdd
      omega
  | @accept useRange rangeStart r hp hv =>
    simp only [Transfer.BodyFits, hp] at hc
    rw [hp] at hphase
    refine ⟨h.allocated, h.lane, _, rfl, ?_, ?_, ?_⟩
    · simp only
      split
      · exact hphase.1
      · exact le_refl _
    · simp only
      split
      · exact hphase.2
      · omega
    · exact hc hv
  | @chunk s c rest hp hs hl hch =>
    rw [hp] at hphase
    obtain ⟨s', hs', hge, hlt, hfit⟩ := hphase
    cases hs.symm.trans hs'
    refine ⟨h.allocated, h.lane, ?_⟩
    rw [hp]
    refine ⟨_, rfl, hge, hlt, ?_⟩
    rw [hl, hch, List.flatten_nil, List.nil_append, List.flatten_cons] at hfit
    rw [rateLimitSlices_flatten]
    exact hfit
  | @slice s data rest fs hp hs hl hw =>
    obtain ⟨ha, _, hge, hle⟩ := h.write hm hp hs hl (le_refl _) hw
    rw [hp] at hphase
    obtain ⟨s', hs', _, hlt, hfit⟩ := hphase
    cases hs.symm.trans hs'
    have hnext : satAdd s.writeOffset data.length = s.writeOffset + data.length :=
      satAdd_of_lt (by omega)
    refine ⟨ha, ⟨h.lane.known, horder, hlast⟩, ?_⟩
    rw [show (t.countSlice s data rest fs).phase = .streaming from hp]
    refine ⟨_, rfl, ?_, ?_, ?_⟩
    · change t.worker.start ≤ satAdd s.writeOffset data.length
      omega
    · change satAdd s.writeOffset data.length < 2 ^ 64
      omega
    · refine hfit.imp_right fun hfit => ?_
      rw [hl, List.flatten_cons, List.append_assoc, List.length_append] at hfit
      change satAdd s.writeOffset data.length + (rest.flatten ++ s.chunks.flatten).length ≤ _
      rw [hnext]
      exact Nat.le_trans (le_of_eq (Nat.add_assoc _ _ _)) hfit
  | torn hp hs hl hres hw =>
    obtain ⟨ha, _, _, _⟩ := h.write hm hp hs hl (List.length_take_le' _ _) hw
    exact ⟨ha, h.lane, trivial⟩
  | ended hp hs he => exact ⟨h.allocated, h.lane, trivial⟩
  | checked hp hn hv => exact ⟨h.allocated, h.lane, trivial⟩
  | finish hp => exact ⟨h.allocated, ⟨h.lane.known, horder, hlast⟩, trivial⟩

/-- A step leaves the files alone, or overwrites a window of the payload inside the lane. -/
theorem Transfer.KeepsLane.step_payload (h : Transfer.KeepsLane env.store t) (hm : env.store.Flat)
    (hmove : Move env t a t') :
    t'.fs = t.fs ∨ ∃ offset part, t.worker.start ≤ offset ∧
      offset + part.length ≤ t.worker.endByte + 1 ∧
      env.store.payload t'.fs = splice (env.store.payload t.fs) offset part := by
  cases hmove with
  | @slice s data rest fs hp hs hl hw =>
    obtain ⟨_, hpay, hge, hle⟩ := h.write hm hp hs hl (le_refl _) hw
    exact .inr ⟨s.writeOffset, data, hge, hle, hpay⟩
  | @torn s data rest written fs err writes hp hs hl hres hw =>
    obtain ⟨_, hpay, hge, hle⟩ := h.write hm hp hs hl (List.length_take_le' _ _) hw
    exact .inr ⟨_, _, hge, hle, hpay⟩
  | _ => exact .inl rfl

theorem Transfer.KeepsLane.writesInLane (h : Transfer.KeepsLane env.store t) (hm : env.store.Flat)
    (a : TransferAct) : t.WritesInLane env a := by
  intro t' hstep offset data hwritten byte hge hlt
  have hbound : t.worker.start ≤ offset ∧ offset + data.length ≤ t.worker.endByte + 1 := by
    cases a with
    | proceed =>
      simp only [Transfer.written] at hwritten
      split at hwritten
      · split at hwritten
        · split at hwritten
          · cases hwritten
          · split at hwritten
            · cases hwritten
              obtain ⟨_, _, hge, hle⟩ := h.write hm ‹_› ‹_› ‹_› (le_refl _) ‹_›
              exact ⟨hge, hle⟩
            · cases hwritten
        · cases hwritten
      · cases hwritten
    | writeFails written err =>
      simp only [Transfer.written] at hwritten
      split at hwritten
      · rename_i s hp hs
        split at hwritten
        · rename_i whole rest hl
          cases hwritten
          simp only [Transfer.step, Transfer.writeFails, hp, hs, hl] at hstep
          split at hstep
          · cases hstep
          · split at hstep
            · obtain ⟨_, _, hge, hle⟩ := h.write hm hp hs hl (List.length_take_le' _ _) ‹_›
              exact ⟨hge, hle⟩
            · cases hstep
        · cases hwritten
      · cases hwritten
    | _ => cases hwritten
  omega

/-- The bytes of a lane in the payload. -/
def laneBytes (payload : List UInt8) (lane : ExecutionLaneAssignment) : List UInt8 :=
  window payload lane.start (lane.endByte + 1 - lane.start)

/-- The lanes of a plan, one worker of them, and a run of it in which every body fits in its lane:
whatever happens next, the bytes it writes are in its own lane and the other lanes keep theirs. -/
theorem lane_writes_are_isolated (env : TransferEnv) (hm : env.store.Flat)
    (manifest : SessionManifest) (hplanned : manifest.Planned)
    (htotal : env.store.totalSize = manifest.totalSize)
    (hsources : manifest.sources.activeTransferSources ≠ [])
    (requestedWorkers : Nat) (allowParallel : Bool) (preferred : List String)
    (lanes : List ExecutionLaneAssignment)
    (hplan : planExecutionLanesWithSourceOrder manifest requestedWorkers allowParallel preferred =
      some lanes)
    (lane : ExecutionLaneAssignment) (t t' : Transfer) (acts : List TransferAct)
    (hlane : lane ∈ lanes)
    (hworker : t.worker.lengthKnown = lane.lengthKnown ∧ t.worker.start = lane.start ∧
      t.worker.endByte = lane.endByte)
    (hstart : t.phase = .starting) (halloc : Allocated t.fs env.store.segments)
    (hfits : Transition.Meets (Transfer.step env) (Transfer.BodyFits env.store) t acts)
    (hrun : Transition.run (Transfer.step env) t acts = some t') (a : TransferAct) :
    t'.WritesInLane env a ∧
      ∀ t'', t'.step env a = some t'' →
        ∀ other ∈ lanes, other ≠ lane →
          laneBytes (env.store.payload t''.fs) other = laneBytes (env.store.payload t'.fs) other := by
  have hchain := hplanned.laneChain hsources hplan
  have hknown := hchain.known lane hlane
  obtain ⟨_, hord, hend⟩ := hchain.bounds lane hlane
  have hinit : t.KeepsLane env.store := by
    refine ⟨halloc, ⟨hworker.1.trans hknown, ?_, ?_⟩, ?_⟩
    · rw [hworker.2.1, hworker.2.2]
      exact hord
    · rw [hworker.2.2, htotal]
      exact hend
    · rw [hstart]
      trivial
  have h : t'.KeepsLane env.store :=
    hfits.invariant (fun s a s' hs hc hstep => hs.step hm hc (Transfer.step_move hstep)) hinit hrun
  obtain ⟨hfirst, hlast, _⟩ := Transfer.run_lane hrun
  refine ⟨h.writesInLane hm a, fun t'' hstep other hother hne => ?_⟩
  rcases h.step_payload hm (Transfer.step_move hstep) with hfs | ⟨offset, part, hge, hle, hpay⟩
  · rw [hfs]
  · have hlen := hm.payload_length h.allocated
    have hlt := h.lane.last
    have hoth := (hchain.bounds other hother).2.1
    rw [hpay, laneBytes, laneBytes]
    rcases hchain.apart_of_ne hother hlane hne with hap | hap
    · apply window_splice_before <;> omega
    · apply window_splice_after <;> omega

def fourByteStore : FileMap := .fromManifest fourByteManifest

theorem fourByteStore_flat : fourByteStore.Flat :=
  ⟨⟨rfl, rfl⟩, by decide, rfl, by decide⟩

def leftLane : ExecutionLaneAssignment :=
  ⟨0, "https::https://example.com/file.bin", true, 0, 0, 0, 0, 0, 1⟩

def rightLane : ExecutionLaneAssignment :=
  ⟨1, "https::https://example.com/file.bin", true, 1, 1, 0, 0, 2, 3⟩

theorem fourByteManifest_lanes :
    planExecutionLanesWithSourceOrder fourByteManifest 2 true [] = some [leftLane, rightLane] := by
  decide

/-- The worker of the left lane, when the right one has been completed. -/
def leftTransfer : Transfer :=
  { newTransfer fourByteStore leftLane with
    fs := fourByteStore.write (fourByteStore.prepare .empty) ⟨2, [7, 8]⟩ }

/-- The answer to the request for `bytes=0-1`, up to where its first slice is to be written. -/
def answeredWith (body : List UInt8) : List TransferAct :=
  [.proceed, .turn true,
    .respond ⟨206, "206 Partial Content", some (some "bytes 0-1/4"), [body], none⟩, .proceed]

instance (store : FileMap) (t : Transfer) : (a : TransferAct) → Decidable (t.BodyFits store a)
  | .respond r =>
    match h : t.phase with
    | .requesting useRangeRequests rangeStart =>
      decidable_of_iff (validateResponse t.worker r useRangeRequests rangeStart = .ok () →
        t.worker.endByte + 1 = store.totalSize ∨
          (if useRangeRequests then rangeStart else t.worker.start) + r.body.length ≤
            t.worker.endByte + 1) (by simp only [Transfer.BodyFits, h])
    | .starting | .attempt | .streaming | .streamed | .retrying _ | .succeeding | .finished _ =>
      isTrue (by simp only [Transfer.BodyFits, h])
  | .turn _ | .pause | .resume | .cancel | .delete | .proceed | .buildFails _ | .sendFails _
  | .storeFails _ _ | .writeFails _ _ | .retry _ => isTrue trivial

theorem exact_body_stays_in_lane :
    let env : TransferEnv := ⟨fourByteStore, 3⟩
    ∃ t' t'', Transition.run (Transfer.step env) leftTransfer (answeredWith [1, 2]) = some t' ∧
      t'.step env .proceed = some t'' ∧
      env.store.payload t''.fs = [1, 2, 7, 8] ∧ t'.WritesInLane env .proceed ∧
      laneBytes (env.store.payload t''.fs) rightLane =
        laneBytes (env.store.payload t'.fs) rightLane := by
  intro env
  obtain ⟨t', hrun, hnext⟩ : ∃ t', Transition.run (Transfer.step env) leftTransfer
      (answeredWith [1, 2]) = some t' ∧
      ((t'.step env .proceed).map fun t'' => env.store.payload t''.fs) = some [1, 2, 7, 8] :=
    Transition.run_any (by decide)
  obtain ⟨t'', hstep, hpay⟩ := Option.map_eq_some_iff.1 hnext
  have h := lane_writes_are_isolated env fourByteStore_flat fourByteManifest
    (forSingleFile_planned (by decide) (by decide)) rfl (by decide) 2 true [] _ fourByteManifest_lanes
    leftLane leftTransfer t' (answeredWith [1, 2]) List.mem_cons_self
    ⟨rfl, rfl, rfl⟩ rfl
    (fourByteStore_flat.write (fourByteStore_flat.prepare .empty) ⟨2, [7, 8]⟩).1
    (by decide) hrun .proceed
  refine ⟨t', t'', hrun, hstep, hpay, h.1, h.2 t'' hstep rightLane ?_ (by decide)⟩
  exact List.mem_cons_of_mem _ List.mem_cons_self

/-- A 206 response with the right `Content-Range` and one byte too many: the worker of the left
lane writes it over the first byte of the completed right lane. -/
theorem long_body_leaves_lane :
    let env : TransferEnv := ⟨fourByteStore, 3⟩
    ∃ t' t'', Transition.run (Transfer.step env) leftTransfer (answeredWith [1, 2, 9]) = some t' ∧
      t'.step env .proceed = some t'' ∧ ¬ t'.WritesInLane env .proceed ∧
      laneBytes (env.store.payload t'.fs) rightLane = [7, 8] ∧
      laneBytes (env.store.payload t''.fs) rightLane = [9, 8] := by
  intro env
  obtain ⟨t', hrun, hbefore, hwritten, hlane, hnext⟩ : ∃ t', Transition.run (Transfer.step env)
      leftTransfer (answeredWith [1, 2, 9]) = some t' ∧
      laneBytes (env.store.payload t'.fs) rightLane = [7, 8] ∧
      t'.written env .proceed = some (0, [1, 2, 9]) ∧ t'.worker.endByte = 1 ∧
      ((t'.step env .proceed).map fun t'' => laneBytes (env.store.payload t''.fs) rightLane) =
        some [9, 8] :=
    Transition.run_any (by decide)
  obtain ⟨t'', hstep, hafter⟩ := Option.map_eq_some_iff.1 hnext
  refine ⟨t', t'', hrun, hstep, fun h => ?_, hbefore, hafter⟩
  have hin := (h t'' hstep 0 [1, 2, 9] hwritten 2 (by decide) (by decide)).2
  rw [hlane] at hin
  exact absurd hin (by decide)

end Paradown
