import Paradown.Ranged

namespace Paradown
set_option autoImplicit true

/-- The store of a download of unknown length: one file that grows as it is written. -/
structure FileMap.Streams (m : FileMap) : Prop where
  unbounded : m.bounded = false
  single : ∃ segment, m.segments = [segment]

/-- A store that is ready to be written to: all files allocated, or a single growing one. -/
def FileMap.Ready (m : FileMap) (fs : FileSystem) : Prop :=
  m.Flat ∧ Allocated fs m.segments ∨ m.Streams

theorem splice_length_le {xs ys : List α} (hx : xs.length ≤ n) (hy : offset + ys.length ≤ n) :
    (splice xs offset ys).length ≤ n := by
  simp only [splice, List.length_append, List.length_take, List.length_drop]
  omega

theorem FileMap.Streams.writeAt {m : FileMap} (h : m.Streams)
    (ho : offset ≤ (m.payload fs).length) :
    ∃ fs', m.writeAt fs offset data = .ok fs' ∧ m.payload fs' = splice (m.payload fs) offset data := by
  obtain ⟨segment, hseg⟩ := h.single
  have hr : m.resolveWrites offset data.length = .ok [⟨segment.path, offset, 0, data.length⟩] := by
    simp only [FileMap.resolveWrites, h.unbounded, hseg, Bool.not_false, if_true]
  refine ⟨writeSlice data fs ⟨segment.path, offset, 0, data.length⟩, ?_, ?_⟩
  · simp only [FileMap.writeAt, hr, bind, Except.bind, pure, Except.pure, List.foldl_cons,
      List.foldl_nil]
  have hpay (fs : FileSystem) : m.payload fs = fs.contentOf segment.path := by
    simp [FileMap.payload, hseg, payloadOf]
  rw [hpay] at ho
  rw [hpay, hpay]
  simp only [writeSlice, List.drop_zero, Nat.sub_zero, List.take_length]
  cases hf : fs.file segment.path with
  | some f =>
    rw [FileSystem.openOrCreate_some hf]
    simp only [FileSystem.contentOf, hf, Option.map_some, Option.getD_some, File.content_length,
      FileSystem.modify_self] at ho ⊢
    exact writeCells_content ho
  | none =>
    simp only [FileSystem.contentOf, hf, Option.map_none, Option.getD_none, List.length_nil,
      FileSystem.modify_self, FileSystem.openOrCreate_none hf, Option.map_some,
      Option.getD_some] at ho ⊢
    exact writeCells_content ho

/-- A successful write of a ready store overwrites a window of its payload; a growing file may
become longer by it. -/
theorem FileMap.Ready.writeAt {m : FileMap} (h : m.Ready fs) (ho : offset < 2 ^ 64)
    (hs : m.Streams → offset ≤ (m.payload fs).length)
    (hw : m.writeAt fs offset data = .ok fs') :
    m.Ready fs' ∧ offset ≤ (m.payload fs).length ∧
      m.payload fs' = splice (m.payload fs) offset data := by
  rcases h with ⟨hm, ha⟩ | hm
  · have hfits : offset + data.length ≤ m.totalSize := by
      apply Nat.le_of_not_lt
      intro hlt
      obtain ⟨err, he⟩ := hm.resolveWrites_error ho hlt
      simp only [FileMap.writeAt, he, bind, Except.bind] at hw
      cases hw
    obtain ⟨fs'', hok, ha', hpay⟩ := hm.writeAt ha hfits
    cases hok.symm.trans hw
    refine ⟨.inl ⟨hm, ha'⟩, ?_, hpay⟩
    rw [hm.payload_length ha]
    omega
  · obtain ⟨fs'', hok, hpay⟩ := hm.writeAt (hs hm)
    cases hok.symm.trans hw
    exact ⟨.inr hm, hs hm, hpay⟩

/-- A worker that streams without ranges: over a lane of known length, or from the start of a file
whose length is not known. -/
def Worker.Single (w : Worker) (store : FileMap) : Prop :=
  w.lengthKnown = true ∧ store.Flat ∨ w.lengthKnown = false ∧ w.start = 0 ∧ store.Streams

/-- The counter is the number of bytes of the current response written from the start of the lane,
and these bytes are there. -/
def Transfer.CountsCurrent (store : FileMap) (t : Transfer) : Prop :=
  match t.stream with
  | none => t.downloaded = 0
  | some s => s.writeOffset = t.worker.start + t.downloaded ∧
    t.downloaded ≤ s.response.body.length ∧
    window (store.payload t.fs) t.worker.start t.downloaded = s.response.body.take t.downloaded

/-- Nothing of the body is left, and it ended without an error. -/
def BodyStream.Complete (s : BodyStream) : Prop :=
  s.slices = [] ∧ s.chunks = [] ∧ s.response.failure = none

/-- What a run without ranges promises in a state it reaches. -/
structure Transfer.StreamsHonestly (env : TransferEnv) (t : Transfer) : Prop where
  counter : t.phase.isLoop = true → t.CountsCurrent env.store
  /-- A worker that has received a complete body of the expected length completes. -/
  succeeds : t.phase = .streamed → t.worker.shouldStopGracefully = false →
    t.worker.lengthKnown = true → t.stream = some s →
    s.response.body.length = t.worker.expectedLength →
    ∃ t', Transition.run (Transfer.step env) t [.proceed, .proceed] = some t' ∧
      t'.worker.status = .completed
  /-- The size reported for a stream of unknown length is that of the last body, which was
  complete, and the file is that body. -/
  total : t.streamTotal = some n → ∃ s, t.stream = some s ∧ s.Complete ∧
    n = s.response.body.length ∧ env.store.payload t.fs = s.response.body

/-- The response will be written out. -/
def Transfer.accepts (t : Transfer) (r : Response) : Bool :=
  match t.phase with
  | .requesting useRangeRequests rangeStart =>
    (validateResponse t.worker r useRangeRequests rangeStart).isOk
  | _ => false

/-- The worker does not use range requests. -/
def Transfer.WithoutRanges (t : Transfer) : TransferAct → Prop
  | .turn supportsRangeRequests => (t.worker.lengthKnown && supportsRangeRequests) = false
  | _ => True

/-- The counter is zero whenever a response is accepted to be written out: the worker was seeded with
zero, and no earlier response of the run left a byte. The body is one whose length a `u64` holds
and, where it replaces the whole file, no shorter than what is there. -/
def Transfer.StartsFresh (store : FileMap) (t : Transfer) : TransferAct → Prop
  | .proceed => t.phase = .starting → t.worker.downloadedSize = 0
  | .respond r => t.accepts r = true → t.downloaded = 0 ∧
    t.worker.start + r.body.length < 2 ^ 64 ∧
    (t.worker.lengthKnown = false → r.failure = none →
      (store.payload t.fs).length ≤ r.body.length)
  | _ => True

/-- What is left of the response is what follows the counted bytes of its body. -/
structure InBody (store : FileMap) (t : Transfer) (s : BodyStream) : Prop where
  rest : s.response.body.drop t.downloaded = s.slices.flatten ++ s.chunks.flatten
  size : t.worker.start + s.response.body.length < 2 ^ 64
  file : t.worker.lengthKnown = false → s.response.failure = none →
    (store.payload t.fs).length ≤ s.response.body.length

def SinglePhase (store : FileMap) (t : Transfer) : Phase → Prop
  | .starting => t.stream = none ∧ t.streamTotal = none
  | .requesting useRangeRequests _ => useRangeRequests = false ∧ t.streamTotal = none
  | .streaming => t.streamTotal = none ∧ ∃ s, t.stream = some s ∧ InBody store t s
  | .streamed => t.streamTotal = none ∧ ∃ s, t.stream = some s ∧ InBody store t s ∧
    (t.worker.shouldStopGracefully = true ∨ s.Complete)
  | .attempt | .retrying _ => t.streamTotal = none
  | .succeeding | .finished _ => True

/-- What every step of a run without ranges keeps. -/
structure Transfer.Single (env : TransferEnv) (t : Transfer) : Prop where
  worker : t.worker.Single env.store
  ready : env.store.Ready t.fs
  counter : t.phase.isLoop = true → t.CountsCurrent env.store
  phase : SinglePhase env.store t t.phase
  total : t.streamTotal = some n → ∃ s, t.stream = some s ∧ s.Complete ∧
    n = s.response.body.length ∧ env.store.payload t.fs = s.response.body

theorem FileMap.Streams.not_flat {m : FileMap} (h : m.Streams) : ¬ m.Flat := by
  intro hm
  have hb := h.unbounded
  rw [hm.bounded] at hb
  cases hb

theorem SameRange.single (h : SameRange w w') (hw : w.Single store) : w'.Single store := by
  unfold Worker.Single at hw ⊢
  rw [h.lengthKnown, h.start]
  exact hw

theorem Worker.Single.start_eq {w : Worker} (h : w.Single store) (hk : w.lengthKnown = false) :
    w.start = 0 := by
  rcases h with ⟨hk', _⟩ | ⟨_, hz, _⟩
  · rw [hk] at hk'
    cases hk'
  · exact hz

theorem InBody.complete (h : InBody store t s) (hs : s.Complete)
    (hc : t.downloaded ≤ s.response.body.length) : t.downloaded = s.response.body.length := by
  have hr := h.rest
  rw [hs.1, hs.2.1] at hr
  have hl := congrArg List.length hr
  simp only [List.length_drop, List.flatten_nil, List.append_nil, List.length_nil] at hl
  omega

theorem Transfer.CountsCurrent.same {t t' : Transfer} (h : t.CountsCurrent store)
    (hst : t'.stream = t.stream) (hd : t'.downloaded = t.downloaded)
    (hw : t'.worker.start = t.worker.start) (hfs : t'.fs = t.fs) : t'.CountsCurrent store := by
  unfold Transfer.CountsCurrent at h ⊢
  rw [hst, hd, hw, hfs]
  exact h

theorem InBody.same {t t' : Transfer} (h : InBody store t s) (hd : t'.downloaded = t.downloaded)
    (hw : SameRange t.worker t'.worker) (hfs : t'.fs = t.fs) : InBody store t' s := by
  refine ⟨hd ▸ h.rest, hw.start ▸ h.size, ?_⟩
  rw [hw.lengthKnown, hfs]
  exact h.file

theorem SinglePhase.same {t t' : Transfer} (h : SinglePhase store t phase)
    (hst : t'.stream = t.stream) (hd : t'.downloaded = t.downloaded)
    (hw : SameRange t.worker t'.worker) (hfs : t'.fs = t.fs)
    (htot : t'.streamTotal = t.streamTotal) : SinglePhase store t' phase := by
  cases phase with
  | starting => exact ⟨hst.trans h.1, htot.trans h.2⟩
  | requesting u rs => exact ⟨h.1, htot.trans h.2⟩
  | streaming =>
    obtain ⟨hnone, s, hs, hbody⟩ := h
    exact ⟨htot.trans hnone, s, hst.trans hs, hbody.same hd hw hfs⟩
  | streamed =>
    obtain ⟨hnone, s, hs, hbody, hend⟩ := h
    exact ⟨htot.trans hnone, s, hst.trans hs, hbody.same hd hw hfs, hend.imp_left hw.stop⟩
  | attempt => exact htot.trans h
  | retrying err => exact htot.trans h
  | succeeding => trivial
  | finished r => trivial

/-- Nothing has been reported while a next attempt is possible. -/
theorem SinglePhase.unreported (h : SinglePhase store t phase) (hp : phase.mayRetry = true) :
    t.streamTotal = none := by
  cases phase with
  | requesting u rs => exact h.2
  | streaming => exact h.1
  | attempt => exact h
  | retrying err => exact h
  | starting => cases hp
  | streamed => cases hp
  | succeeding => cases hp
  | finished r => cases hp

theorem SinglePhase.rest (hr : Phase.isRest next = true)
    (hn : next.isLoop = true → t.streamTotal = none) : SinglePhase store t next := by
  cases next with
  | attempt => exact hn rfl
  | retrying err => exact hn rfl
  | finished r => trivial
  | starting => cases hr
  | requesting u rs => cases hr
  | streaming => cases hr
  | streamed => cases hr
  | succeeding => cases hr

theorem Transfer.Single.body (h : Transfer.Single env t) (hp : t.phase = .streaming)
    (hs : t.stream = some s) :
    t.streamTotal = none ∧ InBody env.store t s ∧
      s.writeOffset = t.worker.start + t.downloaded ∧ t.downloaded ≤ s.response.body.length ∧
      window (env.store.payload t.fs) t.worker.start t.downloaded =
        s.response.body.take t.downloaded := by
  have hcounter := h.counter (hp ▸ rfl)
  simp only [Transfer.CountsCurrent, hs] at hcounter
  have hphase := h.phase
  rw [hp] at hphase
  obtain ⟨hnone, s', hs', hbody⟩ := hphase
  cases hs.symm.trans hs'
  exact ⟨hnone, hbody, hcounter⟩

theorem Transfer.Single.slice (h : Transfer.Single env t) (hp : t.phase = .streaming)
    (hs : t.stream = some s) (hl : s.slices = data :: rest) :
    s.writeOffset = t.worker.start + t.downloaded ∧
      t.downloaded + data.length ≤ s.response.body.length ∧
      s.response.body.take (t.downloaded + data.length) =
        s.response.body.take t.downloaded ++ data ∧
      s.response.body.drop (t.downloaded + data.length) = rest.flatten ++ s.chunks.flatten := by
  obtain ⟨_, hbody, hoff, hle, _⟩ := h.body hp hs
  have hrest := hbody.rest
  rw [hl, List.flatten_cons, List.append_assoc] at hrest
  have hlen := congrArg List.length hrest
  simp only [List.length_drop, List.length_append] at hlen
  refine ⟨hoff, by omega, ?_, ?_⟩
  · rw [List.take_add, hrest, List.take_left]
  · rw [← List.drop_drop, hrest, List.drop_left]

theorem Transfer.Single.write {fs : FileSystem} {part : List UInt8} (h : Transfer.Single env t)
    (hp : t.phase = .streaming) (hs : t.stream = some s)
    (hw : env.store.writeAt t.fs (t.worker.start + t.downloaded) part = .ok fs) :
    env.store.Ready fs ∧
      env.store.payload fs = splice (env.store.payload t.fs) (t.worker.start + t.downloaded) part ∧
      window (env.store.payload fs) t.worker.start t.downloaded =
        s.response.body.take t.downloaded ∧
      window (env.store.payload fs) t.worker.start (t.downloaded + part.length) =
        s.response.body.take t.downloaded ++ part := by
  obtain ⟨_, hbody, _, hle, hbytes⟩ := h.body hp hs
  have hsize := hbody.size
  have hgrow (hm : env.store.Streams) :
      t.worker.start + t.downloaded ≤ (env.store.payload t.fs).length := by
    rcases h.worker with ⟨_, hf⟩ | ⟨_, hz, _⟩
    · exact absurd hf hm.not_flat
    · have hl := congrArg List.length hbytes
      simp only [window, hz, List.drop_zero, List.length_take] at hl
      omega
  obtain ⟨hready, hoff, hpay⟩ := h.ready.writeAt (by omega) hgrow hw
  have hbefore : window (env.store.payload fs) t.worker.start t.downloaded =
      s.response.body.take t.downloaded := by
    rw [hpay, window_splice_before (le_refl _) hoff, hbytes]
  refine ⟨hready, hpay, hbefore, ?_⟩
  rw [window_add, hbefore, hpay, window_splice_self part hoff]

theorem Transfer.Single.idle (h : Transfer.Single env t) (hw : SameRange t.worker w)
    (hp : next = t.phase ∨
      Phase.isRest next = true ∧ (next.isLoop = true → t.phase.mayRetry = true)) (retries : Nat) :
    Transfer.Single env { t with worker := w, retryCount := retries, phase := next } := by
  refine ⟨hw.single h.worker, h.ready, ?_, ?_, h.total⟩
  · intro hl
    have hloop : t.phase.isLoop = true := by
      rcases hp with rfl | ⟨_, hp⟩
      · exact hl
      · exact Phase.isLoop_of_mayRetry (hp hl)
    exact (h.counter hloop).same rfl rfl hw.start rfl
  · rcases hp with rfl | ⟨hrest, hretry⟩
    · exact h.phase.same rfl rfl hw rfl rfl
    · exact .rest hrest fun hl => h.phase.unreported (hretry hl)

theorem Transfer.Single.begins (h : Transfer.Single env t) (hp : t.phase = .starting)
    (hzero : t.worker.downloadedSize = 0) (hw : SameRange t.worker w)
    (hq : next = .attempt ∨ next = .succeeding) :
    Transfer.Single env { t with worker := w, downloaded := w.downloadedSize, phase := next } := by
  have hphase := h.phase
  rw [hp] at hphase
  have hseed : w.downloadedSize = 0 := hw.downloadedSize.trans hzero
  refine ⟨hw.single h.worker, h.ready, ?_, ?_, h.total⟩
  · intro _
    simp only [Transfer.CountsCurrent, hphase.1, hseed]
  · rcases hq with rfl | rfl
    · exact hphase.2
    · trivial

theorem Transfer.Single.accept (h : Transfer.Single env t)
    (hp : t.phase = .requesting useRange rangeStart) (hzero : t.downloaded = 0)
    (hsize : t.worker.start + r.body.length < 2 ^ 64)
    (hfile : t.worker.lengthKnown = false → r.failure = none →
      (env.store.payload t.fs).length ≤ r.body.length) :
    Transfer.Single env { t with
      stream := some ⟨r, if useRange then rangeStart else t.worker.start, [], r.chunks⟩
      phase := .streaming } := by
  have hphase := h.phase
  rw [hp] at hphase
  obtain ⟨rfl, hnone⟩ := hphase
  refine ⟨h.worker, h.ready, ?_, ?_, ?_⟩
  · intro _
    simp only [Transfer.CountsCurrent, hzero, Bool.false_eq_true, if_false, Nat.add_zero,
      Nat.zero_le, window, List.take_zero, and_self]
  · refine ⟨hnone, _, rfl, ?_, hsize, hfile⟩
    simp only [hzero, List.drop_zero, List.flatten_nil, List.nil_append, Response.body]
  · intro n hn
    cases hnone.symm.trans hn

theorem Transfer.Single.chunk (h : Transfer.Single env t) (hp : t.phase = .streaming)
    (hs : t.stream = some s) (hl : s.slices = []) (hch : s.chunks = c :: rest) :
    Transfer.Single env
      { t with stream := some { s with slices := rateLimitSlices c, chunks := rest } } := by
  obtain ⟨hnone, hbody, hcounter⟩ := h.body hp hs
  refine ⟨h.worker, h.ready, fun _ => hcounter, ?_, ?_⟩
  · rw [hp]
    refine ⟨hnone, _, rfl, ?_, hbody.size, hbody.file⟩
    have hrest := hbody.rest
    rw [hl, hch, List.flatten_nil, List.nil_append, List.flatten_cons] at hrest
    rw [rateLimitSlices_flatten]
    exact hrest
  · intro n hn
    cases hnone.symm.trans hn

theorem Transfer.Single.counts {fs : FileSystem} (h : Transfer.Single env t)
    (hp : t.phase = .streaming) (hs : t.stream = some s) (hl : s.slices = data :: rest)
    (hw : env.store.writeAt t.fs s.writeOffset data = .ok fs) :
    Transfer.Single env (t.countSlice s data rest fs) := by
  obtain ⟨hoff, hle, htake, hdrop⟩ := h.slice hp hs hl
  rw [hoff] at hw
  obtain ⟨hready, hpay, _, hbytes⟩ := h.write hp hs hw
  obtain ⟨hnone, hbody, _⟩ := h.body hp hs
  have hsize := hbody.size
  have hnext : satAdd s.writeOffset data.length =
      t.worker.start + (t.downloaded + data.length) := by
    rw [hoff, ← Nat.add_assoc]
    exact satAdd_of_lt (by omega)
  refine ⟨h.worker, hready, ?_, ?_, ?_⟩
  · intro _
    exact ⟨hnext, hle, hbytes.trans htake.symm⟩
  · rw [show (t.countSlice s data rest fs).phase = .streaming from hp]
    refine ⟨hnone, _, rfl, hdrop, hsize, ?_⟩
    intro hk hf
    rw [show env.store.payload (t.countSlice s data rest fs).fs = _ from hpay]
    apply splice_length_le (hbody.file hk hf)
    have hz := h.worker.start_eq hk
    omega
  · intro n hn
    cases hnone.symm.trans hn

theorem Transfer.Single.torn {fs : FileSystem} {written : Nat} (h : Transfer.Single env t)
    (hp : t.phase = .streaming) (hs : t.stream = some s) (hl : s.slices = data :: rest)
    (hw : env.store.writeAt t.fs s.writeOffset (data.take written) = .ok fs) (err : Error) :
    Transfer.Single env { t with fs, phase := .retrying err } := by
  obtain ⟨hoff, hle, _, _⟩ := h.slice hp hs hl
  rw [hoff] at hw
  obtain ⟨hready, _, hbytes, _⟩ := h.write hp hs hw
  obtain ⟨hnone, _, _⟩ := h.body hp hs
  refine ⟨h.worker, hready, ?_, hnone, ?_⟩
  · intro _
    simp only [Transfer.CountsCurrent, hs]
    exact ⟨hoff, by omega, hbytes⟩
  · intro n hn
    cases hnone.symm.trans hn

theorem Transfer.Single.ended (h : Transfer.Single env t) (hp : t.phase = .streaming)
    (hs : t.stream = some s) (he : t.worker.shouldStopGracefully = true ∨ s.Complete) :
    Transfer.Single env (t.goto .streamed) := by
  obtain ⟨hnone, hbody, _⟩ := h.body hp hs
  refine ⟨h.worker, h.ready, fun _ => (h.counter (hp ▸ rfl)).same rfl rfl rfl rfl, ?_, ?_⟩
  · exact ⟨hnone, s, hs, hbody.same rfl (.refl _) rfl, he⟩
  · intro n hn
    cases hnone.symm.trans hn

theorem Transfer.Single.checked (h : Transfer.Single env t) (hp : t.phase = .streamed)
    (hn : t.worker.shouldStopGracefully = false) :
    Transfer.Single env { t with
      streamTotal := if t.worker.lengthKnown then t.streamTotal else some t.downloaded
      phase := .succeeding } := by
  have hcounter := h.counter (hp ▸ rfl)
  have hphase := h.phase
  rw [hp] at hphase
  obtain ⟨hnone, s, hs, hbody, hend⟩ := hphase
  refine ⟨h.worker, h.ready, fun _ => hcounter.same rfl rfl rfl rfl, trivial, ?_⟩
  intro n htot
  simp only [Transfer.CountsCurrent, hs] at hcounter
  obtain ⟨_, hle, hbytes⟩ := hcounter
  have hcomp : s.Complete := by
    rcases hend with hstop | hcomp
    · cases hn.symm.trans hstop
    · exact hcomp
  have hall := hbody.complete hcomp hle
  cases hk : t.worker.lengthKnown with
  | true =>
    simp only [hk, if_true] at htot
    cases hnone.symm.trans htot
  | false =>
    simp only [hk, Bool.false_eq_true, if_false, Option.some.injEq] at htot
    refine ⟨s, hs, hcomp, htot.symm.trans hall, ?_⟩
    rw [h.worker.start_eq hk, hall, List.take_length] at hbytes
    rw [← hbytes, window, List.drop_zero]
    exact (List.take_of_length_le (hbody.file hk hcomp.2.2)).symm

theorem Transfer.Single.step (h : Transfer.Single env t) (hr : t.WithoutRanges a)
    (hc : t.StartsFresh env.store a) (hmove : Move env t a t') : t'.Single env := by
  cases hmove with
  | idle hw hp => exact h.idle hw hp _
  | begin hp hw hq => exact h.begins hp (hc hp) hw (hq.imp_right And.left)
  | request hp supports =>
    have hphase := h.phase
    rw [hp] at hphase
    exact ⟨h.worker, h.ready, fun _ => (h.counter (hp ▸ rfl)).same rfl rfl rfl rfl, ⟨hr, hphase⟩,
      h.total⟩
  | @accept useRange rangeStart r hp hv =>
    have haccepts : t.accepts r = true := by
      simp only [Transfer.accepts, hp, hv]
      rfl
    obtain ⟨hzero, hsize, hfile⟩ := hc haccepts
    exact h.accept hp hzero hsize hfile
  | chunk hp hs hl hch => exact h.chunk hp hs hl hch
  | slice hp hs hl hw => exact h.counts hp hs hl hw
  | torn hp hs hl _ hw => exact h.torn hp hs hl hw _
  | ended hp hs he => exact h.ended hp hs he
  | checked hp hn _ => exact h.checked hp hn
  | finish hp =>
    refine ⟨h.worker, h.ready, fun hl => ?_, trivial, h.total⟩
    cases hl

theorem Transfer.Single.streamsHonestly (h : Transfer.Single env t) : t.StreamsHonestly env := by
  refine ⟨h.counter, ?_, h.total⟩
  intro s hp hn hk hs hlen
  have hcounter := h.counter (hp ▸ rfl)
  simp only [Transfer.CountsCurrent, hs] at hcounter
  have hphase := h.phase
  rw [hp] at hphase
  obtain ⟨_, s', hs', hbody, hend⟩ := hphase
  cases hs.symm.trans hs'
  have hcomp : s.Complete := by
    rcases hend with hstop | hcomp
    · cases hn.symm.trans hstop
    · exact hcomp
  have hall := hbody.complete hcomp hcounter.2.1
  have hvalid : t.worker.validateDownloadedLength t.downloaded = .ok () := by
    simp only [Worker.validateDownloadedLength, hk, hall, hlen, Bool.not_true, Bool.false_eq_true,
      if_false, ne_eq, not_true_eq_false]
  have hstep : t.complete = { t with
      streamTotal := if t.worker.lengthKnown then t.streamTotal else some t.downloaded
      phase := .succeeding } := by
    simp only [Transfer.complete, hn, hvalid, Bool.false_eq_true, if_false]
  refine ⟨Transfer.finishSuccess t.complete, ?_, rfl⟩
  simp only [Transition.run, Transfer.step, Transfer.proceed, hp, hstep]

/-- In every run of a worker without range requests whose responses all start from a zero counter,
every state reached keeps what single-stream retries promise. -/
theorem single_stream_run_is_honest (env : TransferEnv) (t t' : Transfer)
    (acts : List TransferAct) (hstart : t.phase = .starting) (hstream : t.stream = none)
    (htotal : t.streamTotal = none) (hworker : t.worker.Single env.store)
    (hready : env.store.Ready t.fs)
    (hmeets : Transition.Meets (Transfer.step env)
      (fun s a => s.WithoutRanges a ∧ s.StartsFresh env.store a) t acts)
    (hrun : Transition.run (Transfer.step env) t acts = some t') : t'.StreamsHonestly env := by
  have hinit : t.Single env := by
    refine ⟨hworker, hready, ?_, ?_, ?_⟩
    · intro hl
      rw [hstart] at hl
      cases hl
    · rw [hstart]
      exact ⟨hstream, htotal⟩
    · intro n hn
      cases htotal.symm.trans hn
  have h : t'.Single env :=
    hmeets.invariant (fun s a s' hs hc hstep => hs.step hc.1 hc.2 (Transfer.step_move hstep)) hinit
      hrun
  exact h.streamsHonestly

instance (t : Transfer) : (a : TransferAct) → Decidable (t.WithoutRanges a)
  | .turn _ => inferInstanceAs (Decidable (_ = _))
  | .respond _ | .pause | .resume | .cancel | .delete | .proceed | .buildFails _ | .sendFails _
  | .storeFails _ _ | .writeFails _ _ | .retry _ => isTrue trivial

instance (store : FileMap) (t : Transfer) : (a : TransferAct) → Decidable (t.StartsFresh store a)
  | .proceed => inferInstanceAs (Decidable (_ → _))
  | .respond _ => inferInstanceAs (Decidable (_ → _ ∧ _ ∧ (_ → _ → _)))
  | .turn _ | .pause | .resume | .cancel | .delete | .buildFails _ | .sendFails _
  | .storeFails _ _ | .writeFails _ _ | .retry _ => isTrue trivial

/-- The origin closes the connection before the first byte, and answers the retry in full. -/
def refusedThenServed : List TransferAct :=
  [.proceed, .turn false, .sendFails "connection refused", .retry none, .turn false,
    .respond ⟨200, "200 OK", none, [[1, 2, 3, 4]], none⟩, .proceed, .proceed, .proceed]

theorem retry_after_refusal_is_honest :
    let env : TransferEnv := ⟨oneFile 4, 3⟩
    ∃ t', Transition.run (Transfer.step env) (newTransfer env.store fourByteLane) refusedThenServed =
        some t' ∧ t'.phase = .streamed ∧ t'.StreamsHonestly env := by
  intro env
  obtain ⟨t', hrun, hphase⟩ : ∃ t', Transition.run (Transfer.step env)
      (newTransfer env.store fourByteLane) refusedThenServed = some t' ∧ t'.phase = .streamed :=
    Transition.run_any (by decide)
  have hflat := oneFile_flat (show 4 < 2 ^ 64 by decide)
  exact ⟨t', hrun, hphase, single_stream_run_is_honest env _ t' refusedThenServed rfl rfl rfl
    (.inl ⟨rfl, hflat⟩) (.inl ⟨hflat, hflat.prepare .empty⟩) (by decide) hrun⟩

/-- The connection breaks after two of four bytes, and the retry receives the complete body. -/
def brokenThenServed : List TransferAct :=
  [.proceed, .turn false, .respond ⟨200, "200 OK", none, [[1, 2]], some "reset"⟩, .proceed, .proceed,
    .proceed, .retry none, .turn false, .respond ⟨200, "200 OK", none, [[1, 2, 3, 4]], none⟩,
    .proceed, .proceed, .proceed]

/-- The counter still holds the two bytes of the broken response, so that the complete body of
four bytes is refused as six. -/
theorem complete_retry_fails :
    let env : TransferEnv := ⟨oneFile 4, 3⟩
    ∃ t', Transition.run (Transfer.step env) (newTransfer env.store fourByteLane) brokenThenServed =
        some t' ∧ t'.phase = .streamed ∧ t'.downloaded = 6 ∧ ¬ t'.StreamsHonestly env ∧
      (t'.complete).worker.status =
        .failed (.other "Worker 0 downloaded length mismatch: expected 4, got 6") := by
  intro env
  obtain ⟨t', hrun, hphase, hcount, hstream, hstatus⟩ : ∃ t', Transition.run (Transfer.step env)
      (newTransfer env.store fourByteLane) brokenThenServed = some t' ∧ t'.phase = .streamed ∧
      t'.downloaded = 6 ∧ (t'.stream.map fun s => s.response.body) = some [1, 2, 3, 4] ∧
      (t'.complete).worker.status =
        .failed (.other "Worker 0 downloaded length mismatch: expected 4, got 6") :=
    Transition.run_any (by decide)
  refine ⟨t', hrun, hphase, hcount, fun h => ?_, hstatus⟩
  have hc := h.counter (hphase ▸ rfl)
  obtain ⟨s, hs, hbody⟩ := Option.map_eq_some_iff.1 hstream
  simp only [Transfer.CountsCurrent, hs, hcount, hbody] at hc
  exact absurd hc.2.1 (by decide)

end Paradown
