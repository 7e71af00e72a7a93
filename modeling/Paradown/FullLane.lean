import Paradown.Resumption

namespace Paradown
set_option autoImplicit true

namespace Transfer

/-- Every byte of the lane has been counted. -/
def Full (t : Transfer) : Prop :=
  t.worker.lengthKnown = true ∧ t.worker.expectedLength ≤ t.downloaded

/-- The run sends no further request, and can only end with the worker completed. -/
def Silent (env : TransferEnv) (t : Transfer) : Prop :=
  ∀ acts t', (∀ a ∈ acts, a.IsOwn) → Transition.run (step env) t acts = some t' →
    (∀ useRangeRequests rangeStart, t'.phase ≠ .requesting useRangeRequests rangeStart) ∧
      ∀ result, t'.phase = .finished result → result = .ok () ∧ t'.worker.status = .completed

/-- The run ends with the worker completed, without another request. -/
structure Completes (env : TransferEnv) (t : Transfer) : Prop where
  silent : t.Silent env
  ends : ∃ n t', Transition.run (step env) t (List.replicate n .proceed) = some t' ∧
    t'.phase = .finished (.ok ())

/-- The step writes the slice with which the lane is full. -/
def Fills (t t' : Transfer) : Prop :=
  t.phase = .streaming ∧ t.downloaded < t'.downloaded ∧ t'.Full

/-- The counter is the length of the lane, and nothing of the response is left, which ends without
an error. -/
def EndsClean (t : Transfer) : Prop :=
  t.downloaded = t.worker.expectedLength ∧ ∀ s ∈ t.stream,
    s.slices = [] ∧ s.chunks.flatten = [] ∧ s.response.failure = none

/-- Once the step has filled the lane, the run completes. -/
def CompletesLane (env : TransferEnv) (t : Transfer) (a : TransferAct) : Prop :=
  ∀ t', step env t a = some t' → t.Fills t' → t'.Completes env

/-- The slice that fills the lane is the last of a response that ends there, without an error. -/
def FillsCleanly (env : TransferEnv) (t : Transfer) (a : TransferAct) : Prop :=
  ∀ t', step env t a = some t' → t.Fills t' → t'.EndsClean

/-- A range request in flight carries a `Range` header within the lane. -/
def CarriesRange (options : HttpRequestOptions) (validator : Option String) (env : TransferEnv)
    (t : Transfer) (a : TransferAct) : Prop :=
  ∀ t' rangeStart, step env t a = some t' → t'.phase = .requesting true rangeStart →
    ∃ first, (t'.worker.buildRequest options validator rangeStart true).range =
      some (first, t'.worker.endByte) ∧ t'.worker.start ≤ first ∧ first ≤ t'.worker.endByte

theorem Silent.next {t t' : Transfer} (h : t.Silent env) (ha : a.IsOwn)
    (hs : step env t a = some t') : t'.Silent env := by
  intro acts t'' hown hr
  apply h (a :: acts) t'' (List.forall_mem_cons.2 ⟨ha, hown⟩)
  rw [Transition.run, hs]
  exact hr

theorem Silent.requesting {t : Transfer} (h : t.Silent env) (hp : t.phase = .requesting useRange rs) :
    False :=
  (h [] t (fun _ ha => absurd ha List.not_mem_nil) rfl).1 _ _ hp

theorem Silent.failed {t : Transfer} (h : t.Silent env) (hp : t.phase = .finished (.error err)) :
    False := by
  cases ((h [] t (fun _ ha => absurd ha List.not_mem_nil) rfl).2 _ hp).1

theorem Silent.retrying {t : Transfer} (h : t.Silent env) (hp : t.phase = .retrying err)
    (he : err.isResumeInvalidated = false) (hstop : t.worker.shouldStopGracefully = false)
    (hpaused : t.worker.paused = false) : False := by
  induction hn : env.maxRetries - t.retryCount generalizing t err with
  | zero =>
    have hretry : step env t (.retry none) = some (t.retryOrFail env err none) := by
      simp only [step, hp]
    have hphase := retryOrFail_phase he env t none
    rw [if_pos (Nat.sub_eq_zero_iff_le.1 hn)] at hphase
    exact (h.next (a := .retry none) trivial hretry).failed hphase
  | succ n ih =>
    have hlt : ¬ env.maxRetries ≤ t.retryCount := by omega
    have hretry : step env t (.retry none) =
        some { t with retryCount := t.retryCount + 1, phase := .attempt } := by
      simp only [step, hp, retryOrFail, setWorker, Worker.fallBack]
      cases err with
      | resumeInvalidated id message => cases he
      | _ => simp only [if_neg hlt]
    have hattempt := h.next (a := .retry none) trivial hretry
    have hturn : step env { t with retryCount := t.retryCount + 1, phase := .attempt } (.turn true) =
        some (turn { t with retryCount := t.retryCount + 1, phase := .attempt } true) := rfl
    have hasked := hattempt.next (a := .turn true) trivial hturn
    simp only [turn, hstop, hpaused, Bool.false_eq_true, if_false] at hasked
    split at hasked
    · exact hasked.requesting rfl
    · apply ih hasked rfl rfl hstop hpaused
      simp only [goto]
      omega

theorem Silent.slice {t : Transfer} (h : t.Silent env) (hp : t.phase = .streaming)
    (hs : t.stream = some s) (hl : s.slices = data :: rest)
    (hstop : t.worker.shouldStopGracefully = false) (hpaused : t.worker.paused = false) : False := by
  cases hwrite : env.store.writeAt t.fs s.writeOffset data with
  | error err =>
    have hstep : step env t .proceed = some (t.goto (.retrying err)) := by
      simp only [step, proceed, hp, hs, streamStep, hl, hstop, hpaused, hwrite, Bool.false_eq_true,
        if_false]
    exact (h.next (a := .proceed) trivial hstep).retrying rfl (FileMap.writeAt_retriable hwrite)
      hstop hpaused
  | ok fs =>
    obtain ⟨writes, hresolve⟩ : ∃ writes,
        env.store.resolveWrites s.writeOffset data.length = .ok writes := by
      unfold FileMap.writeAt at hwrite
      cases hr : env.store.resolveWrites s.writeOffset data.length with
      | error err =>
        rw [hr] at hwrite
        cases hwrite
      | ok writes => exact ⟨writes, rfl⟩
    have hstep : step env t (.writeFails data.length (.other "")) =
        some { t with fs, phase := .retrying (.other "") } := by
      simp only [step, writeFails, hp, hs, hl, hstop, hpaused, hresolve, List.take_length, hwrite,
        Bool.or_self, Bool.false_eq_true, if_false]
    exact (h.next (a := .writeFails data.length (.other "")) rfl hstep).retrying rfl rfl hstop hpaused

theorem rateLimitSlices_eq_nil {chunk : List UInt8} (h : rateLimitSlices chunk = []) : chunk = [] := by
  have hflat := rateLimitSlices_flatten chunk
  rw [h] at hflat
  exact hflat.symm

/-- Once its slices are written, a response must end without another byte, without an error and
with the length of the lane. -/
theorem Silent.rest {t : Transfer} (h : t.Silent env) (hp : t.phase = .streaming)
    (hs : t.stream = some s) (hl : s.slices = []) (hk : t.worker.lengthKnown = true)
    (hstop : t.worker.shouldStopGracefully = false) (hpaused : t.worker.paused = false) :
    t.downloaded = t.worker.expectedLength ∧ s.chunks.flatten = [] ∧ s.response.failure = none := by
  induction hc : s.chunks generalizing t s with
  | nil =>
    cases hf : s.response.failure with
    | some message =>
      have hstep : step env t .proceed =
          some (t.goto (.retrying (.networkError t.worker.id message))) := by
        simp only [step, proceed, hp, hs, streamStep, hl, hc, hf, hstop, hpaused,
          Bool.false_eq_true, if_false]
      exact ((h.next (a := .proceed) trivial hstep).retrying rfl rfl hstop hpaused).elim
    | none =>
      refine ⟨?_, rfl, rfl⟩
      have hstep : step env t .proceed = some (t.goto .streamed) := by
        simp only [step, proceed, hp, hs, streamStep, hl, hc, hf]
      have hcomplete : step env (t.goto .streamed) .proceed = some (t.goto .streamed).complete := rfl
      have hdone := (h.next (a := .proceed) trivial hstep).next (a := .proceed) trivial hcomplete
      by_contra hne
      have hvalidate : ∃ err, t.worker.validateDownloadedLength t.downloaded = .error err := by
        simp only [Worker.validateDownloadedLength, hk, Bool.not_true, Bool.false_eq_true, if_false,
          if_pos hne]
        exact ⟨_, rfl⟩
      obtain ⟨err, herr⟩ := hvalidate
      have hphase : (t.goto .streamed).complete.phase = .finished (.error err) := by
        simp only [complete, goto, hstop, herr, Bool.false_eq_true, if_false, fail]
      exact hdone.failed hphase
  | cons c cs ih =>
    have hstep : step env t .proceed =
        some { t with stream := some { s with slices := rateLimitSlices c, chunks := cs } } := by
      simp only [step, proceed, hp, hs, streamStep, hl, hc, hstop, hpaused, Bool.false_eq_true,
        if_false]
    have hnext := h.next (a := .proceed) trivial hstep
    cases hslices : rateLimitSlices c with
    | cons data rest => exact (hnext.slice hp rfl hslices hstop hpaused).elim
    | nil =>
      have hc := rateLimitSlices_eq_nil hslices
      subst hc
      have hrest := ih hnext hp rfl hslices hk hstop hpaused rfl
      exact hrest

theorem Fills.inversion {t t' : Transfer} (h : t.Fills t') (hs : step env t a = some t') :
    ∃ s data rest fs, t.stream = some s ∧ s.slices = data :: rest ∧
      t.worker.shouldStopGracefully = false ∧ t.worker.paused = false ∧
      env.store.writeAt t.fs s.writeOffset data = .ok fs ∧ t' = t.countSlice s data rest fs := by
  obtain ⟨hp, hlt, -⟩ := h
  have hidle (hd : t'.downloaded = t.downloaded) : False := by
    rw [hd] at hlt
    exact Nat.lt_irrefl _ hlt
  cases step_move hs with
  | slice _ hstream hl hw =>
    have hstop : t.worker.shouldStopGracefully = false := by
      by_contra hstop
      simp only [step, proceed, hp, hstream, streamStep, hl, Bool.not_eq_false _ ▸ hstop, if_true] at hs
      exact hidle (congrArg Transfer.downloaded (Option.some.inj hs)).symm
    have hpaused : t.worker.paused = false := by
      by_contra hpaused
      simp only [step, proceed, hp, hstream, streamStep, hl, hstop, Bool.not_eq_false _ ▸ hpaused,
        Bool.false_eq_true, if_false, if_true] at hs
      exact hidle (congrArg Transfer.downloaded (Option.some.inj hs)).symm
    exact ⟨_, _, _, _, hstream, hl, hstop, hpaused, hw, rfl⟩
  | begin hstart _ _ => cases hp.symm.trans hstart
  | _ => exact (hidle rfl).elim

/-- The run is about to report its success, or has done so. -/
def Done (t : Transfer) : Prop :=
  t.phase = .succeeding ∨ (t.phase = .finished (.ok ()) ∧ t.worker.status = .completed)

theorem Done.next {t t' : Transfer} (h : t.Done) (ha : a.IsOwn) (hs : step env t a = some t') :
    t'.Done := by
  rcases h with hp | ⟨hp, hcompleted⟩
  · cases step_performs hs with
    | pause | resume | cancel | delete => cases ha
    | finishSuccess => exact .inr ⟨rfl, rfl⟩
    | begin hp' | stream hp' | complete hp' | turn hp' | buildFails hp' | sendFails hp'
    | respond hp' | storeFails hp' | writeFails hp' | retry hp' => cases hp.symm.trans hp'
  · cases step_performs hs with
    | pause | resume | cancel | delete => cases ha
    | begin hp' | stream hp' | complete hp' | finishSuccess hp' | turn hp' | buildFails hp'
    | sendFails hp' | respond hp' | storeFails hp' | writeFails hp' | retry hp' =>
      cases hp.symm.trans hp'

theorem silent_of_invariant {I : Transfer → Prop} {t : Transfer}
    (hI : ∀ t a t', I t → a.IsOwn → step env t a = some t' → I t')
    (hquiet : ∀ t, I t → (∀ useRange rangeStart, t.phase ≠ .requesting useRange rangeStart) ∧
      ∀ result, t.phase = .finished result → result = .ok () ∧ t.worker.status = .completed)
    (ht : I t) : t.Silent env := by
  intro acts t' hown hr
  induction acts generalizing t with
  | nil =>
    cases hr
    exact hquiet _ ht
  | cons a acts ih =>
    obtain ⟨s, hs, hr⟩ := Transition.run_cons hr
    rw [List.forall_mem_cons] at hown
    exact ih (hI t a s ht hown.1 hs) hown.2 hr

theorem Done.quiet {t : Transfer} (h : t.Done) :
    (∀ useRange rangeStart, t.phase ≠ .requesting useRange rangeStart) ∧
      ∀ result, t.phase = .finished result → result = .ok () ∧ t.worker.status = .completed := by
  rcases h with hp | ⟨hp, hcompleted⟩
  · rw [hp]
    exact ⟨fun _ _ => Phase.noConfusion, fun _ => Phase.noConfusion⟩
  · rw [hp]
    refine ⟨fun _ _ => Phase.noConfusion, ?_⟩
    intro result hresult
    cases hresult
    exact ⟨rfl, hcompleted⟩

theorem ends_of_next {t t' : Transfer} (hs : step env t .proceed = some t')
    (h : ∃ n t'', Transition.run (step env) t' (List.replicate n .proceed) = some t'' ∧
      t''.phase = .finished (.ok ())) :
    ∃ n t'', Transition.run (step env) t (List.replicate n .proceed) = some t'' ∧
      t''.phase = .finished (.ok ()) := by
  obtain ⟨n, t'', hr, hp⟩ := h
  refine ⟨n + 1, t'', ?_, hp⟩
  rw [List.replicate_succ, Transition.run, hs]
  exact hr

theorem Done.ends {t : Transfer} (h : t.Done) : ∃ n t',
    Transition.run (step env) t (List.replicate n .proceed) = some t' ∧
      t'.phase = .finished (.ok ()) := by
  rcases h with hp | ⟨hp, _⟩
  · have hstep : step env t .proceed = some t.finishSuccess := by simp only [step, proceed, hp]
    exact ends_of_next hstep ⟨0, _, rfl, rfl⟩
  · exact ⟨0, t, rfl, hp⟩

/-- A run that begins with the whole lane counted asks for nothing. -/
theorem completes_of_full {t : Transfer} (hp : t.phase = .starting)
    (hk : t.worker.lengthKnown = true) (hfull : t.worker.expectedLength ≤ t.worker.downloadedSize)
    (hcanceled : t.worker.status ≠ .canceled) (hdeleted : t.worker.status ≠ .deleted) :
    t.Completes env := by
  have hdone : t.begin.Done := by
    have hlength (w : Worker) (hk : w.lengthKnown = true) (hl : w.expectedLength ≤ w.downloadedSize) :
        (w.lengthKnown && decide (w.expectedLength ≤ w.downloadedSize)) = true := by
      rw [Bool.and_eq_true, decide_eq_true_eq]
      exact ⟨hk, hl⟩
    unfold begin
    split
    · exact absurd ‹_› hcanceled
    · exact absurd ‹_› hdeleted
    · exact .inr ⟨rfl, ‹_›⟩
    · dsimp only
      split <;> split
      · exact .inl rfl
      · exact absurd (hlength { t.worker with paused := false, status := .running } hk hfull) ‹_›
      · exact .inl rfl
      · exact absurd (hlength { t.worker with status := .running } hk hfull) ‹_›
  have hbegin : step env t .proceed = some t.begin := by simp only [step, proceed, hp]
  refine ⟨?_, ends_of_next hbegin hdone.ends⟩
  apply silent_of_invariant (I := fun s => s = t ∨ s.Done)
  · rintro s a s' (rfl | hs) ha hstep
    · right
      cases step_performs hstep with
      | pause | resume | cancel | delete => cases ha
      | begin => exact hdone
      | stream hp' | complete hp' | finishSuccess hp' | turn hp' | buildFails hp' | sendFails hp'
      | respond hp' | storeFails hp' | writeFails hp' | retry hp' => cases hp.symm.trans hp'
    · exact .inr (hs.next ha hstep)
  · rintro s (rfl | hs)
    · rw [hp]
      exact ⟨fun _ _ => Phase.noConfusion, fun _ => Phase.noConfusion⟩
    · exact hs.quiet
  · exact .inl rfl

/-- What a run keeps once it has counted the lane and nothing is left of the response. -/
structure Finishing (t : Transfer) : Prop where
  known : t.worker.lengthKnown = true
  stop : t.worker.shouldStopGracefully = false
  running : t.worker.paused = false
  count : t.downloaded = t.worker.expectedLength
  place : (t.phase = .streaming ∧ ∃ s, t.stream = some s ∧ s.slices = [] ∧ s.chunks.flatten = [] ∧
      s.response.failure = none) ∨ t.phase = .streamed

theorem Finishing.complete {t : Transfer} (h : t.Finishing) :
    t.complete = { t with
      streamTotal := if t.worker.lengthKnown then t.streamTotal else some t.downloaded
      phase := .succeeding } := by
  have hvalidate : t.worker.validateDownloadedLength t.downloaded = .ok () := by
    simp only [Worker.validateDownloadedLength, h.known, h.count, Bool.not_true, Bool.false_eq_true,
      if_false, ne_eq, not_true_eq_false]
  simp only [Transfer.complete, h.stop, hvalidate, Bool.false_eq_true, if_false]

theorem Finishing.streamStep {t : Transfer} (h : t.Finishing) (env : TransferEnv)
    (hl : s.slices = []) (hc : s.chunks.flatten = []) (hf : s.response.failure = none) :
    (s.chunks = [] ∧ t.streamStep env s = t.goto .streamed) ∨
      ∃ rest, s.chunks = [] :: rest ∧
        t.streamStep env s = { t with stream := some { s with chunks := rest } } := by
  cases hchunks : s.chunks with
  | nil =>
    refine .inl ⟨rfl, ?_⟩
    simp only [Transfer.streamStep, hl, hchunks, hf]
  | cons c rest =>
    rw [hchunks, List.flatten_cons, List.append_eq_nil_iff] at hc
    refine .inr ⟨rest, by rw [hc.1], ?_⟩
    simp only [Transfer.streamStep, hl, hchunks, h.stop, h.running, Bool.false_eq_true, if_false, hc.1]
    rfl

theorem Finishing.next {t t' : Transfer} (h : t.Finishing) (ha : a.IsOwn)
    (hs : step env t a = some t') : t'.Finishing ∨ t'.Done := by
  rcases h.place with ⟨hp, s, hstream, hl, hc, hf⟩ | hp
  · cases step_performs hs with
    | pause | resume | cancel | delete => cases ha
    | stream _ hs' =>
      cases hstream.symm.trans hs'
      rcases h.streamStep env hl hc hf with ⟨_, he⟩ | ⟨rest, hchunks, he⟩
      · rw [he]
        exact .inl ⟨h.known, h.stop, h.running, h.count, .inr rfl⟩
      · rw [he]
        rw [hchunks] at hc
        exact .inl ⟨h.known, h.stop, h.running, h.count, .inl ⟨hp, _, rfl, hl, hc, hf⟩⟩
    | writeFails _ hs' hl' =>
      cases hstream.symm.trans hs'
      cases hl.symm.trans hl'
    | begin hp' | complete hp' | finishSuccess hp' | turn hp' | buildFails hp' | sendFails hp'
    | respond hp' | storeFails hp' | retry hp' => cases hp.symm.trans hp'
  · cases step_performs hs with
    | pause | resume | cancel | delete => cases ha
    | complete =>
      rw [h.complete]
      exact .inr (.inl rfl)
    | begin hp' | stream hp' | finishSuccess hp' | turn hp' | buildFails hp' | sendFails hp'
    | respond hp' | storeFails hp' | writeFails hp' | retry hp' => cases hp.symm.trans hp'

theorem Finishing.ends {t : Transfer} (h : t.Finishing) : ∃ n t',
    Transition.run (step env) t (List.replicate n .proceed) = some t' ∧
      t'.phase = .finished (.ok ()) := by
  have hstreamed (t : Transfer) (h : t.Finishing) (hp : t.phase = .streamed) : ∃ n t',
      Transition.run (step env) t (List.replicate n .proceed) = some t' ∧
        t'.phase = .finished (.ok ()) := by
    have hstep : step env t .proceed = some t.complete := by simp only [step, proceed, hp]
    apply ends_of_next hstep
    apply Done.ends
    rw [h.complete]
    exact .inl rfl
  rcases h.place with ⟨hp, s, hstream, hl, hc, hf⟩ | hp
  · induction hn : s.chunks.length generalizing t s with
    | zero =>
      rcases h.streamStep env hl hc hf with ⟨_, he⟩ | ⟨rest, hchunks, he⟩
      · have hstep : step env t .proceed = some (t.goto .streamed) := by
          simp only [step, proceed, hp, hstream, he]
        exact ends_of_next hstep
          (hstreamed _ ⟨h.known, h.stop, h.running, h.count, .inr rfl⟩ rfl)
      · rw [hchunks] at hn
        cases hn
    | succ n ih =>
      rcases h.streamStep env hl hc hf with ⟨hchunks, he⟩ | ⟨rest, hchunks, he⟩
      · rw [hchunks] at hn
        cases hn
      · have hstep : step env t .proceed =
            some { t with stream := some { s with chunks := rest } } := by
          simp only [step, proceed, hp, hstream, he]
        rw [hchunks] at hc hn
        exact ends_of_next hstep (ih ⟨h.known, h.stop, h.running, h.count,
          .inl ⟨hp, _, rfl, hl, hc, hf⟩⟩ hp _ rfl hl hc hf (Nat.succ.inj hn))
  · exact hstreamed t h hp

theorem Finishing.completes {t : Transfer} (h : t.Finishing) : t.Completes env := by
  refine ⟨?_, h.ends⟩
  apply silent_of_invariant (I := fun t => t.Finishing ∨ t.Done) _ _ (.inl h)
  · rintro t a t' (ht | ht) ha hs
    · exact ht.next ha hs
    · exact .inr (ht.next ha hs)
  · rintro t (ht | ht)
    · rcases ht.place with ⟨hp, -⟩ | hp
      · rw [hp]
        exact ⟨fun _ _ => Phase.noConfusion, fun _ => Phase.noConfusion⟩
      · rw [hp]
        exact ⟨fun _ _ => Phase.noConfusion, fun _ => Phase.noConfusion⟩
    · exact ht.quiet

/-- A filled lane completes exactly when the slice that fills it ends the response. -/
theorem completesLane_iff (env : TransferEnv) (t : Transfer) (a : TransferAct) :
    t.CompletesLane env a ↔ t.FillsCleanly env a := by
  refine forall_congr' fun t' => forall_congr' fun hs => forall_congr' fun hfills => ?_
  obtain ⟨s, data, rest, fs, hstream, hl, hstop, hpaused, hw, rfl⟩ := hfills.inversion hs
  obtain ⟨hp, hlt, hk, hfull⟩ := hfills
  constructor
  · intro hcompletes
    cases hrest : rest with
    | cons next later =>
      rw [hrest] at hcompletes
      exact (hcompletes.silent.slice hp rfl rfl hstop hpaused).elim
    | nil =>
      rw [hrest] at hcompletes
      obtain ⟨hcount, hchunks, hfailure⟩ := hcompletes.silent.rest hp rfl rfl hk hstop hpaused
      refine ⟨hcount, ?_⟩
      rintro _ ⟨⟩
      exact ⟨rfl, hchunks, hfailure⟩
  · intro hclean
    obtain ⟨hslices, hchunks, hfailure⟩ := hclean.2 _ rfl
    apply Finishing.completes
    exact ⟨hk, hstop, hpaused, hclean.1, .inl ⟨hp, _, rfl, hslices, hchunks, hfailure⟩⟩

/-- A byte of the lane is still to come, where its length is known. -/
def Room (t : Transfer) : Prop :=
  t.worker.lengthKnown = true → t.downloaded < t.worker.expectedLength

/-- What holds at each place of the loop as long as every filled lane ends its response. -/
def RoomPhase (t : Transfer) : Phase → Prop
  | .attempt | .retrying _ => t.Room
  | .requesting useRangeRequests rangeStart => t.Room ∧
    rangeStart = satAdd t.worker.start t.downloaded ∧
    (useRangeRequests = true → t.worker.lengthKnown = true)
  | .streaming => t.Room ∨ ∃ s, t.stream = some s ∧ s.slices = [] ∧ s.chunks.flatten = [] ∧
    s.response.failure = none
  | _ => True

/-- The lane is a range of a payload, and there is room in it wherever the loop may ask again. -/
structure InRange (t : Transfer) : Prop where
  order : t.worker.start ≤ t.worker.endByte
  bound : t.worker.endByte < 2 ^ 64
  place : t.RoomPhase t.phase

theorem Room.same {t t' : Transfer} (h : t.Room) (hw : SameRange t.worker t'.worker)
    (hd : t'.downloaded = t.downloaded) : t'.Room := by
  intro hk
  rw [hd, hw.expectedLength]
  exact h (hw.lengthKnown.symm.trans hk)

theorem RoomPhase.same {t t' : Transfer} {phase : Phase} (h : t.RoomPhase phase) (hw : SameRange t.worker t'.worker)
    (hd : t'.downloaded = t.downloaded) (hs : t'.stream = t.stream) : t'.RoomPhase phase := by
  cases phase with
  | attempt | retrying err => exact Room.same h hw hd
  | requesting useRange rangeStart =>
    exact ⟨h.1.same hw hd, by rw [hw.start, hd]; exact h.2.1, fun hu => hw.lengthKnown.trans (h.2.2 hu)⟩
  | streaming =>
    rcases h with hroom | ⟨s, hstream, hrest⟩
    · exact .inl (hroom.same hw hd)
    · exact .inr ⟨s, hs.trans hstream, hrest⟩
  | starting | streamed | succeeding | finished result => trivial

theorem roomPhase_of_clean {t t' : Transfer} (hp : t.phase = .streaming) (hstream : t.stream = some s)
    (hl : s.slices = []) (hc : s.chunks.flatten = []) (hf : s.response.failure = none)
    (hs : step env t a = some t') : t'.RoomPhase t'.phase := by
  have hstay {t' : Transfer} (hp' : t'.phase = .streaming) (hs' : t'.stream = t.stream) :
      t'.RoomPhase t'.phase := by
    rw [hp']
    exact .inr ⟨s, hs'.trans hstream, hl, hc, hf⟩
  cases step_performs hs with
  | pause | resume | cancel | delete => exact hstay hp rfl
  | stream _ hs' =>
    cases hstream.symm.trans hs'
    cases hchunks : s.chunks with
    | nil =>
      simp only [streamStep, hl, hchunks, hf]
      trivial
    | cons c rest =>
      rw [hchunks, List.flatten_cons, List.append_eq_nil_iff] at hc
      simp only [streamStep, hl, hchunks, hc.1]
      split
      · trivial
      · split
        · exact hstay hp rfl
        · exact hp ▸ .inr ⟨_, rfl, rfl, hc.2, hf⟩
  | writeFails _ hs' hl' =>
    cases hstream.symm.trans hs'
    cases hl.symm.trans hl'
  | begin hp' | complete hp' | finishSuccess hp' | turn hp' | buildFails hp' | sendFails hp'
  | respond hp' | storeFails hp' | retry hp' => cases hp.symm.trans hp'

theorem begin_room (t : Transfer) : t.begin.RoomPhase t.begin.phase := by
  have hroom (w : Worker) (h : ¬ (w.lengthKnown && decide (w.expectedLength ≤ w.downloadedSize)) = true)
      (hk : w.lengthKnown = true) : w.downloadedSize < w.expectedLength := by
    rw [Bool.and_eq_true, decide_eq_true_eq, not_and] at h
    exact Nat.lt_of_not_le (h hk)
  unfold begin
  split
  · trivial
  · trivial
  · trivial
  · dsimp only
    split <;> split
    · trivial
    · exact hroom { t.worker with paused := false, status := .running } ‹_›
    · trivial
    · exact hroom { t.worker with status := .running } ‹_›

theorem countSlice_room {t : Transfer} {fs : FileSystem} (h : t.Room) (hp : t.phase = .streaming)
    (hc : t.FillsCleanly env a) (hs : step env t a = some (t.countSlice s data rest fs)) :
    (t.countSlice s data rest fs).RoomPhase .streaming := by
  by_cases hroom : (t.countSlice s data rest fs).Room
  · exact .inl hroom
  · right
    unfold Room at hroom
    push Not at hroom
    obtain ⟨hk, hfull⟩ := hroom
    have hlt : t.downloaded < (t.countSlice s data rest fs).downloaded :=
      Nat.lt_of_lt_of_le (h hk) hfull
    exact ⟨_, rfl, (hc _ hs ⟨hp, hlt, hk, hfull⟩).2 _ rfl⟩

theorem InRange.next {t t' : Transfer} (h : t.InRange) (hc : t.FillsCleanly env a)
    (hs : step env t a = some t') : t'.InRange := by
  obtain ⟨hstart, hend, hknown⟩ := step_lane hs
  refine ⟨by rw [hstart, hend]; exact h.order, by rw [hend]; exact h.bound, ?_⟩
  have hplace := h.place
  by_cases hclean : t.phase = .streaming ∧ ∃ s, t.stream = some s ∧ s.slices = [] ∧
      s.chunks.flatten = [] ∧ s.response.failure = none
  · obtain ⟨hp, s, hstream, hl, hchunks, hf⟩ := hclean
    exact roomPhase_of_clean hp hstream hl hchunks hf hs
  · -- wherever the loop may ask again, there is room
    have hroom (hmay : t.phase.mayRetry = true) : t.Room := by
      cases hp : t.phase with
      | attempt | retrying err =>
        rw [hp] at hplace
        exact hplace
      | requesting useRange rangeStart =>
        rw [hp] at hplace
        exact hplace.1
      | streaming =>
        rw [hp] at hplace
        exact hplace.resolve_right fun hrest => hclean ⟨hp, hrest⟩
      | starting | streamed | succeeding | finished result =>
        rw [hp] at hmay
        cases hmay
    have hmove := step_move hs
    cases hmove with
    | idle hw hphase =>
      rename_i w phase retryCount
      rcases hphase with rfl | ⟨hrest, hmay⟩
      · exact RoomPhase.same hplace hw rfl rfl
      · cases phase with
        | attempt | retrying err => exact (hroom (hmay rfl)).same hw rfl
        | finished result => trivial
        | starting | requesting _ _ | streaming | streamed | succeeding => cases hrest
    | begin hp hw hq =>
      simp only [step, proceed, hp, Option.some.injEq] at hs
      rw [← hs]
      exact t.begin_room
    | request hp supports =>
      rw [hp] at hplace
      refine ⟨hplace, rfl, ?_⟩
      intro hu
      exact (Bool.and_eq_true_iff.1 hu).1
    | accept hp hv =>
      rw [hp] at hplace
      exact .inl hplace.1
    | chunk hp hstream hl hchunks =>
      simp only [hp]
      exact .inl (hroom (by rw [hp]; rfl))
    | slice hp hstream hl hw =>
      have hnext := countSlice_room (hroom (by rw [hp]; rfl)) hp hc hs
      rw [countSlice] at hnext ⊢
      simp only [hp]
      exact hnext
    | torn hp hstream hl hr hw => exact hroom (by rw [hp]; rfl)
    | ended hp hstream he => trivial
    | checked hp hn hv => trivial
    | finish hp => trivial

theorem InRange.carriesRange {t : Transfer} (h : t.InRange) (hp : t.phase = .requesting true rangeStart)
    (options : HttpRequestOptions) (validator : Option String) :
    ∃ first, (t.worker.buildRequest options validator rangeStart true).range =
      some (first, t.worker.endByte) ∧ t.worker.start ≤ first ∧ first ≤ t.worker.endByte := by
  have hplace := h.place
  rw [hp] at hplace
  obtain ⟨hroom, hasked, hknown⟩ := hplace
  have hk := hknown rfl
  have hroom := hroom hk
  have horder := h.order
  have hbound := h.bound
  rw [Worker.expectedLength, if_pos hk, satAdd] at hroom
  rw [satAdd] at hasked
  have hlast : rangeStart ≤ t.worker.endByte := by omega
  refine ⟨rangeStart, ?_, by omega, hlast⟩
  simp only [Worker.buildRequest, Bool.true_and, decide_eq_true_eq, if_pos hlast]

/-- A lane that has been filled completes exactly when the slice that fills it ends its response,
without an error. Then every range request asks for a part of the lane; and a run that begins with
the whole lane completes. -/
theorem full_lane_completes_iff (env : TransferEnv) (options : HttpRequestOptions)
    (validator : Option String) (t t' : Transfer) (acts : List TransferAct)
    (hp : t.phase = .starting) (horder : t.worker.start ≤ t.worker.endByte)
    (hbound : t.worker.endByte < 2 ^ 64) (hr : Transition.run (step env) t acts = some t') :
    (Transition.Meets (step env) (CompletesLane env) t acts ↔
      Transition.Meets (step env) (FillsCleanly env) t acts) ∧
    (Transition.Meets (step env) (FillsCleanly env) t acts →
      Transition.Meets (step env) (CarriesRange options validator env) t acts) ∧
    (t.worker.lengthKnown = true → t.worker.expectedLength ≤ t.worker.downloadedSize →
      t.worker.status ≠ .canceled → t.worker.status ≠ .deleted → t.Completes env) := by
  refine ⟨Transition.meets_congr (completesLane_iff env), ?_, completes_of_full hp⟩
  intro hclean
  apply hclean.imp (I := InRange) _ _ ⟨horder, hbound, by rw [hp]; trivial⟩ hr
  · intro t a t' ht hc hs
    exact ht.next hc hs
  · intro t a t' ht hc hs t'' rangeStart hs' hasked
    cases hs.symm.trans hs'
    exact (ht.next hc hs).carriesRange hasked options validator

instance (t t' : Transfer) : Decidable (t.Fills t') :=
  inferInstanceAs (Decidable (_ ∧ _ ∧ _ ∧ _))

instance (t : Transfer) : Decidable t.EndsClean :=
  decidable_of_iff (t.downloaded = t.worker.expectedLength ∧ ∀ s ∈ t.stream.toList,
    s.slices = [] ∧ s.chunks.flatten = [] ∧ s.response.failure = none)
    (by simp only [EndsClean, Option.mem_toList, Option.mem_def])

instance (env : TransferEnv) (t : Transfer) (a : TransferAct) : Decidable (t.FillsCleanly env a) :=
  decidable_of_iff (∀ t' ∈ (step env t a).toList, t.Fills t' → t'.EndsClean)
    (by simp only [FillsCleanly, Option.mem_toList])

end Transfer

theorem resumed_lane_completes :
    let env : TransferEnv := ⟨oneFile 4, 3⟩
    Transition.Meets (Transfer.step env) (Transfer.CompletesLane env)
        (newTransfer env.store fourByteLane) brokenThenResumed ∧
      Transition.Meets (Transfer.step env) (Transfer.CarriesRange {} (some "\"v1\"") env)
        (newTransfer env.store fourByteLane) brokenThenResumed := by
  intro env
  obtain ⟨t', hrun, _⟩ : ∃ t', Transition.run (Transfer.step env)
      (newTransfer env.store fourByteLane) brokenThenResumed = some t' ∧
      t'.worker.status = .completed :=
    Transition.run_any (by decide)
  have h := Transfer.full_lane_completes_iff env {} (some "\"v1\"") _ t' brokenThenResumed rfl
    (by decide) (by decide) hrun
  have hclean : Transition.Meets (Transfer.step env) (Transfer.FillsCleanly env)
      (newTransfer env.store fourByteLane) brokenThenResumed := by decide
  exact ⟨h.1.2 hclean, h.2.1 hclean⟩

/-- The four bytes of a lane arrive, and then the connection is reset. -/
def resetAfterLastByte : List TransferAct :=
  [.proceed, .turn true,
    .respond ⟨206, "206 Partial Content", some (some "bytes 0-3/4"), [[1, 2, 3, 4]], some "reset"⟩,
    .proceed, .proceed]

/-- The lane is full, and another request is sent, without a `Range` header. -/
theorem full_lane_is_asked_again :
    let env : TransferEnv := ⟨oneFile 4, 3⟩
    ∃ t t', Transition.run (Transfer.step env) (newTransfer env.store fourByteLane)
        resetAfterLastByte = some t ∧ t.Full ∧ t.downloaded = t.worker.expectedLength ∧
      Transition.run (Transfer.step env) t [.proceed, .retry none, .turn true] = some t' ∧
      t'.phase = .requesting true 4 ∧
      (t'.worker.buildRequest {} (some "\"v1\"") 4 true).range = none ∧ ¬ t.Completes env := by
  intro env
  obtain ⟨t, hrun, ⟨hknown, hlength⟩, hagain⟩ : ∃ t, Transition.run (Transfer.step env)
      (newTransfer env.store fourByteLane) resetAfterLastByte = some t ∧
      (t.worker.lengthKnown = true ∧ t.downloaded = t.worker.expectedLength) ∧
      (Transition.run (Transfer.step env) t [.proceed, .retry none, .turn true]).any
        (fun t' => decide (t'.phase = .requesting true 4 ∧
          (t'.worker.buildRequest {} (some "\"v1\"") 4 true).range = none)) = true :=
    Transition.run_any (by decide)
  obtain ⟨t', hrun', hphase, hrange⟩ := Transition.run_any hagain
  refine ⟨t, t', hrun, ⟨hknown, hlength.symm.le⟩, hlength, hrun', hphase, hrange, ?_⟩
  intro hcompletes
  have hown : ∀ a ∈ [TransferAct.proceed, .retry none, .turn true], a.IsOwn := by
    intro a ha
    simp only [List.mem_cons, List.not_mem_nil, or_false] at ha
    rcases ha with rfl | rfl | rfl <;> trivial
  exact (hcompletes.silent _ t' hown hrun').1 true 4 hphase

end Paradown
