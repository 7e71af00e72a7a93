import Paradown.Ranged
import Paradown.Schedule

namespace Paradown
set_option autoImplicit true

/-- A step of the run itself, not a call on the worker from outside. -/
def TransferAct.isOwn : TransferAct → Bool
  | .pause | .resume | .cancel | .delete => false
  | _ => true

/-- A request has been sent: the network fails or a response comes back. -/
def TransferAct.isRequest : TransferAct → Bool
  | .sendFails _ | .respond _ | .storeFails _ _ => true
  | _ => false

/-- The steps that it takes to write out a body. -/
def bodySteps (chunks : List (List UInt8)) : Nat :=
  (chunks.map fun chunk => 1 + (rateLimitSlices chunk).length).sum

/-- The steps that a response brings with it. -/
def TransferAct.received : TransferAct → Nat
  | .respond r => bodySteps r.chunks
  | _ => 0

/-- The statuses from which the loop is entered. -/
def Status.startsLoop : Status → Bool
  | .pending | .paused | .running | .failed _ => true
  | _ => false

namespace Transfer

/-- What a body fails with: a write that is refused, or an error at its end. -/
def streamError (env : TransferEnv) (t : Transfer) (s : BodyStream) : Option Error :=
  match s.slices, s.chunks, s.response.failure with
  | data :: _, _, _ =>
    match env.store.writeAt t.fs s.writeOffset data with
    | .error err => some err
    | .ok _ => none
  | [], [], some message => some (.networkError t.worker.id message)
  | _, _, _ => none

/-- What an attempt that is not stopped fails with in this step, if it fails. -/
def attemptError (env : TransferEnv) (t : Transfer) : TransferAct → Option Error
  | .turn _ =>
    if t.worker.shouldStopGracefully || t.worker.source.kind.usesHttpDriver then none
    else some (.unsupportedProtocol s!"{t.worker.source.locator} transfer is not implemented yet")
  | .buildFails err => some err
  | .sendFails message => some (.networkError t.worker.id message)
  | .respond r =>
    match t.phase with
    | .requesting useRangeRequests rangeStart =>
      (refusal t.worker r useRangeRequests rangeStart).map (·.1)
    | _ => none
  | .storeFails r err =>
    match t.phase with
    | .requesting useRangeRequests rangeStart =>
      some (((refusal t.worker r useRangeRequests rangeStart).map (·.1)).getD err)
    | _ => none
  | .writeFails _ err => some err
  | .proceed =>
    if t.worker.shouldStopGracefully then none
    else
      match t.phase, t.stream with
      | .streaming, some s => t.streamError env s
      | .streamed, _ =>
        match t.worker.validateDownloadedLength t.downloaded with
        | .error err => some err
        | .ok () => none
      | _, _ => none
  | _ => none

/-- The error of the last attempt that failed in a run. -/
def lastError (env : TransferEnv) (t : Transfer) (acts : List TransferAct) : Option Error :=
  Transition.history (step env)
    (fun last t a _ => match t.attemptError env a with
      | some err => some err
      | none => last)
    none t acts

/-- What a run that nobody pauses keeps: it is past its start, and within its retry budget. -/
structure Budgeted (env : TransferEnv) (t : Transfer) : Prop where
  begun : t.phase ≠ .starting
  unpaused : t.worker.paused = false
  retries : t.retryCount ≤ env.maxRetries
  stream : t.phase = .streaming → ∃ s, t.stream = some s

/-- Everything a step of such a run can do. -/
inductive Advance (env : TransferEnv) (t : Transfer) (a : TransferAct) : Transfer → Prop where
  | outside (ha : a.isOwn = false) (hw : w.paused = false) : Advance env t a (t.setWorker w)
  | request (hp : t.phase = .attempt) (useRange : Bool) (rangeStart : Nat) :
      Advance env t a (t.goto (.requesting useRange rangeStart))
  | stopped (hp : t.phase = .attempt ∨ t.phase = .streamed)
      (hs : t.worker.shouldStopGracefully = true) : Advance env t a (t.goto (.finished (.ok ())))
  | failed (fs : FileSystem)
      (hp : t.phase = .attempt ∨ (∃ useRange start, t.phase = .requesting useRange start) ∨
        t.phase = .streaming)
      (he : t.attemptError env a = some err) :
      Advance env t a { t with fs, phase := .retrying err }
  | refused (hp : (∃ useRange start, t.phase = .requesting useRange start) ∨ t.phase = .streamed)
      (he : t.attemptError env a = some err) : Advance env t a (t.fail err)
  | accepted (hp : t.phase = .requesting useRange rangeStart) (ha : a = .respond r)
      (offset : Nat) :
      Advance env t a { t with stream := some ⟨r, offset, [], r.chunks⟩, phase := .streaming }
  | chunk (hp : t.phase = .streaming) (hs : t.stream = some s) (hl : s.slices = [])
      (hc : s.chunks = c :: rest) :
      Advance env t a
        { t with stream := some { s with slices := rateLimitSlices c, chunks := rest } }
  | slice (hp : t.phase = .streaming) (hs : t.stream = some s) (hl : s.slices = data :: rest)
      (fs : FileSystem) : Advance env t a (t.countSlice s data rest fs)
  | ended (hp : t.phase = .streaming) : Advance env t a (t.goto .streamed)
  | checked (hp : t.phase = .streamed) (streamTotal : Option Nat) :
      Advance env t a { t with streamTotal, phase := .succeeding }
  | succeeded (ha : a = .proceed) (hp : t.phase = .succeeding) : Advance env t a t.finishSuccess
  | gaveUp (hp : t.phase = .retrying err) (ha : a = .retry fallback) (hw : w.paused = false) :
      Advance env t a ((t.setWorker w).fail err)
  | retried (hp : t.phase = .retrying err) (ha : a = .retry fallback) (hw : w.paused = false)
      (hlt : t.retryCount < env.maxRetries) :
      Advance env t a
        { t with worker := w, retryCount := t.retryCount + 1, phase := .attempt }

theorem turn_advance (hp : t.phase = .attempt) (hu : t.worker.paused = false) (supports : Bool) :
    Advance env t (.turn supports) (t.turn supports) := by
  unfold turn
  split
  case isTrue hs => exact .stopped (.inl hp) hs
  case isFalse hs =>
    rw [if_neg (by simp [hu])]
    split
    case isTrue => exact .request hp _ _
    case isFalse hk =>
      apply Advance.failed t.fs (.inl hp)
      simp [attemptError, hs, hk]

theorem respond_advance (hp : t.phase = .requesting useRange rangeStart) (r : Response) :
    Advance env t (.respond r) (t.respond r none useRange rangeStart) := by
  unfold respond
  split
  case h_1 err hr =>
    apply Advance.refused (.inl ⟨_, _, hp⟩)
    simp only [attemptError, hp, hr, Option.map_some]
  case h_2 err hr =>
    apply Advance.failed t.fs (.inr (.inl ⟨_, _, hp⟩))
    simp only [attemptError, hp, hr, Option.map_some]
  case h_3 => exact .accepted hp rfl _

theorem storeFails_advance (hp : t.phase = .requesting useRange rangeStart) (r : Response)
    (err : Error) :
    Advance env t (.storeFails r err) (t.respond r (some err) useRange rangeStart) := by
  unfold respond
  split
  case h_1 err hr =>
    apply Advance.refused (.inl ⟨_, _, hp⟩)
    simp only [attemptError, hp, hr, Option.map_some, Option.getD_some]
  case h_2 err hr =>
    apply Advance.failed t.fs (.inr (.inl ⟨_, _, hp⟩))
    simp only [attemptError, hp, hr, Option.map_some, Option.getD_some]
  case h_3 hr =>
    apply Advance.failed t.fs (.inr (.inl ⟨_, _, hp⟩))
    simp only [attemptError, hp, hr, Option.map_none, Option.getD_none]

theorem streamStep_advance (hp : t.phase = .streaming) (hs : t.stream = some s)
    (hu : t.worker.paused = false) : Advance env t .proceed (t.streamStep env s) := by
  unfold streamStep
  split
  · exact .ended hp
  split
  case isTrue => exact .ended hp
  case isFalse hn =>
    have hfail (err : Error) (he : t.streamError env s = some err) :
        Advance env t .proceed (t.goto (.retrying err)) := by
      apply Advance.failed t.fs (.inr (.inr hp))
      simp only [attemptError, hp, hs, if_neg hn, he]
    rw [if_neg (by simp [hu])]
    split
    case h_1 data rest hl =>
      split
      case h_1 err hw =>
        apply hfail
        simp only [streamError, hl, hw]
      case h_2 fs hw => exact .slice hp hs hl fs
    case h_2 hl hc => exact .chunk hp hs hl hc
    case h_3 message hl hc hf =>
      apply hfail
      simp only [streamError, hl, hc, hf]
    case h_4 => exact .ended hp

theorem complete_advance (hp : t.phase = .streamed) : Advance env t .proceed t.complete := by
  unfold complete
  split
  case isTrue hs => exact .stopped (.inr hp) hs
  case isFalse hs =>
    split
    case h_1 err hv =>
      apply Advance.refused (.inr hp)
      simp only [attemptError, hp, if_neg hs, hv]
    case h_2 => exact .checked hp _

theorem fallBack_paused (w : Worker) (fallback : Option SourceDescriptor) :
    (w.fallBack fallback).paused = w.paused := by
  unfold Worker.fallBack
  split
  · split <;> rfl
  · rfl

theorem retryOrFail_advance (hp : t.phase = .retrying err) (hu : t.worker.paused = false)
    (fallback : Option SourceDescriptor) :
    Advance env t (.retry fallback) (t.retryOrFail env err fallback) := by
  have hw := (fallBack_paused t.worker fallback).trans hu
  unfold retryOrFail
  dsimp only
  split
  · exact .gaveUp hp rfl hw
  · split
    case isTrue => exact .gaveUp hp rfl hw
    case isFalse hlt => exact .retried hp rfl hw (Nat.lt_of_not_le hlt)

theorem resume_paused {w : Worker} (h : w.paused = false) : w.resume.paused = false := by
  unfold Worker.resume
  split
  · exact h
  · rfl

theorem Budgeted.advance (h : Budgeted env t) (ha : a ≠ .pause) (hs : step env t a = some t') :
    Advance env t a t' := by
  cases step_performs hs with
  | pause => exact absurd rfl ha
  | resume => exact .outside rfl (resume_paused h.unpaused)
  | cancel => exact .outside rfl h.unpaused
  | delete => exact .outside rfl h.unpaused
  | begin hp => exact absurd hp h.begun
  | stream hp hbody => exact streamStep_advance hp hbody h.unpaused
  | complete hp => exact complete_advance hp
  | finishSuccess hp => exact .succeeded rfl hp
  | turn hp supports => exact turn_advance hp h.unpaused supports
  | buildFails hp err => exact .failed t.fs (.inr (.inl ⟨_, _, hp⟩)) rfl
  | sendFails hp message => exact .failed t.fs (.inr (.inl ⟨_, _, hp⟩)) rfl
  | respond hp r => exact respond_advance hp r
  | storeFails hp r err => exact storeFails_advance hp r err
  | writeFails hp hbody hl hn hr hw err => exact .failed _ (.inr (.inr hp)) rfl
  | retry hp fallback => exact retryOrFail_advance hp h.unpaused fallback

theorem Budgeted.step (h : Budgeted env t) (ha : a ≠ .pause) (hs : step env t a = some t') :
    Budgeted env t' := by
  cases h.advance ha hs with
  | outside _ hw => exact { h with unpaused := hw }
  | accepted => exact { h with begun := nofun, stream := fun _ => ⟨_, rfl⟩ }
  | chunk hp => exact { h with stream := fun _ => ⟨_, rfl⟩ }
  | slice hp =>
    exact { h with unpaused := h.unpaused, begun := h.begun, stream := fun _ => ⟨_, rfl⟩ }
  | gaveUp hp _ hw => exact { h with begun := nofun, unpaused := hw, stream := nofun }
  | retried hp _ hw hlt =>
    exact { begun := nofun, unpaused := hw, retries := hlt, stream := nofun }
  | _ => exact { h with begun := nofun, unpaused := h.unpaused, stream := nofun }

/-- The requests that the budget still allows. -/
def requestsLeft (env : TransferEnv) (t : Transfer) : Nat :=
  env.maxRetries - t.retryCount +
    match t.phase with
    | .attempt | .requesting _ _ => 1
    | _ => 0

/-- The steps that are left to a body. -/
def streamSteps : Option BodyStream → Nat
  | some s => s.slices.length + bodySteps s.chunks
  | none => 0

/-- The steps that are left to the run, if no further response brings more. -/
def stepsLeft (env : TransferEnv) (t : Transfer) : Nat :=
  let budget := 5 * (env.maxRetries - t.retryCount)
  match t.phase with
  | .starting | .finished _ => 0
  | .attempt => budget + 5
  | .requesting _ _ => budget + 4
  | .streaming => budget + 3 + streamSteps t.stream
  | .retrying _ => budget + 1
  | .streamed => 2
  | .succeeding => 1

theorem request_phase (ha : a.isRequest = true) (hs : step env t a = some t') :
    ∃ useRange start, t.phase = .requesting useRange start := by
  cases step_performs hs with
  | sendFails hp => exact ⟨_, _, hp⟩
  | respond hp => exact ⟨_, _, hp⟩
  | storeFails hp => exact ⟨_, _, hp⟩
  | _ => cases ha

theorem Budgeted.requestsLeft_step (h : Budgeted env t) (ha : a ≠ .pause)
    (hs : Transfer.step env t a = some t') :
    requestsLeft env t' + a.isRequest.toNat ≤ requestsLeft env t := by
  have hreq (hp : ∀ useRange start, t.phase ≠ .requesting useRange start) :
      a.isRequest.toNat = 0 := by
    cases hr : a.isRequest with
    | false => rfl
    | true =>
      obtain ⟨useRange, start, hphase⟩ := request_phase hr hs
      exact absurd hphase (hp useRange start)
  have hle := Bool.toNat_le a.isRequest
  cases h.advance ha hs with
  | outside ho =>
    have hzero : a.isRequest.toNat = 0 := by
      cases a <;> first | rfl | cases ho
    rw [hzero]
    exact Nat.le_refl _
  | request hp =>
    rw [hreq (by simp [hp])]
    simp [requestsLeft, goto, hp]
  | stopped hp _ =>
    rw [hreq (by rcases hp with hp | hp <;> simp [hp])]
    simp [requestsLeft, goto]
  | failed fs hp _ =>
    rcases hp with hp | ⟨useRange, start, hp⟩ | hp
    · simp only [requestsLeft, hp]
      omega
    · simp only [requestsLeft, hp]
      omega
    · rw [hreq (by simp [hp])]
      simp [requestsLeft]
  | refused hp _ =>
    rcases hp with ⟨useRange, start, hp⟩ | hp
    · simp only [requestsLeft, hp, fail]
      omega
    · rw [hreq (by simp [hp])]
      simp [requestsLeft, fail]
  | accepted hp _ _ =>
    simp only [requestsLeft, hp]
    omega
  | chunk hp | slice hp =>
    rw [hreq (by simp [hp])]
    simp [requestsLeft, countSlice, hp]
  | ended hp | checked hp | succeeded _ hp | gaveUp hp =>
    rw [hreq (by simp [hp])]
    simp [requestsLeft, goto, fail, finishSuccess, setWorker]
  | retried hp _ _ hlt =>
    rw [hreq (by simp [hp])]
    simp only [requestsLeft, hp]
    omega

/-- Every step of the run is paid for, by the budget or by the response that it brings. -/
theorem Budgeted.stepsLeft_step (h : Budgeted env t) (ha : a ≠ .pause)
    (hs : Transfer.step env t a = some t') :
    stepsLeft env t' + a.isOwn.toNat ≤ stepsLeft env t + a.received := by
  have hle := Bool.toNat_le a.isOwn
  cases h.advance ha hs with
  | outside ho =>
    rw [ho]
    simp only [Bool.toNat_false, Nat.add_zero]
    exact Nat.le_add_right _ _
  | request hp | ended hp =>
    simp only [stepsLeft, goto, hp]
    omega
  | stopped hp _ =>
    rcases hp with hp | hp
    all_goals
      simp only [stepsLeft, goto, hp]
      omega
  | failed fs hp _ =>
    rcases hp with hp | ⟨useRange, start, hp⟩ | hp
    all_goals
      simp only [stepsLeft, hp]
      omega
  | refused hp _ =>
    rcases hp with ⟨useRange, start, hp⟩ | hp
    all_goals
      simp only [stepsLeft, fail, hp]
      omega
  | accepted hp he _ =>
    rw [he] at hle ⊢
    simp only [stepsLeft, hp, streamSteps, TransferAct.received, List.length_nil]
    omega
  | chunk hp hbody hl hc =>
    simp only [stepsLeft, hp, hbody, streamSteps, hl, hc, bodySteps, List.length_nil,
      List.map_cons, List.sum_cons]
    omega
  | slice hp hbody hl fs =>
    simp only [stepsLeft, countSlice, hp, hbody, streamSteps, hl, List.length_cons]
    omega
  | succeeded _ hp =>
    simp only [stepsLeft, finishSuccess, hp]
    omega
  | gaveUp hp _ _ =>
    simp only [stepsLeft, fail, hp]
    omega
  | checked hp | retried hp =>
    simp only [stepsLeft, hp]
    omega

theorem Budgeted.goes_on (h : Budgeted env t) (hp : ∀ result, t.phase ≠ .finished result) :
    ∃ a, a.isOwn = true ∧ ∃ t', Transfer.step env t a = some t' := by
  cases hphase : t.phase with
  | starting => exact absurd hphase h.begun
  | attempt => exact ⟨.turn true, rfl, by simp [Transfer.step, hphase]⟩
  | requesting useRange start => exact ⟨.sendFails "", rfl, by simp [Transfer.step, hphase]⟩
  | streaming =>
    obtain ⟨s, hs⟩ := h.stream hphase
    exact ⟨.proceed, rfl, by simp [Transfer.step, proceed, hphase, hs]⟩
  | streamed => exact ⟨.proceed, rfl, by simp [Transfer.step, proceed, hphase]⟩
  | retrying err => exact ⟨.retry none, rfl, by simp [Transfer.step, hphase]⟩
  | succeeding => exact ⟨.proceed, rfl, by simp [Transfer.step, proceed, hphase]⟩
  | finished result => exact absurd hphase (hp result)

/-- The error that is noted is the one that the run is about to retry or to end with. -/
structure Noted (t : Transfer) (last : Option Error) : Prop where
  retrying : ∀ err, t.phase = .retrying err → last = some err
  finished : ∀ err, t.phase = .finished (.error err) → last = some err

theorem Noted.step (hn : Noted t last) (h : Budgeted env t) (ha : a ≠ .pause)
    (hs : Transfer.step env t a = some t') :
    Noted t' (match t.attemptError env a with
      | some err => some err
      | none => last) := by
  cases h.advance ha hs with
  | outside ho =>
    have hnone : t.attemptError env a = none := by
      cases a <;> first | rfl | cases ho
    rw [hnone]
    exact ⟨hn.retrying, hn.finished⟩
  | failed fs hp he =>
    rw [he]
    refine ⟨?_, nofun⟩
    intro err hphase
    cases hphase
    rfl
  | refused hp he =>
    rw [he]
    refine ⟨nofun, ?_⟩
    intro err hphase
    cases hphase
    rfl
  | gaveUp hp hretry =>
    rw [hretry]
    refine ⟨nofun, ?_⟩
    intro err hphase
    cases hphase
    exact hn.retrying _ hp
  | chunk hp | slice hp =>
    constructor <;>
    · intro err hphase
      exact absurd (hp.symm.trans hphase) nofun
  | _ => exact ⟨nofun, nofun⟩

theorem not_finished (hs : Transfer.step env t a = some t') :
    ∀ result, t.phase ≠ .finished result := by
  intro result hp
  cases step_performs hs with
  | pause h | resume h | cancel h | delete h => exact h result hp
  | begin h | stream h | complete h | finishSuccess h | turn h | buildFails h | sendFails h
  | respond h | storeFails h | writeFails h | retry h => exact absurd (h.symm.trans hp) nofun

/-- A run ends well only at its success or when it is stopped. -/
theorem Budgeted.ends_well (h : Budgeted env t) (ha : a ≠ .pause)
    (hs : Transfer.step env t a = some t') (ht : t'.phase = .finished (.ok ())) :
    t'.worker.shouldStopGracefully = true ∨
      a = .proceed ∧ t.phase = .succeeding ∧ t' = t.finishSuccess := by
  cases h.advance ha hs with
  | outside _ => exact absurd ht (not_finished hs _)
  | stopped _ hstop => exact .inl hstop
  | succeeded he hphase => exact .inr ⟨he, hphase, rfl⟩
  | chunk hphase | slice hphase => exact absurd (hphase.symm.trans ht) nofun
  | _ => cases ht

theorem begin_budgeted (env : TransferEnv) {t : Transfer} (hcount : t.retryCount = 0)
    (hstatus : t.worker.status.startsLoop = true)
    (hpause : t.worker.paused = true → t.worker.status = .paused) :
    Budgeted env t.begin ∧ Noted t.begin none ∧ requestsLeft env t.begin ≤ env.maxRetries + 1 ∧
      stepsLeft env t.begin ≤ 5 * env.maxRetries + 5 ∧
      ∀ result, t.begin.phase ≠ .finished result := by
  have hrun (paused : Bool) (hu : paused = false) :
      let worker := { t.worker with paused, status := .running }
      let t' :=
        if t.worker.lengthKnown && decide (t.worker.expectedLength ≤ t.worker.downloadedSize)
        then { t with worker, downloaded := t.worker.downloadedSize, phase := .succeeding }
        else { t with worker, downloaded := t.worker.downloadedSize, phase := .attempt }
      Budgeted env t' ∧ Noted t' none ∧ requestsLeft env t' ≤ env.maxRetries + 1 ∧
        stepsLeft env t' ≤ 5 * env.maxRetries + 5 ∧ ∀ result, t'.phase ≠ .finished result := by
    have hretries : t.retryCount ≤ env.maxRetries := hcount ▸ Nat.zero_le _
    dsimp only
    split
    all_goals
      refine ⟨⟨nofun, hu, hretries, nofun⟩, ⟨nofun, nofun⟩, ?_, ?_, nofun⟩
      · simp only [requestsLeft, hcount]
        omega
      · simp only [stepsLeft, hcount]
        omega
  unfold begin
  split
  case h_1 hs | h_2 hs | h_3 hs =>
    rw [hs] at hstatus
    cases hstatus
  case h_4 =>
    apply hrun
    split
    case isTrue => rfl
    case isFalse hne => exact Bool.eq_false_iff.2 fun hp => hne (hpause hp)

end Transfer

open Transition in
/-- Whatever the network and the calls on the worker do forever, a worker that nobody pauses sends
no more requests than its retries and one, and it takes a bounded number of steps; as long as it has
not returned, it can take another one. It returns well after its success or when it is stopped, and
otherwise with the error of its last attempt. -/
theorem Transfer.download_loop_bounded {t : Transfer} {env : TransferEnv}
    (hphase : t.phase = .starting) (hcount : t.retryCount = 0)
    (hstatus : t.worker.status.startsLoop = true)
    (hpause : t.worker.paused = true → t.worker.status = .paused)
    (schedule : Nat → TransferAct) (hno : ∀ n, schedule n ≠ .pause) :
    ∃ bound, ∀ n t', run (step env) t (.proceed :: firstActs schedule n) = some t' →
      let acts := firstActs schedule n
      acts.countP TransferAct.isRequest ≤ env.maxRetries + 1 ∧ t'.retryCount ≤ env.maxRetries ∧
      acts.countP TransferAct.isOwn ≤ bound ∧
      ((∀ result, t'.phase ≠ .finished result) →
        ∃ a, a.isOwn = true ∧ ∃ t'', step env t' a = some t'') ∧
      (t'.phase = .finished (.ok ()) → t'.worker.shouldStopGracefully = true ∨
        ∃ before s, acts = before ++ [.proceed] ∧
          run (step env) t (.proceed :: before) = some s ∧ s.phase = .succeeding ∧
          t' = s.finishSuccess) ∧
      (∀ err, t'.phase = .finished (.error err) → lastError env t.begin acts = some err) := by
  obtain ⟨hb, hnoted, hrequests, hsteps, hopen⟩ := begin_budgeted env hcount hstatus hpause
  have hbegin : step env t .proceed = some t.begin := by
    simp only [step, proceed, hphase]
  have hrest {acts : List TransferAct} {t' : Transfer}
      (hr : run (step env) t (.proceed :: acts) = some t') :
      run (step env) t.begin acts = some t' := by
    rwa [run, hbegin] at hr
  have hpauses (n : Nat) : ∀ a ∈ firstActs schedule n, a ≠ .pause := by
    intro a ha
    obtain ⟨k, _, rfl⟩ := List.mem_map.1 ha
    exact hno k
  have hcounted (n : Nat) (t' : Transfer)
      (hr : run (step env) t.begin (firstActs schedule n) = some t') :
      (firstActs schedule n).countP TransferAct.isRequest ≤ env.maxRetries + 1 := by
    have hpaid := run_amortized (p := TransferAct.isRequest) (requestsLeft env) (fun _ => 0)
      (fun s a s' (h : Budgeted env s) ha hs => ⟨h.step ha hs, h.requestsLeft_step ha hs⟩)
      (hpauses n) hb hr
    simp only [List.map_const', List.sum_replicate_nat, Nat.mul_zero] at hpaid
    omega
  obtain ⟨total, htotal⟩ := gain_bounded TransferAct.received
    (fun a ha => by cases a <;> first | rfl | cases ha) hcounted
  refine ⟨5 * env.maxRetries + 5 + total, ?_⟩
  intro n t' hr
  replace hr := hrest hr
  have hpaid := run_amortized (p := TransferAct.isOwn) (stepsLeft env) TransferAct.received
    (fun s a s' (h : Budgeted env s) ha hs => ⟨h.step ha hs, h.stepsLeft_step ha hs⟩)
    (hpauses n) hb hr
  have hreceived := htotal n t' hr
  have hmeets : Meets (step env) (fun _ a => a ≠ .pause) t.begin (firstActs schedule n) :=
    meets_of_forall (hpauses n)
  have hb' := hmeets.invariant (fun s a s' h ha hs => Budgeted.step h ha hs) hb hr
  have hlast := hmeets.history (I := fun s last => Budgeted env s ∧ Noted s last)
    (fun s last a s' h ha hs => ⟨h.1.step ha hs, h.2.step h.1 ha hs⟩) ⟨hb, hnoted⟩ hr
  refine ⟨hcounted n t' hr, hb'.retries, by omega, hb'.goes_on, ?_, hlast.2.finished⟩
  intro hend
  rcases List.eq_nil_or_concat (firstActs schedule n) with hnil | ⟨before, a, hacts⟩
  · rw [hnil] at hr
    cases hr
    exact absurd hend (hopen _)
  · rw [List.concat_eq_append] at hacts
    have hpause := hacts ▸ hpauses n
    rw [hacts] at hr
    obtain ⟨s, hbefore, hs⟩ := run_concat hr
    have hmeets : Meets (step env) (fun _ a => a ≠ .pause) t.begin before :=
      meets_of_forall fun b hm => hpause b (List.mem_append_left [a] hm)
    have hb := hmeets.invariant (fun s a s' h ha hs => Budgeted.step h ha hs) hb hbefore
    have ha := hpause a (List.mem_append_right before List.mem_cons_self)
    apply (hb.ends_well ha hs hend).imp_right
    rintro ⟨rfl, hphase, rfl⟩
    refine ⟨before, s, hacts, ?_, hphase, rfl⟩
    rw [run, hbegin]
    exact hbefore

/-- A network that never answers. -/
def timeouts (n : Nat) : TransferAct :=
  if n % 3 = 0 then .turn true else if n % 3 = 1 then .sendFails "timeout" else .retry none

open Transition in
theorem Transfer.timeouts_bounded :
    let env : TransferEnv := ⟨oneFile 4, 2⟩
    let t := newTransfer env.store fourByteLane
    ∃ bound, ∀ n t', run (step env) t (.proceed :: firstActs timeouts n) = some t' →
      let acts := firstActs timeouts n
      acts.countP TransferAct.isRequest ≤ env.maxRetries + 1 ∧ t'.retryCount ≤ env.maxRetries ∧
      acts.countP TransferAct.isOwn ≤ bound ∧
      ((∀ result, t'.phase ≠ .finished result) →
        ∃ a, a.isOwn = true ∧ ∃ t'', step env t' a = some t'') ∧
      (t'.phase = .finished (.ok ()) → t'.worker.shouldStopGracefully = true ∨
        ∃ before s, acts = before ++ [.proceed] ∧
          run (step env) t (.proceed :: before) = some s ∧ s.phase = .succeeding ∧
          t' = s.finishSuccess) ∧
      (∀ err, t'.phase = .finished (.error err) → lastError env t.begin acts = some err) := by
  intro env t
  apply Transfer.download_loop_bounded rfl rfl rfl (by decide)
  intro n
  unfold timeouts
  split
  · nofun
  · split <;> nofun

end Paradown
