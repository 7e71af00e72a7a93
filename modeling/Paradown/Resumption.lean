import Paradown.Ranged

namespace Paradown
set_option autoImplicit true

/-- What the HTTP driver sends: where to, with which options, and the two range headers. -/
structure TransferRequest where
  locator : String
  options : HttpRequestOptions
  range : Option (Nat × Nat)
  ifRange : Option String
  deriving DecidableEq, Repr

/-- `HttpTransferDriver::build_request` of a worker whose task has these options and validator. -/
def Worker.buildRequest (w : Worker) (options : HttpRequestOptions) (validator : Option String)
    (rangeStart : Nat) (useRangeRequests : Bool) : TransferRequest where
  locator := w.source.locator
  options := w.source.request.getD options
  range :=
    if useRangeRequests && decide (rangeStart ≤ w.endByte) then some (rangeStart, w.endByte) else none
  ifRange :=
    if useRangeRequests && decide (rangeStart ≤ w.endByte) then
      if w.start < rangeStart then validator else none
    else none

/-- The variant that ends a run at once. -/
def Error.isResumeInvalidated : Error → Bool
  | .resumeInvalidated _ _ => true
  | _ => false

/-- A step of the run itself, and not a call from outside. What `build_request`, the payload store
and a write can fail with is never `ResumeInvalidated`. -/
def TransferAct.IsOwn : TransferAct → Prop
  | .pause | .resume | .cancel | .delete => False
  | .buildFails err | .storeFails _ err | .writeFails _ err => err.isResumeInvalidated = false
  | _ => True

/-- The error that the run carries, or has ended with. -/
def Phase.error : Phase → Option Error
  | .retrying err | .finished (.error err) => some err
  | _ => none

/-- The response answers a resumed range request with 200 OK. -/
def Transfer.AnswersResume (t : Transfer) (r : Response) : Prop :=
  ∃ rangeStart, t.phase = .requesting true rangeStart ∧ t.worker.start < rangeStart ∧ r.status = 200

/-- The run ends with `ResumeInvalidated`, sends no further request and writes nothing. -/
structure Transfer.EndsInvalidated (env : TransferEnv) (t : Transfer) : Prop where
  stops : ∀ acts t', (∀ a ∈ acts, a.IsOwn) → Transition.run (step env) t acts = some t' →
    t'.fs = t.fs ∧ ∀ useRangeRequests rangeStart, t'.phase ≠ .requesting useRangeRequests rangeStart
  ends : ∃ acts t' id message, (∀ a ∈ acts, a.IsOwn) ∧
    Transition.run (step env) t acts = some t' ∧
    t'.phase = .finished (.error (.resumeInvalidated id message))

/-- What the run carries is not `ResumeInvalidated`. -/
def Phase.Retriable (phase : Phase) : Prop := ∀ err ∈ phase.error, err.isResumeInvalidated = false

theorem Phase.retriable_of_none {phase : Phase} (h : phase.error = none) : phase.Retriable := by
  intro err herr
  rw [h] at herr
  cases herr

theorem Phase.retriable_of_error {phase : Phase} (h : phase.error = some err)
    (he : err.isResumeInvalidated = false) : phase.Retriable := by
  intro err' herr
  rw [h] at herr
  cases herr
  exact he

namespace Transfer

theorem refusal_retriable (h : refusal w r useRange rangeStart = some (err, again)) :
    err.isResumeInvalidated = false := by
  unfold refusal at h
  split at h
  · rename_i hterminal
    cases h
    unfold classifyTerminalHttpError at hterminal
    split at hterminal
    · cases hterminal
      rfl
    · cases hterminal
  · split at h
    · cases h
      rfl
    · split at h
      · cases h
        rfl
      · cases h

end Transfer

theorem FileMap.resolveWrites_retriable {m : FileMap} (h : m.resolveWrites offset len = .error err) :
    err.isResumeInvalidated = false := by
  unfold FileMap.resolveWrites at h
  split at h
  · split at h
    · cases h
      rfl
    · cases h
  · dsimp only at h
    split at h
    · cases h
      rfl
    · split at h
      · cases h
        rfl
      · cases h

theorem FileMap.writeAt_retriable {m : FileMap} (h : m.writeAt fs offset data = .error err) :
    err.isResumeInvalidated = false := by
  unfold FileMap.writeAt at h
  cases hw : m.resolveWrites offset data.length with
  | error err' =>
    rw [hw] at h
    cases h
    exact FileMap.resolveWrites_retriable hw
  | ok writes =>
    rw [hw] at h
    cases h

namespace Transfer

theorem begin_retriable (t : Transfer) : t.begin.phase.Retriable := by
  unfold begin
  split
  · exact Phase.retriable_of_error rfl rfl
  · exact Phase.retriable_of_error rfl rfl
  · exact Phase.retriable_of_none rfl
  · dsimp only
    split <;> split <;> exact Phase.retriable_of_none rfl

theorem turn_retriable {t : Transfer} (h : t.phase.Retriable) (supports : Bool) :
    (t.turn supports).phase.Retriable := by
  unfold turn
  split
  · exact Phase.retriable_of_none rfl
  · split
    · exact h
    · split
      · exact Phase.retriable_of_none rfl
      · exact Phase.retriable_of_error rfl rfl

theorem respond_retriable (t : Transfer) (r : Response) {storeError : Option Error}
    (he : ∀ err ∈ storeError, err.isResumeInvalidated = false) (useRange : Bool)
    (rangeStart : Nat) : (t.respond r storeError useRange rangeStart).phase.Retriable := by
  unfold respond
  split
  · exact Phase.retriable_of_error rfl (refusal_retriable ‹_›)
  · exact Phase.retriable_of_error rfl (refusal_retriable ‹_›)
  · split
    · exact Phase.retriable_of_error rfl (he _ rfl)
    · exact Phase.retriable_of_none rfl

theorem streamStep_retriable {t : Transfer} (h : t.phase.Retriable) (env : TransferEnv)
    (s : BodyStream) : (t.streamStep env s).phase.Retriable := by
  unfold streamStep
  split
  · exact Phase.retriable_of_none rfl
  · split
    · exact Phase.retriable_of_none rfl
    · split
      · exact h
      · split
        · split
          · exact Phase.retriable_of_error rfl (FileMap.writeAt_retriable ‹_›)
          · exact h
        · exact h
        · exact Phase.retriable_of_error rfl rfl
        · exact Phase.retriable_of_none rfl

theorem complete_retriable (t : Transfer) : t.complete.phase.Retriable := by
  unfold complete
  split
  · exact Phase.retriable_of_none rfl
  · split
    · rename_i err herr
      apply Phase.retriable_of_error rfl
      unfold Worker.validateDownloadedLength at herr
      split at herr
      · cases herr
      · split at herr
        · cases herr
          rfl
        · cases herr
    · exact Phase.retriable_of_none rfl

theorem retryOrFail_retriable {t : Transfer} (h : t.phase = .retrying err)
    (hr : t.phase.Retriable) (env : TransferEnv) (fallback : Option SourceDescriptor) :
    (t.retryOrFail env err fallback).phase.Retriable := by
  have herr : err.isResumeInvalidated = false := hr err (by rw [h]; rfl)
  unfold retryOrFail
  dsimp only
  split
  · cases herr
  · split
    · exact Phase.retriable_of_error rfl herr
    · exact Phase.retriable_of_none rfl

/-- No step of a run makes it carry `ResumeInvalidated`. -/
theorem step_retriable {t t' : Transfer} (h : t.phase.Retriable) (ha : a.IsOwn)
    (hs : step env t a = some t') : t'.phase.Retriable := by
  cases step_performs hs with
  | pause | resume | cancel | delete => cases ha
  | begin => exact t.begin_retriable
  | stream => exact streamStep_retriable h env _
  | complete => exact t.complete_retriable
  | finishSuccess => exact Phase.retriable_of_none rfl
  | turn _ supports => exact turn_retriable h supports
  | buildFails => exact Phase.retriable_of_error rfl ha
  | sendFails => exact Phase.retriable_of_error rfl rfl
  | respond _ r =>
    apply t.respond_retriable r
    intro err he
    cases he
  | storeFails _ r err =>
    apply t.respond_retriable r
    rintro _ ⟨⟩
    exact ha
  | writeFails => exact Phase.retriable_of_error rfl ha
  | retry hp fallback => exact retryOrFail_retriable hp h env fallback

theorem run_retriable {t t' : Transfer} (h : t.phase.Retriable) (ha : ∀ a ∈ acts, a.IsOwn)
    (hr : Transition.run (step env) t acts = some t') : t'.phase.Retriable := by
  induction acts generalizing t with
  | nil =>
    cases hr
    exact h
  | cons a acts ih =>
    obtain ⟨s, hs, hr⟩ := Transition.run_cons hr
    rw [List.forall_mem_cons] at ha
    exact ih (step_retriable h ha.1 hs) ha.2 hr

theorem retryOrFail_phase (h : err.isResumeInvalidated = false) (env : TransferEnv) (t : Transfer)
    (fallback : Option SourceDescriptor) :
    (t.retryOrFail env err fallback).phase =
      if env.maxRetries ≤ t.retryCount then .finished (.error err) else .attempt := by
  cases err with
  | resumeInvalidated id message => cases h
  | _ =>
    simp only [retryOrFail]
    split
    · rename_i hle
      exact (if_pos (show env.maxRetries ≤ t.retryCount from hle)).symm
    · rename_i hle
      exact (if_neg (show ¬ env.maxRetries ≤ t.retryCount from hle)).symm

theorem answersResume_respond {t t' : Transfer} (h : t.AnswersResume r)
    (hs : step env t (.respond r) = some t') :
    t' = t.goto (.retrying (.httpError t.worker.id 200 (Error.resumeInvalidated t.worker.id
      "remote resource no longer matches stored validator").toText)) := by
  obtain ⟨rangeStart, hp, hstart, hstatus⟩ := h
  simp only [step, hp, Option.some.injEq] at hs
  subst t'
  have hterminal : classifyTerminalHttpError t.worker r = none := by
    rw [classifyTerminalHttpError, hstatus, if_neg (by decide)]
  have hvalidate : validateResponse t.worker r true rangeStart = .error (.resumeInvalidated
      t.worker.id "remote resource no longer matches stored validator") := by
    rw [validateResponse, if_pos rfl, if_pos ⟨hstart, hstatus⟩]
  have hrefusal : refusal t.worker r true rangeStart = some (.httpError t.worker.id 200
      (Error.resumeInvalidated t.worker.id
        "remote resource no longer matches stored validator").toText, true) := by
    simp only [refusal, hterminal, hvalidate, hstatus]
    rfl
  simp only [respond, hrefusal]

/-- A 200 answer to a resumed request never ends the run as it should: the error is retried as any
other as long as the budget lasts, and never reported as `ResumeInvalidated`. -/
theorem resume_is_never_invalidated {t t' : Transfer} (h : t.AnswersResume r)
    (hs : step env t (.respond r) = some t') :
    ¬ t'.EndsInvalidated env ∧
      ∀ fallback t'', step env t' (.retry fallback) = some t'' →
        if t.retryCount < env.maxRetries then t''.phase = .attempt
        else ∃ message, t''.phase = .finished (.error (.httpError t.worker.id 200 message)) := by
  obtain rfl := answersResume_respond h hs
  constructor
  · intro hends
    obtain ⟨acts, t', id, message, hown, hr, hp⟩ := hends.ends
    have hretriable := run_retriable (Phase.retriable_of_error rfl rfl) hown hr
    cases hretriable (.resumeInvalidated id message) (by rw [hp]; rfl)
  · intro fallback t'' hretry
    simp only [step, goto, Option.some.injEq] at hretry
    subst t''
    rw [retryOrFail_phase rfl]
    split
    · rename_i hlt
      exact if_neg (Nat.not_le.2 hlt)
    · rename_i hlt
      exact ⟨_, if_pos (Nat.not_lt.1 hlt)⟩

end Transfer

/-- A connection that breaks after two bytes of a lane, up to the request for the other two. -/
def brokenThenAsked : List TransferAct :=
  [.proceed, .turn true,
    .respond ⟨206, "206 Partial Content", some (some "bytes 0-3/4"), [[1, 2]], some "reset"⟩,
    .proceed, .proceed, .proceed, .retry none, .turn true]

/-- The answer when the resource has changed in between. -/
def replacedResource : Response := ⟨200, "200 OK", none, [[9, 9, 9, 9]], none⟩

theorem replaced_resource_is_not_invalidated :
    let env : TransferEnv := ⟨oneFile 4, 3⟩
    ∃ t t', Transition.run (Transfer.step env) (newTransfer env.store fourByteLane) brokenThenAsked =
        some t ∧ Transfer.step env t (.respond replacedResource) = some t' ∧
      ¬ t'.EndsInvalidated env := by
  intro env
  obtain ⟨t, hrun, hphase, hstart⟩ : ∃ t, Transition.run (Transfer.step env)
      (newTransfer env.store fourByteLane) brokenThenAsked = some t ∧
      t.phase = .requesting true 2 ∧ t.worker.start = 0 :=
    Transition.run_any (by decide)
  have hanswers : t.AnswersResume replacedResource := ⟨2, hphase, by rw [hstart]; decide, rfl⟩
  have hstep : Transfer.step env t (.respond replacedResource) =
      some (t.respond replacedResource none true 2) := by
    simp only [Transfer.step, hphase]
  exact ⟨t, _, hrun, hstep, (Transfer.resume_is_never_invalidated hanswers hstep).1⟩

/-- After the 200 answer the next request for the same bytes is sent. -/
theorem replaced_resource_is_asked_again :
    let env : TransferEnv := ⟨oneFile 4, 3⟩
    ∃ t t' t'', Transition.run (Transfer.step env) (newTransfer env.store fourByteLane)
        brokenThenAsked = some t ∧ t.AnswersResume replacedResource ∧
      Transfer.step env t (.respond replacedResource) = some t' ∧
      Transition.run (Transfer.step env) t' [.retry none, .turn true] = some t'' ∧
      t''.phase = .requesting true 2 ∧ ¬ t'.EndsInvalidated env := by
  intro env
  obtain ⟨t, hrun, ⟨hphase, hstart⟩, hagain⟩ : ∃ t, Transition.run (Transfer.step env)
      (newTransfer env.store fourByteLane) brokenThenAsked = some t ∧
      (t.phase = .requesting true 2 ∧ t.worker.start = 0) ∧
      (Transition.run (Transfer.step env) t
        [.respond replacedResource, .retry none, .turn true]).any
          (fun t'' => decide (t''.phase = .requesting true 2)) = true :=
    Transition.run_any (by decide)
  obtain ⟨t'', hrun', hphase'⟩ := Transition.run_any hagain
  obtain ⟨t', hstep, hrun'⟩ := Transition.run_cons hrun'
  refine ⟨t, t', t'', hrun, ⟨2, hphase, by rw [hstart]; decide, rfl⟩, hstep, hrun', hphase', ?_⟩
  intro hends
  have hown : ∀ a ∈ [TransferAct.retry none, .turn true], a.IsOwn := by
    intro a ha
    rcases List.mem_pair.1 ha with rfl | rfl <;> trivial
  exact (hends.stops _ t'' hown hrun').2 true 2 hphase'

end Paradown
