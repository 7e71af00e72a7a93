import Paradown.MissingFile
import Paradown.Resumption
import Mathlib.Data.Prod.Lex
import Mathlib.Data.List.Sort

namespace Paradown
set_option autoImplicit true

namespace Task

def recordSourceSuccess (t : Task) (sourceId : String) : Task :=
  { t with
    sourceRuntime := Function.update t.sourceRuntime sourceId
      { consecutiveFailures := 0
        successfulTransfers := satAdd32 (t.sourceRuntime sourceId).successfulTransfers 1 } }

def recordSourceFailure (t : Task) (sourceId : String) : Task :=
  { t with
    sourceRuntime := Function.update t.sourceRuntime sourceId
      { t.sourceRuntime sourceId with
        consecutiveFailures := satAdd32 (t.sourceRuntime sourceId).consecutiveFailures 1 } }

def selectRetrySource (t : Task) (currentSourceId : String) : Option SourceDescriptor :=
  if (t.sourceRuntime currentSourceId).consecutiveFailures = 0 then none
  else t.rankedTransferSources.find? fun source => source.id != currentSourceId

/-- The source is on record with this validator. -/
def reports (t : Task) (sourceId validator : String) : Bool :=
  ((t.sources.get sourceId).bind (·.resourceIdentity)).any fun identity =>
    identity.entityTag == some validator || identity.lastModified == some validator

/-- The source is on record with the validator that the task sends, when it has one to send. -/
def vouches (t : Task) (sourceId : String) : Bool :=
  t.identity.resumeValidator.all (t.reports sourceId)

/-- Among the sources other than the current one, none is ranked before this. -/
def FallsBackTo (t : Task) (currentSourceId : String) (source : SourceDescriptor) : Prop :=
  source ∈ t.sources.activeTransferSources ∧ source.id ≠ currentSourceId ∧
    ∀ other ∈ t.sources.activeTransferSources, other.id ≠ currentSourceId →
      rankedLe t.sourceRuntime (t.sources.primary.map (·.id)) source other = true

end Task

/-- No two sources share an id; `push_unique` sees to it. -/
def SourceSet.HasUniqueIds (s : SourceSet) : Prop := (s.sources.map (·.id)).Nodup

/-- A run of a worker with the task it belongs to. -/
structure SourcedTransfer where
  task : Task
  transfer : Transfer

/-- The steps of a run that read the records of the task. -/
def TransferAct.readsTask : TransferAct → Bool
  | .turn _ | .retry _ => true
  | _ => false

/-- What happens to such a run: a step that reads no records, the head of the loop, a retry, and
what other workers of the task record about their sources. -/
inductive SourcedAct where
  | own (act : TransferAct)
  | ask
  | retry
  | success (sourceId : String)
  | failure (sourceId : String)

/-- The error that a retry is about. -/
def Phase.carried : Phase → Option Error
  | .retrying err => some err
  | _ => none

namespace SourcedTransfer

/-- `finish_success` records the success of the source it was served by. -/
def record (s : SourcedTransfer) : TransferAct → Task
  | .proceed =>
    match s.transfer.phase with
    | .succeeding => s.task.recordSourceSuccess s.transfer.worker.source.id
    | _ => s.task
  | _ => s.task

def step (env : TransferEnv) (s : SourcedTransfer) : SourcedAct → Option SourcedTransfer
  | .own act =>
    if act.readsTask then none
    else (s.transfer.step env act).map fun transfer => ⟨s.record act, transfer⟩
  | .ask =>
    (s.transfer.step env (.turn s.task.rangeRequestsSupported)).map fun transfer =>
      ⟨s.task, transfer⟩
  | .retry =>
    let current := s.transfer.worker.source.id
    let task := s.task.recordSourceFailure current
    (s.transfer.step env (.retry (task.selectRetrySource current))).map fun transfer =>
      ⟨task, transfer⟩
  | .success sourceId => some { s with task := s.task.recordSourceSuccess sourceId }
  | .failure sourceId => some { s with task := s.task.recordSourceFailure sourceId }

/-- The request in flight. -/
def request (s : SourcedTransfer) : Option TransferRequest :=
  match s.transfer.phase with
  | .requesting useRangeRequests rangeStart =>
    some (s.transfer.worker.buildRequest s.task.httpRequest s.task.identity.resumeValidator
      rangeStart useRangeRequests)
  | _ => none

/-- The validator of the request in flight was reported by the source that the request goes to. -/
def Matched (s : SourcedTransfer) : Prop :=
  ∀ request ∈ s.request, ∀ validator ∈ request.ifRange,
    s.task.reports s.transfer.worker.source.id validator = true

/-- A request after these counted bytes would continue the lane. -/
def Continues (s : SourcedTransfer) (downloaded : Nat) : Prop :=
  let w := s.transfer.worker
  s.task.rangeRequestsSupported = true ∧ w.lengthKnown = true ∧
    w.start < satAdd w.start downloaded ∧ satAdd w.start downloaded ≤ w.endByte

/-- A source is only asked to continue a lane when it vouches for the validator. -/
def Trusts (s : SourcedTransfer) (downloaded : Nat) (source : SourceDescriptor) : Prop :=
  source.kind.usesHttpDriver = true → s.Continues downloaded → s.task.vouches source.id = true

/-- The run carries an error that is retried, and has retries left. -/
def GoesOn (env : TransferEnv) (s : SourcedTransfer) : Prop :=
  (∃ err ∈ s.transfer.phase.carried, err.isResumeInvalidated = false) ∧
    s.transfer.retryCount < env.maxRetries

/-- The source with which the run enters its loop, and the one with which it goes on after an
error, the best of the others or else its own, are not asked to continue the lane unless they vouch
for the validator. -/
def KeepsToReporters (env : TransferEnv) (s : SourcedTransfer) : SourcedAct → Prop
  | .own .proceed => s.transfer.phase = .starting →
    s.Trusts s.transfer.worker.downloadedSize s.transfer.worker.source
  | .retry => s.GoesOn env →
    let current := s.transfer.worker.source
    (∀ source ∈ s.task.sources.activeTransferSources,
        s.task.FallsBackTo current.id source → s.Trusts s.transfer.downloaded source) ∧
      ((∀ other ∈ s.task.sources.activeTransferSources, other.id = current.id) →
        s.Trusts s.transfer.downloaded current)
  | _ => True

instance (s : SourcedTransfer) : Decidable s.Matched :=
  inferInstanceAs (Decidable (∀ request ∈ s.request, ∀ validator ∈ request.ifRange,
    s.task.reports s.transfer.worker.source.id validator = true))

instance (t : Task) (current : String) (source : SourceDescriptor) :
    Decidable (t.FallsBackTo current source) :=
  inferInstanceAs (Decidable (_ ∧ _))

instance (s : SourcedTransfer) (downloaded : Nat) (source : SourceDescriptor) :
    Decidable (s.Trusts downloaded source) :=
  inferInstanceAs (Decidable (source.kind.usesHttpDriver = true →
    (s.task.rangeRequestsSupported = true ∧ s.transfer.worker.lengthKnown = true ∧
      s.transfer.worker.start < satAdd s.transfer.worker.start downloaded ∧
      satAdd s.transfer.worker.start downloaded ≤ s.transfer.worker.endByte) →
    s.task.vouches source.id = true))

instance (env : TransferEnv) (s : SourcedTransfer) :
    (a : SourcedAct) → Decidable (s.KeepsToReporters env a)
  | .own .proceed => inferInstanceAs (Decidable (_ → _))
  | .retry => inferInstanceAs (Decidable ((_ ∧ _) → _ ∧ _))
  | .ask | .success _ | .failure _ => isTrue trivial
  | .own .pause | .own .resume | .own .cancel | .own .delete | .own (.turn _) | .own (.buildFails _)
  | .own (.sendFails _) | .own (.respond _) | .own (.storeFails _ _) | .own (.writeFails _ _)
  | .own (.retry _) => isTrue trivial

end SourcedTransfer

/-- What `rankedLe` compares, in the order in which it does. -/
def rankKey (runtime : String → SourceRuntimeState) (primaryId : Option String)
    (source : SourceDescriptor) : ℕ ×ₗ ℕᵒᵈ ×ₗ Bool ×ₗ String :=
  toLex ((runtime source.id).consecutiveFailures,
    toLex (OrderDual.toDual (runtime source.id).successfulTransfers,
      toLex (primaryId != some source.id, source.id)))

theorem rankedLe_iff : rankedLe runtime primaryId left right = true ↔
    rankKey runtime primaryId left ≤ rankKey runtime primaryId right := by
  have hpri (id : String) : (primaryId != some id) = !(primaryId == some id) := rfl
  simp only [rankKey, Prod.Lex.toLex_le_toLex, rankedLe, hpri, OrderDual.toDual_lt_toDual,
    OrderDual.toDual_inj]
  split
  · rename_i hf
    have hf := bne_iff_ne.1 hf
    simp only [decide_eq_true_eq, hf, false_and, or_false]
  · rename_i hf
    have hf : (runtime left.id).consecutiveFailures = (runtime right.id).consecutiveFailures := by
      simpa using hf
    simp only [hf, lt_irrefl, true_and, false_or]
    split
    · rename_i hs
      have hs := bne_iff_ne.1 hs
      simp only [decide_eq_true_eq, hs, false_and, or_false]
    · rename_i hs
      have hs : (runtime left.id).successfulTransfers = (runtime right.id).successfulTransfers := by
        simpa using hs
      simp only [hs, lt_irrefl, true_and, false_or]
      cases primaryId == some left.id <;> cases primaryId == some right.id <;> simp

namespace Task

theorem mem_rankedTransferSources {t : Task} :
    source ∈ t.rankedTransferSources ↔ source ∈ t.sources.activeTransferSources :=
  List.mem_insertionSort _

theorem rankedTransferSources_pairwise (t : Task) : t.rankedTransferSources.Pairwise fun l r =>
    rankedLe t.sourceRuntime (t.sources.primary.map (·.id)) l r = true := by
  have : Std.Total fun l r => rankedLe t.sourceRuntime (t.sources.primary.map (·.id)) l r = true :=
    ⟨fun l r => by simp only [rankedLe_iff]; exact le_total _ _⟩
  have : IsTrans SourceDescriptor fun l r =>
      rankedLe t.sourceRuntime (t.sources.primary.map (·.id)) l r = true :=
    ⟨fun l m r hl hr => rankedLe_iff.2 ((rankedLe_iff.1 hl).trans (rankedLe_iff.1 hr))⟩
  exact List.pairwise_insertionSort _ _

theorem rankedTransferSources_find {t : Task} (h : t.rankedTransferSources.find? p = some source) :
    source ∈ t.sources.activeTransferSources ∧ p source = true ∧
      ∀ other ∈ t.sources.activeTransferSources, p other = true →
        rankedLe t.sourceRuntime (t.sources.primary.map (·.id)) source other = true := by
  obtain ⟨hp, before, after, hsplit, hbefore⟩ := List.find?_eq_some_iff_append.1 h
  have hpair := t.rankedTransferSources_pairwise
  refine ⟨mem_rankedTransferSources.1 (List.mem_of_find?_eq_some h), hp, ?_⟩
  intro other hmem hother
  have hmem := mem_rankedTransferSources.2 hmem
  rw [hsplit] at hmem hpair
  rcases List.mem_append.1 hmem with hmem | hmem
  · have hnot := hbefore other hmem
    rw [hother] at hnot
    cases hnot
  · rcases List.mem_cons.1 hmem with rfl | hmem
    · exact rankedLe_iff.2 (le_refl _)
    · exact (List.pairwise_cons.1 (List.pairwise_append.1 hpair).2.1).1 other hmem

theorem rankedLe_recordSourceFailure {t : Task} (hl : left.id ≠ current) (hr : right.id ≠ current) :
    rankedLe (t.recordSourceFailure current).sourceRuntime primaryId left right =
      rankedLe t.sourceRuntime primaryId left right := by
  simp only [rankedLe, recordSourceFailure, Function.update_of_ne hl, Function.update_of_ne hr]

theorem consecutiveFailures_recordSourceFailure (t : Task) (current : String) :
    ((t.recordSourceFailure current).sourceRuntime current).consecutiveFailures ≠ 0 := by
  simp only [recordSourceFailure, Function.update_self, satAdd32]
  omega

theorem selectRetrySource_recordSourceFailure (t : Task) (current : String) :
    (t.recordSourceFailure current).selectRetrySource current =
      (t.recordSourceFailure current).rankedTransferSources.find? fun source =>
        source.id != current :=
  if_neg (t.consecutiveFailures_recordSourceFailure current)

/-- After a failure the worker falls back to another source, unless there is none. -/
theorem fallsBackTo_of_selected {t : Task}
    (h : (t.recordSourceFailure current).selectRetrySource current = some source) :
    t.FallsBackTo current source := by
  rw [selectRetrySource_recordSourceFailure] at h
  obtain ⟨hmem, hne, hbest⟩ := rankedTransferSources_find h
  have hne := bne_iff_ne.1 hne
  refine ⟨hmem, hne, fun other hother hid => ?_⟩
  rw [← rankedLe_recordSourceFailure hne hid]
  exact hbest other hother (bne_iff_ne.2 hid)

theorem not_selected {t : Task}
    (h : (t.recordSourceFailure current).selectRetrySource current = none) :
    ∀ other ∈ t.sources.activeTransferSources, other.id = current := by
  rw [selectRetrySource_recordSourceFailure, List.find?_eq_none] at h
  intro other hother
  have hid := h other (mem_rankedTransferSources.2 hother)
  simpa using hid

theorem rankedLe_antisymm (hl : rankedLe runtime primaryId left right = true)
    (hr : rankedLe runtime primaryId right left = true) : left.id = right.id := by
  have hkey := le_antisymm (rankedLe_iff.1 hl) (rankedLe_iff.1 hr)
  exact congrArg (fun key => (ofLex (ofLex (ofLex key).2).2).2) hkey

theorem selected_of_fallsBackTo {t : Task} (hunique : t.sources.HasUniqueIds)
    (h : t.FallsBackTo current source) :
    (t.recordSourceFailure current).selectRetrySource current = some source := by
  obtain ⟨hmem, hne, hbest⟩ := h
  cases hselected : (t.recordSourceFailure current).selectRetrySource current with
  | none => exact absurd (not_selected hselected source hmem) hne
  | some other =>
    obtain ⟨hother, hne', hbest'⟩ := fallsBackTo_of_selected hselected
    have hid := rankedLe_antisymm (hbest' source hmem hne) (hbest other hother hne')
    exact congrArg some (List.inj_on_of_nodup_map hunique (List.mem_of_mem_filter hother)
      (List.mem_of_mem_filter hmem) hid)

end Task

namespace SourcedTransfer

theorem KeepsToReporters.fallBack {s : SourcedTransfer} (h : s.KeepsToReporters env .retry)
    (hgoes : s.GoesOn env) :
    let current := s.transfer.worker.source.id
    s.Trusts s.transfer.downloaded (s.transfer.worker.fallBack
      ((s.task.recordSourceFailure current).selectRetrySource current)).source := by
  intro current
  obtain ⟨hothers, hnone⟩ := h hgoes
  cases hselected : (s.task.recordSourceFailure current).selectRetrySource current with
  | none => exact hnone (Task.not_selected hselected)
  | some source =>
    have hfalls := Task.fallsBackTo_of_selected hselected
    have hne : source.id ≠ s.transfer.worker.source.id := hfalls.2.1
    rw [Worker.fallBack, if_pos hne]
    exact hothers source hfalls.1 hfalls

end SourcedTransfer

namespace Transfer

/-- The source stays, and the head of the loop is not come to. -/
structure Stays (t t' : Transfer) : Prop where
  source : t'.worker.source = t.worker.source
  attempt : t'.phase = .attempt → t.phase = .attempt ∧ t'.downloaded = t.downloaded

theorem Stays.refl (t : Transfer) : t.Stays t := ⟨rfl, fun h => ⟨h, rfl⟩⟩

theorem Stays.of_phase {t t' : Transfer} (h : t'.worker.source = t.worker.source)
    (hp : t'.phase = next) (hne : next ≠ .attempt) : t.Stays t' :=
  ⟨h, fun h' => absurd (hp.symm.trans h') hne⟩

theorem Stays.goto (t : Transfer) (hne : next ≠ .attempt) : t.Stays (t.goto next) :=
  .of_phase rfl rfl hne

theorem finishSuccess_stays (t : Transfer) : t.Stays t.finishSuccess := .of_phase rfl rfl nofun

theorem setWorker_stays (t : Transfer) (h : w.source = t.worker.source) :
    t.Stays (t.setWorker w) := ⟨h, fun hp => ⟨hp, rfl⟩⟩

theorem turn_stays (t : Transfer) (supports : Bool) : t.Stays (t.turn supports) := by
  unfold turn
  split
  · exact .of_phase rfl rfl nofun
  · split
    · exact .refl t
    · split
      · exact .of_phase rfl rfl nofun
      · exact .of_phase rfl rfl nofun

theorem respond_stays (t : Transfer) (r : Response) (storeError : Option Error) (useRange : Bool)
    (rangeStart : Nat) : t.Stays (t.respond r storeError useRange rangeStart) := by
  unfold respond
  split
  · exact .of_phase rfl rfl nofun
  · exact .of_phase rfl rfl nofun
  · split
    · exact .of_phase rfl rfl nofun
    · exact .of_phase rfl rfl nofun

theorem streamStep_stays {t : Transfer} (hp : t.phase = .streaming) (env : TransferEnv)
    (s : BodyStream) : t.Stays (t.streamStep env s) := by
  unfold streamStep
  split
  · exact .of_phase rfl rfl nofun
  · split
    · exact .of_phase rfl rfl nofun
    · split
      · exact .refl t
      · split
        · split
          · exact .of_phase rfl rfl nofun
          · exact .of_phase rfl hp nofun
        · exact .of_phase rfl hp nofun
        · exact .of_phase rfl rfl nofun
        · exact .of_phase rfl rfl nofun

theorem complete_stays (t : Transfer) : t.Stays t.complete := by
  unfold complete
  split
  · exact .of_phase rfl rfl nofun
  · split
    · exact .of_phase rfl rfl nofun
    · exact .of_phase rfl rfl nofun

theorem begin_enters (t : Transfer) : t.begin.worker.source = t.worker.source ∧
    (t.begin.phase = .attempt → t.begin.downloaded = t.worker.downloadedSize) := by
  unfold begin
  split
  · exact ⟨rfl, nofun⟩
  · exact ⟨rfl, nofun⟩
  · exact ⟨rfl, nofun⟩
  · dsimp only
    split <;> split <;> exact ⟨rfl, fun _ => rfl⟩

theorem step_enters {t : Transfer} (h : step env t a = some t')
    (ha : ∀ fallback, a ≠ .retry fallback) :
    t.Stays t' ∨ t.phase = .starting ∧ a = .proceed ∧ t' = t.begin := by
  cases step_performs h with
  | pause => exact .inl (t.setWorker_stays rfl)
  | resume =>
    refine .inl (t.setWorker_stays ?_)
    unfold Worker.resume
    split <;> rfl
  | cancel => exact .inl (t.setWorker_stays rfl)
  | delete => exact .inl (t.setWorker_stays rfl)
  | begin hp => exact .inr ⟨hp, rfl, rfl⟩
  | stream hp => exact .inl (streamStep_stays hp env _)
  | complete => exact .inl t.complete_stays
  | finishSuccess => exact .inl t.finishSuccess_stays
  | turn _ supports => exact .inl (t.turn_stays supports)
  | buildFails | sendFails => exact .inl (.goto t (by simp))
  | respond _ r => exact .inl (t.respond_stays r none _ _)
  | storeFails _ r err => exact .inl (t.respond_stays r (some err) _ _)
  | writeFails => exact .inl (.of_phase rfl rfl (by simp))
  | retry _ fallback => exact absurd rfl (ha fallback)

theorem turn_requests {t : Transfer} (h : (t.turn supports).phase = .requesting useRange rangeStart)
    (hp : t.phase = .attempt) : t.worker.source.kind.usesHttpDriver = true := by
  unfold turn at h
  split at h
  · cases h
  · split at h
    · cases hp.symm.trans h
    · split at h
      · assumption
      · cases h

theorem step_requests {t : Transfer} (h : step env t a = some t')
    (hp : t'.phase = .requesting useRange rangeStart) :
    t.phase = .requesting useRange rangeStart ∨
      t.phase = .attempt ∧ t.worker.source.kind.usesHttpDriver = true ∧ ∃ supports,
        a = .turn supports ∧ useRange = (t.worker.lengthKnown && supports) ∧
        rangeStart = satAdd t.worker.start t.downloaded := by
  cases step_move h with
  | idle hw hq =>
    rcases hq with rfl | ⟨hrest, _⟩
    · exact .inl hp
    · cases hp
      cases hrest
  | begin hs hw hq =>
    rcases hq with rfl | ⟨rfl, _⟩
    · cases hp
    · cases hp
  | request hs supports =>
    simp only [step, hs, Option.some.injEq] at h
    have hhttp := turn_requests (h ▸ hp) hs
    cases hp
    exact .inr ⟨hs, hhttp, supports, rfl, rfl, rfl⟩
  | accept => cases hp
  | chunk hs => cases hs.symm.trans hp
  | slice hs => cases hs.symm.trans hp
  | torn => cases hp
  | ended => cases hp
  | checked => cases hp
  | finish => cases hp

theorem retryOrFail_enters (env : TransferEnv) (t : Transfer) (err : Error)
    (fallback : Option SourceDescriptor) :
    (t.retryOrFail env err fallback).downloaded = t.downloaded ∧
      (t.retryOrFail env err fallback).worker.source = (t.worker.fallBack fallback).source := by
  unfold retryOrFail
  dsimp only
  split
  · exact ⟨rfl, rfl⟩
  · split
    · exact ⟨rfl, rfl⟩
    · exact ⟨rfl, rfl⟩

theorem retryOrFail_attempt {t : Transfer} (h : (t.retryOrFail env err fallback).phase = .attempt) :
    err.isResumeInvalidated = false ∧ t.retryCount < env.maxRetries := by
  cases he : err.isResumeInvalidated with
  | false =>
    rw [retryOrFail_phase he] at h
    split at h
    · cases h
    · exact ⟨rfl, Nat.not_le.1 ‹_›⟩
  | true =>
    cases err with
    | resumeInvalidated id message => cases h
    | _ => cases he

end Transfer

namespace SourcedTransfer

/-- The same records of the same sources, and the same lane. -/
structure Agrees (s s' : SourcedTransfer) : Prop where
  identity : s'.task.identity = s.task.identity
  sources : s'.task.sources = s.task.sources
  supports : s'.task.rangeRequestsSupported = s.task.rangeRequestsSupported
  start : s'.transfer.worker.start = s.transfer.worker.start
  endByte : s'.transfer.worker.endByte = s.transfer.worker.endByte
  lengthKnown : s'.transfer.worker.lengthKnown = s.transfer.worker.lengthKnown

theorem Agrees.vouches {s s' : SourcedTransfer} (h : s.Agrees s') (sourceId : String) :
    s'.task.vouches sourceId = s.task.vouches sourceId := by
  unfold Task.vouches Task.reports
  rw [h.identity, h.sources]

theorem Agrees.continues {s s' : SourcedTransfer} (h : s.Agrees s') :
    s'.Continues downloaded ↔ s.Continues downloaded := by
  simp only [Continues, h.supports, h.start, h.endByte, h.lengthKnown]

theorem Agrees.trusts {s s' : SourcedTransfer} (h : s.Agrees s') :
    s'.Trusts downloaded source ↔ s.Trusts downloaded source := by
  simp only [Trusts, h.continues, h.vouches]

theorem step_own {s s' : SourcedTransfer} (h : step env s (.own act) = some s') :
    act.readsTask = false ∧ s.transfer.step env act = some s'.transfer ∧
      s'.task = s.record act := by
  simp only [step] at h
  split at h
  · cases h
  · rename_i hreads
    obtain ⟨transfer, htransfer, rfl⟩ := Option.map_eq_some_iff.1 h
    exact ⟨Bool.eq_false_iff.2 hreads, htransfer, rfl⟩

theorem step_ask {s s' : SourcedTransfer} (h : step env s .ask = some s') :
    s.transfer.step env (.turn s.task.rangeRequestsSupported) = some s'.transfer ∧
      s'.task = s.task := by
  simp only [step, Option.map_eq_some_iff] at h
  obtain ⟨transfer, htransfer, rfl⟩ := h
  exact ⟨htransfer, rfl⟩

theorem step_retry {s s' : SourcedTransfer} (h : step env s .retry = some s') :
    let task := s.task.recordSourceFailure s.transfer.worker.source.id
    let fallback := task.selectRetrySource s.transfer.worker.source.id
    s'.task = task ∧ s.transfer.step env (.retry fallback) = some s'.transfer ∧
      ∃ err, s.transfer.phase = .retrying err ∧
        s'.transfer = s.transfer.retryOrFail env err fallback := by
  intro task fallback
  simp only [step, Option.map_eq_some_iff] at h
  obtain ⟨transfer, htransfer, rfl⟩ := h
  refine ⟨rfl, htransfer, ?_⟩
  simp only [Transfer.step] at htransfer
  split at htransfer
  · rename_i err hp
    exact ⟨err, hp, (Option.some.inj htransfer).symm⟩
  · cases htransfer

theorem record_agrees (s : SourcedTransfer) (act : TransferAct) :
    (s.record act).identity = s.task.identity ∧ (s.record act).sources = s.task.sources ∧
      (s.record act).rangeRequestsSupported = s.task.rangeRequestsSupported := by
  unfold record
  split
  · split <;> exact ⟨rfl, rfl, rfl⟩
  · exact ⟨rfl, rfl, rfl⟩

theorem step_agrees {s s' : SourcedTransfer} (h : step env s a = some s') : s.Agrees s' := by
  cases a with
  | own act =>
    obtain ⟨_, htransfer, htask⟩ := step_own h
    obtain ⟨hidentity, hsources, hsupports⟩ := s.record_agrees act
    obtain ⟨hstart, hend, hknown⟩ := Transfer.step_lane htransfer
    rw [← htask] at hidentity hsources hsupports
    exact ⟨hidentity, hsources, hsupports, hstart, hend, hknown⟩
  | ask =>
    obtain ⟨htransfer, htask⟩ := step_ask h
    obtain ⟨hstart, hend, hknown⟩ := Transfer.step_lane htransfer
    exact ⟨congrArg Task.identity htask, congrArg Task.sources htask,
      congrArg Task.rangeRequestsSupported htask, hstart, hend, hknown⟩
  | retry =>
    obtain ⟨htask, htransfer, _⟩ := step_retry h
    obtain ⟨hstart, hend, hknown⟩ := Transfer.step_lane htransfer
    refine ⟨?_, ?_, ?_, hstart, hend, hknown⟩ <;> rw [htask] <;> rfl
  | success sourceId =>
    cases h
    exact ⟨rfl, rfl, rfl, rfl, rfl, rfl⟩
  | failure sourceId =>
    cases h
    exact ⟨rfl, rfl, rfl, rfl, rfl, rfl⟩

/-- Only a request that continues the lane carries a validator, and it is the stored one. -/
theorem matched_iff {s : SourcedTransfer} : s.Matched ↔
    ∀ rangeStart, s.transfer.phase = .requesting true rangeStart →
      s.transfer.worker.start < rangeStart → rangeStart ≤ s.transfer.worker.endByte →
      s.task.vouches s.transfer.worker.source.id = true := by
  have hvouches : s.task.vouches s.transfer.worker.source.id = true ↔
      ∀ validator ∈ s.task.identity.resumeValidator,
        s.task.reports s.transfer.worker.source.id validator = true := by
    unfold Task.vouches
    cases s.task.identity.resumeValidator with
    | none => exact ⟨fun _ => nofun, fun _ => rfl⟩
    | some validator => simp
  rw [hvouches]
  unfold Matched request
  split
  · rename_i useRange first hp
    rw [hp]
    simp only [Option.mem_some_iff, forall_eq', Worker.buildRequest, Phase.requesting.injEq]
    constructor
    · rintro h _ ⟨rfl, rfl⟩ hstart hend validator hvalidator
      apply h
      simp only [hstart, hend, decide_true, Bool.and_self, if_true]
      exact hvalidator
    · intro h validator hvalidator
      split at hvalidator
      · rename_i hrange
        simp only [Bool.and_eq_true, decide_eq_true_eq] at hrange
        split at hvalidator
        · rename_i hstart
          exact h first ⟨hrange.1, rfl⟩ hstart hrange.2 validator hvalidator
        · cases hvalidator
      · cases hvalidator
  · rename_i hp
    exact ⟨fun _ rangeStart h => absurd h (hp true rangeStart), fun _ => nofun⟩

/-- What every step keeps: the source that the worker may next ask to continue its lane vouches for
the validator, and so does the one it has asked. -/
structure Asks (s : SourcedTransfer) : Prop where
  attempt : s.transfer.phase = .attempt → s.Trusts s.transfer.downloaded s.transfer.worker.source
  request : s.Matched

theorem Asks.stays {s s' : SourcedTransfer} (h : s.Asks) (hagrees : s.Agrees s')
    (hstays : s.transfer.Stays s'.transfer)
    (hasked : ∀ rangeStart, s'.transfer.phase = .requesting true rangeStart →
      s.transfer.phase = .requesting true rangeStart ∨
        s.transfer.phase = .attempt ∧ s.transfer.worker.source.kind.usesHttpDriver = true ∧
          s.task.rangeRequestsSupported = true ∧ s.transfer.worker.lengthKnown = true ∧
          rangeStart = satAdd s.transfer.worker.start s.transfer.downloaded) : s'.Asks := by
  constructor
  case attempt =>
    intro hp
    obtain ⟨hp, hdownloaded⟩ := hstays.attempt hp
    rw [hdownloaded, hstays.source, hagrees.trusts]
    exact h.attempt hp
  case request =>
    rw [matched_iff]
    intro rangeStart hp hstart hend
    rw [hagrees.start] at hstart
    rw [hagrees.endByte] at hend
    rw [hagrees.vouches, hstays.source]
    rcases hasked rangeStart hp with hasked | ⟨hattempt, hhttp, hsupports, hknown, rfl⟩
    · exact matched_iff.1 h.request rangeStart hasked hstart hend
    · exact h.attempt hattempt hhttp ⟨hsupports, hknown, hstart, hend⟩

theorem Asks.own {s s' : SourcedTransfer} (h : s.Asks) (hc : s.KeepsToReporters env (.own act))
    (hs : step env s (.own act) = some s') : s'.Asks := by
  have hagrees := step_agrees hs
  obtain ⟨hreads, htransfer, _⟩ := step_own hs
  have hretry (fallback : Option SourceDescriptor) : act ≠ .retry fallback := by
    rintro rfl
    cases hreads
  rcases Transfer.step_enters htransfer hretry with hstays | ⟨hstart, rfl, hbegin⟩
  · apply h.stays hagrees hstays
    intro rangeStart hp
    rcases Transfer.step_requests htransfer hp with hasked | ⟨_, _, supports, rfl, _⟩
    · exact .inl hasked
    · cases hreads
  · obtain ⟨hsource, hdownloaded⟩ := s.transfer.begin_enters
    constructor
    case attempt =>
      intro hp
      rw [hbegin] at hp
      rw [hagrees.trusts, hbegin, hsource, hdownloaded hp]
      exact hc hstart
    case request =>
      rw [matched_iff]
      intro rangeStart hp
      rcases Transfer.step_requests htransfer hp with hasked | ⟨hattempt, _⟩
      · cases hasked.symm.trans hstart
      · cases hattempt.symm.trans hstart

theorem Asks.ask {s s' : SourcedTransfer} (h : s.Asks) (hs : step env s .ask = some s') :
    s'.Asks := by
  have hagrees := step_agrees hs
  obtain ⟨htransfer, _⟩ := step_ask hs
  have hretry (fallback : Option SourceDescriptor) :
      TransferAct.turn s.task.rangeRequestsSupported ≠ .retry fallback := nofun
  rcases Transfer.step_enters htransfer hretry with hstays | ⟨_, hact, _⟩
  · apply h.stays hagrees hstays
    intro rangeStart hp
    rcases Transfer.step_requests htransfer hp with
      hasked | ⟨hattempt, hhttp, supports, hact, hrange, hfirst⟩
    · exact .inl hasked
    · obtain ⟨hknown, hsupports⟩ := Bool.and_eq_true_iff.1 hrange.symm
      obtain rfl := TransferAct.turn.inj hact
      exact .inr ⟨hattempt, hhttp, hsupports, hknown, hfirst⟩
  · cases hact

theorem Asks.retry {s s' : SourcedTransfer} (hc : s.KeepsToReporters env .retry)
    (hs : step env s .retry = some s') : s'.Asks := by
  have hagrees := step_agrees hs
  obtain ⟨_, hstep, err, hretrying, htransfer⟩ := step_retry hs
  obtain ⟨hdownloaded, hsource⟩ := s.transfer.retryOrFail_enters env err
    ((s.task.recordSourceFailure s.transfer.worker.source.id).selectRetrySource
      s.transfer.worker.source.id)
  constructor
  case attempt =>
    intro hp
    rw [hagrees.trusts, htransfer, hdownloaded, hsource]
    obtain ⟨herr, hbudget⟩ := Transfer.retryOrFail_attempt (htransfer ▸ hp)
    exact hc.fallBack ⟨⟨err, by rw [hretrying]; rfl, herr⟩, hbudget⟩
  case request =>
    rw [matched_iff]
    intro rangeStart hp
    rcases Transfer.step_requests hstep hp with hasked | ⟨hattempt, _⟩
    · cases hasked.symm.trans hretrying
    · cases hattempt.symm.trans hretrying

theorem Asks.step {s s' : SourcedTransfer} (h : s.Asks) (hc : s.KeepsToReporters env a)
    (hs : step env s a = some s') : s'.Asks := by
  have hagrees := step_agrees hs
  cases a with
  | own act => exact h.own hc hs
  | ask => exact h.ask hs
  | retry => exact Asks.retry hc hs
  | success sourceId =>
    obtain rfl := Option.some.inj hs
    exact h.stays hagrees (.refl _) fun _ => .inl
  | failure sourceId =>
    obtain rfl := Option.some.inj hs
    exact h.stays hagrees (.refl _) fun _ => .inl

theorem asks_untrusted {s : SourcedTransfer} (hp : s.transfer.phase = .attempt)
    (hstop : s.transfer.worker.shouldStopGracefully = false)
    (hpaused : s.transfer.worker.paused = false)
    (h : ¬ s.Trusts s.transfer.downloaded s.transfer.worker.source) :
    ∃ s', step env s .ask = some s' ∧ ¬ s'.Matched := by
  simp only [Trusts, Classical.not_imp] at h
  obtain ⟨hhttp, ⟨hsupports, hknown, hstart, hend⟩, hvouches⟩ := h
  refine ⟨⟨s.task, s.transfer.goto (.requesting true
    (satAdd s.transfer.worker.start s.transfer.downloaded))⟩, ?_, ?_⟩
  · simp only [step, Transfer.step, hp, Transfer.turn, hstop, hpaused, hhttp, hknown, hsupports,
      Bool.false_eq_true, if_false, if_true, Bool.and_self, Option.map_some]
  · intro hmatched
    have hasked := matched_iff.1 hmatched
    exact hvouches (hasked _ rfl hstart hend)

/-- A step that does not meet the condition, and leads to the head of the loop, leads there with a
source that is not trusted. -/
theorem untrusted_of_not_keepsToReporters {s s' : SourcedTransfer}
    (hunique : s.task.sources.HasUniqueIds) (hs : step env s a = some s')
    (hc : ¬ s.KeepsToReporters env a) (hp : s'.transfer.phase = .attempt) :
    ¬ s'.Trusts s'.transfer.downloaded s'.transfer.worker.source := by
  have hagrees := step_agrees hs
  intro htrusts
  rw [hagrees.trusts] at htrusts
  apply hc
  cases a with
  | ask => trivial
  | success sourceId => trivial
  | failure sourceId => trivial
  | own act =>
    cases act with
    | proceed =>
      intro hstart
      obtain ⟨_, htransfer, _⟩ := step_own hs
      obtain ⟨hsource, hdownloaded⟩ := s.transfer.begin_enters
      simp only [Transfer.step, Transfer.proceed, hstart, Option.some.injEq] at htransfer
      rw [← htransfer] at hp htrusts
      rw [hdownloaded hp, hsource] at htrusts
      exact htrusts
    | _ => trivial
  | retry =>
    intro hgoes
    obtain ⟨_, _, err, _, htransfer⟩ := step_retry hs
    obtain ⟨hdownloaded, hsource⟩ := s.transfer.retryOrFail_enters env err
      ((s.task.recordSourceFailure s.transfer.worker.source.id).selectRetrySource
        s.transfer.worker.source.id)
    rw [htransfer, hdownloaded, hsource] at htrusts
    constructor
    · intro source hmem hfalls
      have hne : source.id ≠ s.transfer.worker.source.id := hfalls.2.1
      rw [Task.selected_of_fallsBackTo hunique hfalls, Worker.fallBack, if_pos hne] at htrusts
      exact htrusts
    · intro hnone
      cases hselected : (s.task.recordSourceFailure s.transfer.worker.source.id).selectRetrySource
          s.transfer.worker.source.id with
      | none =>
        rw [hselected] at htrusts
        exact htrusts
      | some source =>
        have hfalls := Task.fallsBackTo_of_selected hselected
        exact absurd (hnone source hfalls.1) hfalls.2.1

end SourcedTransfer

/-- From the start of a worker's run, whatever fails, is retried or is recorded by other workers: as
long as the run only goes on with sources that vouch for the stored validator, every request in
flight carries a validator that its own source has reported. The first step that breaks this, of a
worker that is neither stopped nor paused, is followed by a request that does not. -/
theorem if_range_matches_source (env : TransferEnv) (s s' : SourcedTransfer)
    (acts : List SourcedAct) (hstart : s.transfer.phase = .starting)
    (hrun : Transition.run (SourcedTransfer.step env) s acts = some s') :
    (Transition.Meets (SourcedTransfer.step env) (SourcedTransfer.KeepsToReporters env) s acts →
      s'.Matched) ∧
    ∀ a s'', s'.task.sources.HasUniqueIds → ¬ s'.KeepsToReporters env a →
      SourcedTransfer.step env s' a = some s'' → s''.transfer.phase = .attempt →
      s''.transfer.worker.shouldStopGracefully = false → s''.transfer.worker.paused = false →
      ∃ t, SourcedTransfer.step env s'' .ask = some t ∧ ¬ t.Matched := by
  constructor
  · intro hmeets
    have hinit : s.Asks := by
      constructor
      case attempt =>
        intro hp
        cases hstart.symm.trans hp
      case request =>
        rw [SourcedTransfer.matched_iff]
        intro rangeStart hp
        cases hstart.symm.trans hp
    exact (hmeets.invariant (fun _ _ _ hasks hc hs => hasks.step hc hs) hinit hrun).request
  · intro a s'' hunique hc hs hp hstop hpaused
    exact SourcedTransfer.asks_untrusted hp hstop hpaused
      (SourcedTransfer.untrusted_of_not_keepsToReporters hunique hs hc hp)

/-- A task with a mirror, whose primary has answered the probe. -/
def mirroredTask (mirrorIdentity : Option HttpResourceIdentity) : Task :=
  let t := restoredTask []
  let mirror : SourceDescriptor :=
    ⟨"mirror", .mirror, "https://mirror.example.com/file.bin", false, none, mirrorIdentity,
      .httpOrigin⟩
  let t := { t with sources := t.sources.pushUnique mirror, rangeRequestsSupported := true }
  { t with sources := t.buildRuntimeSourceSet t.identity }

/-- The connection to the primary breaks after two bytes, and the worker asks the mirror. -/
def fallsBackToMirror : List SourcedAct :=
  [.own .proceed, .ask,
    .own (.respond ⟨206, "206 Partial Content", some (some "bytes 0-3/4"), [[1, 2]],
      some "reset"⟩),
    .own .proceed, .own .proceed, .own .proceed, .retry, .ask]

theorem mirror_with_the_validator_is_matched :
    let env : TransferEnv := ⟨oneFile 4, 3⟩
    ∃ s, Transition.run (SourcedTransfer.step env) ⟨mirroredTask (some { entityTag := some "v1" }),
        newTransfer env.store fourByteLane⟩ fallsBackToMirror = some s ∧
      (s.transfer.phase = .requesting true 2 ∧ s.transfer.worker.source.id = "mirror") ∧
      s.Matched := by
  intro env
  obtain ⟨s, hrun, hasked⟩ : ∃ s, Transition.run (SourcedTransfer.step env)
      ⟨mirroredTask (some { entityTag := some "v1" }), newTransfer env.store fourByteLane⟩
      fallsBackToMirror = some s ∧
      (s.transfer.phase = .requesting true 2 ∧ s.transfer.worker.source.id = "mirror") :=
    Transition.run_any (by decide)
  exact ⟨s, hrun, hasked, (if_range_matches_source env _ s _ rfl hrun).1 (by decide)⟩

/-- The mirror is asked to continue the lane with the entity tag of the primary. -/
theorem mirror_is_sent_the_primarys_validator :
    let env : TransferEnv := ⟨oneFile 4, 3⟩
    ∃ s, Transition.run (SourcedTransfer.step env) ⟨mirroredTask none,
        newTransfer env.store fourByteLane⟩ fallsBackToMirror = some s ∧
      (s.transfer.worker.source.id = "mirror" ∧ ∃ request ∈ s.request,
        request.locator = "https://mirror.example.com/file.bin" ∧
          request.range = some (2, 3) ∧ request.ifRange = some "v1") ∧ ¬ s.Matched := by
  intro env
  obtain ⟨s, hrun, hasked, hmatched⟩ : ∃ s, Transition.run (SourcedTransfer.step env)
      ⟨mirroredTask none, newTransfer env.store fourByteLane⟩ fallsBackToMirror = some s ∧
      (s.transfer.worker.source.id = "mirror" ∧ ∃ request ∈ s.request,
        request.locator = "https://mirror.example.com/file.bin" ∧
          request.range = some (2, 3) ∧ request.ifRange = some "v1") ∧ ¬ s.Matched :=
    Transition.run_any (by decide)
  exact ⟨s, hrun, hasked, hmatched⟩

end Paradown
