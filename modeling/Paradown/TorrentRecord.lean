import Paradown.PieceProgress
import Paradown.Records

namespace Paradown
set_option autoImplicit true

/-- A call on a torrent task, or the next process. -/
inductive TorrentCall where
  | engine (env : SwarmEnv) (event : TorrentEngineEvent)
  | pause (env : SwarmEnv) (engine : Except Error Unit)
  | cancel (env : SwarmEnv) (engine : Except Error Unit)
  | delete (outcome : DeleteOutcome)
  | prepare (env : SwarmEnv) (preparation : SwarmPreparation)
  | persist (env : SwarmEnv)
  | setStatus (status : Status)
  | restore (codec : Codec) (now : Nat) (fs : FileSystem)

namespace SwarmTask

def call (s : SwarmTask) : TorrentCall → Option SwarmTask
  | .engine env event => some (s.handleTorrentEngineEvent env event).2
  | .pause env engine => some (s.pause env engine).2
  | .cancel env engine => some (s.cancel env engine).2
  | .delete outcome => some (s.delete outcome).2
  | .prepare env preparation => some (s.prepareSwarmDownload env preparation).2
  | .persist env => some (s.persistByManager env).2
  | .setStatus status => some (s.setStatus status)
  | .restore codec now fs => some (PieceRun.restored s codec now fs)

/-- What an event says about the session is written down before anything else is done. -/
def recordEvent (s : SwarmTask) : TorrentEngineEvent → SwarmTask
  | .metadataDiscovered metadata => s.recordTorrentMetadata metadata
  | .stateChanged state => s.recordTorrentState state
  | .resumeData bytes => s.recordTorrentResumeData bytes
  | .diagnostic d => if shouldRetainTorrentDiagnostic d then s.recordTorrentDiagnostic d else s
  | .finished => s.recordTorrentState .completed
  | .error message => s.recordTorrentDiagnostic ⟨.session, .error, message, none, none, none⟩
  | .progress _ | .pieceFinished _ => s

/-- The session, its snapshot and the diagnostics are the same. -/
structure SameSession (s s' : SwarmTask) : Prop where
  session : s'.session = s.session
  resume : s'.task.torrentResume = s.task.torrentResume
  diagnostics : s'.diagnostics = s.diagnostics

theorem SameSession.refl (s : SwarmTask) : SameSession s s := ⟨rfl, rfl, rfl⟩

theorem SameSession.trans (h : SameSession s t) (h' : SameSession t u) : SameSession s u :=
  ⟨h'.session.trans h.session, h'.resume.trans h.resume, h'.diagnostics.trans h.diagnostics⟩

theorem save_same (s : SwarmTask) (outcome : SaveOutcome) (rows : StoredRows → StoredRows) :
    SameSession s (s.save outcome rows).2 := by
  unfold save
  split_ifs <;> exact ⟨rfl, rfl, rfl⟩

theorem kept_same (env : SwarmEnv) (s : SwarmTask) : Kept env (SameSession s) where
  save t outcome rows h := h.trans (save_same t outcome rows)
  stamp _ h := ⟨h.session, h.resume, h.diagnostics⟩
  emit _ _ h := ⟨h.session, h.resume, h.diagnostics⟩
  release _ h := ⟨h.session, h.resume, h.diagnostics⟩

theorem persistTask_same (env : SwarmEnv) (s : SwarmTask) : SameSession s (s.persistTask env).2 :=
  (kept_same env s).persistTask (.refl s)

theorem markAllPiecesCompleted_resume (t : Task) :
    t.markAllPiecesCompleted.torrentResume = t.torrentResume := by
  unfold Task.markAllPiecesCompleted
  split <;> rfl

theorem finishAndRelease_same (env : SwarmEnv) (s : SwarmTask) (outcome : Except Error Unit) :
    SameSession s (s.finishAndRelease env outcome).2 := by
  apply (kept_same env s).finishAndRelease
  · intro _
    exact ⟨rfl, markAllPiecesCompleted_resume s.task, rfl⟩
  · intro err _
    exact ⟨rfl, rfl, rfl⟩

theorem installTorrentMetadata_resume (h : installTorrentMetadata t m requested = .ok t') :
    t'.torrentResume = t.torrentResume := by
  rcases installTorrentMetadata_cases t m requested with ⟨_, files, path, hok⟩ | ⟨_, err, herr⟩
  · cases h.symm.trans hok
    rfl
  · cases herr.symm.trans h

theorem handleTorrentEngineEvent_same (env : SwarmEnv) (s : SwarmTask)
    (event : TorrentEngineEvent) :
    SameSession (s.recordEvent event) (s.handleTorrentEngineEvent env event).2 := by
  cases event with
  | metadataDiscovered metadata =>
    simp only [handleTorrentEngineEvent, recordEvent]
    split
    · exact .refl _
    · rename_i t ht
      have hset : SameSession (s.recordTorrentMetadata metadata)
          ((s.recordTorrentMetadata metadata).setTask t) :=
        ⟨rfl, installTorrentMetadata_resume ht, rfl⟩
      exact hset.trans (persistTask_same env _)
  | stateChanged state =>
    cases state with
    | completed => exact finishAndRelease_same env _ _
    | seeding => exact finishAndRelease_same env _ _
    | _ => exact ⟨rfl, rfl, rfl⟩
  | progress stats => exact ⟨rfl, rfl, rfl⟩
  | pieceFinished pieceIndex =>
    have hset : SameSession s (s.setTask { s.task with
        pieceStates := markPiece pieceIndex s.task.pieceStates }) := ⟨rfl, rfl, rfl⟩
    exact hset.trans (persistTask_same env _)
  | resumeData bytes => exact persistTask_same env _
  | diagnostic d =>
    simp only [handleTorrentEngineEvent, recordEvent]
    split_ifs <;> exact ⟨rfl, rfl, rfl⟩
  | finished => exact finishAndRelease_same env _ _
  | error message => exact finishAndRelease_same env _ _

theorem pause_same (env : SwarmEnv) (engine : Except Error Unit) (s : SwarmTask) :
    SameSession s (s.pause env engine).2 := by
  unfold pause
  split
  case h_1 | h_2 =>
    dsimp only
    split
    · exact ⟨rfl, rfl, rfl⟩
    · apply andThen_keeps (P := SameSession s)
      · exact (kept_same env s).persistTask ⟨rfl, rfl, rfl⟩
      · intro t ht
        exact (kept_same env s).emit t .pause ht
  case h_3 => exact .refl s
  case h_4 => exact .refl s

theorem cancel_same (env : SwarmEnv) (engine : Except Error Unit) (s : SwarmTask) :
    SameSession s (s.cancel env engine).2 := by
  unfold cancel
  split
  case h_1 | h_2 | h_3 | h_4 =>
    dsimp only
    split
    · exact ⟨rfl, rfl, rfl⟩
    · apply andThen_keeps (P := SameSession s)
      · exact (kept_same env s).persistTask ⟨rfl, rfl, rfl⟩
      · intro t ht
        exact (kept_same env s).emit t .cancel ht
  case h_5 => exact .refl s

theorem purge_session (s : SwarmTask) (outcome : SaveOutcome) (rows : StoredRows → StoredRows) :
    SameSession s (s.purge outcome rows).2 := by
  have hsave := save_same s outcome rows
  unfold purge
  split
  · rename_i err t ht
    rw [ht] at hsave
    exact ⟨hsave.session, hsave.resume, hsave.diagnostics⟩
  · rename_i t ht
    rw [ht] at hsave
    exact hsave

/-- A deletion that fails leaves the session as it is, one that succeeds leaves nothing of it. -/
def DeleteEnds (s : SwarmTask) (r : Except Error Unit × SwarmTask) : Prop :=
  ((∃ err, r.1 = .error err) ∧ SameSession s r.2) ∨
    r.1 = .ok () ∧ r.2.session = none ∧ r.2.diagnostics = []

theorem DeleteEnds.andThen {r : Except Error Unit × SwarmTask} (hr : SameSession s r.2)
    (hf : ∀ t, SameSession s t → DeleteEnds s (f t)) : DeleteEnds s (andThen r f) := by
  obtain ⟨result, t⟩ := r
  cases result with
  | error err => exact .inl ⟨⟨err, rfl⟩, hr⟩
  | ok _ => exact hf t hr

theorem delete_ends (outcome : DeleteOutcome) (s : SwarmTask) :
    DeleteEnds s (s.delete outcome) := by
  unfold delete
  split
  · rename_i err _
    exact .inl ⟨⟨err, rfl⟩, .refl s⟩
  · dsimp only
    split
    · rename_i err _
      exact .inl ⟨⟨err, rfl⟩, ⟨rfl, rfl, rfl⟩⟩
    · have hworkers : SameSession s
          (s.setTask { s.task with workers := s.task.workers.map Worker.delete }) := ⟨rfl, rfl, rfl⟩
      apply DeleteEnds.andThen (hworkers.trans (purge_session _ _ _))
      intro t ht
      apply DeleteEnds.andThen (ht.trans (purge_session _ _ _))
      intro t ht
      apply DeleteEnds.andThen (ht.trans (purge_session _ _ _))
      intro t _
      exact .inr ⟨rfl, rfl, rfl⟩

theorem foldl_recordTorrentDiagnostic_session (reports : List TorrentDiagnosticEvent)
    (s : SwarmTask) :
    (reports.foldl recordTorrentDiagnostic s).session = s.session ∧
      (reports.foldl recordTorrentDiagnostic s).task = s.task ∧
      (reports.foldl recordTorrentDiagnostic s).stored = s.stored ∧
      (reports.foldl recordTorrentDiagnostic s).persistence = s.persistence := by
  induction reports generalizing s with
  | nil => exact ⟨rfl, rfl, rfl, rfl⟩
  | cons d reports ih => exact ih (s.recordTorrentDiagnostic d)

/-- A preparation records the reports; it sets a session and its snapshot, or leaves the old. -/
theorem prepareSwarmDownload_session (env : SwarmEnv) (preparation : SwarmPreparation)
    (s : SwarmTask) :
    (s.prepareSwarmDownload env preparation).2.diagnostics =
        (preparation.reports.foldl recordTorrentDiagnostic s).diagnostics ∧
      ((∃ session, (s.prepareSwarmDownload env preparation).2.session = some session ∧
        (s.prepareSwarmDownload env preparation).2.task.torrentResume =
          some (.fromSession session)) ∨
      (s.prepareSwarmDownload env preparation).2.session = s.session ∧
        (s.prepareSwarmDownload env preparation).2.task.torrentResume = s.task.torrentResume ∧
        (s.prepareSwarmDownload env preparation).2.stored = s.stored) := by
  obtain ⟨hsession, htask, hstored, _⟩ :=
    foldl_recordTorrentDiagnostic_session preparation.reports s
  unfold prepareSwarmDownload
  dsimp only
  split
  · refine ⟨rfl, .inr ⟨hsession, ?_, hstored⟩⟩
    rw [setTask, htask]
  · rename_i session _
    split
    · refine ⟨rfl, .inr ⟨hsession, ?_, hstored⟩⟩
      rw [setTask, htask]
    · rename_i t _
      have hsame := persistTask_same env
        { (preparation.reports.foldl recordTorrentDiagnostic s) with
        session := some session
        task := { t with torrentResume := some (.fromSession session) } }
      exact ⟨hsame.diagnostics, .inl ⟨session, hsame.session, hsame.resume⟩⟩

/-- The snapshot is that of the live session. -/
def Mirrored (s : SwarmTask) : Prop :=
  ∀ session, s.session = some session → s.task.torrentResume = some (.fromSession session)

theorem Mirrored.same (h : Mirrored s) (hs : SameSession s s') : Mirrored s' := by
  intro session hsession
  rw [hs.resume]
  exact h session (hs.session.symm.trans hsession)

theorem Mirrored.recordEvent (h : Mirrored s) (event : TorrentEngineEvent) :
    Mirrored (s.recordEvent event) := by
  have hrecord (f : TorrentEngineSession → TorrentEngineSession)
      (g : TorrentResumeSnapshot → TorrentResumeSnapshot)
      (hfg : ∀ session, g (.fromSession session) = .fromSession (f session)) :
      Mirrored { s with
        session := s.session.map f
        task := { s.task with torrentResume := s.task.torrentResume.map g } } := by
    intro session hsession
    obtain ⟨old, hold, rfl⟩ := Option.map_eq_some_iff.1 hsession
    exact (congrArg (Option.map g) (h old hold)).trans (congrArg some (hfg old))
  cases event with
  | metadataDiscovered metadata => exact hrecord _ _ fun _ => rfl
  | stateChanged state => exact hrecord _ _ fun _ => rfl
  | resumeData bytes => exact hrecord _ _ fun _ => rfl
  | finished => exact hrecord _ _ fun _ => rfl
  | diagnostic d =>
    simp only [SwarmTask.recordEvent]
    split_ifs <;> exact h
  | error message => exact h
  | progress stats => exact h
  | pieceFinished pieceIndex => exact h

theorem Mirrored.call (h : Mirrored s) (hs : s.call c = some s') : Mirrored s' := by
  cases c with
  | engine env event =>
    cases hs
    exact (h.recordEvent event).same (handleTorrentEngineEvent_same env s event)
  | pause env engine =>
    cases hs
    exact h.same (pause_same env engine s)
  | cancel env engine =>
    cases hs
    exact h.same (cancel_same env engine s)
  | delete outcome =>
    cases hs
    rcases delete_ends outcome s with ⟨_, hsame⟩ | ⟨_, hnone, _⟩
    · exact h.same hsame
    · intro session hsession
      cases hnone.symm.trans hsession
  | prepare env preparation =>
    cases hs
    rcases (prepareSwarmDownload_session env preparation s).2 with ⟨session, hsome, hresume⟩ |
      ⟨hsession, hresume, _⟩
    · intro other hother
      cases hsome.symm.trans hother
      exact hresume
    · intro session hsome
      exact hresume.trans (h session (hsession.symm.trans hsome))
  | persist env =>
    cases hs
    exact h.same (save_same s _ _)
  | setStatus status =>
    cases hs
    exact h.same ⟨rfl, rfl, rfl⟩
  | restore codec now fs =>
    cases hs
    intro session hsession
    cases hsession

/-- What a call notes in the log, after what has been noted since the log was last cleared. -/
def noted (before : List TorrentDiagnosticEvent) (s : SwarmTask) :
    TorrentCall → List TorrentDiagnosticEvent
  | .engine _ (.diagnostic d) => if shouldRetainTorrentDiagnostic d then before ++ [d] else before
  | .engine _ (.error message) => before ++ [⟨.session, .error, message, none, none, none⟩]
  | .prepare _ preparation => before ++ preparation.reports
  | .delete outcome =>
    match (s.delete outcome).1 with
    | .ok () => []
    | .error _ => before
  | .restore _ _ _ => []
  | _ => before

/-- What a run notes. -/
def notedBy : SwarmTask → List TorrentCall → List TorrentDiagnosticEvent :=
  Transition.history call (fun before s c _ => noted before s c) []

end SwarmTask

/-- The log without the entries that the diagnostic replaces. -/
def withoutReplaced (log : List TorrentDiagnosticEvent) (d : TorrentDiagnosticEvent) :
    List TorrentDiagnosticEvent :=
  if shouldReplaceTorrentDiagnostic d then
    log.filter fun existing => !sameTorrentDiagnosticBucket existing d
  else log

/-- The log that a history of diagnostics would have if there were no bound. -/
def compacted (ds : List TorrentDiagnosticEvent) : List TorrentDiagnosticEvent :=
  ds.foldl (fun log d => withoutReplaced log d ++ [d]) []

theorem compacted_concat (ds : List TorrentDiagnosticEvent) (d : TorrentDiagnosticEvent) :
    compacted (ds ++ [d]) = withoutReplaced (compacted ds) d ++ [d] := by
  rw [compacted, List.foldl_append]
  rfl

/-- The log is a window on the compacted history: its end, all of it as long as it is short enough,
without an entry that a later one replaces. -/
structure LogOf (history log : List TorrentDiagnosticEvent) : Prop where
  suffix : log <:+ compacted history
  bounded : log.length ≤ MAX_TORRENT_DIAGNOSTICS
  newest : log.getLast? = history.getLast?
  complete : (∀ before, before <+: history → (compacted before).length ≤ MAX_TORRENT_DIAGNOSTICS) →
    log = compacted history
  current : log.Pairwise fun existing d =>
    shouldReplaceTorrentDiagnostic d = true → sameTorrentDiagnosticBucket existing d = false

theorem LogOf.nil : LogOf [] [] where
  suffix := List.suffix_refl _
  bounded := Nat.zero_le _
  newest := rfl
  complete _ := rfl
  current := .nil

theorem withoutReplaced_sublist (log : List TorrentDiagnosticEvent) (d : TorrentDiagnosticEvent) :
    (withoutReplaced log d).Sublist log := by
  unfold withoutReplaced
  split
  · exact List.filter_sublist
  · exact List.Sublist.refl _

theorem withoutReplaced_suffix (h : log <:+ log') (d : TorrentDiagnosticEvent) :
    withoutReplaced log d <:+ withoutReplaced log' d := by
  unfold withoutReplaced
  split
  · exact h.filter _
  · exact h

theorem LogOf.record (h : LogOf history s.diagnostics) (d : TorrentDiagnosticEvent) :
    LogOf (history ++ [d]) (SwarmTask.recordTorrentDiagnostic s d).diagnostics := by
  have hbound : (withoutReplaced s.diagnostics d).length ≤ MAX_TORRENT_DIAGNOSTICS :=
    (withoutReplaced_sublist _ d).length_le.trans h.bounded
  obtain ⟨kept, hkept, hdiagnostics, hshort, hall⟩ : ∃ kept,
      kept <:+ withoutReplaced s.diagnostics d ∧
      (SwarmTask.recordTorrentDiagnostic s d).diagnostics = kept ++ [d] ∧
      kept.length < MAX_TORRENT_DIAGNOSTICS ∧
      ((withoutReplaced s.diagnostics d).length < MAX_TORRENT_DIAGNOSTICS →
        kept = withoutReplaced s.diagnostics d) := by
    by_cases hfull : (withoutReplaced s.diagnostics d).length = MAX_TORRENT_DIAGNOSTICS
    · refine ⟨(withoutReplaced s.diagnostics d).tail, List.tail_suffix _, ?_, ?_, ?_⟩
      · exact congrArg (· ++ [d]) (if_pos hfull)
      · rw [List.length_tail, hfull]
        decide
      · intro hlt
        exact absurd hfull (Nat.ne_of_lt hlt)
    · refine ⟨withoutReplaced s.diagnostics d, List.suffix_refl _, ?_, by omega, fun _ => rfl⟩
      exact congrArg (· ++ [d]) (if_neg hfull)
  rw [hdiagnostics]
  constructor
  case suffix =>
    rw [compacted_concat]
    obtain ⟨before, hbefore⟩ := hkept.trans (withoutReplaced_suffix h.suffix d)
    exact ⟨before, by rw [← List.append_assoc, hbefore]⟩
  case bounded =>
    rw [List.length_append, List.length_singleton]
    exact hshort
  case newest => rw [List.getLast?_concat, List.getLast?_concat]
  case complete =>
    intro hsmall
    have hlog : s.diagnostics = compacted history := by
      apply h.complete
      intro before hbefore
      exact hsmall before (hbefore.trans (List.prefix_append _ _))
    have hlen := hsmall _ (List.prefix_refl _)
    rw [compacted_concat, List.length_append, List.length_singleton, ← hlog] at hlen
    rw [compacted_concat, ← hlog, hall hlen]
  case current =>
    rw [List.pairwise_append]
    refine ⟨?_, List.pairwise_singleton _ _, ?_⟩
    · exact h.current.sublist (hkept.sublist.trans (withoutReplaced_sublist _ d))
    · intro existing hexisting other hother hreplace
      cases List.mem_singleton.1 hother
      have hmem := hkept.subset hexisting
      rw [withoutReplaced, if_pos hreplace] at hmem
      simpa using (List.mem_filter.1 hmem).2

theorem LogOf.records (h : LogOf history s.diagnostics) (reports : List TorrentDiagnosticEvent) :
    LogOf (history ++ reports) (reports.foldl SwarmTask.recordTorrentDiagnostic s).diagnostics := by
  induction reports generalizing history s with
  | nil =>
    rw [List.append_nil]
    exact h
  | cons d reports ih =>
    rw [List.append_cons]
    exact ih (h.record d)

theorem LogOf.call {s s' : SwarmTask} (h : LogOf history s.diagnostics) (hs : s.call c = some s') :
    LogOf (SwarmTask.noted history s c) s'.diagnostics := by
  cases c with
  | engine env event =>
    cases hs
    rw [(SwarmTask.handleTorrentEngineEvent_same env s event).diagnostics]
    cases event with
    | diagnostic d =>
      simp only [SwarmTask.noted, SwarmTask.recordEvent]
      split
      · exact h.record d
      · exact h
    | error message => exact h.record _
    | _ => exact h
  | pause env engine =>
    cases hs
    rw [(SwarmTask.pause_same env engine s).diagnostics]
    exact h
  | cancel env engine =>
    cases hs
    rw [(SwarmTask.cancel_same env engine s).diagnostics]
    exact h
  | delete outcome =>
    cases hs
    rcases SwarmTask.delete_ends outcome s with ⟨⟨err, herr⟩, hsame⟩ | ⟨hok, _, hnone⟩
    · rw [SwarmTask.noted, herr, hsame.diagnostics]
      exact h
    · rw [SwarmTask.noted, hok, hnone]
      exact .nil
  | prepare env preparation =>
    cases hs
    rw [(SwarmTask.prepareSwarmDownload_session env preparation s).1]
    exact h.records preparation.reports
  | persist env =>
    cases hs
    have hsame : SwarmTask.SameSession s (s.persistByManager env).2 := SwarmTask.save_same s _ _
    rw [hsame.diagnostics]
    exact h
  | setStatus status =>
    cases hs
    exact h
  | restore codec now fs =>
    cases hs
    exact .nil

/-- Over any calls on a torrent task the diagnostics it keeps are a window on what it has noted, and
the snapshot for the next session is that of the live one. -/
theorem torrent_log_and_snapshot (s s' : SwarmTask) (calls : List TorrentCall)
    (hsession : s.session = none) (hlog : s.diagnostics = [])
    (hrun : Transition.run SwarmTask.call s calls = some s') :
    LogOf (SwarmTask.notedBy s calls) s'.diagnostics ∧ s'.Mirrored := by
  have htrue : Transition.Meets SwarmTask.call (fun _ _ => True) s calls :=
    Transition.meets_of_forall fun _ _ => trivial
  apply htrue.history (I := fun s noted => LogOf noted s.diagnostics ∧ s.Mirrored) _ _ hrun
  · rintro s noted c s' ⟨hlog, hmirror⟩ _ hstep
    exact ⟨hlog.call hstep, hmirror.call hstep⟩
  · constructor
    · rw [hlog]
      exact .nil
    · intro session hsome
      cases hsession.symm.trans hsome

/-- A torrent task with a repository and without a session. -/
def idleTorrent : SwarmTask := { runningTorrent with session := none }

/-- A codec that knows the metadata of one torrent. -/
def fiveByteCodec : Codec :=
  { bareCodec with
    metadataToJson := fun m => if m = fiveByteMetadata then some "five bytes" else none
    metadataFromJson := fun text => if text = "five bytes" then some fiveByteMetadata else none }

def fiveByteEnv : SwarmEnv := { quietSwarmEnv with codec := fiveByteCodec }

def fiveByteSession : TorrentEngineSession :=
  ⟨⟨.libtorrent, "c0ffee"⟩, .downloading, none, none, none⟩

/-- The engine reports the metadata, a dead tracker and resume data. -/
def fiveByteCalls : List TorrentCall :=
  [.prepare fiveByteEnv ⟨[], [], .ok fiveByteSession⟩,
    .engine fiveByteEnv (.metadataDiscovered fiveByteMetadata),
    .engine fiveByteEnv (.diagnostic ⟨.tracker, .warning, "refused", none, none, none⟩),
    .engine fiveByteEnv (.resumeData [1, 2]), .engine fiveByteEnv (.stateChanged .downloading)]

theorem five_byte_log : ∃ s', Transition.run SwarmTask.call idleTorrent fiveByteCalls = some s' ∧
    s'.diagnostics.length = 1 ∧
    LogOf (SwarmTask.notedBy idleTorrent fiveByteCalls) s'.diagnostics ∧ s'.Mirrored := by
  obtain ⟨s', hrun, hlength⟩ : ∃ s', Transition.run SwarmTask.call idleTorrent fiveByteCalls =
      some s' ∧ s'.diagnostics.length = 1 := Transition.run_any (by decide +kernel)
  exact ⟨s', hrun, hlength, torrent_log_and_snapshot idleTorrent s' fiveByteCalls rfl rfl hrun⟩

end Paradown
