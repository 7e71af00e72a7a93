import Paradown.TorrentRecord

namespace Paradown
set_option autoImplicit true

/-- A torrent task with the saves of its row that are in progress: the calls that are going to save
it and have not read it yet, the row that the holder of `persistence_gate` has read, and those that
calls of `Manager::persist_task` have read, which take no gate. Of what is stored only the row of
the task is followed. -/
structure SessionSaves where
  swarm : SwarmTask
  pending : Nat
  gated : Option DBDownloadTask
  unguarded : List DBDownloadTask

inductive SaveAct where
  /-- The handler of an engine event writes down what it says of the session. -/
  | event (event : TorrentEngineEvent)
  /-- `prepare_swarm_download` sets the session that the engine has started. -/
  | prepared (session : TorrentEngineSession)
  /-- Any other call goes on to save the task: a pause, a cancellation, a resumption, a start or the
  end of a run. -/
  | saving
  /-- A deletion or a reset has cleared the session. -/
  | ended
  | read
  | write
  | managerRead
  | managerWrite (i : Nat)

namespace SessionSaves

/-- Whether the handler of the event saves the task next. -/
def savesNext (s : SwarmTask) : TorrentEngineEvent → Bool
  | .metadataDiscovered metadata =>
    let t := (s.recordEvent (.metadataDiscovered metadata)).task
    (installTorrentMetadata t metadata t.filePath).toOption.isSome
  | .resumeData _ | .pieceFinished _ => true
  | .stateChanged _ | .progress _ | .diagnostic _ | .finished | .error _ => false

def setRow (d : SessionSaves) (row : DBDownloadTask) : SessionSaves :=
  { d with swarm := { d.swarm with stored := { d.swarm.stored with task := some row } } }

def step (codec : Codec) (d : SessionSaves) : SaveAct → Option SessionSaves
  | .event event =>
    some { d with
      swarm := d.swarm.recordEvent event
      pending := if savesNext d.swarm event then d.pending + 1 else d.pending }
  | .prepared session =>
    some { d with
      swarm := { d.swarm with
        session := some session
        task := { d.swarm.task with torrentResume := some (.fromSession session) } }
      pending := d.pending + 1 }
  | .saving => some { d with pending := d.pending + 1 }
  | .ended =>
    some { d with swarm := { d.swarm with
      session := none, task := { d.swarm.task with torrentResume := none }, diagnostics := [] } }
  | .read =>
    if 0 < d.pending ∧ d.gated.isNone then
      some { d with pending := d.pending - 1, gated := some (taskToDb codec d.swarm.task) }
    else none
  | .write => d.gated.map fun row => { d.setRow row with gated := none }
  | .managerRead => some { d with unguarded := d.unguarded ++ [taskToDb codec d.swarm.task] }
  | .managerWrite i =>
    (d.unguarded[i]?).map fun row => { d.setRow row with unguarded := d.unguarded.eraseIdx i }

/-- Metadata that comes can be installed, and no other save of the row writes while one of the
manager is in progress. -/
def Orderly (d : SessionSaves) : SaveAct → Prop
  | .event event => ∀ metadata, event = .metadataDiscovered metadata → metadata.Installable
  | .write => d.unguarded = []
  | .managerWrite _ => d.unguarded.length = 1
  | _ => True

end SessionSaves

namespace SwarmTask

/-- The row has what the next process needs of the session: its handle, its metadata and its resume
data. -/
structure Holds (codec : Codec) (session : TorrentEngineSession) (row : DBDownloadTask) : Prop where
  backend : row.torrentBackend = some (torrentBackendToDb session.handle.backend)
  externalId : row.torrentExternalId = some session.handle.externalId
  metadata : row.torrentMetadataJson = session.metadata.bind codec.metadataToJson
  resumeData : row.torrentResumeData = session.resumeData

theorem Mirrored.holds {session : TorrentEngineSession} (h : Mirrored s) (hlive : s.session = some session) (codec : Codec) :
    Holds codec session (taskToDb codec s.task) := by
  have hresume := h session hlive
  constructor
  case backend => simp only [taskToDb, hresume]; rfl
  case externalId => simp only [taskToDb, hresume]; rfl
  case metadata => simp only [taskToDb, hresume]; rfl
  case resumeData => simp only [taskToDb, hresume]; rfl

/-- The row has what is needed of the live session. -/
def Fits (codec : Codec) (s : SwarmTask) (row : DBDownloadTask) : Prop :=
  ∀ session, s.session = some session → Holds codec session row

/-- The live session of one task is that of another, up to its state. -/
def SameHandle (s s' : SwarmTask) : Prop :=
  ∀ session', s'.session = some session' → ∃ session, s.session = some session ∧
    session'.handle = session.handle ∧ session'.metadata = session.metadata ∧
    session'.resumeData = session.resumeData

theorem Fits.same (h : Fits codec s row) (hs : SameHandle s s') : Fits codec s' row := by
  intro session' hlive
  obtain ⟨session, hold, hhandle, hmetadata, hresume⟩ := hs session' hlive
  constructor
  case backend => rw [hhandle]; exact (h session hold).backend
  case externalId => rw [hhandle]; exact (h session hold).externalId
  case metadata => rw [hmetadata]; exact (h session hold).metadata
  case resumeData => rw [hresume]; exact (h session hold).resumeData

theorem recordTorrentState_sameHandle (s : SwarmTask) (state : TorrentEngineState) :
    SameHandle s (s.recordTorrentState state) := by
  intro session' hlive
  obtain ⟨session, hold, rfl⟩ := Option.map_eq_some_iff.1 hlive
  exact ⟨session, hold, rfl, rfl, rfl⟩

theorem Holds.read {session : TorrentEngineSession} (h : Holds codec session row)
    (hmetadata : ∀ m ∈ session.metadata,
      (codec.metadataToJson m).bind codec.metadataFromJson = some m)
    (hid : trim session.handle.externalId = session.handle.externalId)
    (hne : session.handle.externalId ≠ "") :
    ∃ state, dbTaskToTorrentResume codec row =
      some ⟨session.handle, state, session.metadata, session.resumeData⟩ := by
  have htext : normalizedTextField session.handle.externalId = some session.handle.externalId := by
    rw [normalizedTextField, hid, if_neg hne]
  have hread : row.torrentMetadataJson.bind codec.metadataFromJson = session.metadata := by
    rw [h.metadata]
    cases hm : session.metadata with
    | none => rfl
    | some m => exact hmetadata m hm
  refine ⟨(row.torrentStateJson.bind codec.stateFromJson).getD .paused, ?_⟩
  simp only [dbTaskToTorrentResume, h.backend, h.externalId, h.resumeData, Option.bind_some,
    torrentBackendFromDb_toDb, Option.getD_some, htext, hread]

end SwarmTask

namespace SessionSaves

open SwarmTask

variable {d d' : SessionSaves}

/-- An event after which nothing is saved changes nothing of the session but its state. -/
theorem sameHandle_of_quiet {s : SwarmTask} (hq : savesNext s event = false)
    (hi : ∀ metadata, event = .metadataDiscovered metadata → metadata.Installable) :
    SameHandle s (s.recordEvent event) := by
  cases event with
  | metadataDiscovered metadata =>
    obtain ⟨t, ht⟩ := (installTorrentMetadata_isOk
      (s.recordEvent (.metadataDiscovered metadata)).task metadata
      (s.recordEvent (.metadataDiscovered metadata)).task.filePath).2 (hi metadata rfl)
    simp only [savesNext, ht] at hq
    cases hq
  | resumeData bytes => cases hq
  | pieceFinished pieceIndex => cases hq
  | stateChanged state => exact recordTorrentState_sameHandle s state
  | finished => exact recordTorrentState_sameHandle s .completed
  | progress stats => exact fun session hlive => ⟨session, hlive, rfl, rfl, rfl⟩
  | error message => exact fun session hlive => ⟨session, hlive, rfl, rfl, rfl⟩
  | diagnostic diagnostic =>
    intro session hlive
    simp only [recordEvent] at hlive
    split at hlive
    · exact ⟨session, hlive, rfl, rfl, rfl⟩
    · exact ⟨session, hlive, rfl, rfl, rfl⟩

/-- What is stored has what is needed of the live session, and so has every row on its way. -/
structure Stored (codec : Codec) (d : SessionSaves) : Prop where
  row : ∀ session, d.swarm.session = some session →
    ∃ row, d.swarm.stored.task = some row ∧ Holds codec session row
  unguarded : ∀ row ∈ d.unguarded, Fits codec d.swarm row

/-- As soon as no call is still to read the task, the one at the gate is about to store what is
needed of the live session, or it is stored. -/
structure Settled (codec : Codec) (d : SessionSaves) : Prop where
  mirrored : Mirrored d.swarm
  gated : d.pending = 0 → ∀ row, d.gated = some row → Fits codec d.swarm row
  stored : d.pending = 0 → d.gated = none → Stored codec d

theorem Settled.same (h : Settled codec d) (hs : SameHandle d.swarm s') (hm : Mirrored s')
    (hstored : s'.stored = d.swarm.stored) : Settled codec { d with swarm := s' } := by
  refine ⟨hm, fun hp row hrow => (h.gated hp row hrow).same hs, fun hp hg => ?_⟩
  obtain ⟨hrow, hunguarded⟩ := h.stored hp hg
  refine ⟨fun session' hlive => ?_, fun row hm => (hunguarded row hm).same hs⟩
  obtain ⟨session, hold, _⟩ := hs session' hlive
  obtain ⟨row, hr, hholds⟩ := hrow session hold
  refine ⟨row, (congrArg StoredRows.task hstored).trans hr, ?_⟩
  have hfits : Fits codec d.swarm row := by
    intro other hother
    cases hold.symm.trans hother
    exact hholds
  exact hfits.same hs session' hlive

theorem Settled.ofPending (hm : Mirrored d.swarm) (hp : 0 < d.pending) : Settled codec d :=
  ⟨hm, fun h0 => absurd h0 (Nat.ne_of_gt hp), fun h0 => absurd h0 (Nat.ne_of_gt hp)⟩

theorem recordEvent_stored (s : SwarmTask) (event : TorrentEngineEvent) :
    (s.recordEvent event).stored = s.stored := by
  cases event with
  | diagnostic d =>
    simp only [recordEvent]
    split <;> rfl
  | _ => rfl

theorem Settled.setRow (h : Settled codec d) (hrow : d.pending = 0 → d'.gated = none →
    Fits codec d.swarm row) (hs : d'.swarm = (d.setRow row).swarm) (hp : d'.pending = d.pending)
    (hg : ∀ row, d'.gated = some row → d.gated = some row)
    (hu : d'.gated = none → d'.unguarded = []) : Settled codec d' := by
  have hsession : d'.swarm.session = d.swarm.session := by
    rw [hs]
    rfl
  have hfits : ∀ other, Fits codec d.swarm other → Fits codec d'.swarm other := by
    intro other hother session hlive
    exact hother session (hsession.symm.trans hlive)
  refine ⟨?_, fun h0 r hr => hfits r (h.gated (hp.symm.trans h0) r (hg r hr)), fun h0 hn => ?_⟩
  · intro session hlive
    rw [hs]
    exact h.mirrored session (hsession.symm.trans hlive)
  · refine ⟨fun session hlive => ⟨row, by rw [hs]; rfl, ?_⟩, fun r hr => ?_⟩
    · exact hrow (hp.symm.trans h0) hn session (hsession.symm.trans hlive)
    · rw [hu hn] at hr
      cases hr

theorem Settled.step (h : Settled codec d) (hc : d.Orderly a) (hz : d.step codec a = some d') :
    Settled codec d' := by
  cases a with
  | event event =>
    cases hz
    have hm := h.mirrored.recordEvent event
    cases hq : savesNext d.swarm event with
    | true => exact .ofPending hm (Nat.succ_pos d.pending)
    | false => exact h.same (sameHandle_of_quiet hq hc) hm (recordEvent_stored d.swarm event)
  | prepared session =>
    cases hz
    refine .ofPending ?_ (Nat.succ_pos d.pending)
    intro other hlive
    cases hlive
    rfl
  | saving =>
    cases hz
    exact .ofPending h.mirrored (Nat.succ_pos d.pending)
  | ended =>
    cases hz
    exact h.same (fun session hlive => nomatch hlive) (fun session hlive => nomatch hlive) rfl
  | read =>
    simp only [SessionSaves.step] at hz
    split at hz
    · cases hz
      refine ⟨h.mirrored, fun _ row hrow => ?_, fun _ hn => nomatch hn⟩
      cases hrow
      exact fun session hlive => h.mirrored.holds hlive codec
    · cases hz
  | write =>
    obtain ⟨row, hg, rfl⟩ := Option.map_eq_some_iff.1 hz
    refine h.setRow (fun h0 _ => h.gated h0 row hg) rfl rfl (fun _ hr => nomatch hr) fun _ => ?_
    exact hc
  | managerRead =>
    cases hz
    refine ⟨h.mirrored, h.gated, fun h0 hn => ?_⟩
    obtain ⟨hrow, hunguarded⟩ := h.stored h0 hn
    refine ⟨hrow, fun row hm => ?_⟩
    rcases List.mem_append.1 hm with hm | hm
    · exact hunguarded row hm
    · obtain rfl := List.mem_singleton.1 hm
      exact fun session hlive => h.mirrored.holds hlive codec
  | managerWrite i =>
    obtain ⟨row, hi, rfl⟩ := Option.map_eq_some_iff.1 hz
    have hmem := List.mem_of_getElem? hi
    have hlt := (List.getElem?_eq_some_iff.1 hi).1
    refine h.setRow (fun h0 hn => (h.stored h0 hn).unguarded row hmem) rfl rfl (fun _ hr => hr)
      fun _ => ?_
    have hone : d.unguarded.length = 1 := hc
    apply List.length_eq_zero_iff.1
    simp only [List.length_eraseIdx_of_lt hlt]
    omega

end SessionSaves

/-- As long as the repository takes what it is given and no other save of the row writes while one
of the manager is in progress, a crash at a moment when no call on the task is about to save it
loses nothing of a live session that the engine needs: what is stored reads back as its handle, its
metadata and its resume data. -/
theorem torrent_session_survives_crash (codec : Codec) (d d' : SessionSaves) (acts : List SaveAct)
    (hsession : d.swarm.session = none) (hidle : d.gated = none ∧ d.unguarded = [])
    (horderly : Transition.Meets (SessionSaves.step codec) SessionSaves.Orderly d acts)
    (hrun : Transition.run (SessionSaves.step codec) d acts = some d')
    (hquiet : d'.pending = 0 ∧ d'.gated = none) (session : TorrentEngineSession)
    (hlive : d'.swarm.session = some session)
    (hcodec : ∀ m ∈ session.metadata,
      (codec.metadataToJson m).bind codec.metadataFromJson = some m)
    (hid : trim session.handle.externalId = session.handle.externalId)
    (hne : session.handle.externalId ≠ "") :
    ∃ row state, d'.swarm.stored.task = some row ∧ dbTaskToTorrentResume codec row =
      some ⟨session.handle, state, session.metadata, session.resumeData⟩ := by
  have hinit : SessionSaves.Settled codec d := by
    refine ⟨fun other hother => ?_, fun _ row hrow => ?_, fun _ _ => ⟨fun other hother => ?_, ?_⟩⟩
    · cases hsession.symm.trans hother
    · cases hidle.1.symm.trans hrow
    · cases hsession.symm.trans hother
    · intro row hrow
      rw [hidle.2] at hrow
      cases hrow
  have h : SessionSaves.Settled codec d' :=
    horderly.invariant (fun _ _ _ hs hc hstep => hs.step hc hstep) hinit hrun
  obtain ⟨row, hrow, hholds⟩ := (h.stored hquiet.1 hquiet.2).row session hlive
  obtain ⟨state, hread⟩ := hholds.read hcodec hid hne
  exact ⟨row, state, hrow, hread⟩

instance (d : SessionSaves) : (a : SaveAct) → Decidable (d.Orderly a)
  | .event (.metadataDiscovered metadata) =>
    decidable_of_iff metadata.Installable (by simp [SessionSaves.Orderly])
  | .event (.stateChanged _) | .event (.progress _) | .event (.pieceFinished _)
  | .event (.resumeData _) | .event (.diagnostic _) | .event .finished | .event (.error _) =>
    isTrue (fun _ h => nomatch h)
  | .write => decidable_of_iff (d.unguarded.isEmpty) (by simp [SessionSaves.Orderly])
  | .managerWrite _ => inferInstanceAs (Decidable (_ = _))
  | .prepared _ | .saving | .ended | .read | .managerRead => isTrue trivial

/-- The engine reports metadata and resume data while a pause is going to save the task, and a save
of the manager runs beside the handler. -/
def fiveByteSaves : List SaveAct :=
  [.prepared fiveByteSession, .read, .write, .event (.metadataDiscovered fiveByteMetadata),
    .saving, .read, .event (.resumeData [1, 2]), .write, .read, .managerRead, .managerWrite 0,
    .write, .read, .write]

theorem five_byte_session_survives : ∃ d' row state,
    Transition.run (SessionSaves.step fiveByteCodec) ⟨idleTorrent, 0, none, []⟩ fiveByteSaves =
      some d' ∧ d'.swarm.stored.task = some row ∧ dbTaskToTorrentResume fiveByteCodec row =
        some ⟨⟨.libtorrent, "c0ffee"⟩, state, some fiveByteMetadata, some [1, 2]⟩ := by
  obtain ⟨d', hrun, hquiet, hlive⟩ : ∃ d',
      Transition.run (SessionSaves.step fiveByteCodec) ⟨idleTorrent, 0, none, []⟩ fiveByteSaves =
        some d' ∧ (d'.pending = 0 ∧ d'.gated.isNone) ∧
        d'.swarm.session.any (fun session => decide (session.handle = ⟨.libtorrent, "c0ffee"⟩ ∧
          session.metadata = some fiveByteMetadata ∧ session.resumeData = some [1, 2])) = true :=
    Transition.run_any (by decide)
  obtain ⟨session, hsome, hsession⟩ := (Option.any_eq_true _ _).1 hlive
  obtain ⟨hid, hmetadata, hresume⟩ := of_decide_eq_true hsession
  obtain ⟨row, state, hrow, hread⟩ := torrent_session_survives_crash fiveByteCodec
    ⟨idleTorrent, 0, none, []⟩ d' fiveByteSaves rfl ⟨rfl, rfl⟩ (by decide) hrun
    ⟨hquiet.1, Option.isNone_iff_eq_none.1 hquiet.2⟩ session hsome (by rw [hmetadata]; decide)
    (by rw [hid]; decide) (by rw [hid]; decide)
  rw [hid, hmetadata, hresume] at hread
  exact ⟨d', row, state, hrun, hrow, hread⟩

end Paradown
