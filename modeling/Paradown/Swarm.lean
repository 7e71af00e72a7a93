import Mathlib.Data.List.Infix
import Paradown.Transfer

namespace Paradown
set_option autoImplicit true

def TORRENT_BLOCK_SIZE : Nat := 16 * 1024

def MAX_TORRENT_DIAGNOSTICS : Nat := 32

structure TorrentTransferStats where
  downloaded : Nat
  total : Nat
  downloadRateBps : Nat
  uploadRateBps : Nat
  connectedPeers : Nat
  seeds : Nat
  deriving DecidableEq, Repr

inductive TorrentDiagnosticScope where
  | tracker
  | dht
  | peer
  | listen
  | portMapping
  | session
  deriving DecidableEq, Repr

inductive TorrentDiagnosticSeverity where
  | info
  | warning
  | error
  deriving DecidableEq, Repr

structure TorrentDiagnosticEvent where
  scope : TorrentDiagnosticScope
  severity : TorrentDiagnosticSeverity
  message : String
  url : Option String
  endpoint : Option String
  peers : Option Nat
  deriving DecidableEq, Repr

inductive TorrentEngineEvent where
  | metadataDiscovered (metadata : TorrentMetadata)
  | stateChanged (state : TorrentEngineState)
  | progress (stats : TorrentTransferStats)
  | pieceFinished (pieceIndex : Nat)
  | resumeData (bytes : List UInt8)
  | diagnostic (diagnostic : TorrentDiagnosticEvent)
  | finished
  | error (message : String)
  deriving DecidableEq, Repr

structure TorrentEngineSession where
  handle : TorrentEngineHandle
  state : TorrentEngineState
  metadata : Option TorrentMetadata
  manifest : Option SessionManifest
  resumeData : Option (List UInt8)

def TorrentResumeSnapshot.fromSession (session : TorrentEngineSession) : TorrentResumeSnapshot :=
  ⟨session.handle, session.state, session.metadata, session.resumeData⟩

def TorrentFileEntry.fileName (file : TorrentFileEntry) : String :=
  file.pathComponents.getLast?.getD "payload.bin"

def TorrentMetadata.stableId (m : TorrentMetadata) : String :=
  (m.infoHashV2 <|> m.infoHashV1).getD m.name

def TorrentMetadata.isMultiFile (m : TorrentMetadata) : Bool := decide (1 < m.files.length)

/-- A component that `sanitized_relative_path` lets through. -/
def isSafeComponent (component : String) : Bool :=
  component != "" && component != "." && component != ".." &&
    !component.toList.contains '/' && !component.toList.contains '\\'

def sanitizedRelativePath (components : List String) : Except Error String :=
  if components = [] then .error (.other "torrent file path is empty")
  else
    match components.find? fun component => !isSafeComponent component with
    | some component => .error (.other ("unsafe torrent path component: " ++ component))
    | none => .ok (String.intercalate "/" components)

def buildFileManifest (m : TorrentMetadata) (downloadDir : String) (requestedFilePath : Option String)
    (file : TorrentFileEntry) : Except Error FileManifest :=
  match sanitizedRelativePath file.pathComponents with
  | .error err => .error err
  | .ok relativePath =>
    let path :=
      if m.isMultiFile then pathJoin (pathJoin downloadDir m.name) relativePath
      else requestedFilePath.getD (pathJoin downloadDir relativePath)
    .ok ⟨path, file.fileName, file.length, file.offset⟩

def buildFileManifests (m : TorrentMetadata) (downloadDir : String)
    (requestedFilePath : Option String) : Except Error (List FileManifest) :=
  if m.files = [] then .error (.other "torrent metadata does not contain files")
  else m.files.mapM (buildFileManifest m downloadDir requestedFilePath)

def manifestFromTorrentMetadata (spec : DownloadSpec) (sources : SourceSet) (m : TorrentMetadata)
    (downloadDir : String) (requestedFilePath : Option String) : Except Error SessionManifest :=
  match buildFileManifests m downloadDir requestedFilePath with
  | .error err => .error err
  | .ok files =>
    .ok (.forFilesWithPieceSize spec sources m.stableId m.totalSize m.pieceSize
      (min (max m.pieceSize 1) TORRENT_BLOCK_SIZE) files [])

def installTorrentMetadata (t : Task) (m : TorrentMetadata) (requestedFilePath : Option String) :
    Except Error Task :=
  match manifestFromTorrentMetadata t.spec t.sources m t.config.downloadDir requestedFilePath with
  | .error err => .error err
  | .ok manifest =>
    let t := { t with filePath := t.filePath <|> (manifest.files.head?.map FileManifest.path) }
    .ok ((t.updateProtocolProbe (some manifest.totalSize) true).installManifest manifest)

/-- `str::contains` of a fixed text. -/
def mentions (message text : String) : Bool := decide (text.toList <:+: message.toList)

def isNoisyPeerMessage (d : TorrentDiagnosticEvent) : Bool :=
  let message := d.message.toLower
  mentions message "disconnecting" || mentions message "end of file" ||
    mentions message "connection reset" || mentions message "redirecting" ||
    mentions message "404 not found"

def isNoisyTorrentDiagnostic (d : TorrentDiagnosticEvent) : Bool :=
  if d.scope = .portMapping ∧ d.severity ≠ .error then true
  else if d.scope ≠ .tracker then decide (d.scope = .peer) && isNoisyPeerMessage d
  else
    let message := d.message.toLower
    let endpoint := d.endpoint.getD ""
    endpoint.startsWith "127." || endpoint.startsWith "[::1]" || endpoint.startsWith "::1" ||
      mentions message "sending announce" || mentions message "skipping tracker announce" ||
      mentions message "timed out" || mentions message "end of file"

def shouldRetainTorrentDiagnostic (d : TorrentDiagnosticEvent) : Bool :=
  if d.peers.any (0 < ·) then true
  else if isNoisyTorrentDiagnostic d then false
  else decide (d.severity ≠ .info)

def shouldEmitTorrentDiagnostic (d : TorrentDiagnosticEvent) : Bool :=
  shouldRetainTorrentDiagnostic d &&
    (decide (d.severity = .warning ∨ d.severity = .error) ||
      decide (d.scope = .tracker) && d.peers.any (0 < ·))

def shouldReplaceTorrentDiagnostic (d : TorrentDiagnosticEvent) : Bool :=
  decide (d.severity = .info) && d.peers.isSome && decide (d.scope = .dht ∨ d.scope = .tracker)

def sameTorrentDiagnosticBucket (existing d : TorrentDiagnosticEvent) : Bool :=
  decide (existing.scope = d.scope) && decide (existing.severity = d.severity) &&
    match d.scope with
    | .tracker => decide (existing.url = d.url)
    | .dht => true
    | _ => false

/-- What a task sends to its manager. -/
inductive TaskMessage where
  | start
  | pause
  | progress (downloaded total : Nat)
  | complete
  | error (err : Error)
  | torrentDiagnostic (diagnostic : TorrentDiagnosticEvent)
  | cancel
  | delete
  deriving DecidableEq

/-- The rows of a task. -/
structure StoredRows where
  task : Option DBDownloadTask := none
  workers : List DBDownloadWorker := []
  pieces : List DBDownloadPiece := []
  blocks : List DBDownloadBlock := []
  checksums : List DBDownloadChecksum := []
  deriving DecidableEq

def StoredRows.ofBundle (b : StoredBundle) : StoredRows :=
  ⟨some b.task, b.workers, b.pieces, b.blocks, b.checksums⟩

/-- `save_checksum`: the row of the algorithm is replaced. -/
def saveChecksum (rows : List DBDownloadChecksum) (row : DBDownloadChecksum) :
    List DBDownloadChecksum :=
  rows.filter (fun other => !(other.algorithm == row.algorithm)) ++ [row]

/-- How a call of the repository ends; an error may come after the rows have been written. -/
inductive SaveOutcome where
  | saved
  | failed (err : Error) (written : Bool)
  deriving DecidableEq

def SaveOutcome.result : SaveOutcome → Except Error Unit
  | .saved => .ok ()
  | .failed err _ => .error err

def SaveOutcome.writes : SaveOutcome → Bool
  | .saved => true
  | .failed _ written => written

/-- A task with its engine session, its permit, what it has sent and what is stored of it, when it
has a repository. -/
structure SwarmTask where
  task : Task
  persistence : Bool
  session : Option TorrentEngineSession
  transfer : Option TorrentTransferStats
  diagnostics : List TorrentDiagnosticEvent
  permit : Bool
  sent : List TaskMessage
  stored : StoredRows

/-- What a call takes from outside, the `Debug` text of a status among it. -/
structure SwarmEnv where
  codec : Codec
  debug : Status → String
  now : Nat
  checksumsSaved : SaveOutcome
  taskSaved : SaveOutcome

/-- What the steps of `Task::delete` meet. -/
structure DeleteOutcome where
  engine : Except Error Unit
  file : Except Error Unit
  workers : SaveOutcome
  checksums : SaveOutcome
  task : SaveOutcome

/-- What `prepare_swarm_download` gets from the swarm providers and from the engine. -/
structure SwarmPreparation where
  candidates : List SourceDescriptor
  reports : List TorrentDiagnosticEvent
  session : Except Error TorrentEngineSession

namespace SwarmTask

def setTask (s : SwarmTask) (t : Task) : SwarmTask := { s with task := t }

def setStatus (s : SwarmTask) (status : Status) : SwarmTask := s.setTask { s.task with status }

def emitManagerEvent (s : SwarmTask) (message : TaskMessage) : SwarmTask :=
  { s with sent := s.sent ++ [message] }

def recordTorrentMetadata (s : SwarmTask) (metadata : TorrentMetadata) : SwarmTask :=
  { s with
    session := s.session.map fun session => { session with metadata := some metadata }
    task := { s.task with
      torrentResume := s.task.torrentResume.map fun snapshot =>
        { snapshot with metadata := some metadata } } }

def recordTorrentState (s : SwarmTask) (state : TorrentEngineState) : SwarmTask :=
  { s with
    session := s.session.map fun session => { session with state }
    task := { s.task with
      torrentResume := s.task.torrentResume.map fun snapshot => { snapshot with state } } }

def recordTorrentResumeData (s : SwarmTask) (bytes : List UInt8) : SwarmTask :=
  { s with
    session := s.session.map fun session => { session with resumeData := some bytes }
    task := { s.task with
      torrentResume := s.task.torrentResume.map fun snapshot =>
        { snapshot with resumeData := some bytes } } }

def recordTorrentDiagnostic (s : SwarmTask) (d : TorrentDiagnosticEvent) : SwarmTask :=
  let kept :=
    if shouldReplaceTorrentDiagnostic d then
      s.diagnostics.filter fun existing => !sameTorrentDiagnosticBucket existing d
    else s.diagnostics
  let kept := if kept.length = MAX_TORRENT_DIAGNOSTICS then kept.tail else kept
  { s with diagnostics := kept ++ [d] }

/-- A call of the repository, when there is one. -/
def save (outcome : SaveOutcome) (rows : StoredRows → StoredRows) (s : SwarmTask) :
    Except Error Unit × SwarmTask :=
  if s.persistence then
    (outcome.result, if outcome.writes then { s with stored := rows s.stored } else s)
  else (.ok (), s)

def persistTask (env : SwarmEnv) (s : SwarmTask) : Except Error Unit × SwarmTask :=
  let s := s.setTask { s.task with updatedAt := some env.now }
  s.save env.taskSaved fun _ => .ofBundle (saveTask env.codec s.task)

def persistTaskChecksums (env : SwarmEnv) (s : SwarmTask) : Except Error Unit × SwarmTask :=
  let checksums := s.task.checksums.map fun checksum => checksumToDb checksum s.task.id
  s.save env.checksumsSaved fun rows =>
    { rows with checksums := checksums.foldl saveChecksum rows.checksums }

/-- `Manager::persist_task` of a task that it has found in its map. -/
def persistByManager (env : SwarmEnv) (s : SwarmTask) : Except Error Unit × SwarmTask :=
  s.save env.taskSaved fun _ => .ofBundle (saveTask env.codec s.task)

/-- Two calls, the second only after the first has returned `Ok`. -/
def andThen (r : Except Error Unit × SwarmTask) (f : SwarmTask → Except Error Unit × SwarmTask) :
    Except Error Unit × SwarmTask :=
  match r with
  | (.ok (), s) => f s
  | (.error err, s) => (.error err, s)

/-- `finish_job`. No file handle of the payload store is open here, as the engine writes the
payload itself, so that there is nothing to sync. -/
def finishJob (env : SwarmEnv) (s : SwarmTask) (outcome : Except Error Unit) :
    Except Error Unit × SwarmTask :=
  let (s, message) := match outcome with
    | .ok () =>
      (s.setTask { s.task.markAllPiecesCompleted with status := .completed }, TaskMessage.complete)
    | .error err => (s.setStatus (.failed err), TaskMessage.error err)
  andThen (s.persistTaskChecksums env) fun s =>
    andThen (s.persistTask env) fun s => (.ok (), s.emitManagerEvent message)

def releasePermit (s : SwarmTask) : SwarmTask := { s with permit := false }

/-- `finish_job`, and then `release_permit` when it has returned `Ok`. -/
def finishAndRelease (env : SwarmEnv) (s : SwarmTask) (outcome : Except Error Unit) :
    Except Error Unit × SwarmTask :=
  andThen (s.finishJob env outcome) fun s => (.ok (), s.releasePermit)

/-- The piece states after `PieceFinished`: the first state of the piece is marked. -/
def markPiece (pieceIndex : Nat) : List PieceState → List PieceState
  | [] => []
  | piece :: rest =>
    if piece.pieceIndex = pieceIndex then { piece with completed := true } :: rest
    else piece :: markPiece pieceIndex rest

def handleTorrentEngineEvent (env : SwarmEnv) (s : SwarmTask) :
    TorrentEngineEvent → Except Error Unit × SwarmTask
  | .metadataDiscovered metadata =>
    let s := s.recordTorrentMetadata metadata
    match installTorrentMetadata s.task metadata s.task.filePath with
    | .error err => (.error err, s)
    | .ok t => (s.setTask t).persistTask env
  | .stateChanged state =>
    let s := s.recordTorrentState state
    match state with
    | .completed | .seeding => s.finishAndRelease env (.ok ())
    | .paused => (.ok (), (s.setStatus .paused).emitManagerEvent .pause)
    | _ => (.ok (), s)
  | .progress stats =>
    let s := { s with transfer := some stats }
    let s := s.setTask { s.task with
      downloadedSize := stats.downloaded, totalSize := stats.total, totalSizeKnown := true }
    (.ok (), s.emitManagerEvent (.progress stats.downloaded stats.total))
  | .pieceFinished pieceIndex =>
    (s.setTask { s.task with
      pieceStates := markPiece pieceIndex s.task.pieceStates }).persistTask env
  | .resumeData bytes => (s.recordTorrentResumeData bytes).persistTask env
  | .diagnostic d =>
    let s := if shouldRetainTorrentDiagnostic d then s.recordTorrentDiagnostic d else s
    (.ok (), if shouldEmitTorrentDiagnostic d then s.emitManagerEvent (.torrentDiagnostic d) else s)
  | .finished => (s.recordTorrentState .completed).finishAndRelease env (.ok ())
  | .error message =>
    (s.recordTorrentDiagnostic ⟨.session, .error, message, none, none, none⟩).finishAndRelease env
      (.error (.other message))

/-- What the engine answers, which is asked only about a live session. -/
def askEngine (s : SwarmTask) (engine : Except Error Unit) : Except Error Unit :=
  if s.session.isSome then engine else .ok ()

/-- `Task::pause`. -/
def pause (env : SwarmEnv) (engine : Except Error Unit) (s : SwarmTask) :
    Except Error Unit × SwarmTask :=
  match s.task.status with
  | .running | .preparing =>
    let s := s.setStatus .paused
    match s.askEngine engine with
    | .error err => (.error err, s)
    | .ok () =>
      andThen ((s.setTask { s.task with workers := s.task.workers.map Worker.pause }).persistTask env)
        fun s => (.ok (), s.emitManagerEvent .pause)
  | .paused => (.ok (), s)
  | status => (.error (.other s!"Cannot pause task in state: {env.debug status}"), s)

/-- `Task::cancel`. -/
def cancel (env : SwarmEnv) (engine : Except Error Unit) (s : SwarmTask) :
    Except Error Unit × SwarmTask :=
  match s.task.status with
  | .pending | .preparing | .running | .paused =>
    let s := s.setStatus .canceled
    match s.askEngine engine with
    | .error err => (.error err, s)
    | .ok () =>
      andThen ((s.setTask { s.task with workers := s.task.workers.map Worker.cancel }).persistTask env)
        fun s => (.ok (), s.emitManagerEvent .cancel)
  | status => (.error (.other s!"Cannot cancel task in state: {env.debug status}"), s)

/-- `fail_with_error` on the way out of `Task::delete`. -/
def failDelete (s : SwarmTask) (err : Error) : Except Error Unit × SwarmTask :=
  (.error err, (s.releasePermit.setStatus (.failed err)).emitManagerEvent (.error err))

/-- One of the purges of `Task::delete`. -/
def purge (s : SwarmTask) (outcome : SaveOutcome) (rows : StoredRows → StoredRows) :
    Except Error Unit × SwarmTask :=
  match s.save outcome rows with
  | (.error err, s) => s.failDelete err
  | (.ok (), s) => (.ok (), s)

/-- `Task::delete`. -/
def delete (outcome : DeleteOutcome) (s : SwarmTask) : Except Error Unit × SwarmTask :=
  match s.askEngine outcome.engine with
  | .error err => (.error err, s)
  | .ok () =>
    let s := s.setTask { s.task with workers := s.task.workers.map Worker.delete }
    match outcome.file with
    | .error err => s.failDelete err
    | .ok () =>
      andThen (s.purge outcome.workers fun rows => { rows with workers := [] }) fun s =>
        andThen (s.purge outcome.checksums fun rows => { rows with checksums := [] }) fun s =>
          andThen (s.purge outcome.task fun rows =>
            { rows with task := none, workers := [], pieces := [], blocks := [] }) fun s =>
            let s := s.releasePermit
            let s := s.setTask ({ s.task with workers := [] } : Task).clearManifestState
            let s := { s with session := none, transfer := none, diagnostics := [] }
            (.ok (), (s.setStatus .deleted).emitManagerEvent .delete)

/-- The metadata that `prepare_swarm_download` installs: that of the session, or what was known. -/
def preparedMetadata (s : SwarmTask) (session : TorrentEngineSession) : Option TorrentMetadata :=
  session.metadata <|> s.task.torrentResume.bind (·.metadata)

/-- `prepare_swarm_download`, once the download directory is there. -/
def prepareSwarmDownload (env : SwarmEnv) (preparation : SwarmPreparation) (s : SwarmTask) :
    Except Error Unit × SwarmTask :=
  let s := preparation.reports.foldl recordTorrentDiagnostic s
  let s := s.setTask { s.task with
    sources := preparation.candidates.foldl SourceSet.pushUnique s.task.sources }
  match preparation.session with
  | .error err => (.error err, s)
  | .ok session =>
    let installed := match s.preparedMetadata session, session.manifest with
      | some metadata, _ => installTorrentMetadata s.task metadata s.task.filePath
      | none, some manifest =>
        .ok ((s.task.updateProtocolProbe (some manifest.totalSize) true).installManifest manifest)
      | none, none => .ok s.task
    match installed with
    | .error err => (.error err, s)
    | .ok t =>
      ({ s with
        session := some session
        task := { t with torrentResume := some (.fromSession session) } } : SwarmTask).persistTask env

end SwarmTask

/-- Metadata that `manifest_from_torrent_metadata` accepts. -/
def TorrentMetadata.Installable (m : TorrentMetadata) : Prop :=
  m.files ≠ [] ∧ ∀ file ∈ m.files, file.pathComponents ≠ [] ∧
    ∀ component ∈ file.pathComponents, isSafeComponent component = true

instance (m : TorrentMetadata) : Decidable m.Installable :=
  inferInstanceAs (Decidable (_ ∧ _))

theorem sanitizedRelativePath_isOk (components : List String) :
    (∃ path, sanitizedRelativePath components = .ok path) ↔
      components ≠ [] ∧ ∀ component ∈ components, isSafeComponent component = true := by
  unfold sanitizedRelativePath
  split
  · rename_i h
    constructor
    · rintro ⟨path, hpath⟩
      cases hpath
    · intro hsafe
      exact absurd h hsafe.1
  · rename_i h
    split
    · rename_i component hfind
      constructor
      · rintro ⟨path, hpath⟩
        cases hpath
      · intro hsafe
        have hbad := List.find?_some hfind
        rw [hsafe.2 component (List.mem_of_find?_eq_some hfind)] at hbad
        cases hbad
    · rename_i hnone
      constructor
      · intro _
        refine ⟨h, ?_⟩
        intro component hmem
        have hgood := List.find?_eq_none.1 hnone component hmem
        rw [Bool.not_eq_true, Bool.not_eq_false'] at hgood
        exact hgood
      · intro _
        exact ⟨_, rfl⟩

theorem buildFileManifest_isOk (m : TorrentMetadata) (downloadDir : String)
    (requested : Option String) (file : TorrentFileEntry) :
    (∃ built, buildFileManifest m downloadDir requested file = .ok built) ↔
      file.pathComponents ≠ [] ∧
        ∀ component ∈ file.pathComponents, isSafeComponent component = true := by
  rw [← sanitizedRelativePath_isOk]
  unfold buildFileManifest
  split
  · rename_i err herr
    constructor
    · rintro ⟨built, hbuilt⟩
      cases hbuilt
    · rintro ⟨path, hpath⟩
      cases herr.symm.trans hpath
  · rename_i path hpath
    constructor
    · intro _
      exact ⟨path, hpath⟩
    · intro _
      exact ⟨_, rfl⟩

theorem mapM_isOk {f : α → Except ε β} (xs : List α) :
    (∃ ys, xs.mapM f = .ok ys) ↔ ∀ x ∈ xs, ∃ y, f x = .ok y := by
  simp only [mapM_eq_ok]
  induction xs with
  | nil => exact ⟨fun _ _ hx => absurd hx List.not_mem_nil, fun _ => ⟨[], .nil⟩⟩
  | cons x xs ih =>
    rw [List.forall_mem_cons, ← ih]
    constructor
    · rintro ⟨_, hs⟩
      obtain ⟨y, ys, hy, hys, rfl⟩ := List.forall₂_cons_left_iff.1 hs
      exact ⟨⟨y, hy⟩, ys, hys⟩
    · rintro ⟨⟨y, hy⟩, ys, hys⟩
      exact ⟨y :: ys, .cons hy hys⟩

theorem buildFileManifests_isOk (m : TorrentMetadata) (downloadDir : String)
    (requested : Option String) :
    (∃ files, buildFileManifests m downloadDir requested = .ok files) ↔ m.Installable := by
  unfold buildFileManifests TorrentMetadata.Installable
  split
  · rename_i h
    constructor
    · rintro ⟨files, hfiles⟩
      cases hfiles
    · intro hm
      exact absurd h hm.1
  · rename_i h
    rw [mapM_isOk]
    simp only [buildFileManifest_isOk]
    constructor
    · intro hall
      exact ⟨h, hall⟩
    · intro hm
      exact hm.2

/-- The metadata is installed, with the layout its sizes give, or it is refused as a whole. -/
theorem installTorrentMetadata_cases (t : Task) (m : TorrentMetadata) (requested : Option String) :
    (m.Installable ∧ ∃ files path, installTorrentMetadata t m requested =
      .ok ((({ t with filePath := path } : Task).updateProtocolProbe (some m.totalSize) true).installManifest
        (.forFilesWithPieceSize t.spec t.sources m.stableId m.totalSize m.pieceSize
          (min (max m.pieceSize 1) TORRENT_BLOCK_SIZE) files []))) ∨
    ¬ m.Installable ∧ ∃ err, installTorrentMetadata t m requested = .error err := by
  have hbuild := buildFileManifests_isOk m t.config.downloadDir requested
  cases hfiles : buildFileManifests m t.config.downloadDir requested with
  | error err =>
    refine .inr ⟨?_, err, ?_⟩
    · intro hm
      obtain ⟨files, hok⟩ := hbuild.2 hm
      cases hfiles.symm.trans hok
    · simp only [installTorrentMetadata, manifestFromTorrentMetadata, hfiles]
  | ok files =>
    refine .inl ⟨hbuild.1 ⟨files, hfiles⟩, files, t.filePath <|> files.head?.map FileManifest.path, ?_⟩
    simp only [installTorrentMetadata, manifestFromTorrentMetadata, hfiles]
    rfl

theorem installTorrentMetadata_isOk (t : Task) (m : TorrentMetadata) (requested : Option String) :
    (∃ t', installTorrentMetadata t m requested = .ok t') ↔ m.Installable := by
  rcases installTorrentMetadata_cases t m requested with ⟨hm, files, path, hok⟩ | ⟨hm, err, herr⟩
  · exact iff_of_true ⟨_, hok⟩ hm
  · apply iff_of_false _ hm
    rintro ⟨t', hok⟩
    cases herr.symm.trans hok

theorem installTorrentMetadata_status (h : installTorrentMetadata t m requested = .ok t') :
    t'.status = t.status := by
  rcases installTorrentMetadata_cases t m requested with ⟨_, files, path, hok⟩ | ⟨_, err, herr⟩
  · cases h.symm.trans hok
    rfl
  · cases herr.symm.trans h

end Paradown
