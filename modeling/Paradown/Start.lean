import Paradown.Assignment
import Paradown.MissingFile
import Paradown.Swarm

namespace Paradown
set_option autoImplicit true

/-- What `prepare_download` has learnt from the origin, and where the payload goes. -/
structure PreparedJob where
  probe : OriginMetadata
  previous : HttpResourceIdentity
  path : String
  manifest : SessionManifest

/-- The calls of `Task::start` that may fail, and its return. -/
inductive StartPoint where
  | called
  | purgingOldWorkers
  | deletingOldFile
  | persistingPreparing
  | creatingDownloadDir
  | discovering
  | readingMetadata (job : PreparedJob)
  | verifyingExisting (job : PreparedJob)
  | removingFile (job : PreparedJob)
  | purgingWorkers (job : PreparedJob)
  | preparingStore (job : PreparedJob)
  | verifyingEmpty (job : PreparedJob)
  | syncingData
  | persistingChecksums
  | persistingFinished
  | persistingRunning
  | purgingLanes
  | creatingWorkers
  | upgradingManager
  | creatingSwarmDir
  | resolvingSwarm
  | startingSession (engineSpec : DownloadSpec)
  | persistingSession
  | persistingStarted
  | returned (result : Except Error Unit)

/-- How a call ends. One that works through several items may break off at one of them; the probe,
the swarm providers and the engine answer with data. -/
inductive StartAct where
  | succeeds
  | fails (err : Error)
  | breaksOff (count : Nat) (err : Error)
  | discovers (probe : OriginMetadata)
  | resolves (candidates : List SourceDescriptor) (engineSpec : DownloadSpec)
  | starts (session : TorrentEngineSession)

/-- Calls that do nothing without a repository. -/
def StartPoint.usesRepository : StartPoint → Bool
  | .purgingOldWorkers | .persistingPreparing | .purgingWorkers _ | .persistingChecksums
  | .persistingFinished | .persistingRunning | .purgingLanes | .creatingWorkers
  | .persistingSession | .persistingStarted => true
  | _ => false

/-- A `start` of a task, between two of its calls. -/
structure StartRun where
  point : StartPoint
  machine : Machine

/-- What `handle_existing_file` does with the file that it finds. -/
inductive ExistingFile where
  | keep
  | verify
  | discard
  deriving DecidableEq

def PreparedJob.existingFile (job : PreparedJob) (t : Task) (file : File) : ExistingFile :=
  if job.previous.validatorChanged job.probe.resourceIdentity then .discard
  else
    match job.probe.totalSize with
    | none => .discard
    | some totalSize =>
      if totalSize < file.len then .discard
      else
        match t.config.fileConflictStrategy with
        | .overwrite => .discard
        | .skipIfValid => .verify
        | .resume =>
          if file.len < totalSize then
            if canResumePartialDownload t job.probe job.previous then .keep else .discard
          else .verify

/-- `verify_file_checksums` when the file cannot be read for the checksum after the first ones; one
that carries no digest does not read it. -/
def breakOffVerification (env : Env) (content : List UInt8) (checksums : List Checksum)
    (count : Nat) : Option (List Checksum) :=
  match verifyFileChecksums env.digests env.now content (checksums.take count),
      checksums.drop count with
  | (true, passed), c :: rest =>
    if c.CarriesDigest then
      some (passed ++ { c with verified := some false, verifiedAt := some env.now } :: rest)
    else none
  | _, _ => none

/-- The swarm providers may have found a torrent file for a spec that has none. -/
def DownloadSpec.mayBecome (spec engineSpec : DownloadSpec) : Bool :=
  engineSpec == spec ||
    match spec, engineSpec with
    | .magnet _, .torrentFile _ | .metadata _ _, .torrentFile _ => true
    | _, _ => false

/-- `from_spec_and_sources` has something to parse. -/
def Task.hasSwarmLinks (t : Task) : Bool :=
  (match t.spec with
    | .magnet _ => true
    | _ => false) || t.sources.sources.any fun source => source.kind == .peer

namespace StartRun

def returnErr (m : Machine) (err : Error) : StartRun := ⟨.returned (.error err), m⟩

/-- `prepare_for_start`. -/
def enter (m : Machine) : StartRun :=
  match m.task.status with
  | .pending | .paused => ⟨.persistingPreparing, m.setStatus .preparing⟩
  | .canceled | .failed _ => ⟨.purgingOldWorkers, { m with task := { m.task with workers := [] } }⟩
  | _ => ⟨.returned (prepareForStart m).1, m⟩

/-- `sync_piece_progress_from_workers`, once the local file has been dealt with. -/
def syncProgress (m : Machine) (job : PreparedJob) : StartRun :=
  match m.task.syncPieceProgressFromWorkers with
  | (.error err, task) => returnErr { m with task } err
  | (.ok _, task) => ⟨.preparingStore job, { m with task }⟩

/-- The probe is installed, and `handle_existing_file` looks for the local file. -/
def install (env : Env) (m : Machine) (probe : OriginMetadata) : StartRun :=
  let (path, manifest, task) := installProbe env probe m.task
  let job : PreparedJob := ⟨probe, m.task.identity, path, manifest⟩
  match m.fs.file path with
  | some _ => ⟨.readingMetadata job, { m with task }⟩
  | none =>
    if task.downloadedSize = 0 ∧ task.workers = [] then syncProgress { m with task } job
    else ⟨.purgingWorkers job, { m with task := resetResumeState task }⟩

def verified (env : Env) (m : Machine) (job : PreparedJob) (file : File) : StartRun :=
  match verifyExistingFile env m.task file job.probe job.previous with
  | (true, task) => ⟨.persistingChecksums, finishJob { m with task } (.ok ())⟩
  | (false, task) => ⟨.removingFile job, { m with task }⟩

/-- `verify_checksums` for a payload of no bytes; only a task that passes syncs its data. -/
def verifiedEmpty (env : Env) (m : Machine) (job : PreparedJob) : StartRun :=
  let content := ((m.fs.file job.path).map (·.content)).getD []
  match verifyFileChecksums env.digests env.now content m.task.checksums with
  | (true, checksums) => ⟨.syncingData, { m with task := { m.task with checksums } }⟩
  | (false, checksums) =>
    ⟨.persistingChecksums, finishJob { m with task := { m.task with checksums } }
      (.error (.other "Checksum failed"))⟩

/-- The metadata of the session, or what was known of it, is installed. -/
def installSession (m : Machine) (session : TorrentEngineSession) : StartRun :=
  let t := m.task
  let known := session.metadata <|> t.torrentResume.bind (·.metadata)
  let installed := match known, session.manifest with
    | some metadata, _ => installTorrentMetadata t metadata t.filePath
    | none, some manifest =>
      .ok ((t.updateProtocolProbe (some manifest.totalSize) true).installManifest manifest)
    | none, none => .ok t
  match installed with
  | .error err => returnErr m err
  | .ok t =>
    ⟨.persistingSession, { m with task := { t with torrentResume := some (.fromSession session) } }⟩

def succeeds (env : Env) (s : StartRun) : Option StartRun :=
  let m := s.machine
  match s.point with
  | .called => some (enter m)
  | .purgingOldWorkers =>
    let task := { m.task with
      downloadedSize := 0, totalSize := 0, totalSizeKnown := false
      rangeRequestsSupported := false, protocolProbeCompleted := false }
    some ⟨.deletingOldFile, { m with task := task.clearManifestState }⟩
  | .deletingOldFile =>
    let fs := match m.task.filePath with
      | some path => m.fs.removeFile path
      | none => m.fs
    some ⟨.persistingPreparing, Machine.setStatus { m with fs } .preparing⟩
  | .persistingPreparing =>
    if m.task.spec.supportsSwarmDiscovery then some ⟨.upgradingManager, m⟩
    else some ⟨.creatingDownloadDir, m⟩
  | .creatingDownloadDir => some ⟨.discovering, m⟩
  | .readingMetadata job =>
    (m.fs.file job.path).map fun file =>
      match job.existingFile m.task file with
      | .keep => syncProgress m job
      | .verify => ⟨.verifyingExisting job, m⟩
      | .discard => ⟨.removingFile job, m⟩
  | .verifyingExisting job => (m.fs.file job.path).map (verified env m job)
  | .removingFile job => some ⟨.purgingWorkers job, discardFile m job.path⟩
  | .purgingWorkers job => some (syncProgress m job)
  | .preparingStore job =>
    let m : Machine := { m with fs := (FileMap.fromManifest job.manifest).prepare m.fs }
    if job.probe.totalSize = some 0 then some ⟨.verifyingEmpty job, m⟩
    else some ⟨.persistingRunning, m.setStatus .running⟩
  | .verifyingEmpty job => some (verifiedEmpty env m job)
  | .syncingData => some ⟨.persistingChecksums, finishJob m (.ok ())⟩
  | .persistingChecksums => some ⟨.persistingFinished, m⟩
  | .persistingFinished => some ⟨.returned (.ok ()), m⟩
  | .persistingRunning =>
    if !m.task.workers.isEmpty && m.task.planPanics then none
    else if !m.task.workers.isEmpty && m.task.canReuseExistingWorkers then some ⟨.returned (.ok ()), m⟩
    else some ⟨.purgingLanes, { m with task := { m.task with workers := [] } }⟩
  | .purgingLanes => some ⟨.creatingWorkers, m⟩
  | .creatingWorkers =>
    if m.task.planPanics then none
    else match m.task.createWorkers env.now with
    | .error err => some (returnErr m err)
    | .ok workers => some ⟨.returned (.ok ()), { m with task := { m.task with workers } }⟩
  | .upgradingManager => some ⟨.creatingSwarmDir, m⟩
  | .creatingSwarmDir => some ⟨.resolvingSwarm, m⟩
  | .persistingSession =>
    if m.task.status.isTerminal then some ⟨.returned (.ok ()), m⟩
    else some ⟨.persistingStarted, m.setStatus .running⟩
  | .persistingStarted => some ⟨.returned (.ok ()), m⟩
  | .discovering | .resolvingSwarm | .startingSession _ | .returned _ => none

/-- The error is returned, unless the engine can still be asked for the spec of the task itself. -/
def fails (persistence : Bool) (s : StartRun) (err : Error) : Option StartRun :=
  let m := s.machine
  if s.point.usesRepository && !persistence then none
  else
    match s.point with
    | .called | .preparingStore _ | .verifyingEmpty _ | .returned _ => none
    | .deletingOldFile => m.task.filePath.map fun _ => returnErr m err
    | .verifyingExisting _ => if m.task.checksums = [] then some (returnErr m err) else none
    | .creatingWorkers =>
      match m.task.planExecutionLanes with
      | .ok (_ :: _) => some (returnErr m err)
      | _ => none
    | .resolvingSwarm => if m.task.hasSwarmLinks then some (returnErr m err) else none
    | .upgradingManager => some (returnErr m (.other "task is not attached to a manager"))
    | .startingSession engineSpec =>
      if engineSpec ≠ m.task.spec then some ⟨.startingSession m.task.spec, m⟩
      else some (returnErr m err)
    | _ => some (returnErr m err)

def breaksOff (env : Env) (s : StartRun) (count : Nat) (err : Error) : Option StartRun :=
  let m := s.machine
  match s.point with
  | .verifyingExisting job =>
    ((m.fs.file job.path).bind fun file =>
      breakOffVerification env file.content m.task.checksums count).map fun checksums =>
        returnErr { m with task := { m.task with checksums } } err
  | .verifyingEmpty job =>
    (breakOffVerification env (((m.fs.file job.path).map (·.content)).getD []) m.task.checksums
      count).map fun checksums =>
        ⟨.persistingChecksums, finishJob { m with task := { m.task with checksums } } (.error err)⟩
  | .preparingStore job =>
    let store := FileMap.fromManifest job.manifest
    if count < store.segments.length then
      some (returnErr { m with fs := (store.segments.take count).foldl (prepareSegment store) m.fs }
        err)
    else none
  | _ => none

def step (env : Env) (persistence : Bool) (s : StartRun) : StartAct → Option StartRun
  | .succeeds => s.succeeds env
  | .fails err => s.fails persistence err
  | .breaksOff count err => s.breaksOff env count err
  | .discovers probe =>
    match s.point with
    | .discovering => some (install env s.machine probe)
    | _ => none
  | .resolves candidates engineSpec =>
    let m := s.machine
    match s.point with
    | .resolvingSwarm =>
      if m.task.spec.mayBecome engineSpec then
        some ⟨.startingSession engineSpec, { m with task := { m.task with
          sources := candidates.foldl SourceSet.pushUnique m.task.sources } }⟩
      else none
    | _ => none
  | .starts session =>
    match s.point with
    | .startingSession _ => some (installSession s.machine session)
    | _ => none

/-- The run has returned an error. -/
def Failed (s : StartRun) : Prop := ∃ err, s.point = .returned (.error err)

end StartRun

/-- The calls of `reset_task`, and the saves of `finish_job` behind the verdict; a second session is
started for the spec of the task when the engine has refused another. -/
def StartPoint.mayFail (spec : DownloadSpec) : StartPoint → Bool
  | .purgingOldWorkers | .deletingOldFile | .persistingChecksums | .persistingFinished => true
  | .startingSession engineSpec => engineSpec != spec
  | _ => false

/-- The failure of the call goes back to the caller. -/
def StartPoint.propagates (spec : DownloadSpec) : StartPoint → Bool
  | .called | .returned _ => false
  | .startingSession engineSpec => engineSpec == spec
  | _ => true

/-- A read that breaks off is a verdict only for a payload of no bytes. -/
def StartPoint.mayBreakOff : StartPoint → Bool
  | .verifyingEmpty _ => true
  | _ => false

namespace StartRun

/-- No call fails but those whose failure finds the task in no active status. -/
def FailsIdle (s : StartRun) : StartAct → Prop
  | .fails _ => s.point.mayFail s.machine.task.spec = true
  | .breaksOff _ _ => s.point.mayBreakOff = true
  | .starts session =>
    ∀ metadata ∈ session.metadata <|> s.machine.task.torrentResume.bind (·.metadata),
      metadata.Installable
  | _ => True

end StartRun

/-- The task works on its manifest, with the sources of that. -/
def Task.Installed (t : Task) : Prop :=
  ∃ manifest, t.manifest = some manifest ∧ t.sources = manifest.sources

/-- What holds of the task at each call. -/
def StartRun.Expected (s : StartRun) : Prop :=
  let t := s.machine.task
  match s.point with
  | .called => (prepareForStart s.machine).1 = .ok ()
  | .purgingOldWorkers | .deletingOldFile | .persistingChecksums | .persistingFinished =>
    t.status.isTerminal = true
  | .persistingPreparing | .creatingDownloadDir | .discovering | .upgradingManager
  | .creatingSwarmDir | .resolvingSwarm | .startingSession _ | .persistingSession =>
    t.status = .preparing
  | .readingMetadata _ | .verifyingExisting _ | .removingFile _ | .purgingWorkers _
  | .preparingStore _ | .verifyingEmpty _ | .syncingData => t.status = .preparing ∧ t.Installed
  | .persistingRunning | .purgingLanes | .creatingWorkers => t.status = .running ∧ t.Installed
  | .persistingStarted => t.status = .running
  | .returned result => result = .ok ()

/-- Where a step leads: on to the next call, or back to the caller with an error, in an active
status exactly when the step breaks the condition. -/
inductive StartRun.Leads (s : StartRun) (a : StartAct) (s' : StartRun) : Prop where
  | onward (h : s'.Expected) (hc : s.FailsIdle a)
  | idle (h : s'.Failed) (hstatus : s'.machine.task.status.isActive = false) (hc : s.FailsIdle a)
  | active (h : s'.Failed) (hstatus : s'.machine.task.status.isActive = true)
      (hc : ¬ s.FailsIdle a)

theorem assignmentFromPieceSlice_source
    (h : assignmentFromPieceSlice laneId sourceId pieces blocks = some lane) :
    lane.sourceId = sourceId := by
  unfold assignmentFromPieceSlice at h
  split at h
  · cases h
    rfl
  · cases h

theorem planned_source {manifest : SessionManifest} {lanes : List ExecutionLaneAssignment}
    (hplan : planExecutionLanesWithSourceOrder manifest requestedWorkers parallel preferred =
      some lanes) {lane : ExecutionLaneAssignment} (hlane : lane ∈ lanes) :
    ∃ source ∈ manifest.sources.sources, lane.sourceId = source.id := by
  have hactive (source : SourceDescriptor) (hs : source ∈ manifest.sources.activeTransferSources) :
      source ∈ manifest.sources.sources := List.mem_of_mem_filter hs
  by_cases hpieces : manifest.pieces = []
  · simp only [planExecutionLanesWithSourceOrder, hpieces, List.isEmpty_nil, if_true] at hplan
    split at hplan
    · obtain rfl := Option.some.inj hplan
      obtain ⟨source, hsource, rfl⟩ := Option.map_eq_some_iff.1 (Option.mem_toList.1 hlane)
      exact ⟨source, hactive source (List.mem_of_mem_head? hsource), rfl⟩
    · cases hplan
      cases hlane
  · cases hr : rankedSources manifest preferred with
    | nil =>
      rw [rankedSources] at hr
      simp only [planExecutionLanesWithSourceOrder, List.isEmpty_eq_false_iff.2 hpieces, hr,
        Bool.false_eq_true, if_false] at hplan
      cases hplan
      cases hlane
    | cons first rest =>
      have hmem (source : SourceDescriptor) (hs : source ∈ first :: rest) :
          source ∈ manifest.sources.sources := by
        rw [← hr] at hs
        exact hactive source ((rankedSources_perm manifest preferred).mem_iff.1 hs)
      cases parallel with
      | false =>
        rw [plan_single hpieces hr] at hplan
        obtain rfl := Option.some.inj hplan
        exact ⟨first, hmem first List.mem_cons_self,
          assignmentFromPieceSlice_source (Option.mem_toList.1 hlane)⟩
      | true =>
        obtain ⟨_, rfl⟩ := (plan_parallel hpieces hr).1 hplan
        obtain ⟨index, _, hlane⟩ := List.mem_filterMap.1 hlane
        refine ⟨(first :: rest).getD (index % (first :: rest).length) first, hmem _ ?_,
          assignmentFromPieceSlice_source hlane⟩
        rw [List.getD_eq_getElem _ _ (Nat.mod_lt _ (by simp))]
        exact List.getElem_mem _

theorem SourceSet.get_of_mem {s : SourceSet} (h : source ∈ s.sources) :
    ∃ found, s.get source.id = some found := by
  cases hget : s.get source.id with
  | some found => exact ⟨found, rfl⟩
  | none => simpa using List.find?_eq_none.1 hget source h

theorem Task.Installed.createWorkers {t : Task} (h : t.Installed) (hplans : t.planPanics = false)
    (now : Nat) : ∃ workers, t.createWorkers now = .ok workers := by
  obtain ⟨manifest, hmanifest, hsources⟩ := h
  obtain ⟨lanes, hplan⟩ : ∃ lanes, t.planLanesOf manifest = some lanes := by
    rw [Task.planPanics, hmanifest, Option.any_some] at hplans
    exact Option.isSome_iff_exists.1 (by simpa using hplans)
  simp only [Task.createWorkers, Task.planExecutionLanes, hmanifest, hplan]
  apply (mapM_isOk _).2
  intro lane hlane
  obtain ⟨source, hsource, hid⟩ := planned_source hplan hlane
  rw [← hsources] at hsource
  obtain ⟨found, hfound⟩ := SourceSet.get_of_mem hsource
  rw [← hid] at hfound
  simp only [Task.createWorker, hfound]
  exact ⟨_, rfl⟩

namespace Task

theorem installManifest_installed (t : Task) (manifest : SessionManifest) :
    (t.installManifest manifest).Installed := ⟨manifest, rfl, rfl⟩

theorem syncPieceProgress_installed {t : Task} (h : t.Installed) :
    ∃ downloaded t', t.syncPieceProgressFromWorkers = (.ok downloaded, t') ∧
      t'.status = t.status ∧ t'.Installed := by
  obtain ⟨manifest, hmanifest, hsources⟩ := h
  simp only [syncPieceProgressFromWorkers, hmanifest]
  split
  · exact ⟨_, _, rfl, rfl, manifest, rfl, hsources⟩
  · exact ⟨_, _, rfl, rfl, manifest, rfl, hsources⟩

end Task

theorem resetResumeState_installed (h : t.Installed) : (resetResumeState t).Installed := h

theorem installProbe_installed (env : Env) (probe : OriginMetadata) (t : Task) :
    (installProbe env probe t).2.2.Installed := Task.installManifest_installed _ _

theorem installProbe_status (env : Env) (probe : OriginMetadata) (t : Task) :
    (installProbe env probe t).2.2.status = t.status := by
  simp only [installProbe, Task.installManifest, Task.getOrInitFilePath, Task.initializeFileName,
    Task.updateProtocolProbe]
  cases t.filePath <;> cases t.fileName <;> rfl

theorem verifyExistingFile_checksums (env : Env) (t : Task) (file : File) (probe : OriginMetadata)
    (previous : HttpResourceIdentity) :
    ∃ checksums, (verifyExistingFile env t file probe previous).2 = { t with checksums } := by
  unfold verifyExistingFile
  split
  · exact ⟨_, rfl⟩
  · split
    · exact ⟨t.checksums, rfl⟩
    · exact ⟨t.checksums, rfl⟩

theorem finishJob_terminal (m : Machine) (outcome : Except Error Unit) :
    (finishJob m outcome).task.status.isTerminal = true := by
  cases outcome with
  | ok _ => rfl
  | error err => rfl

namespace StartRun

theorem Failed.returnErr (m : Machine) (err : Error) : (returnErr m err).Failed := ⟨err, rfl⟩

theorem enter_expected {m : Machine} (h : (prepareForStart m).1 = .ok ()) : (enter m).Expected := by
  cases hstatus : m.task.status with
  | pending | paused =>
    simp only [enter, hstatus]
    rfl
  | canceled | failed =>
    simp only [enter, hstatus]
    rfl
  | preparing | running | completed | deleted =>
    simp only [prepareForStart, hstatus] at h
    cases h

theorem syncProgress_expected {m : Machine} (hstatus : m.task.status = .preparing)
    (h : m.task.Installed) (job : PreparedJob) : (syncProgress m job).Expected := by
  obtain ⟨downloaded, t, hsync, ht, hinstalled⟩ := Task.syncPieceProgress_installed h
  simp only [syncProgress, hsync]
  exact ⟨ht.trans hstatus, hinstalled⟩

theorem install_expected {m : Machine} (hstatus : m.task.status = .preparing) (env : Env)
    (probe : OriginMetadata) : (install env m probe).Expected := by
  have hinstalled := installProbe_installed env probe m.task
  have hpreparing := (installProbe_status env probe m.task).trans hstatus
  unfold install
  dsimp only
  split
  · exact ⟨hpreparing, hinstalled⟩
  · split
    · exact syncProgress_expected hpreparing hinstalled _
    · exact ⟨hpreparing, resetResumeState_installed hinstalled⟩

theorem verified_expected {m : Machine} (hstatus : m.task.status = .preparing)
    (h : m.task.Installed) (env : Env) (job : PreparedJob) (file : File) :
    (verified env m job file).Expected := by
  obtain ⟨checksums, ht⟩ :=
    verifyExistingFile_checksums env m.task file job.probe job.previous
  unfold verified
  split
  · exact finishJob_terminal _ _
  · rename_i hverify
    rw [hverify] at ht
    cases ht
    exact ⟨hstatus, h⟩

theorem verifiedEmpty_expected {m : Machine} (hstatus : m.task.status = .preparing)
    (h : m.task.Installed) (env : Env) (job : PreparedJob) :
    (verifiedEmpty env m job).Expected := by
  unfold verifiedEmpty
  dsimp only
  split
  · exact ⟨hstatus, h⟩
  · rfl

theorem installSession_leads {s : StartRun} (h : s.machine.task.status = .preparing)
    (session : TorrentEngineSession) :
    s.Leads (.starts session) (installSession s.machine session) := by
  unfold installSession
  dsimp only
  cases hmetadata : session.metadata <|> s.machine.task.torrentResume.bind (·.metadata) with
  | none =>
    have hc : s.FailsIdle (.starts session) := by
      intro metadata hmem
      rw [hmetadata] at hmem
      cases hmem
    cases session.manifest with
    | none => exact .onward h hc
    | some manifest => exact .onward h hc
  | some metadata =>
    have hc : s.FailsIdle (.starts session) ↔ metadata.Installable := by
      simp only [FailsIdle, hmetadata, Option.mem_some_iff, forall_eq']
    dsimp only
    cases hinstalled : installTorrentMetadata s.machine.task metadata s.machine.task.filePath with
    | error err =>
      refine .active ⟨err, rfl⟩ (congrArg Status.isActive h) ?_
      rw [hc, ← installTorrentMetadata_isOk s.machine.task metadata s.machine.task.filePath]
      rintro ⟨t, ht⟩
      cases hinstalled.symm.trans ht
    | ok t =>
      refine .onward ((installTorrentMetadata_status hinstalled).trans h) (hc.2 ?_)
      exact (installTorrentMetadata_isOk _ _ _).1 ⟨t, hinstalled⟩

theorem succeeds_leads {s s' : StartRun} (h : s.Expected) (hs : s.succeeds env = some s') :
    s.Leads .succeeds s' := by
  refine .onward ?_ trivial
  obtain ⟨point, m⟩ := s
  cases point with
  | called =>
    cases hs
    exact enter_expected h
  | purgingOldWorkers =>
    cases hs
    exact h
  | deletingOldFile =>
    cases hs
    rfl
  | persistingPreparing =>
    simp only [succeeds] at hs
    split at hs
    · cases hs
      exact h
    · cases hs
      exact h
  | creatingDownloadDir =>
    cases hs
    exact h
  | readingMetadata job =>
    obtain ⟨file, _, rfl⟩ := Option.map_eq_some_iff.1 hs
    cases job.existingFile m.task file with
    | keep => exact syncProgress_expected h.1 h.2 job
    | verify => exact h
    | discard => exact h
  | verifyingExisting job =>
    obtain ⟨file, _, rfl⟩ := Option.map_eq_some_iff.1 hs
    exact verified_expected h.1 h.2 env job file
  | removingFile job =>
    cases hs
    exact h
  | purgingWorkers job =>
    cases hs
    exact syncProgress_expected h.1 h.2 job
  | preparingStore job =>
    simp only [succeeds] at hs
    split at hs
    · cases hs
      exact h
    · cases hs
      exact ⟨rfl, h.2⟩
  | verifyingEmpty job =>
    cases hs
    exact verifiedEmpty_expected h.1 h.2 env job
  | syncingData =>
    cases hs
    rfl
  | persistingChecksums =>
    cases hs
    exact h
  | persistingFinished =>
    cases hs
    rfl
  | persistingRunning =>
    simp only [succeeds] at hs
    split at hs
    · cases hs
    · split at hs
      · cases hs
        rfl
      · cases hs
        exact h
  | purgingLanes =>
    cases hs
    exact h
  | creatingWorkers =>
    simp only [succeeds] at hs
    split at hs
    · cases hs
    · rename_i hplans
      obtain ⟨workers, hworkers⟩ := h.2.createWorkers (Bool.eq_false_of_not_eq_true hplans) env.now
      rw [hworkers] at hs
      cases hs
      rfl
  | upgradingManager =>
    cases hs
    exact h
  | creatingSwarmDir =>
    cases hs
    exact h
  | persistingSession =>
    simp only [succeeds] at hs
    split at hs
    · cases hs
      rfl
    · cases hs
      rfl
  | persistingStarted =>
    cases hs
    rfl
  | discovering => cases hs
  | resolvingSwarm => cases hs
  | startingSession engineSpec => cases hs
  | returned result => cases hs

/-- What a call that fails does: the error is returned with the task as it is, or the engine is
asked again. -/
inductive FailsTo (s : StartRun) : StartRun → Prop where
  | returned (h : s.point.propagates s.machine.task.spec = true) (err : Error) :
      FailsTo s (returnErr s.machine err)
  | again (h : s.point = .startingSession engineSpec) (hne : engineSpec ≠ s.machine.task.spec) :
      FailsTo s ⟨.startingSession s.machine.task.spec, s.machine⟩

theorem fails_to {s s' : StartRun} (h : s.fails persistence err = some s') : s.FailsTo s' := by
  obtain ⟨point, m⟩ := s
  simp only [fails] at h
  split at h
  · cases h
  · cases point with
    | called | preparingStore | verifyingEmpty | returned => cases h
    | deletingOldFile =>
      obtain ⟨path, _, rfl⟩ := Option.map_eq_some_iff.1 h
      exact .returned rfl err
    | verifyingExisting | creatingWorkers | resolvingSwarm =>
      dsimp only at h
      split at h
      · cases h
        exact .returned rfl err
      · cases h
    | startingSession engineSpec =>
      dsimp only at h
      split at h
      · cases h
        exact .again rfl ‹_›
      · rename_i hsame
        cases h
        apply FailsTo.returned
        exact beq_iff_eq.2 (Decidable.not_not.1 hsame)
    | _ =>
      cases h
      exact .returned rfl _

/-- At each call the status is active unless the failure of the call is one of those let through. -/
theorem Expected.isActive {s : StartRun} (h : s.Expected)
    (hp : s.point.propagates s.machine.task.spec = true) :
    s.machine.task.status.isActive = !s.point.mayFail s.machine.task.spec := by
  obtain ⟨point, m⟩ := s
  have hidle (hterminal : m.task.status.isTerminal = true) : m.task.status.isActive = false := by
    cases hactive : m.task.status.isActive with
    | false => rfl
    | true => cases hterminal.symm.trans (Status.not_terminal_of_active hactive)
  cases point with
  | called | returned => cases hp
  | purgingOldWorkers | deletingOldFile | persistingChecksums | persistingFinished => exact hidle h
  | startingSession engineSpec =>
    have hsame : engineSpec = m.task.spec := beq_iff_eq.1 hp
    simp only [StartPoint.mayFail, hsame, bne_self_eq_false, Bool.not_false]
    exact congrArg Status.isActive h
  | persistingPreparing | creatingDownloadDir | discovering | upgradingManager | creatingSwarmDir
  | resolvingSwarm | persistingSession | persistingStarted => exact congrArg Status.isActive h
  | _ => exact congrArg Status.isActive h.1

theorem fails_leads {s s' : StartRun} (h : s.Expected) (hs : s.fails persistence err = some s') :
    s.Leads (.fails err) s' := by
  cases fails_to hs with
  | returned hp err' =>
    have hactive := h.isActive hp
    cases hmay : s.point.mayFail s.machine.task.spec with
    | false =>
      rw [hmay] at hactive
      exact .active (.returnErr _ _) hactive (Bool.eq_false_iff.1 hmay)
    | true =>
      rw [hmay] at hactive
      exact .idle (.returnErr _ _) hactive hmay
  | again hpoint hne =>
    obtain ⟨point, m⟩ := s
    cases hpoint
    exact .onward h (bne_iff_ne.2 hne)

theorem breaksOff_leads {s s' : StartRun} (h : s.Expected)
    (hs : s.breaksOff env count err = some s') : s.Leads (.breaksOff count err) s' := by
  obtain ⟨point, m⟩ := s
  cases point with
  | verifyingExisting job =>
    obtain ⟨checksums, _, rfl⟩ := Option.map_eq_some_iff.1 hs
    exact .active (.returnErr _ _) (congrArg Status.isActive h.1) nofun
  | verifyingEmpty job =>
    obtain ⟨checksums, _, rfl⟩ := Option.map_eq_some_iff.1 hs
    exact .onward rfl rfl
  | preparingStore job =>
    simp only [breaksOff] at hs
    split at hs
    · cases hs
      exact .active (.returnErr _ _) (congrArg Status.isActive h.1) nofun
    · cases hs
  | _ => cases hs

theorem step_leads {s s' : StartRun} (h : s.Expected)
    (hs : step env persistence s a = some s') : s.Leads a s' := by
  cases a with
  | succeeds => exact succeeds_leads h hs
  | fails err => exact fails_leads h hs
  | breaksOff count err => exact breaksOff_leads h hs
  | discovers probe =>
    obtain ⟨point, m⟩ := s
    simp only [step] at hs
    split at hs
    · cases hs
      exact .onward (install_expected h env probe) trivial
    · cases hs
  | resolves candidates engineSpec =>
    obtain ⟨point, m⟩ := s
    simp only [step] at hs
    split at hs
    · split at hs
      · cases hs
        exact .onward h trivial
      · cases hs
    · cases hs
  | starts session =>
    obtain ⟨point, m⟩ := s
    simp only [step] at hs
    split at hs
    · cases hs
      exact installSession_leads h session
    · cases hs

theorem step_returned {s : StartRun} (h : s.point = .returned result) (env : Env)
    (persistence : Bool) (a : StartAct) : step env persistence s a = none := by
  obtain ⟨point, m⟩ := s
  cases h
  cases a <;> simp [step, succeeds, fails, breaksOff]

end StartRun

theorem handleExistingFile_eq {m : Machine} (job : PreparedJob) (env : Env)
    (hfile : m.fs.file job.path = some file) :
    handleExistingFile env m job.path job.probe job.previous
        (job.previous.validatorChanged job.probe.resourceIdentity) =
      match job.existingFile m.task file with
      | .keep => (false, m)
      | .verify => finishOrDiscard env m job.path file job.probe job.previous
      | .discard => (false, discardFile m job.path) := by
  simp only [handleExistingFile, hfile, PreparedJob.existingFile]
  cases job.previous.validatorChanged job.probe.resourceIdentity with
  | true => rfl
  | false =>
    cases job.probe.totalSize with
    | none => rfl
    | some totalSize =>
      by_cases hlarge : totalSize < file.len
      · simp only [hlarge, Bool.false_eq_true, if_true, if_false]
      · simp only [hlarge, Bool.false_eq_true, if_false]
        cases m.task.config.fileConflictStrategy with
        | overwrite => rfl
        | skipIfValid => rfl
        | resume =>
          by_cases hpart : file.len < totalSize
          · simp only [hpart, if_true]
            cases canResumePartialDownload m.task job.probe job.previous with
            | true => rfl
            | false => rfl
          · simp only [hpart, if_false]

/-- `prepare_download` after `handle_existing_file`. -/
def prepareStore (env : Env) (job : PreparedJob) (m : Machine) :
    Except Error PreparationOutcome × Machine :=
  match m.task.syncPieceProgressFromWorkers with
  | (.error err, task) => (.error err, { m with task })
  | (.ok _, task) =>
    let m : Machine := ⟨task, (FileMap.fromManifest job.manifest).prepare m.fs⟩
    if job.probe.totalSize = some 0 then (.ok .finished, finishEmptyPayload env m job.path)
    else (.ok (.ready job.path), m)

def preparedJob (env : Env) (probe : OriginMetadata) (t : Task) : PreparedJob :=
  ⟨probe, t.identity, (installProbe env probe t).1, (installProbe env probe t).2.1⟩

theorem prepareDownload_eq {m : Machine} (hspec : m.task.spec.supportsSwarmDiscovery = false)
    (env : Env) (probe : OriginMetadata) :
    prepareDownload env (.ok probe) m =
      let job := preparedJob env probe m.task
      let handled := handleExistingFile env { m with task := (installProbe env probe m.task).2.2 }
        job.path job.probe job.previous (job.previous.validatorChanged job.probe.resourceIdentity)
      if handled.1 then (.ok .finished, handled.2) else prepareStore env job handled.2 := by
  simp only [prepareDownload, hspec, Bool.false_eq_true, if_false]
  rfl

/-- The return of `start` with what `prepare_download` has given. -/
def StartRun.returnOf (env : Env) (prepared : Except Error PreparationOutcome × Machine) :
    StartRun :=
  ⟨.returned (afterPreparation env prepared).1, (afterPreparation env prepared).2⟩

/-- Calls that succeed, with this answer of the origin. -/
def GoesWell (probe : OriginMetadata) (a : StartAct) : Prop := a = .succeeds ∨ a = .discovers probe

section

variable {env : Env} {persistence : Bool} {probe : OriginMetadata}

namespace StartRun

theorem reaches_succeeds (h : ∃ s', step env persistence s .succeeds = some s' ∧
      Transition.Reaches (step env persistence) (GoesWell probe) s' t) :
    Transition.Reaches (step env persistence) (GoesWell probe) s t := by
  obtain ⟨s', hs, h⟩ := h
  exact h.head (.inl rfl) hs

theorem reaches_finished (m : Machine) :
    Transition.Reaches (step env persistence) (GoesWell probe) ⟨.persistingChecksums, m⟩
      (returnOf env (.ok .finished, m)) := by
  refine reaches_succeeds ⟨_, rfl, ?_⟩
  refine reaches_succeeds ⟨_, rfl, ?_⟩
  exact .refl _ _

theorem ensureWorkers_planPanics (t : Task) (now : Nat) :
    (t.ensureWorkers now).2.planPanics = t.planPanics := by
  unfold Task.ensureWorkers
  split
  · rfl
  · dsimp only
    split <;> rfl

theorem reaches_ready {m : Machine} (h : m.task.Installed) (path : String)
    (hplans : (returnOf env (.ok (.ready path), m)).machine.task.planPanics = false) :
    Transition.Reaches (step env persistence) (GoesWell probe)
      ⟨.persistingRunning, m.setStatus .running⟩ (returnOf env (.ok (.ready path), m)) := by
  replace hplans : (m.setStatus .running).task.planPanics = false := by
    rw [← hplans, ← ensureWorkers_planPanics _ env.now]
    simp only [returnOf, afterPreparation]
    split <;> simp only [*]
  simp only [returnOf, afterPreparation, Task.ensureWorkers]
  cases hreuse : !(m.setStatus .running).task.workers.isEmpty &&
      (m.setStatus .running).task.canReuseExistingWorkers with
  | true =>
    have hreturned : step env persistence ⟨.persistingRunning, m.setStatus .running⟩ .succeeds =
        some ⟨.returned (.ok ()), m.setStatus .running⟩ := by
      simp only [step, succeeds, hplans, hreuse, Bool.and_false, Bool.false_eq_true, if_false,
        if_true]
    refine reaches_succeeds ⟨_, hreturned, ?_⟩
    exact .refl _ _
  | false =>
    let cleared : Machine :=
      { m with task := { (m.setStatus .running).task with workers := [] } }
    have hinstalled : cleared.task.Installed := h
    have hclear : cleared.task.planPanics = false := hplans
    obtain ⟨workers, hworkers⟩ := hinstalled.createWorkers hclear env.now
    have hpurging : step env persistence ⟨.persistingRunning, m.setStatus .running⟩ .succeeds =
        some ⟨.purgingLanes, cleared⟩ := by
      simp only [step, succeeds, hplans, hreuse, Bool.and_false, Bool.false_eq_true, if_false,
        cleared]
      rfl
    have hcreated : step env persistence ⟨.creatingWorkers, cleared⟩ .succeeds =
        some ⟨.returned (.ok ()), { cleared with task := { cleared.task with workers } }⟩ := by
      simp only [step, succeeds, hclear, Bool.false_eq_true, if_false, hworkers]
    simp only [cleared] at hworkers
    simp only [Bool.false_eq_true, if_false, hworkers]
    refine reaches_succeeds ⟨_, hpurging, ?_⟩
    refine reaches_succeeds ⟨_, rfl, ?_⟩
    refine reaches_succeeds ⟨_, hcreated, ?_⟩
    exact .refl _ _

theorem reaches_prepared {m : Machine} (h : m.task.Installed) (job : PreparedJob)
    (hplans : (returnOf env (prepareStore env job m)).machine.task.planPanics = false) :
    Transition.Reaches (step env persistence) (GoesWell probe) (syncProgress m job)
      (returnOf env (prepareStore env job m)) := by
  obtain ⟨downloaded, t, hsync, _, hinstalled⟩ := Task.syncPieceProgress_installed h
  simp only [syncProgress, prepareStore, hsync] at hplans ⊢
  by_cases hempty : job.probe.totalSize = some 0
  · simp only [hempty, if_true]
    refine reaches_succeeds ⟨_, (if_pos hempty), ?_⟩
    refine reaches_succeeds ⟨_, rfl, ?_⟩
    simp only [verifiedEmpty, finishEmptyPayload]
    split
    · rename_i hverify
      simp only [hverify, if_true]
      refine reaches_succeeds ⟨_, rfl, ?_⟩
      exact reaches_finished _
    · rename_i hverify
      simp only [hverify, Bool.false_eq_true, if_false]
      exact reaches_finished _
  · simp only [hempty, if_false] at hplans ⊢
    refine reaches_succeeds ⟨_, (if_neg hempty), ?_⟩
    exact reaches_ready hinstalled job.path hplans

theorem reaches_existing {m : Machine} (h : m.task.Installed) (job : PreparedJob)
    (hfile : m.fs.file job.path = some file) :
    let handled := handleExistingFile env m job.path job.probe job.previous
      (job.previous.validatorChanged job.probe.resourceIdentity)
    (returnOf env (if handled.1 then (.ok .finished, handled.2)
      else prepareStore env job handled.2)).machine.task.planPanics = false →
    Transition.Reaches (step env persistence) (GoesWell probe) ⟨.readingMetadata job, m⟩
      (returnOf env (if handled.1 then (.ok .finished, handled.2)
        else prepareStore env job handled.2)) := by
  have hdiscard {m : Machine} (h : m.task.Installed) (hplans : (returnOf env
      (prepareStore env job (discardFile m job.path))).machine.task.planPanics = false) :
      Transition.Reaches (step env persistence) (GoesWell probe) ⟨.removingFile job, m⟩
        (returnOf env (prepareStore env job (discardFile m job.path))) := by
    refine reaches_succeeds ⟨_, rfl, ?_⟩
    refine reaches_succeeds ⟨_, rfl, ?_⟩
    have hreset : (discardFile m job.path).task.Installed := resetResumeState_installed h
    exact reaches_prepared hreset job hplans
  have hread : step env persistence ⟨.readingMetadata job, m⟩ .succeeds =
      some (match job.existingFile m.task file with
        | .keep => syncProgress m job
        | .verify => ⟨.verifyingExisting job, m⟩
        | .discard => ⟨.removingFile job, m⟩) := by
    simp only [step, succeeds, hfile, Option.map_some]
  have hverified : step env persistence ⟨.verifyingExisting job, m⟩ .succeeds =
      some (verified env m job file) := by
    simp only [step, succeeds, hfile, Option.map_some]
  rw [handleExistingFile_eq job env hfile]
  intro handled hplans
  refine reaches_succeeds ⟨_, hread, ?_⟩
  simp only [handled] at hplans ⊢
  cases hexisting : job.existingFile m.task file with
  | keep =>
    rw [hexisting] at hplans
    exact reaches_prepared h job hplans
  | discard =>
    rw [hexisting] at hplans
    exact hdiscard h hplans
  | verify =>
    rw [hexisting] at hplans
    refine reaches_succeeds ⟨_, hverified, ?_⟩
    obtain ⟨checksums, ht⟩ :=
      verifyExistingFile_checksums env m.task file job.probe job.previous
    simp only [verified, finishOrDiscard] at hplans ⊢
    split
    · rename_i hverify
      simp only [hverify, if_true]
      exact reaches_finished _
    · rename_i t hverify
      rw [hverify] at ht
      simp only [hverify, Bool.false_eq_true, if_false] at hplans ⊢
      apply hdiscard _ hplans
      cases ht
      exact h

theorem reaches_download {m : Machine} (hspec : m.task.spec.supportsSwarmDiscovery = false)
    (hplans : (returnOf env (prepareDownload env (.ok probe) m)).machine.task.planPanics = false) :
    Transition.Reaches (step env persistence) (GoesWell probe) ⟨.persistingPreparing, m⟩
      (returnOf env (prepareDownload env (.ok probe) m)) := by
  refine reaches_succeeds ⟨_, (if_neg (Bool.eq_false_iff.1 hspec)), ?_⟩
  refine reaches_succeeds ⟨_, rfl, ?_⟩
  apply Transition.Reaches.head (.inr rfl) rfl
  have hinstalled := installProbe_installed env probe m.task
  rw [prepareDownload_eq hspec] at hplans ⊢
  simp only [install]
  cases hfile : m.fs.file (installProbe env probe m.task).1 with
  | some file =>
    exact reaches_existing (m := { m with task := (installProbe env probe m.task).2.2 }) hinstalled
      (preparedJob env probe m.task) hfile hplans
  | none =>
    simp only [handleExistingFile, preparedJob, hfile, Bool.false_eq_true, if_false,
      resetMissingFileState] at hplans ⊢
    split
    · rename_i hnone
      rw [if_pos hnone] at hplans
      exact reaches_prepared (m := { m with task := (installProbe env probe m.task).2.2 })
        hinstalled (preparedJob env probe m.task) hplans
    · rename_i hsome
      rw [if_neg hsome] at hplans
      refine reaches_succeeds ⟨_, rfl, ?_⟩
      exact reaches_prepared
        (m := { m with task := resetResumeState (installProbe env probe m.task).2.2 })
        (resetResumeState_installed hinstalled) (preparedJob env probe m.task) hplans

end StartRun
end

/-- When every call succeeds and the planner does not panic, the calls make up `start`. -/
theorem start_reached (env : Env) (persistence : Bool) (probe : OriginMetadata) (m : Machine)
    (hspec : m.task.spec.supportsSwarmDiscovery = false)
    (hallowed : (prepareForStart m).1 = .ok ())
    (hplans : (start env (.ok probe) m).2.task.planPanics = false) :
    Transition.Reaches (StartRun.step env persistence) (GoesWell probe) ⟨.called, m⟩
      ⟨.returned (start env (.ok probe) m).1, (start env (.ok probe) m).2⟩ := by
  apply StartRun.reaches_succeeds ⟨_, rfl, ?_⟩
  cases hstatus : m.task.status with
  | pending | paused =>
    simp only [StartRun.enter, start, prepareForStart, hstatus] at hplans ⊢
    exact StartRun.reaches_download (m := m.setStatus .preparing) hspec hplans
  | canceled | failed =>
    simp only [StartRun.enter, start, prepareForStart, hstatus] at hplans ⊢
    refine StartRun.reaches_succeeds ⟨_, rfl, ?_⟩
    refine StartRun.reaches_succeeds ⟨_, rfl, ?_⟩
    exact StartRun.reaches_download (m := (resetTask m).setStatus .preparing) hspec hplans
  | preparing | running | completed | deleted =>
    simp only [prepareForStart, hstatus] at hallowed
    cases hallowed

/-- A failed start of a task that may be started: the task is left in a status that is not active
exactly when every call that failed on the way was one of `reset_task`, one of the saves behind a
verdict, or one that is made good. -/
theorem failed_start_is_idle_iff (env : Env) (persistence : Bool) (m : Machine) (s : StartRun)
    (acts : List StartAct) (err : Error) (hallowed : (prepareForStart m).1 = .ok ())
    (hrun : Transition.run (StartRun.step env persistence) ⟨.called, m⟩ acts = some s)
    (herr : s.point = .returned (.error err)) :
    s.machine.task.status.isActive = false ↔
      Transition.Meets (StartRun.step env persistence) StartRun.FailsIdle ⟨.called, m⟩ acts := by
  have hexpected : StartRun.Expected ⟨.called, m⟩ := hallowed
  symm
  refine Transition.meets_iff_end (I := StartRun.Expected) (F := StartRun.Failed)
    (Q := fun s => s.machine.task.status.isActive = false) ?_ ?_ ?_ hexpected hrun ⟨err, herr⟩
  · intro s a s' h hs
    cases StartRun.step_leads h hs with
    | onward h hc => exact .inl ⟨hc, h⟩
    | idle h hstatus hc => exact .inr ⟨h, iff_of_true hc hstatus⟩
    | active h hstatus hc =>
      refine .inr ⟨h, iff_of_false hc ?_⟩
      rw [hstatus]
      exact Bool.noConfusion
  · rintro s a ⟨err, h⟩
    exact StartRun.step_returned h env persistence a
  · rintro s h ⟨err, hpoint⟩
    simp only [StartRun.Expected, hpoint] at h
    cases h

/-- A task whose rows cannot be purged is failed as before, and may be started again. -/
theorem failed_purge_leaves_failed :
    let failed : Machine :=
      ⟨{ restoredTask [] with status := .failed (.other "Checksum failed") }, .empty⟩
    let err : Error := .other "database is locked"
    ∃ s, Transition.run (StartRun.step plainEnv true) ⟨.called, failed⟩ [.succeeds, .fails err] =
        some s ∧ s.point = .returned (.error err) ∧ s.machine.task.status.isActive = false := by
  intro failed err
  have hrun : Transition.run (StartRun.step plainEnv true) ⟨.called, failed⟩
      [.succeeds, .fails err] = some (StartRun.returnErr failed err) := rfl
  have hmeets : Transition.Meets (StartRun.step plainEnv true) StartRun.FailsIdle
      ⟨.called, failed⟩ [.succeeds, .fails err] := by
    refine .cons trivial rfl (.cons ?_ rfl trivial)
    rfl
  refine ⟨_, hrun, rfl, ?_⟩
  exact (failed_start_is_idle_iff plainEnv true failed _ _ err rfl hrun rfl).2 hmeets

/-- The probe of a pending task fails: the task stays in preparation, and nothing prepares it. -/
theorem failed_probe_leaves_preparing :
    let pending : Machine := ⟨restoredTask [], .empty⟩
    let err : Error := .reqwest "error sending request for url"
    (prepareForStart pending).1 = .ok () ∧
      ∃ s, Transition.run (StartRun.step plainEnv true) ⟨.called, pending⟩
          [.succeeds, .succeeds, .succeeds, .fails err] = some s ∧
        s.point = .returned (.error err) ∧ s.machine.task.status = .preparing ∧
        (prepareForStart s.machine).1 =
          .error (.other "Task is Preparing, cannot start again") ∧
        s.machine.task.status.isTerminal = false :=
  ⟨rfl, _, rfl, rfl, rfl, rfl, rfl⟩

end Paradown
