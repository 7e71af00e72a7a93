import Paradown.Task

namespace Paradown
set_option autoImplicit true

/-- A task together with the file system it downloads into. File-system calls succeed. -/
structure Machine where
  task : Task
  fs : FileSystem

def Machine.setStatus (m : Machine) (status : Status) : Machine :=
  { m with task := { m.task with status } }

inductive PreparationOutcome where
  | ready (filePath : String)
  | startedByEngine
  | finished
  deriving DecidableEq, Repr

/-- What preparation takes from outside: the digests, the clock, the file names the `url` crate
reads off a locator, and the torrent pipeline. -/
structure Env where
  digests : Digests
  now : Nat
  urlFileName : String → Option String
  specFileName : DownloadSpec → Option String
  prepareSwarmDownload : Machine → Except Error PreparationOutcome × Machine

/-- `Path::join`: an absolute name replaces the directory. -/
def pathJoin (dir name : String) : String :=
  if name.toList.head? = some '/' then name
  else if dir = "" ∨ dir.toList.getLast? = some '/' then dir ++ name
  else dir ++ "/" ++ name

/-- `initialize_file_name`; with no suggestion this is `resolve_or_init_file_name`. -/
def Task.initializeFileName (t : Task) (env : Env) (suggested : Option String) : String × Task :=
  match t.fileName with
  | some name => (name, t)
  | none =>
    let name := (suggested <|> t.identity.resolvedUrl.bind env.urlFileName <|>
      env.specFileName t.spec).getD s!"download_{t.id}.tmp"
    (name, { t with fileName := some name })

def Task.getOrInitFilePath (t : Task) (env : Env) : String × Task :=
  match t.filePath with
  | some path => (path, t)
  | none =>
    let (name, t) := t.initializeFileName env none
    let path := pathJoin t.config.downloadDir name
    (path, { t with filePath := some path })

def Task.buildRuntimeSourceSet (t : Task) (identity : HttpResourceIdentity) : SourceSet :=
  let sources := if t.sources.isEmpty then SourceSet.forSpec t.spec (some t.httpRequest) else t.sources
  sources.modifyPrimary fun primary =>
    { primary with
      resourceIdentity := some identity
      request := if primary.request.isNone && !t.httpRequest.isEmpty then some t.httpRequest
        else primary.request }

def Task.buildSingleFileManifest (t : Task) (env : Env) (sources : SourceSet) (filePath : String)
    (probe : OriginMetadata) : SessionManifest :=
  let name := (t.initializeFileName env none).1
  let requestedWorkers :=
    if probe.supportsRangeRequests && probe.totalSize.isSome then t.config.segmentsPerTask else 1
  match probe.totalSize with
  | some totalSize =>
    let pieceSize := suggestedHttpPieceSize totalSize requestedWorkers
    .forSingleFileWithPieceSize t.spec sources name filePath totalSize pieceSize
      (min pieceSize (256 * 1024)) t.checksums
  | none => .forStreamingFile t.spec sources name filePath t.checksums

/-- `finish_job`: success marks every piece and completes the task, failure keeps the progress. -/
def finishJob (m : Machine) (outcome : Except Error Unit) : Machine :=
  match outcome with
  | .ok () => { m with task := { m.task.markAllPiecesCompleted with status := .completed } }
  | .error err => { m with task := { m.task with status := .failed err } }

def resetResumeState (t : Task) : Task :=
  { ({ t with downloadedSize := 0 } : Task).resetPieceProgress.resetBlockProgress with workers := [] }

/-- Nothing is cleared when the task has neither counted bytes nor workers. -/
def resetMissingFileState (t : Task) : Task :=
  if t.downloadedSize = 0 ∧ t.workers = [] then t else resetResumeState t

def verifyExistingFile (env : Env) (t : Task) (file : File) (probe : OriginMetadata)
    (previous : HttpResourceIdentity) : Bool × Task :=
  if t.checksums ≠ [] then
    let (ok, checksums) := verifyFileChecksums env.digests env.now file.content t.checksums
    (ok, { t with checksums })
  else
    match probe.totalSize with
    | none => (false, t)
    | some totalSize =>
      (file.len == totalSize && previous.hasResumeValidator &&
        !previous.validatorChanged probe.resourceIdentity, t)

def canResumePartialDownload (t : Task) (probe : OriginMetadata)
    (previous : HttpResourceIdentity) : Bool :=
  probe.totalSize.isSome && probe.supportsRangeRequests && previous.hasResumeValidator &&
    !previous.validatorChanged probe.resourceIdentity && !t.workers.isEmpty

/-- Remove the local file and forget all progress. -/
def discardFile (m : Machine) (path : String) : Machine :=
  ⟨resetResumeState m.task, m.fs.removeFile path⟩

/-- Finish on a file that verifies, otherwise discard it. -/
def finishOrDiscard (env : Env) (m : Machine) (path : String) (file : File)
    (probe : OriginMetadata) (previous : HttpResourceIdentity) : Bool × Machine :=
  let (ok, t) := verifyExistingFile env m.task file probe previous
  if ok then (true, finishJob { m with task := t } (.ok ()))
  else (false, discardFile { m with task := t } path)

/-- `handle_existing_file`; `true` means that the task was finished here. -/
def handleExistingFile (env : Env) (m : Machine) (path : String) (probe : OriginMetadata)
    (previous : HttpResourceIdentity) (originChanged : Bool) : Bool × Machine :=
  match m.fs.file path with
  | none => (false, { m with task := resetMissingFileState m.task })
  | some file =>
    if originChanged then (false, discardFile m path)
    else
      match probe.totalSize with
      | none => (false, discardFile m path)
      | some totalSize =>
        if totalSize < file.len then (false, discardFile m path)
        else
          match m.task.config.fileConflictStrategy with
          | .overwrite => (false, discardFile m path)
          | .skipIfValid => finishOrDiscard env m path file probe previous
          | .resume =>
            if file.len < totalSize then
              if canResumePartialDownload m.task probe previous then (false, m)
              else (false, discardFile m path)
            else finishOrDiscard env m path file probe previous

/-- `prepare_download` up to and including `install_manifest`. -/
def installProbe (env : Env) (probe : OriginMetadata) (t : Task) : String × SessionManifest × Task :=
  let t := { t.updateProtocolProbe probe.totalSize probe.supportsRangeRequests with
    identity := probe.resourceIdentity }
  let t := (t.initializeFileName env probe.suggestedFileName).2
  let (path, t) := t.getOrInitFilePath env
  let sources := t.buildRuntimeSourceSet probe.resourceIdentity
  let manifest := t.buildSingleFileManifest env sources path probe
  (path, manifest, { t with sources }.installManifest manifest)

/-- `verify_checksums` and `finish_job` for a payload of no bytes. -/
def finishEmptyPayload (env : Env) (m : Machine) (path : String) : Machine :=
  let content := ((m.fs.file path).map (·.content)).getD []
  let (ok, checksums) := verifyFileChecksums env.digests env.now content m.task.checksums
  finishJob { m with task := { m.task with checksums } }
    (if ok then .ok () else .error (.other "Checksum failed"))

def prepareDownload (env : Env) (probe : Except Error OriginMetadata) (m : Machine) :
    Except Error PreparationOutcome × Machine :=
  if m.task.spec.supportsSwarmDiscovery then env.prepareSwarmDownload m
  else
    match probe with
    | .error err => (.error err, m)
    | .ok probe =>
      let previous := m.task.identity
      let originChanged := previous.validatorChanged probe.resourceIdentity
      let (path, manifest, task) := installProbe env probe m.task
      let (finished, m) := handleExistingFile env { m with task } path probe previous originChanged
      if finished then (.ok .finished, m)
      else
        match m.task.syncPieceProgressFromWorkers with
        | (.error err, task) => (.error err, { m with task })
        | (.ok _, task) =>
          let m : Machine := ⟨task, (FileMap.fromManifest manifest).prepare m.fs⟩
          if probe.totalSize = some 0 then (.ok .finished, finishEmptyPayload env m path)
          else (.ok (.ready path), m)

end Paradown
