import Paradown.Registry
import Paradown.Transition

namespace Paradown
set_option autoImplicit true

/-- A response that a worker is writing out: the store it writes to and its next offset. -/
structure Stream where
  store : FileMap
  offset : Nat
  deriving DecidableEq, Repr

/-- A task with its file system and what the workers of its list are streaming. -/
structure History where
  machine : Machine
  streams : Nat → Option Stream

/-- What can happen to an HTTP task between its creation and its next preparation. -/
inductive Action where
  | start (probe : Except Error OriginMetadata)
  | resume (probe : Except Error OriginMetadata)
  | pause
  | restart
  | runWorker (index : Nat)
  | respond (index : Nat)
  | slice (index : Nat) (data : List UInt8)

/-- `Task::resume` of a task without a torrent session: the machine that goes on to `start`. -/
def resumeTarget (m : Machine) : Option Machine :=
  match m.task.status with
  | .pending | .running => some m
  | .paused => some (m.setStatus .pending)
  | _ => none

/-- `Worker::pause`. -/
def Worker.pause (w : Worker) : Worker :=
  { w with paused := true, status := if w.status.isTerminal then w.status else .paused }

/-- `Task::pause` of a task without a torrent session. -/
def Task.pause (t : Task) : Task :=
  if t.status.isActive then { t with status := .paused, workers := t.workers.map Worker.pause } else t

/-- `Worker::start` up to the first request; a worker that is running already is left alone. -/
def Worker.run (w : Worker) : Option Worker :=
  if w.isRunning then none
  else
    match w.status with
    | .paused => some { w with paused := false, status := .running, isRunning := true }
    | .canceled | .deleted | .completed => none
    | _ => some { w with status := .running, isRunning := true }

/-- The loop goes on to its next request or slice. -/
def Worker.mayProceed (w : Worker) : Bool :=
  w.isRunning && !w.paused && !w.canceled && !w.deleted

/-- Where the bytes of the next response go; without ranges that is the start of the lane, however
much has been counted. -/
def Task.writeOffset (t : Task) (w : Worker) : Nat :=
  if w.lengthKnown && t.rangeRequestsSupported then satAdd w.start w.downloadedSize else w.start

def Task.setWorker (t : Task) (index : Nat) (w : Worker) : Task :=
  { t with workers := t.workers.set index w }

def runWorker (s : History) (index : Nat) : Option History := do
  let w ← s.machine.task.workers[index]?
  let w ← w.run
  return ⟨{ s.machine with task := s.machine.task.setWorker index w },
    Function.update s.streams index none⟩

def respond (s : History) (index : Nat) : Option History := do
  let w ← s.machine.task.workers[index]?
  let store ← s.machine.task.payloadStore
  if w.mayProceed then
    return { s with
      streams := Function.update s.streams index (some ⟨store, s.machine.task.writeOffset w⟩) }
  else none

/-- One turn of the slice loop of `stream_response`. -/
def slice (s : History) (index : Nat) (data : List UInt8) : Option History := do
  let w ← s.machine.task.workers[index]?
  let stream ← s.streams index
  if w.mayProceed then
    match stream.store.writeAt s.machine.fs stream.offset data with
    | .error _ => none
    | .ok fs =>
      let w := { w with downloadedSize := w.downloadedSize + data.length }
      return ⟨⟨s.machine.task.setWorker index w, fs⟩, Function.update s.streams index
        (some { stream with offset := satAdd stream.offset data.length })⟩
  else none

def step (env : Env) (codec : Codec) (s : History) : Action → Option History
  | .start probe => some { s with machine := (start env probe s.machine).2 }
  | .resume probe =>
    match resumeTarget s.machine with
    | some m => some { s with machine := (start env probe m).2 }
    | none => some s
  | .pause => some { s with machine := { s.machine with task := s.machine.task.pause } }
  | .restart =>
    some ⟨{ s.machine with task := restoreTask codec env.now s.machine }, fun _ => none⟩
  | .runWorker index => runWorker s index
  | .respond index => respond s index
  | .slice index data => slice s index data

/-- The machine and the probe with which an action calls `prepare_download`. -/
def prepares (s : History) : Action → Option (Machine × OriginMetadata)
  | .start (.ok probe) =>
    match prepareForStart s.machine with
    | (.ok (), m) => some (m.setStatus .preparing, probe)
    | _ => none
  | .resume (.ok probe) =>
    match resumeTarget s.machine with
    | some m =>
      match prepareForStart m with
      | (.ok (), m) => some (m.setStatus .preparing, probe)
      | _ => none
    | none => none
  | _ => none

end Paradown
