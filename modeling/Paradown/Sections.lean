import Paradown.Status

namespace Paradown
set_option autoImplicit true

inductive PendingAction where
  | start
  | resume
  | retry
  deriving DecidableEq, Repr

/-- The action of the call that `spawn_next_task` makes for a queued one: `Retry` starts. -/
def PendingAction.requested : PendingAction → PendingAction
  | .start | .retry => .start
  | .resume => .resume

/-- The task events the event loop of the manager acts on. -/
inductive TaskEvent where
  | pause
  | complete
  | cancel
  | error
  | delete
  deriving DecidableEq, Repr

/-- The worker events the listener of a task acts on. -/
inductive WorkerEvent where
  | progress
  | pause
  | complete
  | cancel
  | error (err : Error)
  deriving DecidableEq, Repr

inductive StopKind where
  | pause
  | cancel
  | delete
  deriving DecidableEq, Repr

/-- The two tests over all workers of a task. -/
inductive WorkerCheck where
  | completed
  | canceledOrCompleted
  deriving DecidableEq, Repr

/-- Sections over the semaphore, the pending queue, the task map and the event channel. -/
inductive ManagerSection where
  | acquire (action : PendingAction)
  | enqueue (action : PendingAction)
  | lookup
  | storePermit
  | dropPermit
  | clearSlot
  | releasePermit
  | releaseTaskPermit
  | popNext
  | removeFromQueue
  | persistTask
  | persistHttpSession
  | removeTask
  | emit (event : TaskEvent)
  deriving DecidableEq, Repr

/-- Sections over one task: its status, its torrent session and its workers. -/
inductive TaskSection where
  | prepareForStart
  | setStatus (status : Status)
  | io
  | ioOrFail
  | sessionIo
  | prepareDownload
  | setTorrentSession
  | clearManifestState
  | markEngineRunning
  | listenToEngine
  | resumeGate
  | pauseGate
  | cancelGate
  | snapshotWorkers
  | stopEach (kind : StopKind)
  | stopWorker (kind : StopKind) (worker : Nat)
  | emitStop (kind : StopKind) (worker : Nat)
  | clearTaskWorkers
  | ensureWorkers
  | createWorkers
  | installWorkers
  | spawnWorkers
  | persistWorkerLater
  | persistWorker
  | unlessFailed
  | checkEach (check : WorkerCheck)
  | finalizeDownload
  deriving DecidableEq, Repr

/-- Sections of `Worker::start`, over the flags and the status of one worker. -/
inductive WorkerSection where
  | claimRun
  | readStatus
  | unpause
  | setStatus (status : Status)
  | checkLength
  | stopGate
  | waitGate
  | buildRequest
  | send
  | nextChunk
  | nextSlice
  | write
  | report
  | validateLength
  | emit (event : WorkerEvent)
  | endRun
  deriving DecidableEq, Repr

inductive Section where
  | manager (s : ManagerSection)
  | task (s : TaskSection)
  | worker (s : WorkerSection)
  deriving DecidableEq, Repr

/-- What a call still has to execute: its code, cut where another call can come in between, at locks,
channels and I/O. Events that their receiver ignores are left out. -/
abbrev Code := List Section

def inManager (sections : List ManagerSection) : Code := sections.map .manager

def inTask (sections : List TaskSection) : Code := sections.map .task

def inWorker (sections : List WorkerSection) : Code := sections.map .worker

/-- `finish_job`. -/
def finishJobCode : Except Error Unit → Code
  | .ok () => inTask [.io, .setStatus .completed, .io, .io] ++ inManager [.emit .complete]
  | .error err => inTask [.setStatus (.failed err), .io, .io] ++ inManager [.emit .error]

def resetTaskCode : Code := inTask [.clearTaskWorkers, .io, .clearManifestState, .io]

/-- `Task::start`; what follows the preparation depends on its outcome. -/
def startCode : Code := inTask [.prepareForStart, .setStatus .preparing, .io, .prepareDownload]

/-- The part of `reset_resume_state` that touches the workers. -/
def discardCode (discard : Bool) : Code :=
  if discard then inTask [.clearTaskWorkers, .io] else []

def readyCode : Code := inTask [.setStatus .running, .io, .ensureWorkers]

def engineCode : Code := inTask [.setTorrentSession, .io, .markEngineRunning]

def stopCode (kind : StopKind) (event : TaskEvent) : Code :=
  inTask [.sessionIo, .snapshotWorkers, .stopEach kind, .io] ++ inManager [.emit event]

/-- `Task::delete`. -/
def deleteCode : Code :=
  inTask [.sessionIo, .snapshotWorkers, .stopEach .delete, .ioOrFail, .ioOrFail, .ioOrFail, .ioOrFail] ++
    inManager [.releasePermit] ++
    inTask [.clearTaskWorkers, .clearManifestState, .setStatus .deleted] ++ inManager [.emit .delete]

def deleteFailedCode (err : Error) : Code :=
  inManager [.releasePermit] ++ inTask [.setStatus (.failed err)] ++ inManager [.emit .error]

/-- `stop_workers_and_fail`, with the `fail_with_error` at its end. -/
def stopWorkersAndFailCode (err : Error) : Code :=
  inTask [.setStatus (.failed err), .snapshotWorkers, .stopEach .cancel, .setStatus (.failed err)] ++
    inManager [.emit .error]

/-- `start_task` and `resume_task`; `Retry` starts. -/
def transitionCode (action : PendingAction) : Code :=
  inManager [.acquire action, .lookup] ++
    match action with
    | .start | .retry => startCode
    | .resume => inTask [.resumeGate]

/-- `handle_task_event`. -/
def handlerCode : TaskEvent → Code
  | .delete => inManager [.persistHttpSession, .removeFromQueue, .popNext]
  | _ => inManager [.persistTask, .persistHttpSession, .removeFromQueue, .releaseTaskPermit, .popNext]

/-- `handle_worker_event`. -/
def listenerCode : WorkerEvent → Code
  | .progress | .pause => inTask [.persistWorkerLater]
  | .complete => inTask [.persistWorkerLater, .snapshotWorkers, .checkEach .completed]
  | .error err => inTask [.persistWorkerLater] ++ stopWorkersAndFailCode err
  | .cancel =>
    inTask [.persistWorkerLater, .unlessFailed, .snapshotWorkers, .checkEach .canceledOrCompleted]

def checkedCode : WorkerCheck → Code
  | .completed => inTask [.finalizeDownload]
  | .canceledOrCompleted => inTask [.setStatus .canceled] ++ inManager [.emit .cancel]

inductive EngineEvent where
  | finished
  | paused
  | failed (err : Error)
  deriving DecidableEq, Repr

/-- `handle_torrent_engine_event`, for the events that touch the status. -/
def engineEventCode : EngineEvent → Code
  | .finished => finishJobCode (.ok ()) ++ inManager [.releasePermit]
  | .paused => inTask [.setStatus .paused] ++ inManager [.emit .pause]
  | .failed err => finishJobCode (.error err) ++ inManager [.releasePermit]

/-- `Worker::start`. -/
def workerCode : Code := inWorker [.claimRun, .readStatus]

/-- One turn of the request loop. -/
def attemptCode : Code := inWorker [.stopGate, .waitGate, .buildRequest, .send]

def finishSuccessCode : Code := inWorker [.setStatus .completed, .emit .complete, .endRun]

def markFailedCode (err : Error) : Code :=
  inWorker [.setStatus (.failed err), .emit (.error err), .endRun]

/-- What a call does after its operation on the task. -/
inductive Frame where
  | plain
  | transition
  | finalize
  deriving DecidableEq, Repr

def Frame.onOk : Frame → Code
  | .transition => inManager [.storePermit]
  | _ => []

def Frame.onErr : Frame → Code
  | .plain => []
  | .transition => inManager [.dropPermit, .clearSlot, .popNext]
  | .finalize => inManager [.emit .error]

end Paradown
