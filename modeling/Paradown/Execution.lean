import Paradown.Sections
import Mathlib.Data.List.Basic

namespace Paradown
set_option autoImplicit true

/-- The shared part of a worker: its flags and its status. -/
structure WorkerState where
  lane : Nat
  status : Status := .pending
  paused : Bool := false
  canceled : Bool := false
  deleted : Bool := false
  isRunning : Bool := false
  deriving DecidableEq, Repr

def WorkerState.shouldStopGracefully (w : WorkerState) : Bool := w.deleted || w.canceled

/-- A task as the concurrent calls see it. `arena` holds every worker that was ever created for it,
`workers` the current list, `batches` counts the spawned worker groups. -/
structure TaskState where
  status : Status
  permit : Bool := false
  registered : Bool := true
  torrentSession : Bool := false
  engine : Bool := false
  arena : List WorkerState := []
  workers : List Nat := []
  channel : List (Nat × WorkerEvent) := []
  batches : Nat := 0
  joined : List Nat := []
  deriving DecidableEq, Repr

def TaskState.modifyWorker (t : TaskState) (worker : Nat) (f : WorkerState → WorkerState) :
    TaskState :=
  { t with arena := t.arena.modify worker f }

inductive Owner where
  | call
  | eventLoop
  | listener
  | engine
  | detached
  | joiner
  | worker
  deriving DecidableEq, Repr

/-- A call in progress. `snapshot` is its local copy of the worker list; `sources` are the workers
whose message it handles; the last three fields belong to the run of a worker. -/
structure Thread where
  owner : Owner
  task : Nat
  code : Code
  frame : Frame := .plain
  permit : Bool := false
  snapshot : List Nat := []
  sources : List Nat := []
  worker : Nat := 0
  batch : Nat := 0
  result : Option Error := none
  deriving DecidableEq, Repr

/-- What the environment decides for a section: I/O results, probe outcomes, the arriving data. -/
inductive Choice where
  | ok
  | fail (err : Error)
  | retry
  | more
  | ready (discard : Bool)
  | finish (discard : Bool) (outcome : Except Error Unit)
  | engine
  | create (count : Nat)
  deriving DecidableEq, Repr

/-- What a section reads and writes: the shared state of the manager, the task of the call and the
call itself, whose code is what is left after the section. -/
structure Context where
  available : Nat
  queue : List (Nat × PendingAction)
  events : List (TaskEvent × Nat)
  task : Option TaskState
  thread : Thread
  spawned : List Thread := []

def Context.goto (x : Context) (code : Code) : Context :=
  { x with thread := { x.thread with code } }

/-- Return to nobody. -/
def Context.halt (x : Context) : Context :=
  { x with thread := { x.thread with code := [], frame := .plain } }

/-- Return an error to the caller. -/
def Context.fail (x : Context) : Context :=
  { x with thread := { x.thread with code := x.thread.frame.onErr, frame := .plain } }

/-- Drop the permit that the call holds. -/
def Context.dropPermit (x : Context) : Context :=
  { x with
    available := x.available + x.thread.permit.toNat
    thread := { x.thread with permit := false } }

/-- Drop the permit that is stored in the task. -/
def Context.clearSlot (x : Context) (t : TaskState) : Context :=
  { x with available := x.available + t.permit.toNat, task := some { t with permit := false } }

def Context.setTask (x : Context) (t : TaskState) : Context := { x with task := some t }

def Context.isRegistered (x : Context) : Bool :=
  match x.task with
  | some t => t.registered
  | none => false

/-- `remove_from_queue`: only the first entry of the task goes. -/
def removeFromQueue (id : Nat) (queue : List (Nat × PendingAction)) : List (Nat × PendingAction) :=
  queue.eraseP (·.1 == id)

/-- `enqueue_task_action`. -/
def enqueueTaskAction (id : Nat) (action : PendingAction) (queue : List (Nat × PendingAction)) :
    List (Nat × PendingAction) :=
  if (id, action) ∈ queue then queue else queue ++ [(id, action)]

def execManager (c : Choice) (x : Context) : ManagerSection → Option Context
  | .acquire action =>
    if x.available = 0 then
      some { x with thread := { x.thread with code := inManager [.enqueue action], frame := .plain } }
    else some { x with available := x.available - 1, thread := { x.thread with permit := true } }
  | .enqueue action => some { x with queue := enqueueTaskAction x.thread.task action x.queue }
  | .lookup => if x.isRegistered then some x else some x.dropPermit.halt
  | .storePermit =>
    match x.task with
    | none => none
    | some t =>
      some { x.clearSlot t with
        task := some { t with permit := true }, thread := { x.thread with permit := false } }
  | .dropPermit => some x.dropPermit
  | .clearSlot | .releasePermit =>
    match x.task with
    | none => none
    | some t => some (x.clearSlot t)
  | .releaseTaskPermit =>
    match x.task with
    | none => some x
    | some t => if t.registered then some (x.clearSlot t) else some x
  | .popNext =>
    match x.queue with
    | [] => some x.halt
    | (id, action) :: queue =>
      some { x with
        queue
        thread := { x.thread with
          task := id, code := transitionCode action.requested, frame := .transition } }
  | .removeFromQueue => some { x with queue := removeFromQueue x.thread.task x.queue }
  | .persistTask => if x.isRegistered && c == .ok then some x else some x.halt
  | .persistHttpSession => if c == .ok then some x else some x.halt
  | .removeTask =>
    match x.task with
    | none => none
    | some t => some (x.setTask { t with registered := false })
  | .emit event => some { x with events := x.events ++ [(event, x.thread.task)] }

/-- The status under which a worker counts for a check. -/
def WorkerCheck.passes (check : WorkerCheck) (status : Status) : Bool :=
  match check, status with
  | _, .completed => true
  | .canceledOrCompleted, .canceled => true
  | _, _ => false

/-- The flag that stops a worker is set before its status. -/
def WorkerState.raise (kind : StopKind) (w : WorkerState) : WorkerState :=
  match kind with
  | .pause => { w with paused := true }
  | .cancel => { w with canceled := true }
  | .delete => { w with deleted := true }

/-- The status part of `Worker::pause`, `cancel` and `delete`, and whether an event follows. -/
def WorkerState.stop (kind : StopKind) (w : WorkerState) : WorkerState × Bool :=
  match kind with
  | .pause =>
    match w.status with
    | .canceled | .failed _ | .completed | .deleted | .paused => (w, false)
    | _ => ({ w with status := .paused }, true)
  | .cancel => ({ w with status := .canceled }, true)
  | .delete => ({ w with status := .deleted }, false)

def StopKind.event : StopKind → WorkerEvent
  | .pause => .pause
  | _ => .cancel

/-- What follows `prepare_download`, for each of its outcomes. -/
def preparedCode : Choice → Option Code
  | .ready discard => some (discardCode discard ++ readyCode)
  | .finish discard outcome => some (discardCode discard ++ finishJobCode outcome)
  | .engine => some engineCode
  | _ => none

/-- `resume` of a paused task: a torrent session goes on, anything else is prepared again. -/
def resumePaused (x : Context) (t : TaskState) : Context :=
  if t.torrentSession then
    (x.setTask { t with status := .running }).goto (inTask [.io, .io])
  else (x.setTask { t with status := .pending }).goto (inTask [.io] ++ startCode)

def execTask (c : Choice) (x : Context) (t : TaskState) : TaskSection → Option Context
  | .prepareForStart =>
    match t.status with
    | .pending | .paused => some x
    | .canceled | .failed _ => some (x.goto (resetTaskCode ++ x.thread.code))
    | _ => some x.fail
  | .setStatus status => some (x.setTask { t with status })
  | .io => if c == .ok then some x else some x.fail
  | .ioOrFail =>
    match c with
    | .fail err =>
      some { x with thread := { x.thread with code := deleteFailedCode err, frame := .plain } }
    | _ => some x
  | .sessionIo => if t.torrentSession && c != .ok then some x.fail else some x
  | .prepareDownload =>
    match preparedCode c with
    | some code => some (x.goto code)
    | none => some x.fail
  | .setTorrentSession => some (x.setTask { t with torrentSession := true })
  | .clearManifestState => some (x.setTask { t with torrentSession := false })
  | .markEngineRunning =>
    if t.status.isTerminal then some (x.goto (inTask [.listenToEngine]))
    else some ((x.setTask { t with status := .running }).goto (inTask [.io, .listenToEngine]))
  | .listenToEngine => some (x.setTask { t with engine := true })
  | .resumeGate =>
    match t.status with
    | .pending | .running => some (x.goto startCode)
    | .paused => some (resumePaused x t)
    | _ => some x.fail
  | .pauseGate =>
    match t.status with
    | .running | .preparing =>
      some ((x.setTask { t with status := .paused }).goto (stopCode .pause .pause))
    | .paused => some x
    | _ => some x.fail
  | .cancelGate =>
    match t.status with
    | .pending | .preparing | .running | .paused =>
      some ((x.setTask { t with status := .canceled }).goto (stopCode .cancel .cancel))
    | _ => some x.fail
  | .snapshotWorkers => some { x with thread := { x.thread with snapshot := t.workers } }
  | .stopEach kind =>
    match x.thread.snapshot with
    | [] => some x
    | w :: rest =>
      some { x with
        task := some (t.modifyWorker w (·.raise kind))
        thread := { x.thread with
          snapshot := rest
          code := inTask [.stopWorker kind w, .stopEach kind] ++ x.thread.code } }
  | .stopWorker kind w =>
    match t.arena[w]? with
    | none => some x
    | some state =>
      let (state, emits) := state.stop kind
      some ((x.setTask (t.modifyWorker w fun _ => state)).goto
        ((if emits then inTask [.emitStop kind w] else []) ++ x.thread.code))
  | .emitStop kind w => some (x.setTask { t with channel := t.channel ++ [(w, kind.event)] })
  | .clearTaskWorkers => some (x.setTask { t with workers := [] })
  | .ensureWorkers =>
    match c with
    | .create _ =>
      some (x.goto (inTask [.clearTaskWorkers, .io, .createWorkers, .installWorkers, .spawnWorkers]))
    | _ =>
      if t.workers = [] then none
      else
        some { x with
          thread := { x.thread with code := inTask [.spawnWorkers], snapshot := t.workers } }
  | .createWorkers =>
    match c with
    | .create count =>
      some { x with
        task := some { t with
          arena := t.arena ++ (List.range count).map fun lane => ({ lane } : WorkerState) }
        thread := { x.thread with snapshot := (List.range count).map (t.arena.length + ·) } }
    | _ => some x.fail
  | .installWorkers =>
    if t.workers = [] then some (x.setTask { t with workers := x.thread.snapshot })
    else some { x with thread := { x.thread with snapshot := t.workers } }
  | .spawnWorkers =>
    some { x with
      task := some { t with batches := t.batches + 1 }
      spawned := x.thread.snapshot.map fun w =>
        { owner := .worker, task := x.thread.task, code := workerCode, worker := w
          batch := t.batches } }
  | .persistWorkerLater =>
    some { x with
      spawned := [{ owner := .detached, task := x.thread.task, code := inTask [.persistWorker]
                    sources := x.thread.sources, worker := x.thread.worker }] }
  | .persistWorker =>
    match c with
    | .fail err =>
      let lane := (t.arena[x.thread.worker]?).map (·.lane)
      if t.workers.any fun w => (t.arena[w]?).map (·.lane) == lane then
        some (x.goto (stopWorkersAndFailCode err))
      else some x
    | _ => some x
  | .unlessFailed =>
    match t.status with
    | .failed _ => some x.halt
    | _ => some x
  | .checkEach check =>
    match x.thread.snapshot with
    | [] => some (x.goto (checkedCode check))
    | w :: rest =>
      if ((t.arena[w]?).map fun s => check.passes s.status) == some true then
        some { x with
          thread := { x.thread with
            snapshot := rest, code := inTask [.checkEach check] ++ x.thread.code } }
      else some x.halt
  | .finalizeDownload =>
    let outcome := match c with
      | .fail err => .error err
      | _ => .ok ()
    some { x with thread := { x.thread with code := finishJobCode outcome, frame := .finalize } }

/-- The states in which `cancel` is accepted. -/
def Status.mayCancel : Status → Bool
  | .pending | .preparing | .running | .paused => true
  | _ => false

theorem execTask_cancelGate {x y : Context} (hm : t.status.mayCancel = true)
    (h : execTask c x t .cancelGate = some y) : y.thread.code = stopCode .cancel .cancel := by
  simp only [execTask] at h
  split at h
  case h_5 => cases hs : t.status <;> simp_all [Status.mayCancel]
  all_goals
    cases h
    rfl

/-- A worker run that ends with an error. -/
def Context.failRun (x : Context) (err : Error) : Context :=
  { x with thread := { x.thread with code := markFailedCode err, result := some err } }

/-- `retry_or_fail`. -/
def Context.retryOrFail (x : Context) : Choice → Context
  | .fail err => x.failRun err
  | _ => x.goto attemptCode

def execWorker (c : Choice) (x : Context) (t : TaskState) (w : WorkerState) :
    WorkerSection → Option Context
  | .claimRun =>
    if w.isRunning then some x.halt
    else some (x.setTask (t.modifyWorker x.thread.worker fun w => { w with isRunning := true }))
  | .readStatus =>
    match w.status with
    | .paused => some (x.goto (inWorker [.unpause, .setStatus .running, .checkLength]))
    | .canceled | .deleted =>
      some (x.failRun (.other ("Task cannot start, status: " ++ w.status.toText)))
    | .completed => some (x.goto (inWorker [.endRun]))
    | _ => some (x.goto (inWorker [.setStatus .running, .checkLength]))
  | .unpause =>
    some (x.setTask (t.modifyWorker x.thread.worker fun w => { w with paused := false }))
  | .setStatus status =>
    some (x.setTask (t.modifyWorker x.thread.worker fun w => { w with status }))
  | .checkLength => if c == .ok then some (x.goto finishSuccessCode) else some (x.goto attemptCode)
  | .stopGate => if w.shouldStopGracefully then some (x.goto (inWorker [.endRun])) else some x
  | .waitGate =>
    if !w.paused then some x
    else if w.shouldStopGracefully then some (x.goto (inWorker [.endRun]))
    else none
  | .buildRequest => if c == .ok then some x else some (x.retryOrFail c)
  | .send => if c == .ok then some (x.goto (inWorker [.nextChunk])) else some (x.retryOrFail c)
  | .nextChunk =>
    match c with
    | .more => some (x.goto (inWorker [.stopGate, .waitGate, .nextSlice]))
    | .ok => some (x.goto (inWorker [.stopGate, .emit .progress, .validateLength]))
    | _ => some (x.retryOrFail c)
  | .nextSlice =>
    match c with
    | .more => some (x.goto (inWorker [.stopGate, .waitGate, .write, .report, .nextSlice]))
    | _ => some (x.goto (inWorker [.nextChunk]))
  | .write => if c == .ok then some x else some (x.retryOrFail c)
  | .report =>
    if c == .more then
      some (x.setTask { t with channel := t.channel ++ [(x.thread.worker, .progress)] })
    else some x
  | .validateLength =>
    match c with
    | .fail err => some (x.failRun err)
    | _ => some (x.goto finishSuccessCode)
  | .emit event => some (x.setTask { t with channel := t.channel ++ [(x.thread.worker, event)] })
  | .endRun => some (x.setTask (t.modifyWorker x.thread.worker fun w => { w with isRunning := false }))

def exec (c : Choice) (x : Context) : Section → Option Context
  | .manager s => execManager c x s
  | .task s =>
    match x.task with
    | none => none
    | some t => execTask c x t s
  | .worker s =>
    match x.task with
    | none => none
    | some t =>
      match t.arena[x.thread.worker]? with
      | none => none
      | some w => execWorker c x t w s

end Paradown
