import Paradown.Execution
import Paradown.Transition

namespace Paradown
set_option autoImplicit true

/-- The manager with its tasks and all calls in progress. A task is known by its position. -/
structure World where
  available : Nat
  queue : List (Nat × PendingAction) := []
  events : List (TaskEvent × Nat) := []
  tasks : List TaskState := []
  threads : List Thread := []
  deriving DecidableEq, Repr

/-- A manager with `permits` concurrent tasks, before the first task is added. -/
def World.new (permits : Nat) : World := { available := permits }

inductive Call where
  | startTask
  | resumeTask
  | pauseTask
  | cancelTask
  | deleteTask
  | sessionPause
  | sessionResume
  | sessionCancel
  deriving DecidableEq, Repr

/-- The calls on a `Session`, which needs a handle to an existing task. -/
def Call.onSession : Call → Bool
  | .sessionPause | .sessionResume | .sessionCancel => true
  | _ => false

def Call.code : Call → Code
  | .startTask => transitionCode .start
  | .resumeTask => transitionCode .resume
  | .pauseTask => inManager [.lookup] ++ inTask [.pauseGate]
  | .cancelTask => inManager [.lookup] ++ inTask [.cancelGate]
  | .deleteTask => inManager [.lookup] ++ deleteCode ++ inManager [.removeTask]
  | .sessionPause => inTask [.pauseGate]
  | .sessionResume => inTask [.resumeGate]
  | .sessionCancel => inTask [.cancelGate]

def Call.frame : Call → Frame
  | .startTask | .resumeTask => .transition
  | _ => .plain

/-- What can happen next: a task is added, somebody calls, a message is delivered or lost, or a
call in progress executes its next section. -/
inductive Act where
  | addTask (status : Status)
  | call (call : Call) (id : Nat)
  | deliver
  | lag
  | listen (id : Nat)
  | listenerLag (id : Nat)
  | engineEvent (id : Nat) (event : EngineEvent)
  | join (id batch : Nat)
  | step (thread : Nat) (choice : Choice)
  deriving DecidableEq, Repr

/-- The next `n` sections of a call, with nothing going wrong. -/
def proceed (thread n : Nat) : List Act := List.replicate n (.step thread .ok)

def Thread.inProgress (t : Thread) : Bool := !t.code.isEmpty

/-- When its operation is over, a call goes on with what its caller does on success. -/
def Thread.settle (t : Thread) : Thread :=
  if t.code.isEmpty then { t with code := t.frame.onOk, frame := .plain } else t

/-- What the next section of a call sees. -/
def World.context (w : World) (t : Thread) (rest : Code) : Context where
  available := w.available
  queue := w.queue
  events := w.events
  task := w.tasks[t.task]?
  thread := { t with code := rest }

/-- The effect of a section of call `index` on task `id`. -/
def World.commit (w : World) (index id : Nat) (x : Context) : World where
  available := x.available
  queue := x.queue
  events := x.events
  tasks := match x.task with
    | some t => w.tasks.set id t
    | none => w.tasks
  threads := w.threads.set index x.thread.settle ++ x.spawned

def World.spawn (w : World) (t : Thread) : World := { w with threads := w.threads ++ [t] }

def World.setTask (w : World) (id : Nat) (t : TaskState) : World :=
  { w with tasks := w.tasks.set id t }

/-- The event loop handles one event at a time. -/
def World.loopBusy (w : World) : Bool := w.threads.any fun t => t.owner == .eventLoop && t.inProgress

def World.listenerBusy (w : World) (id : Nat) : Bool :=
  w.threads.any fun t => t.owner == .listener && t.task == id && t.inProgress

/-- The worker runs that one `spawn_workers` started. -/
def World.batch (w : World) (id batch : Nat) : List Thread :=
  w.threads.filter fun t => t.owner == .worker && t.task == id && t.batch == batch

def Call.toThread (call : Call) (id : Nat) : Thread :=
  { owner := .call, task := id, code := call.code, frame := call.frame }

def handlerThread (event : TaskEvent) (id : Nat) : Thread :=
  { owner := .eventLoop, task := id, code := handlerCode event }

def listenerThread (event : WorkerEvent) (id worker : Nat) : Thread :=
  { owner := .listener, task := id, code := listenerCode event, sources := [worker], worker }

def engineThread (event : EngineEvent) (id : Nat) : Thread :=
  { owner := .engine, task := id, code := engineEventCode event }

/-- `handle_worker_join_results` for the runs of one batch. -/
def joinerThread (id : Nat) (runs : List Thread) : Thread :=
  { owner := .joiner, task := id
    code := (runs.filterMap (·.result)).flatMap stopWorkersAndFailCode
    sources := runs.map (·.worker) }

/-- The call with its next section and the rest of its code. -/
def World.next (w : World) (index : Nat) : Option (Thread × Section × Code) :=
  match w.threads[index]? with
  | none => none
  | some t =>
    match t.code with
    | [] => none
    | s :: rest => some (t, s, rest)

def World.stepThread (w : World) (index : Nat) (c : Choice) : Option World :=
  match w.threads[index]? with
  | none => none
  | some t =>
    match t.code with
    | [] => none
    | s :: rest => (exec c (w.context t rest) s).map (w.commit index t.task)

def World.step (w : World) : Act → Option World
  | .addTask status =>
    if status.isActive then none else some { w with tasks := w.tasks ++ [{ status }] }
  | .call call id =>
    if call.onSession && decide (w.tasks.length ≤ id) then none else some (w.spawn (call.toThread id))
  | .deliver =>
    match w.events with
    | [] => none
    | (event, id) :: events =>
      if w.loopBusy then none else some ({ w with events }.spawn (handlerThread event id))
  | .lag =>
    match w.events with
    | [] => none
    | _ :: events => some { w with events }
  | .listen id =>
    match w.tasks[id]? with
    | none => none
    | some t =>
      match t.channel with
      | [] => none
      | (worker, event) :: channel =>
        if w.listenerBusy id then none
        else some ((w.setTask id { t with channel }).spawn (listenerThread event id worker))
  | .listenerLag id =>
    match w.tasks[id]? with
    | none => none
    | some t =>
      match t.channel with
      | [] => none
      | _ :: channel => some (w.setTask id { t with channel })
  | .engineEvent id event =>
    match w.tasks[id]? with
    | none => none
    | some t => if t.engine then some (w.spawn (engineThread event id)) else none
  | .join id batch =>
    match w.tasks[id]? with
    | none => none
    | some t =>
      if batch < t.batches ∧ batch ∉ t.joined ∧ ∀ r ∈ w.batch id batch, r.inProgress = false then
        some ((w.setTask id { t with joined := batch :: t.joined }).spawn
          (joinerThread id (w.batch id batch)))
      else none
  | .step index c => w.stepThread index c

theorem World.stepThread_some {w w' : World} (h : w.stepThread index c = some w') :
    ∃ t s rest x, w.threads[index]? = some t ∧ t.code = s :: rest ∧
      exec c (w.context t rest) s = some x ∧ w' = w.commit index t.task x := by
  unfold World.stepThread at h
  split at h
  · cases h
  · rename_i t ht
    split at h
    · cases h
    · rename_i s rest hc
      obtain ⟨x, hx, rfl⟩ := Option.map_eq_some_iff.1 h
      exact ⟨t, s, rest, x, ht, hc, hx, rfl⟩

theorem World.next_eq {w : World} (hi : w.threads[i]? = some t) (hc : t.code = s :: rest) :
    w.next i = some (t, s, rest) := by
  simp only [World.next, hi, hc]

theorem World.next_some {w : World} (h : w.next i = some (t, s, rest)) :
    w.threads[i]? = some t ∧ t.code = s :: rest := by
  unfold World.next at h
  split at h
  · cases h
  · rename_i hi
    split at h <;> cases h
    exact ⟨hi, ‹_›⟩

theorem World.commit_task {w : World} {id : Nat}
    (h : x.task.isSome = (w.tasks[id]?).isSome) :
    (w.commit i id x).tasks[id]? = x.task := by
  unfold World.commit
  cases hx : x.task with
  | none =>
    rw [hx, Option.isSome_none, eq_comm, Option.isSome_eq_false_iff, Option.isNone_iff_eq_none] at h
    exact h
  | some t =>
    rw [hx, Option.isSome_some, eq_comm, isSome_getElem?] at h
    simp only [List.getElem?_set_self h]

theorem World.commit_task_ne {w : World} {id : Nat} (h : j ≠ id) :
    (w.commit i id x).tasks[j]? = w.tasks[j]? := by
  unfold World.commit
  cases x.task with
  | none => rfl
  | some t => exact List.getElem?_set_ne (Ne.symm h)

theorem World.commit_thread {w : World} {id : Nat} (hi : w.threads[i]? = some t) :
    (w.commit i id x).threads[i]? = some x.thread.settle := by
  have hlt : i < w.threads.length := (List.getElem?_eq_some_iff.1 hi).1
  simp only [World.commit]
  rw [List.getElem?_append_left (by simpa using hlt), List.getElem?_set_self hlt]

theorem World.commit_thread_ne {w : World} {id : Nat} (h : j ≠ i) (hj : w.threads[j]? = some r) :
    (w.commit i id x).threads[j]? = some r := by
  have hlt : j < w.threads.length := (List.getElem?_eq_some_iff.1 hj).1
  simp only [World.commit]
  rw [List.getElem?_append_left (by simpa using hlt), List.getElem?_set_ne (Ne.symm h), hj]

theorem World.mem_commit {w : World} {id : Nat} (h : r ∈ (w.commit i id x).threads) :
    (∃ j, j ≠ i ∧ w.threads[j]? = some r) ∨ r = x.thread.settle ∨ r ∈ x.spawned := by
  rcases List.mem_append.1 h with h | h
  · obtain ⟨j, hj⟩ := List.mem_iff_getElem?.1 h
    by_cases hji : j = i
    · subst j
      rw [List.getElem?_set] at hj
      split at hj
      · split at hj <;> cases hj
        exact .inr (.inl rfl)
      · contradiction
    · rw [List.getElem?_set_ne (Ne.symm hji)] at hj
      exact .inl ⟨j, hji, hj⟩
  · exact .inr (.inr h)

theorem World.getElem_commit {w : World} {id : Nat}
    (h : (w.commit i id x).threads[j]? = some r) :
    (j ≠ i ∧ w.threads[j]? = some r) ∨ (j = i ∧ r = x.thread.settle) ∨ r ∈ x.spawned := by
  simp only [World.commit, List.getElem?_append, List.length_set] at h
  split at h
  · by_cases hji : j = i
    · subst j
      rw [List.getElem?_set_self ‹_›] at h
      exact .inr (.inl ⟨rfl, (Option.some.inj h).symm⟩)
    · rw [List.getElem?_set_ne (Ne.symm hji)] at h
      exact .inl ⟨hji, h⟩
  · exact .inr (.inr (List.mem_of_getElem? h))

/-- The two states of a task agree, up to its channel and the joined groups. -/
structure TaskState.SameView (t t' : TaskState) : Prop where
  status : t'.status = t.status
  permit : t'.permit = t.permit
  registered : t'.registered = t.registered
  arena : t'.arena = t.arena
  workers : t'.workers = t.workers

theorem TaskState.SameView.refl (t : TaskState) : t.SameView t := ⟨rfl, rfl, rfl, rfl, rfl⟩

/-- What an action other than a section leaves alone. -/
structure World.Extends (w w' : World) : Prop where
  available : w'.available = w.available
  queue : w'.queue = w.queue
  threads : ∃ new, w'.threads = w.threads ++ new
  forth : ∀ (id : Nat) (t : TaskState), w.tasks[id]? = some t →
    ∃ t', w'.tasks[id]? = some t' ∧ t.SameView t'
  back : ∀ (id : Nat) (t' : TaskState), w'.tasks[id]? = some t' →
    (∃ t, w.tasks[id]? = some t ∧ t.SameView t') ∨ t'.status.isActive = false ∧ t'.permit = false

theorem World.Extends.refl (w : World) : w.Extends w where
  available := rfl
  queue := rfl
  threads := ⟨[], by simp⟩
  forth := fun _ t h => ⟨t, h, .refl t⟩
  back := fun _ t h => .inl ⟨t, h, .refl t⟩

theorem World.Extends.spawn {w w' : World} (h : w.Extends w') (t : Thread) :
    w.Extends (w'.spawn t) where
  available := h.available
  queue := h.queue
  threads := by
    obtain ⟨new, hn⟩ := h.threads
    exact ⟨new ++ [t], by simp [World.spawn, hn]⟩
  forth := h.forth
  back := h.back

theorem World.Extends.setTask {w : World} {i : Nat} (ht : w.tasks[i]? = some t)
    (hv : t.SameView t') : w.Extends (w.setTask i t') where
  available := rfl
  queue := rfl
  threads := ⟨[], by simp [World.setTask]⟩
  forth := fun j t₁ h₁ => by
    have hlt : i < w.tasks.length := (List.getElem?_eq_some_iff.1 ht).1
    by_cases hj : j = i
    · subst j
      cases ht.symm.trans h₁
      exact ⟨t', List.getElem?_set_self hlt, hv⟩
    · exact ⟨t₁, (List.getElem?_set_ne (Ne.symm hj)).trans h₁, .refl t₁⟩
  back := fun j t₁ h₁ => by
    have hlt : i < w.tasks.length := (List.getElem?_eq_some_iff.1 ht).1
    by_cases hj : j = i
    · subst j
      cases (List.getElem?_set_self hlt).symm.trans h₁
      exact .inl ⟨t, ht, hv⟩
    · exact .inl ⟨t₁, (List.getElem?_set_ne (Ne.symm hj)).symm.trans h₁, .refl t₁⟩

theorem World.step_external {w w' : World} (h : w.step a = some w')
    (ha : ∀ i c, a ≠ .step i c) : w.Extends w' := by
  cases a with
  | addTask status =>
    simp only [World.step] at h
    split at h <;> cases h
    rename_i hs
    refine ⟨rfl, rfl, ⟨[], by simp⟩, fun id t ht => ⟨t, ?_, .refl t⟩, fun id t ht => ?_⟩
    · have hlt : id < w.tasks.length := (List.getElem?_eq_some_iff.1 ht).1
      exact (List.getElem?_append_left hlt).trans ht
    · by_cases hlt : id < w.tasks.length
      · exact .inl ⟨t, (List.getElem?_append_left hlt).symm.trans ht, .refl t⟩
      · rw [List.getElem?_append_right (Nat.le_of_not_lt hlt)] at ht
        cases List.mem_singleton.1 (List.mem_of_getElem? ht)
        exact .inr ⟨by simpa using hs, rfl⟩
  | call call id =>
    simp only [World.step] at h
    split at h <;> cases h
    exact (World.Extends.refl w).spawn _
  | deliver =>
    simp only [World.step] at h
    split at h
    · cases h
    · split at h <;> cases h
      rename_i event id events _ _
      have he : w.Extends { w with events } :=
        ⟨rfl, rfl, ⟨[], by simp⟩, (World.Extends.refl w).forth, (World.Extends.refl w).back⟩
      exact he.spawn _
  | lag =>
    simp only [World.step] at h
    split at h <;> cases h
    exact ⟨rfl, rfl, ⟨[], by simp⟩, (World.Extends.refl w).forth, (World.Extends.refl w).back⟩
  | listen id =>
    simp only [World.step] at h
    split at h
    · cases h
    · rename_i t ht
      split at h
      · cases h
      · split at h <;> cases h
        refine World.Extends.spawn (World.Extends.setTask ht ?_) _
        exact ⟨rfl, rfl, rfl, rfl, rfl⟩
  | listenerLag id =>
    simp only [World.step] at h
    split at h
    · cases h
    · rename_i t ht
      split at h <;> cases h
      exact World.Extends.setTask ht ⟨rfl, rfl, rfl, rfl, rfl⟩
  | engineEvent id event =>
    simp only [World.step] at h
    split at h
    · cases h
    · split at h <;> cases h
      exact (World.Extends.refl w).spawn _
  | join id batch =>
    simp only [World.step] at h
    split at h
    · cases h
    · rename_i t ht
      split at h <;> cases h
      refine World.Extends.spawn (World.Extends.setTask ht ?_) _
      exact ⟨rfl, rfl, rfl, rfl, rfl⟩
  | step i c => exact absurd rfl (ha i c)

theorem World.step_events {w w' : World} (h : w.step a = some w') (ha : ∀ i c, a ≠ .step i c) :
    w'.events = w.events ∨
      (a = .lag ∧ ∃ e, w.events = e :: w'.events ∧ w'.threads = w.threads ∧ w'.tasks = w.tasks) ∨
      (a = .deliver ∧ ∃ event id, w.events = (event, id) :: w'.events ∧
        w'.threads = w.threads ++ [handlerThread event id] ∧ w'.tasks = w.tasks) := by
  cases a with
  | addTask status =>
    simp only [World.step] at h
    split at h <;> cases h
    exact .inl rfl
  | call call id =>
    simp only [World.step] at h
    split at h <;> cases h
    exact .inl rfl
  | deliver =>
    simp only [World.step] at h
    split at h
    · cases h
    · rename_i event id events he
      split at h <;> cases h
      exact .inr (.inr ⟨rfl, event, id, he, rfl, rfl⟩)
  | lag =>
    simp only [World.step] at h
    split at h
    · cases h
    · rename_i e events he
      cases h
      exact .inr (.inl ⟨rfl, e, he, rfl, rfl⟩)
  | listen id =>
    simp only [World.step] at h
    split at h
    · cases h
    · split at h
      · cases h
      · split at h <;> cases h
        exact .inl rfl
  | listenerLag id =>
    simp only [World.step] at h
    split at h
    · cases h
    · split at h <;> cases h
      exact .inl rfl
  | engineEvent id event =>
    simp only [World.step] at h
    split at h
    · cases h
    · split at h <;> cases h
      exact .inl rfl
  | join id batch =>
    simp only [World.step] at h
    split at h
    · cases h
    · split at h <;> cases h
      exact .inl rfl
  | step i c => exact absurd rfl (ha i c)

/-- The calls as they begin. -/
inductive Thread.Entry : Thread → Prop where
  | call (call : Call) (id : Nat) : Entry (call.toThread id)
  | handler (event : TaskEvent) (id : Nat) : Entry (handlerThread event id)
  | listener (event : WorkerEvent) (id worker : Nat) : Entry (listenerThread event id worker)
  | engine (event : EngineEvent) (id : Nat) : Entry (engineThread event id)
  | joiner (id : Nat) (runs : List Thread) : Entry (joinerThread id runs)

/-- The call that an action begins. -/
inductive World.Starts (w : World) : Act → Thread → Prop where
  | call (call : Call) (id : Nat) : Starts w (.call call id) (call.toThread id)
  | handler (event : TaskEvent) (id : Nat) (later : List (TaskEvent × Nat))
      (he : w.events = (event, id) :: later) : Starts w .deliver (handlerThread event id)
  | listener (event : WorkerEvent) (id worker : Nat) (t : TaskState) (ht : w.tasks[id]? = some t)
      (hc : t.channel.head? = some (worker, event)) :
    Starts w (.listen id) (listenerThread event id worker)
  | engine (event : EngineEvent) (id : Nat) : Starts w (.engineEvent id event) (engineThread event id)
  | joiner (id batch : Nat) : Starts w (.join id batch) (joinerThread id (w.batch id batch))

theorem World.Starts.entry {w : World} (h : w.Starts a t) : t.Entry := by
  cases h with
  | call call id => exact .call call id
  | handler event id => exact .handler event id
  | listener event id worker => exact .listener event id worker
  | engine event id => exact .engine event id
  | joiner id batch => exact .joiner id _

theorem World.step_starts {w w' : World} (h : w.step a = some w') (ha : ∀ i c, a ≠ .step i c) :
    w'.threads = w.threads ∨ ∃ t, w.Starts a t ∧ w'.threads = w.threads ++ [t] := by
  cases a with
  | addTask status =>
    simp only [World.step] at h
    split at h <;> cases h
    exact .inl rfl
  | call call id =>
    simp only [World.step] at h
    split at h <;> cases h
    exact .inr ⟨_, .call call id, rfl⟩
  | deliver =>
    simp only [World.step] at h
    split at h
    · cases h
    · split at h <;> cases h
      exact .inr ⟨_, .handler _ _ _ ‹_›, rfl⟩
  | lag =>
    simp only [World.step] at h
    split at h <;> cases h
    exact .inl rfl
  | listen id =>
    simp only [World.step] at h
    split at h
    · cases h
    · split at h
      · cases h
      · rename_i hc
        split at h <;> cases h
        exact .inr ⟨_, .listener _ _ _ _ ‹_› (by rw [hc, List.head?_cons]), rfl⟩
  | listenerLag id =>
    simp only [World.step] at h
    split at h
    · cases h
    · split at h <;> cases h
      exact .inl rfl
  | engineEvent id event =>
    simp only [World.step] at h
    split at h
    · cases h
    · split at h <;> cases h
      exact .inr ⟨_, .engine event id, rfl⟩
  | join id batch =>
    simp only [World.step] at h
    split at h
    · cases h
    · split at h <;> cases h
      exact .inr ⟨_, .joiner id batch, rfl⟩
  | step i c => exact absurd rfl (ha i c)

theorem World.step_entry {w w' : World} (h : w.step a = some w') (ha : ∀ i c, a ≠ .step i c) :
    w'.threads = w.threads ∨ ∃ t, t.Entry ∧ w'.threads = w.threads ++ [t] :=
  (World.step_starts h ha).imp_right fun ⟨t, ht, he⟩ => ⟨t, ht.entry, he⟩

/-- What holds of every call as it begins, and is kept by its sections, holds of every call. -/
theorem World.threads_step {P : Thread → Prop} (hb : ∀ t : Thread, t.Entry → P t)
    (hx : ∀ (w : World) (t : Thread) s rest c x, P t → t.code = s :: rest →
      exec c (w.context t rest) s = some x → P x.thread.settle ∧ ∀ r ∈ x.spawned, P r)
    {w w' : World} (h : ∀ t ∈ w.threads, P t) (hs : w.step a = some w') :
    ∀ t ∈ w'.threads, P t := by
  by_cases ha : ∃ i c, a = .step i c
  · obtain ⟨i, c, rfl⟩ := ha
    obtain ⟨t, s, rest, x, hi, hc, he, rfl⟩ := World.stepThread_some hs
    obtain ⟨h1, h2⟩ := hx w t s rest c x (h t (List.mem_of_getElem? hi)) hc he
    intro r hr
    rcases World.mem_commit hr with ⟨j, _, hj⟩ | rfl | hr
    · exact h r (List.mem_of_getElem? hj)
    · exact h1
    · exact h2 r hr
  · rcases World.step_entry hs fun i c he => ha ⟨i, c, he⟩ with he | ⟨t, ht, he⟩
    · rwa [he]
    · intro r hr
      rw [he] at hr
      rcases List.mem_append.1 hr with hr | hr
      · exact h r hr
      · cases List.mem_singleton.1 hr
        exact hb t ht

/-- Nothing is in progress except transfers, and no task event waits for delivery. -/
def World.Quiescent (w : World) : Prop :=
  w.events = [] ∧ ∀ t ∈ w.threads, t.owner ≠ .worker → t.code = []

instance (w : World) : Decidable w.Quiescent := inferInstanceAs (Decidable (_ ∧ _))

end Paradown
