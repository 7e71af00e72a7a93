import Mathlib.Data.List.AList
import Paradown.Registry
import Paradown.Transition

namespace Paradown
set_option autoImplicit true

/-- A task in the map of the manager, and the call that has created it. -/
structure Registered where
  owner : Nat
  task : Task

abbrev TaskMap := AList fun _ : Nat => Registered

/-- The map is split into shards, which are locked one after the other. -/
structure Sharding where
  count : Nat
  shard : Nat → Nat
  shard_lt : ∀ id, shard id < count

/-- Where a call of `add_task_with_workers` stands: it looks for its specification shard by shard, it
looks for a free id, it builds and initializes the task, it inserts it, or it has returned. -/
inductive AddStage where
  | scanning (shard : Nat)
  | counting
  | probing (id : Nat)
  | creating (id : Nat)
  | persistingTask (task : Task)
  | persistingChecksums (task : Task)
  | inserting (task : Task)
  | returned (result : Except Error Nat)

structure AddCall where
  request : TaskRequest
  workers : Option (List SegmentRequest)
  stage : AddStage := .scanning 0

def AddCall.key (call : AddCall) : String := call.request.spec.identityKey

/-- The manager as the registration of tasks sees it. -/
structure Registrar where
  config : Config
  tasks : TaskMap := ∅
  calls : List AddCall := []

def TaskMap.shardHasKey (tasks : TaskMap) (sharding : Sharding) (shard : Nat) (key : String) : Bool :=
  tasks.entries.any fun e => sharding.shard e.1 == shard && e.2.task.spec.identityKey == key

/-- The next step of call `index`, with the time and the error of its I/O, if there is one. -/
def AddCall.next (sharding : Sharding) (config : Config) (tasks : TaskMap) (index now : Nat)
    (fault : Option Error) (call : AddCall) : Option (TaskMap × AddStage) :=
  match call.stage with
  | .scanning n =>
    if n < sharding.count then
      if tasks.shardHasKey sharding n call.key then
        some (tasks,
          .returned (.error (.other ("Spec '" ++ call.key ++ "' already exists!"))))
      else some (tasks, .scanning (n + 1))
    else
      match call.request.id with
      | some id => some (tasks, .creating id)
      | none => some (tasks, .counting)
  | .counting => some (tasks, .probing ((tasks.keys.length % 2 ^ 32 + 1) % 2 ^ 32))
  | .probing id =>
    if id ∈ tasks then some (tasks, .probing ((id + 1) % 2 ^ 32)) else some (tasks, .creating id)
  | .creating id =>
    some (tasks, .persistingTask (addTaskWithWorkers config now id call.request call.workers))
  | .persistingTask task =>
    match fault with
    | none => some (tasks, .persistingChecksums task)
    | some err => some (tasks, .returned (.error err))
  | .persistingChecksums task =>
    match fault with
    | none => some (tasks, .inserting task)
    | some err => some (tasks, .returned (.error err))
  | .inserting task => some (tasks.insert task.id ⟨index, task⟩, .returned (.ok task.id))
  | .returned _ => none

/-- What can happen next: somebody adds a task, a call goes on, or `delete_task` takes a task out of
the map. -/
inductive AddAct where
  | add (request : TaskRequest) (workers : Option (List SegmentRequest))
  | step (call now : Nat) (fault : Option Error)
  | remove (id : Nat)

def Registrar.step (sharding : Sharding) (w : Registrar) : AddAct → Option Registrar
  | .add request workers => some { w with calls := w.calls ++ [{ request, workers }] }
  | .step i now fault =>
    match w.calls[i]? with
    | none => none
    | some call =>
      match call.next sharding w.config w.tasks i now fault with
      | none => none
      | some (tasks, stage) => some { w with tasks, calls := w.calls.set i { call with stage } }
  | .remove id => some { w with tasks := w.tasks.erase id }

/-- The id that the call has taken and not inserted yet. -/
def AddStage.taken : AddStage → Option Nat
  | .creating id => some id
  | .persistingTask task | .persistingChecksums task | .inserting task => some task.id
  | _ => none

/-- The id that a call has returned. -/
def AddStage.result : AddStage → Option Nat
  | .returned (.ok id) => some id
  | _ => none

def Registrar.result (w : Registrar) (i : Nat) : Option Nat :=
  (w.calls[i]?).bind (·.stage.result)

def Registrar.key (w : Registrar) (i : Nat) : Option String := (w.calls[i]?).map (·.key)

/-- The call that inserts its task with this action. -/
def Registrar.inserts (w : Registrar) : AddAct → Option (Nat × AddCall × Task)
  | .step i _ _ =>
    match w.calls[i]? with
    | none => none
    | some call =>
      match call.stage with
      | .inserting task => some (i, call, task)
      | _ => none
  | _ => none

/-- The calls whose task has been taken out of the map again, and whether an insertion has replaced
a task. -/
structure AddLog where
  removed : List Nat := []
  replaced : Bool := false
  deriving DecidableEq, Repr

def AddLog.note (log : AddLog) (w : Registrar) (a : AddAct) (_ : Registrar) : AddLog :=
  match a with
  | .add _ _ => log
  | .step _ _ _ =>
    match w.inserts a with
    | some (_, _, task) => { log with replaced := log.replaced || decide (task.id ∈ w.tasks) }
    | none => log
  | .remove id =>
    match w.tasks.lookup id with
    | some r => { log with removed := r.owner :: log.removed }
    | none => log

def addLog (sharding : Sharding) (w : Registrar) (as : List AddAct) : AddLog :=
  Transition.history (Registrar.step sharding) AddLog.note {} w as

/-- The call has still to look for a free id or to insert its task, and will not see a task that is
inserted under `id` now: it is past its duplicate check, or past the shard of `id`. -/
def AddCall.misses (sharding : Sharding) (id : Nat) (call : AddCall) : Bool :=
  match call.stage with
  | .scanning n => decide (sharding.shard id < n)
  | .returned _ => false
  | _ => true

/-- The id that the caller has requested, when the call takes it with this action. -/
def Registrar.requests (sharding : Sharding) (w : Registrar) : AddAct → Option Nat
  | .step i _ _ =>
    match w.calls[i]? with
    | none => none
    | some call =>
      match call.stage with
      | .scanning n => if n < sharding.count then none else call.request.id
      | _ => none
  | _ => none

/-- A task is inserted only while no other call for the same specification is past looking for it and
no other call has taken the same id, and a requested id is not in the map. -/
structure AddsAlone (sharding : Sharding) (w : Registrar) (a : AddAct) : Prop where
  alone : ∀ e ∈ w.inserts a, ∀ j < w.calls.length, j ≠ e.1 → ∀ other ∈ w.calls[j]?,
    (other.misses sharding e.2.2.id = true → other.key ≠ e.2.1.key) ∧
      other.stage.taken ≠ some e.2.2.id
  requested : ∀ id ∈ w.requests sharding a, id ∉ w.tasks

instance : Decidable (AddsAlone sharding w a) :=
  decidable_of_iff
    ((∀ e ∈ w.inserts a, ∀ j < w.calls.length, j ≠ e.1 → ∀ other ∈ w.calls[j]?,
        (other.misses sharding e.2.2.id = true → other.key ≠ e.2.1.key) ∧
          other.stage.taken ≠ some e.2.2.id) ∧
      ∀ id ∈ w.requests sharding a, id ∉ w.tasks)
    ⟨fun h => ⟨h.1, h.2⟩, fun h => ⟨h.alone, h.requested⟩⟩

/-- Everything a step of a call can do. -/
inductive AddCall.Steps (sharding : Sharding) (config : Config) (tasks : TaskMap) (index : Nat)
    (call : AddCall) : TaskMap → AddStage → Prop where
  | refuse (h : call.stage = .scanning n) : Steps sharding config tasks index call tasks
      (.returned (.error err))
  | scan (h : call.stage = .scanning n) (hk : tasks.shardHasKey sharding n call.key = false) :
    Steps sharding config tasks index call tasks (.scanning (n + 1))
  | request {id : Nat} (h : call.stage = .scanning n) (hn : sharding.count ≤ n)
    (hr : call.request.id = some id) : Steps sharding config tasks index call tasks (.creating id)
  | search (h : call.stage = .scanning n) (hn : sharding.count ≤ n) :
    Steps sharding config tasks index call tasks .counting
  | count {id : Nat} (h : call.stage = .counting) :
    Steps sharding config tasks index call tasks (.probing id)
  | probe {id id' : Nat} (h : call.stage = .probing id) :
    Steps sharding config tasks index call tasks (.probing id')
  | free {id : Nat} (h : call.stage = .probing id) (hi : id ∉ tasks) :
    Steps sharding config tasks index call tasks (.creating id)
  | create {id : Nat} (h : call.stage = .creating id) :
    Steps sharding config tasks index call tasks
      (.persistingTask (addTaskWithWorkers config now id call.request call.workers))
  | persist (h : call.stage = .persistingTask task) :
    Steps sharding config tasks index call tasks (.persistingChecksums task)
  | persisted (h : call.stage = .persistingChecksums task) :
    Steps sharding config tasks index call tasks (.inserting task)
  | fail (h : call.stage = .persistingTask task ∨ call.stage = .persistingChecksums task) :
    Steps sharding config tasks index call tasks (.returned (.error err))
  | insert (h : call.stage = .inserting task) : Steps sharding config tasks index call
      (tasks.insert task.id ⟨index, task⟩) (.returned (.ok task.id))

theorem AddCall.next_steps
    (h : AddCall.next sharding config tasks index now fault call = some (tasks', new)) :
    call.Steps sharding config tasks index tasks' new := by
  unfold AddCall.next at h
  split at h
  · split at h
    · split at h <;> cases h
      · exact .refuse ‹_›
      · exact .scan ‹_› (Bool.of_not_eq_true ‹_›)
    · split at h <;> cases h
      · exact .request ‹_› (Nat.le_of_not_lt ‹_›) ‹_›
      · exact .search ‹_› (Nat.le_of_not_lt ‹_›)
  · cases h
    exact .count ‹_›
  · split at h <;> cases h
    · exact .probe ‹_›
    · exact .free ‹_› ‹_›
  · cases h
    exact .create ‹_›
  · split at h <;> cases h
    · exact .persist ‹_›
    · exact .fail (.inl ‹_›)
  · split at h <;> cases h
    · exact .persisted ‹_›
    · exact .fail (.inr ‹_›)
  · cases h
    exact .insert ‹_›
  · cases h

theorem Registrar.step_some {w w' : Registrar}
    (h : w.step sharding (.step i now fault) = some w') :
    ∃ call tasks stage, w.calls[i]? = some call ∧
      call.Steps sharding w.config w.tasks i tasks stage ∧
      w' = { w with tasks, calls := w.calls.set i { call with stage } } := by
  simp only [Registrar.step] at h
  split at h
  · cases h
  · split at h <;> cases h
    exact ⟨_, _, _, ‹_›, AddCall.next_steps ‹_›, rfl⟩

theorem addTaskWithWorkers_id (config : Config) (now id : Nat) (r : TaskRequest)
    (workers : Option (List SegmentRequest)) :
    (addTaskWithWorkers config now id r workers).id = id := by
  cases workers with
  | none => rfl
  | some ws => rfl

/-- The task that the call has built and not inserted yet. -/
def AddStage.built : AddStage → Option Task
  | .persistingTask task | .persistingChecksums task | .inserting task => some task
  | _ => none

/-- What holds in a run in which tasks are added alone. The ids that calls have taken are free, and no
call is past looking for a specification that is in the map; the map has every specification at
most once; and every task in the map is there for the call that has created it. -/
structure Registrar.Sound (sharding : Sharding) (w : Registrar) (log : AddLog) : Prop where
  free : ∀ call ∈ w.calls, ∀ id ∈ call.stage.taken, id ∉ w.tasks
  unseen : ∀ call ∈ w.calls, ∀ id, ∀ r ∈ w.tasks.lookup id, call.misses sharding id = true →
    r.task.spec.identityKey ≠ call.key
  built : ∀ call ∈ w.calls, ∀ task ∈ call.stage.built, task.spec = call.request.spec
  keys : ∀ id id', ∀ r ∈ w.tasks.lookup id, ∀ r' ∈ w.tasks.lookup id',
    r.task.spec.identityKey = r'.task.spec.identityKey → id = id'
  owned : ∀ id, ∀ r ∈ w.tasks.lookup id, w.result r.owner = some id ∧
    w.key r.owner = some r.task.spec.identityKey
  own : ∀ i id, w.result i = some id → i ∉ log.removed →
    ∃ r, w.tasks.lookup id = some r ∧ r.owner = i
  removed : ∀ i ∈ log.removed, w.result i ≠ none
  kept : log.replaced = false

section Step
variable {sharding : Sharding} {w w' : Registrar} {log : AddLog} {i id : Nat} {call : AddCall}
  {r : Registered}

theorem AddCall.Steps.quiet (h : call.Steps sharding config tasks i tasks' new) :
    (tasks' = tasks ∧ (∀ id, new ≠ .returned (.ok id)) ∧ ∀ task, call.stage ≠ .inserting task) ∨
      ∃ task, call.stage = .inserting task ∧ tasks' = tasks.insert task.id ⟨i, task⟩ ∧
        new = .returned (.ok task.id) := by
  cases h with
  | insert h => exact .inr ⟨_, h, rfl, rfl⟩
  | refuse h | scan h | request h | search h | count h | probe h | free h | create h | persist h
  | persisted h =>
    exact .inl ⟨rfl, fun id he => (by cases he), fun task he => (by cases he.symm.trans h)⟩
  | fail h =>
    refine .inl ⟨rfl, fun id he => (by cases he), fun task he => ?_⟩
    rcases h with h | h <;> cases he.symm.trans h

theorem AddCall.Steps.not_returned (h : call.Steps sharding config tasks i tasks' new) :
    ∀ result, call.stage ≠ .returned result := by
  intro result hr
  cases h with
  | refuse h | scan h | request h | search h | count h | probe h | free h | create h | persist h
  | persisted h | insert h => cases hr.symm.trans h
  | fail h => rcases h with h | h <;> cases hr.symm.trans h

theorem Registrar.result_some :
    w.result i = some id ↔ ∃ call, w.calls[i]? = some call ∧ call.stage = .returned (.ok id) := by
  unfold Registrar.result
  rw [Option.bind_eq_some_iff]
  refine exists_congr fun call => and_congr_right fun _ => ?_
  constructor
  · intro h
    unfold AddStage.result at h
    split at h <;> cases h
    assumption
  · intro h
    rw [h, AddStage.result]

theorem mem_set_calls {calls : List AddCall} (h : other ∈ calls.set i call) :
    (∃ j, j ≠ i ∧ calls[j]? = some other) ∨ other = call := by
  obtain ⟨j, hj⟩ := List.mem_iff_getElem?.1 h
  by_cases hji : j = i
  · subst j
    rw [List.getElem?_set] at hj
    split at hj
    · split at hj <;> cases hj
      exact .inr rfl
    · contradiction
  · exact .inl ⟨j, hji, by rwa [List.getElem?_set_ne (Ne.symm hji)] at hj⟩

variable (hw : w.Sound sharding log) (hi : w.calls[i]? = some call)
include hw hi

theorem Registrar.Sound.free_next (hok : AddsAlone sharding w (.step i now fault))
    (hs : call.Steps sharding w.config w.tasks i tasks' new) : ∀ id ∈ new.taken, id ∉ w.tasks := by
  have hfree := hw.free call (List.mem_of_getElem? hi)
  intro id hid
  cases hs with
  | refuse | scan | search | count | probe | fail | insert => cases hid
  | request h hn hr =>
    cases hid
    refine hok.requested _ ?_
    simp only [Registrar.requests, hi, h, if_neg (Nat.not_lt.2 hn), hr, Option.mem_def]
  | free h hfree =>
    cases hid
    exact hfree
  | create h =>
    rw [AddStage.taken, Option.mem_def, addTaskWithWorkers_id] at hid
    exact hfree id (by rw [h]; exact hid)
  | persist h | persisted h => exact hfree id (by rw [h]; exact hid)

theorem Registrar.Sound.unseen_next (hs : call.Steps sharding w.config w.tasks i tasks' new)
    (hr : r ∈ w.tasks.lookup id)
    (hm : AddCall.misses sharding id { call with stage := new } = true) :
    r.task.spec.identityKey ≠ call.key := by
  have hold := hw.unseen call (List.mem_of_getElem? hi) id r hr
  unfold AddCall.misses at hold
  cases hs with
  | refuse | fail | insert => cases hm
  | scan h hk =>
    rename_i n
    rw [h] at hold
    have hm : sharding.shard id < n + 1 := of_decide_eq_true hm
    by_cases hlt : sharding.shard id < n
    · exact hold (decide_eq_true hlt)
    · intro hkey
      have hentry := AList.mem_lookup_iff.1 hr
      have := List.any_eq_false.1 hk _ hentry
      simp only [hkey, Bool.and_eq_true, beq_iff_eq, beq_self_eq_true, and_true] at this
      omega
  | request h hn | search h hn =>
    rw [h] at hold
    exact hold (decide_eq_true (Nat.lt_of_lt_of_le (sharding.shard_lt id) hn))
  | count h | probe h | free h | create h | persist h | persisted h =>
    rw [h] at hold
    exact hold rfl

theorem Registrar.Sound.built_next (hs : call.Steps sharding w.config w.tasks i tasks' new) :
    ∀ task ∈ new.built, task.spec = call.request.spec := by
  have hold := hw.built call (List.mem_of_getElem? hi)
  intro task ht
  cases hs with
  | create h =>
    cases ht
    exact (addTaskWithWorkers_spec _ _ _ _ _).1
  | persist h | persisted h => exact hold task (by rw [h]; exact ht)
  | refuse | scan | request | search | count | probe | free | fail | insert => cases ht

end Step

section Run
variable {sharding : Sharding} {w w' : Registrar} {log : AddLog} {i id : Nat} {call : AddCall}

theorem Registrar.result_set {map : TaskMap} (hi : w.calls[i]? = some call) (j : Nat) :
    Registrar.result { w with tasks := map, calls := w.calls.set i { call with stage := new } } j =
      if j = i then new.result else w.result j := by
  have hlt : i < w.calls.length := (List.getElem?_eq_some_iff.1 hi).1
  unfold Registrar.result
  by_cases hji : j = i
  · subst j
    simp only [List.getElem?_set_self hlt, if_true, Option.bind_some]
  · simp only [List.getElem?_set_ne (Ne.symm hji), if_neg hji]

theorem Registrar.key_set {map : TaskMap} (hi : w.calls[i]? = some call) (j : Nat) :
    Registrar.key { w with tasks := map, calls := w.calls.set i { call with stage := new } } j =
      w.key j := by
  have hlt : i < w.calls.length := (List.getElem?_eq_some_iff.1 hi).1
  unfold Registrar.key
  by_cases hji : j = i
  · subst j
    simp only [List.getElem?_set_self hlt, hi, Option.map_some]
    rfl
  · simp only [List.getElem?_set_ne (Ne.symm hji)]

theorem Registrar.result_of_not_returned (hi : w.calls[i]? = some call)
    (h : ∀ result, call.stage ≠ .returned result) : w.result i = none := by
  rw [Option.eq_none_iff_forall_ne_some]
  intro id hid
  obtain ⟨call', hi', hs⟩ := Registrar.result_some.1 hid
  cases hi.symm.trans hi'
  exact h _ hs

theorem Registrar.Sound.add (hw : w.Sound sharding log) (request : TaskRequest)
    (workers : Option (List SegmentRequest)) :
    Registrar.Sound sharding { w with calls := w.calls ++ [{ request, workers }] } log := by
  have hmem : ∀ call ∈ w.calls ++ [({ request, workers } : AddCall)],
      call ∈ w.calls ∨ call.stage = .scanning 0 := by
    intro call hc
    rcases List.mem_append.1 hc with hc | hc
    · exact .inl hc
    · cases List.mem_singleton.1 hc
      exact .inr rfl
  have hold : ∀ {j call}, w.calls[j]? = some call →
      (w.calls ++ [({ request, workers } : AddCall)])[j]? = some call := fun hj =>
    (List.getElem?_append_left (List.getElem?_eq_some_iff.1 hj).1).trans hj
  have hresult : ∀ j id, Registrar.result { w with calls := w.calls ++ [{ request, workers }] } j =
      some id ↔ w.result j = some id := by
    intro j id
    rw [Registrar.result_some, Registrar.result_some]
    constructor
    · rintro ⟨call, hj, hs⟩
      rw [List.getElem?_append] at hj
      split at hj
      · exact ⟨call, hj, hs⟩
      · cases List.mem_singleton.1 (List.mem_of_getElem? hj)
        cases hs
    · rintro ⟨call, hj, hs⟩
      exact ⟨call, hold hj, hs⟩
  constructor
  case free =>
    intro call hc id hid
    rcases hmem call hc with hc | hs
    · exact hw.free call hc id hid
    · rw [hs] at hid
      cases hid
  case unseen =>
    intro call hc id r hr hm
    rcases hmem call hc with hc | hs
    · exact hw.unseen call hc id r hr hm
    · unfold AddCall.misses at hm
      rw [hs] at hm
      exact absurd (of_decide_eq_true hm) (Nat.not_lt_zero _)
  case built =>
    intro call hc task ht
    rcases hmem call hc with hc | hs
    · exact hw.built call hc task ht
    · rw [hs] at ht
      cases ht
  case keys => exact hw.keys
  case owned =>
    intro id r hr
    obtain ⟨h1, h2⟩ := hw.owned id r hr
    refine ⟨(hresult _ _).2 h1, ?_⟩
    obtain ⟨call, hj, hk⟩ := Option.map_eq_some_iff.1 h2
    exact Option.map_eq_some_iff.2 ⟨call, hold hj, hk⟩
  case own => exact fun j id hj => hw.own j id ((hresult j id).1 hj)
  case removed =>
    intro j hj
    obtain ⟨id, hid⟩ := Option.ne_none_iff_exists'.1 (hw.removed j hj)
    rw [(hresult j id).2 hid]
    exact Option.some_ne_none id
  case kept => exact hw.kept

theorem Registrar.Sound.go (hw : w.Sound sharding log) (hi : w.calls[i]? = some call)
    (hok : AddsAlone sharding w (.step i now fault))
    (hs : call.Steps sharding w.config w.tasks i tasks' new) (hq : ∀ id, new ≠ .returned (.ok id)) :
    Registrar.Sound sharding { w with calls := w.calls.set i { call with stage := new } } log := by
  have hmem : ∀ other ∈ w.calls.set i { call with stage := new },
      other ∈ w.calls ∨ other = { call with stage := new } := by
    intro other ho
    rcases mem_set_calls ho with ⟨j, _, hj⟩ | he
    · exact .inl (List.mem_of_getElem? hj)
    · exact .inr he
  have hnone := Registrar.result_of_not_returned hi hs.not_returned
  have hresult : ∀ j, Registrar.result { w with calls := w.calls.set i { call with stage := new } } j =
      w.result j := by
    intro j
    rw [Registrar.result_set hi j]
    split
    · subst j
      rw [hnone, Option.eq_none_iff_forall_ne_some]
      intro id hid
      unfold AddStage.result at hid
      split at hid <;> cases hid
      exact hq _ rfl
    · rfl
  constructor
  case free =>
    intro other ho
    rcases hmem other ho with ho | rfl
    · exact hw.free other ho
    · exact hw.free_next hi hok hs
  case unseen =>
    intro other ho id r hr hm
    rcases hmem other ho with ho | rfl
    · exact hw.unseen other ho id r hr hm
    · have hnew : r.task.spec.identityKey ≠ call.key := hw.unseen_next hi hs hr hm
      exact hnew
  case built =>
    intro other ho
    rcases hmem other ho with ho | rfl
    · exact hw.built other ho
    · exact hw.built_next hi hs
  case keys => exact hw.keys
  case owned =>
    intro id r hr
    rw [hresult, Registrar.key_set hi]
    exact hw.owned id r hr
  case own =>
    intro j id hj
    rw [hresult] at hj
    exact hw.own j id hj
  case removed =>
    intro j hj
    rw [hresult]
    exact hw.removed j hj
  case kept => exact hw.kept

theorem lookup_insert_cases {tasks : TaskMap} {r r' : Registered} {k : Nat}
    (h : r' ∈ (tasks.insert id r).lookup k) : (k = id ∧ r' = r) ∨ (k ≠ id ∧ r' ∈ tasks.lookup k) := by
  by_cases hk : k = id
  · subst k
    rw [AList.lookup_insert] at h
    cases h
    exact .inl ⟨rfl, rfl⟩
  · rw [AList.lookup_insert_ne hk] at h
    exact .inr ⟨hk, h⟩

theorem Registrar.Sound.insert (hw : w.Sound sharding log) (hi : w.calls[i]? = some call)
    (hok : AddsAlone sharding w (.step i now fault)) (hst : call.stage = .inserting task) :
    task.id ∉ w.tasks ∧ Registrar.Sound sharding
      { w with
        tasks := w.tasks.insert task.id ⟨i, task⟩
        calls := w.calls.set i { call with stage := .returned (.ok task.id) } } log := by
  have hcall := List.mem_of_getElem? hi
  have hfree : task.id ∉ w.tasks := hw.free call hcall task.id (by rw [hst]; rfl)
  have hspec : task.spec = call.request.spec := hw.built call hcall task (by rw [hst]; rfl)
  have hkey : task.spec.identityKey = call.key := by rw [hspec]; rfl
  have hnone : w.result i = none :=
    Registrar.result_of_not_returned hi fun result hr => by cases hst.symm.trans hr
  have halone : ∀ {j other}, j ≠ i → w.calls[j]? = some other →
      (other.misses sharding task.id = true → other.key ≠ call.key) ∧
        other.stage.taken ≠ some task.id := by
    intro j other hji hj
    refine hok.alone (i, call, task) ?_ j (List.getElem?_eq_some_iff.1 hj).1 hji other hj
    simp only [Registrar.inserts, hi, hst, Option.mem_def]
  have hself : ∀ id, (w.tasks.lookup id).isSome = true → id ≠ task.id := by
    rintro id hid rfl
    exact hfree (AList.lookup_isSome.1 hid)
  -- No task in the map has the specification of the call.
  have hfresh : ∀ {id r}, r ∈ w.tasks.lookup id → r.task.spec.identityKey ≠ task.spec.identityKey := by
    intro id r hr
    rw [hkey]
    exact hw.unseen call hcall id r hr (by rw [AddCall.misses, hst])
  refine ⟨hfree, ?_⟩
  constructor
  case free =>
    intro other ho id hid hmem
    rcases mem_set_calls ho with ⟨j, hji, hj⟩ | rfl
    · rcases (AList.mem_insert _).1 hmem with rfl | hmem
      · exact (halone hji hj).2 hid
      · exact hw.free other (List.mem_of_getElem? hj) id hid hmem
    · cases hid
  case unseen =>
    intro other ho id r hr hm
    rcases mem_set_calls ho with ⟨j, hji, hj⟩ | rfl
    · rcases lookup_insert_cases hr with ⟨rfl, rfl⟩ | ⟨_, hr⟩
      · intro he
        exact (halone hji hj).1 hm (he.symm.trans hkey)
      · exact hw.unseen other (List.mem_of_getElem? hj) id r hr hm
    · cases hm
  case built =>
    intro other ho new ht
    rcases mem_set_calls ho with ⟨j, _, hj⟩ | rfl
    · exact hw.built other (List.mem_of_getElem? hj) new ht
    · cases ht
  case keys =>
    intro id id' r hr r' hr' he
    rcases lookup_insert_cases hr with ⟨rfl, rfl⟩ | ⟨_, hr⟩ <;>
      rcases lookup_insert_cases hr' with ⟨rfl, rfl⟩ | ⟨_, hr'⟩
    · rfl
    · exact absurd he.symm (hfresh hr')
    · exact absurd he (hfresh hr)
    · exact hw.keys id id' r hr r' hr' he
  case owned =>
    intro id r hr
    rw [Registrar.result_set hi, Registrar.key_set hi]
    rcases lookup_insert_cases hr with ⟨rfl, rfl⟩ | ⟨_, hr⟩
    · refine ⟨by rw [if_pos rfl]; rfl, ?_⟩
      rw [Registrar.key, hi, Option.map_some, hkey]
    · obtain ⟨h1, h2⟩ := hw.owned id r hr
      refine ⟨?_, h2⟩
      split
      · rename_i he
        rw [he, hnone] at h1
        cases h1
      · exact h1
  case own =>
    intro j id hj hrem
    rw [Registrar.result_set hi] at hj
    split at hj
    · rename_i he
      cases hj
      exact ⟨⟨i, task⟩, AList.lookup_insert _, he.symm⟩
    · obtain ⟨r, hr, ho⟩ := hw.own j id hj hrem
      refine ⟨r, ?_, ho⟩
      rw [AList.lookup_insert_ne (hself id (by rw [hr]; rfl)), hr]
  case removed =>
    intro j hj
    rw [Registrar.result_set hi]
    split
    · exact Option.some_ne_none _
    · exact hw.removed j hj
  case kept => exact hw.kept

theorem lookup_erase_cases {tasks : TaskMap} {r : Registered} {k : Nat}
    (h : r ∈ (tasks.erase id).lookup k) : k ≠ id ∧ r ∈ tasks.lookup k := by
  have hk : k ≠ id := by
    rintro rfl
    rw [AList.lookup_erase] at h
    cases h
  rw [AList.lookup_erase_ne hk] at h
  exact ⟨hk, h⟩

theorem Registrar.Sound.remove (hw : w.Sound sharding log) (hs : w.step sharding (.remove id) = some w') :
    w'.Sound sharding (log.note w (.remove id) w') := by
  cases hs
  have hlog : (log.note w (.remove id) { w with tasks := w.tasks.erase id }).replaced = log.replaced := by
    simp only [AddLog.note]
    split <;> rfl
  have hsub : ∀ j ∈ log.removed,
      j ∈ (log.note w (.remove id) { w with tasks := w.tasks.erase id }).removed := by
    intro j hj
    simp only [AddLog.note]
    split
    · exact List.mem_cons_of_mem _ hj
    · exact hj
  constructor
  case free =>
    intro call hc k hk hmem
    exact hw.free call hc k hk (AList.mem_erase.1 hmem).2
  case unseen =>
    intro call hc k r hr
    exact hw.unseen call hc k r (lookup_erase_cases hr).2
  case built => exact hw.built
  case keys =>
    intro k k' r hr r' hr'
    exact hw.keys k k' r (lookup_erase_cases hr).2 r' (lookup_erase_cases hr').2
  case owned => exact fun k r hr => hw.owned k r (lookup_erase_cases hr).2
  case own =>
    intro j k hj hrem
    obtain ⟨r, hr, ho⟩ := hw.own j k hj fun h => hrem (hsub j h)
    refine ⟨r, ?_, ho⟩
    have hk : k ≠ id := by
      rintro rfl
      refine hrem ?_
      simp only [AddLog.note, hr, ho]
      exact List.mem_cons_self
    rw [AList.lookup_erase_ne hk, hr]
  case removed =>
    intro j hj
    simp only [AddLog.note] at hj
    split at hj
    · rename_i r hr
      rcases List.mem_cons.1 hj with rfl | hj
      · rw [show Registrar.result { w with tasks := w.tasks.erase id } r.owner = some id from
          (hw.owned id r hr).1]
        exact Option.some_ne_none id
      · exact hw.removed j hj
    · exact hw.removed j hj
  case kept => exact hlog.trans hw.kept

/-- The log stays right under every step, if tasks are added alone. -/
theorem Registrar.Sound.step (hw : w.Sound sharding log) (hok : AddsAlone sharding w a)
    (hs : w.step sharding a = some w') : w'.Sound sharding (log.note w a w') := by
  cases a with
  | add request workers =>
    cases hs
    exact hw.add request workers
  | remove id => exact hw.remove hs
  | step i now fault =>
    obtain ⟨call, tasks, stage, hi, hsteps, rfl⟩ := Registrar.step_some hs
    rcases hsteps.quiet with ⟨rfl, hq, hins⟩ | ⟨task, hst, rfl, rfl⟩
    · have hno : w.inserts (.step i now fault) = none := by
        simp only [Registrar.inserts, hi]
      simp only [AddLog.note, hno]
      exact hw.go hi hok hsteps hq
    · obtain ⟨hfree, hsound⟩ := hw.insert hi hok hst
      have hin : w.inserts (.step i now fault) = some (i, call, task) := by
        simp only [Registrar.inserts, hi, hst]
      simp only [AddLog.note, hin, decide_eq_false hfree, Bool.or_false]
      exact hsound

end Run

/-- In every run in which tasks are added alone, no insertion replaces a task; every call that has
returned an id finds its own task under it until `delete_task` takes it out of the map, and no
other call whose task is in the map has returned the same id or has the same specification. -/
theorem registrations_are_exclusive (sharding : Sharding) (config : Config) (as : List AddAct)
    (w : Registrar) (hr : Transition.run (Registrar.step sharding) { config } as = some w)
    (hc : Transition.Meets (Registrar.step sharding) (AddsAlone sharding) { config } as) :
    (addLog sharding { config } as).replaced = false ∧
      (∀ i ∈ (addLog sharding { config } as).removed, w.result i ≠ none) ∧
      ∀ i id, w.result i = some id → i ∉ (addLog sharding { config } as).removed →
        (∃ r, w.tasks.lookup id = some r ∧ r.owner = i ∧
          w.key i = some r.task.spec.identityKey) ∧
        ∀ j id', w.result j = some id' → j ∉ (addLog sharding { config } as).removed → j ≠ i →
          id' ≠ id ∧ w.key j ≠ w.key i := by
  have hinit : Registrar.Sound sharding { config } {} := by
    have hempty : ∀ id, ∀ r ∈ (∅ : TaskMap).lookup id, False := fun id r hr => by cases hr
    constructor
    case free | unseen | built => exact fun call hc => absurd hc List.not_mem_nil
    case keys => exact fun id _ r hr => (hempty id r hr).elim
    case owned => exact fun id r hr => (hempty id r hr).elim
    case own => exact fun i id hi => by cases hi
    case removed => exact fun i hi => absurd hi List.not_mem_nil
    case kept => rfl
  have hend := hc.history (I := fun w log => w.Sound sharding log) (n := AddLog.note)
    (fun _ _ _ _ h hok hs => h.step hok hs) hinit hr
  refine ⟨hend.kept, hend.removed, fun i id hi hrem => ?_⟩
  obtain ⟨r, hl, rfl⟩ := hend.own i id hi hrem
  obtain ⟨_, hkey⟩ := hend.owned id r hl
  refine ⟨⟨r, hl, rfl, hkey⟩, fun j id' hj hrem' hne => ?_⟩
  obtain ⟨r', hl', rfl⟩ := hend.own j id' hj hrem'
  have hids : id' ≠ id := by
    rintro rfl
    cases hl.symm.trans hl'
    exact hne rfl
  refine ⟨hids, fun hk => hids ?_⟩
  rw [(hend.owned id' r' hl').2, hkey] at hk
  exact hend.keys id' id r' hl' r hl (Option.some.inj hk)

/-- `TaskRequest::builder(spec).build()`, with the id if one is requested. -/
def TaskRequest.build (spec : DownloadSpec) (id : Option Nat) : TaskRequest where
  id := id
  spec := spec
  fileName := none
  filePath := none
  resourceIdentity := none
  httpRequest := none
  sources := none
  pieceStates := none
  blockStates := none
  checksums := none
  status := none
  downloadedSize := none
  totalSize := none
  torrentResume := none
  createdAt := none
  updatedAt := none

/-- A map with two shards. -/
def evenOdd : Sharding where
  count := 2
  shard id := id % 2
  shard_lt id := Nat.mod_lt id (by decide)

def registryConfig : Config where
  downloadDir := "/downloads"
  concurrentTasks := 3
  segmentsPerTask := 4
  fileConflictStrategy := .resume

/-- The next `n` steps of a call, with nothing going wrong. -/
def addSteps (call n : Nat) : List AddAct := List.replicate n (.step call 0 none)

/-- Two downloads are added at the same time, one of them under a requested id. -/
def addedTogether : List AddAct :=
  List.flatten [[.add (.build (.https "https://example.com/a.iso") none) none,
    .add (.build (.https "https://example.com/b.iso") (some 7)) none],
    addSteps 0 5, addSteps 1 7, addSteps 0 4]

theorem two_downloads_are_registered :
    ∃ w, Transition.run (Registrar.step evenOdd) { config := registryConfig } addedTogether = some w ∧
      w.result 0 = some 1 ∧ w.result 1 = some 7 ∧
      (addLog evenOdd { config := registryConfig } addedTogether).replaced = false ∧
      (∃ r, w.tasks.lookup 1 = some r ∧ r.owner = 0) ∧ w.key 1 ≠ w.key 0 := by
  obtain ⟨w, hr, h0, h1⟩ : ∃ w, Transition.run (Registrar.step evenOdd)
      { config := registryConfig } addedTogether = some w ∧ w.result 0 = some 1 ∧
      w.result 1 = some 7 := Transition.run_any (by decide)
  have hnone : (addLog evenOdd { config := registryConfig } addedTogether).removed = [] := by
    decide
  obtain ⟨hkept, _, hown⟩ := registrations_are_exclusive evenOdd registryConfig addedTogether w hr
    (by decide)
  obtain ⟨⟨r, hl, ho, _⟩, hothers⟩ := hown 0 1 h0 (by rw [hnone]; exact List.not_mem_nil)
  obtain ⟨_, hkey⟩ := hothers 1 7 h1 (by rw [hnone]; exact List.not_mem_nil) (by decide)
  exact ⟨w, hr, h0, h1, hkept, ⟨r, hl, ho⟩, hkey⟩

/-- The same download is added twice at the same time: both calls look for it before either of them
has inserted it. -/
def addedTwice : List AddAct :=
  List.flatten [[.add (.build (.https "https://example.com/a.iso") none) none,
    .add (.build (.https "https://example.com/a.iso") none) none],
    addSteps 0 5, addSteps 1 5, addSteps 0 4, addSteps 1 4]

theorem same_download_is_registered_twice :
    ∃ w, Transition.run (Registrar.step evenOdd) { config := registryConfig } addedTwice = some w ∧
      w.result 0 = some 1 ∧ w.result 1 = some 1 ∧ w.key 0 = w.key 1 ∧
      (w.tasks.lookup 1).map (·.owner) = some 1 ∧
      addLog evenOdd { config := registryConfig } addedTwice = { removed := [], replaced := true } :=
  Transition.run_any (by decide)

end Paradown
