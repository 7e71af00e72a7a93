import Paradown.Keyed
import Paradown.SwarmStop

namespace Paradown
set_option autoImplicit true

/-- A task under its key in the manager's map, whether the map still holds it, and whether there is
a file at its path. -/
structure MapEntry where
  id : Nat
  torrent : SwarmTask
  registered : Bool
  file : Bool

/-- The manager's tasks, those that have left its map included, and the queue. -/
structure ManagerMap where
  entries : List MapEntry
  pendingQueue : List Nat
  distinct : (entries.map MapEntry.id).Nodup

namespace SwarmTask

/-- Every step of `Task::delete` succeeds: the engine, if there is a session to remove, the file
system, and the repository, if there is one. -/
def Deletes (s : SwarmTask) (outcome : DeleteOutcome) : Prop :=
  s.askEngine outcome.engine = .ok () ∧ outcome.file = .ok () ∧
    (s.persistence = true →
      outcome.workers = .saved ∧ outcome.checksums = .saved ∧ outcome.task = .saved)

theorem andThen_fst_ok {f : SwarmTask → Except Error Unit × SwarmTask} :
    (andThen r f).1 = .ok () ↔ r.1 = .ok () ∧ (f r.2).1 = .ok () := by
  obtain ⟨result, s⟩ := r
  cases result with
  | error err => exact iff_of_false (fun h => nomatch h) fun h => nomatch h.1
  | ok u => exact (and_iff_right rfl).symm

theorem purge_fst_ok (s : SwarmTask) (outcome : SaveOutcome) (rows : StoredRows → StoredRows) :
    (s.purge outcome rows).1 = .ok () ↔ (s.persistence = true → outcome = .saved) := by
  unfold purge save
  cases hp : s.persistence with
  | false => exact iff_of_true rfl fun h => nomatch h
  | true =>
    cases outcome with
    | saved => exact iff_of_true rfl fun _ => rfl
    | failed err written => exact iff_of_false (fun h => nomatch h) fun h => nomatch h rfl

theorem purge_same {f : SwarmTask → α} (hfail : ∀ (s : SwarmTask) err, f (s.failDelete err).2 = f s)
    (hsave : f (s.save outcome rows).2 = f s) : f (s.purge outcome rows).2 = f s := by
  unfold purge
  split
  case h_1 hs => exact (hfail _ _).trans ((congrArg (fun r => f r.2) hs).symm.trans hsave)
  case h_2 hs => exact (congrArg (fun r => f r.2) hs).symm.trans hsave

theorem purge_persistence (s : SwarmTask) (outcome : SaveOutcome)
    (rows : StoredRows → StoredRows) : (s.purge outcome rows).2.persistence = s.persistence :=
  purge_same (fun _ _ => rfl) (save_persistence s outcome rows)

theorem purge_filePath (s : SwarmTask) (outcome : SaveOutcome) (rows : StoredRows → StoredRows) :
    (s.purge outcome rows).2.task.filePath = s.task.filePath :=
  purge_same (f := fun s => s.task.filePath) (fun _ _ => rfl)
    (congrArg Task.filePath (save_task s outcome rows))

theorem delete_fst_ok (s : SwarmTask) (outcome : DeleteOutcome) :
    (s.delete outcome).1 = .ok () ↔ s.Deletes outcome := by
  unfold delete Deletes
  cases hengine : s.askEngine outcome.engine with
  | error err => exact iff_of_false (fun h => nomatch h) fun h => nomatch h.1
  | ok u =>
    cases hfile : outcome.file with
    | error err => exact iff_of_false (fun h => nomatch h) fun h => nomatch h.2.1
    | ok u =>
      dsimp only
      simp only [andThen_fst_ok, purge_fst_ok, purge_persistence, true_and, and_true]
      exact ⟨fun h hp => ⟨h.1 hp, h.2.1 hp, h.2.2 hp⟩,
        fun h => ⟨fun hp => (h hp).1, fun hp => (h hp).2.1, fun hp => (h hp).2.2⟩⟩

theorem delete_filePath (s : SwarmTask) (outcome : DeleteOutcome) :
    (s.delete outcome).2.task.filePath = s.task.filePath := by
  unfold delete
  split
  case h_1 => rfl
  case h_2 =>
    dsimp only
    split
    case h_1 => rfl
    case h_2 =>
      apply andThen_keeps (P := fun t => t.task.filePath = s.task.filePath)
      · exact purge_filePath _ _ _
      · intro s₁ h₁
        apply andThen_keeps (P := fun t => t.task.filePath = s.task.filePath)
        · exact (purge_filePath _ _ _).trans h₁
        · intro s₂ h₂
          apply andThen_keeps (P := fun t => t.task.filePath = s.task.filePath)
          · exact (purge_filePath _ _ _).trans h₂
          · exact fun s₃ h₃ => h₃

end SwarmTask

namespace MapEntry

/-- `Task::delete`. The file is gone once `delete_task_file` has succeeded. -/
def delete (outcome : DeleteOutcome) (e : MapEntry) : Except Error Unit × MapEntry :=
  let removed := (e.torrent.askEngine outcome.engine).isOk && outcome.file.isOk &&
    e.torrent.task.filePath.isSome
  ((e.torrent.delete outcome).1,
    { e with torrent := (e.torrent.delete outcome).2, file := e.file && !removed })

/-- What `delete_task` makes of the entry that it finds: a failed deletion keeps it in the map. -/
def deleteTask (outcome : DeleteOutcome) (e : MapEntry) : MapEntry :=
  if e.registered then
    match (e.delete outcome).1 with
    | .error _ => (e.delete outcome).2
    | .ok () => { (e.delete outcome).2 with registered := false }
  else e

/-- What `delete_all` makes of an entry. -/
def deleteAndClear (outcome : DeleteOutcome) (e : MapEntry) : MapEntry :=
  if e.registered then { (e.delete outcome).2 with registered := false } else e

/-- Rows of the task are stored, or its payload file is there. -/
def LeavesBehind (e : MapEntry) : Prop :=
  e.torrent.persistence = true ∧ e.torrent.stored ≠ {} ∨
    e.torrent.task.filePath.isSome = true ∧ e.file = true

theorem deleteTask_id (outcome : DeleteOutcome) (e : MapEntry) : (e.deleteTask outcome).id = e.id := by
  unfold deleteTask
  split
  case isTrue => split <;> rfl
  case isFalse => rfl

theorem deleteAndClear_id (outcome : DeleteOutcome) (e : MapEntry) :
    (e.deleteAndClear outcome).id = e.id := by
  unfold deleteAndClear
  split <;> rfl

theorem delete_leaves_nothing {e : MapEntry} {outcome : DeleteOutcome} (h : e.torrent.Deletes outcome) :
    ¬ (e.delete outcome).2.LeavesBehind := by
  have hdelete : e.torrent.delete outcome = (.ok (), (e.torrent.delete outcome).2) :=
    Prod.ext ((e.torrent.delete_fst_ok outcome).2 h) rfl
  rintro (⟨hp, hrows⟩ | ⟨hpath, hfile⟩)
  · exact hrows ((SwarmTask.delete_ok hdelete).2 hp)
  · have hpath' : e.torrent.task.filePath.isSome = true := by
      rw [← SwarmTask.delete_filePath e.torrent outcome]
      exact hpath
    have hremoved : (e.delete outcome).2.file = false := by
      simp only [delete, h.1, h.2.1, hpath', Except.isOk, Except.toBool, Bool.and_self, Bool.not_true,
        Bool.and_false]
    cases hremoved.symm.trans hfile

end MapEntry

namespace ManagerMap

/-- The keys of the map. -/
def taskIds (m : ManagerMap) : List Nat := (m.entries.filter (·.registered)).map (·.id)

/-- Change entries under their keys. -/
def mapEntries (m : ManagerMap) (f : MapEntry → MapEntry) (hf : ∀ e, (f e).id = e.id) :
    ManagerMap where
  entries := m.entries.map f
  pendingQueue := m.pendingQueue
  distinct := by
    have hids : (m.entries.map f).map MapEntry.id = m.entries.map MapEntry.id := by
      rw [List.map_map]
      exact List.map_congr_left fun e _ => hf e
    rw [hids]
    exact m.distinct

/-- `Manager::delete_task`. -/
def deleteTask (outcome : DeleteOutcome) (id : Nat) (m : ManagerMap) :
    Except Error Nat × ManagerMap :=
  match m.entries.find? fun e => e.registered && e.id == id with
  | none => (.error (.taskNotFound id), m)
  | some e =>
    ((e.delete outcome).1.map fun () => id,
      m.mapEntries (fun e => if e.id = id then e.deleteTask outcome else e) fun e => by
        split
        case isTrue => exact e.deleteTask_id outcome
        case isFalse => rfl)

/-- `Manager::delete_all`. -/
def deleteAll (outcomes : Nat → DeleteOutcome) (m : ManagerMap) : Except Error Unit × ManagerMap :=
  if m.taskIds = [] then (.error (.other "No tasks to delete"), m)
  else
    (.ok (),
      { m.mapEntries (fun e => e.deleteAndClear (outcomes e.id))
          (fun e => e.deleteAndClear_id (outcomes e.id)) with pendingQueue := [] })

/-- Calls of `delete_task` for the ids, one after the other. -/
def deleteEach (outcomes : Nat → DeleteOutcome) (order : List Nat) (m : ManagerMap) : ManagerMap :=
  order.foldl (fun m id => (m.deleteTask (outcomes id) id).2) m

/-- What the map holds. -/
def registeredEntries (m : ManagerMap) : List MapEntry := m.entries.filter (·.registered)

/-- The ids of the tasks whose `delete` fails. -/
def failingIds (outcomes : Nat → DeleteOutcome) (m : ManagerMap) : List Nat :=
  (m.registeredEntries.filter fun e => !(e.delete (outcomes e.id)).1.isOk).map (·.id)

/-- Nothing has been left behind of what was in the map before and is not there now. -/
def Reachable (before m : ManagerMap) : Prop :=
  ∀ e ∈ m.entries, e.id ∈ before.taskIds → e.registered = false → ¬ e.LeavesBehind

theorem mem_taskIds {m : ManagerMap} (he : e ∈ m.entries) : e.id ∈ m.taskIds ↔ e.registered = true := by
  constructor
  · intro hid
    obtain ⟨e', he', hsame⟩ := List.mem_map.1 hid
    obtain ⟨hmem, hregistered⟩ := List.mem_filter.1 he'
    rw [← List.inj_on_of_nodup_map m.distinct hmem he hsame]
    exact hregistered
  · intro hregistered
    exact List.mem_map_of_mem (List.mem_filter.2 ⟨he, hregistered⟩)

theorem deleteTask_entries (outcome : DeleteOutcome) (id : Nat) (m : ManagerMap) :
    (m.deleteTask outcome id).2.entries =
      Keyed.updateAt (·.id) id (·.deleteTask outcome) m.entries := by
  unfold deleteTask
  split
  case h_1 hnone =>
    have hkeep : ∀ e ∈ m.entries, (if e.id = id then e.deleteTask outcome else e) = e := by
      intro e he
      split
      case isTrue hid =>
        apply if_neg
        intro hregistered
        apply List.find?_eq_none.1 hnone e he
        rw [hregistered, hid, beq_self_eq_true, Bool.and_true]
      case isFalse => rfl
    exact ((List.map_congr_left hkeep).trans (List.map_id' _)).symm
  case h_2 => rfl

/-- Deleting one by one changes each entry once, in whatever order. -/
theorem deleteEach_entries (outcomes : Nat → DeleteOutcome) (m : ManagerMap)
    (h : order.Perm m.taskIds) :
    (m.deleteEach outcomes order).entries = m.entries.map fun e => e.deleteTask (outcomes e.id) := by
  have hfold : ∀ (order : List Nat) (m : ManagerMap), (m.deleteEach outcomes order).entries =
      order.foldl (fun rows id => Keyed.updateAt (·.id) id (·.deleteTask (outcomes id)) rows)
        m.entries := by
    intro order
    induction order with
    | nil => exact fun m => rfl
    | cons id order ih =>
      intro m
      rw [List.foldl_cons, ← deleteTask_entries]
      exact ih _
  have hnodup : order.Nodup := by
    rw [h.nodup_iff]
    exact m.distinct.sublist (List.Sublist.map _ List.filter_sublist)
  rw [hfold, Keyed.foldl_updateAt (fun id e => e.deleteTask_id (outcomes id)) hnodup]
  apply List.map_congr_left
  intro e he
  split
  case isTrue => rfl
  case isFalse hid =>
    have hregistered : ¬ e.registered = true := fun hr => hid (h.mem_iff.2 ((mem_taskIds he).2 hr))
    exact (if_neg hregistered).symm

theorem deleteAll_registered (outcomes : Nat → DeleteOutcome) (m : ManagerMap) :
    (m.deleteAll outcomes).2.registeredEntries = [] := by
  unfold deleteAll
  split
  case isTrue hempty => exact List.map_eq_nil_iff.1 hempty
  case isFalse =>
    apply List.filter_eq_nil_iff.2
    intro e he
    obtain ⟨e', _, rfl⟩ := List.mem_map.1 he
    unfold MapEntry.deleteAndClear
    split
    case isTrue => exact Bool.false_ne_true
    case isFalse hregistered => exact hregistered

theorem deleteEach_taskIds (outcomes : Nat → DeleteOutcome) (m : ManagerMap)
    (h : order.Perm m.taskIds) : (m.deleteEach outcomes order).taskIds = m.failingIds outcomes := by
  have hstays : ∀ e : MapEntry, (e.deleteTask (outcomes e.id)).registered =
      (e.registered && !(e.delete (outcomes e.id)).1.isOk) := by
    intro e
    unfold MapEntry.deleteTask
    split
    case isTrue hregistered =>
      rw [hregistered]
      split
      case h_1 hresult =>
        rw [hresult]
        exact hregistered
      case h_2 hresult =>
        rw [hresult]
        rfl
    case isFalse hregistered =>
      rw [Bool.eq_false_of_not_eq_true hregistered]
      rfl
  rw [taskIds, deleteEach_entries outcomes m h, List.filter_map, List.map_map]
  rw [failingIds, registeredEntries, List.filter_filter]
  have hids : (MapEntry.id ∘ fun e => e.deleteTask (outcomes e.id)) = MapEntry.id :=
    funext fun e => e.deleteTask_id (outcomes e.id)
  rw [hids]
  congr 2
  funext e
  rw [Function.comp_apply, hstays, Bool.and_comm]

/-- The tasks themselves, their rows and their files end the same way on both paths. -/
theorem deleteAll_same_tasks (outcomes : Nat → DeleteOutcome) (m : ManagerMap)
    (h : order.Perm m.taskIds) :
    (m.deleteAll outcomes).2.entries.map (fun e => (e.id, e.torrent, e.file)) =
      (m.deleteEach outcomes order).entries.map fun e => (e.id, e.torrent, e.file) := by
  have hsame : ∀ e : MapEntry, ((e.deleteAndClear (outcomes e.id)).id,
      (e.deleteAndClear (outcomes e.id)).torrent, (e.deleteAndClear (outcomes e.id)).file) =
      ((e.deleteTask (outcomes e.id)).id, (e.deleteTask (outcomes e.id)).torrent,
        (e.deleteTask (outcomes e.id)).file) := by
    intro e
    unfold MapEntry.deleteAndClear MapEntry.deleteTask
    split
    case isTrue => split <;> rfl
    case isFalse => rfl
  rw [deleteEach_entries outcomes m h, List.map_map]
  unfold deleteAll
  split
  case isTrue hempty =>
    apply List.map_congr_left
    intro e he
    have hregistered : ¬ e.registered = true :=
      fun hr => absurd ((mem_taskIds he).2 hr) (hempty ▸ List.not_mem_nil)
    rw [Function.comp_apply, MapEntry.deleteTask, if_neg hregistered]
  case isFalse =>
    refine (List.map_map).trans (List.map_congr_left fun e _ => ?_)
    exact hsame e

/-- `delete_all` agrees with deleting one by one. -/
structure DeleteAllAgrees (outcomes : Nat → DeleteOutcome) (m : ManagerMap) : Prop where
  keeps : (m.deleteAll outcomes).2.taskIds = m.failingIds outcomes
  same : ∀ order, order.Perm m.taskIds → (m.deleteAll outcomes).2.registeredEntries =
    (m.deleteEach outcomes order).registeredEntries
  reachable : m.Reachable (m.deleteAll outcomes).2

theorem failingIds_eq_nil {m : ManagerMap}
    (h : ∀ e ∈ m.entries, e.registered = true → e.torrent.Deletes (outcomes e.id)) :
    m.failingIds outcomes = [] := by
  apply List.map_eq_nil_iff.2
  apply List.filter_eq_nil_iff.2
  intro e he
  obtain ⟨hmem, hregistered⟩ := List.mem_filter.1 he
  have hok : (e.delete (outcomes e.id)).1 = .ok () :=
    (e.torrent.delete_fst_ok _).2 (h e hmem hregistered)
  rw [hok]
  exact Bool.false_ne_true

theorem deleteAll_reachable {m : ManagerMap}
    (h : ∀ e ∈ m.entries, e.registered = true → e.torrent.Deletes (outcomes e.id)) :
    m.Reachable (m.deleteAll outcomes).2 := by
  unfold deleteAll
  split
  case isTrue hempty =>
    intro e _ hid
    exact absurd hid (hempty ▸ List.not_mem_nil)
  case isFalse =>
    intro e he hid _
    obtain ⟨e', he', rfl⟩ := List.mem_map.1 he
    rw [e'.deleteAndClear_id] at hid
    have hregistered := (mem_taskIds he').1 hid
    unfold MapEntry.deleteAndClear
    rw [if_pos hregistered]
    exact MapEntry.delete_leaves_nothing (h e' he' hregistered)

/-- The map is emptied in any case, which is right only if every task could be deleted. -/
theorem delete_all_agrees_iff (outcomes : Nat → DeleteOutcome) (m : ManagerMap) :
    m.DeleteAllAgrees outcomes ↔
      ∀ e ∈ m.entries, e.registered = true → e.torrent.Deletes (outcomes e.id) := by
  have hempty : (m.deleteAll outcomes).2.taskIds = [] :=
    List.map_eq_nil_iff.2 (deleteAll_registered outcomes m)
  constructor
  · intro h e he hregistered
    by_contra hfails
    have hresult : (e.delete (outcomes e.id)).1.isOk = false := by
      cases hresult : (e.delete (outcomes e.id)).1 with
      | error err => rfl
      | ok u => exact absurd ((e.torrent.delete_fst_ok _).1 hresult) hfails
    have hmem : e.id ∈ m.failingIds outcomes := by
      apply List.mem_map_of_mem
      apply List.mem_filter.2
      exact ⟨List.mem_filter.2 ⟨he, hregistered⟩, by rw [hresult]; rfl⟩
    rw [← h.keeps, hempty] at hmem
    cases hmem
  · intro h
    have hfailing := failingIds_eq_nil h
    constructor
    case keeps => rw [hempty, hfailing]
    case same =>
      intro order horder
      have heach := deleteEach_taskIds outcomes m horder
      rw [hfailing] at heach
      rw [deleteAll_registered]
      exact (List.map_eq_nil_iff.1 heach).symm
    case reachable => exact deleteAll_reachable h

end ManagerMap

/-- Two running torrents, the first with rows in the repository. -/
def twoTorrents : ManagerMap where
  entries := [⟨1, { runningTorrent with
      stored := .ofBundle (saveTask bareCodec runningTorrent.task) }, true, true⟩,
    ⟨2, { runningTorrent with task := { runningTorrent.task with id := 2 } }, true, false⟩]
  pendingQueue := [2]
  distinct := by decide

/-- The repository cannot remove the row of task 1. -/
def lockedDelete (id : Nat) : DeleteOutcome :=
  if id = 1 then { cleanDelete with task := .failed (.other "database is locked") false }
  else cleanDelete

/-- Task 1 has left the map, and its row is still stored. -/
theorem failed_delete_is_cleared :
    (twoTorrents.deleteAll lockedDelete).2.taskIds = [] ∧
    twoTorrents.failingIds lockedDelete = [1] ∧
    (twoTorrents.deleteEach lockedDelete [2, 1]).taskIds = [1] ∧
    (∃ e ∈ (twoTorrents.deleteAll lockedDelete).2.entries,
      e.id = 1 ∧ e.registered = false ∧ e.LeavesBehind) ∧
    ¬ twoTorrents.DeleteAllAgrees lockedDelete := by
  refine ⟨rfl, rfl, rfl, ⟨_, List.mem_cons_self .., rfl, rfl, .inl ⟨rfl, ?_⟩⟩, ?_⟩
  · intro hrows
    cases congrArg (·.task.isSome) hrows
  · intro h
    cases h.keeps

end Paradown
