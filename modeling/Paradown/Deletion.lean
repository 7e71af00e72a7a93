import Paradown.Recovery
import Paradown.Registration
import Paradown.Repository

namespace Paradown
set_option autoImplicit true

/-- The sections of the calls that touch the stored rows of a task, cut where another call can come in
between. `copy` and `flush` are the two halves of `persist_state` of the JSON repository. -/
inductive StoreSection where
  | lookup
  | gate
  | ungate
  | readTask
  | readChecksums
  | readWorker (lane : Nat)
  | createWorkers
  | deleteFile
  | perform (statement : Statement)
  | copy
  | flush
  | setDeleted
  | removeTask
  deriving DecidableEq, Repr

def Backend.perform (backend : Backend) (s : Statement) : List StoreSection :=
  match backend with
  | .jsonFile => [.perform s, .copy, .flush]
  | .memory | .sqlite => [.perform s]

/-- The calls that write or purge the rows of a task. -/
inductive StoreOp where
  | managerPersistTask
  | persistTask
  | persistTaskChecksums
  | persistTaskWorker (lane : Nat)
  | purgeTaskWorkers
  | createWorkers
  | deleteTask
  deriving DecidableEq, Repr

def StoreOp.code (backend : Backend) (id : Nat) : StoreOp → List StoreSection
  | .managerPersistTask => [.lookup, .readTask]
  | .persistTask => [.gate, .readTask, .ungate]
  | .persistTaskChecksums => [.readChecksums]
  | .persistTaskWorker lane => [.readWorker lane]
  | .purgeTaskWorkers => backend.perform (.delete .workers id)
  | .createWorkers => [.createWorkers]
  | .deleteTask => [.lookup, .deleteFile] ++ (backend.purge id).flatMap backend.perform ++
      [.setDeleted, .removeTask]

/-- A call in progress, with the copy of the rows it is about to write to the file, whether it holds
the persistence gate of its task and whether it has returned an error. -/
structure StoreCall where
  op : StoreOp
  task : Nat
  code : List StoreSection
  copy : List Row := []
  gated : Bool := false
  failed : Bool := false
  deriving DecidableEq, Repr

/-- The rows as the repository answers with them, the JSON file, and the ids in the task map. -/
structure StoreWorld where
  backend : Backend
  rows : List Row
  file : List Row
  registered : List Nat
  calls : List StoreCall := []

/-- What the environment decides: whether I/O fails, and what a call finds in the task. The parts of a
task are read one after the other, so this need not be the task at one moment. -/
inductive StoreChoice where
  | ok
  | fail
  | task (t : Task)

def StoreCall.goto (call : StoreCall) (code : List StoreSection) : StoreCall := { call with code }

/-- Return an error; the gate is released with its guard. -/
def StoreCall.fail (call : StoreCall) : StoreCall :=
  { call with code := [], gated := false, failed := true }

def StoreChoice.fails : StoreChoice → Bool
  | .fail => true
  | _ => false

/-- Go on with statements made from what the call has read in its task. -/
def StoreCall.read (w : StoreWorld) (call : StoreCall) (c : StoreChoice)
    (statements : Task → List Statement) : Option (StoreWorld × StoreCall) :=
  match c with
  | .task t =>
    if t.id = call.task then
      some (w, call.goto ((statements t).flatMap w.backend.perform ++ call.code))
    else none
  | _ => none

/-- Execute a section of a call, whose code is what is left after it. -/
def StoreCall.exec (codec : Codec) (w : StoreWorld) (call : StoreCall) (c : StoreChoice) :
    StoreSection → Option (StoreWorld × StoreCall)
  | .lookup => if call.task ∈ w.registered then some (w, call) else some (w, call.fail)
  | .gate =>
    if w.calls.any (fun other => other.task == call.task && other.gated) then none
    else some (w, { call with gated := true })
  | .ungate => some (w, { call with gated := false })
  | .readTask => call.read w c fun t => w.backend.saveBundle (saveTask codec t)
  | .readChecksums =>
    call.read w c fun t => t.checksums.map fun sum => .upsert (.checksum (checksumToDb sum t.id))
  | .readWorker lane =>
    call.read w c fun t =>
      (t.workers.find? (·.id == lane)).toList.map fun worker => .upsert (.worker (workerToDb t.id worker))
  | .createWorkers =>
    call.read w c fun t => t.workers.map fun worker => .upsert (.worker (workerToDb t.id worker))
  | .deleteFile => if c.fails then some (w, call.fail) else some (w, call)
  | .perform s =>
    if w.backend = .sqlite ∧ c.fails then some (w, call.fail)
    else some ({ w with rows := s.apply w.rows }, call)
  | .copy => some (w, { call with copy := w.rows })
  | .flush => if c.fails then some (w, call.fail) else some ({ w with file := call.copy }, call)
  | .setDeleted => some (w, call)
  | .removeTask => some ({ w with registered := w.registered.filter (· != call.task) }, call)

inductive StoreAct where
  | call (op : StoreOp) (id : Nat)
  | step (call : Nat) (choice : StoreChoice)

def StoreWorld.step (codec : Codec) (w : StoreWorld) : StoreAct → Option StoreWorld
  | .call op id =>
    some { w with calls := w.calls ++ [{ op, task := id, code := op.code w.backend id }] }
  | .step i c =>
    match w.calls[i]? with
    | none => none
    | some call =>
      match call.code with
      | [] => none
      | s :: rest =>
        (call.goto rest).exec codec w c s |>.map fun (w', call') =>
          { w' with calls := w'.calls.set i call' }

/-- The call and the section that an action executes. -/
def StoreWorld.next (w : StoreWorld) : StoreAct → Option (StoreCall × StoreSection)
  | .step i _ =>
    match w.calls[i]? with
    | none => none
    | some call => call.code.head?.map fun s => (call, s)
  | .call _ _ => none

/-- The repository of the next process: what the JSON file holds, or the tables. -/
def StoreWorld.stored (w : StoreWorld) : List Row :=
  match w.backend with
  | .jsonFile => w.file
  | _ => w.rows

/-- A deletion of the task that has not returned an error. -/
def StoreCall.deletes (id : Nat) (call : StoreCall) : Bool :=
  call.op == .deleteTask && call.task == id && !call.failed

def StoreSection.writes (table : Table) (id : Nat) : StoreSection → Bool
  | .perform s => s.writes table id
  | _ => false

def StoreSection.purges (table : Table) (id : Nat) : StoreSection → Bool
  | .perform s => s.purges table id
  | _ => false

/-- The code has still to purge the table of the task. -/
def willPurge (table : Table) (id : Nat) (code : List StoreSection) : Bool :=
  code.any (·.purges table id)

def Table.all : List Table := [.tasks, .workers, .pieces, .blocks, .checksums]

/-- A row of the task is put into a table only if every deletion of the task has still to purge this
table, and the JSON file is written from a copy with such a row only if every deletion has still
to write it. -/
structure WritesFirst (id : Nat) (w : StoreWorld) (a : StoreAct) : Prop where
  rows : ∀ e ∈ w.next a, ∀ table ∈ Table.all, e.2.writes table id = true →
    ∀ call ∈ w.calls, call.deletes id = true → willPurge table id call.code = true
  file : ∀ e ∈ w.next a, e.2 = .flush → e.1.copy.any (·.taskId == id) = true →
    ∀ call ∈ w.calls, call.deletes id = true → .flush ∈ call.code

instance {id : Nat} : Decidable (WritesFirst id w a) :=
  decidable_of_iff
    ((∀ e ∈ w.next a, ∀ table ∈ Table.all, e.2.writes table id = true →
        ∀ call ∈ w.calls, call.deletes id = true → willPurge table id call.code = true) ∧
      ∀ e ∈ w.next a, e.2 = .flush → e.1.copy.any (·.taskId == id) = true →
        ∀ call ∈ w.calls, call.deletes id = true → .flush ∈ call.code)
    ⟨fun h => ⟨h.1, h.2⟩, fun h => ⟨h.rows, h.file⟩⟩

/-- The sections that go on with statements of their own. -/
def StoreSection.reads : StoreSection → Bool
  | .readTask | .readChecksums | .readWorker _ | .createWorkers => true
  | _ => false

/-- Everything that executing a section can do. -/
inductive StoreCall.Runs (w : StoreWorld) (call : StoreCall) :
    StoreSection → StoreWorld → StoreCall → Prop where
  | fail : Runs w call s w call.fail
  | pass (gated : Bool) (h : s = .lookup ∨ s = .gate ∨ s = .ungate ∨ s = .deleteFile ∨
      s = .setDeleted) : Runs w call s w { call with gated }
  | read (more : List StoreSection) (h : s.reads = true) :
    Runs w call s w (call.goto (more ++ call.code))
  | perform (st : Statement) :
    Runs w call (.perform st) { w with rows := st.apply w.rows } call
  | copy : Runs w call .copy w { call with copy := w.rows }
  | flush : Runs w call .flush { w with file := call.copy } call
  | remove (registered : List Nat) : Runs w call .removeTask { w with registered } call

theorem StoreCall.read_runs (h : StoreCall.read w call c statements = some (w', call'))
    (hs : s.reads = true) : call.Runs w s w' call' := by
  unfold StoreCall.read at h
  split at h
  · split at h <;> cases h
    exact .read _ hs
  · cases h

theorem StoreCall.exec_runs (h : StoreCall.exec codec w call c s = some (w', call')) :
    call.Runs w s w' call' := by
  cases s with
  | lookup =>
    simp only [StoreCall.exec] at h
    split at h <;> cases h
    · exact .pass call.gated (.inl rfl)
    · exact .fail
  | gate =>
    simp only [StoreCall.exec] at h
    split at h <;> cases h
    exact .pass true (.inr (.inl rfl))
  | ungate =>
    cases h
    exact .pass false (.inr (.inr (.inl rfl)))
  | readTask => exact StoreCall.read_runs h rfl
  | readChecksums => exact StoreCall.read_runs h rfl
  | readWorker lane => exact StoreCall.read_runs h rfl
  | createWorkers => exact StoreCall.read_runs h rfl
  | deleteFile =>
    simp only [StoreCall.exec] at h
    split at h <;> cases h
    · exact .fail
    · exact .pass call.gated (.inr (.inr (.inr (.inl rfl))))
  | perform st =>
    simp only [StoreCall.exec] at h
    split at h <;> cases h
    · exact .fail
    · exact .perform st
  | copy =>
    cases h
    exact .copy
  | flush =>
    simp only [StoreCall.exec] at h
    split at h <;> cases h
    · exact .fail
    · exact .flush
  | setDeleted =>
    cases h
    exact .pass call.gated (.inr (.inr (.inr (.inr rfl))))
  | removeTask =>
    cases h
    exact .remove _

theorem StoreWorld.step_some {w w' : StoreWorld} (h : w.step codec (.step i c) = some w') :
    ∃ call s rest w₁ call₁, w.calls[i]? = some call ∧ call.code = s :: rest ∧
      (call.goto rest).Runs w s w₁ call₁ ∧ w' = { w₁ with calls := w.calls.set i call₁ } := by
  simp only [StoreWorld.step] at h
  split at h
  · cases h
  · rename_i call hi
    split at h
    · cases h
    · rename_i s rest hc
      obtain ⟨⟨w₁, call₁⟩, hx, rfl⟩ := Option.map_eq_some_iff.1 h
      have hruns := StoreCall.exec_runs hx
      refine ⟨call, s, rest, w₁, call₁, hi, hc, hruns, ?_⟩
      have hcalls : w₁.calls = w.calls := by cases hruns <;> rfl
      rw [← hcalls]

/-- In the JSON repository every change is copied and every copy is written. -/
def StoreSection.followed (rest : List StoreSection) : StoreSection → Bool
  | .perform _ => rest.contains .copy
  | .copy => rest.contains .flush
  | _ => true

def allFollowed : List StoreSection → Bool
  | [] => true
  | s :: rest => s.followed rest && allFollowed rest

theorem willPurge_of_allFollowed (h : allFollowed code = true) (hc : StoreSection.copy ∉ code)
    (table : Table) (id : Nat) : willPurge table id code = false := by
  induction code with
  | nil => rfl
  | cons s rest ih =>
    rw [allFollowed, Bool.and_eq_true] at h
    rw [willPurge, List.any_cons]
    have hrest := ih h.2 fun hm => hc (List.mem_cons_of_mem s hm)
    rw [willPurge] at hrest
    rw [hrest, Bool.or_false]
    cases s with
    | perform st =>
      exact absurd (List.mem_cons_of_mem _ (List.contains_iff_mem.1 h.1)) hc
    | _ => rfl

theorem flush_of_copy (h : allFollowed code = true) (hc : StoreSection.copy ∈ code) :
    StoreSection.flush ∈ code := by
  induction code with
  | nil => cases hc
  | cons s rest ih =>
    rw [allFollowed, Bool.and_eq_true] at h
    rcases List.mem_cons.1 hc with rfl | hc
    · exact List.mem_cons_of_mem _ (List.contains_iff_mem.1 h.1)
    · exact List.mem_cons_of_mem s (ih h.2 hc)

/-- The code of a deletion in progress. -/
structure DeletionCode (backend : Backend) (code : List StoreSection) : Prop where
  reads : ∀ s ∈ code, s.reads = false
  followed : backend = .jsonFile → allFollowed code = true

theorem DeletionCode.tail (h : DeletionCode backend (s :: rest)) : DeletionCode backend rest where
  reads m hm := h.reads m (List.mem_cons_of_mem s hm)
  followed hb := by
    have := h.followed hb
    rw [allFollowed, Bool.and_eq_true] at this
    exact this.2

theorem deletionCode_begin (backend : Backend) (id : Nat) :
    DeletionCode backend (StoreOp.deleteTask.code backend id) where
  reads := by
    cases backend <;>
      simp [StoreOp.code, Backend.purge, Backend.deleteTask, Backend.perform, StoreSection.reads]
  followed := by
    rintro rfl
    rfl

theorem perform_purges (backend : Backend) (s : Statement) (table : Table) (id : Nat) :
    willPurge table id (backend.perform s) = s.purges table id := by
  cases backend <;> simp [willPurge, Backend.perform, StoreSection.purges]

theorem deletion_willPurge (backend : Backend) (table : Table) (id : Nat) :
    willPurge table id (StoreOp.deleteTask.code backend id) = true := by
  have hpurge : willPurge table id ((backend.purge id).flatMap backend.perform) = true := by
    rw [willPurge, List.any_flatMap, ← backend.purge_purges table id]
    exact congrArg _ (funext fun s => perform_purges backend s table id)
  simp only [willPurge] at hpurge
  simp only [willPurge, StoreOp.code, List.any_append, hpurge, Bool.or_true, Bool.true_or]

/-- As long as a deletion of the task has not failed: the tables it is through with have no row of the
task, and neither have its last copy and the file that is written from it. -/
structure StoreCall.Purged (id : Nat) (w : StoreWorld) (call : StoreCall) : Prop where
  code : DeletionCode w.backend call.code
  rows : ∀ table, willPurge table id call.code = false → NoRows table id w.rows
  copy : w.backend = .jsonFile → .copy ∉ call.code → .flush ∈ call.code →
    ∀ table, NoRows table id call.copy
  file : w.backend = .jsonFile → .flush ∉ call.code → ∀ table, NoRows table id w.file

def StoreWorld.Purged (id : Nat) (w : StoreWorld) : Prop :=
  ∀ call ∈ w.calls, call.deletes id = true → call.Purged id w

section Step
variable {id i : Nat} {w w₁ : StoreWorld} {call call₁ : StoreCall} {s : StoreSection}
  {rest : List StoreSection}

theorem Table.mem_all (table : Table) : table ∈ Table.all := by
  cases table <;> simp [Table.all]

theorem noRows_of_taskId {rows : List Row} (h : rows.any (·.taskId == id) = false) (table : Table) :
    NoRows table id rows := by
  intro row hr
  have hne : row.taskId ≠ id := by simpa using List.any_eq_false.1 h row hr
  rw [Row.isOf, beq_eq_false_iff_ne.2 hne, Bool.and_false]

theorem StoreWorld.next_eq (hi : w.calls[i]? = some call) (hc : call.code = s :: rest) :
    w.next (.step i c) = some (call, s) := by
  simp only [StoreWorld.next, hi, hc, List.head?_cons, Option.map_some]

theorem StoreCall.Runs.backend (h : call.Runs w s w₁ call₁) : w₁.backend = w.backend := by
  cases h <;> rfl

theorem StoreCall.Runs.deletes (h : call.Runs w s w₁ call₁) (hd : call₁.deletes id = true) :
    call.deletes id = true := by
  cases h with
  | fail => simp [StoreCall.deletes, StoreCall.fail] at hd
  | pass | read | perform | copy | flush | remove => exact hd

variable (hi : w.calls[i]? = some call) (hc : call.code = s :: rest)
  (hok : WritesFirst id w (.step i c))
include hi hc hok

/-- A step keeps the tables clean that no deletion will come back to. -/
theorem WritesFirst.rows_step (hs : (call.goto rest).Runs w s w₁ call₁) {d : StoreCall}
    (hm : d ∈ w.calls) (hd : d.deletes id = true) (hw : willPurge table id d.code = false)
    (hrows : NoRows table id w.rows) : NoRows table id w₁.rows := by
  cases hs with
  | perform st =>
    refine Statement.apply_noRows hrows (Bool.eq_false_iff.2 fun hwrites => ?_)
    have := hok.rows _ (StoreWorld.next_eq hi hc) table (Table.mem_all table) hwrites d hm hd
    rw [hw] at this
    cases this
  | fail | pass | read | copy | flush | remove => exact hrows

theorem WritesFirst.file_step (hs : (call.goto rest).Runs w s w₁ call₁) {d : StoreCall}
    (hm : d ∈ w.calls) (hd : d.deletes id = true) (hw : .flush ∉ d.code)
    (hfile : NoRows table id w.file) : NoRows table id w₁.file := by
  cases hs with
  | flush =>
    refine noRows_of_taskId (Bool.eq_false_iff.2 fun hany => hw ?_) table
    exact hok.file _ (StoreWorld.next_eq hi hc) rfl hany d hm hd
  | fail | pass | read | perform | copy | remove => exact hfile

theorem StoreCall.Purged.other {d : StoreCall} (h : d.Purged id w) (hm : d ∈ w.calls)
    (hd : d.deletes id = true) (hs : (call.goto rest).Runs w s w₁ call₁) : d.Purged id w₁ where
  code := hs.backend ▸ h.code
  rows table hw := hok.rows_step hi hc hs hm hd hw (h.rows table hw)
  copy hb := h.copy (hs.backend.symm.trans hb)
  file hb hw table := hok.file_step hi hc hs hm hd hw (h.file (hs.backend.symm.trans hb) hw table)

/-- A deletion stays in order when it makes a step itself. -/
theorem StoreCall.Purged.own (h : call.Purged id w) (hd : call₁.deletes id = true)
    (hs : (call.goto rest).Runs w s w₁ call₁) : call₁.Purged id w₁ := by
  have hm := List.mem_of_getElem? hi
  have hdel : call.deletes id = true := hs.deletes hd
  have hreads : s.reads = false := h.code.reads s (hc ▸ List.mem_cons_self)
  have hcode : DeletionCode w.backend rest := DeletionCode.tail (hc ▸ h.code)
  have hfollowed : w.backend = .jsonFile → s.followed rest = true := by
    intro hb
    have := h.code.followed hb
    rw [hc, allFollowed, Bool.and_eq_true] at this
    exact this.1
  -- A section that is not a purge leaves to purge what was left before.
  have hpurge : ∀ table, s.purges table id = false → willPurge table id rest = false →
      willPurge table id call.code = false := by
    intro table h1 h2
    rw [willPurge, hc, List.any_cons, h1, Bool.false_or]
    exact h2
  have hkeep : ∀ table, s.purges table id = false → willPurge table id rest = false →
      NoRows table id w₁.rows := fun table h1 h2 =>
    hok.rows_step hi hc hs hm hdel (hpurge table h1 h2) (h.rows table (hpurge table h1 h2))
  have hcopy : s ≠ .copy → .copy ∉ rest → .copy ∉ call.code := by
    intro h1 h2 hmem
    rw [hc] at hmem
    rcases List.mem_cons.1 hmem with he | hmem
    · exact h1 he.symm
    · exact h2 hmem
  have hflush : s ≠ .flush → .flush ∉ rest → .flush ∉ call.code := by
    intro h1 h2 hmem
    rw [hc] at hmem
    rcases List.mem_cons.1 hmem with he | hmem
    · exact h1 he.symm
    · exact h2 hmem
  have hlater : ∀ {m}, m ∈ rest → m ∈ call.code := fun hmem => hc ▸ List.mem_cons_of_mem s hmem
  cases hs with
  | fail => simp [StoreCall.deletes, StoreCall.fail] at hd
  | read more hr => cases hreads.symm.trans hr
  | pass gated hp =>
    refine ⟨hcode, fun table hw => hkeep table ?_ hw, fun hb h1 h2 => ?_, fun hb h1 => ?_⟩
    · rcases hp with rfl | rfl | rfl | rfl | rfl <;> rfl
    · exact h.copy hb (hcopy (by rcases hp with rfl | rfl | rfl | rfl | rfl <;> simp) h1) (hlater h2)
    · exact h.file hb (hflush (by rcases hp with rfl | rfl | rfl | rfl | rfl <;> simp) h1)
  | remove registered =>
    refine ⟨hcode, fun table hw => hkeep table rfl hw, fun hb h1 h2 => ?_, fun hb h1 => ?_⟩
    · exact h.copy hb (hcopy (by simp) h1) (hlater h2)
    · exact h.file hb (hflush (by simp) h1)
  | perform st =>
    refine ⟨hcode, fun table hw => ?_, fun hb h1 h2 => ?_, fun hb h1 => ?_⟩
    · cases hst : st.purges table id with
      | true => exact Statement.apply_purges hst
      | false => exact hkeep table hst hw
    · exact h.copy hb (hcopy (by simp) h1) (hlater h2)
    · exact h.file hb (hflush (by simp) h1)
  | copy =>
    refine ⟨hcode, fun table hw => hkeep table rfl hw, fun hb h1 _ table => ?_, fun hb h1 => ?_⟩
    · -- Nothing is left to purge, so the copy is clean.
      have hno := willPurge_of_allFollowed (hcode.followed hb) h1 table id
      exact hkeep table rfl hno
    · exact h.file hb (hflush (by simp) h1)
  | flush =>
    refine ⟨hcode, fun table hw => hkeep table rfl hw, fun hb h1 h2 => ?_, fun hb h1 table => ?_⟩
    · exact h.copy hb (hcopy (by simp) h1) (hlater h2)
    · -- The last copy is what the file is written from.
      have hno : .copy ∉ rest := fun hmem => h1 (flush_of_copy (hcode.followed hb) hmem)
      exact h.copy hb (hcopy (by simp) hno) (hc ▸ List.mem_cons_self) table

end Step

theorem StoreWorld.Purged.step {w w' : StoreWorld} {id : Nat} (h : w.Purged id)
    (hok : WritesFirst id w a) (hs : w.step codec a = some w') : w'.Purged id := by
  intro d hm hd
  cases a with
  | call op k =>
    cases hs
    rcases List.mem_append.1 hm with hm | hm
    · obtain ⟨h1, h2, h3, h4⟩ := h d hm hd
      exact ⟨h1, h2, h3, h4⟩
    · cases List.mem_singleton.1 hm
      simp only [StoreCall.deletes, Bool.and_eq_true, beq_iff_eq] at hd
      obtain ⟨⟨rfl, rfl⟩, _⟩ := hd
      have hbegin := deletionCode_begin w.backend k
      refine ⟨hbegin, fun table hno => ?_, fun hb hno => ?_, fun hb hno => ?_⟩
      · rw [deletion_willPurge] at hno
        cases hno
      · refine absurd ?_ hno
        rw [show w.backend = .jsonFile from hb]
        simp [StoreOp.code, Backend.purge, Backend.perform]
      · refine absurd ?_ hno
        rw [show w.backend = .jsonFile from hb]
        simp [StoreOp.code, Backend.purge, Backend.perform]
  | step i c =>
    obtain ⟨call, s, rest, w₁, call₁, hi, hc, hruns, rfl⟩ := StoreWorld.step_some hs
    rcases List.mem_or_eq_of_mem_set hm with hm | rfl
    · obtain ⟨h1, h2, h3, h4⟩ := (h d hm hd).other hi hc hok hm hd hruns
      exact ⟨h1, h2, h3, h4⟩
    · have hdel : call.deletes id = true := hruns.deletes hd
      obtain ⟨h1, h2, h3, h4⟩ :=
        (h call (List.mem_of_getElem? hi) hdel).own hi hc hok hd hruns
      exact ⟨h1, h2, h3, h4⟩

/-- In every run in which the rows of a task are written before its deletion is through with their
tables, a deletion that has returned without an error leaves no row of the task, neither in the
repository nor in what the next process restores from. -/
theorem deletion_is_final (codec : Codec) (backend : Backend) (rows file : List Row)
    (registered : List Nat) (as : List StoreAct) (w : StoreWorld) (id : Nat)
    (hr : Transition.run (StoreWorld.step codec) { backend, rows, file, registered } as = some w)
    (hc : Transition.Meets (StoreWorld.step codec) (WritesFirst id)
      { backend, rows, file, registered } as)
    (hd : ∃ call ∈ w.calls, call.deletes id = true ∧ call.code = []) :
    (∀ row ∈ w.rows, row.taskId ≠ id) ∧ (∀ row ∈ w.stored, row.taskId ≠ id) ∧
      ∀ b ∈ loadTaskBundles w.stored, b.task.id ≠ id := by
  have hinit : StoreWorld.Purged id { backend, rows, file, registered } :=
    fun call hm => absurd hm List.not_mem_nil
  have hend := hc.invariant (I := StoreWorld.Purged id) (fun _ _ _ h hok hs => h.step hok hs) hinit hr
  obtain ⟨call, hm, hdel, hcode⟩ := hd
  have hpurged := hend call hm hdel
  have hrows : ∀ table, NoRows table id w.rows := fun table =>
    hpurged.rows table (by rw [hcode]; rfl)
  have hstored : ∀ table, NoRows table id w.stored := by
    intro table
    unfold StoreWorld.stored
    split
    · exact hpurged.file ‹_› (by rw [hcode]; exact List.not_mem_nil) table
    · exact hrows table
  have hclean : ∀ {rows : List Row}, (∀ table, NoRows table id rows) → ∀ row ∈ rows,
      row.taskId ≠ id := by
    intro rows h row hm he
    have := h row.table row hm
    rw [Row.isOf, he, beq_self_eq_true, beq_self_eq_true] at this
    cases this
  exact ⟨hclean hrows, hclean hstored, loadTaskBundles_noRows (hstored .tasks)⟩

/-- A task that has not been started. -/
def storedTask : Task :=
  Task.new registryConfig 0 3 (TaskRequest.build (.https "https://example.com/a.iso") none)

/-- The next `n` steps of a call, with nothing going wrong. -/
def storeSteps (call n : Nat) : List StoreAct := List.replicate n (.step call .ok)

/-- The task is persisted while its deletion is at the start. -/
def deletedWhilePersisted : List StoreAct :=
  List.flatten [[.call .persistTask 3, .call .deleteTask 3], storeSteps 0 1,
    [.step 0 (.task storedTask)], storeSteps 1 2, storeSteps 0 2, storeSteps 1 9]

theorem persisted_task_is_deleted :
    ∃ w, Transition.run (StoreWorld.step bareCodec)
        { backend := .sqlite, rows := [], file := [], registered := [3] }
        deletedWhilePersisted = some w ∧
      w.registered = [] ∧ (∀ row ∈ w.rows, row.taskId ≠ 3) ∧
      ∀ b ∈ loadTaskBundles w.stored, b.task.id ≠ 3 := by
  obtain ⟨w, hr, hreg, hdone⟩ : ∃ w, Transition.run (StoreWorld.step bareCodec)
      { backend := .sqlite, rows := [], file := [], registered := [3] }
      deletedWhilePersisted = some w ∧ w.registered = [] ∧
      ∃ call ∈ w.calls, call.deletes 3 = true ∧ call.code = [] :=
    Transition.run_any (by decide)
  obtain ⟨hrows, _, hbundles⟩ := deletion_is_final bareCodec .sqlite [] [] [3] deletedWhilePersisted
    w 3 hr (by decide) hdone
  exact ⟨w, hr, hreg, hrows, hbundles⟩

/-- The manager has read the task for its last row when the deletion begins, and writes the row after
it. -/
def persistedAfterDeletion : List StoreAct :=
  List.flatten [[.call .managerPersistTask 3], storeSteps 0 1, [.step 0 (.task storedTask)],
    [.call .deleteTask 3], storeSteps 1 11, storeSteps 0 1]

theorem deleted_task_comes_back :
    ∃ w, Transition.run (StoreWorld.step bareCodec)
        { backend := .sqlite, rows := [], file := [], registered := [3] }
        persistedAfterDeletion = some w ∧
      w.registered = [] ∧ (∀ call ∈ w.calls, call.code = [] ∧ call.failed = false) ∧
      (∃ call ∈ w.calls, call.deletes 3 = true) ∧ (∃ row ∈ w.rows, row.taskId = 3) ∧
      ∃ b ∈ loadTaskBundles w.stored, b.task.id = 3 :=
  Transition.run_any (by decide)

end Paradown
