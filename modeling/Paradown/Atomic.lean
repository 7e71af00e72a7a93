import Paradown.SwarmStop

namespace Paradown
set_option autoImplicit true

/-- What `Task::resume` does next, when it has not failed. -/
inductive ResumeDirective where
  | resumed
  | start
  deriving DecidableEq, Repr

namespace SwarmTask

/-- `Task::resume` up to its call of `start`. -/
def beginResume (env : SwarmEnv) (engine : Except Error Unit) (s : SwarmTask) :
    Except Error ResumeDirective × SwarmTask :=
  match s.task.status with
  | .pending | .running => (.ok .start, s)
  | .paused =>
    if s.session.isSome then
      let s := s.setStatus .running
      match engine with
      | .error err => (.error err, s)
      | .ok () =>
        match s.persistTask env with
        | (.error err, s) => (.error err, s)
        | (.ok (), s) => (.ok .resumed, s.emitManagerEvent .start)
    else
      match (s.setStatus .pending).persistTask env with
      | (.error err, s) => (.error err, s)
      | (.ok (), s) => (.ok .start, s)
  | status => (.error (.other s!"Cannot resume task in state: {env.debug status}"), s)

end SwarmTask

/-- A message by which a task reports one of these operations. -/
def TaskMessage.controls : TaskMessage → Bool
  | .pause | .start | .cancel => true
  | _ => false

namespace SwarmTask

/-- When the operation fails, the status is the one before the call, and no event of a control
operation has been sent. -/
def Atomic (s : SwarmTask) (r : Except Error α × SwarmTask) : Prop :=
  ∀ err, r.1 = .error err → r.2.task.status = s.task.status ∧
    ∃ more, r.2.sent = s.sent ++ more ∧ ∀ message ∈ more, message.controls = false

/-- The engine, where it is asked, and the repository, where there is one, both answer `Ok`. -/
def Answered (s : SwarmTask) (env : SwarmEnv) (engine : Except Error Unit) : Prop :=
  s.askEngine engine = .ok () ∧ (s.persistence = true → env.taskSaved.result = .ok ())

theorem Atomic.refused (s : SwarmTask) (result : Except Error α) : s.Atomic (result, s) :=
  fun _ _ => ⟨rfl, [], (List.append_nil _).symm, fun _ hm => absurd hm List.not_mem_nil⟩

theorem atomic_iff_ok {s : SwarmTask} {r : Except Error α × SwarmTask}
    (h : r.2.task.status ≠ s.task.status) : s.Atomic r ↔ ∀ err, r.1 ≠ .error err := by
  constructor
  · intro hatomic err herr
    exact h (hatomic err herr).1
  · intro hok err herr
    exact absurd herr (hok err)

theorem persistTask_fst (env : SwarmEnv) (s : SwarmTask) :
    (s.persistTask env).1 = if s.persistence then env.taskSaved.result else .ok () := by
  rw [persistTask, save]
  split
  · rename_i h
    rw [if_pos (show s.persistence = true from h)]
  · rename_i h
    rw [if_neg (show ¬ s.persistence = true from h)]

theorem persistTask_ok_iff (env : SwarmEnv) (s : SwarmTask) :
    (s.persistTask env).1 = .ok () ↔ (s.persistence = true → env.taskSaved.result = .ok ()) := by
  rw [persistTask_fst]
  split
  · rename_i h
    exact ⟨fun hs _ => hs, fun hs => hs h⟩
  · rename_i h
    exact ⟨fun _ hs => absurd hs h, fun _ => rfl⟩

/-- What the three operations do once they have set the status: ask the engine, save, report. -/
def commit (env : SwarmEnv) (engine : Except Error Unit) (s : SwarmTask) (f : Worker → Worker)
    (message : TaskMessage) : Except Error Unit × SwarmTask :=
  match s.askEngine engine with
  | .error err => (.error err, s)
  | .ok () =>
    andThen ((s.setTask { s.task with workers := s.task.workers.map f }).persistTask env)
      fun s => (.ok (), s.emitManagerEvent message)

theorem commit_status (env : SwarmEnv) (engine : Except Error Unit) (s : SwarmTask)
    (f : Worker → Worker) (message : TaskMessage) :
    (s.commit env engine f message).2.task.status = s.task.status := by
  unfold commit
  split
  · rfl
  · apply andThen_keeps (P := fun t => t.task.status = s.task.status)
    · rw [persistTask_status]
      rfl
    · intro t ht
      exact ht

theorem commit_ok_iff (env : SwarmEnv) (engine : Except Error Unit) (s : SwarmTask)
    (f : Worker → Worker) (message : TaskMessage) :
    (∀ err, (s.commit env engine f message).1 ≠ .error err) ↔ s.Answered env engine := by
  unfold commit Answered
  cases s.askEngine engine with
  | error err =>
    apply iff_of_false
    · intro h
      exact h err rfl
    · intro h
      cases h.1
  | ok _ =>
    have hsave := persistTask_ok_iff env (s.setTask { s.task with workers := s.task.workers.map f })
    rw [show (s.setTask { s.task with workers := s.task.workers.map f }).persistence =
      s.persistence from rfl] at hsave
    rw [← hsave]
    obtain ⟨result, s'⟩ := (s.setTask { s.task with workers := s.task.workers.map f }).persistTask env
    cases result with
    | error err =>
      apply iff_of_false
      · intro h
        exact h err rfl
      · intro h
        cases h.2
    | ok _ =>
      apply iff_of_true
      · intro err h
        cases h
      · exact ⟨rfl, rfl⟩

/-- An operation that commits to another status is atomic only if nothing fails after that. -/
theorem commit_atomic_iff {s : SwarmTask} {next : Status} (h : next ≠ s.task.status)
    (env : SwarmEnv) (engine : Except Error Unit) (f : Worker → Worker) (message : TaskMessage) :
    s.Atomic ((s.setStatus next).commit env engine f message) ↔ s.Answered env engine := by
  rw [atomic_iff_ok, commit_ok_iff]
  · rfl
  · rw [commit_status]
    exact h

theorem pause_atomic_iff (env : SwarmEnv) (engine : Except Error Unit) (s : SwarmTask) :
    s.Atomic (s.pause env engine) ↔ (s.task.status.isActive = true → s.Answered env engine) := by
  cases hstatus : s.task.status with
  | preparing | running =>
    have hpause : s.pause env engine =
        (s.setStatus .paused).commit env engine Worker.pause .pause := by
      simp only [pause, hstatus]
      rfl
    rw [hpause, commit_atomic_iff (by rw [hstatus]; exact Status.noConfusion)]
    exact ⟨fun h _ => h, fun h => h rfl⟩
  | pending | paused | completed | canceled | deleted | failed err =>
    simp only [pause, hstatus]
    apply iff_of_true (Atomic.refused s _)
    intro h
    cases h

theorem cancel_atomic_iff (env : SwarmEnv) (engine : Except Error Unit) (s : SwarmTask) :
    s.Atomic (s.cancel env engine) ↔ (s.task.status.isTerminal = false → s.Answered env engine) := by
  cases hstatus : s.task.status with
  | pending | preparing | running | paused =>
    have hcancel : s.cancel env engine =
        (s.setStatus .canceled).commit env engine Worker.cancel .cancel := by
      simp only [cancel, hstatus]
      rfl
    rw [hcancel, commit_atomic_iff (by rw [hstatus]; exact Status.noConfusion)]
    exact ⟨fun h _ => h, fun h => h rfl⟩
  | completed | canceled | deleted | failed err =>
    simp only [cancel, hstatus]
    apply iff_of_true (Atomic.refused s _)
    intro h
    cases h

theorem beginResume_paused {s : SwarmTask} (h : s.task.status = .paused) (env : SwarmEnv)
    (engine : Except Error Unit) :
    (s.beginResume env engine).2.task.status ≠ .paused ∧
      ((∀ err, (s.beginResume env engine).1 ≠ .error err) ↔ s.Answered env engine) := by
  have hsave (next : Status) := persistTask_ok_iff env (s.setStatus next)
  have hstatus (next : Status) := persistTask_status env (s.setStatus next)
  simp only [beginResume, h, Answered, askEngine]
  split
  · cases engine with
    | error err =>
      refine ⟨Status.noConfusion, iff_of_false ?_ ?_⟩
      · intro hok
        exact hok err rfl
      · intro hanswered
        cases hanswered.1
    | ok _ =>
      have hsave := hsave .running
      have hstatus := hstatus .running
      rw [show (s.setStatus .running).persistence = s.persistence from rfl] at hsave
      rw [← hsave]
      generalize (s.setStatus .running).persistTask env = r at hstatus ⊢
      obtain ⟨result, s'⟩ := r
      have hne : s'.task.status ≠ .paused := fun hp => nomatch hp.symm.trans hstatus
      cases result with
      | error err => exact ⟨hne, iff_of_false (fun hok => hok err rfl) fun hok => nomatch hok.2⟩
      | ok _ => exact ⟨hne, iff_of_true (fun err herr => nomatch herr) ⟨rfl, rfl⟩⟩
  · have hsave := hsave .pending
    have hstatus := hstatus .pending
    rw [show (s.setStatus .pending).persistence = s.persistence from rfl] at hsave
    rw [← hsave]
    generalize (s.setStatus .pending).persistTask env = r at hstatus ⊢
    obtain ⟨result, s'⟩ := r
    have hne : s'.task.status ≠ .paused := fun hp => nomatch hp.symm.trans hstatus
    cases result with
    | error err => exact ⟨hne, iff_of_false (fun hok => hok err rfl) fun hok => nomatch hok.2⟩
    | ok _ => exact ⟨hne, iff_of_true (fun err herr => nomatch herr) ⟨rfl, rfl⟩⟩

theorem resume_atomic_iff (env : SwarmEnv) (engine : Except Error Unit) (s : SwarmTask) :
    s.Atomic (s.beginResume env engine) ↔ (s.task.status = .paused → s.Answered env engine) := by
  by_cases hstatus : s.task.status = .paused
  · obtain ⟨hne, hok⟩ := beginResume_paused hstatus env engine
    rw [atomic_iff_ok (by rw [hstatus]; exact hne), hok]
    exact ⟨fun h _ => h, fun h => h hstatus⟩
  · apply iff_of_true
    · unfold beginResume
      split
      · exact .refused s _
      · exact .refused s _
      · exact absurd ‹_› hstatus
      · exact .refused s _
    · intro h
      exact absurd h hstatus

/-- Whether the task is in a state from which the operation goes on. -/
def Commits (s : SwarmTask) : TaskMessage → Prop
  | .pause => s.task.status.isActive = true
  | .start => s.task.status = .paused
  | .cancel => s.task.status.isTerminal = false
  | _ => False

/-- The three operations leave status and messages alone when they fail, exactly as long as no call
of the engine or of the repository fails after the new status has been set. -/
theorem control_atomic_iff (env : SwarmEnv) (engine : Except Error Unit) (s : SwarmTask) :
    (s.Atomic (s.pause env engine) ↔ (s.Commits .pause → s.Answered env engine)) ∧
    (s.Atomic (s.beginResume env engine) ↔ (s.Commits .start → s.Answered env engine)) ∧
    (s.Atomic (s.cancel env engine) ↔ (s.Commits .cancel → s.Answered env engine)) :=
  ⟨s.pause_atomic_iff env engine, s.resume_atomic_iff env engine, s.cancel_atomic_iff env engine⟩

end SwarmTask

/-- A paused HTTP task with a repository. -/
def pausedDownload : SwarmTask where
  task := { Task.new registryConfig 0 1 (.build (.https "https://a.example/f.bin") (some 1)) with
    status := .paused }
  persistence := true
  session := none
  transfer := none
  diagnostics := []
  permit := false
  sent := [.start, .pause]
  stored := {}

def lockedSwarmEnv : SwarmEnv :=
  { quietSwarmEnv with taskSaved := .failed (.other "database is locked") false }

/-- A pause that the engine refuses leaves the task paused, a resume that cannot be saved leaves it
pending, and a cancel that cannot be saved leaves it canceled. -/
theorem failed_controls_commit :
    (¬ runningTorrent.Atomic (runningTorrent.pause quietSwarmEnv (.error (.other "engine gone")))) ∧
    (¬ pausedDownload.Atomic (pausedDownload.beginResume lockedSwarmEnv (.ok ()))) ∧
    ¬ pausedDownload.Atomic (pausedDownload.cancel lockedSwarmEnv (.ok ())) := by
  refine ⟨?_, ?_, ?_⟩
  · intro h
    cases (h _ rfl).1
  · intro h
    cases (h _ rfl).1
  · intro h
    cases (h _ rfl).1

end Paradown
