import Paradown.Swarm
import Paradown.Registration

namespace Paradown
set_option autoImplicit true

/-- A message that ends a task, or says that it has stopped. -/
def TaskMessage.concludes : TaskMessage → Bool
  | .complete | .error _ | .pause => true
  | _ => false

/-- Whether the event loop of the manager saves the task for this message; `due` is the answer of
`should_persist_progress`. -/
def TaskMessage.persists (due : Bool) : TaskMessage → Bool
  | .complete | .cancel | .error _ | .pause => true
  | .progress _ _ => due
  | _ => false

/-- A task and what its manager knows of it: whether the task is in the map, and how many of its
messages the event loop has taken. -/
structure ManagedTorrent where
  torrent : SwarmTask
  registered : Bool
  taken : Nat

inductive TorrentAct where
  | engine (env : SwarmEnv) (event : TorrentEngineEvent)
  | takeMessage (env : SwarmEnv) (due : Bool)
  | loseMessage
  | unregister

/-- The listener handles an event of the engine, the event loop takes a message of the task or
loses it, or `delete_task` removes the task from the map. -/
def ManagedTorrent.step (m : ManagedTorrent) : TorrentAct → Option ManagedTorrent
  | .engine env event => some { m with torrent := (m.torrent.handleTorrentEngineEvent env event).2 }
  | .takeMessage env due =>
    match m.torrent.sent[m.taken]? with
    | none => none
    | some message =>
      let torrent :=
        if message.persists due && m.registered then (m.torrent.persistByManager env).2 else m.torrent
      some { m with torrent, taken := m.taken + 1 }
  | .loseMessage =>
    match m.torrent.sent[m.taken]? with
    | none => none
    | some _ => some { m with taken := m.taken + 1 }
  | .unregister => some { m with registered := false }

namespace SwarmTask

/-- Since `before` the status has stayed, no concluding message has been sent, and nothing of a
deleted task has been stored. -/
structure Stays (before s : SwarmTask) : Prop where
  status : s.task.status = before.task.status
  sent : ∃ more, s.sent = before.sent ++ more ∧ ∀ message ∈ more, message.concludes = false
  stored : before.task.status = .deleted → s.stored = before.stored

/-- A save that leaves no row of a deleted task behind. -/
def SavesNothing (s : SwarmTask) (env : SwarmEnv) : Prop :=
  s.task.status = .deleted → s.persistence = true → env.taskSaved.writes = false

/-- The events that a canceled or deleted task can take. -/
def Harmless (s : SwarmTask) (env : SwarmEnv) : TorrentEngineEvent → Prop
  | .stateChanged state => state ≠ .completed ∧ state ≠ .seeding ∧ state ≠ .paused
  | .finished | .error _ => False
  | .metadataDiscovered metadata => metadata.Installable → s.SavesNothing env
  | .pieceFinished _ | .resumeData _ => s.SavesNothing env
  | .progress _ | .diagnostic _ => True

end SwarmTask

/-- The steps that leave a canceled or deleted task alone. The manager may save a deleted task that
is still in its map. -/
def ManagedTorrent.Harmless (m : ManagedTorrent) : TorrentAct → Prop
  | .engine env event => m.torrent.Harmless env event
  | .takeMessage env due => m.registered = true →
    (∃ message ∈ m.torrent.sent[m.taken]?, message.persists due = true) → m.torrent.SavesNothing env
  | .loseMessage | .unregister => True

namespace SwarmTask

@[simp] theorem save_task (s : SwarmTask) (outcome : SaveOutcome) (rows : StoredRows → StoredRows) :
    (s.save outcome rows).2.task = s.task := by
  unfold save
  split_ifs <;> rfl

@[simp] theorem save_sent (s : SwarmTask) (outcome : SaveOutcome) (rows : StoredRows → StoredRows) :
    (s.save outcome rows).2.sent = s.sent := by
  unfold save
  split_ifs <;> rfl

@[simp] theorem save_persistence (s : SwarmTask) (outcome : SaveOutcome)
    (rows : StoredRows → StoredRows) : (s.save outcome rows).2.persistence = s.persistence := by
  unfold save
  split_ifs <;> rfl

theorem save_stored (s : SwarmTask) (outcome : SaveOutcome) (rows : StoredRows → StoredRows) :
    (s.save outcome rows).2.stored =
      if s.persistence = true ∧ outcome.writes = true then rows s.stored else s.stored := by
  unfold save
  split_ifs <;> simp_all

theorem andThen_keeps {P : SwarmTask → Prop} (hr : P r.2) (hf : ∀ s, P s → P (f s).2) :
    P (andThen r f).2 := by
  obtain ⟨result, s⟩ := r
  cases result with
  | error err => exact hr
  | ok _ => exact hf s hr

/-- A property that saves, time stamps, messages and the return of the permit keep. -/
structure Kept (env : SwarmEnv) (P : SwarmTask → Prop) : Prop where
  save : ∀ s outcome rows, P s → P (s.save outcome rows).2
  stamp : ∀ s, P s → P (s.setTask { s.task with updatedAt := some env.now })
  emit : ∀ s message, P s → P (s.emitManagerEvent message)
  release : ∀ s, P s → P s.releasePermit

theorem Kept.of_task {Q : Task → Prop} (h : ∀ t, Q t → Q { t with updatedAt := some env.now }) :
    Kept env fun s => Q s.task where
  save s outcome rows hs := by
    rw [save_task]
    exact hs
  stamp s hs := h s.task hs
  emit _ _ hs := hs
  release _ hs := hs

theorem Kept.persistTask {P : SwarmTask → Prop} (h : Kept env P) {s : SwarmTask} (hs : P s) :
    P (s.persistTask env).2 := h.save _ _ _ (h.stamp s hs)

theorem Kept.finishAndRelease {P : SwarmTask → Prop} (h : Kept env P) {s : SwarmTask}
    {outcome : Except Error Unit}
    (hok : outcome = .ok () →
      P (s.setTask { s.task.markAllPiecesCompleted with status := .completed }))
    (herr : ∀ err, outcome = .error err → P (s.setStatus (.failed err))) :
    P (s.finishAndRelease env outcome).2 := by
  have hsaves (s : SwarmTask) (message : TaskMessage) (hs : P s) :
      P (andThen (s.persistTaskChecksums env) fun s =>
        andThen (s.persistTask env) fun s => (.ok (), s.emitManagerEvent message)).2 := by
    have hchecksums : P (s.persistTaskChecksums env).2 := h.save _ _ _ hs
    apply andThen_keeps (P := P) hchecksums
    intro s hs
    apply andThen_keeps (P := P) (h.persistTask hs)
    intro s hs
    exact h.emit s message hs
  apply andThen_keeps (P := P)
  · cases outcome with
    | ok _ => exact hsaves _ _ (hok rfl)
    | error err => exact hsaves _ _ (herr err rfl)
  · intro s hs
    exact h.release s hs

theorem persistTask_status (env : SwarmEnv) (s : SwarmTask) :
    (s.persistTask env).2.task.status = s.task.status := by
  rw [persistTask, save_task]
  rfl

theorem finishAndRelease_status (env : SwarmEnv) (s : SwarmTask) (outcome : Except Error Unit) :
    (s.finishAndRelease env outcome).2.task.status ≠ .canceled ∧
      (s.finishAndRelease env outcome).2.task.status ≠ .deleted := by
  have hkept : Kept env fun s => s.task.status ≠ .canceled ∧ s.task.status ≠ .deleted :=
    .of_task (Q := fun t => t.status ≠ .canceled ∧ t.status ≠ .deleted) fun _ ht => ht
  apply hkept.finishAndRelease
  · intro _
    exact ⟨Status.noConfusion, Status.noConfusion⟩
  · intro err _
    exact ⟨Status.noConfusion, Status.noConfusion⟩

theorem kept_persistence (env : SwarmEnv) (persistence : Bool) :
    Kept env fun s => s.persistence = persistence where
  save s outcome rows hs := by
    rw [save_persistence]
    exact hs
  stamp _ hs := hs
  emit _ _ hs := hs
  release _ hs := hs

theorem persistTask_persistence (env : SwarmEnv) (s : SwarmTask) :
    (s.persistTask env).2.persistence = s.persistence :=
  (kept_persistence env s.persistence).persistTask rfl

theorem finishAndRelease_persistence (env : SwarmEnv) (s : SwarmTask)
    (outcome : Except Error Unit) :
    (s.finishAndRelease env outcome).2.persistence = s.persistence :=
  (kept_persistence env s.persistence).finishAndRelease (fun _ => rfl) fun _ _ => rfl

theorem handleTorrentEngineEvent_persistence (env : SwarmEnv) (s : SwarmTask)
    (event : TorrentEngineEvent) :
    (s.handleTorrentEngineEvent env event).2.persistence = s.persistence := by
  cases event with
  | metadataDiscovered metadata =>
    simp only [handleTorrentEngineEvent]
    split
    · rfl
    · exact persistTask_persistence _ _
  | stateChanged state =>
    cases state with
    | completed => exact finishAndRelease_persistence _ _ _
    | seeding => exact finishAndRelease_persistence _ _ _
    | _ => rfl
  | progress stats => rfl
  | pieceFinished pieceIndex => exact persistTask_persistence _ _
  | resumeData bytes => exact persistTask_persistence _ _
  | diagnostic d =>
    simp only [handleTorrentEngineEvent]
    split_ifs <;> rfl
  | finished => exact finishAndRelease_persistence _ _ _
  | error message => exact finishAndRelease_persistence _ _ _

theorem Stays.refl (s : SwarmTask) : Stays s s := by
  constructor
  case status => rfl
  case sent => exact ⟨[], (List.append_nil _).symm, fun message hm => absurd hm List.not_mem_nil⟩
  case stored =>
    intro _
    rfl

theorem Stays.quiet {before s s' : SwarmTask} (h : Stays before s)
    (ht : s'.task.status = s.task.status) (hs : s'.sent = s.sent) (hr : s'.stored = s.stored) :
    Stays before s' := by
  constructor
  case status => exact ht.trans h.status
  case sent =>
    rw [hs]
    exact h.sent
  case stored =>
    rw [hr]
    exact h.stored

theorem Stays.emit {before s : SwarmTask} (h : Stays before s)
    (hm : message.concludes = false) : Stays before (s.emitManagerEvent message) := by
  obtain ⟨more, hmore, hall⟩ := h.sent
  constructor
  case status => exact h.status
  case sent =>
    refine ⟨more ++ [message], ?_, ?_⟩
    · rw [emitManagerEvent, hmore, List.append_assoc]
    · intro other hother
      rcases List.mem_append.1 hother with hother | hother
      · exact hall other hother
      · rw [List.mem_singleton.1 hother]
        exact hm
  case stored => exact h.stored

theorem Stays.save_iff {before s : SwarmTask} (h : Stays before s) (env : SwarmEnv)
    (hclean : before.task.status = .deleted → s.persistence = true → before.stored.task = none)
    (bundle : StoredBundle) :
    Stays before (s.save env.taskSaved fun _ => .ofBundle bundle).2 ↔ s.SavesNothing env := by
  have hstored := save_stored s env.taskSaved fun _ => .ofBundle bundle
  constructor
  · intro hstays hdeleted hpersistence
    rw [h.status] at hdeleted
    by_contra hwrites
    rw [Bool.not_eq_false] at hwrites
    have hrow := hstays.stored hdeleted
    rw [hstored, if_pos ⟨hpersistence, hwrites⟩] at hrow
    have hnone := hclean hdeleted hpersistence
    rw [← hrow] at hnone
    cases hnone
  · intro hsaves
    constructor
    case status =>
      rw [save_task]
      exact h.status
    case sent =>
      rw [save_sent]
      exact h.sent
    case stored =>
      intro hdeleted
      rw [hstored, if_neg]
      · exact h.stored hdeleted
      · rintro ⟨hpersistence, hwrites⟩
        rw [hsaves (h.status.trans hdeleted) hpersistence] at hwrites
        cases hwrites

theorem Stays.persist_iff {before s : SwarmTask} (h : Stays before s) (env : SwarmEnv)
    (hclean : before.task.status = .deleted → s.persistence = true → before.stored.task = none) :
    Stays before (s.persistTask env).2 ↔ s.SavesNothing env := by
  have hset : Stays before (s.setTask { s.task with updatedAt := some env.now }) :=
    h.quiet rfl rfl rfl
  exact hset.save_iff env hclean _

/-- One event leaves a canceled or deleted task alone exactly when it is harmless. -/
theorem Stays.handle_iff {before s : SwarmTask} (h : Stays before s)
    (hstop : before.task.status = .canceled ∨ before.task.status = .deleted)
    (hclean : before.task.status = .deleted → s.persistence = true → before.stored.task = none)
    (env : SwarmEnv) (event : TorrentEngineEvent) :
    Stays before (s.handleTorrentEngineEvent env event).2 ↔ s.Harmless env event := by
  have hfinish (t : SwarmTask) (outcome : Except Error Unit) :
      ¬ Stays before (t.finishAndRelease env outcome).2 := by
    intro hstays
    obtain ⟨hcanceled, hdeleted⟩ := finishAndRelease_status env t outcome
    rw [hstays.status] at hcanceled hdeleted
    exact hstop.elim hcanceled hdeleted
  cases event with
  | metadataDiscovered metadata =>
    have hrecorded : Stays before (s.recordTorrentMetadata metadata) := h.quiet rfl rfl rfl
    have hset (t : Task) (ht : t.status = s.task.status) :
        Stays before (((s.recordTorrentMetadata metadata).setTask t).persistTask env).2 ↔
          s.SavesNothing env := by
      have hstays : Stays before ((s.recordTorrentMetadata metadata).setTask t) :=
        h.quiet ht rfl rfl
      rw [hstays.persist_iff env hclean, SavesNothing, SavesNothing, ← ht]
      rfl
    have hok := installTorrentMetadata_isOk (s.recordTorrentMetadata metadata).task metadata
      (s.recordTorrentMetadata metadata).task.filePath
    simp only [handleTorrentEngineEvent, Harmless, ← hok]
    cases hinstall : installTorrentMetadata (s.recordTorrentMetadata metadata).task metadata
        (s.recordTorrentMetadata metadata).task.filePath with
    | error err =>
      apply iff_of_true hrecorded
      rintro ⟨t, ht⟩
      cases ht
    | ok t =>
      have hsame := installTorrentMetadata_status hinstall
      have ht := hset t hsame
      constructor
      · intro hs _
        exact ht.1 hs
      · intro hs
        exact ht.2 (hs ⟨t, rfl⟩)
  | stateChanged state =>
    have hrecorded : Stays before (s.recordTorrentState state) := h.quiet rfl rfl rfl
    cases state with
    | completed => exact iff_of_false (hfinish _ _) fun hs => hs.1 rfl
    | seeding => exact iff_of_false (hfinish _ _) fun hs => hs.2.1 rfl
    | paused =>
      apply iff_of_false
      · intro hstays
        have hpaused : Status.paused = before.task.status := hstays.status
        rcases hstop with hstop | hstop <;> cases hpaused.trans hstop
      · intro hs
        exact hs.2.2 rfl
    | resolvingMetadata | checkingFiles | downloading =>
      exact iff_of_true hrecorded ⟨by decide, by decide, by decide⟩
    | error message =>
      exact iff_of_true hrecorded
        ⟨TorrentEngineState.noConfusion, TorrentEngineState.noConfusion, TorrentEngineState.noConfusion⟩
  | progress stats =>
    apply iff_of_true _ trivial
    apply Stays.emit _ rfl
    exact h.quiet rfl rfl rfl
  | pieceFinished pieceIndex =>
    have hset : Stays before (s.setTask { s.task with
        pieceStates := markPiece pieceIndex s.task.pieceStates }) := h.quiet rfl rfl rfl
    exact hset.persist_iff env hclean
  | resumeData bytes =>
    have hset : Stays before (s.recordTorrentResumeData bytes) := h.quiet rfl rfl rfl
    exact hset.persist_iff env hclean
  | diagnostic d =>
    apply iff_of_true _ trivial
    have hrecorded : Stays before (if shouldRetainTorrentDiagnostic d then
        s.recordTorrentDiagnostic d else s) := by
      split
      · exact h.quiet rfl rfl rfl
      · exact h
    simp only [handleTorrentEngineEvent]
    split
    · exact hrecorded.emit rfl
    · exact hrecorded
  | finished => exact iff_of_false (hfinish _ _) id
  | error message => exact iff_of_false (hfinish _ _) id

theorem andThen_ok (h : andThen r f = (.ok (), s')) : ∃ s, r = (.ok (), s) ∧ f s = (.ok (), s') := by
  obtain ⟨result, s⟩ := r
  cases result with
  | error err => cases h
  | ok _ => exact ⟨s, rfl, h⟩

theorem cancel_ok {s s₀ : SwarmTask} (h : s.cancel env engine = (.ok (), s₀)) :
    s₀.task.status = .canceled := by
  unfold cancel at h
  split at h
  case h_1 | h_2 | h_3 | h_4 =>
    dsimp only at h
    split at h
    · cases h
    · obtain ⟨t, ht, hsent⟩ := andThen_ok h
      have hstatus := persistTask_status env ((s.setStatus .canceled).setTask
        { (s.setStatus .canceled).task with
          workers := (s.setStatus .canceled).task.workers.map Worker.cancel })
      rw [ht] at hstatus
      rw [← (Prod.mk.inj hsent).2]
      exact hstatus
  case h_5 => cases h

theorem purge_ok {s s' : SwarmTask} (h : s.purge outcome rows = (.ok (), s')) :
    s'.persistence = s.persistence ∧ (s.persistence = true → s'.stored = rows s.stored) := by
  unfold purge at h
  split at h
  · cases h
  · rename_i t ht
    obtain ⟨_, rfl⟩ := Prod.mk.inj h
    have hpersistence := save_persistence s outcome rows
    have hstored := save_stored s outcome rows
    rw [ht] at hpersistence hstored
    refine ⟨hpersistence, ?_⟩
    intro hp
    have hresult : (s.save outcome rows).1 = .ok () := congrArg Prod.fst ht
    cases outcome with
    | saved => exact hstored.trans (if_pos ⟨hp, rfl⟩)
    | failed err written =>
      rw [save, if_pos hp] at hresult
      cases hresult

theorem delete_ok {s s₀ : SwarmTask} (h : s.delete outcome = (.ok (), s₀)) :
    s₀.task.status = .deleted ∧ (s₀.persistence = true → s₀.stored = {}) := by
  unfold delete at h
  split at h
  · cases h
  · dsimp only at h
    split at h
    · cases h
    · obtain ⟨s₁, h₁, h⟩ := andThen_ok h
      obtain ⟨s₂, h₂, h⟩ := andThen_ok h
      obtain ⟨s₃, h₃, h⟩ := andThen_ok h
      obtain ⟨_, rfl⟩ := Prod.mk.inj h
      obtain ⟨hp₁, hr₁⟩ := purge_ok h₁
      obtain ⟨hp₂, hr₂⟩ := purge_ok h₂
      obtain ⟨hp₃, hr₃⟩ := purge_ok h₃
      refine ⟨rfl, ?_⟩
      intro hp
      have hp₂' : s₂.persistence = true := hp₃.symm.trans hp
      have hp₁' : s₁.persistence = true := hp₂.symm.trans hp₂'
      have hstored : s₃.stored = {} := by
        rw [hr₃ hp₂', hr₂ hp₁']
      exact hstored

end SwarmTask

theorem ManagedTorrent.step_persistence (h : ManagedTorrent.step m a = some m') :
    m'.torrent.persistence = m.torrent.persistence := by
  cases a with
  | engine env event =>
    cases h
    exact SwarmTask.handleTorrentEngineEvent_persistence _ _ _
  | takeMessage env due =>
    simp only [step] at h
    split at h
    · cases h
    · cases h
      dsimp only
      split
      · exact SwarmTask.save_persistence _ _ _
      · rfl
  | loseMessage =>
    simp only [step] at h
    split at h
    · cases h
    · cases h
      rfl
  | unregister =>
    cases h
    rfl

/-- One step leaves a canceled or deleted task alone exactly when it is harmless. -/
theorem ManagedTorrent.step_iff {before : SwarmTask} {m m' : ManagedTorrent}
    (h : before.Stays m.torrent)
    (hstop : before.task.status = .canceled ∨ before.task.status = .deleted)
    (hclean : before.task.status = .deleted → m.torrent.persistence = true →
      before.stored.task = none) (hstep : m.step a = some m') :
    before.Stays m'.torrent ↔ m.Harmless a := by
  cases a with
  | engine env event =>
    cases hstep
    exact h.handle_iff hstop hclean env event
  | takeMessage env due =>
    simp only [step] at hstep
    split at hstep
    · cases hstep
    · rename_i message hmessage
      cases hstep
      simp only [Harmless, hmessage, Option.mem_def, Option.some.injEq, exists_eq_left']
      split
      · rename_i hsaves
        rw [Bool.and_eq_true] at hsaves
        rw [SwarmTask.persistByManager, h.save_iff env hclean]
        constructor
        · intro hs _ _
          exact hs
        · intro hs
          exact hs hsaves.2 hsaves.1
      · rename_i hsaves
        apply iff_of_true h
        intro hregistered hpersists
        rw [hpersists, hregistered] at hsaves
        exact absurd rfl hsaves
  | loseMessage =>
    simp only [step] at hstep
    split at hstep
    · cases hstep
    · cases hstep
      exact iff_of_true h trivial
  | unregister =>
    cases hstep
    exact iff_of_true h trivial

/-- After `cancel` or `delete` has returned `Ok`, the task stays as it is exactly when all steps
that follow are harmless, whatever the engine reports, in whatever order. -/
theorem stopped_torrent_stays_iff (s : SwarmTask) (m m' : ManagedTorrent) (env : SwarmEnv)
    (engine : Except Error Unit) (outcome : DeleteOutcome)
    (hstop : s.cancel env engine = (.ok (), m.torrent) ∨ s.delete outcome = (.ok (), m.torrent))
    (acts : List TorrentAct) (hrun : Transition.run ManagedTorrent.step m acts = some m') :
    (m.torrent.task.status = .canceled ∨ m.torrent.task.status = .deleted ∧
      (m.torrent.persistence = true → m.torrent.stored = {})) ∧
    (Transition.Meets ManagedTorrent.step
        (fun x a => ∀ x', x.step a = some x' → m.torrent.Stays x'.torrent) m acts ↔
      Transition.Meets ManagedTorrent.step ManagedTorrent.Harmless m acts) := by
  have hstatus : m.torrent.task.status = .canceled ∨ m.torrent.task.status = .deleted ∧
      (m.torrent.persistence = true → m.torrent.stored = {}) :=
    hstop.imp SwarmTask.cancel_ok SwarmTask.delete_ok
  have hclean : m.torrent.task.status = .deleted → m.torrent.persistence = true →
      m.torrent.stored.task = none := by
    intro hdeleted hp
    rcases hstatus with hcanceled | ⟨_, hstored⟩
    · cases hcanceled.symm.trans hdeleted
    · rw [hstored hp]
  refine ⟨hstatus, ?_⟩
  apply Transition.meets_iff (I := fun x => m.torrent.Stays x.torrent ∧
    x.torrent.persistence = m.torrent.persistence) ?_ ?_ ⟨.refl _, rfl⟩ hrun
  · rintro x a x' ⟨_, hp⟩ hstays hstep
    exact ⟨hstays x' hstep, (ManagedTorrent.step_persistence hstep).trans hp⟩
  · rintro x a x' ⟨hx, hp⟩ hstep
    rw [← ManagedTorrent.step_iff hx (hstatus.imp id And.left) (hp.symm ▸ hclean) hstep]
    constructor
    · intro hall
      exact hall x' hstep
    · intro hstays x'' hstep'
      cases hstep.symm.trans hstep'
      exact hstays

instance (s : SwarmTask) (env : SwarmEnv) : Decidable (s.SavesNothing env) :=
  inferInstanceAs (Decidable (_ → _ → _))

instance (s : SwarmTask) (env : SwarmEnv) : (event : TorrentEngineEvent) →
    Decidable (s.Harmless env event)
  | .stateChanged _ => inferInstanceAs (Decidable (_ ∧ _ ∧ _))
  | .finished | .error _ => isFalse id
  | .metadataDiscovered _ => inferInstanceAs (Decidable (_ → _))
  | .pieceFinished _ | .resumeData _ => inferInstanceAs (Decidable (s.SavesNothing env))
  | .progress _ | .diagnostic _ => isTrue trivial

instance (m : ManagedTorrent) : (a : TorrentAct) → Decidable (m.Harmless a)
  | .engine env event => inferInstanceAs (Decidable (m.torrent.Harmless env event))
  | .takeMessage _ _ => inferInstanceAs (Decidable (_ → _ → _))
  | .loseMessage | .unregister => isTrue trivial

/-- A running torrent task with a repository. -/
def runningTorrent : SwarmTask where
  task := { Task.new registryConfig 0 1 (.build (.magnet "magnet:?xt=urn:btih:c0ffee") (some 1)) with
    status := .running }
  persistence := true
  session := some ⟨⟨.libtorrent, "c0ffee"⟩, .downloading, none, none, none⟩
  transfer := none
  diagnostics := []
  permit := true
  sent := [.start]
  stored := {}

/-- Every save succeeds. -/
def quietSwarmEnv : SwarmEnv where
  codec := bareCodec
  debug := Status.toText
  now := 0
  checksumsSaved := .saved
  taskSaved := .saved

def canceledTorrent : SwarmTask := (runningTorrent.cancel quietSwarmEnv (.ok ())).2

def cleanDelete : DeleteOutcome := ⟨.ok (), .ok (), .saved, .saved, .saved⟩

def deletedTorrent : SwarmTask := (runningTorrent.delete cleanDelete).2

def lateEvents : List TorrentAct :=
  [.engine quietSwarmEnv (.stateChanged .downloading),
    .engine quietSwarmEnv (.progress ⟨7, 10, 0, 0, 0, 0⟩), .takeMessage quietSwarmEnv true,
    .engine quietSwarmEnv (.resumeData [1, 2]), .takeMessage quietSwarmEnv true]

theorem canceled_torrent_stays :
    Transition.Meets ManagedTorrent.step
      (fun x a => ∀ x', x.step a = some x' → canceledTorrent.Stays x'.torrent)
      ⟨canceledTorrent, true, 0⟩ lateEvents := by
  have hcancel : runningTorrent.cancel quietSwarmEnv (.ok ()) = (.ok (), canceledTorrent) := rfl
  obtain ⟨m', hrun, _⟩ : ∃ m', Transition.run ManagedTorrent.step ⟨canceledTorrent, true, 0⟩
      lateEvents = some m' ∧ m'.taken = 2 := Transition.run_any (by decide)
  apply (stopped_torrent_stays_iff runningTorrent ⟨canceledTorrent, true, 0⟩ m' quietSwarmEnv (.ok ())
    cleanDelete (.inl hcancel) lateEvents hrun).2.2
  decide

/-- A canceled torrent is completed by the next `Finished`, and the row of a deleted one is written
back with the next resume data. -/
theorem stopped_torrent_moves :
    (runningTorrent.cancel quietSwarmEnv (.ok ()) = (.ok (), canceledTorrent) ∧
      (canceledTorrent.handleTorrentEngineEvent quietSwarmEnv .finished).2.task.status = .completed ∧
      TaskMessage.complete ∈ (canceledTorrent.handleTorrentEngineEvent quietSwarmEnv .finished).2.sent) ∧
    runningTorrent.delete cleanDelete = (.ok (), deletedTorrent) ∧ deletedTorrent.stored = {} ∧
      (deletedTorrent.handleTorrentEngineEvent quietSwarmEnv (.resumeData [1, 2])).2.stored.task.map
        (·.status) = some "Deleted" ∧
      (deletedTorrent.handleTorrentEngineEvent quietSwarmEnv (.stateChanged .paused)).2.task.status =
        .paused := by
  refine ⟨⟨rfl, rfl, ?_⟩, rfl, rfl, rfl, rfl⟩
  decide

end Paradown
