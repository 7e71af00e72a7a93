import Paradown.Completion

namespace Paradown
set_option autoImplicit true

/-- The file at `path` exists and holds at least `n` bytes. -/
def FileSystem.AtLeast (fs : FileSystem) (path : String) (n : Nat) : Prop :=
  ∃ f, fs.file path = some f ∧ n ≤ f.len

/-- Whatever is at `path` was created with an inode number from `n` on. -/
def FileSystem.NewerThan (fs : FileSystem) (path : String) (n : Nat) : Prop :=
  n ≤ fs.nextIno ∧ ∀ f, fs.file path = some f → n ≤ f.ino

theorem FileSystem.AtLeast.openOrCreate {fs : FileSystem} (h : fs.AtLeast path n) (p : String) :
    (fs.openOrCreate p).AtLeast path n := by
  obtain ⟨f, hf, hn⟩ := h
  cases hp : fs.file p with
  | some g =>
    rw [openOrCreate_some hp]
    exact ⟨f, hf, hn⟩
  | none =>
    have hne : path ≠ p := fun he => by simp [he, hp] at hf
    refine ⟨f, ?_, hn⟩
    unfold FileSystem.openOrCreate
    split
    · exact hf
    · simp [hne, hf]

theorem FileSystem.AtLeast.modify {fs : FileSystem} (h : fs.AtLeast path n) (p : String)
    {g : List Cell → List Cell} (hg : ∀ cells, cells.length ≤ (g cells).length) :
    (fs.modify p g).AtLeast path n := by
  obtain ⟨f, hf, hn⟩ := h
  by_cases hp : path = p
  · subst p
    refine ⟨{ f with cells := g f.cells }, by simp [hf], ?_⟩
    exact le_trans hn (hg f.cells)
  · exact ⟨f, by simp [FileSystem.modify, hp, hf], hn⟩

theorem FileSystem.openOrCreate_exists (fs : FileSystem) (path : String) :
    ∃ f, (fs.openOrCreate path).file path = some f := by
  cases h : fs.file path with
  | some f => exact ⟨f, by rw [openOrCreate_some h, h]⟩
  | none => exact ⟨_, openOrCreate_none h⟩

theorem FileSystem.AtLeast.writeAt {fs fs' : FileSystem} (h : fs.AtLeast path n) {m : FileMap}
    (hw : m.writeAt fs offset data = .ok fs') : fs'.AtLeast path n := by
  unfold FileMap.writeAt at hw
  cases hr : m.resolveWrites offset data.length with
  | error e => simp [hr, bind, Except.bind] at hw
  | ok writes =>
    simp only [hr, bind, Except.bind, pure, Except.pure, Except.ok.injEq] at hw
    subst hw
    clear hr
    induction writes generalizing fs with
    | nil => exact h
    | cons w ws ih =>
      have hw : (writeSlice data fs w).AtLeast path n := by
        unfold writeSlice
        refine (h.openOrCreate w.path).modify w.path fun cells => ?_
        rw [writeCells_length]
        exact le_max_left _ _
      exact ih hw

theorem FileSystem.NewerThan.openOrCreate {fs : FileSystem} (h : fs.NewerThan path n) (p : String) :
    (fs.openOrCreate p).NewerThan path n := by
  unfold FileSystem.openOrCreate
  split
  · exact h
  · refine ⟨Nat.le_succ_of_le h.1, fun f hf => ?_⟩
    simp only at hf
    split at hf
    · cases hf
      exact h.1
    · exact h.2 f hf

theorem FileSystem.NewerThan.modify {fs : FileSystem} (h : fs.NewerThan path n) (p : String)
    (g : List Cell → List Cell) : (fs.modify p g).NewerThan path n := by
  refine ⟨h.1, fun f hf => ?_⟩
  simp only [FileSystem.modify] at hf
  split at hf
  · obtain ⟨f', hf', rfl⟩ := Option.map_eq_some_iff.1 hf
    exact h.2 f' hf'
  · exact h.2 f hf

theorem FileSystem.NewerThan.prepare {fs : FileSystem} (h : fs.NewerThan path n) (m : FileMap) :
    (m.prepare fs).NewerThan path n := by
  unfold FileMap.prepare
  generalize m.segments = segments
  induction segments generalizing fs with
  | nil => exact h
  | cons s ss ih =>
    refine ih ?_
    unfold prepareSegment
    split
    · exact (h.openOrCreate s.path).modify s.path _
    · exact h.openOrCreate s.path

theorem FileSystem.removeFile_newerThan (fs : FileSystem) (path : String) :
    (fs.removeFile path).NewerThan path fs.nextIno :=
  ⟨le_refl _, fun f hf => by simp at hf⟩

/-- The parts of a task that preparation leaves alone once the manifest is installed. -/
structure SameTarget (t t' : Task) : Prop where
  spec : t'.spec = t.spec
  filePath : t'.filePath = t.filePath
  status : t'.status = t.status
  manifest : t'.manifest = t.manifest

theorem resetResumeState_sameTarget (t : Task) : SameTarget t (resetResumeState t) :=
  ⟨rfl, rfl, rfl, rfl⟩

theorem verifyExistingFile_sameTarget (env : Env) (t : Task) (file : File)
    (probe : OriginMetadata) (previous : HttpResourceIdentity) :
    SameTarget t (verifyExistingFile env t file probe previous).2 := by
  unfold verifyExistingFile
  split
  · exact ⟨rfl, rfl, rfl, rfl⟩
  · split <;> exact ⟨rfl, rfl, rfl, rfl⟩

theorem SameTarget.trans (h : SameTarget t t') (h' : SameTarget t' t'') : SameTarget t t'' :=
  ⟨h'.spec.trans h.spec, h'.filePath.trans h.filePath, h'.status.trans h.status,
    h'.manifest.trans h.manifest⟩

theorem finishOrDiscard_cases (env : Env) (m : Machine) (path : String) (file : File)
    (probe : OriginMetadata) (previous : HttpResourceIdentity) :
    (∃ m', finishOrDiscard env m path file probe previous = (true, m') ∧
      m'.task.status = .completed) ∨
    ∃ t', finishOrDiscard env m path file probe previous = (false, ⟨t', m.fs.removeFile path⟩) ∧
      SameTarget m.task t' := by
  simp only [finishOrDiscard]
  split
  · exact .inl ⟨_, rfl, rfl⟩
  · exact .inr ⟨_, rfl, (verifyExistingFile_sameTarget env m.task file probe previous).trans
      (resetResumeState_sameTarget _)⟩

/-- The local file is still the same one, the task is not completed, and every block that was
complete is complete. -/
structure KeepsProgress (path : String) (before after : Machine) : Prop where
  file : ∃ f f', before.fs.file path = some f ∧ after.fs.file path = some f' ∧ f'.ino = f.ino
  status : after.task.status ≠ .completed
  blocks : ∀ b ∈ before.task.blockStates, b.completed = true →
    ∃ b' ∈ after.task.blockStates, b'.pieceIndex = b.pieceIndex ∧ b'.blockIndex = b.blockIndex ∧
      b'.completed = true

/-- A file that already has its final length is either accepted as it is or removed. -/
theorem handleExistingFile_full (env : Env) {fs : FileSystem} (t : Task)
    (previous : HttpResourceIdentity) (changed : Bool)
    (hf : fs.file path = some file) (hp : probe.totalSize = some totalSize)
    (hl : totalSize ≤ file.len) :
    (∃ m, handleExistingFile env ⟨t, fs⟩ path probe previous changed = (true, m) ∧
      m.task.status = .completed) ∨
    ∃ t', handleExistingFile env ⟨t, fs⟩ path probe previous changed =
      (false, ⟨t', fs.removeFile path⟩) := by
  have hfin : (∃ m, finishOrDiscard env ⟨t, fs⟩ path file probe previous = (true, m) ∧
      m.task.status = .completed) ∨
      ∃ t', finishOrDiscard env ⟨t, fs⟩ path file probe previous =
        (false, ⟨t', fs.removeFile path⟩) := by
    rcases finishOrDiscard_cases env ⟨t, fs⟩ path file probe previous with h | ⟨t', h, _⟩
    · exact .inl h
    · exact .inr ⟨t', h⟩
  simp only [handleExistingFile, hf, hp]
  split
  · exact .inr ⟨_, rfl⟩
  · split
    · exact .inr ⟨_, rfl⟩
    · cases t.config.fileConflictStrategy with
      | overwrite => exact .inr ⟨_, rfl⟩
      | skipIfValid => exact hfin
      | resume =>
        simp only [Nat.not_lt.2 hl, ↓reduceIte]
        exact hfin

/-- Preparation after `handle_existing_file`: the machine it finished with, or its file system with
the files of the manifest allocated. -/
theorem prepareDownload_handled {env : Env} {m m' : Machine}
    (hs : m.task.spec.supportsSwarmDiscovery = false)
    (hh : handleExistingFile env ⟨(installProbe env probe m.task).2.2, m.fs⟩
      (plannedPath env probe m.task) probe m.task.identity
      (m.task.identity.validatorChanged probe.resourceIdentity) = (finished, m')) :
    (finished = true → (prepareDownload env (.ok probe) m).2 = m') ∧
      (finished = false → (prepareDownload env (.ok probe) m).2.fs = m'.fs ∨
        (prepareDownload env (.ok probe) m).2.fs =
          (FileMap.fromManifest (plannedManifest env probe m.task)).prepare m'.fs) := by
  simp only [prepareDownload, hs, Bool.false_eq_true, ↓reduceIte]
  unfold plannedPath at hh
  rw [hh]
  cases finished with
  | true => simp
  | false =>
    simp only [Bool.false_eq_true, ↓reduceIte, false_implies, true_and, true_implies]
    split
    · exact .inl rfl
    · split
      · refine .inr ?_
        unfold finishEmptyPayload finishJob
        dsimp only
        split <;> rfl
      · exact .inr rfl

theorem prepareDownload_loses_progress {env : Env} {m before : Machine}
    (hs : m.task.spec.supportsSwarmDiscovery = false) (hp : probe.totalSize = some totalSize)
    (hf : m.fs.AtLeast (plannedPath env probe m.task) totalSize) (hb : before.fs = m.fs) :
    ¬ KeepsProgress (plannedPath env probe m.task) before (prepareDownload env (.ok probe) m).2 := by
  obtain ⟨file, hf, hl⟩ := hf
  intro hk
  obtain ⟨f, f', h1, h2, h3⟩ := hk.file
  rw [hb, hf] at h1
  cases h1
  have hino := m.fs.fresh _ _ hf
  rcases handleExistingFile_full env (installProbe env probe m.task).2.2 m.task.identity
    (m.task.identity.validatorChanged probe.resourceIdentity) hf hp hl with ⟨m', hm, hc⟩ | ⟨t', hm⟩
  · rw [(prepareDownload_handled hs hm).1 rfl] at hk
    exact hk.status hc
  · have hr := m.fs.removeFile_newerThan (plannedPath env probe m.task)
    have hn : (prepareDownload env (.ok probe) m).2.fs.NewerThan (plannedPath env probe m.task)
        m.fs.nextIno := by
      rcases (prepareDownload_handled hs hm).2 rfl with he | he
      · rw [he]
        exact hr
      · rw [he]
        exact hr.prepare _
    have := hn.2 f' h2
    omega

/-- Transfers of the workers, as opposed to calls on the task. -/
def Action.isTransfer : Action → Bool
  | .runWorker _ | .respond _ | .slice _ _ => true
  | _ => false

/-- A download of known size that was started, transferred some of its bytes and was paused, in
this process or in an earlier one. A restart keeps the specification and the path of the task. -/
inductive PausedTransfer (env : Env) (codec : Codec) (totalSize : Nat) (path : String) :
    History → Prop where
  | paused {s₀ s₁ s₂ s₃ : History} (hs : s₀.machine.task.spec.supportsSwarmDiscovery = false)
    (hp : prepares s₀ a = some (m, probe)) (hn : probe.totalSize = some totalSize)
    (h0 : 0 < totalSize) (ha : step env codec s₀ a = some s₁)
    (hr : s₁.machine.task.status = .running) (ht : ∀ b ∈ transfers, b.isTransfer = true)
    (hb : Transition.run (step env codec) s₁ transfers = some s₂)
    (hf : s₂.machine.task.filePath = some path) (hz : step env codec s₂ .pause = some s₃) :
    PausedTransfer env codec totalSize path s₃
  | restarted (h : PausedTransfer env codec totalSize path s)
    (hj : codec.specFromJson (codec.specToJson s.machine.task.spec) = some s.machine.task.spec)
    (hn : normalizedTextField path = some path) (hz : step env codec s .restart = some s') :
    PausedTransfer env codec totalSize path s'

/-- What a paused transfer leaves for the next preparation. -/
structure Preallocated (totalSize : Nat) (path : String) (s : History) : Prop where
  origin : s.machine.task.spec.supportsSwarmDiscovery = false
  target : s.machine.task.filePath = some path
  file : s.machine.fs.AtLeast path totalSize

theorem runWorker_some {s : History} (h : runWorker s index = some s') :
    ∃ w, s'.machine = ⟨s.machine.task.setWorker index w, s.machine.fs⟩ := by
  simp only [runWorker, Option.bind_eq_bind, Option.bind_eq_some_iff, Option.pure_def,
    Option.some.injEq] at h
  obtain ⟨_, _, w, _, rfl⟩ := h
  exact ⟨w, rfl⟩

theorem respond_some {s : History} (h : respond s index = some s') : s'.machine = s.machine := by
  simp only [respond, Option.bind_eq_bind, Option.bind_eq_some_iff, Option.pure_def] at h
  obtain ⟨_, _, _, _, h⟩ := h
  split at h
  · cases h
    rfl
  · cases h

theorem slice_some {s : History} (h : slice s index data = some s') :
    ∃ (w : Worker) (stream : Stream) (fs : FileSystem),
      stream.store.writeAt s.machine.fs stream.offset data = .ok fs ∧
      s'.machine = ⟨s.machine.task.setWorker index w, fs⟩ := by
  simp only [slice, Option.bind_eq_bind, Option.bind_eq_some_iff, Option.pure_def] at h
  obtain ⟨w, _, stream, _, h⟩ := h
  split at h
  · split at h
    · cases h
    · rename_i fs hw
      cases h
      exact ⟨_, stream, fs, hw, rfl⟩
  · cases h

theorem Preallocated.transfer (h : Preallocated totalSize path s) (ht : a.isTransfer = true)
    (ha : step env codec s a = some s') :
    Preallocated totalSize path s' ∧ s'.machine.task.status = s.machine.task.status := by
  cases a with
  | runWorker index =>
    obtain ⟨w, hm⟩ := runWorker_some ha
    refine ⟨⟨?_, ?_, ?_⟩, ?_⟩ <;> rw [hm]
    exacts [h.origin, h.target, h.file, rfl]
  | respond index =>
    have hm := respond_some ha
    refine ⟨⟨?_, ?_, ?_⟩, ?_⟩ <;> rw [hm]
    exacts [h.origin, h.target, h.file]
  | slice index data =>
    obtain ⟨w, stream, fs, hw, hm⟩ := slice_some ha
    refine ⟨⟨?_, ?_, ?_⟩, ?_⟩ <;> rw [hm]
    exacts [h.origin, h.target, h.file.writeAt hw, rfl]
  | _ => cases ht

theorem Preallocated.transfers (h : Preallocated totalSize path s)
    (ht : ∀ b ∈ bs, b.isTransfer = true) (hr : Transition.run (step env codec) s bs = some s') :
    Preallocated totalSize path s' ∧ s'.machine.task.status = s.machine.task.status := by
  induction bs generalizing s with
  | nil =>
    simp only [Transition.run, Option.some.injEq] at hr
    subst s'
    exact ⟨h, rfl⟩
  | cons b bs ih =>
    obtain ⟨s₁, hb, hr⟩ := Transition.run_cons hr
    obtain ⟨h₁, e₁⟩ := h.transfer (ht b List.mem_cons_self) hb
    obtain ⟨h₂, e₂⟩ := ih h₁ (fun c hc => ht c (List.mem_cons_of_mem b hc)) hr
    exact ⟨h₂, e₂.trans e₁⟩

theorem handleExistingFile_cases (env : Env) (m : Machine) (path : String) (probe : OriginMetadata)
    (previous : HttpResourceIdentity) (changed : Bool) :
    (∃ m', handleExistingFile env m path probe previous changed = (true, m') ∧
      m'.task.status = .completed) ∨
    ∃ m', handleExistingFile env m path probe previous changed = (false, m') ∧
      SameTarget m.task m'.task := by
  have hd : ∀ m' : Machine, SameTarget m'.task (discardFile m' path).task :=
    fun m' => resetResumeState_sameTarget m'.task
  have hfin : ∀ file, (∃ m', finishOrDiscard env m path file probe previous = (true, m') ∧
      m'.task.status = .completed) ∨
      ∃ m', finishOrDiscard env m path file probe previous = (false, m') ∧
        SameTarget m.task m'.task := by
    intro file
    rcases finishOrDiscard_cases env m path file probe previous with h | ⟨t', h, ht⟩
    · exact .inl h
    · exact .inr ⟨_, h, ht⟩
  unfold handleExistingFile
  split
  · refine .inr ⟨_, rfl, ?_⟩
    dsimp only [resetMissingFileState]
    split
    · exact ⟨rfl, rfl, rfl, rfl⟩
    · exact resetResumeState_sameTarget m.task
  · split
    · exact .inr ⟨_, rfl, hd m⟩
    · split
      · exact .inr ⟨_, rfl, hd m⟩
      · split
        · exact .inr ⟨_, rfl, hd m⟩
        · split
          · exact .inr ⟨_, rfl, hd m⟩
          · exact hfin _
          · split
            · split
              · exact .inr ⟨_, rfl, ⟨rfl, rfl, rfl, rfl⟩⟩
              · exact .inr ⟨_, rfl, hd m⟩
            · exact hfin _

theorem sync_sameTarget {t : Task} (h : t.manifest = some manifest) :
    ∃ n t', t.syncPieceProgressFromWorkers = (.ok n, t') ∧ SameTarget t t' := by
  simp only [Task.syncPieceProgressFromWorkers, h]
  split
  · exact ⟨_, _, rfl, rfl, rfl, rfl, h.symm⟩
  · exact ⟨_, _, rfl, rfl, rfl, rfl, h.symm⟩

theorem installProbe_target (env : Env) (probe : OriginMetadata) (t : Task) :
    (installProbe env probe t).2.2.spec = t.spec ∧
      (installProbe env probe t).2.2.status = t.status ∧
      (installProbe env probe t).2.2.filePath = some (plannedPath env probe t) := by
  simp only [installProbe, plannedPath, Task.installManifest, Task.getOrInitFilePath,
    Task.initializeFileName, Task.updateProtocolProbe]
  cases hf : t.filePath <;> cases hn : t.fileName <;> exact ⟨rfl, rfl, rfl⟩

theorem plannedManifest_prepare (env : Env) (t : Task) (fs : FileSystem)
    (hn : probe.totalSize = some totalSize) (h0 : 0 < totalSize) :
    ((FileMap.fromManifest (plannedManifest env probe t)).prepare fs).AtLeast
      (plannedPath env probe t) totalSize := by
  have hseg : (FileMap.fromManifest (plannedManifest env probe t)).segments =
      [⟨plannedPath env probe t, 0, totalSize⟩] := by
    simp [FileMap.fromManifest, plannedManifest, plannedPath, installProbe,
      Task.buildSingleFileManifest, hn, SessionManifest.forSingleFileWithPieceSize]
  have hb : (FileMap.fromManifest (plannedManifest env probe t)).bounded = true := by
    simp [FileMap.fromManifest, plannedManifest, installProbe, Task.buildSingleFileManifest, hn,
      SessionManifest.forSingleFileWithPieceSize, h0]
  obtain ⟨f, hf⟩ := fs.openOrCreate_exists (plannedPath env probe t)
  refine ⟨{ f with cells := setLen f.cells totalSize }, ?_, ?_⟩
  · simp [FileMap.prepare, hseg, prepareSegment, hb, hf]
  · exact le_of_eq (setLen_length f.cells totalSize).symm

/-- A preparation with a known, positive size completes the task, or allocates its file. -/
theorem prepareDownload_cases (env : Env) {m : Machine}
    (hs : m.task.spec.supportsSwarmDiscovery = false) (hn : probe.totalSize = some totalSize)
    (h0 : 0 < totalSize) :
    (∃ m', prepareDownload env (.ok probe) m = (.ok .finished, m') ∧
      m'.task.status = .completed) ∨
    ∃ m' path, prepareDownload env (.ok probe) m = (.ok (.ready path), m') ∧
      m'.task.spec = m.task.spec ∧ m'.task.filePath = some path ∧
      m'.fs.AtLeast path totalSize := by
  have hz : probe.totalSize ≠ some 0 := by
    rw [hn]
    simp only [ne_eq, Option.some.injEq]
    omega
  obtain ⟨hspec, -, hpath⟩ := installProbe_target env probe m.task
  simp only [prepareDownload, hs, Bool.false_eq_true, ↓reduceIte, hz]
  rcases handleExistingFile_cases env ⟨(installProbe env probe m.task).2.2, m.fs⟩
    (installProbe env probe m.task).1 probe m.task.identity
    (m.task.identity.validatorChanged probe.resourceIdentity) with ⟨m', hm, hc⟩ | ⟨m', hm, ht⟩
  · rw [hm]
    exact .inl ⟨m', rfl, hc⟩
  · obtain ⟨n, t', hsync, ht'⟩ := sync_sameTarget (ht.manifest.trans (installProbe_spec env probe m.task).1)
    have htt := ht.trans ht'
    rw [hm]
    simp only [Bool.false_eq_true, ↓reduceIte, hsync]
    refine .inr ⟨_, _, rfl, htt.spec.trans hspec, htt.filePath.trans hpath, ?_⟩
    exact plannedManifest_prepare env m.task m'.fs hn h0

theorem prepareForStart_spec {m m' : Machine} (h : prepareForStart m = (.ok (), m')) :
    m'.task.spec = m.task.spec := by
  unfold prepareForStart at h
  split at h <;> cases h <;> rfl

theorem step_of_prepares (env : Env) (codec : Codec) {s : History} (h : prepares s a = some (m, probe)) :
    m.task.spec = s.machine.task.spec ∧ step env codec s a =
      some { s with machine := (afterPreparation env (prepareDownload env (.ok probe) m)).2 } := by
  unfold prepares at h
  split at h
  · split at h
    · rename_i m' hm
      cases h
      have hspec := prepareForStart_spec hm
      refine ⟨hspec, ?_⟩
      simp only [step, start, hm]
    · cases h
  · split at h
    · rename_i m₁ hr
      split at h
      · rename_i m' hm
        cases h
        have hspec : m₁.task.spec = s.machine.task.spec := by
          unfold resumeTarget at hr
          split at hr <;> cases hr <;> rfl
        have hspec' := prepareForStart_spec hm
        refine ⟨hspec'.trans hspec, ?_⟩
        simp only [step, hr, start, hm]
      · cases h
    · cases h
  · cases h

theorem ensureWorkers_target (t : Task) (now : Nat) :
    (t.ensureWorkers now).2.spec = t.spec ∧ (t.ensureWorkers now).2.filePath = t.filePath ∧
      (t.ensureWorkers now).2.status = t.status := by
  unfold Task.ensureWorkers
  split
  · exact ⟨rfl, rfl, rfl⟩
  · dsimp only
    split <;> exact ⟨rfl, rfl, rfl⟩

theorem Preallocated.started {s s' : History}
    (hs : s.machine.task.spec.supportsSwarmDiscovery = false)
    (hp : prepares s a = some (m, probe)) (hn : probe.totalSize = some totalSize)
    (h0 : 0 < totalSize) (ha : step env codec s a = some s')
    (hr : s'.machine.task.status = .running) : ∃ path, Preallocated totalSize path s' := by
  obtain ⟨hspec, hstep⟩ := step_of_prepares env codec hp
  rw [← hspec] at hs
  cases ha.symm.trans hstep
  rcases prepareDownload_cases env hs hn h0 with ⟨m', hm, hc⟩ | ⟨m', path, hm, h1, h2, h3⟩
  · simp only [hm, afterPreparation, hc] at hr
    cases hr
  · obtain ⟨e1, e2, e3⟩ := ensureWorkers_target (m'.setStatus .running).task env.now
    have hm' : (afterPreparation env (prepareDownload env (.ok probe) m)).2 =
        ⟨((m'.setStatus .running).task.ensureWorkers env.now).2, m'.fs⟩ := by
      simp only [hm, afterPreparation]
      split <;> simp_all
    refine ⟨path, ?_, ?_, ?_⟩ <;> simp only [hm']
    · rw [e1]
      exact (congrArg _ h1).trans hs
    · exact e2.trans h2
    · exact h3

/-- A task that waits to be started: its last state was stored as `Pending` or `Paused`. -/
def Waiting (t : Task) : Prop := t.status = .paused ∨ t.status = .pending

theorem PausedTransfer.preallocated (h : PausedTransfer env codec totalSize path s) :
    Preallocated totalSize path s ∧ Waiting s.machine.task := by
  induction h with
  | paused hs hp hn h0 ha hr ht hb hf hz =>
    obtain ⟨p, h₁⟩ := Preallocated.started hs hp hn h0 ha hr
    obtain ⟨h₂, e⟩ := h₁.transfers ht hb
    cases h₂.target.symm.trans hf
    cases hz
    have hrun := e.trans hr
    refine ⟨⟨?_, ?_, h₂.file⟩, .inl ?_⟩ <;> simp only [Task.pause, hrun, Status.isActive, ↓reduceIte]
    · exact h₂.origin
    · exact h₂.target
  | restarted h hj hn hz ih =>
    obtain ⟨ih, hw⟩ := ih
    cases hz
    obtain ⟨h1, h2, h3, h4⟩ := restoreTask_spec codec env.now hj ih.target hn hw
    refine ⟨⟨?_, h3, ih.file⟩, h4⟩
    simp only [h1]
    exact ih.origin

theorem prepares_of_waiting {s : History} (hw : Waiting s.machine.task)
    (h : prepares s a = some (m, probe)) : m = s.machine.setStatus .preparing := by
  unfold prepares at h
  rcases hw with hw | hw <;>
    simp only [prepareForStart, resumeTarget, hw, Machine.setStatus] at h <;>
    split at h <;> cases h <;> rfl

theorem plannedPath_of_filePath {env : Env} {probe : OriginMetadata} {t : Task}
    (h : t.filePath = some path) : plannedPath env probe t = path := by
  simp only [plannedPath, installProbe, Task.getOrInitFilePath, Task.initializeFileName,
    Task.updateProtocolProbe, h]
  cases t.fileName <;> rfl

/-- The next preparation of a paused transfer never keeps its progress: the allocated file already
has its final length, so it is accepted as complete or removed. -/
theorem pausedTransfer_loses_progress (env : Env) (codec : Codec) (totalSize : Nat) (path : String)
    (s : History) (h : PausedTransfer env codec totalSize path s) (a : Action) (m : Machine)
    (probe : OriginMetadata) (hp : prepares s a = some (m, probe))
    (hn : probe.totalSize = some totalSize) :
    ¬ KeepsProgress path s.machine (prepareDownload env (.ok probe) m).2 := by
  obtain ⟨hs, hw⟩ := h.preallocated
  cases prepares_of_waiting hw hp
  have hpath : plannedPath env probe (s.machine.setStatus .preparing).task = path :=
    plannedPath_of_filePath hs.target
  rw [← hpath]
  refine prepareDownload_loses_progress hs.origin hn ?_ rfl
  rw [hpath]
  exact hs.file

/-- The state that `halfTransferred` ends in, for a task with the given checksums. -/
def halfPaused (checksums : List Checksum) : Option History :=
  Transition.run (step plainEnv bareCodec)
    { newDownload with machine := ⟨{ newDownload.machine.task with checksums }, .empty⟩ }
    halfTransferred

/-- Five of ten bytes are there when the download is paused. The next start with the same probe
completes the task when it has no checksums, and throws the file away when it has one. -/
theorem half_transfer_is_not_resumed :
    (∃ s, halfPaused [] = some s ∧ s.machine.task.status = .paused ∧
      (prepareDownload plainEnv (.ok tenByteProbe)
        (s.machine.setStatus .preparing)).2.task.status = .completed ∧
      ¬ KeepsProgress "/downloads/file.bin" s.machine
        (prepareDownload plainEnv (.ok tenByteProbe) (s.machine.setStatus .preparing)).2) ∧
    ∃ s, halfPaused [⟨.sha256, some "digest", none, none⟩] = some s ∧
      (s.machine.fs.file "/downloads/file.bin").map (fun f => (f.ino, f.content)) =
        some (0, [1, 2, 3, 4, 5, 0, 0, 0, 0, 0]) ∧
      ((prepareDownload plainEnv (.ok tenByteProbe) (s.machine.setStatus .preparing)).2.fs.file
        "/downloads/file.bin").map (fun f => (f.ino, f.content)) =
        some (1, [0, 0, 0, 0, 0, 0, 0, 0, 0, 0]) := by
  refine ⟨⟨_, rfl, rfl, rfl, fun h => h.status rfl⟩, _, rfl, rfl, rfl⟩

theorem half_transfer_loses_progress :
    ∃ s, halfPaused [] = some s ∧ ¬ KeepsProgress "/downloads/file.bin" s.machine
      (prepareDownload plainEnv (.ok tenByteProbe) (s.machine.setStatus .preparing)).2 := by
  refine ⟨_, rfl, pausedTransfer_loses_progress plainEnv bareCodec 10 "/downloads/file.bin" _ ?_
    (.start (.ok tenByteProbe)) _ tenByteProbe rfl rfl⟩
  have hp : prepares newDownload (.start (.ok tenByteProbe)) =
      some (newDownload.machine.setStatus .preparing, tenByteProbe) := rfl
  have ht : ∀ b ∈ [Action.runWorker 0, .respond 0, .slice 0 [1, 2, 3, 4, 5]],
      b.isTransfer = true := by decide
  exact .paused rfl hp rfl (by decide) rfl rfl ht rfl rfl rfl

end Paradown
