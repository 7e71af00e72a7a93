import Paradown.Workers

namespace Paradown
set_option autoImplicit true

/-- The manifest that `prepare_download` installs for this probe. -/
def plannedManifest (env : Env) (probe : OriginMetadata) (t : Task) : SessionManifest :=
  (installProbe env probe t).2.1

/-- The path at which `prepare_download` looks for the local file. -/
def plannedPath (env : Env) (probe : OriginMetadata) (t : Task) : String :=
  (installProbe env probe t).1

@[simp] theorem initializeFileName_blockStates (t : Task) (env : Env) (name : Option String) :
    (t.initializeFileName env name).2.blockStates = t.blockStates := by
  unfold Task.initializeFileName
  split <;> rfl

@[simp] theorem initializeFileName_workers (t : Task) (env : Env) (name : Option String) :
    (t.initializeFileName env name).2.workers = t.workers := by
  unfold Task.initializeFileName
  split <;> rfl

@[simp] theorem initializeFileName_downloadedSize (t : Task) (env : Env) (name : Option String) :
    (t.initializeFileName env name).2.downloadedSize = t.downloadedSize := by
  unfold Task.initializeFileName
  split <;> rfl

@[simp] theorem getOrInitFilePath_blockStates (t : Task) (env : Env) :
    (t.getOrInitFilePath env).2.blockStates = t.blockStates := by
  unfold Task.getOrInitFilePath
  split
  · rfl
  · exact initializeFileName_blockStates t env none

@[simp] theorem getOrInitFilePath_workers (t : Task) (env : Env) :
    (t.getOrInitFilePath env).2.workers = t.workers := by
  unfold Task.getOrInitFilePath
  split
  · rfl
  · exact initializeFileName_workers t env none

@[simp] theorem getOrInitFilePath_downloadedSize (t : Task) (env : Env) :
    (t.getOrInitFilePath env).2.downloadedSize = t.downloadedSize := by
  unfold Task.getOrInitFilePath
  split
  · rfl
  · exact initializeFileName_downloadedSize t env none

theorem installProbe_spec (env : Env) (probe : OriginMetadata) (t : Task) :
    let task := (installProbe env probe t).2.2
    task.manifest = some (plannedManifest env probe t) ∧ task.workers = t.workers ∧
      task.downloadedSize = t.downloadedSize ∧
      task.blockStates =
        if blockStateLayoutMatches (initializeBlockStates (plannedManifest env probe t).blocks)
          t.blockStates
        then t.blockStates else initializeBlockStates (plannedManifest env probe t).blocks := by
  refine ⟨rfl, ?_, ?_, ?_⟩
  · simp [installProbe, Task.installManifest, Task.updateProtocolProbe]
  · simp [installProbe, Task.installManifest, Task.updateProtocolProbe]
  · rw [installProbe, Task.installManifest_blockStates]
    simp [plannedManifest, installProbe, Task.updateProtocolProbe]

theorem plannedManifest_covered (env : Env) (probe : OriginMetadata) (t : Task)
    (ht : ∀ n, probe.totalSize = some n → n < 2 ^ 64) :
    ∀ p ∈ (plannedManifest env probe t).pieces,
      ∃ b ∈ (plannedManifest env probe t).blocks, b.pieceIndex = p.pieceIndex := by
  intro p hp
  simp only [plannedManifest, installProbe, Task.buildSingleFileManifest] at hp ⊢
  split at hp
  · rename_i n hn
    exact forSingleFile_pieces_covered (ht n hn) p hp
  · cases hp

/-- With no workers left, the progress pass keeps the block states of the installed layout and
recomputes the piece states from them. -/
theorem sync_without_workers {t : Task} (hm : t.manifest = some manifest) (hw : t.workers = [])
    (hl : blockStateLayoutMatches (initializeBlockStates manifest.blocks) t.blockStates = true) :
    (t.syncPieceProgressFromWorkers).2.blockStates = t.blockStates ∧
      (t.syncPieceProgressFromWorkers).2.workers = [] ∧
      (manifest.totalSizeKnown = true → (t.syncPieceProgressFromWorkers).2.pieceStates =
        derivePieceStatesFromBlocks manifest.pieces manifest.blocks t.blockStates) ∧
      (manifest.totalSizeKnown = false →
        (t.syncPieceProgressFromWorkers).2.pieceStates = t.pieceStates) := by
  simp only [Task.syncPieceProgressFromWorkers, hm, hw, hl, ↓reduceIte, List.foldl_nil]
  cases manifest.totalSizeKnown <;> simp

theorem resetMissingFileState_spec (t : Task) :
    (resetMissingFileState t).manifest = t.manifest ∧ (resetMissingFileState t).workers = [] ∧
      (resetMissingFileState t).blockStates =
        (if t.downloadedSize = 0 ∧ t.workers = [] then t.blockStates
          else t.blockStates.map fun s => { s with completed := false }) ∧
      (resetMissingFileState t).pieceStates.map (·.pieceIndex) =
        t.pieceStates.map (·.pieceIndex) := by
  unfold resetMissingFileState
  split
  · rename_i h
    exact ⟨rfl, h.2, rfl, rfl⟩
  · refine ⟨rfl, rfl, rfl, ?_⟩
    simp [resetResumeState, Task.resetPieceProgress, Task.resetBlockProgress, Function.comp_def]

/-- A task that may trust nothing: no block, no piece and no worker counts a downloaded byte, and
a lane of known length only finishes after receiving all of its bytes. -/
def TrustsNothing (t : Task) : Prop :=
  NoBlockCompleted t.blockStates ∧ NoPieceCompleted t.pieceStates ∧
    ∀ now ws t', t.ensureWorkers now = (.ok ws, t') → ∀ w ∈ ws, w.downloadedSize = 0 ∧
      ∀ slices, w.lengthKnown = true → w.mayFinishAfter slices = true →
        slices.sum = w.expectedLength

theorem Worker.mayFinishAfter_zero {w : Worker} (h0 : w.downloadedSize = 0)
    (hl : w.lengthKnown = true) (hf : w.mayFinishAfter slices = true) :
    slices.sum = w.expectedLength := by
  have hp : 0 < w.expectedLength := by
    simp only [Worker.expectedLength, hl, ↓reduceIte, satAdd]
    omega
  simp only [Worker.mayFinishAfter, Worker.finishesAtOnce, h0, hl, Bool.true_and, Bool.not_true,
    Bool.false_or, Nat.zero_add, Bool.or_eq_true, Bool.and_eq_true, decide_eq_true_eq,
    beq_iff_eq] at hf
  omega

theorem ensureWorkers_of_noBlockCompleted {t : Task} (hw : t.workers = [])
    (hb : NoBlockCompleted t.blockStates) (he : t.ensureWorkers now = (.ok ws, t')) (hm : w ∈ ws) :
    w.downloadedSize = 0 := by
  simp only [Task.ensureWorkers, hw, List.isEmpty_nil, Bool.not_true, Bool.false_and,
    Bool.false_eq_true, ↓reduceIte] at he
  split at he
  · cases he
  · rename_i created hc
    cases he
    obtain ⟨manifest, lane, _, hd⟩ := Task.createWorkers_seed hc hm
    rw [hd]
    exact seeded_of_noBlockCompleted hb manifest lane

theorem trustsNothing_iff {t : Task} (hw : t.workers = [])
    (hp : NoBlockCompleted t.blockStates → NoPieceCompleted t.pieceStates) :
    TrustsNothing t ↔ NoBlockCompleted t.blockStates := by
  refine ⟨fun h => h.1, fun h => ⟨h, hp h, ?_⟩⟩
  intro now ws t' he w hm
  have h0 := ensureWorkers_of_noBlockCompleted hw h he hm
  exact ⟨h0, fun slices hl hf => Worker.mayFinishAfter_zero h0 hl hf⟩

/-- What a successful preparation over a missing file leaves behind. -/
theorem prepareDownload_missing {m : Machine} (hs : m.task.spec.supportsSwarmDiscovery = false)
    (hf : m.fs.file (plannedPath env probe m.task) = none)
    (hr : prepareDownload env (.ok probe) m = (.ok (.ready path), m')) :
    m'.task =
      (resetMissingFileState (installProbe env probe m.task).2.2).syncPieceProgressFromWorkers.2 := by
  have hh : handleExistingFile env ⟨(installProbe env probe m.task).2.2, m.fs⟩
      (installProbe env probe m.task).1 probe m.task.identity
      (m.task.identity.validatorChanged probe.resourceIdentity) =
      (false, ⟨resetMissingFileState (installProbe env probe m.task).2.2, m.fs⟩) := by
    simp only [handleExistingFile]
    rw [show m.fs.file (installProbe env probe m.task).1 = none from hf]
  simp only [prepareDownload, hs, Bool.false_eq_true, ↓reduceIte, hh] at hr
  split at hr
  · cases hr
  · rename_i n task hsync
    split at hr
    · cases hr
    · cases hr
      rw [hsync]

theorem installProbe_streaming (env : Env) (probe : OriginMetadata) (t : Task)
    (h : (plannedManifest env probe t).totalSizeKnown = false) :
    (installProbe env probe t).2.2.pieceStates = [] := by
  have hp : (plannedManifest env probe t).pieces = [] := by
    simp only [plannedManifest, installProbe, Task.buildSingleFileManifest] at h ⊢
    split at h
    · cases h
    · rfl
  have hi : (installProbe env probe t).2.2.pieceStates.length =
      (plannedManifest env probe t).pieces.length := by
    simp only [installProbe, Task.installManifest, plannedManifest]
    split
    · simp [derivePieceStatesFromBlocks]
    · split
      · simp [carryPieceFlags_length, initializePieceStates]
      · simp [initializePieceStates]
  rw [hp] at hi
  exact List.length_eq_zero_iff.1 hi

/-- A download prepared over a missing file trusts no recorded progress exactly when the task had
counted bytes or workers, or had no completed block of the layout that is installed. -/
theorem prepare_missing_trustsNothing_iff (env : Env) (probe : OriginMetadata) (m m' : Machine)
    (path : String) (hs : m.task.spec.supportsSwarmDiscovery = false)
    (ht : ∀ n, probe.totalSize = some n → n < 2 ^ 64)
    (hf : m.fs.file (plannedPath env probe m.task) = none)
    (hr : prepareDownload env (.ok probe) m = (.ok (.ready path), m')) :
    TrustsNothing m'.task ↔
      m.task.downloadedSize ≠ 0 ∨ m.task.workers ≠ [] ∨
        NoBlockCompleted m.task.blockStates ∨
        blockStateLayoutMatches (initializeBlockStates (plannedManifest env probe m.task).blocks)
          m.task.blockStates = false := by
  obtain ⟨hm, hw, hd, hb⟩ := installProbe_spec env probe m.task
  rw [prepareDownload_missing hs hf hr]
  have hstream := installProbe_streaming env probe m.task
  have hcov := plannedManifest_covered env probe m.task ht
  generalize (installProbe env probe m.task).2.2 = task at *
  generalize plannedManifest env probe m.task = manifest at *
  obtain ⟨hrm, hrw, hrb, hrp⟩ := resetMissingFileState_spec task
  have hl : blockStateLayoutMatches (initializeBlockStates manifest.blocks)
      (resetMissingFileState task).blockStates = true := by
    have hl' : blockStateLayoutMatches (initializeBlockStates manifest.blocks) task.blockStates =
        true := by
      rw [hb]
      split
      · assumption
      · exact blockStateLayoutMatches_self _
    rw [hrb]
    split
    · exact hl'
    · rw [blockStateLayoutMatches_reset, hl']
  obtain ⟨hsb, hsw, hsk, hsu⟩ := sync_without_workers (hrm.trans hm) hrw hl
  rw [trustsNothing_iff hsw]
  · rw [hsb, hrb, hd, hw]
    by_cases hz : m.task.downloadedSize = 0 ∧ m.task.workers = []
    · rw [if_pos hz, hb]
      simp only [hz.1, hz.2, ne_eq, not_true_eq_false, false_or]
      cases hlm : blockStateLayoutMatches (initializeBlockStates manifest.blocks)
          m.task.blockStates with
      | true => simp
      | false => simp [noBlockCompleted_of_blocks]
    · rw [if_neg hz]
      refine iff_of_true (noBlockCompleted_reset _) ?_
      by_cases h0 : m.task.downloadedSize = 0
      · exact .inr (.inl fun hw0 => hz ⟨h0, hw0⟩)
      · exact .inl h0
  · intro hnb
    cases hk : manifest.totalSizeKnown with
    | true =>
      rw [hsk hk]
      rw [hsb] at hnb
      exact noPieceCompleted_derive hnb hcov
    | false =>
      rw [hsu hk]
      rw [hstream hk, List.map_nil, List.map_eq_nil_iff] at hrp
      rw [hrp]
      exact fun s hs => absurd hs List.not_mem_nil

/-- A task as restored from storage, with the given block states and a file path that names
nothing. -/
def restoredTask (blockStates : List BlockState) : Task where
  id := 1
  spec := .https "https://example.com/file.bin"
  config := ⟨"/downloads", 1, 1, .resume, {}⟩
  status := .pending
  fileName := some "file.bin"
  filePath := some "/downloads/file.bin"
  identity := { entityTag := some "v1" }
  httpRequest := {}
  sources := .forSpec (.https "https://example.com/file.bin") none
  sourceRuntime := fun _ => {}
  checksums := []
  manifest := none
  pieceStates := []
  blockStates := blockStates
  payloadStore := none
  torrentResume := none
  workers := []
  totalSize := 10
  totalSizeKnown := true
  downloadedSize := 0
  rangeRequestsSupported := false
  protocolProbeCompleted := false
  createdAt := none
  updatedAt := none

def plainEnv : Env :=
  ⟨⟨fun _ => "", fun _ => "", fun _ => ""⟩, 0, fun _ => none, fun _ => none,
    fun m => (.error (.other "no torrent engine"), m)⟩

def tenByteProbe : OriginMetadata := ⟨some 10, true, { entityTag := some "v1" }, none⟩

/-- The recorded block survives although its file is gone, and the lane built for it counts as
downloaded before its first request. -/
theorem missing_file_keeps_completed_block :
    let m : Machine := ⟨restoredTask [⟨0, 0, true⟩], .empty⟩
    let m' := (prepareDownload plainEnv (.ok tenByteProbe) m).2
    m.fs.file (plannedPath plainEnv tenByteProbe m.task) = none ∧
      (prepareDownload plainEnv (.ok tenByteProbe) m).1 = .ok (.ready "/downloads/file.bin") ∧
      (∃ w, (m'.task.ensureWorkers 0).1 = .ok [w] ∧ w.downloadedSize = 10 ∧
        w.mayFinishAfter [] = true) ∧
      ¬ TrustsNothing m'.task := by
  refine ⟨rfl, rfl, ⟨_, rfl, rfl, rfl⟩, fun h => ?_⟩
  have hb := h.1 ⟨0, 0, true⟩ (by decide)
  cases hb

theorem missing_file_without_completed_block :
    TrustsNothing
      (prepareDownload plainEnv (.ok tenByteProbe) ⟨restoredTask [⟨0, 0, false⟩], .empty⟩).2.task :=
  (prepare_missing_trustsNothing_iff plainEnv tenByteProbe ⟨restoredTask [⟨0, 0, false⟩], .empty⟩ _
    "/downloads/file.bin" rfl (by intro n hn; cases hn; decide) rfl rfl).2
    (.inr (.inr (.inl (by simp [NoBlockCompleted, restoredTask]))))

end Paradown
