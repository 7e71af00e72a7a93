import Paradown.History
import Paradown.MissingFile

namespace Paradown
set_option autoImplicit true

/-- Some checksum carries an expected digest, and all that do match the content. -/
def DigestsMatch (d : Digests) (checksums : List Checksum) (content : List UInt8) : Prop :=
  (∃ c ∈ checksums, c.CarriesDigest) ∧
    ∀ c ∈ checksums, c.CarriesDigest → c.verify d content = true

/-- If preparation finishes the task on its local file, a digest vouches for the content or every
byte of it came from a worker. -/
def FinishesHonestly (env : Env) (m : Machine) (probe : OriginMetadata) : Prop :=
  ∀ totalSize m', m.task.spec.supportsSwarmDiscovery = false → probe.totalSize = some totalSize →
    0 < totalSize → prepareDownload env (.ok probe) m = (.ok .finished, m') →
    ∃ file, m.fs.file (plannedPath env probe m.task) = some file ∧
      (DigestsMatch env.digests m.task.checksums file.content ∨ file.WrittenUpTo totalSize)

/-- The local file passes for the payload on the strength of its length alone: the validator is
unchanged and no checksum carries a digest. -/
@[mk_iff]
structure PassesOnLength (env : Env) (m : Machine) (probe : OriginMetadata) (file : File)
    (totalSize : Nat) : Prop where
  origin : m.task.spec.supportsSwarmDiscovery = false
  found : m.fs.file (plannedPath env probe m.task) = some file
  size : probe.totalSize = some totalSize
  positive : 0 < totalSize
  validator : m.task.identity.validatorChanged probe.resourceIdentity = false
  strategy : m.task.config.fileConflictStrategy = .skipIfValid ∧ file.len ≤ totalSize ∨
    m.task.config.fileConflictStrategy = .resume ∧ file.len = totalSize
  digest : ∀ c ∈ m.task.checksums, ¬ c.CarriesDigest
  length : m.task.checksums = [] → file.len = totalSize ∧ m.task.identity.hasResumeValidator = true

theorem installProbe_frame (env : Env) (probe : OriginMetadata) (t : Task) :
    (installProbe env probe t).2.2.checksums = t.checksums ∧
      (installProbe env probe t).2.2.config = t.config := by
  simp only [installProbe, Task.installManifest, Task.getOrInitFilePath, Task.initializeFileName,
    Task.updateProtocolProbe]
  cases t.filePath <;> cases t.fileName <;> exact ⟨rfl, rfl⟩

/-- With a known, positive size preparation finishes only inside `handle_existing_file`. -/
theorem prepareDownload_finished_iff (env : Env) {m : Machine}
    (hs : m.task.spec.supportsSwarmDiscovery = false) (hp : probe.totalSize = some totalSize)
    (ht : 0 < totalSize) :
    (prepareDownload env (.ok probe) m).1 = .ok .finished ↔
      (handleExistingFile env ⟨(installProbe env probe m.task).2.2, m.fs⟩
        (plannedPath env probe m.task) probe m.task.identity
        (m.task.identity.validatorChanged probe.resourceIdentity)).1 = true := by
  have h0 : probe.totalSize ≠ some 0 := by
    rw [hp]
    simp only [ne_eq, Option.some.injEq]
    omega
  simp only [prepareDownload, hs, Bool.false_eq_true, ↓reduceIte, plannedPath]
  cases (handleExistingFile env ⟨(installProbe env probe m.task).2.2, m.fs⟩
    (installProbe env probe m.task).1 probe m.task.identity
    (m.task.identity.validatorChanged probe.resourceIdentity)).1 with
  | true => simp
  | false =>
    simp only [Bool.false_eq_true, ↓reduceIte, h0, iff_false]
    split <;> simp

/-- Which files end the download: the strategy lets them through to verification, and that
succeeds. -/
theorem handleExistingFile_finished_iff {env : Env} {fs : FileSystem} (t : Task)
    (hf : fs.file path = some file) (hp : probe.totalSize = some totalSize) :
    (handleExistingFile env ⟨t, fs⟩ path probe previous changed).1 = true ↔
      changed = false ∧ (verifyExistingFile env t file probe previous).1 = true ∧
      (t.config.fileConflictStrategy = .skipIfValid ∧ file.len ≤ totalSize ∨
        t.config.fileConflictStrategy = .resume ∧ file.len = totalSize) := by
  simp only [handleExistingFile, hf, hp, finishOrDiscard]
  cases changed with
  | true => simp
  | false =>
    simp only [Bool.false_eq_true, ↓reduceIte, true_and]
    by_cases hl : totalSize < file.len
    · simp only [hl, ↓reduceIte, Bool.false_eq_true, false_iff]
      omega
    · simp only [hl, ↓reduceIte]
      cases t.config.fileConflictStrategy with
      | overwrite => simp
      | skipIfValid =>
        cases hv : (verifyExistingFile env t file probe previous).1 <;> simp
        omega
      | resume =>
        by_cases hlt : file.len < totalSize
        · simp only [hlt, ↓reduceIte]
          split <;> simp <;> omega
        · cases hv : (verifyExistingFile env t file probe previous).1 <;> simp [hlt]
          omega

theorem verifyExistingFile_fst (env : Env) (t : Task) (file : File)
    (hp : probe.totalSize = some totalSize) :
    (verifyExistingFile env t file probe previous).1 = true ↔
      (∀ c ∈ t.checksums, c.CarriesDigest → c.verify env.digests file.content = true) ∧
      (t.checksums = [] → file.len = totalSize ∧ previous.hasResumeValidator = true ∧
        previous.validatorChanged probe.resourceIdentity = false) := by
  unfold verifyExistingFile
  by_cases hc : t.checksums = []
  · simp [hc, hp, and_assoc]
  · simp only [ne_eq, hc, not_false_eq_true, ↓reduceIte, verifyFileChecksums_fst, List.all_eq_true,
      false_implies, and_true]
    refine forall₂_congr fun c _ => ⟨fun h _ => h, fun h => ?_⟩
    by_cases hd : c.CarriesDigest
    · exact h hd
    · exact Checksum.verify_of_not_carriesDigest env.digests hd _

/-- Preparation is honest about the file it finds exactly when a file that passes on its length was
written from end to end. -/
theorem finishesHonestly_iff (env : Env) (m : Machine) (probe : OriginMetadata) :
    FinishesHonestly env m probe ↔
      ∀ file totalSize, PassesOnLength env m probe file totalSize → file.WrittenUpTo totalSize := by
  obtain ⟨hc, hg⟩ := installProbe_frame env probe m.task
  constructor
  · intro h file totalSize passes
    have hfin : (prepareDownload env (.ok probe) m).1 = .ok .finished := by
      rw [prepareDownload_finished_iff env passes.origin passes.size passes.positive,
        handleExistingFile_finished_iff _ passes.found passes.size,
        verifyExistingFile_fst _ _ _ passes.size, hc, hg]
      refine ⟨passes.validator, ⟨fun c hm hd => absurd hd (passes.digest c hm), fun he => ?_⟩,
        passes.strategy⟩
      exact ⟨(passes.length he).1, (passes.length he).2, passes.validator⟩
    obtain ⟨file', hf, hv⟩ := h totalSize _ passes.origin passes.size passes.positive
      (Prod.ext hfin rfl : prepareDownload env (.ok probe) m = (.ok .finished, _))
    cases passes.found.symm.trans hf
    rcases hv with ⟨⟨c, hm, hd⟩, _⟩ | hw
    · exact absurd hd (passes.digest c hm)
    · exact hw
  · intro h totalSize m' hs hp ht hr
    have hfin := (prepareDownload_finished_iff env hs hp ht).1 (by rw [hr])
    cases hf : m.fs.file (plannedPath env probe m.task) with
    | none => simp [handleExistingFile, hf] at hfin
    | some file =>
      refine ⟨file, rfl, ?_⟩
      rw [handleExistingFile_finished_iff _ hf hp, verifyExistingFile_fst _ _ _ hp, hc, hg] at hfin
      obtain ⟨hv, ⟨hd, hl⟩, hst⟩ := hfin
      by_cases hex : ∃ c ∈ m.task.checksums, c.CarriesDigest
      · exact .inl ⟨hex, hd⟩
      · refine .inr (h file totalSize ?_)
        exact ⟨hs, hf, hp, ht, hv, hst, fun c hm hcd => hex ⟨c, hm, hcd⟩,
          fun he => ⟨(hl he).1, (hl he).2.1⟩⟩

/-- A step of a history that prepares the download is honest about the file it finds. -/
def CompletesHonestly (env : Env) (s : History) (a : Action) : Prop :=
  ∀ m probe, prepares s a = some (m, probe) → FinishesHonestly env m probe

/-- A task that was just added, before its first start. -/
def newDownload : History :=
  ⟨⟨{ restoredTask [] with identity := {}, totalSize := 0, totalSizeKnown := false }, .empty⟩,
    fun _ => none⟩

/-- Half of the bytes arrive, then the download is paused. -/
def halfTransferred : List Action :=
  [.start (.ok tenByteProbe), .runWorker 0, .respond 0, .slice 0 [1, 2, 3, 4, 5], .pause]

/-- The next start finds a file of the right length and completes the task; its second half was
never downloaded. -/
theorem half_transferred_is_completed :
    ¬ Transition.Meets (step plainEnv bareCodec) (CompletesHonestly plainEnv) newDownload
      (halfTransferred ++ [.start (.ok tenByteProbe)]) ∧
    ((Transition.run (step plainEnv bareCodec) newDownload
      (halfTransferred ++ [.start (.ok tenByteProbe)])).map fun s =>
        (s.machine.task.status, (s.machine.fs.file "/downloads/file.bin").map (·.content))) =
      some (.completed, some [1, 2, 3, 4, 5, 0, 0, 0, 0, 0]) := by
  refine ⟨fun h => ?_, rfl⟩
  obtain ⟨file, hf, hv⟩ := h.last rfl _ _ rfl 10 _ rfl rfl (by decide) rfl
  cases hf
  rcases hv with ⟨⟨c, hc, _⟩, _⟩ | hw
  · cases hc
  · exact absurd (hw.2 .hole (by decide)) (by decide)

end Paradown
