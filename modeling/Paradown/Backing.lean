import Paradown.Acceptance
import Paradown.Payload
import Paradown.Progress

namespace Paradown
set_option autoImplicit true

/-- A worker put byte `i` of the file there. -/
def File.WrittenAt (f : File) (i : Nat) : Prop := ∃ c, f.cells[i]? = some c ∧ c.written = true

theorem File.writtenUpTo_of_writtenAt {f : File} (hl : f.len = n) (h : ∀ i < n, f.WrittenAt i) :
    f.WrittenUpTo n := by
  refine ⟨Nat.le_of_eq hl.symm, fun c hc => ?_⟩
  obtain ⟨i, hi, rfl⟩ := List.getElem_of_mem hc
  rw [List.length_take] at hi
  obtain ⟨c, hget, hw⟩ := h i (by omega)
  rw [List.getElem_take]
  rw [List.getElem?_eq_some_iff] at hget
  obtain ⟨_, rfl⟩ := hget
  exact hw

theorem writeCells_splice {cells : List Cell} (h : offset ≤ cells.length) :
    writeCells cells offset data = splice cells offset (data.map (⟨·, true⟩)) := by
  simp only [writeCells, splice, setLen_of_le h, List.length_map]

/-- The store of a task with one file. -/
def singleStore (path : String) (totalSize : Nat) : FileMap := ⟨[⟨path, 0, totalSize⟩], totalSize, true⟩

theorem singleStore_resolveWrites (ht : totalSize < 2 ^ 64) (hp : 0 < len)
    (h : (singleStore path totalSize).resolveWrites offset len = .ok writes) :
    offset + len ≤ totalSize ∧ writes = [⟨path, offset, 0, len⟩] := by
  have hs : (⟨path, 0, totalSize⟩ : FileSegment).offset = 0 := rfl
  have hloop : resolveLoop offset [⟨path, 0, totalSize⟩] offset 0 len =
      if totalSize ≤ offset then ([], len)
      else ([⟨path, offset, 0, min (totalSize - offset) len⟩],
        len - min (totalSize - offset) len) := by
    rw [resolveLoop_cons hs (Nat.zero_le offset) hp (by simpa using ht)]
    simp only [Nat.zero_add, Nat.sub_zero, resolveLoop]
  simp only [FileMap.resolveWrites, singleStore, Bool.not_true, Bool.false_eq_true, if_false,
    hloop] at h
  split at h
  · cases h
  · by_cases hl : totalSize ≤ offset
    · simp only [hl, if_true, ne_eq, Nat.ne_of_gt hp, not_false_eq_true] at h
      cases h
    · simp only [hl, if_false] at h
      split at h
      · cases h
      · rename_i hleft
        have hm : min (totalSize - offset) len = len := by omega
        rw [hm] at h
        cases h
        exact ⟨by omega, rfl⟩

/-- A call on the store of one file changes nothing, or overwrites a window inside the file. -/
theorem singleStore_writeAt (ht : totalSize < 2 ^ 64)
    (h : (singleStore path totalSize).writeAt fs offset data = .ok fs') :
    fs' = fs ∧ data = [] ∨ offset + data.length ≤ totalSize ∧
      fs' = writeSlice data fs ⟨path, offset, 0, data.length⟩ := by
  unfold FileMap.writeAt at h
  cases hw : (singleStore path totalSize).resolveWrites offset data.length with
  | error err =>
    rw [hw] at h
    cases h
  | ok writes =>
    rw [hw] at h
    cases h
    rcases Nat.eq_zero_or_pos data.length with hz | hp
    · left
      rw [List.length_eq_zero_iff] at hz
      subst hz
      simp only [FileMap.resolveWrites, singleStore, List.length_nil, resolveLoop_zero] at hw
      simp only [Bool.not_true, Bool.false_eq_true, if_false, ne_eq, not_true_eq_false] at hw
      split at hw
      · cases hw
      · cases hw
        exact ⟨rfl, rfl⟩
    · obtain ⟨hin, rfl⟩ := singleStore_resolveWrites ht hp hw
      exact .inr ⟨hin, rfl⟩

theorem writeSlice_writtenAt (data : List UInt8) {fs : FileSystem} (hf : fs.file path = some f)
    (hl : offset + data.length ≤ f.len) :
    ∃ f', (writeSlice data fs ⟨path, offset, 0, data.length⟩).file path = some f' ∧
      f'.len = f.len ∧ ∀ i, f.WrittenAt i ∨ offset ≤ i ∧ i < offset + data.length →
        f'.WrittenAt i := by
  have ho : offset ≤ f.cells.length := Nat.le_of_add_right_le hl
  refine ⟨{ f with cells := writeCells f.cells offset data }, ?_, ?_, ?_⟩
  · simp [writeSlice, FileSystem.openOrCreate_some hf, hf]
  · simp only [File.len, writeCells_length] at hl ⊢
    omega
  · intro i hi
    simp only [File.WrittenAt, writeCells_splice ho, getElem?_splice ho, List.length_map]
    split
    · rename_i hin
      have hlt : i - offset < (data.map fun b => (⟨b, true⟩ : Cell)).length := by
        rw [List.length_map]
        omega
      refine ⟨_, List.getElem?_eq_getElem hlt, ?_⟩
      rw [List.getElem_map]
    · rename_i hout
      rcases hi with hi | hi
      · exact hi
      · exact absurd hi hout

/-- Byte `i` lies in the part of a worker's range that its counter covers. -/
def Task.Counts (t : Task) (i : Nat) : Prop :=
  ∃ w ∈ t.workers, w.start ≤ i ∧ i < w.start + w.downloadedSize

/-- The task has its file at `path`, of full length, and every byte that a worker counts is there. -/
structure Machine.Filed (m : Machine) (totalSize : Nat) (path : String) : Prop where
  target : m.task.filePath = some path
  store : ∀ store, m.task.payloadStore = some store → store = singleStore path totalSize
  file : ∃ f, m.fs.file path = some f ∧ f.len = totalSize ∧
    ∀ i < totalSize, m.task.Counts i → f.WrittenAt i

/-- What holds of a task with one probed size, however often it has been started, paused and
restarted: a task with workers has its file, and a task without its file has no block completed. -/
structure Machine.Backed (m : Machine) (totalSize : Nat) : Prop where
  clean : NoBlockCompleted m.task.blockStates ∨
    ∃ path f, m.task.filePath = some path ∧ m.fs.file path = some f
  filed : m.task.workers = [] ∨ ∃ path, m.Filed totalSize path

theorem Machine.Backed.congr {m m' : Machine} (h : m.Backed totalSize) (hf : m'.fs = m.fs)
    (hp : m'.task.filePath = m.task.filePath) (hb : m'.task.blockStates = m.task.blockStates)
    (hw : m'.task.workers = m.task.workers) (hs : m'.task.payloadStore = m.task.payloadStore) :
    m'.Backed totalSize := by
  refine ⟨?_, ?_⟩
  · rw [hb, hp, hf]
    exact h.clean
  · rcases h.filed with hn | ⟨path, hfiled⟩
    · exact .inl (hw.trans hn)
    · refine .inr ⟨path, hp.trans hfiled.target, hs ▸ hfiled.store, ?_⟩
      simp only [hf, Task.Counts, hw]
      exact hfiled.file

theorem plannedManifest_store (env : Env) (t : Task) (hn : probe.totalSize = some totalSize)
    (h0 : 0 < totalSize) : FileMap.fromManifest (plannedManifest env probe t) =
      singleStore (plannedPath env probe t) totalSize := by
  simp [FileMap.fromManifest, plannedManifest, plannedPath, installProbe, singleStore,
    Task.buildSingleFileManifest, hn, SessionManifest.forSingleFileWithPieceSize, h0]

theorem installProbe_store (env : Env) (t : Task) (hn : probe.totalSize = some totalSize)
    (h0 : 0 < totalSize) : (installProbe env probe t).2.2.payloadStore =
      some (singleStore (plannedPath env probe t) totalSize) := by
  rw [← plannedManifest_store env t hn h0]
  rfl

theorem Machine.Backed.planned {m : Machine} (h : m.Backed totalSize)
    (hf : m.fs.file (plannedPath env probe m.task) = none) :
    m.task.workers = [] ∧ NoBlockCompleted m.task.blockStates := by
  have hother : ∀ path f, m.task.filePath = some path → m.fs.file path ≠ some f := by
    intro path f hp he
    rw [plannedPath_of_filePath hp, he] at hf
    cases hf
  refine ⟨?_, ?_⟩
  · rcases h.filed with hn | ⟨path, hfiled⟩
    · exact hn
    · obtain ⟨f, he, _⟩ := hfiled.file
      exact absurd he (hother path f hfiled.target)
  · rcases h.clean with hb | ⟨path, f, hp, he⟩
    · exact hb
    · exact absurd he (hother path f hp)

/-- A task that starts over: no workers, no completed block, the same target. -/
structure Afresh (t t' : Task) : Prop where
  workers : t'.workers = []
  blocks : NoBlockCompleted t'.blockStates
  target : SameTarget t t'
  store : t'.payloadStore = t.payloadStore

theorem resetResumeState_afresh (t : Task) : Afresh t (resetResumeState t) :=
  ⟨rfl, noBlockCompleted_reset _, resetResumeState_sameTarget t, rfl⟩

theorem Afresh.of_reset (h : SameTarget t t') (hs : t'.payloadStore = t.payloadStore) :
    Afresh t (resetResumeState t') :=
  ⟨rfl, noBlockCompleted_reset _, h.trans (resetResumeState_sameTarget t'), hs⟩

theorem Afresh.sync (h : Afresh t t') (hm : t.manifest = some manifest) :
    ∃ n t'', t'.syncPieceProgressFromWorkers = (.ok n, t'') ∧ Afresh t t'' := by
  have hm' : t'.manifest = some manifest := h.target.manifest.trans hm
  have hb : NoBlockCompleted (if blockStateLayoutMatches (initializeBlockStates manifest.blocks)
      t'.blockStates then t'.blockStates else initializeBlockStates manifest.blocks) := by
    split
    · exact h.blocks
    · exact noBlockCompleted_of_blocks manifest.blocks
  have ht : ∀ u : Task, u.spec = t'.spec → u.filePath = t'.filePath → u.status = t'.status →
      u.manifest = some manifest → SameTarget t u := by
    intro u h1 h2 h3 h4
    exact h.target.trans ⟨h1, h2, h3, h4.trans hm'.symm⟩
  simp only [Task.syncPieceProgressFromWorkers, hm', h.workers, List.foldl_nil]
  split
  · exact ⟨_, _, rfl, rfl, h.blocks, ht _ rfl rfl rfl rfl, h.store⟩
  · exact ⟨_, _, rfl, rfl, hb, ht _ rfl rfl rfl rfl, h.store⟩

/-- What `handle_existing_file` leaves of a task whose file, if it has workers, is of full length:
it finishes on the file, or the task starts over. -/
inductive Handled (fs : FileSystem) (path : String) (t : Task) : Bool × Machine → Prop where
  | finished (found : fs.file path = some file) (target : SameTarget t t')
      (workers : t'.workers = t.workers) (store : t'.payloadStore = t.payloadStore) :
      Handled fs path t (true, finishJob ⟨t', fs⟩ (.ok ()))
  | afresh (h : Afresh t t') : Handled fs path t (false, ⟨t', fs'⟩)

theorem finishOrDiscard_handled (env : Env) (t : Task) (probe : OriginMetadata)
    (previous : HttpResourceIdentity) (hf : fs.file path = some file) :
    Handled fs path t (finishOrDiscard env ⟨t, fs⟩ path file probe previous) := by
  have htarget := verifyExistingFile_sameTarget env t file probe previous
  have hfields : (verifyExistingFile env t file probe previous).2.workers = t.workers ∧
      (verifyExistingFile env t file probe previous).2.payloadStore = t.payloadStore := by
    unfold verifyExistingFile
    split
    · exact ⟨rfl, rfl⟩
    · split <;> exact ⟨rfl, rfl⟩
  simp only [finishOrDiscard]
  split
  · exact .finished hf htarget hfields.1 hfields.2
  · exact .afresh (.of_reset htarget hfields.2)

theorem handleExistingFile_handled (env : Env) {t : Task} (previous : HttpResourceIdentity)
    (changed : Bool) (hp : probe.totalSize = some totalSize)
    (hnone : fs.file path = none → t.workers = [] ∧ NoBlockCompleted t.blockStates)
    (hfull : ∀ file, fs.file path = some file → t.workers = [] ∨ file.len = totalSize) :
    Handled fs path t (handleExistingFile env ⟨t, fs⟩ path probe previous changed) := by
  have hdiscard : Handled fs path t (false, discardFile ⟨t, fs⟩ path) :=
    .afresh (resetResumeState_afresh t)
  cases hf : fs.file path with
  | none =>
    obtain ⟨hw, hb⟩ := hnone hf
    simp only [handleExistingFile, hf, resetMissingFileState]
    split
    · exact .afresh ⟨hw, hb, ⟨rfl, rfl, rfl, rfl⟩, rfl⟩
    · exact .afresh (resetResumeState_afresh t)
  | some file =>
    have hfin := finishOrDiscard_handled env t probe previous hf
    simp only [handleExistingFile, hf, hp]
    split
    · exact hdiscard
    · split
      · exact hdiscard
      · split
        · exact hdiscard
        · exact hfin
        · split
          · rename_i hlt
            -- a shorter file belongs to no worker, and without workers it is not resumed
            have hw : t.workers = [] := by
              rcases hfull file hf with hw | hl
              · exact hw
              · omega
            have hno : canResumePartialDownload t probe previous = false := by
              simp [canResumePartialDownload, hw]
            rw [hno]
            exact hdiscard
          · exact hfin

theorem installProbe_blocks (env : Env) (probe : OriginMetadata) {t : Task}
    (h : NoBlockCompleted t.blockStates) :
    NoBlockCompleted (installProbe env probe t).2.2.blockStates := by
  obtain ⟨_, _, _, hb⟩ := installProbe_spec env probe t
  rw [hb]
  split
  · exact h
  · exact noBlockCompleted_of_blocks _

/-- What a preparation of such a task ends in: it finishes on the file that was there, or the task
has a fresh file and starts over. -/
inductive Prepared (m : Machine) (totalSize : Nat) (path : String) :
    Except Error PreparationOutcome × Machine → Prop where
  | finished (target : t'.filePath = some path) (spec : t'.spec = m.task.spec)
      (store : t'.payloadStore = some (singleStore path totalSize)) (found : m.fs.file path = some f)
      (workers : t'.workers = m.task.workers) :
      Prepared m totalSize path (.ok .finished, ⟨t', m.fs⟩)
  | ready (target : t'.filePath = some path) (spec : t'.spec = m.task.spec)
      (store : t'.payloadStore = some (singleStore path totalSize)) (found : fs'.file path = some f)
      (len : f.len = totalSize) (workers : t'.workers = [])
      (blocks : NoBlockCompleted t'.blockStates) :
      Prepared m totalSize path (.ok (.ready path), ⟨t', fs'⟩)

theorem finishJob_ok (m : Machine) : ∃ t', finishJob m (.ok ()) = ⟨t', m.fs⟩ ∧
    t'.filePath = m.task.filePath ∧ t'.spec = m.task.spec ∧
    t'.payloadStore = m.task.payloadStore ∧ t'.workers = m.task.workers := by
  refine ⟨_, rfl, ?_⟩
  simp only [Task.markAllPiecesCompleted]
  split <;> exact ⟨rfl, rfl, rfl, rfl⟩

theorem Machine.Backed.prepared (env : Env) {m : Machine} (h : m.Backed totalSize)
    (hs : m.task.spec.supportsSwarmDiscovery = false) (hp : probe.totalSize = some totalSize)
    (h0 : 0 < totalSize) : Prepared m totalSize (plannedPath env probe m.task)
      (prepareDownload env (.ok probe) m) := by
  obtain ⟨hm, hw, _, _⟩ := installProbe_spec env probe m.task
  obtain ⟨hspec, _, hpath⟩ := installProbe_target env probe m.task
  have hstore := installProbe_store env m.task hp h0
  have hz : probe.totalSize ≠ some 0 := by
    rw [hp]
    simp only [ne_eq, Option.some.injEq]
    omega
  have hhandled : Handled m.fs (plannedPath env probe m.task) (installProbe env probe m.task).2.2
      (handleExistingFile env ⟨(installProbe env probe m.task).2.2, m.fs⟩
        (plannedPath env probe m.task) probe m.task.identity
        (m.task.identity.validatorChanged probe.resourceIdentity)) := by
    apply handleExistingFile_handled env _ _ hp
    · intro hf
      obtain ⟨hn, hb⟩ := h.planned hf
      exact ⟨hw.trans hn, installProbe_blocks env probe hb⟩
    · intro file hf
      rcases h.filed with hn | ⟨path, hfiled⟩
      · exact .inl (hw.trans hn)
      · obtain ⟨f, hfound, hlen, _⟩ := hfiled.file
        rw [plannedPath_of_filePath hfiled.target, hfound] at hf
        cases hf
        exact .inr hlen
  simp only [prepareDownload, hs, Bool.false_eq_true, ↓reduceIte, hz]
  rw [show (installProbe env probe m.task).1 = plannedPath env probe m.task from rfl,
    show (installProbe env probe m.task).2.1 = plannedManifest env probe m.task from rfl]
  generalize hr : handleExistingFile env ⟨(installProbe env probe m.task).2.2, m.fs⟩
    (plannedPath env probe m.task) probe m.task.identity
    (m.task.identity.validatorChanged probe.resourceIdentity) = r at hhandled ⊢
  cases hhandled with
  | @finished file t' found target workers store =>
    obtain ⟨t'', he, h1, h2, h3, h4⟩ := finishJob_ok ⟨t', m.fs⟩
    simp only [↓reduceIte, he]
    exact .finished (h1.trans (target.filePath.trans hpath)) (h2.trans (target.spec.trans hspec))
      (h3.trans (store.trans hstore)) found (h4.trans (workers.trans hw))
  | @afresh t' fs' h =>
    obtain ⟨n, t'', hsync, hafresh⟩ := h.sync hm
    simp only [Bool.false_eq_true, ↓reduceIte, hsync, plannedManifest_store env m.task hp h0]
    obtain ⟨f, hf, hl⟩ := prepareSegment_self (m := singleStore (plannedPath env probe m.task)
      totalSize) rfl fs' ⟨plannedPath env probe m.task, 0, totalSize⟩
    exact .ready (hafresh.target.filePath.trans hpath) (hafresh.target.spec.trans hspec)
      (hafresh.store.trans hstore) hf hl hafresh.workers hafresh.blocks

/-- The workers that run are those that ran before, on the same file. -/
structure KeepsRunning (t t' : Task) : Prop where
  spec : t'.spec = t.spec
  running : (∀ w ∈ t'.workers, w.isRunning = false) ∨
    t'.workers = t.workers ∧ t'.filePath = t.filePath

theorem createWorkers_idle {t : Task} (h : t.createWorkers now = .ok ws) (hw : w ∈ ws) :
    w.isRunning = false := by
  cases hm : t.manifest with
  | none =>
    rw [Task.createWorkers, hm] at h
    cases h
  | some manifest =>
    obtain ⟨lanes, _, hall⟩ := Task.createWorkers_ok hm h
    obtain ⟨lane, _, hlane⟩ := exists_of_forall₂ hall hw
    obtain ⟨source, rfl⟩ := Task.createWorker_eq_ok hlane
    rfl

theorem ensureWorkers_created {t : Task} (hw : t.workers = [])
    (hb : NoBlockCompleted t.blockStates) (now : Nat) :
    (t.ensureWorkers now).2.payloadStore = t.payloadStore ∧
      ∀ w ∈ (t.ensureWorkers now).2.workers, w.downloadedSize = 0 ∧ w.isRunning = false := by
  cases he : t.ensureWorkers now with
  | mk result t' =>
    simp only [Task.ensureWorkers, hw, List.isEmpty_nil, Bool.not_true, Bool.false_and,
      Bool.false_eq_true, ↓reduceIte] at he
    split at he
    · cases he
      exact ⟨rfl, fun w h => absurd h List.not_mem_nil⟩
    · rename_i created hc
      cases he
      refine ⟨rfl, fun w hm => ⟨?_, createWorkers_idle hc hm⟩⟩
      obtain ⟨manifest, lane, _, hd⟩ := Task.createWorkers_seed hc hm
      rw [hd]
      exact seeded_of_noBlockCompleted hb manifest lane

theorem Machine.Backed.started (env : Env) {m : Machine} (h : m.Backed totalSize)
    (hs : m.task.spec.supportsSwarmDiscovery = false) (hp : probe.totalSize = some totalSize)
    (h0 : 0 < totalSize) :
    (afterPreparation env (prepareDownload env (.ok probe) m)).2.Backed totalSize ∧
      KeepsRunning m.task (afterPreparation env (prepareDownload env (.ok probe) m)).2.task := by
  have hprepared := h.prepared env hs hp h0
  generalize hpath : plannedPath env probe m.task = path at hprepared
  generalize prepareDownload env (.ok probe) m = r at hprepared ⊢
  cases hprepared with
  | @finished f t' target spec store found workers =>
    have hkept : m.task.workers = [] ∨ m.task.filePath = some path := by
      rcases h.filed with hn | ⟨p, hfiled⟩
      · exact .inl hn
      · rw [plannedPath_of_filePath hfiled.target] at hpath
        exact .inr (hpath ▸ hfiled.target)
    refine ⟨⟨.inr ⟨path, f, target, found⟩, ?_⟩, spec, ?_⟩
    · rcases h.filed with hn | ⟨p, hfiled⟩
      · exact .inl (workers.trans hn)
      · rw [plannedPath_of_filePath hfiled.target] at hpath
        subst p
        refine .inr ⟨path, target, fun st hst => ?_, ?_⟩
        · exact (Option.some.inj (store.symm.trans hst)).symm
        · simp only [Task.Counts, afterPreparation, workers]
          exact hfiled.file
    · rcases hkept with hn | hf
      · left
        intro w hw
        simp only [afterPreparation, workers, hn, List.not_mem_nil] at hw
      · exact .inr ⟨workers, target.trans hf.symm⟩
  | @ready f t' fs' target spec store found len workers blocks =>
    obtain ⟨hspec, hfp, _⟩ := ensureWorkers_target (Machine.setStatus ⟨t', fs'⟩ .running).task env.now
    obtain ⟨hstore, hnew⟩ := ensureWorkers_created (t := (Machine.setStatus ⟨t', fs'⟩ .running).task)
      workers blocks env.now
    have hm : (afterPreparation env (.ok (.ready path), ⟨t', fs'⟩)).2 =
        ⟨((Machine.setStatus ⟨t', fs'⟩ .running).task.ensureWorkers env.now).2, fs'⟩ := by
      simp only [afterPreparation]
      split <;> simp_all
    rw [hm]
    refine ⟨⟨.inr ⟨path, f, hfp.trans target, found⟩, .inr ⟨path, hfp.trans target, ?_, f, found,
      len, ?_⟩⟩, hspec.trans spec, .inl fun w hw => (hnew w hw).2⟩
    · intro st hst
      exact (Option.some.inj (store.symm.trans (hstore.symm.trans hst))).symm
    · rintro i _ ⟨w, hw, hle, hlt⟩
      rw [(hnew w hw).1] at hlt
      omega

theorem Machine.Backed.prepareForStart {m m' : Machine} (h : m.Backed totalSize)
    (hr : prepareForStart m = (r, m')) :
    m'.Backed totalSize ∧ KeepsRunning m.task m'.task := by
  have hreset : (resetTask m).Backed totalSize ∧ KeepsRunning m.task (resetTask m).task := by
    refine ⟨⟨.inl fun s hs => absurd hs List.not_mem_nil, .inl rfl⟩, rfl, .inl fun w hw => ?_⟩
    exact absurd hw List.not_mem_nil
  unfold Paradown.prepareForStart at hr
  split at hr <;> cases hr
  all_goals first
    | exact ⟨h, rfl, .inr ⟨rfl, rfl⟩⟩
    | exact hreset

theorem KeepsRunning.trans (h : KeepsRunning t t') (h' : KeepsRunning t' t'') :
    KeepsRunning t t'' := by
  refine ⟨h'.spec.trans h.spec, ?_⟩
  rcases h'.running with hn | ⟨hw, hf⟩
  · exact .inl hn
  · rcases h.running with hn | ⟨hw', hf'⟩
    · rw [← hw] at hn
      exact .inl hn
    · exact .inr ⟨hw.trans hw', hf.trans hf'⟩

theorem Machine.Backed.start (env : Env) {m : Machine} (h : m.Backed totalSize)
    (hs : m.task.spec.supportsSwarmDiscovery = false)
    (hp : ∀ p, probe = .ok p → p.totalSize = some totalSize) (h0 : 0 < totalSize) :
    (start env probe m).2.Backed totalSize ∧ KeepsRunning m.task (start env probe m).2.task := by
  unfold Paradown.start
  split
  · rename_i err m' hr
    exact h.prepareForStart hr
  · rename_i m' hr
    obtain ⟨hb, hk⟩ := h.prepareForStart hr
    have hb' : (m'.setStatus .preparing).Backed totalSize := hb.congr rfl rfl rfl rfl rfl
    have hs' : (m'.setStatus .preparing).task.spec.supportsSwarmDiscovery = false := by
      rw [← hk.spec] at hs
      exact hs
    cases probe with
    | error err =>
      simp only [prepareDownload, hs', Bool.false_eq_true, ↓reduceIte, afterPreparation]
      exact ⟨hb', hk.spec, hk.running⟩
    | ok p =>
      obtain ⟨hb₂, hk₂⟩ := hb'.started env hs' (hp p rfl) h0
      exact ⟨hb₂, hk.trans ⟨hk₂.spec, hk₂.running⟩⟩

/-- What every step of a history keeps: the task is backed by its file, and a running worker writes
where its counter points, as long as that is inside the file. -/
structure History.Backed (s : History) (spec : DownloadSpec) (totalSize : Nat) : Prop where
  origin : s.machine.task.spec = spec
  machine : s.machine.Backed totalSize
  streams : ∀ index w stream, s.machine.task.workers[index]? = some w → w.isRunning = true →
    s.streams index = some stream →
    (∃ path, s.machine.task.filePath = some path ∧ stream.store = singleStore path totalSize) ∧
      (stream.offset = w.start + w.downloadedSize ∨ totalSize ≤ w.start + w.downloadedSize)

theorem Machine.Backed.filed_of_worker {m : Machine} {index : Nat} (h : m.Backed totalSize)
    (hget : m.task.workers[index]? = some w) : ∃ path, m.Filed totalSize path := by
  rcases h.filed with hn | hfiled
  · rw [hn] at hget
    cases hget
  · exact hfiled

theorem Machine.Filed.setWorker {m : Machine} (h : m.Filed totalSize path)
    (hf : fs'.file path = some f') (hl : f'.len = totalSize)
    (hold : ∀ i < totalSize, m.task.Counts i → f'.WrittenAt i)
    (hnew : ∀ i < totalSize, w'.start ≤ i → i < w'.start + w'.downloadedSize → f'.WrittenAt i) :
    Machine.Backed ⟨m.task.setWorker index w', fs'⟩ totalSize := by
  refine ⟨.inr ⟨path, f', h.target, hf⟩, .inr ⟨path, h.target, h.store, f', hf, hl, ?_⟩⟩
  rintro i hi ⟨v, hv, hle, hlt⟩
  rcases List.mem_or_eq_of_mem_set hv with hv | rfl
  · exact hold i hi ⟨v, hv, hle, hlt⟩
  · exact hnew i hi hle hlt

theorem History.Backed.setWorker {s : History} (h : s.Backed spec totalSize)
    (hm : Machine.Backed ⟨s.machine.task.setWorker index w', fs'⟩ totalSize)
    (hst : ∀ st, stream = some st → w'.isRunning = true →
      (∃ path, s.machine.task.filePath = some path ∧ st.store = singleStore path totalSize) ∧
        (st.offset = w'.start + w'.downloadedSize ∨ totalSize ≤ w'.start + w'.downloadedSize)) :
    History.Backed ⟨⟨s.machine.task.setWorker index w', fs'⟩,
      Function.update s.streams index stream⟩ spec totalSize := by
  refine ⟨h.origin, hm, fun k v st hget hr hs => ?_⟩
  simp only [Task.setWorker, List.getElem?_set] at hget
  by_cases hk : index = k
  · subst k
    simp only [↓reduceIte] at hget
    split at hget
    · cases hget
      simp only [Function.update_self] at hs
      exact hst st hs hr
    · cases hget
  · simp only [hk, ↓reduceIte] at hget
    simp only [Function.update_of_ne (Ne.symm hk)] at hs
    exact h.streams k v st hget hr hs

theorem History.Backed.runWorker {s : History} (h : s.Backed spec totalSize)
    (hz : runWorker s index = some s') : s'.Backed spec totalSize := by
  simp only [Paradown.runWorker, Option.bind_eq_bind, Option.bind_eq_some_iff, Option.pure_def,
    Option.some.injEq] at hz
  obtain ⟨w, hget, w', hrun, rfl⟩ := hz
  obtain ⟨path, hfiled⟩ := h.machine.filed_of_worker hget
  obtain ⟨f, hf, hl, hc⟩ := hfiled.file
  have hsame : w'.start = w.start ∧ w'.downloadedSize = w.downloadedSize := by
    unfold Worker.run at hrun
    split at hrun
    · cases hrun
    · split at hrun <;> cases hrun <;> exact ⟨rfl, rfl⟩
  apply h.setWorker
  · refine hfiled.setWorker hf hl hc fun i hi hle hlt => ?_
    rw [hsame.1] at hle
    rw [hsame.1, hsame.2] at hlt
    exact hc i hi ⟨w, List.mem_of_getElem? hget, hle, hlt⟩
  · intro st hst
    cases hst

/-- A step that keeps the counters true: a request without ranges is not made for bytes that have
been counted, and the row of a saved task keeps the path as it is. -/
def KeepsCounts (s : History) : Action → Prop
  | .respond index => ∀ w, s.machine.task.workers[index]? = some w →
    w.downloadedSize = 0 ∨ (w.lengthKnown && s.machine.task.rangeRequestsSupported) = true
  | .restart => ∀ path, s.machine.task.filePath = some path → normalizedTextField path = some path
  | _ => True

theorem History.Backed.respond {s : History} (h : s.Backed spec totalSize)
    (ht : totalSize < 2 ^ 64) (hk : KeepsCounts s (.respond index))
    (hz : respond s index = some s') : s'.Backed spec totalSize := by
  simp only [Paradown.respond, Option.bind_eq_bind, Option.bind_eq_some_iff, Option.pure_def] at hz
  obtain ⟨w, hget, store, hstore, hz⟩ := hz
  split at hz
  · cases hz
    obtain ⟨path, hfiled⟩ := h.machine.filed_of_worker hget
    refine ⟨h.origin, h.machine, fun k v st hv hr hs => ?_⟩
    by_cases hkey : k = index
    · subst k
      cases hget.symm.trans hv
      simp only [Function.update_self] at hs
      cases hs
      refine ⟨⟨path, hfiled.target, hfiled.store store hstore⟩, ?_⟩
      simp only [Task.writeOffset]
      split
      · unfold satAdd
        omega
      · rename_i hno
        rcases hk w hget with h0 | hranges
        · exact .inl (by rw [h0, Nat.add_zero])
        · exact absurd hranges hno
    · simp only [Function.update_of_ne hkey] at hs
      exact h.streams k v st hv hr hs
  · cases hz

theorem History.Backed.slice {s : History} (h : s.Backed spec totalSize)
    (ht : totalSize < 2 ^ 64) (hz : slice s index data = some s') : s'.Backed spec totalSize := by
  simp only [Paradown.slice, Option.bind_eq_bind, Option.bind_eq_some_iff, Option.pure_def] at hz
  obtain ⟨w, hget, stream, hstream, hz⟩ := hz
  split at hz
  case isFalse => cases hz
  case isTrue hproceed =>
    split at hz
    · cases hz
    · rename_i fs' hw
      cases hz
      have hrunning : w.isRunning = true := by
        simp only [Worker.mayProceed, Bool.and_eq_true] at hproceed
        exact hproceed.1.1.1
      obtain ⟨⟨path, hpath, hstore⟩, hoff⟩ := h.streams index w stream hget hrunning hstream
      obtain ⟨p, hfiled⟩ := h.machine.filed_of_worker hget
      cases hpath.symm.trans hfiled.target
      obtain ⟨f, hf, hl, hc⟩ := hfiled.file
      have hmem := List.mem_of_getElem? hget
      rw [hstore] at hw
      rcases singleStore_writeAt ht hw with ⟨rfl, rfl⟩ | ⟨hin, rfl⟩
      · refine h.setWorker (hfiled.setWorker hf hl hc fun i hi hle hlt => ?_) fun st hst _ => ?_
        · exact hc i hi ⟨w, hmem, hle, hlt⟩
        · cases hst
          refine ⟨⟨path, hpath, hstore⟩, ?_⟩
          simp only [List.length_nil, Nat.add_zero, satAdd]
          omega
      · obtain ⟨f', hf', hl', hwritten⟩ := writeSlice_writtenAt data hf (hl ▸ hin)
        have hold : ∀ i < totalSize, s.machine.task.Counts i → f'.WrittenAt i :=
          fun i hi hcount => hwritten i (.inl (hc i hi hcount))
        refine h.setWorker (hfiled.setWorker hf' (hl'.trans hl) hold fun i hi hle hlt => ?_)
          fun st hst _ => ?_
        · -- counted before, or in the window that was just written
          by_cases hbefore : i < w.start + w.downloadedSize
          · exact hold i hi ⟨w, hmem, hle, hbefore⟩
          · refine hwritten i (.inr ?_)
            simp only at hlt
            omega
        · cases hst
          refine ⟨⟨path, hpath, hstore⟩, ?_⟩
          simp only [satAdd]
          omega

theorem History.Backed.pause {s : History} (h : s.Backed spec totalSize) :
    History.Backed ⟨{ s.machine with task := s.machine.task.pause }, s.streams⟩ spec totalSize := by
  unfold Task.pause
  split
  case isFalse => exact h
  case isTrue =>
    refine ⟨h.origin, ⟨h.machine.clean, ?_⟩, fun k v st hget hr hs => ?_⟩
    · rcases h.machine.filed with hn | ⟨path, hfiled⟩
      · exact .inl (by rw [hn, List.map_nil])
      · obtain ⟨f, hf, hl, hc⟩ := hfiled.file
        refine .inr ⟨path, hfiled.target, hfiled.store, f, hf, hl, ?_⟩
        rintro i hi ⟨v, hv, hle, hlt⟩
        obtain ⟨w, hw, rfl⟩ := List.mem_map.1 hv
        exact hc i hi ⟨w, hw, hle, hlt⟩
    · rw [List.getElem?_map] at hget
      obtain ⟨w, hw, rfl⟩ := Option.map_eq_some_iff.1 hget
      exact h.streams k w st hw hr hs

theorem addTaskWithWorkers_state (config : Config) (now id : Nat) (r : TaskRequest)
    (workers : Option (List SegmentRequest)) :
    (addTaskWithWorkers config now id r workers).blockStates = r.blockStates.getD [] ∧
      (addTaskWithWorkers config now id r workers).payloadStore = none ∧
      ∀ w ∈ (addTaskWithWorkers config now id r workers).workers,
        w.isRunning = false ∧ ∃ v ∈ workers.getD [], w.start = v.start ∧
          w.downloadedSize = v.downloaded.getD 0 := by
  cases workers with
  | none => exact ⟨rfl, rfl, fun w hw => absurd hw List.not_mem_nil⟩
  | some ws =>
    refine ⟨rfl, rfl, fun w hw => ?_⟩
    obtain ⟨v, hv, rfl⟩ := List.mem_map.1 hw
    exact ⟨rfl, v, hv, rfl, rfl⟩

theorem restoreTask_state (codec : Codec) (now : Nat) (m : Machine) :
    (NoBlockCompleted m.task.blockStates → NoBlockCompleted (restoreTask codec now m).blockStates) ∧
      (restoreTask codec now m).payloadStore = none ∧
      ∀ w ∈ (restoreTask codec now m).workers, w.isRunning = false ∧
        ∃ v ∈ m.task.workers, w.start = v.start ∧ w.downloadedSize = v.downloadedSize := by
  obtain ⟨hb, hs, hw⟩ := addTaskWithWorkers_state m.task.config now
    ((buildRestorePlan codec m.fs.view (saveTask codec m.task)).taskRequest.id.getD 1)
    (buildRestorePlan codec m.fs.view (saveTask codec m.task)).taskRequest
    (buildRestorePlan codec m.fs.view (saveTask codec m.task)).workers
  refine ⟨fun h => ?_, hs, fun w hm => ?_⟩
  · unfold restoreTask
    obtain ⟨_, _, hblocks⟩ := buildRestorePlan_request codec m.fs.view (saveTask codec m.task)
    rw [hb, hblocks, dbTaskToRequest, Option.getD_some, noBlockCompleted_dbBlocks]
    intro b hm
    obtain ⟨st, hst, rfl⟩ := List.mem_map.1 hm
    exact h st hst
  · obtain ⟨hidle, v, hv, hstart, hcount⟩ := hw w hm
    obtain ⟨row, hrow, _, _, _, _, _, haccepted⟩ := mem_buildRestorePlan hv
    obtain ⟨source, _, _, rfl⟩ := haccepted.source
    obtain ⟨db, hdb, rfl⟩ := List.mem_map.1 hrow
    obtain ⟨u, hu, rfl⟩ := List.mem_map.1 hdb
    exact ⟨hidle, u, hu, hstart, hcount⟩

theorem History.Backed.restart {s : History} (h : s.Backed spec totalSize)
    (hj : codec.specFromJson (codec.specToJson spec) = some spec) (hk : KeepsCounts s .restart) :
    History.Backed ⟨{ s.machine with task := restoreTask codec now s.machine }, fun _ => none⟩ spec
      totalSize := by
  obtain ⟨hb, hs, hw⟩ := restoreTask_state codec now s.machine
  obtain ⟨hspec, hpath⟩ := restoreTask_target codec now (h.origin.symm ▸ hj)
  refine ⟨hspec.trans h.origin, ⟨?_, ?_⟩, fun k v st _ _ hst => nomatch hst⟩
  · rcases h.machine.clean with hc | ⟨path, f, hp, hf⟩
    · exact .inl (hb hc)
    · exact .inr ⟨path, f, hpath path hp (hk path hp), hf⟩
  · rcases h.machine.filed with hn | ⟨path, hfiled⟩
    · refine .inl (List.eq_nil_iff_forall_not_mem.2 fun w hm => ?_)
      obtain ⟨_, v, hv, _⟩ := hw w hm
      rw [hn] at hv
      cases hv
    · obtain ⟨f, hf, hl, hc⟩ := hfiled.file
      refine .inr ⟨path, hpath path hfiled.target (hk path hfiled.target), ?_, f, hf, hl, ?_⟩
      · intro store hst
        rw [hs] at hst
        cases hst
      · rintro i hi ⟨w, hm, hle, hlt⟩
        obtain ⟨_, v, hv, hstart, hcount⟩ := hw w hm
        exact hc i hi ⟨v, hv, hstart ▸ hle, hstart ▸ hcount ▸ hlt⟩

/-- Every probe of the action reports this size. -/
def Action.Reports (totalSize : Nat) : Action → Prop
  | .start (.ok probe) | .resume (.ok probe) => probe.totalSize = some totalSize
  | _ => True

theorem History.Backed.begin {s : History} (env : Env) {m : Machine} (h : s.Backed spec totalSize)
    (hm : m.Backed totalSize) (hkeep : KeepsRunning s.machine.task m.task)
    (hs : spec.supportsSwarmDiscovery = false)
    (hp : ∀ p, probe = .ok p → p.totalSize = some totalSize) (h0 : 0 < totalSize) :
    History.Backed ⟨(start env probe m).2, s.streams⟩ spec totalSize := by
  have hs' : m.task.spec.supportsSwarmDiscovery = false := by
    rw [hkeep.spec, h.origin]
    exact hs
  obtain ⟨hb, hk⟩ := hm.start env hs' hp h0
  have hall := hkeep.trans hk
  refine ⟨hall.spec.trans h.origin, hb, fun k v st hget hr hst => ?_⟩
  rcases hall.running with hidle | ⟨hw, hf⟩
  · rw [hidle v (List.mem_of_getElem? hget)] at hr
    cases hr
  · simp only [hw] at hget
    simp only [hf]
    exact h.streams k v st hget hr hst

theorem resumeTarget_backed {m m' : Machine} (h : m.Backed totalSize)
    (hr : resumeTarget m = some m') : m'.Backed totalSize ∧ KeepsRunning m.task m'.task := by
  unfold resumeTarget at hr
  split at hr <;> cases hr
  all_goals exact ⟨h.congr rfl rfl rfl rfl rfl, rfl, .inr ⟨rfl, rfl⟩⟩

theorem History.Backed.step {s : History} (env : Env) (h : s.Backed spec totalSize)
    (hs : spec.supportsSwarmDiscovery = false)
    (hj : codec.specFromJson (codec.specToJson spec) = some spec) (h0 : 0 < totalSize)
    (ht : totalSize < 2 ^ 64) (hsize : a.Reports totalSize) (hk : KeepsCounts s a)
    (hz : step env codec s a = some s') : s'.Backed spec totalSize := by
  cases a with
  | start probe =>
    cases hz
    refine h.begin env h.machine ⟨rfl, .inr ⟨rfl, rfl⟩⟩ hs ?_ h0
    rintro p rfl
    exact hsize
  | resume probe =>
    simp only [Paradown.step] at hz
    split at hz
    · rename_i m hr
      cases hz
      obtain ⟨hm, hkeep⟩ := resumeTarget_backed h.machine hr
      refine h.begin env hm hkeep hs ?_ h0
      rintro p rfl
      exact hsize
    · cases hz
      exact h
  | pause =>
    cases hz
    exact h.pause
  | restart =>
    cases hz
    exact h.restart hj hk
  | runWorker index => exact h.runWorker hz
  | respond index => exact h.respond ht hk hz
  | slice index data => exact h.slice ht hz

/-- A preparation that lets the local file pass on its length finds every byte of it counted by a
worker of the task. -/
def PassesOnlyCounted (env : Env) (s : History) (a : Action) : Prop :=
  ∀ m probe, prepares s a = some (m, probe) → ∀ file totalSize,
    PassesOnLength env m probe file totalSize → ∀ i < totalSize, m.task.Counts i

theorem History.Backed.prepares {s : History} (h : s.Backed spec totalSize)
    (hp : prepares s a = some (m, probe)) : m.Backed totalSize := by
  unfold Paradown.prepares at hp
  split at hp
  · split at hp
    · rename_i m' hm
      cases hp
      exact (h.machine.prepareForStart hm).1.congr rfl rfl rfl rfl rfl
    · cases hp
  · split at hp
    · rename_i m₁ hr
      split at hp
      · rename_i m' hm
        cases hp
        exact ((resumeTarget_backed h.machine hr).1.prepareForStart hm).1.congr rfl rfl rfl rfl rfl
      · cases hp
    · cases hp
  · cases hp

/-- A backed file whose bytes are all counted was written from end to end. -/
theorem Machine.Backed.writtenUpTo {m : Machine} (h : m.Backed totalSize)
    (hf : m.fs.file (plannedPath env probe m.task) = some file) (h0 : 0 < totalSize)
    (hc : ∀ i < totalSize, m.task.Counts i) : file.WrittenUpTo totalSize := by
  rcases h.filed with hn | ⟨path, hfiled⟩
  · obtain ⟨w, hw, _⟩ := hc 0 h0
    rw [hn] at hw
    cases hw
  · obtain ⟨f, hfound, hl, hwritten⟩ := hfiled.file
    rw [plannedPath_of_filePath hfiled.target, hfound] at hf
    cases hf
    exact File.writtenUpTo_of_writtenAt hl fun i hi => hwritten i hi (hc i hi)

theorem prepares_reports (hp : prepares s a = some (m, probe)) (hsize : a.Reports totalSize) :
    probe.totalSize = some totalSize := by
  unfold prepares at hp
  split at hp
  · split at hp <;> cases hp
    exact hsize
  · split at hp
    · split at hp <;> cases hp
      exact hsize
    · cases hp
  · cases hp

/-- Over any history of starts, transfers, pauses, restarts and resumes of a new download of known
size, preparation completes only downloaded or digest-checked files, as long as the counters of the
workers stay true and no file passes on its length while a byte of it is not counted. -/
theorem history_completesHonestly (env : Env) (codec : Codec) (totalSize : Nat) (s : History)
    (as : List Action) (h0 : 0 < totalSize) (ht : totalSize < 2 ^ 64)
    (hs : s.machine.task.spec.supportsSwarmDiscovery = false)
    (hj : codec.specFromJson (codec.specToJson s.machine.task.spec) = some s.machine.task.spec)
    (hw : s.machine.task.workers = []) (hb : NoBlockCompleted s.machine.task.blockStates)
    (hsize : ∀ a ∈ as, a.Reports totalSize)
    (h : Transition.Meets (step env codec) (fun s a => KeepsCounts s a ∧ PassesOnlyCounted env s a)
      s as) :
    Transition.Meets (step env codec) (CompletesHonestly env) s as := by
  rw [Transition.meets_and_iff hsize] at h
  have hstart : s.Backed s.machine.task.spec totalSize := by
    refine ⟨rfl, ⟨.inl hb, .inl hw⟩, fun k w st hget => ?_⟩
    rw [hw] at hget
    cases hget
  generalize s.machine.task.spec = spec at hs hj hstart
  refine h.mono (I := fun s => s.Backed spec totalSize) (fun s a s' hi hc hz => ?_)
    (fun s a hi hc => ?_) hstart
  · exact hi.step env hs hj h0 ht hc.1 hc.2.1 hz
  · intro m probe hp
    rw [finishesHonestly_iff]
    intro file n hpass
    have hn : n = totalSize :=
      Option.some.inj (hpass.size.symm.trans (prepares_reports hp hc.1))
    subst n
    exact (hi.prepares hp).writtenUpTo hpass.found h0 (hc.2.2 m probe hp file totalSize hpass)

instance (t : Task) (i : Nat) : Decidable (t.Counts i) :=
  inferInstanceAs (Decidable (∃ w ∈ t.workers, _))

instance (env : Env) (m : Machine) (probe : OriginMetadata) (file : File) (n : Nat) :
    Decidable (PassesOnLength env m probe file n) :=
  decidable_of_iff _ (passesOnLength_iff env m probe file n).symm

instance (s : History) : (a : Action) → Decidable (KeepsCounts s a)
  | .respond index => inferInstanceAs (Decidable (∀ w ∈ s.machine.task.workers[index]?, _))
  | .restart => inferInstanceAs (Decidable (∀ path ∈ s.machine.task.filePath, _))
  | .start _ | .resume _ | .pause | .runWorker _ | .slice _ _ => isTrue trivial

instance (env : Env) (s : History) (a : Action) : Decidable (PassesOnlyCounted env s a) :=
  decidable_of_iff (∀ p ∈ prepares s a, ∀ file ∈ p.1.fs.file (plannedPath env p.2 p.1.task),
    ∀ n ∈ p.2.totalSize, PassesOnLength env p.1 p.2 file n → ∀ i < n, p.1.task.Counts i)
    ⟨fun h m probe hp file n hpass => h (m, probe) hp file hpass.found n hpass.size hpass,
      fun h p hp file _ n _ => h p.1 p.2 hp file n⟩

/-- A codec that reads the specification of the download back. -/
def httpsCodec : Codec :=
  { bareCodec with specFromJson := fun _ => some (.https "https://example.com/file.bin") }

/-- All ten bytes arrive, then the download is paused and the process restarts. -/
def wholeTransfer : List Action :=
  [.start (.ok tenByteProbe), .runWorker 0, .respond 0, .slice 0 [1, 2, 3, 4, 5, 6, 7, 8, 9, 10],
    .pause, .restart]

/-- The next start finds a complete file. -/
theorem whole_transfer_is_completed :
    Transition.Meets (step plainEnv httpsCodec) (CompletesHonestly plainEnv) newDownload
      (wholeTransfer ++ [.start (.ok tenByteProbe)]) ∧
    ((Transition.run (step plainEnv httpsCodec) newDownload
      (wholeTransfer ++ [.start (.ok tenByteProbe)])).map fun s => s.machine.task.status) =
      some .completed := by
  refine ⟨?_, rfl⟩
  refine history_completesHonestly plainEnv httpsCodec 10 newDownload _ (by decide) (by decide)
    rfl rfl rfl (fun s hs => absurd hs List.not_mem_nil) ?_ ?_
  · simp [wholeTransfer, Action.Reports, tenByteProbe]
  · decide

end Paradown
