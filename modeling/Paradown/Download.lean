import Paradown.PieceProgress
import Paradown.Sanitizing
import Paradown.Seeding
import Paradown.Sharing
import Paradown.TornRows

namespace Paradown
set_option autoImplicit true

open Tiling

/-- The first run of a worker, or the next one after it has returned. -/
def Worker.spawn (w : Worker) : Transfer where
  worker := w
  downloaded := 0
  retryCount := 0
  fs := .empty
  phase := .starting
  stream := none
  streamTotal := none

def Phase.isFinished : Phase → Bool
  | .finished _ => true
  | _ => false

/-- What a call of `sync_piece_progress_from_workers` is about to do; at first it has read the worker
list and not yet the block map. -/
inductive SyncPhase where
  | copying
  | counting
  | storingPieces
  | storingCount
  deriving DecidableEq, Repr

/-- A call of `sync_piece_progress_from_workers`: its copy of the block map with what it has marked
so far, the workers whose counters it has still to read, and the sum of the others. -/
structure Sync where
  states : List BlockState
  todo : List Nat
  downloaded : Nat
  phase : SyncPhase

def Sync.blockMap (s : Sync) : Option (List BlockState) :=
  if s.phase = .copying then none else some s.states

/-- The last thing that a preparation which discards the local file has done: it removes the file,
goes through `reset_resume_state`, and allocates the file again. -/
inductive Discard where
  | removed
  | countReset
  | piecesReset
  | blocksReset
  | workersCleared
  | rowsPurged
  deriving DecidableEq, Repr

def Discard.mapReset : Discard → Bool
  | .removed | .countReset | .piecesReset => false
  | .blocksReset | .workersCleared | .rowsPurged => true

def Discard.listCleared : Discard → Bool
  | .removed | .countReset | .piecesReset | .blocksReset => false
  | .workersCleared | .rowsPurged => true

/-- A task that is downloading, the files and the rows of the repository. `runs` are the runs of all
workers of the process, whose files are the shared ones (`Transfer.fs` is not read); `listed` are
those of the present worker list, and `made` those that `ensure_workers` has not yet put into it.
Each call that may go on to finalise the download has the workers in `checks` whose status it has
still to read. -/
structure Download where
  task : Task
  fs : FileSystem
  runs : List Transfer
  listed : List Nat
  made : List Nat
  syncs : List Sync
  saves : List (List BlockState)
  checks : List (List Nat)
  calls : List RowCall
  rows : List BlockState
  workerRows : List DBDownloadWorker
  /-- The block rows have been written since the local file was last discarded. -/
  saved : Bool
  discarding : Option Discard

inductive DownloadAct where
  /-- A step of a worker, whether it is still in the list or not. -/
  | run (i : Nat) (a : TransferAct)
  | syncStart
  | syncStep (i : Nat)
  /-- A save of the task reads the block map, and writes its rows later. -/
  | saveStart
  | saveEnd (i : Nat)
  /-- `all_workers_completed` goes through the worker list, and the download is finalised. -/
  | checkStart
  | checkStep (i : Nat)
  | finalize (i : Nat) (verified : Bool)
  /-- A save looks up workers in the list; `worker_to_db` reads each of them later. -/
  | workersToDb (workers : List Nat)
  | readWorker (call : Nat)
  /-- Rows of workers are purged, or left out of a bundle that is saved. -/
  | dropRows (ids : List Nat)
  /-- `spawn_workers` of a worker of the list. -/
  | respawn (lane : Nat)
  /-- `ensure_workers` clears the worker list, makes new workers with the settings of the moment, and
  lists them. -/
  | clearWorkers
  | createWorkers (now segments : Nat) (ranges : Bool) (runtime : String → SourceRuntimeState)
  | listWorkers
  | removeFile (path : String)
  | discardStep
  /-- The process ends, and the next one restores the task from its rows. -/
  | crash (codec : Codec) (config : Config) (now : Nat) (row : DBDownloadTask)
      (pieces : List DBDownloadPiece) (checksums : List DBDownloadChecksum)

/-- The workers with their rows and the rows being read. -/
def Download.table (d : Download) : LaneTable :=
  ⟨d.runs.map (⟨d.task.id, ·⟩), d.calls, d.workerRows⟩

def Download.syncStart (d : Download) : Option Download :=
  d.task.manifest.map fun _ => { d with syncs := d.syncs ++ [⟨[], d.listed, 0, .copying⟩] }

/-- The next thing that a synchronisation does: copy the block map, read one counter and mark its
blocks, or store one of its results. -/
def Download.syncStep (d : Download) (i : Nat) : Option Download := do
  let m ← d.task.manifest
  let s ← d.syncs[i]?
  match s.phase with
  | .copying =>
    let fresh := initializeBlockStates m.blocks
    let states := if blockStateLayoutMatches fresh d.task.blockStates then d.task.blockStates else fresh
    return { d with syncs := d.syncs.set i { s with states, phase := .counting } }
  | .counting =>
    match s.todo with
    | j :: rest =>
      let t ← d.runs[j]?
      let downloaded := satAdd s.downloaded (min t.worker.downloadedSize t.worker.expectedLength)
      let states := markWorkerBlocks m.blocks s.states t.worker
      return { d with syncs := d.syncs.set i { s with states, downloaded, todo := rest } }
    | [] =>
      if m.totalSizeKnown then
        return { d with
          task := { d.task with blockStates := s.states }
          syncs := d.syncs.set i { s with phase := .storingPieces } }
      else
        return { d with
          task := { d.task with downloadedSize := s.downloaded }, syncs := d.syncs.eraseIdx i }
  | .storingPieces =>
    let pieceStates := derivePieceStatesFromBlocks m.pieces m.blocks s.states
    return { d with
      task := { d.task with pieceStates }
      syncs := d.syncs.set i { s with phase := .storingCount } }
  | .storingCount =>
    return { d with
      task := { d.task with downloadedSize := min s.downloaded m.totalSize }
      syncs := d.syncs.eraseIdx i }

/-- The next status that `all_workers_completed` reads; the first one that is another ends it. -/
def Download.checkStep (d : Download) (i : Nat) : Option Download := do
  let todo ← d.checks[i]?
  match todo with
  | j :: rest =>
    let t ← d.runs[j]?
    let checks := if t.worker.status = .completed then d.checks.set i rest else d.checks.eraseIdx i
    return { d with checks }
  | [] => none

/-- `finalize_download`, by its write to the block map. -/
def Download.finalize (d : Download) (i : Nat) (verified : Bool) : Option Download := do
  let todo ← d.checks[i]?
  if todo.isEmpty then
    return { d with
      task := if verified then d.task.markAllPiecesCompleted else d.task
      checks := d.checks.eraseIdx i }
  else none

/-- The next statement of `reset_resume_state`, and after it `PayloadStore::prepare`. -/
def Download.discardStep (store : FileMap) (d : Download) : Option Download :=
  d.discarding.map fun stage =>
    match stage with
    | .removed =>
      { d with task := { d.task with downloadedSize := 0 }, discarding := some .countReset }
    | .countReset =>
      { d with task := d.task.resetPieceProgress, discarding := some .piecesReset }
    | .piecesReset =>
      { d with task := d.task.resetBlockProgress, discarding := some .blocksReset }
    | .blocksReset => { d with listed := [], discarding := some .workersCleared }
    | .workersCleared => { d with workerRows := [], discarding := some .rowsPurged }
    | .rowsPurged => { d with fs := store.prepare d.fs, discarding := none }

def Download.createWorkers (d : Download) (now : Nat) (task : Task) : Option Download :=
  match task.createWorkers now with
  | .error _ => none
  | .ok workers =>
    some { d with
      task
      runs := d.runs ++ workers.map Worker.spawn
      made := List.range' d.runs.length workers.length }

/-- The next process: the block map and the workers are what the plan makes of the rows. -/
def Download.restore (d : Download) (config : Config) (now : Nat) (plan : RestorePlan) : Download :=
  let lanes := (d.table.restore config now d.fs plan).lanes
  { d with
    task := { d.task with
      id := plan.taskRequest.id.getD 1, blockStates := plan.taskRequest.blockStates.getD [] }
    runs := lanes.map (·.transfer)
    listed := List.range' 0 lanes.length
    made := [], syncs := [], saves := [], checks := [], calls := [], discarding := none }

/-- The calls of a start follow each other: workers are made, listed or spawned after a preparation,
not while it discards the file, and one list of workers is made at a time. -/
def Download.step (env : TransferEnv) (d : Download) : DownloadAct → Option Download
  | .run i a => do
    let t ← d.runs[i]?
    let t' ← (t.on d.fs).step env a
    return { d with fs := t'.fs, runs := d.runs.set i t' }
  | .syncStart => d.syncStart
  | .syncStep i => d.syncStep i
  | .saveStart => some { d with saves := d.saves ++ [d.task.blockStates] }
  | .saveEnd i => do
    let rows ← d.saves[i]?
    return { d with rows, saved := true, saves := d.saves.eraseIdx i }
  | .checkStart => some { d with checks := d.checks ++ [d.listed] }
  | .checkStep i => d.checkStep i
  | .finalize i verified => d.finalize i verified
  | .workersToDb workers =>
    let found := workers.filter fun i => d.listed.contains i || d.made.contains i
    some { d with calls := d.calls ++ found.map (⟨·, .called⟩) }
  | .readWorker k =>
    (d.table.step (.read k)).map fun s => { d with calls := s.calls, workerRows := s.rows }
  | .dropRows ids =>
    some { d with workerRows := d.workerRows.filter fun row => !ids.contains row.id }
  | .respawn lane => do
    let i ← d.listed[lane]?
    let t ← d.runs[i]?
    if t.phase.isFinished && d.discarding.isNone then
      return { d with runs := d.runs.set i t.worker.spawn }
    else none
  | .clearWorkers => if d.discarding.isNone then some { d with listed := [] } else none
  | .createWorkers now segments ranges runtime =>
    if d.discarding.isNone && d.made.isEmpty then
      d.createWorkers now { d.task with
        config := { d.task.config with segmentsPerTask := segments }
        rangeRequestsSupported := ranges, sourceRuntime := runtime }
    else none
  | .listWorkers =>
    if d.discarding.isNone then
      some { d with listed := if d.listed.isEmpty then d.made else d.listed, made := [] }
    else none
  | .removeFile path =>
    if d.discarding.isNone then
      some { d with fs := d.fs.removeFile path, saved := false, discarding := some .removed }
    else none
  | .discardStep => d.discardStep env.store
  | .crash codec config now row pieces checksums =>
    some (d.restore config now (buildRestorePlan codec d.fs.view
      (d.table.bundle row pieces (blockStatesToDb row.id d.rows) checksums)))

/-- Every request asks for a range and is answered with bytes of `resource`, and no worker completes
while a read of its row has an older counter and not yet the status. The file is discarded while no
synchronisation, no save and no call of `ensure_workers` is in progress and no download is being
finalised, and none begins before what it reads has been cleared; `all_workers_completed` finds
workers; the process does not end between a discard and the next save, and the row of the task says
how long the payload is. -/
def Download.Serves (resource : List UInt8) (d : Download) : DownloadAct → Prop
  | .run i .proceed => ∀ t ∈ d.runs[i]?, t.phase = .succeeding → ∀ call ∈ d.calls, call.lane = i →
    ∀ downloaded ∈ call.reading.counter, t.worker.rangeLength ≤ downloaded
  | .run i a => ∀ t ∈ d.runs[i]?, t.ServesRange resource a
  | .syncStart | .workersToDb _ => ∀ stage ∈ d.discarding, stage.listCleared = true
  | .saveStart => ∀ stage ∈ d.discarding, stage.mapReset = true
  | .checkStart => d.discarding = none ∧ d.listed ≠ []
  | .removeFile _ => d.syncs = [] ∧ d.saves = [] ∧ d.checks = [] ∧ d.calls = [] ∧ d.made = []
  | .crash _ _ _ row _ _ => d.discarding = none ∧ d.saved = true ∧
    ∀ m ∈ d.task.manifest, row.totalSize = some m.totalSize
  | _ => True

/-- The block maps that may still become the map of the task. -/
def Download.maps (d : Download) : List (List BlockState) :=
  d.task.blockStates ::
    (d.syncs.filterMap Sync.blockMap ++ d.saves ++ if d.saved then [d.rows] else [])

/-- The row of a worker speaks of bytes of the resource that are on disk. -/
structure DBDownloadWorker.Genuine (store : FileMap) (resource : List UInt8) (fs : FileSystem)
    (row : DBDownloadWorker) : Prop where
  order : row.start ≤ row.endByte
  last : row.endByte < store.totalSize
  counted : ∀ byte, row.start ≤ byte → byte < row.start + row.downloaded →
    store.AgreesAt resource fs byte

/-- What has been read of a worker that starts at `start`. -/
structure RowReading.Genuine (store : FileMap) (resource : List UInt8) (fs : FileSystem)
    (start : Nat) (reading : RowReading) : Prop where
  counted : ∀ downloaded ∈ reading.counter, ∀ byte, start ≤ byte → byte < start + downloaded →
    store.AgreesAt resource fs byte
  row : ∀ row, reading = .saving row → row.Genuine store resource fs

/-- The lanes of these workers divide the payload. -/
def Download.Covers (d : Download) (m : SessionManifest) (workers : List Nat) : Prop :=
  workers ≠ [] → ∃ ranges : List (Nat × Nat),
    Tiled Prod.fst (fun range => range.2 + 1 - range.1) 0 ranges m.totalSize ∧
    workers.map (fun i => (d.runs[i]?).map Transfer.range) = ranges.map some

/-- The bytes that may still be missing belong to the workers `todo`. -/
def Download.Leaves (d : Download) (store : FileMap) (resource : List UInt8) (total : Nat)
    (todo : List Nat) : Prop :=
  ∀ byte < total, store.AgreesAt resource d.fs byte ∨ ∃ i ∈ todo, ∃ range,
    (d.runs[i]?).map Transfer.range = some range ∧ range.1 ≤ byte ∧ byte ≤ range.2

/-- What holds of a download whose file is in place; `live` is the first run on that file. -/
structure Download.Settled (d : Download) (store : FileMap) (m : SessionManifest)
    (resource : List UInt8) (live : Nat) : Prop where
  allocated : Allocated d.fs store.segments
  honest : ∀ states ∈ d.maps, ∀ byte, CompletedByte m.blocks states byte →
    store.AgreesAt resource d.fs byte
  bound : live ≤ d.runs.length
  runs : ∀ i t, live ≤ i → d.runs[i]? = some t → (t.on d.fs).Ranged store resource
  listed : (∀ i ∈ d.listed, live ≤ i) ∧ d.Covers m d.listed
  made : (∀ i ∈ d.made, live ≤ i) ∧ d.Covers m d.made
  todo : ∀ s ∈ d.syncs, ∀ i ∈ s.todo, live ≤ i
  calls : ∀ call ∈ d.calls, live ≤ call.lane ∧ ∃ range,
    (d.runs[call.lane]?).map Transfer.range = some range ∧
      call.reading.Genuine store resource d.fs range.1
  workerRows : ∀ row ∈ d.workerRows, row.Genuine store resource d.fs
  checks : ∀ todo ∈ d.checks, (∀ i ∈ todo, live ≤ i) ∧ d.Leaves store resource m.totalSize todo

/-- What holds at each stage of a preparation that discards the file. -/
structure Download.Discarding (d : Download) (stage : Discard) : Prop where
  made : d.made = []
  calls : d.calls = []
  syncs : stage.listCleared = false → d.syncs = []
  saves : stage.mapReset = false → d.saves = [] ∧ d.saved = false
  reset : stage.mapReset = true → ∀ states ∈ d.maps, NoBlockCompleted states
  cleared : stage.listCleared = true → d.listed = [] ∧ ∀ s ∈ d.syncs, s.todo = []
  purged : stage = .rowsPurged → d.workerRows = []
  checks : d.checks = []

/-- What holds of a download at every moment. -/
structure Download.Genuine (store : FileMap) (m : SessionManifest) (resource : List UInt8)
    (d : Download) : Prop where
  manifest : d.task.manifest = some m
  layout : ∀ states ∈ d.maps, LayoutMatches m.blocks states
  /-- A run serves the resource on the disk as it is or as it once was. -/
  served : ∀ t ∈ d.runs, ∃ fs, (t.on fs).Ranged store resource
  table : d.table.Counted
  settled : d.discarding = none → ∃ live, d.Settled store m resource live
  stages : ∀ stage, d.discarding = some stage → d.Discarding stage

theorem SessionManifest.KnownSize.blocks_sorted {m : SessionManifest} (h : m.KnownSize)
    (hle : m.pieces.length ≤ 2 ^ 32) : (m.blocks.map (·.key)).Pairwise KeyLe := by
  obtain ⟨_, blockSize, _, _, hb⟩ := h.layout
  rw [hb]
  refine planPieceBlocks_sorted (h.chain.sorted ?_) h.length_lt
  rw [h.chain.index_eq, List.pairwise_map]
  apply (List.pairwise_lt_range' (s := 0) (n := m.pieces.length)).imp_of_mem
  intro i j hi hj hlt
  have hi := (List.mem_range'_1.1 hi).2
  have hj := (List.mem_range'_1.1 hj).2
  rw [Nat.mod_eq_of_lt (by omega), Nat.mod_eq_of_lt (by omega)]
  exact Nat.le_of_lt hlt

/-- A block map of the layout is read back as it was saved. -/
theorem SessionManifest.KnownSize.dbBlocks_saved {m : SessionManifest} (h : m.KnownSize)
    (hle : m.pieces.length ≤ 2 ^ 32) (hl : LayoutMatches m.blocks states) (taskId : Nat) :
    dbBlocksToBlockStates (blockStatesToDb taskId states) = states := by
  have hsorted := h.blocks_sorted hle
  rw [← hl, List.pairwise_map] at hsorted
  exact Paradown.dbBlocks_saved taskId hsorted

/-- The counter of one worker marks only blocks inside the bytes that it covers. -/
theorem markWorkerBlocks_honest {m : SessionManifest} {states : List BlockState} (hk : m.KnownSize)
    (hle : m.pieces.length ≤ 2 ^ 32) (hl : LayoutMatches m.blocks states)
    (hw : w.Inside m.totalSize) :
    LayoutMatches m.blocks (markWorkerBlocks m.blocks states w) ∧
      ∀ byte, CompletedByte m.blocks (markWorkerBlocks m.blocks states w) byte →
        CompletedByte m.blocks states byte ∨ w.start ≤ byte ∧ byte < w.start + w.counted := by
  let t : Task := { restoredTask states with manifest := some m, workers := [w] }
  have hinside : ∀ v ∈ t.workers, v.Inside m.totalSize := by
    intro v hv
    obtain rfl := List.mem_singleton.1 hv
    exact hw
  have hexact := hk.syncsExactly hle t rfl hl hinside
  rw [Task.sync_eq (t := t) rfl hk.known hl] at hexact
  refine ⟨hexact.layout, fun byte hb => ?_⟩
  rcases hexact.honest byte hb with hb | ⟨v, hv, hlow, hhigh⟩
  · exact .inl hb
  · obtain rfl := List.mem_singleton.1 hv
    exact .inr ⟨hlow, hhigh⟩

theorem not_completedByte (h : NoBlockCompleted states) : ¬ CompletedByte blocks states byte := by
  rintro ⟨i, b, s, _, hs, hc, _⟩
  cases (h s (List.mem_of_getElem? hs)).symm.trans hc

theorem DBDownloadWorker.Genuine.mono {row : DBDownloadWorker} {fs fs' : FileSystem}
    (h : row.Genuine store resource fs)
    (hg : ∀ byte, store.AgreesAt resource fs byte → store.AgreesAt resource fs' byte) :
    row.Genuine store resource fs' :=
  ⟨h.order, h.last, fun byte hlow hhigh => hg byte (h.counted byte hlow hhigh)⟩

theorem RowReading.Genuine.mono {reading : RowReading} {fs fs' : FileSystem} {start : Nat}
    (h : reading.Genuine store resource fs start)
    (hg : ∀ byte, store.AgreesAt resource fs byte → store.AgreesAt resource fs' byte) :
    reading.Genuine store resource fs' start where
  counted downloaded hd byte hlow hhigh := hg byte (h.counted downloaded hd byte hlow hhigh)
  row row he := (h.row row he).mono hg

theorem RowReading.called_genuine (store : FileMap) (resource : List UInt8) (fs : FileSystem)
    (start : Nat) : RowReading.Genuine store resource fs start .called := by
  constructor
  case counted =>
    intro downloaded hd
    cases hd
  case row =>
    intro row he
    cases he

theorem RowReading.Genuine.next {fs : FileSystem} {t : Transfer} {reading : RowReading}
    (h : reading.Genuine store resource fs t.worker.start)
    (hr : (t.on fs).Ranged store resource) (taskId : Nat) :
    (reading.next taskId t.worker).Genuine store resource fs t.worker.start := by
  cases reading with
  | placed updatedAt source lane =>
    constructor
    case counted =>
      intro downloaded hd byte hlow hhigh
      obtain rfl := Option.some.inj hd
      exact hr.holds.agrees hlow hhigh
    case row =>
      intro row he
      cases he
  | counted updatedAt source lane downloaded =>
    constructor
    case counted =>
      intro other hd
      cases hd
    case row =>
      intro row he
      obtain rfl := RowReading.saving.inj he
      exact ⟨hr.holds.lane.order, hr.holds.lane.last, h.counted downloaded rfl⟩
  | saving row => exact h
  | called | dated updatedAt | sourced updatedAt source =>
    constructor
    case counted =>
      intro downloaded hd
      cases hd
    case row =>
      intro row he
      cases he

namespace Download

variable {d d' : Download}

theorem getElem?_set_range {runs : List Transfer} (hi : runs[i]? = some t)
    (h : t'.range = t.range) (j : Nat) :
    ((runs.set i t')[j]?).map Transfer.range = (runs[j]?).map Transfer.range := by
  rw [List.getElem?_set]
  split
  · subst j
    rw [hi]
    split
    · rw [Option.map_some, Option.map_some, h]
    · rename_i hlt
      have hlen := (List.getElem?_eq_some_iff.1 hi).1
      exact absurd hlen hlt
  · rfl

theorem mem_blockMap {s : Sync} : states ∈ s.blockMap ↔ s.phase ≠ .copying ∧ s.states = states := by
  unfold Sync.blockMap
  split <;> simp_all

theorem mem_maps : states ∈ d.maps ↔ states = d.task.blockStates ∨
    (∃ s ∈ d.syncs, s.phase ≠ .copying ∧ s.states = states) ∨ states ∈ d.saves ∨
      d.saved = true ∧ states = d.rows := by
  unfold maps
  simp only [List.mem_cons, List.mem_append, List.mem_filterMap, ← Option.mem_def, mem_blockMap,
    List.mem_ite_nil_right, List.not_mem_nil, or_false, or_assoc]

theorem Covers.congr {workers : List Nat} (h : d.Covers m workers)
    (hr : ∀ i ∈ workers, (d'.runs[i]?).map Transfer.range = (d.runs[i]?).map Transfer.range) :
    d'.Covers m workers := by
  intro hne
  obtain ⟨ranges, htile, he⟩ := h hne
  exact ⟨ranges, htile, (List.map_congr_left hr).trans he⟩

theorem Covers.nil (d : Download) (m : SessionManifest) : d.Covers m [] :=
  fun hne => absurd rfl hne

theorem Covers.range {workers : List Nat} (h : d.Covers m workers) (hi : i ∈ workers) :
    ∃ range, (d.runs[i]?).map Transfer.range = some range := by
  obtain ⟨ranges, _, he⟩ := h (List.ne_nil_of_mem hi)
  have hmem := List.mem_map_of_mem (f := fun i => (d.runs[i]?).map Transfer.range) hi
  rw [he] at hmem
  obtain ⟨range, _, hrange⟩ := List.mem_map.1 hmem
  exact ⟨range, hrange.symm⟩

theorem Leaves.mono (h : d.Leaves store resource total todo)
    (hg : ∀ byte, store.AgreesAt resource d.fs byte → store.AgreesAt resource d'.fs byte)
    (hr : ∀ (i : Nat) range, (d.runs[i]?).map Transfer.range = some range →
      (d'.runs[i]?).map Transfer.range = some range) : d'.Leaves store resource total todo := by
  intro byte hlt
  rcases h byte hlt with hb | ⟨i, hi, range, he, hin⟩
  · exact .inl (hg byte hb)
  · exact .inr ⟨i, hi, range, hr i range he, hin⟩

theorem Settled.run (h : d.Settled env.store m resource live) (hm : env.store.Flat)
    (hi : d.runs[i]? = some t) (hr : (t.on fs₀).Ranged env.store resource)
    (hc : t.ServesRange resource a) (hstep : (t.on d.fs).step env a = some t') :
    ({ d with fs := t'.fs, runs := d.runs.set i t' } : Download).Settled env.store m resource
      live := by
  obtain ⟨ha, hg⟩ := Transfer.step_agrees hm h.allocated hr hstep
  have hrange : t'.range = t.range := by
    obtain ⟨hstart, hend, _⟩ := Transfer.step_lane hstep
    exact Prod.ext hstart hend
  have hsame := getElem?_set_range hi hrange
  constructor
  case allocated => exact ha
  case honest => exact fun states hs byte hb => hg byte (h.honest states hs byte hb)
  case bound => exact h.bound.trans (Nat.le_of_eq (List.length_set ..).symm)
  case runs =>
    intro j u hj hu
    simp only [List.getElem?_set] at hu
    split at hu
    · subst j
      split at hu
      · cases hu
        exact (h.runs i t hj hi).step hm (Transfer.servesRange_on.2 hc) (Transfer.step_move hstep)
      · cases hu
    · exact (h.runs j u hj hu).agrees ha hg
  case listed => exact ⟨h.listed.1, h.listed.2.congr fun j _ => hsame j⟩
  case made => exact ⟨h.made.1, h.made.2.congr fun j _ => hsame j⟩
  case todo => exact h.todo
  case calls =>
    intro call hcall
    obtain ⟨hlive, range, he, hread⟩ := h.calls call hcall
    exact ⟨hlive, range, (hsame call.lane).trans he, hread.mono hg⟩
  case workerRows => exact fun row hrow => (h.workerRows row hrow).mono hg
  case checks =>
    intro todo ht
    obtain ⟨hlive, hleaves⟩ := h.checks todo ht
    exact ⟨hlive, hleaves.mono hg fun j range he => (hsame j).trans he⟩

theorem table_set (t' : Transfer) (fs : FileSystem) :
    ({ d with fs, runs := d.runs.set i t' } : Download).table =
      { d.table with lanes := d.table.lanes.set i ⟨d.task.id, t'⟩ } := by
  simp only [table, List.map_set]

theorem table_lane {i : Nat} (hi : d.runs[i]? = some t) :
    d.table.lanes[i]? = some ⟨d.task.id, t⟩ := by
  simp only [table, List.getElem?_map, hi, Option.map_some]

theorem Serves.run (h : d.Serves resource (.run i a)) (hi : d.runs[i]? = some t) :
    t.ServesRange resource a ∧ (a = .proceed → t.phase = .succeeding → ∀ call ∈ d.calls,
      call.lane = i → ∀ downloaded ∈ call.reading.counter, t.worker.rangeLength ≤ downloaded) := by
  cases a with
  | proceed => exact ⟨trivial, fun _ => h t hi⟩
  | _ => exact ⟨h t hi, fun he => by cases he⟩

theorem Genuine.run (h : d.Genuine env.store m resource) (hm : env.store.Flat)
    (hi : d.runs[i]? = some t) (hc : d.Serves resource (.run i a))
    (hstep : (t.on d.fs).step env a = some t') :
    ({ d with fs := t'.fs, runs := d.runs.set i t' } : Download).Genuine env.store m resource := by
  obtain ⟨hserves, hcomplete⟩ := hc.run hi
  have hmem := List.mem_of_getElem? hi
  obtain ⟨fs₀, hr⟩ := h.served t hmem
  refine ⟨h.manifest, h.layout, fun u hu => ?_, ?_, fun hd => ?_, fun stage hs => ?_⟩
  · rcases List.mem_or_eq_of_mem_set hu with hu | rfl
    · exact h.served u hu
    · exact hr.step_on hm hserves hstep
  · have hmove := Transfer.step_move hstep
    have hlane : t.Counted := h.table.lanes _ (List.mem_map_of_mem hmem)
    rw [table_set]
    apply h.table.setLane (table_lane hi)
    · apply Transfer.Counted.step (t := t.on d.fs) ⟨hlane.completed, hlane.counter, hlane.succeeding⟩
        hmove
      intro _ _ hno
      cases hr.holds.lane.known.symm.trans hno
    · intro call hcall hl downloaded hd hold hdone
      obtain ⟨hstart, hend, _⟩ := Transfer.step_lane hstep
      rw [Worker.rangeLength, hstart, hend]
      rcases hmove.completed hdone with hbefore | ⟨rfl, hp⟩
      · exact hold hbefore
      · exact hcomplete rfl hp call hcall hl downloaded hd
  · obtain ⟨live, hs⟩ := h.settled hd
    exact ⟨live, hs.run hm hi hr hserves hstep⟩
  · obtain ⟨h1, h2, h3, h4, h5, h6, h7, h8⟩ := h.stages stage hs
    exact ⟨h1, h2, h3, h4, h5, h6, h7, h8⟩

/-- A change of the block maps that adds no new one, and no counter to read. -/
theorem Genuine.shrink {task : Task} {syncs : List Sync} {saves : List (List BlockState)}
    {rows : List BlockState} {saved : Bool} (h : d.Genuine store m resource)
    (hm : task.manifest = d.task.manifest) (hid : task.id = d.task.id)
    (hmaps : ∀ states ∈ maps { d with task, syncs, saves, rows, saved }, states ∈ d.maps)
    (htodo : ∀ s ∈ syncs, ∀ i ∈ s.todo, i ∈ d.listed ∨ ∃ s ∈ d.syncs, i ∈ s.todo)
    (hstage : ∀ stage, d.discarding = some stage → (stage.listCleared = false → syncs = []) ∧
      (stage.mapReset = false → saves = [] ∧ saved = false)) :
    ({ d with task, syncs, saves, rows, saved } : Download).Genuine store m resource := by
  constructor
  case manifest => exact hm.trans h.manifest
  case layout => exact fun states hs => h.layout states (hmaps states hs)
  case served => exact h.served
  case table =>
    have htable : Download.table { d with task, syncs, saves, rows, saved } = d.table := by
      simp only [Download.table, hid]
    rw [htable]
    exact h.table
  case settled =>
    intro hd
    obtain ⟨live, hs⟩ := h.settled hd
    refine ⟨live, hs.allocated, fun states hst => hs.honest states (hmaps states hst), hs.bound,
      hs.runs, hs.listed, hs.made, fun s hm i hi => ?_, hs.calls, hs.workerRows, hs.checks⟩
    rcases htodo s hm i hi with hi | ⟨s', hm', hi⟩
    · exact hs.listed.1 i hi
    · exact hs.todo s' hm' i hi
  case stages =>
    intro stage hd
    have hs := h.stages stage hd
    obtain ⟨hsyncs, hsaves⟩ := hstage stage hd
    refine ⟨hs.made, hs.calls, hsyncs, hsaves, fun hr states hst => ?_, fun hc => ?_, hs.purged,
      hs.checks⟩
    · exact hs.reset hr states (hmaps states hst)
    · obtain ⟨hlisted, hempty⟩ := hs.cleared hc
      refine ⟨hlisted, fun s hm => List.eq_nil_iff_forall_not_mem.2 fun i hi => ?_⟩
      rcases htodo s hm i hi with hi | ⟨s', hm', hi⟩
      · rw [hlisted] at hi
        cases hi
      · rw [hempty s' hm'] at hi
        cases hi

theorem Genuine.syncStart (h : d.Genuine store m resource) (hc : d.Serves resource .syncStart)
    (hz : d.syncStart = some d') : d'.Genuine store m resource := by
  simp only [Download.syncStart, h.manifest, Option.map_some, Option.some.injEq] at hz
  subst d'
  refine h.shrink rfl rfl ?_ ?_ ?_
  · intro states hs
    rcases mem_maps.1 hs with rfl | ⟨s, hm, hp, he⟩ | hs | hs
    · exact mem_maps.2 (.inl rfl)
    · rcases List.mem_append.1 hm with hm | hm
      · exact mem_maps.2 (.inr (.inl ⟨s, hm, hp, he⟩))
      · obtain rfl := List.mem_singleton.1 hm
        exact absurd rfl hp
    · exact mem_maps.2 (.inr (.inr (.inl hs)))
    · exact mem_maps.2 (.inr (.inr (.inr hs)))
  · intro s hs i hi
    rcases List.mem_append.1 hs with hs | hs
    · exact .inr ⟨s, hs, hi⟩
    · obtain rfl := List.mem_singleton.1 hs
      exact .inl hi
  · intro stage hd
    refine ⟨fun hno => ?_, (h.stages stage hd).saves⟩
    cases hno.symm.trans (hc stage hd)

theorem Genuine.listCleared {i : Nat} (h : d.Genuine store m resource) (hi : d.syncs[i]? = some s)
    (hd : d.discarding = some stage) : stage.listCleared = true := by
  cases hstage : stage.listCleared with
  | true => rfl
  | false =>
    rw [(h.stages stage hd).syncs hstage] at hi
    cases hi

theorem Genuine.syncStore {i : Nat} {syncs : List Sync} {task : Task}
    (h : d.Genuine store m resource) (hi : d.syncs[i]? = some s)
    (hm : task.manifest = d.task.manifest) (hid : task.id = d.task.id)
    (hb : task.blockStates = d.task.blockStates ∨
      s.phase ≠ .copying ∧ task.blockStates = s.states)
    (hs : ∀ s' ∈ syncs, (s'.phase ≠ .copying → s'.states = d.task.blockStates ∨
      ∃ s ∈ d.syncs, s.phase ≠ .copying ∧ s.states = s'.states) ∧ ∃ s ∈ d.syncs, s'.todo = s.todo) :
    ({ d with task, syncs } : Download).Genuine store m resource := by
  refine h.shrink hm hid ?_ ?_ ?_
  · intro states hstates
    rcases mem_maps.1 hstates with rfl | ⟨s', hs', hp, rfl⟩ | hstates | hstates
    · rcases hb with hb | ⟨hp, hb⟩
      · exact mem_maps.2 (.inl hb)
      · exact mem_maps.2 (.inr (.inl ⟨s, List.mem_of_getElem? hi, hp, hb.symm⟩))
    · rcases (hs s' hs').1 hp with he | hold
      · exact mem_maps.2 (.inl he)
      · exact mem_maps.2 (.inr (.inl hold))
    · exact mem_maps.2 (.inr (.inr (.inl hstates)))
    · exact mem_maps.2 (.inr (.inr (.inr hstates)))
  · intro s' hs' j hj
    obtain ⟨u, hu, ht⟩ := (hs s' hs').2
    exact .inr ⟨u, hu, ht ▸ hj⟩
  · intro stage hd
    refine ⟨fun hno => ?_, (h.stages stage hd).saves⟩
    cases hno.symm.trans (h.listCleared hi hd)

theorem Genuine.syncCount {i : Nat} (h : d.Genuine store m resource) (hk : m.KnownSize)
    (hle : m.pieces.length ≤ 2 ^ 32) (ht : store.totalSize = m.totalSize)
    (hi : d.syncs[i]? = some s) (hp : s.phase ≠ .copying) (htodo : s.todo = j :: rest)
    (hj : d.runs[j]? = some t) (downloaded : Nat) :
    ({ d with syncs := d.syncs.set i { s with
        states := markWorkerBlocks m.blocks s.states t.worker, downloaded, todo := rest } } :
      Download).Genuine store m resource := by
  have hmem := List.mem_of_getElem? hi
  cases hd : d.discarding with
  | some stage =>
    have hempty := ((h.stages stage hd).cleared (h.listCleared hi hd)).2 s hmem
    cases htodo.symm.trans hempty
  | none =>
    obtain ⟨live, hs⟩ := h.settled hd
    have hr := hs.runs j t (hs.todo s hmem j (htodo ▸ List.mem_cons_self)) hj
    have hlane := hr.holds.lane
    have hinside : t.worker.Inside m.totalSize := ⟨hlane.order, ht ▸ hlane.last⟩
    have hold : s.states ∈ d.maps := mem_maps.2 (.inr (.inl ⟨s, hmem, hp, rfl⟩))
    obtain ⟨hlayout, hmark⟩ := markWorkerBlocks_honest hk hle (h.layout _ hold) hinside
    have hmaps : ∀ states ∈ Download.maps { d with syncs := d.syncs.set i { s with
        states := markWorkerBlocks m.blocks s.states t.worker, downloaded, todo := rest } },
        states = markWorkerBlocks m.blocks s.states t.worker ∨ states ∈ d.maps := by
      intro states hst
      rcases mem_maps.1 hst with rfl | ⟨s', hs', hp', rfl⟩ | hst | hst
      · exact .inr (mem_maps.2 (.inl rfl))
      · rcases List.mem_or_eq_of_mem_set hs' with hs' | rfl
        · exact .inr (mem_maps.2 (.inr (.inl ⟨s', hs', hp', rfl⟩)))
        · exact .inl rfl
      · exact .inr (mem_maps.2 (.inr (.inr (.inl hst))))
      · exact .inr (mem_maps.2 (.inr (.inr (.inr hst))))
    refine ⟨h.manifest, fun states hst => ?_, h.served, h.table, fun _ => ⟨live, ?_⟩,
      fun stage hstage => ?_⟩
    · rcases hmaps states hst with rfl | hst
      · exact hlayout
      · exact h.layout states hst
    · refine ⟨hs.allocated, fun states hst byte hb => ?_, hs.bound, hs.runs, hs.listed, hs.made, ?_,
        hs.calls, hs.workerRows, hs.checks⟩
      · rcases hmaps states hst with rfl | hst
        · rcases hmark byte hb with hb | ⟨hlow, hhigh⟩
          · exact hs.honest _ hold byte hb
          · have hcounted : t.worker.counted ≤ t.worker.downloadedSize := Nat.min_le_left _ _
            exact hr.holds.agrees hlow (by omega)
        · exact hs.honest states hst byte hb
      · intro s' hs' k hk'
        rcases List.mem_or_eq_of_mem_set hs' with hs' | rfl
        · exact hs.todo s' hs' k hk'
        · exact hs.todo s hmem k (htodo ▸ List.mem_cons_of_mem j hk')
    · cases hstage

theorem Genuine.syncStep (h : d.Genuine store m resource) (hk : m.KnownSize)
    (hle : m.pieces.length ≤ 2 ^ 32) (ht : store.totalSize = m.totalSize)
    (hz : d.syncStep i = some d') : d'.Genuine store m resource := by
  simp only [Download.syncStep, h.manifest, Option.bind_eq_bind, Option.bind_some,
    Option.bind_eq_some_iff] at hz
  obtain ⟨s, hi, hz⟩ := hz
  have hmem := List.mem_of_getElem? hi
  have hold : ∀ s' ∈ d.syncs, (s'.phase ≠ .copying → s'.states = d.task.blockStates ∨
      ∃ s ∈ d.syncs, s.phase ≠ .copying ∧ s.states = s'.states) ∧ ∃ s ∈ d.syncs, s'.todo = s.todo :=
    fun s' hs' => ⟨fun hp => .inr ⟨s', hs', hp, rfl⟩, s', hs', rfl⟩
  have herase : ∀ s' ∈ d.syncs.eraseIdx i, _ := fun s' hs' =>
    hold s' (List.mem_of_mem_eraseIdx hs')
  have hset (hp : s.phase ≠ .copying) (phase : SyncPhase) :
      ∀ s' ∈ d.syncs.set i { s with phase }, (s'.phase ≠ .copying → s'.states = d.task.blockStates ∨
        ∃ s ∈ d.syncs, s.phase ≠ .copying ∧ s.states = s'.states) ∧
          ∃ s ∈ d.syncs, s'.todo = s.todo := by
    intro s' hs'
    rcases List.mem_or_eq_of_mem_set hs' with hs' | rfl
    · exact hold s' hs'
    · exact ⟨fun _ => .inr ⟨s, hmem, hp, rfl⟩, s, hmem, rfl⟩
  split at hz
  · have hlayout := h.layout _ (mem_maps.2 (.inl rfl))
    rw [if_pos ((layoutMatches_iff _ _).2 hlayout)] at hz
    cases hz
    refine h.syncStore hi rfl rfl (.inl rfl) fun s' hs' => ?_
    rcases List.mem_or_eq_of_mem_set hs' with hs' | rfl
    · exact hold s' hs'
    · exact ⟨fun _ => .inl rfl, s, hmem, rfl⟩
  · rename_i hp
    have hp' : s.phase ≠ .copying := hp ▸ SyncPhase.noConfusion
    split at hz
    · rename_i j rest htodo
      obtain ⟨t, hj, hz⟩ := Option.bind_eq_some_iff.1 hz
      cases hz
      exact h.syncCount hk hle ht hi hp' htodo hj _
    · split at hz
      · cases hz
        exact h.syncStore hi h.manifest.symm rfl (.inr ⟨hp', rfl⟩) (hset hp' _)
      · cases hz
        exact h.syncStore hi h.manifest.symm rfl (.inl rfl) herase
  · rename_i hp
    cases hz
    exact h.syncStore hi h.manifest.symm rfl (.inl rfl) (hset (hp ▸ SyncPhase.noConfusion) _)
  · cases hz
    exact h.syncStore hi h.manifest.symm rfl (.inl rfl) herase

theorem Genuine.saveStart (h : d.Genuine store m resource) (hc : d.Serves resource .saveStart) :
    ({ d with saves := d.saves ++ [d.task.blockStates] } : Download).Genuine store m resource := by
  refine h.shrink rfl rfl ?_ (fun s hs i hi => .inr ⟨s, hs, hi⟩) ?_
  · intro states hst
    rcases mem_maps.1 hst with rfl | hst | hst | hst
    · exact mem_maps.2 (.inl rfl)
    · exact mem_maps.2 (.inr (.inl hst))
    · rcases List.mem_append.1 hst with hst | hst
      · exact mem_maps.2 (.inr (.inr (.inl hst)))
      · exact mem_maps.2 (.inl (List.mem_singleton.1 hst))
    · exact mem_maps.2 (.inr (.inr (.inr hst)))
  · intro stage hd
    refine ⟨(h.stages stage hd).syncs, fun hno => ?_⟩
    cases hno.symm.trans (hc stage hd)

theorem Genuine.saveEnd {i : Nat} {rows : List BlockState} (h : d.Genuine store m resource)
    (hi : d.saves[i]? = some rows) :
    ({ d with rows, saved := true, saves := d.saves.eraseIdx i } : Download).Genuine store m
      resource := by
  refine h.shrink rfl rfl ?_ (fun s hs i hi => .inr ⟨s, hs, hi⟩) ?_
  · intro states hst
    rcases mem_maps.1 hst with rfl | hst | hst | ⟨_, rfl⟩
    · exact mem_maps.2 (.inl rfl)
    · exact mem_maps.2 (.inr (.inl hst))
    · exact mem_maps.2 (.inr (.inr (.inl (List.mem_of_mem_eraseIdx hst))))
    · exact mem_maps.2 (.inr (.inr (.inl (List.mem_of_getElem? hi))))
  · intro stage hd
    refine ⟨(h.stages stage hd).syncs, fun hno => ?_⟩
    rw [((h.stages stage hd).saves hno).1] at hi
    cases hi

/-- A change of the rows of workers, or of what is being read for them. -/
theorem Genuine.recall (calls : List RowCall) {workerRows : List DBDownloadWorker}
    (h : d.Genuine store m resource)
    (ht : LaneTable.Counted { d.table with calls, rows := workerRows })
    (hs : ∀ live, d.Settled store m resource live →
      (∀ call ∈ calls, live ≤ call.lane ∧ ∃ range,
        (d.runs[call.lane]?).map Transfer.range = some range ∧
          call.reading.Genuine store resource d.fs range.1) ∧
      ∀ row ∈ workerRows, row.Genuine store resource d.fs)
    (hstage : ∀ stage, d.discarding = some stage →
      calls = [] ∧ (d.workerRows = [] → workerRows = [])) :
    ({ d with calls, workerRows } : Download).Genuine store m resource := by
  refine ⟨h.manifest, h.layout, h.served, ht, fun hd => ?_, fun stage hd => ?_⟩
  · obtain ⟨live, hsettled⟩ := h.settled hd
    obtain ⟨hcalls, hrows⟩ := hs live hsettled
    exact ⟨live, hsettled.allocated, hsettled.honest, hsettled.bound, hsettled.runs,
      hsettled.listed, hsettled.made, hsettled.todo, hcalls, hrows, hsettled.checks⟩
  · have hd' := h.stages stage hd
    obtain ⟨hcalls, hrows⟩ := hstage stage hd
    exact ⟨hd'.made, hcalls, hd'.syncs, hd'.saves, hd'.reset, hd'.cleared,
      fun hp => hrows (hd'.purged hp), hd'.checks⟩

theorem Genuine.workersToDb (h : d.Genuine store m resource) (workers : List Nat)
    (hc : d.Serves resource (.workersToDb workers)) :
    ({ d with calls := d.calls ++ (workers.filter fun i =>
        d.listed.contains i || d.made.contains i).map (⟨·, .called⟩) } : Download).Genuine store m
      resource := by
  have hfound : ∀ i, i ∈ workers.filter (fun i => d.listed.contains i || d.made.contains i) →
      i ∈ d.listed ∨ i ∈ d.made := by
    intro i hi
    simpa using (List.mem_filter.1 hi).2
  refine h.recall _ (h.table.workersToDb _) (fun live hs => ⟨fun call hcall => ?_, hs.workerRows⟩)
    fun stage hd => ⟨?_, fun he => he⟩
  · rcases List.mem_append.1 hcall with hcall | hcall
    · exact hs.calls call hcall
    · obtain ⟨i, hi, rfl⟩ := List.mem_map.1 hcall
      have hlive : live ≤ i ∧ ∃ range, (d.runs[i]?).map Transfer.range = some range := by
        rcases hfound i hi with hi | hi
        · exact ⟨hs.listed.1 i hi, hs.listed.2.range hi⟩
        · exact ⟨hs.made.1 i hi, hs.made.2.range hi⟩
      obtain ⟨hle, range, he⟩ := hlive
      exact ⟨hle, range, he, RowReading.called_genuine store resource d.fs range.1⟩
  · have hs := h.stages stage hd
    have hnone : workers.filter (fun i => d.listed.contains i || d.made.contains i) = [] := by
      apply List.eq_nil_iff_forall_not_mem.2
      intro i hi
      have hin := hfound i hi
      rw [(hs.cleared (hc stage hd)).1, hs.made] at hin
      rcases hin with hin | hin <;> cases hin
    rw [hs.calls, hnone]
    rfl

theorem Genuine.readWorker {s : LaneTable} (h : d.Genuine store m resource)
    (hz : d.table.step (.read k) = some s) :
    ({ d with calls := s.calls, workerRows := s.rows } : Download).Genuine store m resource := by
  have ht := h.table.step (a := .read k) trivial hz
  rcases LaneTable.read_cases hz with ⟨i, row, hk, rfl⟩ | ⟨i, reading, lane, hk, hi, rfl⟩
  · have hcall := List.mem_of_getElem? hk
    refine h.recall _ ht (fun live hs => ⟨fun call hc => ?_, fun other ho => ?_⟩) fun stage hd => ?_
    · exact hs.calls call (List.mem_of_mem_eraseIdx hc)
    · rcases List.mem_append.1 ho with ho | ho
      · exact hs.workerRows other (List.mem_of_mem_filter ho)
      · obtain rfl := List.mem_singleton.1 ho
        obtain ⟨_, range, _, hread⟩ := hs.calls _ hcall
        exact hread.row _ rfl
    · rw [show d.table.calls = d.calls from rfl, (h.stages stage hd).calls] at hk
      cases hk
  · have hcall := List.mem_of_getElem? hk
    refine h.recall _ ht (fun live hs => ⟨fun call hc => ?_, hs.workerRows⟩) fun stage hd => ?_
    · rcases List.mem_or_eq_of_mem_set hc with hc | rfl
      · exact hs.calls call hc
      · obtain ⟨hlive, range, he, hread⟩ := hs.calls _ hcall
        obtain ⟨t, hrun, hrange⟩ := Option.map_eq_some_iff.1 he
        subst hrange
        cases (table_lane hrun).symm.trans hi
        exact ⟨hlive, t.range, he, hread.next (hs.runs i t hlive hrun) d.task.id⟩
    · rw [show d.table.calls = d.calls from rfl, (h.stages stage hd).calls] at hk
      cases hk

theorem Genuine.dropRows (h : d.Genuine store m resource) (keep : DBDownloadWorker → Bool) :
    ({ d with workerRows := d.workerRows.filter keep } : Download).Genuine store m resource := by
  refine h.recall d.calls ⟨h.table.lanes, h.table.calls, fun row hrow => ?_⟩
    (fun live hs => ⟨hs.calls, fun row hrow => ?_⟩) fun stage hd => ⟨(h.stages stage hd).calls, ?_⟩
  · exact h.table.rows row (List.mem_of_mem_filter hrow)
  · exact hs.workerRows row (List.mem_of_mem_filter hrow)
  · intro he
    rw [he, List.filter_nil]


end Download

end Paradown
