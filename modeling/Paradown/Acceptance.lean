import Paradown.Recovery
import Paradown.Layout
import Mathlib.Data.List.Forall2
import Mathlib.Data.List.Pairwise

namespace Paradown
set_option autoImplicit true

/-- What `db_workers_to_requests` makes of the row of a worker. -/
def workerRequest (taskId : Nat) (w : Worker) : SegmentRequest where
  id := some w.id
  taskId := taskId
  index := w.id
  sourceId := some w.source.id
  pieceStart := some w.lane.pieceStart
  pieceEnd := some w.lane.pieceEnd
  blockStart := some w.lane.blockStart
  blockEnd := some w.lane.blockEnd
  start := w.start
  endByte := w.endByte
  downloaded := some w.downloadedSize
  status := some w.status.toText
  updatedAt := w.updatedAt

/-- The worker as it should come back: only its status is normalised. -/
def restoredRequest (taskId : Nat) (w : Worker) : SegmentRequest :=
  { workerRequest taskId w with status := normalizeWorkerStatus (some w.status.toText) }

theorem dbWorkersToRequests_map (taskId : Nat) (workers : List Worker) :
    dbWorkersToRequests (workers.map (workerToDb taskId)) = workers.map (workerRequest taskId) := by
  simp only [dbWorkersToRequests, List.map_map]
  rfl

/-- A worker of a planned lane: any counter within the lane, any source of the set, any status. -/
structure Worker.OfLane (w : Worker) (lane : ExecutionLaneAssignment) (sources : SourceSet) :
    Prop where
  id : w.id = lane.laneId
  start : w.start = lane.start
  endByte : w.endByte = lane.endByte
  pieceStart : w.lane.pieceStart = lane.pieceStart
  pieceEnd : w.lane.pieceEnd = lane.pieceEnd
  blockStart : w.lane.blockStart = lane.blockStart
  blockEnd : w.lane.blockEnd = lane.blockEnd
  count : w.downloadedSize ≤ lane.endByte - lane.start + 1
  source : w.source.id ∈ sources.sources.map (·.id)

/-- The lane numbers and the piece numbers that bound a lane have not wrapped around at 32 bits. -/
def NoWrap (n count : Nat) : Prop :=
  count ≤ 2 ^ 32 ∧
    ∀ k < count, k * n / count % 2 ^ 32 ≤ ((k + 1) * n / count - 1) % 2 ^ 32

/-- A row that passes every test of the loop, and what the restore keeps of it. -/
structure RowAccepted (taskId : Nat) (total : Option Nat) (known : List String)
    (single : Option String) (seen : List Nat) (expectedStart : Nat) (w w' : SegmentRequest) :
    Prop where
  taskId : w.taskId = taskId
  fresh : w.index ∉ seen
  order : w.start ≤ w.endByte
  count : w.downloaded.getD 0 ≤ satAdd (w.endByte - w.start) 1
  total : ∀ t ∈ total, 0 < t → w.endByte < t
  start : w.start = expectedStart
  lane : laneMetadataOk w = true
  source : ∃ id, (w.sourceId <|> single) = some id ∧ (known = [] ∨ id ∈ known) ∧
    w' = { w with sourceId := some id, status := normalizeWorkerStatus w.status }

theorem sanitizeWorker_eq_some :
    sanitizeWorker taskId total known single seen start w = some w' ↔
      RowAccepted taskId total known single seen start w w' := by
  unfold sanitizeWorker
  dsimp only
  constructor
  · intro h
    split at h
    · cases h
    · rename_i hchecks
      simp only [not_or, not_lt, not_exists, not_and, not_le, not_not] at hchecks
      obtain ⟨htask, hfresh, horder, hcount, htotal, hstart⟩ := hchecks
      split at h
      · cases h
      · rename_i id hid
        split at h
        · cases h
        · rename_i hknown
          split at h
          · rename_i hlane
            refine ⟨htask, hfresh, horder, hcount, htotal, hstart, hlane, id, hid, ?_, ?_⟩
            · rw [not_and_or, not_not, not_not] at hknown
              exact hknown
            · exact (Option.some.inj h).symm
          · cases h
  · rintro ⟨htask, hfresh, horder, hcount, htotal, hstart, hlane, id, hid, hknown, rfl⟩
    rw [if_neg]
    · simp only [hid]
      rw [if_neg, if_pos hlane]
      rintro ⟨hne, hout⟩
      exact hknown.elim hne hout
    · rintro (h | h | h | h | ⟨t, he, hpos, h⟩ | h)
      · exact h htask
      · exact hfresh h
      · exact absurd horder (Nat.not_le.2 h)
      · exact absurd hcount (Nat.not_le.2 h)
      · exact absurd (htotal t he hpos) (Nat.not_lt.2 h)
      · exact h hstart

theorem mem_sanitizeLoop (h : sanitizeLoop taskId total known single seen next ws = some (ws', last))
    (hw : w' ∈ ws') : ∃ w ∈ ws, ∃ seen next,
      RowAccepted taskId total known single seen next w w' := by
  induction ws generalizing seen next ws' with
  | nil =>
    obtain ⟨rfl, rfl⟩ := Prod.mk.inj (Option.some.inj h)
    cases hw
  | cons w ws ih =>
    simp only [sanitizeLoop] at h
    split at h
    · cases h
    · rename_i first hfirst
      split at h
      · cases h
      · rename_i rest last' hrest
        obtain ⟨rfl, rfl⟩ := Prod.mk.inj (Option.some.inj h)
        rcases List.mem_cons.1 hw with rfl | hw
        · exact ⟨w, List.mem_cons_self, seen, next, sanitizeWorker_eq_some.1 hfirst⟩
        · obtain ⟨v, hv, haccepted⟩ := ih hrest hw
          exact ⟨v, List.mem_cons_of_mem w hv, haccepted⟩

theorem mem_sanitizeWorkerRequests (h : w' ∈ sanitizeWorkerRequests taskId total sources ws) :
    ∃ w ∈ ws, ∃ known single seen next,
      RowAccepted taskId total known single seen next w w' := by
  simp only [sanitizeWorkerRequests] at h
  split at h
  · cases h
  · rename_i rows last hloop
    split at h
    · cases h
    · obtain ⟨w, hw, seen, next, haccepted⟩ := mem_sanitizeLoop hloop h
      exact ⟨w, (List.mem_insertionSort _).1 hw, _, _, seen, next, haccepted⟩

theorem getD_of_nonempty (xs : List α) : (if xs = [] then none else some xs).getD [] = xs := by
  split
  · exact Eq.symm ‹_›
  · rfl

/-- The workers of a plan are rows of the bundle that have been accepted. -/
theorem mem_buildRestorePlan {bundle : StoredBundle}
    (h : w' ∈ (buildRestorePlan codec view bundle).workers.getD []) :
    ∃ w ∈ dbWorkersToRequests bundle.workers, ∃ total known single seen next,
      RowAccepted bundle.task.id total known single seen next w w' := by
  simp only [buildRestorePlan, getD_of_nonempty, List.mem_ite_nil_right] at h
  obtain ⟨w, hw, known, single, seen, next, haccepted⟩ := mem_sanitizeWorkerRequests h.2
  exact ⟨w, hw, _, known, single, seen, next, haccepted⟩

theorem sanitizeWorker_planned (taskId : Nat) {w : Worker} (hw : w.OfLane lane sourceSet)
    (hl : LaneOf n count k base sources lane) (hwrap : NoWrap n count) (hk : k < count)
    (hseen : ∀ i ∈ seen, i < k) (htotal : lane.endByte < total) (ht : total < 2 ^ 64)
    (single : Option String) :
    sanitizeWorker taskId (some total) (sourceSet.sources.map (·.id)) single seen base
      (workerRequest taskId w) = some (restoredRequest taskId w) := by
  have hid : w.id = k := by
    rw [hw.id, hl.laneId]
    exact Nat.mod_eq_of_lt (Nat.lt_of_lt_of_le hk hwrap.1)
  have hstart : w.start = base := hw.start.trans hl.start
  have hcount := hw.count
  have horder := hl.order
  rw [hl.start, ← hw.endByte] at hcount
  rw [← hw.endByte] at horder htotal
  have hlen : satAdd (w.endByte - w.start) 1 = w.endByte - base + 1 := by
    rw [hstart]
    exact satAdd_of_lt (by omega)
  rw [sanitizeWorker_eq_some]
  refine
    { taskId := rfl
      fresh := fun hm => absurd (hseen w.id hm) (by omega)
      order := ?_
      count := ?_
      total := ?_
      start := hstart
      lane := ?_
      source := ⟨w.source.id, rfl, .inr hw.source, rfl⟩ }
  · show w.start ≤ w.endByte
    omega
  · show w.downloadedSize ≤ satAdd (w.endByte - w.start) 1
    omega
  · intro t he _
    cases he
    exact htotal
  · have hp := hwrap.2 k hk
    rw [← hl.pieceStart, ← hl.pieceEnd] at hp
    simp only [laneMetadataOk, workerRequest, hw.pieceStart, hw.pieceEnd, hw.blockStart,
      hw.blockEnd, Bool.and_eq_true, decide_eq_true_eq]
    exact ⟨hp, hl.blocks⟩

theorem sanitizeLoop_planned {workers : List Worker}
    (hw : List.Forall₂ (fun w lane => Worker.OfLane w lane sourceSet) workers lanes)
    (hl : LaneChain n count sources k base lanes total) (hwrap : NoWrap n count)
    (ht : total < 2 ^ 64) (hseen : ∀ i ∈ seen, i < k) (single : Option String) :
    sanitizeLoop taskId (some total) (sourceSet.sources.map (·.id)) single seen base
      (workers.map (workerRequest taskId)) =
        some (workers.map (restoredRequest taskId), total) := by
  induction hw generalizing k base seen with
  | nil =>
    have hb : base = total := hl.2
    simp only [List.map_nil, sanitizeLoop, hb]
  | @cons w lane ws ls hw hrest ih =>
    have hlen := hl.length
    have hend := hl.2.tiles.le
    rw [List.length_cons] at hlen
    have hone := sanitizeWorker_planned taskId hw hl.1 hwrap (by omega) hseen
      (Nat.lt_of_succ_le hend) ht single
    have hid : w.id = k := by
      rw [hw.id, hl.1.laneId]
      exact Nat.mod_eq_of_lt (Nat.lt_of_lt_of_le (by omega) hwrap.1)
    have hnext : satAdd w.endByte 1 = lane.endByte + 1 := by
      rw [hw.endByte]
      exact satAdd_of_lt (by omega)
    have htail := @ih (k + 1) (lane.endByte + 1) (w.id :: seen) hl.2 (by
      intro i hi
      rcases List.mem_cons.1 hi with rfl | hi
      · omega
      · exact Nat.lt_succ_of_lt (hseen i hi))
    simp only [List.map_cons, sanitizeLoop, hone]
    rw [show satAdd (workerRequest taskId w).endByte 1 = lane.endByte + 1 from hnext,
      show (workerRequest taskId w).index = w.id from rfl, htail]

theorem planned_ids {workers : List Worker}
    (hw : List.Forall₂ (fun w lane => Worker.OfLane w lane sourceSet) workers lanes)
    (hl : LaneChain n count sources k base lanes total) (hc : count ≤ 2 ^ 32) :
    workers.map (·.id) = List.range' k workers.length := by
  induction hw generalizing k base with
  | nil => rfl
  | @cons w lane ws ls hw hrest ih =>
    have hlen := hl.length
    rw [List.length_cons] at hlen
    have hid : w.id = k := by
      rw [hw.id, hl.1.laneId]
      exact Nat.mod_eq_of_lt (by omega)
    rw [List.map_cons, List.length_cons, List.range'_succ, ih hl.2, hid]

theorem sort_planned {workers : List Worker} {requests : List SegmentRequest}
    (hw : List.Forall₂ (fun w lane => Worker.OfLane w lane sourceSet) workers lanes)
    (hl : LaneChain n count sources k base lanes total) (hc : count ≤ 2 ^ 32)
    (hp : requests.Perm (workers.map (workerRequest taskId))) :
    requests.insertionSort (fun a b => a.index ≤ b.index) = workers.map (workerRequest taskId) := by
  have hlt : (workers.map (workerRequest taskId)).Pairwise (fun a b => a.index < b.index) := by
    have hr := List.pairwise_lt_range' (s := k) (n := workers.length)
    rw [← planned_ids hw hl hc, List.pairwise_map] at hr
    rw [List.pairwise_map]
    exact hr
  have hsorted := List.pairwise_insertionSort (fun a b : SegmentRequest => a.index ≤ b.index) requests
  have hperm := (List.perm_insertionSort (fun a b : SegmentRequest => a.index ≤ b.index)
    requests).trans hp
  refine List.Perm.eq_of_pairwise ?_ hsorted (hlt.imp fun h => Nat.le_of_lt h) hperm
  intro a b ha hb hab hba
  have : Std.Symm (fun a b : SegmentRequest => a.index ≠ b.index) := ⟨fun _ _ h => h.symm⟩
  have hne : (workers.map (workerRequest taskId)).Pairwise (fun a b => a.index ≠ b.index) :=
    hlt.imp fun h => Nat.ne_of_lt h
  by_contra h
  exact hne.forall (hperm.mem_iff.1 ha) hb h (Nat.le_antisymm hab hba)

/-- The row of a task that was running or paused, with its size, its sources and a local file. -/
structure StoredRunning (codec : Codec) (view : FileView) (manifest : SessionManifest)
    (row : DBDownloadTask) : Prop where
  status : row.status ∈ ["Running", "Preparing", "Paused"]
  total : row.totalSize = some manifest.totalSize
  sources : row.sourceSetJson = codec.sourcesToJson manifest.sources
  path : trim row.filePath ≠ ""
  file : (view (trim row.filePath)).isSome = true

/-- The task comes back paused with exactly these workers, in this order, and with what they have
downloaded. -/
structure RestoresWorkers (plan : RestorePlan) (taskId : Nat) (workers : List Worker) : Prop where
  status : plan.taskRequest.status = some .paused
  kept : plan.workers = some (workers.map (restoredRequest taskId))
  downloaded : plan.taskRequest.downloadedSize = some (workers.map (·.downloadedSize)).sum

/-- Whatever the lanes have downloaded, whichever sources they switched to and in whatever order
their rows are stored, a running task of these lanes is restored with its workers. -/
def AcceptsPlan (codec : Codec) (manifest : SessionManifest)
    (lanes : List ExecutionLaneAssignment) : Prop :=
  ∀ (view : FileView) (bundle : StoredBundle) (workers : List Worker),
    List.Forall₂ (fun w lane => Worker.OfLane w lane manifest.sources) workers lanes →
    bundle.workers.Perm (workers.map (workerToDb bundle.task.id)) →
    StoredRunning codec view manifest bundle.task →
    RestoresWorkers (buildRestorePlan codec view bundle) bundle.task.id workers

theorem inspect_of_path (h : trim path ≠ "") (hv : view (trim path) = some size) :
    inspectRestoreFileState view (normalizedTextField path) = ⟨true, size⟩ := by
  have hpath : (normalizedTextField path).filter (fun path => trim path != "") =
      some (trim path) := by
    have hne : (trim (trim path) != "") = true := by
      rw [trim_trim]
      exact bne_iff_ne.2 h
    simp only [normalizedTextField, h, if_false, Option.filter_some, hne, if_true]
  simp only [inspectRestoreFileState, hpath, hv]

theorem StoredRunning.present (h : StoredRunning codec view manifest row) :
    (inspectRestoreFileState view (normalizedTextField row.filePath)).present = true := by
  obtain ⟨size, hs⟩ := Option.isSome_iff_exists.1 h.file
  rw [inspect_of_path h.path hs]

theorem buildRestorePlan_accepted (codec : Codec) (view : FileView) (bundle : StoredBundle)
    (hstatus : bundle.task.status ∈ ["Running", "Preparing", "Paused"])
    (hpresent : (inspectRestoreFileState view (normalizedTextField bundle.task.filePath)).present =
      true)
    (hs : sanitizeWorkerRequests bundle.task.id bundle.task.totalSize
      (codec.sourcesFromJson bundle.task.sourceSetJson) (dbWorkersToRequests bundle.workers) = ws)
    (hne : ws ≠ []) :
    let request := dbTaskToRequest codec bundle.task bundle.pieces bundle.blocks bundle.checksums
    buildRestorePlan codec view bundle =
      ⟨{ request with
          status := some .paused
          downloadedSize := some ((ws.map fun w => w.downloaded.getD 0).sum % 2 ^ 64)
          totalSize :=
            if request.totalSize = none ∨ request.totalSize = some 0 then
              (ws.map fun w => satAdd w.endByte 1).max?
            else request.totalSize }, some ws⟩ := by
  intro request
  have hpaused : normalizeRestoredStatus (request.status.getD .pending) = .paused :=
    (normalizeRestoredStatus_eq_paused bundle.task.status).2 hstatus
  have hfile : (inspectRestoreFileState view request.filePath).present = true := by
    rw [dbTaskToRequest_filePath]
    exact hpresent
  have hsan : sanitizeWorkerRequests bundle.task.id request.totalSize request.sources
      (dbWorkersToRequests bundle.workers) = ws := hs
  simp only [buildRestorePlan, show dbTaskToRequest codec bundle.task bundle.pieces bundle.blocks
    bundle.checksums = request from rfl, hpaused, hfile, reduceCtorEq, decide_false,
    Bool.false_and, Bool.false_eq_true, if_false, and_self, if_true, hsan, hne, ne_eq,
    not_false_eq_true, false_and, and_false, Bool.not_true]

theorem buildRestorePlan_rejected (codec : Codec) (view : FileView) (bundle : StoredBundle)
    (hs : sanitizeWorkerRequests bundle.task.id bundle.task.totalSize
      (codec.sourcesFromJson bundle.task.sourceSetJson) (dbWorkersToRequests bundle.workers) = []) :
    (buildRestorePlan codec view bundle).workers = none := by
  have hsan (b : Bool) : (if b = true then { dbTaskToRequest codec bundle.task bundle.pieces
      bundle.blocks bundle.checksums with pieceStates := some [] } else dbTaskToRequest codec
      bundle.task bundle.pieces bundle.blocks bundle.checksums).totalSize =
        bundle.task.totalSize := by
    cases b <;> rfl
  have hsrc (b : Bool) : (if b = true then { dbTaskToRequest codec bundle.task bundle.pieces
      bundle.blocks bundle.checksums with pieceStates := some [] } else dbTaskToRequest codec
      bundle.task bundle.pieces bundle.blocks bundle.checksums).sources =
        codec.sourcesFromJson bundle.task.sourceSetJson := by
    cases b <;> rfl
  simp only [buildRestorePlan, hsan, hsrc, hs, ite_self, if_true]

theorem sanitizeWorkerRequests_planned {workers : List Worker} {requests : List SegmentRequest}
    (hw : List.Forall₂ (fun w lane => Worker.OfLane w lane sourceSet) workers lanes)
    (hl : LaneChain n count sources 0 0 lanes total) (hwrap : NoWrap n count)
    (ht : total < 2 ^ 64) (hp : requests.Perm (workers.map (workerRequest taskId))) :
    sanitizeWorkerRequests taskId (some total) (some sourceSet) requests =
      workers.map (restoredRequest taskId) := by
  simp only [sanitizeWorkerRequests, sort_planned hw hl hwrap.1 hp, Option.map_some,
    Option.getD_some]
  rw [sanitizeLoop_planned hw hl hwrap ht (fun i hi => absurd hi List.not_mem_nil)]
  simp only [Option.mem_def, Option.some.injEq, exists_eq_left', ne_eq, not_true_eq_false,
    and_false, if_false]

theorem acceptsPlan_of_noWrap (hl : LaneChain n count sources 0 0 lanes manifest.totalSize)
    (ht : manifest.totalSize < 2 ^ 64) (hpos : 0 < manifest.totalSize)
    (hj : codec.sourcesFromJson (codec.sourcesToJson manifest.sources) = some manifest.sources)
    (hwrap : NoWrap n count) : AcceptsPlan codec manifest lanes := by
  intro view bundle workers hw hperm hstored
  have hrows : (dbWorkersToRequests bundle.workers).Perm
      (workers.map (workerRequest bundle.task.id)) := by
    rw [← dbWorkersToRequests_map]
    exact hperm.map _
  have hsan : sanitizeWorkerRequests bundle.task.id bundle.task.totalSize
      (codec.sourcesFromJson bundle.task.sourceSetJson) (dbWorkersToRequests bundle.workers) =
        workers.map (restoredRequest bundle.task.id) := by
    rw [hstored.total, hstored.sources, hj]
    exact sanitizeWorkerRequests_planned hw hl hwrap ht hrows
  have hne : workers.map (restoredRequest bundle.task.id) ≠ [] := by
    intro he
    rw [List.map_eq_nil_iff] at he
    subst he
    cases hw
    exact absurd hl.2 (Nat.ne_of_lt hpos)
  have hsum : 0 + (workers.map (·.downloadedSize)).sum ≤ manifest.totalSize :=
    hl.sum_le (hw.imp fun _ _ hlane => hlane.count)
  have hplan := buildRestorePlan_accepted codec view bundle hstored.status hstored.present hsan hne
  refine ⟨by rw [hplan], by rw [hplan], ?_⟩
  rw [hplan]
  have hmap : (workers.map (restoredRequest bundle.task.id)).map (fun w => w.downloaded.getD 0) =
      workers.map (·.downloadedSize) := by
    rw [List.map_map]
    rfl
  simp only [hmap]
  rw [Nat.mod_eq_of_lt (by omega)]

theorem sanitizeLoop_some (h : sanitizeLoop taskId total known single seen start ws = some r) :
    (∀ w ∈ ws, laneMetadataOk w = true ∧ w.index ∉ seen) ∧ (ws.map (·.index)).Nodup := by
  induction ws generalizing seen start r with
  | nil => exact ⟨fun w hw => absurd hw List.not_mem_nil, List.nodup_nil⟩
  | cons w ws ih =>
    simp only [sanitizeLoop] at h
    split at h
    · cases h
    · rename_i w' hw'
      split at h
      · cases h
      · rename_i ws' last hrest
        obtain ⟨hall, hnodup⟩ := ih hrest
        have hone := sanitizeWorker_eq_some.1 hw'
        refine ⟨fun v hv => ?_, ?_⟩
        · rcases List.mem_cons.1 hv with rfl | hv
          · exact ⟨hone.lane, hone.fresh⟩
          · obtain ⟨hm, hs⟩ := hall v hv
            exact ⟨hm, fun hin => hs (List.mem_cons_of_mem _ hin)⟩
        · rw [List.map_cons, List.nodup_cons]
          refine ⟨fun hm => ?_, hnodup⟩
          obtain ⟨v, hv, he⟩ := List.mem_map.1 hm
          exact (hall v hv).2 (he ▸ List.mem_cons_self)

/-- The workers of the lanes before any of them has run. -/
def freshWorkers (source : SourceDescriptor) (lanes : List ExecutionLaneAssignment) : List Worker :=
  lanes.map fun lane => .new lane.laneId source lane none none none

theorem freshWorkers_ofLane {sourceSet : SourceSet} (hs : source ∈ sourceSet.sources)
    (lanes : List ExecutionLaneAssignment) :
    List.Forall₂ (fun w lane => Worker.OfLane w lane sourceSet) (freshWorkers source lanes) lanes := by
  induction lanes with
  | nil => exact .nil
  | cons lane ls ih =>
    refine .cons ?_ ih
    exact ⟨rfl, rfl, rfl, rfl, rfl, rfl, rfl, Nat.zero_le _, List.mem_map_of_mem hs⟩

/-- The rows of these workers, in the order of the lanes, for a paused task. -/
def freshBundle (codec : Codec) (manifest : SessionManifest) (workers : List Worker) :
    StoredBundle where
  task :=
    { id := 0, url := "", specJson := "", sourceSetJson := codec.sourcesToJson manifest.sources
      resolvedUrl := "", entityTag := "", lastModified := "", fileName := "file.bin"
      filePath := "/file.bin", status := "Paused", downloadedSize := 0
      totalSize := some manifest.totalSize, torrentBackend := none, torrentExternalId := none
      torrentStateJson := none, torrentMetadataJson := none, torrentResumeData := none
      createdAt := none, updatedAt := none }
  workers := workers.map (workerToDb 0)
  pieces := []
  blocks := []
  checksums := []

theorem freshBundle_stored (codec : Codec) (manifest : SessionManifest) (workers : List Worker) :
    StoredRunning codec (fun _ => some none) manifest (freshBundle codec manifest workers).task :=
  ⟨by simp [freshBundle], rfl, rfl, show trim "/file.bin" ≠ "" by decide, rfl⟩

theorem sanitizeWorkerRequests_ne_nil
    (h : sanitizeWorkerRequests taskId total sources requests ≠ []) :
    (∀ w ∈ requests, laneMetadataOk w = true) ∧ (requests.map (·.index)).Nodup := by
  have hperm := List.perm_insertionSort (fun a b : SegmentRequest => a.index ≤ b.index) requests
  unfold sanitizeWorkerRequests at h
  dsimp only at h
  split at h
  · exact absurd rfl h
  · obtain ⟨hall, hnodup⟩ := sanitizeLoop_some ‹_›
    refine ⟨fun w hw => (hall w (hperm.mem_iff.2 hw)).1, ?_⟩
    exact (hperm.map _).nodup_iff.1 hnodup

theorem noWrap_of_accepted (hl : LaneChain n count sources 0 0 lanes total)
    (h : sanitizeWorkerRequests 0 (some total) sourceSet
      (dbWorkersToRequests ((freshWorkers source lanes).map (workerToDb 0))) ≠ []) :
    NoWrap n count := by
  obtain ⟨hall, hnodup⟩ := sanitizeWorkerRequests_ne_nil h
  rw [dbWorkersToRequests_map] at hall hnodup
  have hlen := hl.length
  rw [Nat.zero_add] at hlen
  have hids : (lanes.map (·.laneId)).Nodup := by
    simp only [freshWorkers, List.map_map] at hnodup
    exact hnodup
  refine ⟨?_, fun k hk => ?_⟩
  · by_contra hlarge
    have h0 : 0 < lanes.length := by omega
    have h1 : 2 ^ 32 < lanes.length := by omega
    obtain ⟨_, hzero⟩ := hl.getElem h0
    obtain ⟨_, hbig⟩ := hl.getElem h1
    have hsame : (lanes.map (·.laneId))[0]? = (lanes.map (·.laneId))[2 ^ 32]? := by
      rw [List.getElem?_map, List.getElem?_map, List.getElem?_eq_getElem h0,
        List.getElem?_eq_getElem h1, Option.map_some, Option.map_some, hzero.laneId, hbig.laneId]
      rfl
    refine List.nodup_iff_getElem?_ne_getElem?.1 hids 0 (2 ^ 32) (by decide) ?_ hsame
    rw [List.length_map]
    exact h1
  · have hk' : k < lanes.length := by omega
    obtain ⟨_, hlane⟩ := hl.getElem hk'
    rw [Nat.zero_add] at hlane
    have hok := hall (workerRequest 0 (.new lanes[k].laneId source lanes[k] none none none))
      (List.mem_map_of_mem (List.mem_map_of_mem (List.getElem_mem hk')))
    simp only [laneMetadataOk, workerRequest, Worker.new, Bool.and_eq_true,
      decide_eq_true_eq] at hok
    rw [← hlane.pieceStart, ← hlane.pieceEnd]
    exact hok.1

/-- Where a number has wrapped around, even the rows of workers that have not run are rejected. -/
theorem rejected_of_wrap (hl : LaneChain n count sources 0 0 lanes manifest.totalSize)
    (hwrap : ¬ NoWrap n count) (codec : Codec) (source : SourceDescriptor) :
    (buildRestorePlan codec (fun _ => some none)
      (freshBundle codec manifest (freshWorkers source lanes))).workers = none := by
  apply buildRestorePlan_rejected
  by_contra hne
  exact hwrap (noWrap_of_accepted hl hne)

theorem noWrap_of_acceptsPlan (hl : LaneChain n count sources 0 0 lanes manifest.totalSize)
    (hs : manifest.sources.sources ≠ []) (h : AcceptsPlan codec manifest lanes) :
    NoWrap n count := by
  obtain ⟨source, rest, hsource⟩ := List.exists_cons_of_ne_nil hs
  have hmem : source ∈ manifest.sources.sources := hsource ▸ List.mem_cons_self
  have hkept := (h (fun _ => some none) (freshBundle codec manifest (freshWorkers source lanes))
    (freshWorkers source lanes) (freshWorkers_ofLane hmem lanes) (List.Perm.refl _)
    (freshBundle_stored codec manifest _)).kept
  by_contra hwrap
  rw [rejected_of_wrap hl hwrap codec source] at hkept
  cases hkept

/-- The restore accepts what the planner produced, if it does not panic, for every progress, choice
of sources and order of the rows, exactly when no lane number and no piece number that bounds a lane
wraps around. -/
theorem restore_accepts_plan_iff (codec : Codec) (manifest : SessionManifest)
    (hplanned : manifest.Planned) (hsources : manifest.sources.activeTransferSources ≠ [])
    (hj : codec.sourcesFromJson (codec.sourcesToJson manifest.sources) = some manifest.sources)
    (requestedWorkers : Nat) (allowParallel : Bool) (preferred : List String)
    (lanes : List ExecutionLaneAssignment)
    (hplan : planExecutionLanesWithSourceOrder manifest requestedWorkers allowParallel preferred =
      some lanes) :
    AcceptsPlan codec manifest lanes ↔
      NoWrap manifest.pieces.length
        (laneCount requestedWorkers manifest.pieces.length allowParallel) := by
  have hl := hplanned.laneChain hsources hplan
  constructor
  · apply noWrap_of_acceptsPlan hl
    intro he
    apply hsources
    rw [SourceSet.activeTransferSources, he, List.filter_nil]
  · exact acceptsPlan_of_noWrap hl hplanned.size hplanned.pos hj

/-- A codec that reads the sources of one manifest back. -/
def sourceCodec (manifest : SessionManifest) : Codec :=
  { bareCodec with
    sourcesToJson := fun _ => "sources"
    sourcesFromJson := fun _ => some manifest.sources }

theorem two_lanes_are_accepted :
    ∃ lanes, planExecutionLanesWithSourceOrder fourByteManifest 2 true [] = some lanes ∧
      NoWrap 2 2 ∧ AcceptsPlan (sourceCodec fourByteManifest) fourByteManifest lanes := by
  obtain ⟨lanes, hplan⟩ : ∃ lanes, planExecutionLanesWithSourceOrder fourByteManifest 2 true [] =
    some lanes := Option.isSome_iff_exists.1 (by decide)
  have hwrap : NoWrap 2 2 := ⟨by decide, by decide⟩
  refine ⟨lanes, hplan, hwrap, ?_⟩
  exact (restore_accepts_plan_iff (sourceCodec fourByteManifest) fourByteManifest
    (forSingleFile_planned (by decide) (by decide)) (by decide) rfl 2 true [] lanes hplan).2 hwrap

/-- A resource of 2^53 bytes: 2^33 pieces of the default size. -/
def hugeManifest : SessionManifest :=
  let spec := DownloadSpec.https "https://example.com/huge.bin"
  .forSingleFileWithPieceSize spec (.forSpec spec none) "huge.bin" "/huge.bin" (2 ^ 33 * 2 ^ 20)
    (2 ^ 20) DEFAULT_BLOCK_SIZE []

theorem hugeManifest_pieces : hugeManifest.pieces.length = 2 ^ 33 := by
  have hsize : min (max (2 ^ 20) 1) (min (max (2 ^ 33 * 2 ^ 20) 1) (2 ^ 32 - 1)) = 2 ^ 20 := by
    decide
  simp only [hugeManifest, SessionManifest.forSingleFileWithPieceSize]
  rw [hsize]
  exact planPieceLayouts_length (by decide) (2 ^ 33)

theorem SessionManifest.Planned.rejects_wrapped {manifest : SessionManifest}
    (h : manifest.Planned) (hsource : source ∈ manifest.sources.activeTransferSources)
    (hwrap : ¬ NoWrap manifest.pieces.length
      (laneCount requestedWorkers manifest.pieces.length allowParallel))
    (codec : Codec)
    (hplan : planExecutionLanesWithSourceOrder manifest requestedWorkers allowParallel preferred =
      some lanes) :
    (∃ source, source ∈ manifest.sources.sources ∧
      (buildRestorePlan codec (fun _ => some none)
        (freshBundle codec manifest (freshWorkers source lanes))).workers = none) ∧
      ¬ AcceptsPlan codec manifest lanes := by
  have hmem : source ∈ manifest.sources.sources := List.mem_of_mem_filter hsource
  have hl := h.laneChain (List.ne_nil_of_mem hsource) hplan
  refine ⟨⟨source, hmem, rejected_of_wrap hl hwrap codec source⟩, fun haccepts => hwrap ?_⟩
  exact noWrap_of_acceptsPlan hl (List.ne_nil_of_mem hmem) haccepts

/-- The second of three lanes over these pieces starts at piece 2863311530 and ends, after the
32-bit counter has wrapped around, at piece 1431655764: the rows of a paused task are rejected. -/
theorem wrapped_lane_is_rejected :
    let codec := sourceCodec hugeManifest
    ∃ lanes, planExecutionLanesWithSourceOrder hugeManifest 3 true [] = some lanes ∧
      (∃ source, source ∈ hugeManifest.sources.sources ∧
        (buildRestorePlan codec (fun _ => some none)
          (freshBundle codec hugeManifest (freshWorkers source lanes))).workers = none) ∧
      ¬ AcceptsPlan codec hugeManifest lanes := by
  intro codec
  have hplanned : hugeManifest.Planned := forSingleFile_planned (by decide) (by decide)
  have hsource : SourceDescriptor.fromSpec (.https "https://example.com/huge.bin") none ∈
      hugeManifest.sources.activeTransferSources :=
    List.mem_filter.2 ⟨List.mem_singleton.2 rfl, rfl⟩
  obtain ⟨first, rest, hr⟩ := rankedSources_cons (List.ne_nil_of_mem hsource) []
  obtain ⟨lanes, hplan⟩ : ∃ lanes, planExecutionLanesWithSourceOrder hugeManifest 3 true [] =
      some lanes := by
    refine ⟨_, (plan_parallel hplanned.pieces_ne_nil hr).2 ⟨?_, rfl⟩⟩
    rw [hugeManifest_pieces]
    decide
  refine ⟨lanes, hplan, hplanned.rejects_wrapped hsource ?_ codec hplan⟩
  rw [hugeManifest_pieces]
  intro h
  exact absurd (h.2 1 (by decide)) (by decide)

end Paradown
