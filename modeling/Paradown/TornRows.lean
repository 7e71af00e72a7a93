import Paradown.Ranged
import Paradown.Restart

namespace Paradown
set_option autoImplicit true

/-- The range length of a lane, as the worker and the restore compute it. -/
def rangeLength (start endByte : Nat) : Nat := satAdd (endByte - start) 1

def Worker.rangeLength (w : Worker) : Nat := Paradown.rangeLength w.start w.endByte

/-- What a call of `worker_to_db` has read so far. -/
inductive RowReading where
  | called
  | dated (updatedAt : Option Nat)
  | sourced (updatedAt : Option Nat) (source : SourceDescriptor)
  | placed (updatedAt : Option Nat) (source : SourceDescriptor) (lane : ExecutionLaneAssignment)
  | counted (updatedAt : Option Nat) (source : SourceDescriptor) (lane : ExecutionLaneAssignment)
      (downloaded : Nat)
  | saving (row : DBDownloadWorker)
  deriving DecidableEq

namespace RowReading

/-- The next read of `worker_to_db`; the status comes last and makes the row. -/
def next (taskId : Nat) (w : Worker) : RowReading → RowReading
  | .called => .dated w.updatedAt
  | .dated updatedAt => .sourced updatedAt w.source
  | .sourced updatedAt source => .placed updatedAt source w.lane
  | .placed updatedAt source lane => .counted updatedAt source lane w.downloadedSize
  | .counted updatedAt source lane downloaded =>
    .saving
      { id := w.id, taskId, index := w.id, sourceId := some source.id
        pieceStart := some lane.pieceStart, pieceEnd := some lane.pieceEnd
        blockStart := some lane.blockStart, blockEnd := some lane.blockEnd
        start := w.start, endByte := w.endByte, downloaded, status := w.status.toText, updatedAt }
  | .saving row => .saving row

/-- A worker that is left alone is read as it is. -/
theorem next_quiet (taskId : Nat) (w : Worker) :
    (next taskId w)^[5] .called = .saving (workerToDb taskId w) := rfl

/-- The counter that a reading has taken, while the status is still to come. -/
def counter : RowReading → Option Nat
  | .counted _ _ _ downloaded => some downloaded
  | _ => none

end RowReading

/-- A worker of a task, with its latest run. -/
structure LaneRun where
  taskId : Nat
  transfer : Transfer

/-- A call of `worker_to_db` for one of the workers. -/
structure RowCall where
  lane : Nat
  reading : RowReading
  deriving DecidableEq

/-- The workers that the process has made so far, the rows being read, and the stored rows. -/
structure LaneTable where
  lanes : List LaneRun
  calls : List RowCall
  rows : List DBDownloadWorker

inductive LaneAct where
  | create (taskId id : Nat) (source : SourceDescriptor) (lane : ExecutionLaneAssignment)
      (seeded now : Nat) (fs : FileSystem)
  | transfer (lane : Nat) (env : TransferEnv) (act : TransferAct)
  | startAgain (lane : Nat)
  | workerToDb (lane : Nat)
  | read (call : Nat)
  | crash (codec : Codec) (fs : FileSystem) (config : Config) (now : Nat) (task : DBDownloadTask)
      (pieces : List DBDownloadPiece) (blocks : List DBDownloadBlock)
      (checksums : List DBDownloadChecksum)

/-- A worker whose loop has not been entered. -/
def LaneRun.idle (taskId : Nat) (w : Worker) (fs : FileSystem) : LaneRun :=
  ⟨taskId, ⟨w, 0, 0, fs, .starting, none, none⟩⟩

/-- `save_worker`: the row of the task and the worker is replaced. -/
def saveWorker (rows : List DBDownloadWorker) (row : DBDownloadWorker) : List DBDownloadWorker :=
  rows.filter (fun other => !(other.taskId == row.taskId && other.id == row.id)) ++ [row]

namespace LaneTable

/-- What is stored of a task when the process dies. -/
def bundle (s : LaneTable) (task : DBDownloadTask) (pieces : List DBDownloadPiece)
    (blocks : List DBDownloadBlock) (checksums : List DBDownloadChecksum) : StoredBundle :=
  ⟨task, s.rows.filter (·.taskId == task.id), pieces, blocks, checksums⟩

/-- The next process: only the rows are left, and the workers of the task come from its plan. -/
def restore (s : LaneTable) (config : Config) (now : Nat) (fs : FileSystem) (plan : RestorePlan) :
    LaneTable :=
  let id := plan.taskRequest.id.getD 1
  let t := addTaskWithWorkers config now id plan.taskRequest plan.workers
  { s with lanes := t.workers.map fun w => .idle id w fs, calls := [] }

def step (s : LaneTable) : LaneAct → Option LaneTable
  | .create taskId id source lane seeded now fs =>
    let w := Worker.new id source lane (some seeded) (some .pending) (some now)
    some { s with lanes := s.lanes ++ [.idle taskId w fs] }
  | .transfer i env a =>
    match s.lanes[i]? with
    | none => none
    | some lane =>
      match lane.transfer.step env a with
      | none => none
      | some t => some { s with lanes := s.lanes.set i { lane with transfer := t } }
  | .startAgain i =>
    match s.lanes[i]? with
    | none => none
    | some lane =>
      match lane.transfer.phase with
      | .finished _ =>
        some { s with lanes := s.lanes.set i (.idle lane.taskId lane.transfer.worker lane.transfer.fs) }
      | _ => none
  | .workerToDb i =>
    match s.lanes[i]? with
    | none => none
    | some _ => some { s with calls := s.calls ++ [⟨i, .called⟩] }
  | .read k =>
    match s.calls[k]? with
    | none => none
    | some ⟨_, .saving row⟩ => some { s with rows := saveWorker s.rows row, calls := s.calls.eraseIdx k }
    | some ⟨i, reading⟩ =>
      match s.lanes[i]? with
      | none => none
      | some lane =>
        some { s with calls := s.calls.set k ⟨i, reading.next lane.taskId lane.transfer.worker⟩ }
  | .crash codec fs config now task pieces blocks checksums =>
    some (s.restore config now fs
      (buildRestorePlan codec fs.view (s.bundle task pieces blocks checksums)))

/-- A worker becomes completed only with a counter that has reached the end of its range, and with
no row of it in hand that was counted before. -/
def CompletesCounted (s : LaneTable) : LaneAct → Prop
  | .transfer i _ .proceed =>
    ∀ lane ∈ s.lanes[i]?, lane.transfer.phase = .succeeding →
      (lane.transfer.worker.lengthKnown = false →
        lane.transfer.worker.rangeLength ≤ lane.transfer.worker.downloadedSize) ∧
      ∀ call ∈ s.calls, call.lane = i → ∀ downloaded ∈ call.reading.counter,
        lane.transfer.worker.rangeLength ≤ downloaded
  | _ => True

end LaneTable

/-- A run that has completed its worker, or is about to, has counted the whole range. -/
structure Transfer.Counted (t : Transfer) : Prop where
  completed : t.worker.status = .completed → t.worker.rangeLength ≤ t.worker.downloadedSize
  counter : t.phase.isLoop = true → t.downloaded = t.worker.downloadedSize
  succeeding : t.phase = .succeeding → t.worker.lengthKnown = true →
    t.worker.rangeLength ≤ t.worker.downloadedSize

def DBDownloadWorker.Counted (row : DBDownloadWorker) : Prop :=
  row.status = "Completed" → rangeLength row.start row.endByte ≤ row.downloaded

/-- What has been read for a row does not fall short of what the row will say. -/
structure RowCall.Counted (lanes : List LaneRun) (call : RowCall) : Prop where
  counter : ∀ downloaded ∈ call.reading.counter, ∃ lane ∈ lanes[call.lane]?,
    lane.transfer.worker.status = .completed → lane.transfer.worker.rangeLength ≤ downloaded
  row : ∀ row, call.reading = .saving row → row.Counted

structure LaneTable.Counted (s : LaneTable) : Prop where
  lanes : ∀ lane ∈ s.lanes, lane.transfer.Counted
  calls : ∀ call ∈ s.calls, call.Counted s.lanes
  rows : ∀ row ∈ s.rows, row.Counted

theorem SameRange.rangeLength (h : SameRange w w') : w'.rangeLength = w.rangeLength := by
  simp only [Worker.rangeLength, h.start, h.endByte]

theorem Worker.rangeLength_of_known {w : Worker} (h : w.lengthKnown = true) :
    w.rangeLength = w.expectedLength := by
  rw [Worker.rangeLength, Paradown.rangeLength, Worker.expectedLength, if_pos h]

/-- Only the last step of the loop completes a worker. -/
theorem Move.completed (h : Move env t a t') (hc : t'.worker.status = .completed) :
    t.worker.status = .completed ∨ a = .proceed ∧ t.phase = .succeeding := by
  cases h with
  | idle hw hp => exact .inl (hw.completed hc)
  | begin hp hw hq => exact .inl (hw.completed hc)
  | finish hp => exact .inr ⟨rfl, hp⟩
  | _ => exact .inl hc

theorem Transfer.Counted.keep {t t' : Transfer} (h : t.Counted) (hw : t'.worker = t.worker)
    (hd : t'.downloaded = t.downloaded) (hp : t.phase.isLoop = true)
    (hn : t'.phase ≠ .succeeding) : t'.Counted := by
  constructor
  case completed =>
    rw [hw]
    exact h.completed
  case counter =>
    intro _
    rw [hw, hd]
    exact h.counter hp
  case succeeding =>
    intro he
    exact absurd he hn

theorem Transfer.Counted.step {t t' : Transfer} (h : t.Counted) (hm : Move env t a t')
    (hf : a = .proceed → t.phase = .succeeding → t.worker.lengthKnown = false →
      t.worker.rangeLength ≤ t.worker.downloadedSize) : t'.Counted := by
  cases hm with
  | idle hw hp =>
    constructor
    case completed =>
      intro hc
      rw [hw.rangeLength, hw.downloadedSize]
      exact h.completed (hw.completed hc)
    case counter =>
      intro hloop
      rw [hw.downloadedSize]
      apply h.counter
      rcases hp with rfl | ⟨_, hretry⟩
      · exact hloop
      · exact Phase.isLoop_of_mayRetry (hretry hloop)
    case succeeding =>
      intro he hk
      rcases hp with rfl | ⟨hrest, _⟩
      · rw [hw.rangeLength, hw.downloadedSize]
        exact h.succeeding he (hw.lengthKnown ▸ hk)
      · dsimp only at he
        rw [he] at hrest
        cases hrest
  | begin hp hw hq =>
    constructor
    case completed =>
      intro hc
      rw [hw.rangeLength, hw.downloadedSize]
      exact h.completed (hw.completed hc)
    case counter =>
      intro _
      rfl
    case succeeding =>
      intro he hk
      rcases hq with rfl | ⟨_, _, hle⟩
      · cases he
      · rw [Worker.rangeLength_of_known hk]
        exact hle
  | slice hp hs hl hw =>
    have hsame := h.counter (hp ▸ rfl)
    constructor
    case completed =>
      intro hc
      exact (h.completed hc).trans (hsame ▸ Nat.le_add_right _ _)
    case counter =>
      intro _
      rfl
    case succeeding =>
      intro he
      cases hp.symm.trans he
  | checked hp hn hv =>
    have hsame := h.counter (hp ▸ rfl)
    constructor
    case completed => exact h.completed
    case counter =>
      intro _
      exact hsame
    case succeeding =>
      intro _ hk
      rw [Worker.rangeLength_of_known hk, ← Worker.length_of_validated hk hv]
      exact Nat.le_of_eq hsame
  | finish hp =>
    constructor
    case completed =>
      intro _
      cases hk : t.worker.lengthKnown with
      | true => exact h.succeeding hp hk
      | false => exact hf rfl hp hk
    case counter =>
      intro hloop
      cases hloop
    case succeeding =>
      intro he
      cases he
  | request hp supports => exact h.keep rfl rfl (hp ▸ rfl) Phase.noConfusion
  | accept hp hv => exact h.keep rfl rfl (hp ▸ rfl) Phase.noConfusion
  | chunk hp hs hl hc => exact h.keep rfl rfl (hp ▸ rfl) (hp ▸ Phase.noConfusion)
  | torn hp hs hl hr hw => exact h.keep rfl rfl (hp ▸ rfl) Phase.noConfusion
  | ended hp hs he => exact h.keep rfl rfl (hp ▸ rfl) Phase.noConfusion

theorem normalizeWorkerStatus_eq_completed (h : normalizeWorkerStatus status = some "Completed") :
    status = some "Completed" := by
  unfold normalizeWorkerStatus at h
  split at h
  · simp at h
  · split at h
    · simp at h
    · split at h
      · simp at h
      · exact h

theorem restored_counted {bundle : StoredBundle} (hrows : ∀ row ∈ bundle.workers, row.Counted)
    (hw : w ∈ (buildRestorePlan codec view bundle).workers.getD [])
    (hs : w.status = some "Completed") : w.downloaded = some (rangeLength w.start w.endByte) := by
  obtain ⟨v, hv, total, known, single, seen, next, haccepted⟩ := mem_buildRestorePlan hw
  obtain ⟨source, _, _, rfl⟩ := haccepted.source
  obtain ⟨row, hrow, rfl⟩ := List.mem_map.1 hv
  have hcompleted : row.status = "Completed" :=
    Option.some.inj (normalizeWorkerStatus_eq_completed hs)
  have hle := hrows row hrow hcompleted
  have hge := haccepted.count
  exact congrArg some (Nat.le_antisymm hge hle)

theorem Status.toText_eq_completed {s : Status} (h : s.toText = "Completed") : s = .completed := by
  cases s with
  | completed => rfl
  | _ => simp [Status.toText] at h

theorem Status.fromText_eq_completed (h : Status.fromText s = some .completed) :
    s = "Completed" := by
  unfold Status.fromText at h
  split_ifs at h <;> simp_all

theorem LaneRun.idle_counted {w : Worker}
    (h : w.status = .completed → w.rangeLength ≤ w.downloadedSize) (taskId : Nat)
    (fs : FileSystem) : (LaneRun.idle taskId w fs).transfer.Counted := by
  constructor
  case completed => exact h
  case counter =>
    intro hloop
    cases hloop
  case succeeding =>
    intro he
    cases he

theorem restoredWorker_counted (t : Task) (now : Nat)
    (h : w.status = some "Completed" → w.downloaded = some (rangeLength w.start w.endByte))
    (hc : (restoredWorker t now w).status = .completed) :
    (restoredWorker t now w).rangeLength ≤ (restoredWorker t now w).downloadedSize := by
  have htext : w.status = some "Completed" := by
    change (w.status.bind Status.fromText).getD .pending = .completed at hc
    cases hstatus : w.status.bind Status.fromText with
    | none =>
      rw [hstatus] at hc
      cases hc
    | some status =>
      rw [hstatus, Option.getD_some] at hc
      obtain ⟨text, htext, hfrom⟩ := Option.bind_eq_some_iff.1 hstatus
      rw [hc] at hfrom
      rw [htext, Status.fromText_eq_completed hfrom]
  change rangeLength w.start w.endByte ≤ w.downloaded.getD 0
  rw [h htext, Option.getD_some]

theorem RowReading.next_counted (taskId : Nat) {w : Worker}
    (h : w.status = .completed → w.rangeLength ≤ w.downloadedSize) (reading : RowReading)
    (hd : ∀ downloaded ∈ reading.counter, w.status = .completed → w.rangeLength ≤ downloaded)
    (hr : ∀ row, reading = .saving row → row.Counted) :
    (∀ downloaded ∈ (reading.next taskId w).counter,
        w.status = .completed → w.rangeLength ≤ downloaded) ∧
      ∀ row, reading.next taskId w = .saving row → row.Counted := by
  cases reading with
  | placed updatedAt source lane =>
    refine ⟨?_, fun row he => by cases he⟩
    rintro downloaded he
    obtain rfl := Option.some.inj he
    exact h
  | counted updatedAt source lane downloaded =>
    refine ⟨fun other he => by (cases he), ?_⟩
    intro row he
    obtain rfl := RowReading.saving.inj he
    intro hcompleted
    exact hd downloaded rfl (Status.toText_eq_completed hcompleted)
  | saving row => exact ⟨fun other he => by (cases he), hr⟩
  | _ => exact ⟨fun other he => by (cases he), fun row he => by cases he⟩

theorem RowCall.Counted.append {lanes : List LaneRun} (h : RowCall.Counted lanes call)
    (more : List LaneRun) : RowCall.Counted (lanes ++ more) call := by
  constructor
  case counter =>
    intro downloaded hd
    obtain ⟨lane, hlane, hle⟩ := h.counter downloaded hd
    exact ⟨lane, List.getElem?_append_left (List.getElem?_eq_some_iff.1 hlane).1 ▸ hlane, hle⟩
  case row => exact h.row

theorem RowCall.Counted.set {lanes : List LaneRun} (h : RowCall.Counted lanes call)
    (hi : lanes[i]? = some before)
    (hnew : call.lane = i → ∀ downloaded ∈ call.reading.counter,
      (before.transfer.worker.status = .completed →
        before.transfer.worker.rangeLength ≤ downloaded) →
      after.transfer.worker.status = .completed → after.transfer.worker.rangeLength ≤ downloaded) :
    RowCall.Counted (lanes.set i after) call := by
  constructor
  case counter =>
    intro downloaded hd
    obtain ⟨lane, hlane, hle⟩ := h.counter downloaded hd
    by_cases hc : call.lane = i
    · have hsame : before = lane := Option.some.inj (hi.symm.trans (hc ▸ hlane))
      refine ⟨after, ?_, hnew hc downloaded hd (hsame ▸ hle)⟩
      rw [hc, List.getElem?_set_self (List.getElem?_eq_some_iff.1 hi).1]
      rfl
    · refine ⟨lane, ?_, hle⟩
      rw [List.getElem?_set_ne fun he => hc he.symm]
      exact hlane
  case row => exact h.row

theorem LaneTable.Counted.setLane {s : LaneTable} (h : s.Counted) (hi : s.lanes[i]? = some before)
    (hafter : after.transfer.Counted)
    (hnew : ∀ call ∈ s.calls, call.lane = i → ∀ downloaded ∈ call.reading.counter,
      (before.transfer.worker.status = .completed →
        before.transfer.worker.rangeLength ≤ downloaded) →
      after.transfer.worker.status = .completed → after.transfer.worker.rangeLength ≤ downloaded) :
    LaneTable.Counted { s with lanes := s.lanes.set i after } := by
  constructor
  case lanes =>
    intro lane hlane
    rcases List.mem_or_eq_of_mem_set hlane with hlane | rfl
    · exact h.lanes lane hlane
    · exact hafter
  case calls =>
    intro call hcall
    exact (h.calls call hcall).set hi (hnew call hcall)
  case rows => exact h.rows

theorem LaneTable.Counted.restore {s : LaneTable} (h : s.Counted) (config : Config) (now : Nat)
    (fs : FileSystem) {plan : RestorePlan}
    (hplan : ∀ w ∈ plan.workers.getD [], w.status = some "Completed" →
      w.downloaded = some (rangeLength w.start w.endByte)) :
    (s.restore config now fs plan).Counted := by
  constructor
  case lanes =>
    intro lane hlane
    obtain ⟨w, hw, rfl⟩ := List.mem_map.1 hlane
    apply LaneRun.idle_counted
    cases hworkers : plan.workers with
    | none =>
      rw [hworkers] at hw
      cases hw
    | some requests =>
      rw [hworkers] at hw
      obtain ⟨request, hrequest, rfl⟩ := List.mem_map.1 hw
      apply restoredWorker_counted
      apply hplan
      rw [hworkers]
      exact hrequest
  case calls =>
    intro call hcall
    cases hcall
  case rows => exact h.rows

theorem LaneTable.Counted.create {s : LaneTable} (h : s.Counted) (workers : List Worker)
    (hw : ∀ w ∈ workers, w.status = .pending) (taskId : Nat) (fs : FileSystem) :
    LaneTable.Counted { s with lanes := s.lanes ++ workers.map (.idle taskId · fs) } := by
  constructor
  case lanes =>
    intro l hl
    rcases List.mem_append.1 hl with hl | hl
    · exact h.lanes l hl
    · obtain ⟨w, hmem, rfl⟩ := List.mem_map.1 hl
      apply LaneRun.idle_counted
      intro he
      cases (hw w hmem).symm.trans he
  case calls =>
    intro call hcall
    exact (h.calls call hcall).append _
  case rows => exact h.rows

theorem LaneTable.Counted.transfer {s : LaneTable} (h : s.Counted)
    (hc : s.CompletesCounted (.transfer i env a)) (hi : s.lanes[i]? = some lane)
    (ht : lane.transfer.step env a = some t) :
    LaneTable.Counted { s with lanes := s.lanes.set i { lane with transfer := t } } := by
  have hmove := Transfer.step_move ht
  have hlane := h.lanes lane (List.mem_of_getElem? hi)
  apply h.setLane hi
  · apply hlane.step hmove
    intro ha hp
    subst a
    exact (hc lane hi hp).1
  · intro call hcall hl downloaded hd hold hdone
    obtain ⟨hstart, hend, _⟩ := Transfer.step_lane ht
    rw [Worker.rangeLength, hstart, hend]
    rcases hmove.completed hdone with hbefore | ⟨rfl, hp⟩
    · exact hold hbefore
    · exact (hc lane hi hp).2 call hcall hl downloaded hd

theorem LaneTable.Counted.startAgain {s : LaneTable} (h : s.Counted)
    (hi : s.lanes[i]? = some lane) :
    LaneTable.Counted { s with
      lanes := s.lanes.set i (.idle lane.taskId lane.transfer.worker lane.transfer.fs) } := by
  apply h.setLane hi
  · exact LaneRun.idle_counted (h.lanes lane (List.mem_of_getElem? hi)).completed _ _
  · intro call hcall hl downloaded hd hold
    exact hold

theorem LaneTable.Counted.workersToDb {s : LaneTable} (h : s.Counted) (workers : List Nat) :
    LaneTable.Counted { s with calls := s.calls ++ workers.map (⟨·, .called⟩) } := by
  constructor
  case lanes => exact h.lanes
  case calls =>
    intro call hcall
    rcases List.mem_append.1 hcall with hcall | hcall
    · exact h.calls call hcall
    · obtain ⟨i, _, rfl⟩ := List.mem_map.1 hcall
      constructor
      case counter =>
        intro downloaded hd
        cases hd
      case row =>
        intro row hr
        cases hr
  case rows => exact h.rows

theorem LaneTable.Counted.saveWorker {s : LaneTable} (h : s.Counted)
    (hk : s.calls[k]? = some ⟨i, .saving row⟩) :
    LaneTable.Counted { s with rows := saveWorker s.rows row, calls := s.calls.eraseIdx k } := by
  constructor
  case lanes => exact h.lanes
  case calls =>
    intro call hcall
    exact h.calls call (List.mem_of_mem_eraseIdx hcall)
  case rows =>
    intro other hother
    rcases List.mem_append.1 hother with hother | hother
    · exact h.rows other (List.mem_of_mem_filter hother)
    · obtain rfl := List.mem_singleton.1 hother
      exact (h.calls _ (List.mem_of_getElem? hk)).row _ rfl

theorem LaneTable.Counted.read {s : LaneTable} (h : s.Counted)
    (hk : s.calls[k]? = some ⟨i, reading⟩) (hi : s.lanes[i]? = some lane) :
    LaneTable.Counted { s with
      calls := s.calls.set k ⟨i, reading.next lane.taskId lane.transfer.worker⟩ } := by
  have hcall := h.calls _ (List.mem_of_getElem? hk)
  have hread : ∀ downloaded ∈ reading.counter, lane.transfer.worker.status = .completed →
      lane.transfer.worker.rangeLength ≤ downloaded := by
    intro downloaded hd
    obtain ⟨l, hl, hle⟩ := hcall.counter downloaded hd
    obtain rfl := Option.some.inj (hi.symm.trans hl)
    exact hle
  obtain ⟨hcounter, hrow⟩ := RowReading.next_counted lane.taskId
    (h.lanes lane (List.mem_of_getElem? hi)).completed reading hread hcall.row
  constructor
  case lanes => exact h.lanes
  case calls =>
    intro call hc
    rcases List.mem_or_eq_of_mem_set hc with hc | rfl
    · exact h.calls call hc
    · constructor
      case counter =>
        intro downloaded hd
        exact ⟨lane, hi, hcounter downloaded hd⟩
      case row => exact hrow
  case rows => exact h.rows

theorem LaneTable.read_cases {s s' : LaneTable} (h : s.step (.read k) = some s') :
    (∃ i row, s.calls[k]? = some ⟨i, .saving row⟩ ∧
      s' = { s with rows := Paradown.saveWorker s.rows row, calls := s.calls.eraseIdx k }) ∨
    ∃ i reading lane, s.calls[k]? = some ⟨i, reading⟩ ∧ s.lanes[i]? = some lane ∧
      s' = { s with
        calls := s.calls.set k ⟨i, reading.next lane.taskId lane.transfer.worker⟩ } := by
  simp only [LaneTable.step] at h
  split at h
  · cases h
  · rename_i i row hk
    exact .inl ⟨i, row, hk, (Option.some.inj h).symm⟩
  · rename_i i reading hreading hk
    split at h
    · cases h
    · rename_i lane hi
      exact .inr ⟨i, reading, lane, hk, hi, (Option.some.inj h).symm⟩

theorem LaneTable.Counted.step {s s' : LaneTable} (h : s.Counted) (hc : s.CompletesCounted a)
    (hs : s.step a = some s') : s'.Counted := by
  cases a with
  | create taskId id source lane seeded now fs =>
    cases hs
    apply h.create [_]
    intro w hw
    obtain rfl := List.mem_singleton.1 hw
    rfl
  | transfer i env a =>
    simp only [LaneTable.step] at hs
    split at hs
    · cases hs
    · rename_i lane hi
      split at hs
      · cases hs
      · rename_i t ht
        cases hs
        exact h.transfer hc hi ht
  | startAgain i =>
    simp only [LaneTable.step] at hs
    split at hs
    · cases hs
    · rename_i lane hi
      split at hs
      · cases hs
        exact h.startAgain hi
      · cases hs
  | workerToDb i =>
    simp only [LaneTable.step] at hs
    split at hs
    · cases hs
    · cases hs
      exact h.workersToDb [i]
  | read k =>
    rcases LaneTable.read_cases hs with ⟨i, row, hk, rfl⟩ | ⟨i, reading, lane, hk, hi, rfl⟩
    · exact h.saveWorker hk
    · exact h.read hk hi
  | crash codec fs config now task pieces blocks checksums =>
    cases hs
    apply h.restore
    intro w hw
    apply restored_counted ?_ hw
    intro row hrow
    exact h.rows row (List.mem_of_mem_filter hrow)

theorem Transfer.completed_of_skipped (t : Transfer) (h : t.begin.phase = .finished (.ok ())) :
    t.worker.status = .completed := by
  unfold Transfer.begin at h
  split at h
  · cases h
  · cases h
  · assumption
  · rw [apply_ite Transfer.phase] at h
    split_ifs at h <;> cases h

/-- Whenever the process dies, every worker of the plan that is handed back as completed has its
whole range, and no worker that is run again is skipped with bytes missing. -/
theorem restored_lane_is_complete (acts : List LaneAct) (s : LaneTable)
    (hc : Transition.Meets LaneTable.step LaneTable.CompletesCounted ⟨[], [], []⟩ acts)
    (hrun : Transition.run LaneTable.step ⟨[], [], []⟩ acts = some s) :
    (∀ codec view task pieces blocks checksums,
      ∀ w ∈ (buildRestorePlan codec view (s.bundle task pieces blocks checksums)).workers.getD [],
        w.status = some "Completed" → w.downloaded = some (rangeLength w.start w.endByte)) ∧
    ∀ lane ∈ s.lanes, lane.transfer.begin.phase = .finished (.ok ()) →
      lane.transfer.worker.rangeLength ≤ lane.transfer.worker.downloadedSize := by
  have hinit : LaneTable.Counted ⟨[], [], []⟩ := by
    constructor
    case lanes =>
      intro lane hlane
      cases hlane
    case calls =>
      intro call hcall
      cases hcall
    case rows =>
      intro row hrow
      cases hrow
  have h : s.Counted := hc.invariant (fun s a s' hs ha hstep => hs.step ha hstep) hinit hrun
  constructor
  · intro codec view task pieces blocks checksums w hw
    apply restored_counted ?_ hw
    intro row hrow
    exact h.rows row (List.mem_of_mem_filter hrow)
  · intro lane hlane hskip
    exact (h.lanes lane hlane).completed (lane.transfer.completed_of_skipped hskip)

instance (s : LaneTable) : (a : LaneAct) → Decidable (s.CompletesCounted a)
  | .transfer i _ .proceed => inferInstanceAs (Decidable (∀ lane ∈ s.lanes[i]?,
      lane.transfer.phase = .succeeding →
        (lane.transfer.worker.lengthKnown = false →
          lane.transfer.worker.rangeLength ≤ lane.transfer.worker.downloadedSize) ∧
        ∀ call ∈ s.calls, call.lane = i → ∀ downloaded ∈ call.reading.counter,
          lane.transfer.worker.rangeLength ≤ downloaded))
  | .transfer _ _ .pause | .transfer _ _ .resume | .transfer _ _ .cancel | .transfer _ _ .delete
  | .transfer _ _ (.turn _) | .transfer _ _ (.buildFails _) | .transfer _ _ (.sendFails _)
  | .transfer _ _ (.respond _) | .transfer _ _ (.storeFails _ _) | .transfer _ _ (.writeFails _ _)
  | .transfer _ _ (.retry _) | .create _ _ _ _ _ _ _ | .startAgain _ | .workerToDb _ | .read _
  | .crash _ _ _ _ _ _ _ _ => isTrue trivial

/-- The row of a task that is downloading the four bytes of its file. -/
def runningRow : DBDownloadTask :=
  { (halfDownloadedBundle false).task with filePath := "/file.bin", totalSize := some 4 }

def fourByteFiles : FileSystem := (oneFile 4).prepare .empty

def crashFourByteTask : LaneAct :=
  .crash bareCodec fourByteFiles ⟨"/downloads", 1, 1, .resume, {}⟩ 0 runningRow [] [] []

def runLane (acts : List TransferAct) : List LaneAct := acts.map (.transfer 0 ⟨oneFile 4, 3⟩)

/-- One worker is sent its four bytes, up to where they have still to be written and counted. -/
def fourBytesArrive : List LaneAct :=
  .create 1 0 (.fromSpec (.https "https://example.com/file.bin") none) fourByteLane 0 0
      fourByteFiles ::
    runLane [.proceed, .turn true,
      .respond ⟨206, "206 Partial Content", some (some "bytes 0-3/4"), [[1, 2, 3, 4]], none⟩,
      .proceed]

def fourBytesComplete : List LaneAct := runLane [.proceed, .proceed, .proceed, .proceed]

theorem whole_row_is_restored :
    ∃ s, Transition.run LaneTable.step ⟨[], [], []⟩
        (fourBytesArrive ++ fourBytesComplete ++ .workerToDb 0 :: List.replicate 6 (.read 0)) = some s ∧
      ∃ w ∈ (buildRestorePlan bareCodec fourByteFiles.view
          (s.bundle runningRow [] [] [])).workers.getD [],
        w.status = some "Completed" ∧ w.downloaded = some (rangeLength w.start w.endByte) := by
  obtain ⟨s, hrun, w, hw, hs⟩ : ∃ s, Transition.run LaneTable.step ⟨[], [], []⟩
      (fourBytesArrive ++ fourBytesComplete ++ .workerToDb 0 :: List.replicate 6 (.read 0)) = some s ∧
      ∃ w ∈ (buildRestorePlan bareCodec fourByteFiles.view
          (s.bundle runningRow [] [] [])).workers.getD [], w.status = some "Completed" :=
    Transition.run_any (by decide)
  have h := restored_lane_is_complete _ s (by decide) hrun
  exact ⟨s, hrun, w, hw, hs, h.1 bareCodec fourByteFiles.view runningRow [] [] [] w hw hs⟩

/-- The row is read while the bytes arrive: its counter is old, its status is not. -/
theorem torn_row_is_restored :
    ∃ s, Transition.run LaneTable.step ⟨[], [], []⟩
        (fourBytesArrive ++ .workerToDb 0 :: List.replicate 4 (.read 0) ++ fourBytesComplete ++
          [.read 0, .read 0]) = some s ∧
      (buildRestorePlan bareCodec fourByteFiles.view (s.bundle runningRow [] [] [])).workers.map
          (List.map fun w => (w.status, w.downloaded, rangeLength w.start w.endByte)) =
        some [(some "Completed", some 0, 4)] ∧
      (s.step crashFourByteTask).any (fun s' => s'.lanes.map (fun lane =>
        (decide (lane.transfer.begin.phase = .finished (.ok ())), lane.transfer.worker.downloadedSize)) =
        [(true, 0)]) = true :=
  Transition.run_any (by decide)

end Paradown
