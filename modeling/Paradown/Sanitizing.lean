import Paradown.Acceptance
import Mathlib.Data.List.Dedup

namespace Paradown
set_option autoImplicit true

open Tiling

/-- The only source of a set that knows a single id. -/
def SourceSet.singleSource (sources : Option SourceSet) : Option String :=
  match (((sources.map (·.sources)).getD []).map (·.id)).dedup with
  | [source] => some source
  | _ => none

/-- What the restore makes of a row: its status is normalised and a missing source filled in. -/
def restoredRow (single : Option String) (w : SegmentRequest) : SegmentRequest :=
  { w with sourceId := w.sourceId <|> single, status := normalizeWorkerStatus w.status }

/-- Lane metadata is absent, or complete and ordered. -/
def SegmentRequest.LaneMetadata (w : SegmentRequest) : Prop :=
  (w.pieceStart = none ∧ w.pieceEnd = none ∧ w.blockStart = none ∧ w.blockEnd = none) ∨
    ∃ pieceStart pieceEnd blockStart blockEnd, w.pieceStart = some pieceStart ∧
      w.pieceEnd = some pieceEnd ∧ w.blockStart = some blockStart ∧ w.blockEnd = some blockEnd ∧
      pieceStart ≤ pieceEnd ∧ blockStart ≤ blockEnd

/-- A restored row on its own. -/
structure RowSound (known : List String) (w : SegmentRequest) : Prop where
  count : w.downloaded.getD 0 ≤ w.endByte + 1 - w.start
  source : ∃ source, w.sourceId = some source ∧ (known ≠ [] → source ∈ known)
  lane : w.LaneMetadata

abbrev RowsTile := Tiled SegmentRequest.start fun w => w.endByte + 1 - w.start

/-- The restored rows are the given ones and divide the payload. -/
structure LayoutSound (total : Nat) (sources : Option SourceSet)
    (requests restored : List SegmentRequest) : Prop where
  sorted : restored.Pairwise fun a b => a.index < b.index
  tiles : RowsTile 0 restored total
  rows : ∀ w ∈ restored, RowSound (((sources.map (·.sources)).getD []).map (·.id)) w
  sum : (restored.map fun w => w.downloaded.getD 0).sum ≤ total
  same : restored.Perm (requests.map (restoredRow (SourceSet.singleSource sources)))

theorem laneMetadata_of_ok (h : laneMetadataOk w = true) : w.LaneMetadata := by
  unfold laneMetadataOk at h
  split at h
  · exact .inl ⟨‹_›, ‹_›, ‹_›, ‹_›⟩
  · rw [Bool.and_eq_true, decide_eq_true_eq, decide_eq_true_eq] at h
    exact .inr ⟨_, _, _, _, ‹_›, ‹_›, ‹_›, ‹_›, h.1, h.2⟩
  · cases h

theorem rowSound_of_accepted
    (h : RowAccepted taskId (some total) known single seen start w w')
    (hpos : 0 < total) (ht : total < 2 ^ 64) :
    w' = restoredRow single w ∧ w'.start = start ∧ w'.start ≤ w'.endByte ∧ w'.endByte = w.endByte ∧
      w'.endByte < total ∧ RowSound known w' := by
  obtain ⟨source, hsource, hknown, rfl⟩ := h.source
  have hend := h.total total rfl hpos
  have horder := h.order
  have hcount := h.count
  rw [satAdd_of_lt (by omega)] at hcount
  refine ⟨by rw [restoredRow, hsource], h.start, horder, rfl, hend, ?_⟩
  constructor
  case count =>
    dsimp only
    omega
  case source => exact ⟨source, rfl, hknown.resolve_left⟩
  case lane => exact laneMetadata_of_ok h.lane

/-- The accepted rows cover the bytes up to the next expected start. -/
theorem sanitizeLoop_sound (hpos : 0 < total) (ht : total < 2 ^ 64)
    (h : sanitizeLoop taskId (some total) known single seen start ws = some (ws', last)) :
    ws' = ws.map (restoredRow single) ∧ RowsTile start ws' last ∧ ∀ w ∈ ws', RowSound known w := by
  induction ws generalizing seen start ws' with
  | nil =>
    obtain ⟨rfl, rfl⟩ := Prod.mk.inj (Option.some.inj h)
    refine ⟨rfl, rfl, ?_⟩
    intro w hw
    cases hw
  | cons w ws ih =>
    simp only [sanitizeLoop] at h
    split at h
    · cases h
    · rename_i w' hw'
      split at h
      · cases h
      · rename_i rest last' hrest
        obtain ⟨rfl, rfl⟩ := Prod.mk.inj (Option.some.inj h)
        obtain ⟨hrow, hstart, horder, hsame, hend, hsound⟩ :=
          rowSound_of_accepted (sanitizeWorker_eq_some.1 hw') hpos ht
        obtain ⟨hrows, htiles, hall⟩ := ih hrest
        have hnext : satAdd w.endByte 1 = start + (w'.endByte + 1 - w'.start) := by
          rw [satAdd_of_lt (by omega)]
          omega
        have hlength : 0 < w'.endByte + 1 - w'.start := by omega
        rw [hnext] at htiles
        refine ⟨by rw [List.map_cons, hrow, hrows], ⟨hstart, hlength, htiles⟩, ?_⟩
        intro v hv
        rcases List.mem_cons.1 hv with rfl | hv
        · exact hsound
        · exact hall v hv

/-- Rows that are not all rejected come back in order, and cover the payload. -/
theorem sanitizeWorkerRequests_sound (hpos : 0 < total) (ht : total < 2 ^ 64)
    (h : sanitizeWorkerRequests taskId (some total) sources requests ≠ []) :
    sanitizeWorkerRequests taskId (some total) sources requests =
        (requests.insertionSort fun a b => a.index ≤ b.index).map
          (restoredRow (SourceSet.singleSource sources)) ∧
      RowsTile 0 (sanitizeWorkerRequests taskId (some total) sources requests) total ∧
      ∀ w ∈ sanitizeWorkerRequests taskId (some total) sources requests,
        RowSound (((sources.map (·.sources)).getD []).map (·.id)) w := by
  generalize hdef : sanitizeWorkerRequests taskId (some total) sources requests = restored at h ⊢
  simp only [sanitizeWorkerRequests] at hdef
  split at hdef
  · exact absurd hdef.symm h
  · rename_i rows last hloop
    split at hdef
    · exact absurd hdef.symm h
    · rename_i hlast
      obtain ⟨hrows, htiles, hall⟩ := sanitizeLoop_sound hpos ht hloop
      have hend : last = total := by
        by_contra hother
        exact hlast ⟨total, rfl, hpos, hother⟩
      subst hdef
      exact ⟨hrows, hend ▸ htiles, hall⟩

/-- Whatever rows are stored, the restore either rejects them all or hands back a layout in which
every row has its own bytes, in order and without a gap, from the first byte to the last. -/
theorem restored_layout_is_sound (taskId total : Nat) (sources : Option SourceSet)
    (requests : List SegmentRequest) (hpos : 0 < total) (ht : total < 2 ^ 64) :
    let restored := sanitizeWorkerRequests taskId (some total) sources requests
    restored = [] ∨ LayoutSound total sources requests restored := by
  intro restored
  have hperm := List.perm_insertionSort (fun a b : SegmentRequest => a.index ≤ b.index) requests
  by_cases hne : restored = []
  · exact .inl hne
  · obtain ⟨_, hnodup⟩ := sanitizeWorkerRequests_ne_nil hne
    obtain ⟨hrows, htiles, hall⟩ : restored = _ ∧ RowsTile 0 restored total ∧
        ∀ w ∈ restored, RowSound (((sources.map (·.sources)).getD []).map (·.id)) w :=
      sanitizeWorkerRequests_sound hpos ht hne
    apply Or.inr
    constructor
    case sorted =>
      have hsorted := List.pairwise_insertionSort
        (fun a b : SegmentRequest => a.index ≤ b.index) requests
      have hdistinct := (hperm.map (·.index)).nodup_iff.2 hnodup
      rw [hrows, List.pairwise_map]
      apply (hsorted.and (List.pairwise_map.1 hdistinct)).imp
      rintro a b ⟨hle, hne⟩
      exact Nat.lt_of_le_of_ne hle hne
    case tiles => exact htiles
    case rows => exact hall
    case sum =>
      have hle : 0 + (restored.map fun w => w.downloaded.getD 0).sum ≤ total := by
        apply htiles.sum_le
        apply List.forall₂_same.2
        intro w hw
        exact (hall w hw).count
      omega
    case same =>
      rw [hrows]
      exact hperm.map _

/-- The workers of a plan cover the payload whose size the row of the task has. -/
theorem buildRestorePlan_tiles {bundle : StoredBundle} (hsize : bundle.task.totalSize = some total)
    (hpos : 0 < total) (ht : total < 2 ^ 64)
    (hne : (buildRestorePlan codec view bundle).workers.getD [] ≠ []) :
    RowsTile 0 ((buildRestorePlan codec view bundle).workers.getD []) total := by
  simp only [buildRestorePlan, getD_of_nonempty, apply_ite TaskRequest.totalSize,
    apply_ite TaskRequest.sources, ite_self, dbTaskToRequest, hsize] at hne ⊢
  obtain ⟨hrestored, hne⟩ := ite_ne_right_iff.1 hne
  rw [if_pos hrestored]
  exact (sanitizeWorkerRequests_sound hpos ht hne).2.1

/-- Two rows stored in the wrong order and without their source. -/
def swappedRows : List SegmentRequest :=
  let row (index start downloaded : Nat) : SegmentRequest :=
    { id := some index, taskId := 1, index, sourceId := none, pieceStart := none, pieceEnd := none
      blockStart := none, blockEnd := none, start, endByte := start + 1, downloaded := some downloaded
      status := some "Running", updatedAt := none }
  [row 1 2 1, row 0 0 2]

def mainSource : SourceSet := .forSpec (.https "https://example.com/file.bin") none

theorem swapped_rows_are_restored :
    let restored := sanitizeWorkerRequests 1 (some 4) (some mainSource) swappedRows
    restored.map (·.index) = [0, 1] ∧
      (restored = [] ∨ LayoutSound 4 (some mainSource) swappedRows restored) :=
  ⟨by decide, restored_layout_is_sound 1 4 (some mainSource) swappedRows (by decide) (by decide)⟩

end Paradown
