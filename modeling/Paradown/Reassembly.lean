import Paradown.Download

namespace Paradown
set_option autoImplicit true

open Tiling

namespace Download

variable {d d' : Download}

theorem Covers.leaves {workers : List Nat} (h : d.Covers m workers) (hne : workers ≠ []) :
    d.Leaves store resource m.totalSize workers := by
  obtain ⟨ranges, htile, he⟩ := h hne
  intro byte hlt
  obtain ⟨range, hmem, hlow, hhigh⟩ := htile.covers (Nat.zero_le byte) hlt
  have hmem := List.mem_map_of_mem (f := some) hmem
  rw [← he] at hmem
  obtain ⟨i, hi, hrange⟩ := List.mem_map.1 hmem
  exact .inr ⟨i, hi, range, hrange, hlow, by omega⟩

/-- A worker that has completed has the bytes of its lane on disk. -/
theorem Settled.completed (h : d.Settled store m resource live) (hl : live ≤ i)
    (hi : d.runs[i]? = some t) (hdone : t.worker.status = .completed) (hlow : t.range.1 ≤ byte)
    (hhigh : byte ≤ t.range.2) : store.AgreesAt resource d.fs byte := by
  have hr := h.runs i t hl hi
  have hfull := hr.completed hdone
  change t.worker.downloadedSize = t.worker.endByte - t.worker.start + 1 at hfull
  change t.worker.start ≤ byte at hlow
  change byte ≤ t.worker.endByte at hhigh
  exact hr.holds.agrees hlow (by omega)

theorem Leaves.next {rest : List Nat} (h : d.Leaves store resource m.totalSize (j :: rest))
    (hs : d.Settled store m resource live) (hl : live ≤ j) (hj : d.runs[j]? = some t)
    (hdone : t.worker.status = .completed) : d.Leaves store resource m.totalSize rest := by
  intro byte hlt
  rcases h byte hlt with hb | ⟨i, hi, range, he, hlow, hhigh⟩
  · exact .inl hb
  · rcases List.mem_cons.1 hi with rfl | hi
    · rw [hj] at he
      obtain rfl := Option.some.inj he
      exact .inl (hs.completed hl hj hdone hlow hhigh)
    · exact .inr ⟨i, hi, range, he, hlow, hhigh⟩

theorem Genuine.recheck (h : d.Genuine store m resource) (checks : List (List Nat))
    (hd : d.discarding = none)
    (hs : ∀ live, d.Settled store m resource live → ∀ todo ∈ checks,
      (∀ i ∈ todo, live ≤ i) ∧ d.Leaves store resource m.totalSize todo) :
    ({ d with checks } : Download).Genuine store m resource := by
  obtain ⟨live, hs'⟩ := h.settled hd
  refine ⟨h.manifest, h.layout, h.served, h.table, fun _ => ⟨live, hs'.allocated, hs'.honest,
    hs'.bound, hs'.runs, hs'.listed, hs'.made, hs'.todo, hs'.calls, hs'.workerRows, hs live hs'⟩,
    fun stage hstage => ?_⟩
  cases hd.symm.trans hstage

/-- While a call is to finalise the download, the file is not being discarded. -/
theorem Genuine.checking {i : Nat} (h : d.Genuine store m resource) (hi : d.checks[i]? = some todo) :
    d.discarding = none := by
  cases hd : d.discarding with
  | none => rfl
  | some stage =>
    rw [(h.stages stage hd).checks] at hi
    cases hi

theorem Genuine.checkStart (h : d.Genuine store m resource)
    (hc : d.discarding = none ∧ d.listed ≠ []) :
    ({ d with checks := d.checks ++ [d.listed] } : Download).Genuine store m resource := by
  refine h.recheck _ hc.1 fun live hs todo ht => ?_
  rcases List.mem_append.1 ht with ht | ht
  · exact hs.checks todo ht
  · obtain rfl := List.mem_singleton.1 ht
    exact ⟨hs.listed.1, hs.listed.2.leaves hc.2⟩

theorem Genuine.checkStep (h : d.Genuine store m resource) (hz : d.checkStep i = some d') :
    d'.Genuine store m resource := by
  simp only [Download.checkStep, Option.bind_eq_bind, Option.bind_eq_some_iff] at hz
  obtain ⟨todo, hi, hz⟩ := hz
  split at hz
  · rename_i j rest
    obtain ⟨t, hj, hz⟩ := Option.bind_eq_some_iff.1 hz
    cases hz
    refine h.recheck _ (h.checking hi) fun live hs other ho => ?_
    split at ho
    · rcases List.mem_or_eq_of_mem_set ho with ho | rfl
      · exact hs.checks other ho
      · obtain ⟨hlive, hleaves⟩ := hs.checks _ (List.mem_of_getElem? hi)
        exact ⟨fun k hk => hlive k (List.mem_cons_of_mem j hk),
          hleaves.next hs (hlive j List.mem_cons_self) hj ‹_›⟩
    · exact hs.checks other (List.mem_of_mem_eraseIdx ho)
  · cases hz

theorem completedByte_lt {m : SessionManifest} (hk : m.KnownSize)
    (h : CompletedByte m.blocks states byte) : byte < m.totalSize := by
  obtain ⟨i, b, s, hi, _, _, _, hhigh⟩ := h
  obtain ⟨⟨_, hle⟩, _⟩ := hk.blocks_tile.inside b (List.mem_of_getElem? hi)
  exact Nat.lt_of_lt_of_le hhigh hle

theorem markAllPiecesCompleted_layout {t : Task} (hm : t.manifest = some m)
    (hl : LayoutMatches m.blocks t.blockStates) :
    LayoutMatches m.blocks t.markAllPiecesCompleted.blockStates := by
  simp only [Task.markAllPiecesCompleted, hm]
  rw [if_neg (not_not.2 hl.length)]
  exact markedAll_matches hl

theorem Genuine.mark (h : d.Genuine store m resource) (hd : d.discarding = none)
    (hl : LayoutMatches m.blocks d.task.markAllPiecesCompleted.blockStates)
    (hb : ∀ byte, CompletedByte m.blocks d.task.markAllPiecesCompleted.blockStates byte →
      store.AgreesAt resource d.fs byte) :
    ({ d with task := d.task.markAllPiecesCompleted } : Download).Genuine store m resource := by
  have hsame : d.task.markAllPiecesCompleted.manifest = some m ∧
      d.task.markAllPiecesCompleted.id = d.task.id := by
    simp only [Task.markAllPiecesCompleted, h.manifest, and_self]
  have hmaps : ∀ states ∈ maps { d with task := d.task.markAllPiecesCompleted },
      states = d.task.markAllPiecesCompleted.blockStates ∨ states ∈ d.maps := by
    intro states hst
    rcases mem_maps.1 hst with rfl | hst
    · exact .inl rfl
    · exact .inr (mem_maps.2 (.inr hst))
  obtain ⟨live, hs⟩ := h.settled hd
  refine ⟨hsame.1, fun states hst => ?_, h.served, ?_, fun _ => ⟨live, hs.allocated, ?_, hs.bound,
    hs.runs, hs.listed, hs.made, hs.todo, hs.calls, hs.workerRows, hs.checks⟩, fun stage hstage => ?_⟩
  · rcases hmaps states hst with rfl | hst
    · exact hl
    · exact h.layout states hst
  · rw [Download.table, hsame.2]
    exact h.table
  · intro states hst
    rcases hmaps states hst with rfl | hst
    · exact hb
    · exact hs.honest states hst
  · cases hd.symm.trans hstage

/-- When every worker that was listed has completed, all blocks may be marked. -/
theorem Genuine.finalize (h : d.Genuine store m resource) (hk : m.KnownSize)
    (hz : d.finalize i verified = some d') : d'.Genuine store m resource := by
  simp only [Download.finalize, Option.bind_eq_bind, Option.bind_eq_some_iff] at hz
  obtain ⟨todo, hi, hz⟩ := hz
  split at hz
  · rename_i hempty
    obtain rfl := List.isEmpty_iff.1 hempty
    have hd := h.checking hi
    have hrest := h.recheck (d.checks.eraseIdx i) hd fun live hs todo ht =>
      hs.checks todo (List.mem_of_mem_eraseIdx ht)
    obtain ⟨live, hs⟩ := h.settled hd
    have hall : ∀ byte < m.totalSize, store.AgreesAt resource d.fs byte := by
      intro byte hlt
      rcases (hs.checks [] (List.mem_of_getElem? hi)).2 byte hlt with hb | ⟨j, hj, _⟩
      · exact hb
      · cases hj
    cases hz
    cases verified with
    | false => exact hrest
    | true =>
      have hold := h.layout _ (mem_maps.2 (.inl rfl))
      exact hrest.mark hd (markAllPiecesCompleted_layout h.manifest hold)
        fun byte hb => hall byte (completedByte_lt hk hb)
  · cases hz

theorem Genuine.respawn {lane i : Nat} (h : d.Genuine store m resource) (hd : d.discarding = none)
    (hl : d.listed[lane]? = some i) (hi : d.runs[i]? = some t) :
    ({ d with runs := d.runs.set i t.worker.spawn } : Download).Genuine store m resource := by
  obtain ⟨live, hs⟩ := h.settled hd
  have hr := hs.runs i t (hs.listed.1 i (List.mem_of_getElem? hl)) hi
  have hspawn : (t.worker.spawn.on d.fs).Ranged store resource :=
    ⟨⟨hs.allocated, hr.holds.lane, hr.holds.count, hr.holds.bytes⟩, trivial, hr.completed⟩
  have hrange : t.worker.spawn.range = t.range := rfl
  have hsame := getElem?_set_range hi hrange
  refine ⟨h.manifest, h.layout, fun u hu => ?_, ?_, fun _ => ⟨live, ?_⟩, fun stage hstage => ?_⟩
  · rcases List.mem_or_eq_of_mem_set hu with hu | rfl
    · exact h.served u hu
    · exact ⟨d.fs, hspawn⟩
  · have hlane : t.Counted := h.table.lanes _ (List.mem_map_of_mem (List.mem_of_getElem? hi))
    rw [table_set t.worker.spawn d.fs]
    apply h.table.setLane (table_lane hi)
    · exact LaneRun.idle_counted hlane.completed d.task.id .empty
    · intro call hcall hl downloaded hread hold
      exact hold
  · constructor
    case allocated => exact hs.allocated
    case honest => exact hs.honest
    case bound => exact hs.bound.trans (Nat.le_of_eq (List.length_set ..).symm)
    case runs =>
      intro j u hj hu
      simp only [List.getElem?_set] at hu
      split at hu
      · split at hu
        · cases hu
          exact hspawn
        · cases hu
      · exact hs.runs j u hj hu
    case listed => exact ⟨hs.listed.1, hs.listed.2.congr fun j _ => hsame j⟩
    case made => exact ⟨hs.made.1, hs.made.2.congr fun j _ => hsame j⟩
    case todo => exact hs.todo
    case calls =>
      intro call hcall
      obtain ⟨hlive, range, he, hread⟩ := hs.calls call hcall
      exact ⟨hlive, range, (hsame call.lane).trans he, hread⟩
    case workerRows => exact hs.workerRows
    case checks =>
      intro todo ht
      obtain ⟨hlive, hleaves⟩ := hs.checks todo ht
      exact ⟨hlive, hleaves.mono (fun byte hb => hb) fun j range he => (hsame j).trans he⟩
  · cases hd.symm.trans hstage

/-- A change of the lists of workers to others that divide the payload. -/
theorem Genuine.relist {listed made : List Nat} (h : d.Genuine store m resource)
    (hd : d.discarding = none) (hl : listed = [] ∨ listed = d.listed ∨ listed = d.made)
    (hm : made = [] ∨ made = d.made) :
    ({ d with listed, made } : Download).Genuine store m resource := by
  obtain ⟨live, hs⟩ := h.settled hd
  have hnil : (∀ i ∈ ([] : List Nat), live ≤ i) ∧ d.Covers m [] := by
    refine ⟨fun i hi => ?_, Covers.nil d m⟩
    cases hi
  refine ⟨h.manifest, h.layout, h.served, h.table, fun _ => ⟨live, hs.allocated, hs.honest, hs.bound,
    hs.runs, ?_, ?_, hs.todo, hs.calls, hs.workerRows, hs.checks⟩, fun stage hstage => ?_⟩
  · rcases hl with rfl | rfl | rfl
    · exact hnil
    · exact hs.listed
    · exact hs.made
  · rcases hm with rfl | rfl
    · exact hnil
    · exact hs.made
  · cases hd.symm.trans hstage

theorem map_range'_range (runs ts : List Transfer) :
    (List.range' runs.length ts.length).map (fun i => ((runs ++ ts)[i]?).map Transfer.range) =
      (ts.map Transfer.range).map some := by
  apply List.ext_getElem?
  intro k
  simp only [List.getElem?_map]
  by_cases hk : k < ts.length
  · rw [List.getElem?_range' hk, Option.map_some, Nat.one_mul,
      List.getElem?_append_right (Nat.le_add_right _ _), Nat.add_sub_cancel_left,
      List.getElem?_eq_getElem hk]
    rfl
  · rw [List.getElem?_eq_none (by rw [List.length_range']; omega),
      List.getElem?_eq_none (Nat.not_lt.1 hk)]
    rfl

theorem createWorkers_onLane {t : Task} (hk : m.KnownSize) (hle : m.pieces.length ≤ 2 ^ 32)
    (hm : t.manifest = some m) (hl : LayoutMatches m.blocks t.blockStates)
    (h : t.createWorkers now = .ok workers) (hne : workers ≠ []) :
    ∃ lanes, LanesTile 0 lanes m.totalSize ∧
      List.Forall₂ (fun lane w => w.OnLane lane ∧ lane.lengthKnown = true ∧ w.status = .pending ∧
        SeedExact m t.blockStates lane w.downloadedSize) lanes workers := by
  obtain ⟨lanes, hplan, hall⟩ := Task.createWorkers_ok hm h
  obtain ⟨hseeds, _⟩ := hk.seedsExactly hle _ _ _ lanes hplan
  have hsome : m.totalSize ≠ 0 ∧ m.sources.activeTransferSources ≠ [] := by
    by_contra hno
    rw [Task.planLanesOf, hk.plan_nil (by tauto)] at hplan
    cases hplan
    exact hne (List.forall₂_nil_left_iff.1 hall)
  have hchain := (hk.planned (Nat.pos_of_ne_zero hsome.1)).laneChain hsome.2 hplan
  refine ⟨lanes, hchain.tiles, List.forall₂_iff_get.2 ⟨hall.length_eq, fun i hi hi' => ?_⟩⟩
  have hmem := List.getElem_mem hi
  have hw := (List.forall₂_iff_get.1 hall).2 i hi hi'
  simp only [List.get_eq_getElem] at hw ⊢
  obtain ⟨source, he⟩ := Task.createWorker_eq_ok hw
  rw [he]
  exact ⟨⟨rfl, rfl, rfl⟩, hchain.known _ hmem, rfl, hseeds _ hl _ hmem⟩

/-- New workers have the blocks that are recorded as completed, and divide the payload. -/
theorem createWorkers_ranged {t : Task} {fs : FileSystem} (hk : m.KnownSize)
    (hle : m.pieces.length ≤ 2 ^ 32) (ht : store.totalSize = m.totalSize) (hm : t.manifest = some m)
    (hl : LayoutMatches m.blocks t.blockStates) (ha : Allocated fs store.segments)
    (hb : ∀ byte, CompletedByte m.blocks t.blockStates byte → store.AgreesAt resource fs byte)
    (h : t.createWorkers now = .ok workers) :
    (∀ w ∈ workers, w.status = .pending ∧ (w.spawn.on fs).Ranged store resource) ∧
      (workers ≠ [] → Tiled Prod.fst (fun range => range.2 + 1 - range.1) 0
        ((workers.map Worker.spawn).map Transfer.range) m.totalSize) := by
  constructor
  · intro w hwm
    obtain ⟨lanes, htile, hall⟩ := createWorkers_onLane hk hle hm hl h (List.ne_nil_of_mem hwm)
    obtain ⟨lane, hlm, ⟨hstart, hend, hknown⟩, hlane, hstatus, hseed⟩ := exists_of_forall₂ hall hwm
    obtain ⟨⟨_, hlast⟩, hpos⟩ := htile.inside lane hlm
    have hwithin := hseed.within
    dsimp only at hlast hpos
    refine ⟨hstatus, ⟨⟨ha, ⟨hknown.trans hlane, ?_, ?_⟩, ?_, window_eq_iff.2 ?_⟩, trivial, ?_⟩⟩
    · change w.start ≤ w.endByte
      omega
    · change w.endByte < _
      omega
    · change w.downloadedSize ≤ w.endByte - w.start + 1
      omega
    · intro byte hlow hhigh
      change w.start ≤ byte at hlow
      change byte < w.start + w.downloadedSize at hhigh
      exact hb byte (hseed.completed byte (by omega) (by omega))
    · intro hdone
      cases hstatus.symm.trans hdone
  · intro hne
    obtain ⟨lanes, htile, hall⟩ := createWorkers_onLane hk hle hm hl h hne
    have hranges : lanes.map (fun lane => (lane.start, lane.endByte)) =
        (workers.map Worker.spawn).map Transfer.range := by
      rw [List.map_map, ← List.forall₂_eq_eq_eq, List.forall₂_map_left_iff,
        List.forall₂_map_right_iff]
      refine hall.imp fun lane w hw => ?_
      obtain ⟨⟨hstart, hend, _⟩, _⟩ := hw
      exact Prod.ext hstart.symm hend.symm
    rw [← hranges, tiled_map]
    exact htile

theorem Settled.createWorkers {task : Task} {ts : List Transfer}
    (h : d.Settled store m resource live) (hb : task.blockStates = d.task.blockStates)
    (hnew : ∀ t ∈ ts, (t.on d.fs).Ranged store resource)
    (htiles : ts ≠ [] → Tiled Prod.fst (fun range => range.2 + 1 - range.1) 0
      (ts.map Transfer.range) m.totalSize) :
    ({ d with task, runs := d.runs ++ ts, made := List.range' d.runs.length ts.length } :
      Download).Settled store m resource live := by
  have hmaps : Download.maps { d with
      task, runs := d.runs ++ ts, made := List.range' d.runs.length ts.length } = d.maps := by
    simp only [maps, hb]
  have hsame : ∀ (i : Nat) range, (d.runs[i]?).map Transfer.range = some range →
      ((d.runs ++ ts)[i]?).map Transfer.range = some range := by
    intro i range he
    obtain ⟨t, hi, _⟩ := Option.map_eq_some_iff.1 he
    rw [List.getElem?_append_left (List.getElem?_eq_some_iff.1 hi).1]
    exact he
  constructor
  case allocated => exact h.allocated
  case honest => exact hmaps ▸ h.honest
  case bound =>
    rw [List.length_append]
    exact h.bound.trans (Nat.le_add_right _ _)
  case runs =>
    intro i t hi ht
    by_cases hlt : i < d.runs.length
    · rw [List.getElem?_append_left hlt] at ht
      exact h.runs i t hi ht
    · rw [List.getElem?_append_right (Nat.not_lt.1 hlt)] at ht
      exact hnew t (List.mem_of_getElem? ht)
  case listed =>
    refine ⟨h.listed.1, h.listed.2.congr fun i hi => ?_⟩
    obtain ⟨range, he⟩ := h.listed.2.range hi
    exact (hsame i range he).trans he.symm
  case made =>
    constructor
    · intro i hi
      exact h.bound.trans (List.mem_range'_1.1 hi).1
    · intro hne
      refine ⟨_, htiles ?_, map_range'_range d.runs ts⟩
      rintro rfl
      exact hne rfl
  case todo => exact h.todo
  case calls =>
    intro call hcall
    obtain ⟨hlive, range, he, hread⟩ := h.calls call hcall
    exact ⟨hlive, range, hsame call.lane range he, hread⟩
  case workerRows => exact h.workerRows
  case checks =>
    intro todo ht
    obtain ⟨hlive, hleaves⟩ := h.checks todo ht
    exact ⟨hlive, hleaves.mono (fun byte hb => hb) hsame⟩

theorem Genuine.createWorkers {task : Task} {workers : List Worker} (h : d.Genuine store m resource)
    (hk : m.KnownSize) (hle : m.pieces.length ≤ 2 ^ 32) (ht : store.totalSize = m.totalSize)
    (hd : d.discarding = none) (hm : task.manifest = some m) (hid : task.id = d.task.id)
    (hb : task.blockStates = d.task.blockStates) (hw : task.createWorkers now = .ok workers) :
    ({ d with
      task
      runs := d.runs ++ workers.map Worker.spawn
      made := List.range' d.runs.length workers.length } : Download).Genuine
        store m resource := by
  obtain ⟨live, hs⟩ := h.settled hd
  have hold : task.blockStates ∈ d.maps := mem_maps.2 (.inl hb)
  obtain ⟨hnew, htiles⟩ := createWorkers_ranged hk hle ht hm (h.layout _ hold) hs.allocated
    (hs.honest _ hold) hw
  have hspawn : ∀ t ∈ workers.map Worker.spawn, (t.on d.fs).Ranged store resource := by
    intro t hmem
    obtain ⟨w, hwm, rfl⟩ := List.mem_map.1 hmem
    exact (hnew w hwm).2
  have hlayout : ∀ states ∈ Download.maps { d with
      task
      runs := d.runs ++ workers.map Worker.spawn
      made := List.range' d.runs.length workers.length },
      LayoutMatches m.blocks states := by
    simp only [maps, hb]
    exact h.layout
  have hsettled := hs.createWorkers hb hspawn fun hne => htiles fun he => hne (congrArg _ he)
  rw [List.length_map] at hsettled
  refine ⟨hm, hlayout, fun u hu => ?_, ?_, fun _ => ⟨live, hsettled⟩, fun stage hstage => ?_⟩
  · rcases List.mem_append.1 hu with hu | hu
    · exact h.served u hu
    · exact ⟨d.fs, hspawn u hu⟩
  · have htable := h.table.create workers (fun w hwm => (hnew w hwm).1) d.task.id .empty
    have hlanes : (d.runs ++ workers.map Worker.spawn).map (LaneRun.mk task.id) =
        d.table.lanes ++ workers.map (LaneRun.idle d.task.id · .empty) := by
      rw [hid, List.map_append, List.map_map]
      rfl
    rw [Download.table, hlanes]
    exact htable
  · cases hd.symm.trans hstage

theorem Genuine.removeFile (h : d.Genuine store m resource) (path : String)
    (hc : d.syncs = [] ∧ d.saves = [] ∧ d.checks = [] ∧ d.calls = [] ∧ d.made = []) :
    ({ d with fs := d.fs.removeFile path, saved := false, discarding := some .removed } :
      Download).Genuine store m resource := by
  obtain ⟨hsyncs, hsaves, hchecks, hcalls, hmade⟩ := hc
  constructor
  case manifest => exact h.manifest
  case layout =>
    intro states hst
    rcases mem_maps.1 hst with rfl | hst | hst | ⟨hsaved, _⟩
    · exact h.layout _ (mem_maps.2 (.inl rfl))
    · exact h.layout _ (mem_maps.2 (.inr (.inl hst)))
    · exact h.layout _ (mem_maps.2 (.inr (.inr (.inl hst))))
    · cases hsaved
  case served => exact h.served
  case table => exact h.table
  case settled =>
    intro hd
    cases hd
  case stages =>
    intro stage hd
    cases hd
    exact ⟨hmade, hcalls, fun _ => hsyncs, fun _ => ⟨hsaves, rfl⟩, fun he => (by cases he),
      fun he => (by cases he), fun he => (by cases he), hchecks⟩

/-- The next statement of a discard leaves the runs and the files alone. -/
theorem Genuine.advance {task : Task} {listed : List Nat} {workerRows : List DBDownloadWorker}
    (h : d.Genuine store m resource) (hm : task.manifest = d.task.manifest)
    (hid : task.id = d.task.id)
    (hmaps : ∀ states ∈ maps { d with task }, LayoutMatches m.blocks states)
    (hrows : ∀ row ∈ workerRows, row ∈ d.workerRows)
    (hs : Discarding { d with task, listed, workerRows, discarding := some stage } stage) :
    ({ d with task, listed, workerRows, discarding := some stage } : Download).Genuine store m
      resource := by
  constructor
  case manifest => exact hm.trans h.manifest
  case layout => exact hmaps
  case served => exact h.served
  case table =>
    rw [Download.table, hid]
    exact ⟨h.table.lanes, h.table.calls, fun row hrow => h.table.rows row (hrows row hrow)⟩
  case settled =>
    intro hd
    cases hd
  case stages =>
    intro stage' hd
    cases hd
    exact hs

theorem resetBlockProgress_maps (h : d.Discarding .piecesReset) :
    maps { d with task := d.task.resetBlockProgress } = [d.task.resetBlockProgress.blockStates] := by
  obtain ⟨hsaves, hsaved⟩ := h.saves rfl
  simp [maps, h.syncs rfl, hsaves, hsaved]

/-- The prepared file holds nothing, and nothing is recorded of it. -/
theorem Discarding.settled (h : d.Discarding .rowsPurged) (hm : store.Flat) :
    ({ d with fs := store.prepare d.fs, discarding := none } : Download).Settled store m resource
      d.runs.length := by
  obtain ⟨hlisted, htodo⟩ := h.cleared rfl
  constructor
  case allocated => exact hm.prepare _
  case honest =>
    intro states hst byte hb
    exact absurd hb (not_completedByte (h.reset rfl states hst))
  case bound => exact Nat.le_refl _
  case runs =>
    intro i t hi ht
    have hlt := (List.getElem?_eq_some_iff.1 ht).1
    exact absurd hlt (Nat.not_lt.2 hi)
  case listed =>
    refine ⟨fun i hi => ?_, fun hne => absurd hlisted hne⟩
    rw [hlisted] at hi
    cases hi
  case made =>
    refine ⟨fun i hi => ?_, fun hne => absurd h.made hne⟩
    rw [h.made] at hi
    cases hi
  case todo =>
    intro s hs i hi
    rw [htodo s hs] at hi
    cases hi
  case calls =>
    intro call hcall
    rw [h.calls] at hcall
    cases hcall
  case workerRows =>
    intro row hrow
    rw [h.purged rfl] at hrow
    cases hrow
  case checks =>
    intro todo ht
    rw [h.checks] at ht
    cases ht

theorem Genuine.discardStep (h : d.Genuine store m resource) (hm : store.Flat)
    (hz : d.discardStep store = some d') : d'.Genuine store m resource := by
  obtain ⟨stage, hd, rfl⟩ := Option.map_eq_some_iff.1 hz
  have hs := h.stages stage hd
  cases stage with
  | removed =>
    exact h.advance rfl rfl h.layout (fun row hrow => hrow)
      ⟨hs.made, hs.calls, fun _ => hs.syncs rfl, fun _ => hs.saves rfl,
        fun he => (by cases he), fun he => (by cases he), fun he => (by cases he), hs.checks⟩
  | countReset =>
    exact h.advance rfl rfl h.layout (fun row hrow => hrow)
      ⟨hs.made, hs.calls, fun _ => hs.syncs rfl, fun _ => hs.saves rfl,
        fun he => (by cases he), fun he => (by cases he), fun he => (by cases he), hs.checks⟩
  | piecesReset =>
    have hmaps := resetBlockProgress_maps hs
    refine h.advance rfl rfl ?_ (fun row hrow => hrow)
      ⟨hs.made, hs.calls, fun _ => hs.syncs rfl, fun he => (by cases he), fun _ => ?_,
        fun he => (by cases he), fun he => (by cases he), hs.checks⟩
    · intro states hst
      rw [hmaps] at hst
      obtain rfl := List.mem_singleton.1 hst
      have hlayout := h.layout _ (mem_maps.2 (.inl rfl))
      rw [LayoutMatches] at hlayout ⊢
      rw [← hlayout, Task.resetBlockProgress, List.map_map]
      rfl
    · intro states hst
      have hst' : states ∈ maps { d with task := d.task.resetBlockProgress } := hst
      rw [hmaps] at hst'
      obtain rfl := List.mem_singleton.1 hst'
      exact noBlockCompleted_reset d.task.blockStates
  | blocksReset =>
    refine h.advance rfl rfl h.layout (fun row hrow => hrow)
      ⟨hs.made, hs.calls, fun he => (by cases he), fun he => (by cases he), fun _ => hs.reset rfl,
        fun _ => ⟨rfl, fun s hm => ?_⟩, fun he => (by cases he), hs.checks⟩
    have hm' : s ∈ d.syncs := hm
    rw [hs.syncs rfl] at hm'
    cases hm'
  | workersCleared =>
    exact h.advance rfl rfl h.layout (fun row hrow => by cases hrow)
      ⟨hs.made, hs.calls, fun he => (by cases he), fun he => (by cases he), fun _ => hs.reset rfl,
        fun _ => hs.cleared rfl, fun _ => rfl, hs.checks⟩
  | rowsPurged =>
    exact ⟨h.manifest, h.layout, h.served, h.table, fun _ => ⟨_, hs.settled hm⟩,
      fun stage he => by cases he⟩

theorem table_restore (config : Config) (now : Nat) (plan : RestorePlan) :
    (d.restore config now plan).table = d.table.restore config now d.fs plan := by
  simp only [table, restore, LaneTable.restore, List.map_map]
  rfl

theorem runs_restore (config : Config) (now : Nat) (plan : RestorePlan) :
    (d.restore config now plan).runs = (plan.workers.getD []).map fun w =>
      (restoredWorker (Task.new config now (plan.taskRequest.id.getD 1) plan.taskRequest) now
        w).spawn.on d.fs := by
  simp only [restore, LaneTable.restore, addTaskWithWorkers_eq, List.map_map]
  rfl

/-- A worker that comes back from its row holds what the row speaks of. -/
theorem restored_ranged {fs : FileSystem} {bundle : StoredBundle} {t : Task}
    (ha : Allocated fs store.segments) (ht : store.totalSize < 2 ^ 64)
    (hrows : ∀ row ∈ bundle.workers, row.Genuine store resource fs)
    (hcounted : ∀ row ∈ bundle.workers, row.Counted)
    (hw : w ∈ (buildRestorePlan codec view bundle).workers.getD []) (now : Nat) :
    ((restoredWorker t now w).spawn.on fs).Ranged store resource := by
  have hdone := restoredWorker_counted t now (restored_counted hcounted hw)
  obtain ⟨v, hv, total, known, single, seen, next, haccepted⟩ := mem_buildRestorePlan hw
  obtain ⟨source, _, _, rfl⟩ := haccepted.source
  obtain ⟨row, hrow, rfl⟩ := List.mem_map.1 hv
  obtain ⟨horder, hlast, hcount⟩ := hrows row hrow
  have hle : row.downloaded ≤ satAdd (row.endByte - row.start) 1 := haccepted.count
  rw [satAdd_of_lt (by omega)] at hle
  constructor
  case holds => exact ⟨ha, ⟨rfl, horder, hlast⟩, hle, window_eq_iff.2 hcount⟩
  case phase => trivial
  case completed =>
    intro hc
    have hfull : satAdd (row.endByte - row.start) 1 ≤ row.downloaded := hdone hc
    rw [satAdd_of_lt (by omega)] at hfull
    exact Nat.le_antisymm hle hfull

theorem restored_maps (codec : Codec) (view : FileView) (config : Config) (now : Nat)
    {bundle : StoredBundle} (h : d.Genuine store m resource) (hk : m.KnownSize)
    (hle : m.pieces.length ≤ 2 ^ 32) (hsaved : d.saved = true)
    (hb : bundle.blocks = blockStatesToDb taskId d.rows) :
    ∀ states ∈ maps (d.restore config now (buildRestorePlan codec view bundle)),
      states ∈ d.maps := by
  have hold : d.rows ∈ d.maps := mem_maps.2 (.inr (.inr (.inr ⟨hsaved, rfl⟩)))
  have hblocks : (buildRestorePlan codec view bundle).taskRequest.blockStates = some d.rows := by
    rw [(buildRestorePlan_request codec view bundle).2.2, dbTaskToRequest, hb,
      hk.dbBlocks_saved hle (h.layout _ hold)]
  generalize buildRestorePlan codec view bundle = plan at hblocks ⊢
  intro states hst
  rcases mem_maps.1 hst with rfl | ⟨s, hs, _⟩ | hst | ⟨_, rfl⟩
  · simp only [restore, hblocks, Option.getD_some]
    exact hold
  · cases hs
  · cases hst
  · exact hold

/-- The workers that come back divide the payload, since the plan rejects any others. -/
theorem restored_covers (codec : Codec) (view : FileView) (config : Config) (now : Nat)
    {fs : FileSystem} {bundle : StoredBundle} (hk : m.KnownSize)
    (ht : store.totalSize = m.totalSize) (hsize : bundle.task.totalSize = some m.totalSize)
    (hrows : ∀ row ∈ bundle.workers, row.Genuine store resource fs) :
    (d.restore config now (buildRestorePlan codec view bundle)).Covers m
      (d.restore config now (buildRestorePlan codec view bundle)).listed := by
  have hruns := runs_restore (d := d) config now (buildRestorePlan codec view bundle)
  have hlisted : (d.restore config now (buildRestorePlan codec view bundle)).listed =
      List.range' 0 (d.restore config now (buildRestorePlan codec view bundle)).runs.length := by
    simp only [restore, List.length_map]
  have hranges : (d.restore config now (buildRestorePlan codec view bundle)).runs.map
      Transfer.range = ((buildRestorePlan codec view bundle).workers.getD []).map fun w =>
        (w.start, w.endByte) := by
    rw [hruns, List.map_map]
    rfl
  intro hne
  have hworkers : (buildRestorePlan codec view bundle).workers.getD [] ≠ [] := by
    intro he
    apply hne
    rw [hlisted, hruns, he]
    rfl
  obtain ⟨w, hw⟩ := List.exists_mem_of_ne_nil _ hworkers
  obtain ⟨v, hv, _⟩ := mem_buildRestorePlan hw
  obtain ⟨row, hrow, _⟩ := List.mem_map.1 hv
  have hpos : 0 < m.totalSize := ht ▸ Nat.zero_lt_of_lt (hrows row hrow).last
  refine ⟨_, ?_, hlisted ▸ map_range'_range [] _⟩
  rw [hranges, tiled_map]
  exact buildRestorePlan_tiles hsize hpos hk.size hworkers

theorem Genuine.restored {plan : RestorePlan} (h : d.Genuine store m resource)
    (hd : d.discarding = none)
    (hmaps : ∀ states ∈ maps (d.restore config now plan), states ∈ d.maps)
    (hruns : ∀ t ∈ (d.restore config now plan).runs, (t.on d.fs).Ranged store resource)
    (htable : (d.table.restore config now d.fs plan).Counted)
    (hcovers : (d.restore config now plan).Covers m (d.restore config now plan).listed) :
    (d.restore config now plan).Genuine store m resource := by
  obtain ⟨live, hs⟩ := h.settled hd
  refine ⟨h.manifest, fun states hst => h.layout states (hmaps states hst),
    fun t hmem => ⟨d.fs, hruns t hmem⟩, ?_, fun _ => ⟨0, ?_⟩, fun stage he => by cases he⟩
  · rw [table_restore]
    exact htable
  · constructor
    case allocated => exact hs.allocated
    case honest => exact fun states hst => hs.honest states (hmaps states hst)
    case bound => exact Nat.zero_le _
    case runs => exact fun i t _ hi => hruns t (List.mem_of_getElem? hi)
    case listed => exact ⟨fun i _ => Nat.zero_le i, hcovers⟩
    case made => exact ⟨fun i _ => Nat.zero_le i, Covers.nil _ m⟩
    case todo =>
      intro s hmem
      cases hmem
    case calls =>
      intro call hcall
      cases hcall
    case workerRows => exact hs.workerRows
    case checks =>
      intro todo hmem
      cases hmem

theorem Genuine.crash (h : d.Genuine store m resource) (hk : m.KnownSize)
    (hle : m.pieces.length ≤ 2 ^ 32) (ht : store.totalSize = m.totalSize)
    (hd : d.discarding = none) (hsaved : d.saved = true)
    (hrow : row.totalSize = some m.totalSize) :
    (d.restore config now (buildRestorePlan codec view
      (d.table.bundle row pieces (blockStatesToDb row.id d.rows) checksums))).Genuine store m
        resource := by
  obtain ⟨live, hs⟩ := h.settled hd
  generalize hbundle : d.table.bundle row pieces (blockStatesToDb row.id d.rows) checksums = bundle
  have hkept : ∀ row ∈ bundle.workers, row ∈ d.workerRows := by
    intro row hmem
    rw [← hbundle] at hmem
    exact List.mem_of_mem_filter hmem
  have hcounted : ∀ row ∈ bundle.workers, row.Counted :=
    fun row hmem => h.table.rows row (hkept row hmem)
  have hgenuine : ∀ row ∈ bundle.workers, row.Genuine store resource d.fs :=
    fun row hmem => hs.workerRows row (hkept row hmem)
  have hblocks : bundle.blocks = blockStatesToDb row.id d.rows := by
    rw [← hbundle]
    rfl
  have hsize : bundle.task.totalSize = some m.totalSize := by
    rw [← hbundle]
    exact hrow
  apply h.restored hd
  · exact restored_maps codec view config now h hk hle hsaved hblocks
  · intro t hmem
    rw [runs_restore] at hmem
    obtain ⟨w, hw, rfl⟩ := List.mem_map.1 hmem
    exact restored_ranged hs.allocated (ht ▸ hk.size) hgenuine hcounted hw now
  · exact h.table.restore config now d.fs fun w hw hc => restored_counted hcounted hw hc
  · exact restored_covers codec view config now hk ht hsize hgenuine

theorem Genuine.step (h : d.Genuine env.store m resource) (hm : env.store.Flat)
    (hk : m.KnownSize) (hle : m.pieces.length ≤ 2 ^ 32) (ht : env.store.totalSize = m.totalSize)
    (hc : d.Serves resource a) (hz : d.step env a = some d') : d'.Genuine env.store m resource := by
  cases a with
  | run i a =>
    simp only [Download.step, Option.bind_eq_bind, Option.bind_eq_some_iff] at hz
    obtain ⟨t, hi, t', hstep, hz⟩ := hz
    cases hz
    exact h.run hm hi hc hstep
  | syncStart => exact h.syncStart hc hz
  | syncStep i => exact h.syncStep hk hle ht hz
  | saveStart =>
    cases hz
    exact h.saveStart hc
  | saveEnd i =>
    simp only [Download.step, Option.bind_eq_bind, Option.bind_eq_some_iff] at hz
    obtain ⟨rows, hi, hz⟩ := hz
    cases hz
    exact h.saveEnd hi
  | checkStart =>
    cases hz
    exact h.checkStart hc
  | checkStep i => exact h.checkStep hz
  | finalize i verified => exact h.finalize hk hz
  | workersToDb workers =>
    cases hz
    exact h.workersToDb workers hc
  | readWorker k =>
    obtain ⟨s, hs, rfl⟩ := Option.map_eq_some_iff.1 hz
    exact h.readWorker hs
  | dropRows ids =>
    cases hz
    exact h.dropRows _
  | respawn lane =>
    simp only [Download.step, Option.bind_eq_bind, Option.bind_eq_some_iff] at hz
    obtain ⟨i, hl, t, hi, hz⟩ := hz
    split at hz
    · rename_i hguard
      cases hz
      rw [Bool.and_eq_true, Option.isNone_iff_eq_none] at hguard
      exact h.respawn hguard.2 hl hi
    · cases hz
  | clearWorkers =>
    simp only [Download.step] at hz
    split at hz
    · cases hz
      exact h.relist (Option.isNone_iff_eq_none.1 ‹_›) (.inl rfl) (.inr rfl)
    · cases hz
  | createWorkers now segments ranges runtime =>
    simp only [Download.step, Download.createWorkers] at hz
    split at hz
    · rename_i hguard
      rw [Bool.and_eq_true, Option.isNone_iff_eq_none] at hguard
      split at hz
      · cases hz
      · cases hz
        exact h.createWorkers hk hle ht hguard.1 h.manifest rfl rfl ‹_›
    · cases hz
  | listWorkers =>
    simp only [Download.step] at hz
    split at hz
    · cases hz
      refine h.relist (Option.isNone_iff_eq_none.1 ‹_›) (.inr ?_) (.inl rfl)
      exact (ite_eq_or_eq _ _ _).symm
    · cases hz
  | removeFile path =>
    simp only [Download.step] at hz
    split at hz
    · cases hz
      exact h.removeFile path hc
    · cases hz
  | discardStep => exact h.discardStep hm hz
  | crash codec config now row pieces checksums =>
    obtain rfl := Option.some.inj hz
    obtain ⟨hd, hsaved, hrow⟩ := hc
    exact h.crash hk hle ht hd hsaved (hrow m h.manifest)

/-- When every worker of the list has its whole lane, the payload is the resource. -/
theorem Settled.payload_eq (h : d.Settled store m resource live) (hm : store.Flat)
    (ht : store.totalSize = m.totalSize) (hlen : resource.length = m.totalSize)
    (hne : d.listed ≠ [])
    (hdone : ∀ i ∈ d.listed, ∀ t, d.runs[i]? = some t → t.worker.status = .completed) :
    store.payload d.fs = resource := by
  have hpl := hm.payload_length h.allocated
  apply List.ext_getElem?
  intro byte
  by_cases hlt : byte < m.totalSize
  · rcases h.listed.2.leaves hne byte hlt with hb | ⟨i, hi, range, he, hlow, hhigh⟩
    · exact hb
    · obtain ⟨t, hrun, rfl⟩ := Option.map_eq_some_iff.1 he
      exact h.completed (h.listed.1 i hi) hrun (hdone i hi t hrun) hlow hhigh
  · rw [List.getElem?_eq_none (by omega), List.getElem?_eq_none (by omega)]

end Download

instance (resource : List UInt8) (d : Download) :
    (a : DownloadAct) → Decidable (d.Serves resource a)
  | .run i .proceed => inferInstanceAs (Decidable (∀ t ∈ d.runs[i]?, t.phase = .succeeding →
    ∀ call ∈ d.calls, call.lane = i → ∀ downloaded ∈ call.reading.counter,
      t.worker.rangeLength ≤ downloaded))
  | .run i (.turn supports) =>
    inferInstanceAs (Decidable (∀ t ∈ d.runs[i]?, t.ServesRange resource (.turn supports)))
  | .run i (.respond r) =>
    inferInstanceAs (Decidable (∀ t ∈ d.runs[i]?, t.ServesRange resource (.respond r)))
  | .run _ .pause | .run _ .resume | .run _ .cancel | .run _ .delete | .run _ (.buildFails _)
  | .run _ (.sendFails _) | .run _ (.storeFails _ _) | .run _ (.writeFails _ _)
  | .run _ (.retry _) => isTrue fun _ _ => trivial
  | .syncStart | .workersToDb _ =>
    inferInstanceAs (Decidable (∀ stage ∈ d.discarding, stage.listCleared = true))
  | .saveStart => inferInstanceAs (Decidable (∀ stage ∈ d.discarding, stage.mapReset = true))
  | .checkStart => decidable_of_iff (d.discarding = none ∧ ¬ d.listed.isEmpty)
      (by simp [Download.Serves])
  | .removeFile _ =>
    decidable_of_iff (d.syncs.isEmpty ∧ d.saves.isEmpty ∧ d.checks.isEmpty ∧ d.calls.isEmpty ∧
      d.made.isEmpty) (by simp [Download.Serves])
  | .crash _ _ _ row _ _ => inferInstanceAs (Decidable (d.discarding = none ∧ d.saved = true ∧
    ∀ m ∈ d.task.manifest, row.totalSize = some m.totalSize))
  | .syncStep _ | .saveEnd _ | .checkStep _ | .finalize _ _ | .readWorker _ | .dropRows _ | .respawn _ | .clearWorkers
  | .createWorkers _ _ _ _ | .listWorkers | .discardStep => isTrue trivial

/-- A prepared download of four bytes. -/
def fourByteDownload : Download where
  task := { restoredTask (initializeBlockStates fourByteManifest.blocks) with
    manifest := some fourByteManifest }
  fs := fourByteStore.prepare .empty
  runs := []
  listed := []
  made := []
  syncs := []
  saves := []
  checks := []
  calls := []
  rows := initializeBlockStates fourByteManifest.blocks
  workerRows := []
  saved := true
  discarding := none

/-- The two workers of the first session take turns; one of them has its lane, the other has lost
its connection after a byte when the block map and the rows of both are stored and the process ends.
The second session goes on with the two and is finalised. -/
def twoSessions : List DownloadAct :=
  [.clearWorkers, .createWorkers 0 2 true (fun _ => {}), .listWorkers,
    .run 0 .proceed, .run 1 .proceed, .run 0 (.turn true), .run 1 (.turn true),
    .run 1 (.respond ⟨206, "206 Partial Content", some (some "bytes 2-3/4"), [[7]], some "reset"⟩),
    .syncStart, .run 0 (.respond ⟨206, "206 Partial Content", some (some "bytes 0-1/4"), [[1, 2]],
      none⟩), .syncStep 0,
    .run 1 .proceed, .run 0 .proceed, .run 0 .proceed, .syncStep 0, .run 1 .proceed, .syncStep 0,
    .syncStep 0, .saveStart, .syncStep 0, .saveEnd 0, .run 0 .proceed, .run 0 .proceed,
    .run 0 .proceed, .workersToDb [0, 1]] ++ List.replicate 12 (.readWorker 0) ++
  [.crash bareCodec ⟨"/downloads", 1, 1, .resume, {}⟩ 0 runningRow [] [],
    .run 0 .proceed, .run 1 .resume, .run 1 .proceed, .run 1 (.turn true),
    .run 1 (.respond ⟨206, "206 Partial Content", some (some "bytes 3-3/4"), [[8]], none⟩),
    .run 1 .proceed, .run 1 .proceed, .run 1 .proceed, .run 1 .proceed, .run 1 .proceed,
    .checkStart, .checkStep 0, .checkStep 0, .finalize 0 true]

end Paradown
