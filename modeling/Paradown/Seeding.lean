import Paradown.Sync
import Paradown.Workers

namespace Paradown
set_option autoImplicit true

open Tiling

theorem seedLoop_split {blocks : List PieceBlock} (h : BlocksTile base blocks total)
    (ht : n + (total - base) < 2 ^ 64) (states : List BlockState) :
    ∃ run rest, blocks = run ++ rest ∧ (∀ b ∈ run, blockCompleted states b = true) ∧
      (∀ b ∈ rest.head?, blockCompleted states b = false) ∧
      seedLoop states blocks n = n + (run.map PieceBlock.length).sum := by
  induction blocks generalizing base n with
  | nil =>
    refine ⟨[], [], rfl, ?_, ?_, rfl⟩
    · intro b hb
      cases hb
    · intro b hb
      cases hb
  | cons c cs ih =>
    by_cases hc : blockCompleted states c = true
    · have hle := h.2.2.le
      have hadd : satAdd n c.length = n + c.length := satAdd_of_lt (by omega)
      obtain ⟨run, rest, hsplit, hrun, hrest, hloop⟩ :=
        ih (n := n + c.length) h.2.2 (by omega)
      refine ⟨c :: run, rest, by rw [hsplit]; rfl, ?_, hrest, ?_⟩
      · intro b hb
        rcases List.mem_cons.1 hb with rfl | hb
        · exact hc
        · exact hrun b hb
      · rw [seedLoop, if_pos hc, hadd, hloop, List.map_cons, List.sum_cons, Nat.add_assoc]
    · refine ⟨[], c :: cs, rfl, ?_, ?_, ?_⟩
      · intro b hb
        cases hb
      · intro b hb
        obtain rfl := Option.some.inj hb
        exact Bool.eq_false_iff.2 hc
      · rw [seedLoop, if_neg hc]
        rfl

/-- The seed of a lane made of whole blocks ends where its first incomplete block starts. -/
theorem seeded_split {before mid after : List PieceBlock} (hm : m.blocks = before ++ mid ++ after)
    (hbefore : BlocksTile 0 before lane.start) (hmid : BlocksTile lane.start mid (lane.endByte + 1))
    (hafter : BlocksTile (lane.endByte + 1) after total) (ht : total < 2 ^ 64)
    (states : List BlockState) :
    ∃ run rest, mid = run ++ rest ∧ (∀ b ∈ run, blockCompleted states b = true) ∧
      (∀ b ∈ rest.head?, blockCompleted states b = false) ∧
      BlocksTile lane.start run (lane.start + seededDownloadedFromBlockStates m states lane) ∧
      BlocksTile (lane.start + seededDownloadedFromBlockStates m states lane) rest
        (lane.endByte + 1) := by
  have hle := hafter.le
  have hinside : (m.blocks.filter fun b =>
      decide (lane.start ≤ b.offset) && decide (b.blockEnd ≤ lane.endByte)) = mid := by
    rw [hm]
    refine (List.filter_congr ?_).trans (hbefore.filter_inside hmid hafter)
    intro b hb
    obtain ⟨⟨_, hend⟩, hl⟩ := ((hbefore.append hmid).append hafter).inside b hb
    rw [← Bool.decide_and, decide_eq_decide, PieceBlock.blockEnd, satAdd_of_lt (by omega), Inside]
    omega
  obtain ⟨run, rest, hsplit, hrun, hrest, hloop⟩ := seedLoop_split (n := 0) hmid (by omega) states
  obtain ⟨stop, htiles, htiles'⟩ := (hsplit ▸ hmid).split
  have hsum := htiles.sum
  have hstop := htiles'.le
  have hseeded : lane.start + seededDownloadedFromBlockStates m states lane = stop := by
    simp only [seededDownloadedFromBlockStates, hinside, hloop]
    rw [satAdd_of_lt (by omega)]
    omega
  refine ⟨run, rest, hsplit, hrun, hrest, ?_, ?_⟩
  · rw [hseeded]
    exact htiles
  · rw [hseeded]
    exact htiles'

/-- The seed of a lane is the longest run of completed blocks from its first byte on. -/
structure SeedExact (m : SessionManifest) (states : List BlockState)
    (lane : ExecutionLaneAssignment) (seeded : Nat) : Prop where
  within : lane.start + seeded ≤ lane.endByte + 1
  completed : ∀ byte, lane.start ≤ byte → byte < lane.start + seeded →
    CompletedByte m.blocks states byte
  boundary : lane.start + seeded = lane.endByte + 1 ∨
    ∃ b ∈ m.blocks, b.offset = lane.start + seeded
  maximal : ∀ (i : Nat) (b : PieceBlock) (s : BlockState), m.blocks[i]? = some b →
    states[i]? = some s → b.offset = lane.start + seeded → b.offset ≤ lane.endByte →
      s.completed = false

/-- What a lane loses when its progress `counted` goes through the block map. -/
structure SeedClose (m : SessionManifest) (lane : ExecutionLaneAssignment) (counted seeded : Nat) :
    Prop where
  le : seeded ≤ counted
  close : ∀ b ∈ m.blocks, b.offset ≤ lane.start + counted →
    lane.start + counted < b.offset + b.length → counted - seeded < b.length
  full : counted = lane.endByte + 1 - lane.start → seeded = counted

/-- Seeding is exact for every block map and planned lane, and loses less than a block. -/
def SessionManifest.SeedsExactly (m : SessionManifest) : Prop :=
  ∀ (requestedWorkers : Nat) (allowParallel : Bool) (preferred : List String)
    (lanes : List ExecutionLaneAssignment),
    planExecutionLanesWithSourceOrder m requestedWorkers allowParallel preferred = some lanes →
    (∀ states, LayoutMatches m.blocks states → ∀ lane ∈ lanes,
      SeedExact m states lane (seededDownloadedFromBlockStates m states lane)) ∧
    ∀ t : Task, t.manifest = some m → LayoutMatches m.blocks t.blockStates →
      NoBlockCompleted t.blockStates → List.Forall₂ Worker.OnLane t.workers lanes →
      ∀ (i : Nat) (w : Worker) (lane : ExecutionLaneAssignment), t.workers[i]? = some w →
        lanes[i]? = some lane → SeedClose m lane w.counted
          (seededDownloadedFromBlockStates m t.syncPieceProgressFromWorkers.2.blockStates lane)

theorem SliceLane.blocks {m : SessionManifest} (h : m.KnownSize)
    (hm : m.pieces = before ++ xs ++ after) (hs : SliceLane m before xs after lane) :
    ∃ bs cs ds, m.blocks = bs ++ cs ++ ds ∧ BlocksTile 0 bs lane.start ∧
      BlocksTile lane.start cs (lane.endByte + 1) ∧
      BlocksTile (lane.endByte + 1) ds m.totalSize := by
  obtain ⟨_, blockSize, _, _, hb⟩ := h.layout
  have hsize := h.size
  have h1 := hs.middle.le
  have h2 := hs.last.le
  refine ⟨planPieceBlocks before blockSize, planPieceBlocks xs blockSize,
    planPieceBlocks after blockSize, ?_, ?_, ?_, ?_⟩
  · rw [hb, hm]
    simp only [planPieceBlocks_eq, List.flatMap_append]
  · exact planPieceBlocks_tiles hs.start (by omega) blockSize
  · exact planPieceBlocks_tiles hs.middle (by omega) blockSize
  · exact planPieceBlocks_tiles hs.last hsize blockSize

theorem SessionManifest.KnownSize.seedExact {m : SessionManifest} (h : m.KnownSize)
    (hle : m.pieces.length ≤ 2 ^ 32) (hm : m.blocks = before ++ mid ++ after)
    (hbefore : BlocksTile 0 before lane.start) (hmid : BlocksTile lane.start mid (lane.endByte + 1))
    (hafter : BlocksTile (lane.endByte + 1) after m.totalSize)
    (hlayout : LayoutMatches m.blocks states) :
    SeedExact m states lane (seededDownloadedFromBlockStates m states lane) := by
  have hkeys := h.keys_nodup_iff.2 hle
  obtain ⟨run, rest, hsplit, hrun, hrest, hfirst, hsecond⟩ :=
    seeded_split hm hbefore hmid hafter h.size states
  have hmem {b : PieceBlock} (hb : b ∈ mid) : b ∈ m.blocks := by
    rw [hm]
    exact List.mem_append_left _ (List.mem_append_right _ hb)
  constructor
  case within => exact hsecond.le
  case completed =>
    intro byte hlow hhigh
    obtain ⟨b, hb, h1, h2⟩ := hfirst.covers hlow hhigh
    obtain ⟨i, hi⟩ := List.mem_iff_getElem?.1 (hmem (hsplit ▸ List.mem_append_left _ hb))
    obtain ⟨s, hs⟩ := hlayout.state hi
    refine ⟨i, b, s, hi, hs, ?_, h1, h2⟩
    rw [← blockCompleted_of_nodup hkeys hlayout hi hs]
    exact hrun b hb
  case boundary =>
    cases rest with
    | nil => exact .inl hsecond
    | cons b bs =>
      refine .inr ⟨b, hmem ?_, hsecond.1⟩
      rw [hsplit]
      exact List.mem_append_right _ List.mem_cons_self
  case maximal =>
    intro i b s hi hs hoffset hinside
    cases rest with
    | nil =>
      have hend : lane.start + seededDownloadedFromBlockStates m states lane = lane.endByte + 1 :=
        hsecond
      omega
    | cons c cs =>
      have hc : c ∈ m.blocks := by
        apply hmem
        rw [hsplit]
        exact List.mem_append_right _ List.mem_cons_self
      have heq : b = c := by
        apply (h.blocks_tile.eq_iff (List.mem_of_getElem? hi) hc).1.1
        rw [hoffset, hsecond.1]
      rw [← blockCompleted_of_nodup hkeys hlayout hi hs, heq]
      exact hrest c rfl

theorem Worker.OnLane.counted_le {w : Worker} {lane : ExecutionLaneAssignment} (h : w.OnLane lane)
    (ho : lane.start ≤ lane.endByte) : w.start + w.counted ≤ lane.endByte + 1 := by
  obtain ⟨hstart, hend, _⟩ := h
  unfold Worker.counted Worker.expectedLength satAdd
  split <;> omega

theorem onLane_getElem? {lanes : List ExecutionLaneAssignment} {workers : List Worker} {j : Nat}
    (ht : LanesTile 0 lanes total) (hw : List.Forall₂ Worker.OnLane workers lanes)
    (hj : workers[j]? = some w) : ∃ lane, lanes[j]? = some lane ∧ w.OnLane lane ∧
      lane.start ≤ lane.endByte ∧ lane.endByte < total := by
  obtain ⟨hjl, rfl⟩ := List.getElem?_eq_some_iff.1 hj
  have hl : j < lanes.length := by
    rw [← hw.length_eq]
    exact hjl
  have hlane := List.getElem?_eq_getElem hl
  obtain ⟨⟨_, hend⟩, hpos⟩ := ht.inside _ (List.mem_of_getElem? hlane)
  dsimp only at hend hpos
  exact ⟨_, hlane, (List.forall₂_iff_get.1 hw).2 j hjl hl, by omega, by omega⟩

theorem onLane_same {lanes : List ExecutionLaneAssignment} {workers : List Worker} {i j : Nat}
    (ht : LanesTile 0 lanes total) (hw : List.Forall₂ Worker.OnLane workers lanes)
    (hi : lanes[i]? = some lane) (hj : workers[j]? = some w) (byte : Nat) (hlow : lane.start ≤ byte)
    (hhigh : byte < lane.endByte + 1) (hwlow : w.start ≤ byte)
    (hwhigh : byte < w.start + w.counted) : i = j := by
  obtain ⟨lane', hlane, hon, horder, _⟩ := onLane_getElem? ht hw hj
  have hle := hon.counted_le horder
  have hstart := hon.1
  apply ht.position_unique hi hlane hlow _ (by omega : lane'.start ≤ byte)
  all_goals omega

/-- What the workers of the lanes have counted comes back as their seeds, less a part of a block. -/
theorem SessionManifest.KnownSize.seedClose {m : SessionManifest} (h : m.KnownSize)
    (hle : m.pieces.length ≤ 2 ^ 32) {lanes : List ExecutionLaneAssignment} {t : Task} {i : Nat}
    (ht : LanesTile 0 lanes m.totalSize) (hm : t.manifest = some m)
    (hlayout : LayoutMatches m.blocks t.blockStates) (hnone : NoBlockCompleted t.blockStates)
    (hw : List.Forall₂ Worker.OnLane t.workers lanes) (hi : t.workers[i]? = some w)
    (hlane : lanes[i]? = some lane)
    (hlast : ∃ b ∈ m.blocks, b.offset + b.length = lane.endByte + 1)
    (hseed : SeedExact m t.syncPieceProgressFromWorkers.2.blockStates lane seeded) :
    SeedClose m lane w.counted seeded := by
  have hsync : SyncedExactly m t t.syncPieceProgressFromWorkers.2 := by
    apply h.syncsExactly hle t hm hlayout
    intro v hv
    obtain ⟨j, hj⟩ := List.mem_iff_getElem?.1 hv
    obtain ⟨lane', _, ⟨hstart, hend, _⟩, horder, hlt⟩ := onLane_getElem? ht hw hj
    exact ⟨by omega, by omega⟩
  have hcompleted {j : Nat} {b : PieceBlock} {s : BlockState} (hb : m.blocks[j]? = some b)
      (hs : t.syncPieceProgressFromWorkers.2.blockStates[j]? = some s) :
      s.completed = true ↔ CountedBy t.workers b := by
    obtain ⟨s₀, hs₀⟩ := hlayout.state hb
    rw [hsync.blocks j b s₀ s hb hs₀ hs, hnone s₀ (List.mem_of_getElem? hs₀)]
    simp only [Bool.false_eq_true, false_or]
  obtain ⟨lane', hlane', hon, horder, hlt⟩ := onLane_getElem? ht hw hi
  obtain rfl := Option.some.inj (hlane.symm.trans hlane')
  have hcounted := hon.counted_le horder
  have hstart := hon.1
  have hwithin := hseed.within
  have hwm := List.mem_of_getElem? hi
  have hle' : seeded ≤ w.counted := by
    by_contra hgt
    obtain ⟨j, b, s, hb, hs, hc, hlow, hhigh⟩ :=
      hseed.completed (lane.start + w.counted) (by omega) (by omega)
    obtain ⟨v, hv, h1, h2⟩ := (hcompleted hb hs).1 hc
    obtain ⟨k, hk⟩ := List.mem_iff_getElem?.1 hv
    -- the block reaches past the worker's own count, so another worker would have counted it
    obtain rfl := onLane_same ht hw hlane hk (lane.start + w.counted) (by omega) (by omega)
      (by omega) (by omega)
    obtain rfl := Option.some.inj (hi.symm.trans hk)
    omega
  have hnext : ∀ c ∈ m.blocks, c.offset = lane.start + seeded → c.offset ≤ lane.endByte →
      lane.start + w.counted < c.offset + c.length := by
    intro c hc hoffset hin
    obtain ⟨j, hj⟩ := List.mem_iff_getElem?.1 hc
    obtain ⟨s, hs⟩ := hsync.layout.state hj
    have hfalse := hseed.maximal j c s hj hs hoffset hin
    by_contra hge
    have hby : CountedBy t.workers c := ⟨w, hwm, by omega, by omega⟩
    rw [(hcompleted hj hs).2 hby] at hfalse
    cases hfalse
  constructor
  case le => exact hle'
  case close =>
    intro b hb hlow hhigh
    rcases hseed.boundary with hend | ⟨c, hc, hoffset⟩
    · omega
    · by_cases hin : c.offset ≤ lane.endByte
      · have hreach := hnext c hc hoffset hin
        obtain ⟨j, hj⟩ := List.mem_iff_getElem?.1 hb
        obtain ⟨k, hk⟩ := List.mem_iff_getElem?.1 hc
        obtain rfl := h.blocks_tile.position_unique (a := lane.start + w.counted) hj hk hlow hhigh
          (by omega) hreach
        obtain rfl := Option.some.inj (hj.symm.trans hk)
        omega
      · omega
  case full =>
    intro hfull
    rcases hseed.boundary with hend | ⟨c, hc, hoffset⟩
    · omega
    · by_cases hin : c.offset ≤ lane.endByte
      · have hreach := hnext c hc hoffset hin
        obtain ⟨b, hb, hend⟩ := hlast
        have hpos := (h.blocks_tile.inside b hb).2
        obtain ⟨j, hj⟩ := List.mem_iff_getElem?.1 hb
        obtain ⟨k, hk⟩ := List.mem_iff_getElem?.1 hc
        obtain rfl := h.blocks_tile.position_unique hj hk (by omega : b.offset ≤ lane.endByte)
          (by omega) hin (by omega)
        obtain rfl := Option.some.inj (hj.symm.trans hk)
        omega
      · omega

theorem SessionManifest.KnownSize.seedsExactly_of_nil {m : SessionManifest} (h : m.KnownSize)
    (hs : m.totalSize = 0 ∨ m.sources.activeTransferSources = []) : m.SeedsExactly := by
  intro requestedWorkers allowParallel preferred lanes hplan
  rw [h.plan_nil hs] at hplan
  cases hplan
  constructor
  · intro states _ lane hm
    cases hm
  · intro t _ _ _ _ i w lane _ hi
    cases hi

theorem SessionManifest.KnownSize.seedsExactly {m : SessionManifest} (h : m.KnownSize)
    (hle : m.pieces.length ≤ 2 ^ 32) : m.SeedsExactly := by
  by_cases hs : m.totalSize = 0 ∨ m.sources.activeTransferSources = []
  · exact h.seedsExactly_of_nil hs
  · intro requestedWorkers allowParallel preferred lanes hplan
    push Not at hs
    have hplanned := h.planned (Nat.pos_of_ne_zero hs.1)
    have hchain := hplanned.laneChain hs.2 hplan
    have hslice {lane : ExecutionLaneAssignment} (hm : lane ∈ lanes) :=
      h.lane_slice hle hplanned.pieces_ne_nil hs.2 hplan hm
    have hseed {states : List BlockState} {lane : ExecutionLaneAssignment}
        (hlayout : LayoutMatches m.blocks states) (hm : lane ∈ lanes) :
        SeedExact m states lane (seededDownloadedFromBlockStates m states lane) := by
      obtain ⟨before, xs, after, hpieces, hs⟩ := hslice hm
      obtain ⟨bs, cs, ds, hblocks, h1, h2, h3⟩ := hs.blocks h hpieces
      exact h.seedExact hle hblocks h1 h2 h3 hlayout
    constructor
    · intro states hlayout lane hm
      exact hseed hlayout hm
    · intro t hm hlayout hnone hw i w lane hi hlane
      have hlm := List.mem_of_getElem? hlane
      obtain ⟨_, _, _, _, hlaneSlice⟩ := hslice hlm
      apply h.seedClose hle hchain.tiles hm hlayout hnone hw hi hlane hlaneSlice.names.lastBlock
      apply hseed _ hlm
      rw [Task.sync_eq hm h.known hlayout]
      exact foldl_markWorkerBlocks_layoutMatches hlayout t.workers

theorem SessionManifest.KnownSize.not_seedsExactly {m : SessionManifest} (h : m.KnownSize)
    (hlarge : 2 ^ 32 < m.pieces.length) (hs : m.sources.activeTransferSources ≠ []) :
    ¬ m.SeedsExactly := by
  intro hall
  have hkeys : ¬ (m.blocks.map (·.key)).Nodup := by
    rw [h.keys_nodup_iff]
    omega
  obtain ⟨j, b, hb, hhidden⟩ := exists_hidden_block hkeys
  have hlayout := allBut_layoutMatches m.blocks j
  have hpos : 0 < m.totalSize := by
    obtain ⟨⟨_, h1⟩, h2⟩ := h.blocks_tile.inside b (List.mem_of_getElem? hb)
    omega
  obtain ⟨first, more, hr⟩ := rankedSources_cons hs []
  obtain ⟨lanes, hplan⟩ : ∃ lanes, planExecutionLanesWithSourceOrder m 1 false [] = some lanes :=
    ⟨_, plan_single (h.planned hpos).pieces_ne_nil hr⟩
  have hchain := (h.planned hpos).laneChain hs hplan
  obtain ⟨hexact, _⟩ := hall 1 false [] lanes hplan
  cases lanes with
  | nil => exact absurd hchain.1 Nat.zero_ne_one
  | cons lane rest =>
    have hlength := hchain.length
    obtain rfl : rest = [] := by
      rw [laneCount, if_neg Bool.false_ne_true, List.length_cons] at hlength
      exact List.eq_nil_of_length_eq_zero (by omega)
    have hstart : 0 = lane.start := hchain.1.start.symm
    have hend : lane.endByte + 1 = m.totalSize := hchain.2.2
    have htiles : BlocksTile lane.start m.blocks (lane.endByte + 1) := by
      rw [hend, ← hstart]
      exact h.blocks_tile
    have hblocks : m.blocks = [] ++ m.blocks ++ [] := by rw [List.append_nil, List.nil_append]
    obtain ⟨run, tail, hsplit, _, htail, _, hstop⟩ := seeded_split hblocks hstart htiles hend h.size
      (allBut m.blocks j)
    obtain rfl : tail = [] := by
      cases tail with
      | nil => rfl
      | cons c cs =>
        have hc := hhidden c (by rw [hsplit]; exact List.mem_append_right _ List.mem_cons_self)
        rw [htail c rfl] at hc
        cases hc
    have hseeded : lane.start + seededDownloadedFromBlockStates m (allBut m.blocks j) lane =
        lane.endByte + 1 := hstop
    obtain ⟨⟨_, hbend⟩, hl⟩ := h.blocks_tile.inside b (List.mem_of_getElem? hb)
    obtain ⟨i, c, s, hc, hs', hcompleted, hlow, hhigh⟩ :=
      (hexact (allBut m.blocks j) hlayout lane List.mem_cons_self).completed b.offset (by omega)
        (by omega)
    obtain rfl := h.blocks_tile.position_unique hc hb hlow hhigh (le_refl _) (by omega)
    rw [allBut_getElem? i hb, Option.some.injEq] at hs'
    rw [← hs'] at hcompleted
    simp at hcompleted

/-- Seeding is exact, for every block map and planned lane, exactly when 32 bits can number the
pieces or there is no source to plan lanes for. -/
theorem seeding_exact_iff (m : SessionManifest) (h : m.KnownSize) :
    m.SeedsExactly ↔ m.pieces.length ≤ 2 ^ 32 ∨ m.sources.activeTransferSources = [] := by
  constructor
  · intro hall
    by_contra hnot
    push Not at hnot
    exact h.not_seedsExactly hnot.1 hnot.2 hall
  · rintro (hle | hs)
    · exact h.seedsExactly hle
    · exact h.seedsExactly_of_nil (.inr hs)

theorem four_bytes_seed_exactly : fourByteManifest.SeedsExactly :=
  (seeding_exact_iff fourByteManifest (forSingleFile_knownSize (by decide))).2
    (.inl (by decide))

theorem huge_payload_seeds_inexactly :
    hugeManifest.KnownSize ∧ ¬ hugeManifest.SeedsExactly := by
  have h : hugeManifest.KnownSize := forSingleFile_knownSize (by decide)
  refine ⟨h, ?_⟩
  apply h.not_seedsExactly
  · rw [hugeManifest_pieces]
    decide
  · intro hnil
    cases hnil

end Paradown
