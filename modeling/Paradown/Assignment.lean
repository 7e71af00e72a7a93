import Paradown.Layout

namespace Paradown
set_option autoImplicit true

open Tiling

theorem sourceLe_iff : sourceLe preferred primaryId l r = true ↔
    let x := sourceRank l.id preferred primaryId
    let y := sourceRank r.id preferred primaryId
    x.1 < y.1 ∨ x.1 = y.1 ∧ (x.2 < y.2 ∨ x.2 = y.2 ∧ l.id ≤ r.id) := by
  simp only [sourceLe]
  split
  · rename_i h
    rw [decide_eq_true_eq]
    have hne := ne_of_apply_ne _ (bne_iff_ne.1 h)
    grind
  · rename_i h
    have heq := by simpa using h
    split
    · rename_i h'
      have hne := bne_iff_ne.1 h'
      rw [decide_eq_true_eq]
      grind
    · rename_i h'
      have heq' := by simpa using h'
      rw [decide_eq_true_eq]
      grind

theorem rankedSources_sorted (m : SessionManifest) (preferred : List String) :
    (rankedSources m preferred).Pairwise fun l r =>
      sourceLe preferred (m.sources.primary.map (·.id)) l r = true := by
  have htotal : Std.Total fun l r =>
      sourceLe preferred (m.sources.primary.map (·.id)) l r = true := by
    constructor
    intro l r
    rw [sourceLe_iff, sourceLe_iff]
    have hid := le_total l.id r.id
    grind
  have htrans : IsTrans SourceDescriptor fun l r =>
      sourceLe preferred (m.sources.primary.map (·.id)) l r = true := by
    constructor
    intro x y z hxy hyz
    rw [sourceLe_iff] at hxy hyz ⊢
    have hid (h1 : x.id ≤ y.id) (h2 : y.id ≤ z.id) := le_trans h1 h2
    grind
  exact List.pairwise_insertionSort _ _

/-- How many pieces a lane spans by its own account. -/
def ExecutionLaneAssignment.pieceSpan (lane : ExecutionLaneAssignment) : Nat :=
  lane.pieceEnd + 1 - lane.pieceStart

/-- The numbers of a lane name the first and the last piece and block of its bytes. -/
structure LaneNames (m : SessionManifest) (lane : ExecutionLaneAssignment) : Prop where
  known : lane.lengthKnown = true
  firstPiece : ∃ p, m.pieces[lane.pieceStart]? = some p ∧ p.pieceIndex = lane.pieceStart ∧
    p.offset = lane.start
  lastPiece : ∃ p, m.pieces[lane.pieceEnd]? = some p ∧ p.pieceIndex = lane.pieceEnd ∧
    p.offset + p.length = lane.endByte + 1
  pieces : ∀ p ∈ m.pieces, (lane.start ≤ p.offset ∧ p.offset + p.length ≤ lane.endByte + 1) ↔
    (lane.pieceStart ≤ p.pieceIndex ∧ p.pieceIndex ≤ lane.pieceEnd)
  pieceOrder : lane.pieceStart ≤ lane.pieceEnd
  firstBlock : ∃ b ∈ m.blocks, b.offset = lane.start
  lastBlock : ∃ b ∈ m.blocks, b.offset + b.length = lane.endByte + 1
  blockStart : ∀ b ∈ m.blocks, b.offset = lane.start ↔ b.key = (lane.pieceStart, lane.blockStart)
  blockEnd : ∀ b ∈ m.blocks, b.offset + b.length = lane.endByte + 1 ↔
    b.key = (lane.pieceEnd, lane.blockEnd)
  blockOrder : lane.blockStart ≤ lane.blockEnd

/-- The lanes divide the payload among the sources in turn, at piece boundaries and evenly. -/
structure LanePartition (m : SessionManifest) (ranked : List SourceDescriptor) (count : Nat)
    (lanes : List ExecutionLaneAssignment) : Prop where
  length : lanes.length = count
  laneId : ∀ i (lane : ExecutionLaneAssignment), lanes[i]? = some lane → lane.laneId = i
  tiles : LanesTile 0 lanes m.totalSize
  names : ∀ lane ∈ lanes, LaneNames m lane
  even : ∀ a ∈ lanes, ∀ b ∈ lanes, a.pieceSpan ≤ b.pieceSpan + 1
  source : ∀ i (lane : ExecutionLaneAssignment), lanes[i]? = some lane →
    ∃ source, ranked[i % ranked.length]? = some source ∧ lane.sourceId = source.id

/-- What a list of pieces in the middle of a manifest becomes. -/
structure SliceLane (m : SessionManifest) (before xs after : List PieceLayout)
    (lane : ExecutionLaneAssignment) : Prop where
  names : LaneNames m lane
  start : PiecesTile 0 before lane.start
  middle : PiecesTile lane.start xs (lane.endByte + 1)
  last : PiecesTile (lane.endByte + 1) after m.totalSize
  pieceStart : lane.pieceStart = before.length
  pieceEnd : lane.pieceEnd + 1 = before.length + xs.length

/-- The numbers of pieces are their positions while 32 bits can count them. -/
theorem SessionManifest.KnownSize.pieceIndex {m : SessionManifest} (h : m.KnownSize) {i : Nat}
    (hle : m.pieces.length ≤ 2 ^ 32) (hp : m.pieces[i]? = some p) : p.pieceIndex = i := by
  have hi := (List.getElem?_eq_some_iff.1 hp).1
  have hidx := congrArg (fun l => l[i]?) h.chain.index_eq
  simp only [List.getElem?_map, hp, List.getElem?_range' hi, Option.map_some,
    Option.some.injEq] at hidx
  rw [hidx, Nat.mod_eq_of_lt (by omega)]
  omega

theorem SessionManifest.KnownSize.find_blocks {m : SessionManifest} (h : m.KnownSize)
    (hle : m.pieces.length ≤ 2 ^ 32) (hp : p ∈ m.pieces) :
    (∃ b ∈ m.blocks, m.blocks.find? (·.pieceIndex == p.pieceIndex) = some b ∧
      b.key = (p.pieceIndex, 0) ∧ b.offset = p.offset) ∧
    ∃ b ∈ m.blocks, m.blocks.reverse.find? (·.pieceIndex == p.pieceIndex) = some b ∧
      b.pieceIndex = p.pieceIndex ∧ b.offset + b.length = p.offset + p.length := by
  obtain ⟨_, blockSize, _, _, hb⟩ := h.layout
  obtain ⟨⟨_, hend⟩, hl⟩ := h.pieces_tile.inside p hp
  have hsize := h.size
  have hfilter : m.blocks.filter (·.pieceIndex == p.pieceIndex) = pieceBlocks blockSize p := by
    rw [hb]
    exact planPieceBlocks_filter (h.chain.nodup_iff.2 hle) hp
  obtain ⟨first, rest, hpb, hkey, hoff⟩ := pieceBlocks_head hl (by omega) blockSize
  have hfirst : m.blocks.find? (·.pieceIndex == p.pieceIndex) = some first := by
    rw [← List.head?_filter, hfilter, hpb, List.head?_cons]
  obtain ⟨last, hlast⟩ : ∃ last, (pieceBlocks blockSize p).getLast? = some last := by
    rw [hpb]
    exact ⟨_, List.getLast?_eq_some_getLast (List.cons_ne_nil _ _)⟩
  have hrev : m.blocks.reverse.find? (·.pieceIndex == p.pieceIndex) = some last := by
    rw [← List.head?_filter, List.filter_reverse, hfilter, List.head?_reverse, hlast]
  refine ⟨⟨first, List.mem_of_find?_eq_some hfirst, hfirst, hkey, hoff⟩, ?_⟩
  refine ⟨last, List.mem_reverse.1 (List.mem_of_find?_eq_some hrev), hrev, ?_, ?_⟩
  · exact pieceBlocks_pieceIndex last (List.mem_of_getLast? hlast)
  · exact (pieceBlocks_tiles (by omega) blockSize).getLast hlast

theorem assignment_sliceLane {m : SessionManifest} (h : m.KnownSize)
    (hle : m.pieces.length ≤ 2 ^ 32) (hm : m.pieces = before ++ xs ++ after) (hne : xs ≠ [])
    (laneId : Nat) (sourceId : String) :
    ∃ lane, assignmentFromPieceSlice laneId sourceId xs m.blocks = some lane ∧
      lane.laneId = laneId ∧ lane.sourceId = sourceId ∧ SliceLane m before xs after lane := by
  obtain ⟨first, rest, rfl⟩ := List.exists_cons_of_ne_nil hne
  obtain ⟨last, hlast⟩ : ∃ last, (first :: rest).getLast? = some last :=
    ⟨_, List.getLast?_eq_some_getLast hne⟩
  have hfirstAt : m.pieces[before.length]? = some first := by
    rw [hm, List.append_assoc, List.getElem?_append_right (le_refl _), Nat.sub_self]
    rfl
  have hlastAt : m.pieces[before.length + rest.length]? = some last := by
    rw [hm, List.append_assoc, List.getElem?_append_right (by omega), Nat.add_sub_cancel_left,
      List.getElem?_append_left (by simp), ← hlast, List.getLast?_eq_getElem?]
    rfl
  have hfirstIdx := h.pieceIndex hle hfirstAt
  have hlastIdx := h.pieceIndex hle hlastAt
  have htiles := h.pieces_tile
  rw [hm] at htiles
  obtain ⟨b, hab, hb⟩ := htiles.split
  obtain ⟨a, ha, hmid⟩ := hab.split
  have hend := hmid.getLast hlast
  have hle' := hb.le
  have hsize := h.size
  have hlt : a < b := by
    have hr := hmid.2.2.le
    have hl := hmid.2.1
    omega
  have hsat : satAdd last.offset last.length - 1 + 1 = b := by
    rw [satAdd_of_lt (by omega), hend]
    omega
  obtain ⟨⟨fb, hfb, hfind, hfkey, hfoff⟩, _⟩ :=
    h.find_blocks hle (List.mem_of_getElem? hfirstAt)
  obtain ⟨_, lb, hlb, hrev, hlidx, hlend⟩ := h.find_blocks hle (List.mem_of_getElem? hlastAt)
  have hsame {c d : PieceBlock} (hc : c ∈ m.blocks) (hd : d ∈ m.blocks) : c.key = d.key ↔ c = d :=
    ⟨fun he => List.inj_on_of_nodup_map (h.keys_nodup_iff.2 hle) hc hd he, congrArg _⟩
  have hfidx : fb.blockIndex = 0 := congrArg Prod.snd hfkey
  obtain ⟨lane, hlane, hid, hsource, hknown, hps, hpe, hbs, hbe, hstart, hstop⟩ : ∃ lane,
      assignmentFromPieceSlice laneId sourceId (first :: rest) m.blocks = some lane ∧
        lane.laneId = laneId ∧ lane.sourceId = sourceId ∧ lane.lengthKnown = true ∧
        lane.pieceStart = before.length ∧ lane.pieceEnd = before.length + rest.length ∧
        lane.blockStart = 0 ∧ lane.blockEnd = lb.blockIndex ∧ lane.start = a ∧
        lane.endByte + 1 = b := by
    simp only [assignmentFromPieceSlice, List.head?_cons, hlast, hfind, hrev, Option.map_some,
      Option.getD_some, hfidx]
    exact ⟨_, rfl, rfl, rfl, rfl, hfirstIdx, hlastIdx, rfl, rfl, hmid.1, hsat⟩
  have hfoff' : fb.offset = lane.start := by rw [hfoff, hstart, hmid.1]
  have hlend' : lb.offset + lb.length = lane.endByte + 1 := by rw [hlend, hstop, hend]
  have hfkey' : fb.key = (lane.pieceStart, lane.blockStart) := by
    rw [hfkey, hfirstIdx, hps, hbs]
  have hlkey' : lb.key = (lane.pieceEnd, lane.blockEnd) := by
    rw [PieceBlock.key, hlidx, hlastIdx, hpe, hbe]
  refine ⟨lane, hlane, hid, hsource, ?_, hstart ▸ ha, ?_, ?_, hps, ?_⟩
  · constructor
    case known => exact hknown
    case firstPiece => exact ⟨first, hps ▸ hfirstAt, by rw [hfirstIdx, hps], by rw [hstart, hmid.1]⟩
    case lastPiece => exact ⟨last, hpe ▸ hlastAt, by rw [hlastIdx, hpe], by rw [hend, hstop]⟩
    case pieces =>
      intro p hp
      obtain ⟨i, hi⟩ := List.mem_iff_getElem?.1 hp
      have hlow := (h.pieces_tile.position_le_iff hfirstAt hi).1
      have hhigh := (h.pieces_tile.position_le_iff hi hlastAt).2
      rw [hmid.1] at hlow
      rw [h.pieceIndex hle hi, hps, hpe, hlow, hhigh, hstart, hstop, hend]
    case pieceOrder => omega
    case firstBlock => exact ⟨fb, hfb, hfoff'⟩
    case lastBlock => exact ⟨lb, hlb, hlend'⟩
    case blockStart =>
      intro c hc
      rw [← hfoff', ← hfkey', (h.blocks_tile.eq_iff hc hfb).1, hsame hc hfb]
    case blockEnd =>
      intro c hc
      rw [← hlend', ← hlkey', (h.blocks_tile.eq_iff hc hlb).2, hsame hc hlb]
    case blockOrder => omega
  · rw [hstart, hstop]
    exact hmid
  · rw [hstop]
    exact hb
  · rw [hpe, List.length_cons]
    omega

theorem getElem?_filterMap {f : Nat → Option β} {n i : Nat} (h : ∀ k < n, (f k).isSome) :
    ((List.range n).filterMap f)[i]? = if i < n then f i else none := by
  induction n with
  | zero => rfl
  | succ n ih =>
    have hlen : ((List.range n).filterMap f).length = n := by
      rw [List.length_filterMap_eq_countP, List.countP_eq_length.2, List.length_range]
      intro k hk
      exact h k (Nat.lt_succ_of_lt (List.mem_range.1 hk))
    have hlt : ∀ k < n, (f k).isSome := by
      intro k hk
      exact h k (Nat.lt_succ_of_lt hk)
    obtain ⟨y, hy⟩ := Option.isSome_iff_exists.1 (h n (Nat.lt_succ_self n))
    rw [List.range_succ, List.filterMap_append, List.filterMap_cons, hy]
    rcases Nat.lt_trichotomy i n with hi | rfl | hi
    · rw [List.getElem?_append_left (by omega), ih hlt, if_pos hi, if_pos (by omega)]
    · rw [List.getElem?_append_right (by omega), hlen, Nat.sub_self, if_pos (by omega), hy]
      rfl
    · rw [List.getElem?_append_right (by omega), if_neg (by omega), List.getElem?_eq_none]
      simp only [List.filterMap_nil, List.length_singleton]
      omega

theorem lanePieces_split (pieces : List PieceLayout) (count k : Nat) :
    pieces = pieces.take (k * pieces.length / count) ++ lanePieces pieces count k ++
      pieces.drop ((k + 1) * pieces.length / count) := by
  have hle : k * pieces.length / count ≤ (k + 1) * pieces.length / count :=
    Nat.div_le_div_right (Nat.mul_le_mul_right _ (Nat.le_succ k))
  have hd : (k + 1) * pieces.length / count = k * pieces.length / count +
      ((k + 1) * pieces.length / count - k * pieces.length / count) := by omega
  rw [List.append_assoc, lanePieces, hd, ← List.drop_drop, Nat.add_sub_cancel_left,
    List.take_append_drop, List.take_append_drop]

theorem share_even (hc : 0 < count) (n i j : Nat) :
    (i + 1) * n / count - i * n / count ≤ (j + 1) * n / count - j * n / count + 1 := by
  have hbound (k : Nat) : n / count ≤ (k + 1) * n / count - k * n / count ∧
      (k + 1) * n / count - k * n / count ≤ n / count + 1 := by
    rw [Nat.add_mul, Nat.one_mul, Nat.add_div hc]
    generalize k * n / count = share
    generalize n / count = least
    split <;> omega
  have hi := hbound i
  have hj := hbound j
  omega

theorem SessionManifest.KnownSize.planned {m : SessionManifest} (h : m.KnownSize)
    (hpos : 0 < m.totalSize) : m.Planned := by
  obtain ⟨pieceSize, blockSize, _, hp, hb⟩ := h.layout
  exact ⟨h.known, hpos, h.size, ⟨pieceSize, hp⟩, ⟨blockSize, hb⟩⟩

theorem parallel_lane {m : SessionManifest} (h : m.KnownSize) (hle : m.pieces.length ≤ 2 ^ 32)
    (hc : count ≤ m.pieces.length) (hk : k < count) (sourceId : String) :
    ∃ lane, assignmentFromPieceSlice (k % 2 ^ 32) sourceId (lanePieces m.pieces count k) m.blocks =
        some lane ∧ lane.laneId = k ∧ lane.sourceId = sourceId ∧
      SliceLane m (m.pieces.take (k * m.pieces.length / count)) (lanePieces m.pieces count k)
        (m.pieces.drop ((k + 1) * m.pieces.length / count)) lane ∧
      lane.pieceSpan = (k + 1) * m.pieces.length / count - k * m.pieces.length / count := by
  have hlt := share_lt (by omega) hc k
  have hlast : (k + 1) * m.pieces.length / count ≤ m.pieces.length := by
    apply Nat.div_le_of_le_mul
    exact Nat.mul_le_mul_right _ (by omega)
  have hlen : (lanePieces m.pieces count k).length =
      (k + 1) * m.pieces.length / count - k * m.pieces.length / count := by
    simp only [lanePieces, List.length_take, List.length_drop]
    omega
  have hne : lanePieces m.pieces count k ≠ [] := by
    apply List.ne_nil_of_length_pos
    omega
  obtain ⟨lane, hlane, hid, hsource, hslice⟩ :=
    assignment_sliceLane h hle (lanePieces_split m.pieces count k) hne (k % 2 ^ 32) sourceId
  refine ⟨lane, hlane, ?_, hsource, hslice, ?_⟩
  · rw [hid]
    exact Nat.mod_eq_of_lt (by omega)
  · have hend := hslice.pieceEnd
    rw [ExecutionLaneAssignment.pieceSpan, hend, hslice.pieceStart, hlen]
    omega

theorem plan_parallel_getElem? {m : SessionManifest} (h : m.KnownSize)
    (hle : m.pieces.length ≤ 2 ^ 32) (hne : m.pieces ≠ [])
    (hr : rankedSources m preferred = first :: rest)
    (hplan : planExecutionLanesWithSourceOrder m requestedWorkers true preferred = some lanes)
    {i : Nat} (hi : lanes[i]? = some lane) :
    let count := min (max requestedWorkers 1) m.pieces.length
    i < count ∧ lane.laneId = i ∧
      lane.sourceId = ((first :: rest).getD (i % (first :: rest).length) first).id ∧
      SliceLane m (m.pieces.take (i * m.pieces.length / count)) (lanePieces m.pieces count i)
        (m.pieces.drop ((i + 1) * m.pieces.length / count)) lane ∧
      lane.pieceSpan = (i + 1) * m.pieces.length / count - i * m.pieces.length / count := by
  intro count
  have hlane {k : Nat} (hk : k < count) := parallel_lane h hle (Nat.min_le_right _ _) hk
    ((first :: rest).getD (k % (first :: rest).length) first).id
  rw [((plan_parallel hne hr).1 hplan).2, getElem?_filterMap] at hi
  · split at hi
    · rename_i hk
      obtain ⟨lane', he, hrest⟩ := hlane hk
      obtain rfl := Option.some.inj (he.symm.trans hi)
      exact ⟨hk, hrest⟩
    · cases hi
  · intro k hk
    obtain ⟨lane', he, _⟩ := hlane hk
    exact Option.isSome_iff_exists.2 ⟨lane', he⟩

/-- Every lane of a plan is made of pieces that follow one another. -/
theorem SessionManifest.KnownSize.lane_slice {m : SessionManifest} (h : m.KnownSize)
    (hle : m.pieces.length ≤ 2 ^ 32) (hne : m.pieces ≠ [])
    (hs : m.sources.activeTransferSources ≠ [])
    (hplan : planExecutionLanesWithSourceOrder m requestedWorkers allowParallel preferred =
      some lanes) {lane : ExecutionLaneAssignment} (hm : lane ∈ lanes) :
    ∃ before xs after, m.pieces = before ++ xs ++ after ∧ SliceLane m before xs after lane := by
  obtain ⟨first, rest, hr⟩ := rankedSources_cons hs preferred
  cases allowParallel with
  | true =>
    obtain ⟨i, hi⟩ := List.mem_iff_getElem?.1 hm
    obtain ⟨_, _, _, hslice, _⟩ := plan_parallel_getElem? h hle hne hr hplan hi
    exact ⟨_, _, _, lanePieces_split _ _ i, hslice⟩
  | false =>
    have hall : m.pieces = [] ++ m.pieces ++ [] := by rw [List.append_nil, List.nil_append]
    obtain ⟨lane', he, _, _, hslice⟩ := assignment_sliceLane h hle hall hne 0 first.id
    rw [plan_single hne hr, he] at hplan
    obtain rfl := Option.some.inj hplan
    obtain rfl := List.mem_singleton.1 hm
    exact ⟨_, _, _, hall, hslice⟩

/-- In parallel mode the lanes divide the payload evenly among the ranked sources; otherwise one
lane has it all. -/
theorem lanes_partition_payload (spec : DownloadSpec) (sources : SourceSet)
    (fileName filePath : String) (totalSize pieceSize blockSize : Nat) (checksums : List Checksum)
    (hpos : 0 < totalSize) (hsize : totalSize < 2 ^ 64)
    (hpieces : (SessionManifest.forSingleFileWithPieceSize spec sources fileName filePath totalSize
      pieceSize blockSize checksums).pieces.length < 2 ^ 32)
    (hsources : sources.activeTransferSources ≠ []) (requestedWorkers : Nat)
    (preferred : List String) :
    let m := SessionManifest.forSingleFileWithPieceSize spec sources fileName filePath totalSize
      pieceSize blockSize checksums
    ∃ ranked, ranked.Perm sources.activeTransferSources ∧
      (ranked.Pairwise fun l r => sourceLe preferred (sources.primary.map (·.id)) l r = true) ∧
      (∃ lanes, planExecutionLanesWithSourceOrder m requestedWorkers true preferred = some lanes ∧
        LanePartition m ranked (min (max 1 requestedWorkers) m.pieces.length) lanes) ∧
      ∃ lane, planExecutionLanesWithSourceOrder m requestedWorkers false preferred = some [lane] ∧
        lane.start = 0 ∧ lane.endByte = totalSize - 1 ∧ LaneNames m lane := by
  intro m
  have h : m.KnownSize := forSingleFile_knownSize hsize
  have hplanned := h.planned hpos
  have hle : m.pieces.length ≤ 2 ^ 32 := hpieces.le
  have hne := hplanned.pieces_ne_nil
  obtain ⟨first, rest, hr⟩ := rankedSources_cons (m := m) hsources preferred
  refine ⟨rankedSources m preferred, rankedSources_perm m preferred,
    rankedSources_sorted m preferred, ?_, ?_⟩
  · have hfit : min (max requestedWorkers 1) m.pieces.length * m.pieces.length < 2 ^ 64 :=
      calc min (max requestedWorkers 1) m.pieces.length * m.pieces.length
          ≤ m.pieces.length * m.pieces.length := Nat.mul_le_mul_right _ (Nat.min_le_right _ _)
        _ < 2 ^ 32 * 2 ^ 32 := Nat.mul_lt_mul'' hpieces hpieces
    obtain ⟨lanes, hplan⟩ : ∃ lanes, planExecutionLanesWithSourceOrder m requestedWorkers true
        preferred = some lanes := ⟨_, (plan_parallel hne hr).2 ⟨hfit, rfl⟩⟩
    refine ⟨lanes, hplan, ?_⟩
    have hchain := hplanned.laneChain hsources hplan
    have hlength := hchain.length
    rw [laneCount, if_pos rfl, Nat.zero_add, max_comm] at hlength
    have hlane {i : Nat} {lane : ExecutionLaneAssignment} (hi : lanes[i]? = some lane) :=
      plan_parallel_getElem? h hle hne hr hplan hi
    constructor
    case length => exact hlength
    case laneId =>
      intro i lane hi
      exact (hlane hi).2.1
    case tiles => exact hchain.tiles
    case names =>
      intro lane hm
      obtain ⟨i, hi⟩ := List.mem_iff_getElem?.1 hm
      exact (hlane hi).2.2.2.1.names
    case even =>
      intro a ha b hb
      obtain ⟨i, hi⟩ := List.mem_iff_getElem?.1 ha
      obtain ⟨j, hj⟩ := List.mem_iff_getElem?.1 hb
      obtain ⟨hlt, _, _, _, hspan⟩ := hlane hi
      rw [hspan, (hlane hj).2.2.2.2]
      exact share_even (by omega) _ i j
    case source =>
      intro i lane hi
      have hlt : i % (first :: rest).length < (first :: rest).length :=
        Nat.mod_lt _ (Nat.zero_lt_succ _)
      refine ⟨(first :: rest)[i % (first :: rest).length], ?_, ?_⟩
      · rw [hr, List.getElem?_eq_getElem hlt]
      · rw [(hlane hi).2.2.1, List.getD_eq_getElem _ _ hlt]
  · have hall : m.pieces = [] ++ m.pieces ++ [] := by rw [List.append_nil, List.nil_append]
    obtain ⟨lane, he, _, _, hslice⟩ := assignment_sliceLane h hle hall hne 0 first.id
    have hstart : 0 = lane.start := hslice.start
    have hend : lane.endByte + 1 = totalSize := hslice.last
    refine ⟨lane, ?_, hstart.symm, by omega, hslice.names⟩
    rw [plan_single hne hr, he]
    rfl

theorem four_bytes_in_two_lanes : ∃ ranked lanes,
    planExecutionLanesWithSourceOrder fourByteManifest 2 true [] = some lanes ∧
      LanePartition fourByteManifest ranked 2 lanes := by
  let spec := DownloadSpec.https "https://example.com/file.bin"
  obtain ⟨ranked, _, _, ⟨lanes, hplan, hpartition⟩, _⟩ := lanes_partition_payload spec (.forSpec spec none)
    "file.bin" "/file.bin" 4 2 2 [] (by decide) (by decide) (by decide) (by decide) 2 []
  exact ⟨ranked, lanes, hplan, hpartition⟩

end Paradown
