import Paradown.Manifest
import Mathlib.Data.List.GetD

namespace Paradown
set_option autoImplicit true

/-- Pieces that follow one another from `base` to `total`, none of them empty, numbered from
`index` on as far as 32 bits count. -/
def PieceChain : Nat → Nat → List PieceLayout → Nat → Prop
  | _, base, [], total => base = total
  | index, base, piece :: rest, total => piece.pieceIndex = index % 2 ^ 32 ∧ piece.offset = base ∧
    0 < piece.length ∧ PieceChain (index + 1) (base + piece.length) rest total

theorem pieceLoop_chain (hs : 0 < pieceSize) (ho : offset ≤ total) (hf : total - offset ≤ fuel)
    (index : Nat) :
    PieceChain index offset (pieceLoop total pieceSize fuel (index % 2 ^ 32) offset) total := by
  induction fuel generalizing index offset with
  | zero =>
    simp only [pieceLoop, PieceChain]
    omega
  | succ fuel ih =>
    simp only [pieceLoop]
    split
    · have hindex : (index % 2 ^ 32 + 1) % 2 ^ 32 = (index + 1) % 2 ^ 32 := by omega
      rw [hindex]
      have hl : 0 < min (total - offset) pieceSize := by omega
      refine ⟨rfl, rfl, hl, ?_⟩
      have hn : offset + min (total - offset) pieceSize ≤ total := by omega
      exact ih hn (by omega) (index + 1)
    · simp only [PieceChain]
      omega

theorem planPieceLayouts_chain (total pieceSize : Nat) :
    PieceChain 0 0 (planPieceLayouts total pieceSize) total := by
  unfold planPieceLayouts
  split
  · rename_i h
    exact h.symm
  · exact pieceLoop_chain (by omega) (Nat.zero_le _) (Nat.sub_le _ _) 0

theorem PieceChain.append (h : PieceChain index base (xs ++ ys) total) :
    ∃ m, PieceChain index base xs m ∧ PieceChain (index + xs.length) m ys total := by
  induction xs generalizing index base with
  | nil => exact ⟨base, rfl, h⟩
  | cons p ps ih =>
    obtain ⟨hi, ho, hl, hr⟩ := h
    obtain ⟨m, hxs, hys⟩ := ih hr
    refine ⟨m, ⟨hi, ho, hl, hxs⟩, ?_⟩
    rw [List.length_cons, Nat.add_comm ps.length 1, ← Nat.add_assoc]
    exact hys

theorem PieceChain.le (h : PieceChain index base xs total) : base ≤ total := by
  induction xs generalizing index base with
  | nil => exact le_of_eq h
  | cons p ps ih =>
    have hle := ih h.2.2.2
    omega

theorem PieceChain.last {xs : List PieceLayout} {last : PieceLayout}
    (h : PieceChain index base xs total) (hl : xs.getLast? = some last) :
    last.offset + last.length = total ∧ last.pieceIndex = (index + xs.length - 1) % 2 ^ 32 ∧
      base ≤ last.offset ∧ 0 < last.length := by
  induction xs generalizing index base with
  | nil => cases hl
  | cons p ps ih =>
    obtain ⟨hi, ho, hp, hr⟩ := h
    cases ps with
    | nil =>
      simp only [List.getLast?_singleton, Option.some.injEq] at hl
      subst hl
      have ht : base + p.length = total := hr
      exact ⟨by omega, hi, by omega, hp⟩
    | cons q qs =>
      rw [List.getLast?_cons_cons] at hl
      obtain ⟨h1, h2, h3, h4⟩ := ih hr hl
      refine ⟨h1, ?_, by omega, h4⟩
      rw [h2]
      congr 1
      simp only [List.length_cons]
      omega

theorem blockLoop_head (h : blockLoop pieceIndex pieceEnd blockSize fuel blockIndex offset = b :: bs) :
    b.blockIndex = blockIndex := by
  cases fuel with
  | zero => cases h
  | succ fuel =>
    simp only [blockLoop] at h
    split at h
    · cases h
      rfl
    · cases h

theorem blockLoop_pieceIndex :
    ∀ b ∈ blockLoop pieceIndex pieceEnd blockSize fuel blockIndex offset,
      b.pieceIndex = pieceIndex := by
  induction fuel generalizing blockIndex offset with
  | zero => simp [blockLoop]
  | succ fuel ih =>
    intro b hb
    simp only [blockLoop] at hb
    split at hb
    · rcases List.mem_cons.1 hb with rfl | hb
      · rfl
      · exact ih b hb
    · cases hb

theorem blockLoop_find
    (h : (blockLoop pieceIndex pieceEnd blockSize fuel 0 offset).find? (·.pieceIndex == index) =
      some b) : b.blockIndex = 0 := by
  have hsame := @blockLoop_pieceIndex pieceIndex pieceEnd blockSize fuel 0 offset
  cases hb : blockLoop pieceIndex pieceEnd blockSize fuel 0 offset with
  | nil =>
    rw [hb] at h
    cases h
  | cons c cs =>
    rw [hb] at h hsame
    have hmem := hsame b (List.mem_of_find?_eq_some h)
    have hfound := List.find?_some h
    have hc : (c.pieceIndex == index) = true := by
      rw [hsame c List.mem_cons_self, ← hmem]
      exact hfound
    simp only [List.find?_cons, hc, Option.some.injEq] at h
    subst h
    exact blockLoop_head hb

theorem planPieceBlocks_find
    (h : (planPieceBlocks pieces blockSize).find? (·.pieceIndex == index) = some b) :
    b.blockIndex = 0 := by
  induction pieces with
  | nil => cases h
  | cons p ps ih =>
    simp only [planPieceBlocks, List.flatMap_cons, List.find?_append, Option.or_eq_some_iff] at h
    rcases h with h | ⟨_, h⟩
    · exact blockLoop_find h
    · exact ih h

/-- How many lanes the planner makes of `n` pieces. -/
def laneCount (requestedWorkers n : Nat) (allowParallel : Bool) : Nat :=
  if allowParallel then min (max requestedWorkers 1) n else 1

/-- Lane `k` of `count` over `n` pieces, from byte `base` on. -/
structure LaneOf (n count k base : Nat) (sources : List String) (lane : ExecutionLaneAssignment) :
    Prop where
  laneId : lane.laneId = k % 2 ^ 32
  source : lane.sourceId ∈ sources
  known : lane.lengthKnown = true
  start : lane.start = base
  order : base ≤ lane.endByte
  pieceStart : lane.pieceStart = k * n / count % 2 ^ 32
  pieceEnd : lane.pieceEnd = ((k + 1) * n / count - 1) % 2 ^ 32
  blocks : lane.blockStart ≤ lane.blockEnd

/-- The lanes from number `k` on, one after the other from `base` to `total`. -/
def LaneChain (n count : Nat) (sources : List String) :
    Nat → Nat → List ExecutionLaneAssignment → Nat → Prop
  | k, base, [], total => k = count ∧ base = total
  | k, base, lane :: rest, total => LaneOf n count k base sources lane ∧
    LaneChain n count sources (k + 1) (lane.endByte + 1) rest total

theorem LaneChain.length (h : LaneChain n count sources k base lanes total) :
    k + lanes.length = count := by
  induction lanes generalizing k base with
  | nil => exact h.1
  | cons l ls ih =>
    have hl := ih h.2
    rw [List.length_cons]
    omega

/-- Lane `i` of a plan. -/
theorem LaneChain.getElem (h : LaneChain n count sources k base lanes total)
    (hi : i < lanes.length) : ∃ b, LaneOf n count (k + i) b sources (lanes[i]) := by
  induction lanes generalizing k base i with
  | nil => cases hi
  | cons l ls ih =>
    cases i with
    | zero => exact ⟨base, h.1⟩
    | succ i =>
      obtain ⟨b, hb⟩ := ih h.2 (Nat.lt_of_succ_lt_succ hi)
      refine ⟨b, ?_⟩
      rw [Nat.add_assoc, Nat.add_comm 1 i] at hb
      exact hb

theorem assignment_of_chain {xs : List PieceLayout} (h : PieceChain index base xs m) (hne : xs ≠ [])
    (hm : m < 2 ^ 64) (laneId : Nat) (sourceId : String) (pieces : List PieceLayout)
    (blockSize : Nat) :
    ∃ lane, assignmentFromPieceSlice laneId sourceId xs (planPieceBlocks pieces blockSize) =
        some lane ∧ lane.laneId = laneId ∧ lane.sourceId = sourceId ∧ lane.lengthKnown = true ∧
      lane.start = base ∧ base ≤ lane.endByte ∧ lane.endByte + 1 = m ∧
      lane.pieceStart = index % 2 ^ 32 ∧ lane.pieceEnd = (index + xs.length - 1) % 2 ^ 32 ∧
      lane.blockStart ≤ lane.blockEnd := by
  obtain ⟨first, rest, rfl⟩ := List.exists_cons_of_ne_nil hne
  obtain ⟨last, hlast⟩ : ∃ last, (first :: rest).getLast? = some last :=
    ⟨_, List.getLast?_eq_some_getLast hne⟩
  obtain ⟨hend, hidx, hbase, hpos⟩ := h.last hlast
  obtain ⟨hi, ho, _, _⟩ := h
  have hsat : satAdd last.offset last.length = m := by
    rw [satAdd_of_lt (by omega), hend]
  simp only [assignmentFromPieceSlice, List.head?_cons, hlast]
  refine ⟨_, rfl, rfl, rfl, rfl, ho, ?_, ?_, hi, hidx, ?_⟩
  · simp only [hsat]
    omega
  · simp only [hsat]
    omega
  · have hzero : ((List.find? (fun b => b.pieceIndex == first.pieceIndex)
        (planPieceBlocks pieces blockSize)).map (·.blockIndex)).getD 0 = 0 := by
      cases hf : List.find? (fun b => b.pieceIndex == first.pieceIndex)
          (planPieceBlocks pieces blockSize) with
      | none => rfl
      | some b => exact planPieceBlocks_find hf
    simp only [hzero, Nat.zero_le]

theorem share_lt (hc : 0 < count) (hn : count ≤ n) (k : Nat) :
    k * n / count < (k + 1) * n / count := by
  have hle : k * n + count ≤ (k + 1) * n := by
    rw [Nat.add_mul, Nat.one_mul]
    omega
  calc k * n / count < (k * n + count) / count := by
        rw [Nat.add_div_right _ hc]
        exact Nat.lt_succ_self _
    _ ≤ (k + 1) * n / count := Nat.div_le_div_right hle

theorem laneChain_from {pieces : List PieceLayout} (hc : 0 < count) (hn : count ≤ pieces.length)
    (ht : total < 2 ^ 64) {source : Nat → String} (hs : ∀ k, source k ∈ sources)
    (planned : List PieceLayout) (blockSize : Nat) (hk : k + j = count)
    (h : PieceChain (k * pieces.length / count) base (pieces.drop (k * pieces.length / count)) total) :
    LaneChain pieces.length count sources k base
      ((List.range' k j).filterMap fun index =>
        assignmentFromPieceSlice (index % 2 ^ 32) (source index) (lanePieces pieces count index)
          (planPieceBlocks planned blockSize)) total := by
  induction j generalizing k base with
  | zero =>
    have hall : k * pieces.length / count = pieces.length := by
      rw [show k = count by omega]
      exact Nat.mul_div_cancel_left _ hc
    rw [hall, List.drop_length] at h
    exact ⟨by omega, h⟩
  | succ j ih =>
    have hlt := share_lt hc hn k
    have hle : (k + 1) * pieces.length / count ≤ pieces.length := by
      apply Nat.div_le_of_le_mul
      exact Nat.mul_le_mul_right _ (by omega)
    have hsplit : pieces.drop (k * pieces.length / count) = lanePieces pieces count k ++
        pieces.drop ((k + 1) * pieces.length / count) := by
      have hd : (k + 1) * pieces.length / count = k * pieces.length / count +
          ((k + 1) * pieces.length / count - k * pieces.length / count) := by omega
      nth_rewrite 1 [hd]
      rw [← List.drop_drop, lanePieces, List.take_append_drop]
    have hlen : (lanePieces pieces count k).length =
        (k + 1) * pieces.length / count - k * pieces.length / count := by
      simp only [lanePieces, List.length_take, List.length_drop]
      omega
    have hne : lanePieces pieces count k ≠ [] := by
      apply List.ne_nil_of_length_pos
      omega
    rw [hsplit] at h
    obtain ⟨m, hlane, hrest⟩ := h.append
    have hm : m < 2 ^ 64 := Nat.lt_of_le_of_lt hrest.le ht
    obtain ⟨lane, he, h1, h2, h3, h4, h5, h6, h7, h8, h9⟩ :=
      assignment_of_chain hlane hne hm (k % 2 ^ 32) (source k) planned blockSize
    have hnext : k * pieces.length / count + (lanePieces pieces count k).length =
        (k + 1) * pieces.length / count := by omega
    rw [hnext] at hrest h8
    rw [List.range'_succ, List.filterMap_cons, he]
    refine ⟨⟨h1, h2 ▸ hs k, h3, h4, h5, h7, h8, h9⟩, ?_⟩
    rw [h6]
    exact ih (by omega) hrest

/-- A manifest of known size, as its constructors plan the pieces and blocks. -/
structure SessionManifest.Planned (m : SessionManifest) : Prop where
  known : m.totalSizeKnown = true
  pos : 0 < m.totalSize
  size : m.totalSize < 2 ^ 64
  pieces : ∃ pieceSize, m.pieces = planPieceLayouts m.totalSize pieceSize
  blocks : ∃ blockSize, m.blocks = planPieceBlocks m.pieces blockSize

theorem forSingleFile_planned (hp : 0 < totalSize) (ht : totalSize < 2 ^ 64) :
    (SessionManifest.forSingleFileWithPieceSize spec sources fileName filePath totalSize pieceSize
      blockSize checksums).Planned :=
  ⟨rfl, hp, ht, ⟨_, rfl⟩, ⟨_, rfl⟩⟩

theorem SessionManifest.Planned.pieces_ne_nil {m : SessionManifest} (h : m.Planned) :
    m.pieces ≠ [] := by
  obtain ⟨pieceSize, hp⟩ := h.pieces
  intro he
  have hc := planPieceLayouts_chain m.totalSize pieceSize
  rw [← hp, he] at hc
  have hz : 0 = m.totalSize := hc
  exact absurd hz (Nat.ne_of_lt h.pos)

/-- The transfer sources in the order in which the planner hands them out. -/
def rankedSources (m : SessionManifest) (preferred : List String) : List SourceDescriptor :=
  m.sources.activeTransferSources.insertionSort fun l r =>
    sourceLe preferred (m.sources.primary.map (·.id)) l r = true

theorem rankedSources_perm (m : SessionManifest) (preferred : List String) :
    (rankedSources m preferred).Perm m.sources.activeTransferSources :=
  List.perm_insertionSort _ _

theorem rankedSources_cons {m : SessionManifest} (hs : m.sources.activeTransferSources ≠ [])
    (preferred : List String) : ∃ first rest, rankedSources m preferred = first :: rest := by
  apply List.exists_cons_of_ne_nil
  intro he
  have hperm := rankedSources_perm m preferred
  rw [he] at hperm
  exact hs hperm.nil_eq.symm

theorem mapM_of_some {xs : List α} {f : α → Option β} {g : α → β} (h : ∀ x ∈ xs, f x = some (g x)) :
    xs.mapM f = some (xs.map g) := by
  induction xs with
  | nil => rfl
  | cons x xs ih =>
    rw [List.mapM_cons, h x List.mem_cons_self,
      ih fun y hy => h y (List.mem_cons_of_mem x hy)]
    rfl

theorem mapM_of_none {xs : List α} {f : α → Option β} (hx : x ∈ xs) (h : f x = none) :
    xs.mapM f = none := by
  induction xs with
  | nil => cases hx
  | cons y ys ih =>
    rw [List.mapM_cons]
    rcases List.mem_cons.1 hx with rfl | hx
    · rw [h]
      rfl
    · rw [ih hx]
      cases f y <;> rfl

/-- The planner in parallel mode: one slice for each lane, sources in turn, as long as `usize` holds
the bounds. -/
theorem plan_parallel {m : SessionManifest} (hne : m.pieces ≠ [])
    (hr : rankedSources m preferred = first :: rest) :
    let count := min (max requestedWorkers 1) m.pieces.length
    planExecutionLanesWithSourceOrder m requestedWorkers true preferred = some lanes ↔
      count * m.pieces.length < 2 ^ 64 ∧
      lanes = (List.range count).filterMap fun index =>
        assignmentFromPieceSlice (index % 2 ^ 32)
          ((first :: rest).getD (index % (first :: rest).length) first).id
          (lanePieces m.pieces count index) m.blocks := by
  intro count
  have hpos : 0 < m.pieces.length := List.length_pos_iff.2 hne
  rw [rankedSources] at hr
  simp only [planExecutionLanesWithSourceOrder, List.isEmpty_eq_false_iff.2 hne, hr,
    Bool.false_eq_true, if_false, Bool.not_true]
  by_cases hfit : count * m.pieces.length < 2 ^ 64
  · have hslice (index : Nat) (hi : index ∈ List.range count) :
        laneSlice m.pieces count index = some (lanePieces m.pieces count index) := by
      have hle : (index + 1) * m.pieces.length ≤ count * m.pieces.length :=
        Nat.mul_le_mul_right _ (List.mem_range.1 hi)
      rw [laneSlice, if_pos (by omega)]
    rw [mapM_of_some fun index hi => by rw [hslice index hi, Option.map_some], Option.map_some,
      List.filterMap_map, Option.some.injEq]
    exact ⟨fun h => ⟨hfit, h.symm⟩, fun h => h.2.symm⟩
  · have hlast : laneSlice m.pieces count (count - 1) = none := by
      rw [laneSlice, if_neg]
      rw [Nat.sub_add_cancel (by omega)]
      exact hfit
    rw [mapM_of_none (List.mem_range.2 (by omega : count - 1 < count)) (by rw [hlast]; rfl)]
    exact ⟨fun h => (nomatch h), fun h => absurd h.1 hfit⟩

theorem plan_single {m : SessionManifest} (hne : m.pieces ≠ [])
    (hr : rankedSources m preferred = first :: rest) :
    planExecutionLanesWithSourceOrder m requestedWorkers false preferred =
      some (assignmentFromPieceSlice 0 first.id m.pieces m.blocks).toList := by
  rw [rankedSources] at hr
  simp only [planExecutionLanesWithSourceOrder, List.isEmpty_eq_false_iff.2 hne, hr,
    Bool.false_eq_true, if_false, Bool.not_false, if_true]

/-- The planner cuts the payload into lanes without gap or overlap, in lane order. -/
theorem SessionManifest.Planned.laneChain {m : SessionManifest} (h : m.Planned)
    (hs : m.sources.activeTransferSources ≠ [])
    (hplan : planExecutionLanesWithSourceOrder m requestedWorkers allowParallel preferred =
      some lanes) :
    LaneChain m.pieces.length (laneCount requestedWorkers m.pieces.length allowParallel)
      (m.sources.activeTransferSources.map (·.id)) 0 0 lanes m.totalSize := by
  obtain ⟨pieceSize, hp⟩ := h.pieces
  obtain ⟨blockSize, hb⟩ := h.blocks
  have hne := h.pieces_ne_nil
  have hpos : 0 < m.pieces.length := List.length_pos_iff.2 hne
  have hchain : PieceChain 0 0 m.pieces m.totalSize := by
    rw [hp]
    exact planPieceLayouts_chain _ _
  obtain ⟨first, rest, hr⟩ := rankedSources_cons hs preferred
  have hmem : ∀ s ∈ first :: rest, s.id ∈ m.sources.activeTransferSources.map (·.id) := by
    intro s hm
    rw [← hr] at hm
    exact List.mem_map_of_mem ((rankedSources_perm m preferred).mem_iff.1 hm)
  cases allowParallel with
  | false =>
    obtain ⟨lane, he, h1, h2, h3, h4, h5, h6, h7, h8, h9⟩ :=
      assignment_of_chain hchain hne h.size 0 first.id m.pieces blockSize
    rw [← hb] at he
    rw [plan_single hne hr, he] at hplan
    obtain rfl := Option.some.inj hplan
    simp only [Option.toList_some, laneCount, Bool.false_eq_true, if_false]
    refine ⟨⟨h1, h2 ▸ hmem first List.mem_cons_self, h3, h4, h5, ?_, ?_, h9⟩, rfl, h6⟩
    · rw [h7, Nat.zero_mul, Nat.zero_div]
    · rw [h8, Nat.zero_add, Nat.zero_add, Nat.one_mul, Nat.div_one]
  | true =>
    obtain ⟨_, rfl⟩ := (plan_parallel hne hr).1 hplan
    simp only [laneCount, if_true, List.range_eq_range', hb]
    apply laneChain_from (by omega) (Nat.min_le_right _ _) h.size _ m.pieces blockSize
      (Nat.zero_add _)
    · rw [Nat.zero_mul, Nat.zero_div, List.drop_zero]
      exact hchain
    · intro k
      apply hmem
      rw [List.getD_eq_getElem _ _ (Nat.mod_lt _ (by simp))]
      exact List.getElem_mem _

theorem pieceLoop_count (hs : 0 < pieceSize) (hf : total - offset ≤ fuel) :
    (pieceLoop total pieceSize fuel index offset).length =
      (total - offset + (pieceSize - 1)) / pieceSize := by
  induction fuel generalizing index offset with
  | zero =>
    have hnone : total - offset = 0 := by omega
    rw [hnone, Nat.zero_add, Nat.div_eq_of_lt (by omega)]
    rfl
  | succ fuel ih =>
    simp only [pieceLoop]
    split
    · rw [List.length_cons, ih (by omega)]
      by_cases hlast : total - offset ≤ pieceSize
      · have hrest : total - (offset + min (total - offset) pieceSize) = 0 := by omega
        have hone : total - offset + (pieceSize - 1) = total - offset - 1 + pieceSize := by omega
        rw [hrest, Nat.zero_add, Nat.div_eq_of_lt (by omega), hone, Nat.add_div_right _ hs,
          Nat.div_eq_of_lt (by omega)]
      · have hmore : total - offset + (pieceSize - 1) =
            total - (offset + min (total - offset) pieceSize) + (pieceSize - 1) + pieceSize := by
          omega
        rw [hmore, Nat.add_div_right _ hs]
    · have hnone : total - offset = 0 := by omega
      rw [hnone, Nat.zero_add, Nat.div_eq_of_lt (by omega)]
      rfl

theorem planPieceLayouts_length (hs : 0 < pieceSize) (n : Nat) :
    (planPieceLayouts (n * pieceSize) pieceSize).length = n := by
  unfold planPieceLayouts
  split
  · rename_i hz
    rcases Nat.mul_eq_zero.1 hz with hn | hp
    · rw [hn, List.length_nil]
    · omega
  · rw [Nat.max_eq_left hs, pieceLoop_count hs (Nat.sub_le _ _), Nat.sub_zero, Nat.mul_comm,
      Nat.mul_add_div hs, Nat.div_eq_of_lt (by omega), Nat.add_zero]

/-- Four bytes in two pieces. -/
def fourByteManifest : SessionManifest :=
  let spec := DownloadSpec.https "https://example.com/file.bin"
  .forSingleFileWithPieceSize spec (.forSpec spec none) "file.bin" "/file.bin" 4 2 2 []

end Paradown
