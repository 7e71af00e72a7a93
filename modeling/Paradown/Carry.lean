import Paradown.Sync

namespace Paradown
set_option autoImplicit true

open Tiling

/-- A manifest as `build_single_file_manifest` plans it: pieces of one size, none longer than the
payload, in blocks of at most 256 KiB. -/
structure SessionManifest.HttpPlanned (m : SessionManifest) : Prop where
  size : m.totalSize < 2 ^ 64
  pos : 0 < m.pieceSize
  short : m.pieceSize ≤ m.totalSize ∨ m.totalSize = 0
  pieces : m.pieces = planPieceLayouts m.totalSize m.pieceSize
  blocks : m.blocks = planPieceBlocks m.pieces (min m.pieceSize (256 * 1024))

theorem suggestedHttpPieceSize_bounds (hpos : 0 < totalSize) (requestedWorkers : Nat) :
    let size := suggestedHttpPieceSize totalSize requestedWorkers
    0 < size ∧ size ≤ totalSize ∧ size ≤ 1024 * 1024 := by
  intro size
  have hle : (totalSize + min (max requestedWorkers 1) totalSize - 1) /
      min (max requestedWorkers 1) totalSize ≤ totalSize := by
    apply Nat.div_le_of_le_mul
    obtain ⟨a, ha⟩ : ∃ a, min (max requestedWorkers 1) totalSize = a + 1 :=
      ⟨min (max requestedWorkers 1) totalSize - 1, by omega⟩
    obtain ⟨b, rfl⟩ : ∃ b, totalSize = b + 1 := ⟨totalSize - 1, by omega⟩
    rw [ha, Nat.add_one_mul, Nat.mul_add_one]
    omega
  have hsize : size = max (min ((totalSize + min (max requestedWorkers 1) totalSize - 1) /
      min (max requestedWorkers 1) totalSize) MAX_HTTP_PIECE_SIZE) 1 := by
    simp only [size, suggestedHttpPieceSize, Nat.ne_of_gt hpos, if_false]
  rw [MAX_HTTP_PIECE_SIZE] at hsize
  omega

theorem buildSingleFileManifest_planned (t : Task) (env : Env) (sources : SourceSet)
    (filePath : String) (probe : OriginMetadata) (h : ∀ n, probe.totalSize = some n → n < 2 ^ 64) :
    (t.buildSingleFileManifest env sources filePath probe).HttpPlanned := by
  simp only [Task.buildSingleFileManifest]
  split
  · rename_i totalSize htotal
    generalize (if probe.supportsRangeRequests && probe.totalSize.isSome then
      t.config.segmentsPerTask else 1) = workers
    rcases Nat.eq_zero_or_pos totalSize with rfl | hpos
    · exact ⟨h 0 htotal, Nat.one_pos, .inr rfl, rfl, rfl⟩
    · obtain ⟨h1, h2, h3⟩ := suggestedHttpPieceSize_bounds hpos workers
      have hpiece : min (max (suggestedHttpPieceSize totalSize workers) 1)
          (min (max totalSize 1) (2 ^ 32 - 1)) = suggestedHttpPieceSize totalSize workers := by
        omega
      have hblock : min (max (min (suggestedHttpPieceSize totalSize workers) (256 * 1024)) 1)
          (suggestedHttpPieceSize totalSize workers) =
            min (suggestedHttpPieceSize totalSize workers) (256 * 1024) := by omega
      simp only [SessionManifest.forSingleFileWithPieceSize, hpiece, hblock]
      exact ⟨h totalSize htotal, h1, .inl h2, rfl, rfl⟩
  · have hsize : 0 < 2 ^ 64 := by decide
    have hpiece : 0 < DEFAULT_PIECE_SIZE := by decide
    exact ⟨hsize, hpiece, .inr rfl, rfl, rfl⟩

theorem SessionManifest.HttpPlanned.chain {m : SessionManifest} (h : m.HttpPlanned) :
    PieceChain 0 0 m.pieces m.totalSize := by
  rw [h.pieces]
  exact planPieceLayouts_chain _ _

theorem SessionManifest.HttpPlanned.blocks_tile {m : SessionManifest} (h : m.HttpPlanned) :
    BlocksTile 0 m.blocks m.totalSize := by
  rw [h.blocks]
  exact planPieceBlocks_tiles h.chain.tiles h.size _

/-- Completion flags installed under the second manifest claim no byte that the first one's blocks
did not, whatever was completed. -/
def CarriesOnlySameBytes (m₁ m₂ : SessionManifest) : Prop :=
  ∀ t : Task, LayoutMatches m₁.blocks t.blockStates → ∀ byte,
    CompletedByte m₂.blocks (t.installManifest m₂).blockStates byte →
      CompletedByte m₁.blocks t.blockStates byte

/-- The two manifests number their blocks alike. -/
def SameIndexes (m₁ m₂ : SessionManifest) : Prop :=
  m₁.blocks.map (·.key) = m₂.blocks.map (·.key)

instance : Decidable (SameIndexes m₁ m₂) := inferInstanceAs (Decidable (_ = _))

theorem installManifest_of_sameIndexes {t : Task} (hlayout : LayoutMatches m₁.blocks t.blockStates)
    (h : SameIndexes m₁ m₂) : (t.installManifest m₂).blockStates = t.blockStates := by
  rw [Task.installManifest_blockStates, if_pos]
  rw [layoutMatches_iff, LayoutMatches, hlayout]
  exact h

theorem installManifest_of_not_sameIndexes {t : Task}
    (hlayout : LayoutMatches m₁.blocks t.blockStates) (h : ¬ SameIndexes m₁ m₂) :
    (t.installManifest m₂).blockStates = initializeBlockStates m₂.blocks := by
  rw [Task.installManifest_blockStates, if_neg]
  rw [layoutMatches_iff, LayoutMatches, hlayout]
  exact h

theorem not_completedByte_fresh (blocks : List PieceBlock) (byte : Nat) :
    ¬ CompletedByte blocks (initializeBlockStates blocks) byte := by
  rintro ⟨i, b, s, _, hs, hc, _⟩
  rw [noBlockCompleted_of_blocks blocks s (List.mem_of_getElem? hs)] at hc
  cases hc

/-- With one numbering, nothing but the same bytes is carried exactly when every block lies inside
the block whose place it takes. -/
theorem carries_iff_contained (h₂ : BlocksTile 0 m₂.blocks total₂) (hsame : SameIndexes m₁ m₂) :
    CarriesOnlySameBytes m₁ m₂ ↔
      List.Forall₂ (fun b c => Inside PieceBlock.offset PieceBlock.length b.offset
        (b.offset + b.length) c) m₁.blocks m₂.blocks := by
  have hlen : m₁.blocks.length = m₂.blocks.length := by
    have hl := congrArg List.length hsame
    rw [List.length_map, List.length_map] at hl
    exact hl
  constructor
  · intro hall
    rw [List.forall₂_iff_get]
    refine ⟨hlen, ?_⟩
    intro j h1 h2
    have hb : m₁.blocks[j]? = some m₁.blocks[j] := List.getElem?_eq_getElem h1
    have hc : m₂.blocks[j]? = some m₂.blocks[j] := List.getElem?_eq_getElem h2
    -- only the block at this position is completed
    have hlayout := flagged_layoutMatches m₁.blocks fun i => decide (i = j)
    generalize hstates : flagged m₁.blocks (fun i => decide (i = j)) = states at hlayout
    have hinstall : ((restoredTask states).installManifest m₂).blockStates = states :=
      installManifest_of_sameIndexes hlayout hsame
    have hcarry := hall (restoredTask states) hlayout
    rw [hinstall] at hcarry
    change ∀ byte, CompletedByte m₂.blocks states byte →
      CompletedByte m₁.blocks states byte at hcarry
    rw [← hstates] at hcarry
    have hpos := (h₂.inside _ (List.mem_of_getElem? hc)).2
    have hin (byte : Nat) (hlow : m₂.blocks[j].offset ≤ byte)
        (hhigh : byte < m₂.blocks[j].offset + m₂.blocks[j].length) :
        m₁.blocks[j].offset ≤ byte ∧ byte < m₁.blocks[j].offset + m₁.blocks[j].length := by
      obtain ⟨i, b, s, hb', hs, hcompleted, h3, h4⟩ := hcarry byte
        ⟨j, _, _, hc, flagged_getElem? _ hb, decide_eq_true rfl, hlow, hhigh⟩
      rw [flagged_getElem? _ hb', Option.some.injEq] at hs
      rw [← hs] at hcompleted
      obtain rfl := of_decide_eq_true hcompleted
      obtain rfl := Option.some.inj (hb.symm.trans hb')
      exact ⟨h3, h4⟩
    have hfirst := hin _ (le_refl _) (by omega)
    have hlast := hin (m₂.blocks[j].offset + m₂.blocks[j].length - 1) (by omega) (by omega)
    exact ⟨hfirst.1, by simp only [List.get_eq_getElem]; omega⟩
  · intro hcontained t hlayout byte
    rw [installManifest_of_sameIndexes hlayout hsame]
    rintro ⟨i, c, s, hc, hs, hcompleted, hlow, hhigh⟩
    obtain ⟨hi, rfl⟩ := List.getElem?_eq_some_iff.1 hc
    obtain ⟨h1, h2⟩ := (List.forall₂_iff_get.1 hcontained).2 i (by omega) hi
    simp only [List.get_eq_getElem] at h1 h2
    exact ⟨i, _, s, List.getElem?_eq_getElem (by omega), hs, hcompleted, by omega, by omega⟩

theorem carries_iff_offsets (h₁ : BlocksTile 0 m₁.blocks total₁)
    (h₂ : BlocksTile 0 m₂.blocks total₂) (hsame : SameIndexes m₁ m₂) :
    CarriesOnlySameBytes m₁ m₂ ↔
      m₁.blocks.map PieceBlock.offset = m₂.blocks.map PieceBlock.offset ∧ total₂ ≤ total₁ := by
  rw [carries_iff_contained h₂ hsame]
  apply h₁.contained_iff h₂
  have hl := congrArg List.length hsame
  rw [List.length_map, List.length_map] at hl
  exact hl

theorem blockLoop_offsets_isPrefix (hs : 0 < blockSize) (ho : offset ≤ stop) (hle : stop ≤ stop')
    (ht : stop' < 2 ^ 64) (hf : stop - offset ≤ fuel) (hf' : stop' - offset ≤ fuel') :
    (blockLoop index stop blockSize fuel number offset).map PieceBlock.offset <+:
      (blockLoop index' stop' blockSize fuel' number' offset).map PieceBlock.offset := by
  induction fuel generalizing fuel' offset number number' with
  | zero => exact List.nil_prefix
  | succ fuel ih =>
    simp only [blockLoop]
    split
    · rename_i hlt
      obtain ⟨fuel', rfl⟩ : ∃ f, fuel' = f + 1 := ⟨fuel' - 1, by omega⟩
      have hlt' : offset < stop' := by omega
      simp only [blockLoop, hlt', if_true, List.map_cons]
      rw [List.prefix_cons_inj]
      rw [satAdd_of_lt (by omega), satAdd_of_lt (by omega)]
      by_cases hfull : blockSize ≤ stop - offset
      · rw [Nat.min_eq_right hfull, Nat.min_eq_right (by omega)]
        exact ih (by omega) (by omega) (by omega)
      · have hlast : offset + min (stop - offset) blockSize = stop := by omega
        have hnil : blockLoop index stop blockSize fuel (satAdd32 number 1) stop = [] := by
          cases fuel with
          | zero => rfl
          | succ fuel => simp only [blockLoop, Nat.lt_irrefl, if_false]
        rw [hlast, hnil]
        exact List.nil_prefix
    · exact List.nil_prefix

theorem pieceLoop_offsets_isPrefix (hp : 0 < pieceSize) (ho : offset ≤ total) (hle : total ≤ total')
    (ht : total' < 2 ^ 64) (hf : total - offset ≤ fuel) (hf' : total' - offset ≤ fuel')
    (blockSize : Nat) :
    (planPieceBlocks (pieceLoop total pieceSize fuel index offset) blockSize).map
        PieceBlock.offset <+:
      (planPieceBlocks (pieceLoop total' pieceSize fuel' index offset) blockSize).map
        PieceBlock.offset := by
  induction fuel generalizing fuel' offset index with
  | zero => exact List.nil_prefix
  | succ fuel ih =>
    simp only [pieceLoop]
    split
    · rename_i hlt
      obtain ⟨fuel', rfl⟩ : ∃ f, fuel' = f + 1 := ⟨fuel' - 1, by omega⟩
      have hlt' : offset < total' := by omega
      simp only [pieceLoop, hlt', if_true, planPieceBlocks_eq, List.flatMap_cons, List.map_append]
      by_cases hfull : pieceSize ≤ total - offset
      · rw [Nat.min_eq_right hfull, Nat.min_eq_right (by omega), List.prefix_append_right_inj]
        exact ih (by omega) (by omega) (by omega)
      · have hlast : offset + min (total - offset) pieceSize = total := by omega
        have hnil : pieceLoop total pieceSize fuel ((index + 1) % 2 ^ 32) total = [] := by
          cases fuel with
          | zero => rfl
          | succ fuel => simp only [pieceLoop, Nat.lt_irrefl, if_false]
        rw [hlast, hnil, List.flatMap_nil, List.map_nil, List.append_nil]
        refine List.IsPrefix.trans ?_ (List.prefix_append _ _)
        simp only [pieceBlocks]
        rw [satAdd_of_lt (by omega), satAdd_of_lt (by omega)]
        exact blockLoop_offsets_isPrefix (by omega) (by omega) (by omega) (by omega) (by omega)
          (by omega)
    · exact List.nil_prefix

/-- A shorter payload in pieces and blocks of the same size has its blocks at the first places of
the longer one. -/
theorem planned_offsets_isPrefix (hle : total ≤ total') (ht : total' < 2 ^ 64)
    (pieceSize blockSize : Nat) :
    (planPieceBlocks (planPieceLayouts total pieceSize) blockSize).map PieceBlock.offset <+:
      (planPieceBlocks (planPieceLayouts total' pieceSize) blockSize).map PieceBlock.offset := by
  simp only [planPieceLayouts]
  split
  · exact List.nil_prefix
  · rw [if_neg (by omega)]
    exact pieceLoop_offsets_isPrefix (by omega) (by omega) hle ht (by omega) (by omega) blockSize

theorem blockLoop_single (ho : offset < stop) (hs : stop - offset ≤ blockSize) (hf : 0 < fuel)
    (ht : stop < 2 ^ 64) : blockLoop index stop blockSize fuel number offset =
      [⟨index, number, offset, stop - offset⟩] := by
  obtain ⟨fuel, rfl⟩ : ∃ f, fuel = f + 1 := ⟨fuel - 1, by omega⟩
  have hnext : satAdd offset (stop - offset) = stop := by
    rw [satAdd_of_lt (by omega)]
    omega
  simp only [blockLoop, ho, if_true, Nat.min_eq_left hs, hnext]
  cases fuel with
  | zero => rfl
  | succ fuel => simp only [blockLoop, Nat.lt_irrefl, if_false]

theorem PieceChain.single {xs : List PieceLayout} (h : PieceChain 0 0 xs total)
    (hl : xs.length ≤ 1) : xs = if total = 0 then [] else [⟨0, 0, total⟩] := by
  match xs, h, hl with
  | [], h, _ =>
    have he : 0 = total := h
    rw [if_pos he.symm]
  | [⟨index, offset, length⟩], ⟨hi, ho, hp, hr⟩, _ =>
    have he : 0 + length = total := hr
    dsimp only at hi ho hp
    rw [if_neg (by omega), hi, ho, ← he, Nat.zero_add, Nat.zero_mod]
  | _ :: _ :: _, _, hl =>
    simp only [List.length_cons] at hl
    omega

theorem planPieceLayouts_single (h : total ≤ pieceSize) :
    planPieceLayouts total pieceSize = if total = 0 then [] else [⟨0, 0, total⟩] := by
  apply (planPieceLayouts_chain total pieceSize).single
  simp only [planPieceLayouts]
  split
  · exact Nat.zero_le _
  · obtain ⟨n, rfl⟩ : ∃ n, total = n + 1 := ⟨total - 1, by omega⟩
    have hmin : min (n + 1 - 0) (max pieceSize 1) = n + 1 := by omega
    simp only [pieceLoop, Nat.zero_lt_succ, if_true, hmin, Nat.zero_add]
    cases n with
    | zero => exact le_refl _
    | succ n => simp [pieceLoop]

theorem SessionManifest.HttpPlanned.single {m : SessionManifest} (h : m.HttpPlanned)
    (hl : m.pieces.length ≤ 1) (hle : m.totalSize ≤ bound) :
    m.blocks = planPieceBlocks (planPieceLayouts m.totalSize bound) (256 * 1024) := by
  have hpieces := h.chain.single hl
  rw [planPieceLayouts_single hle, ← hpieces, h.blocks]
  rcases Nat.eq_zero_or_pos m.totalSize with hz | hpos
  · rw [hpieces, if_pos hz]
    rfl
  · have hsize := h.size
    rw [if_neg (Nat.ne_of_gt hpos)] at hpieces
    have hlength : m.totalSize ≤ m.pieceSize := by
      have hp := h.pieces
      rw [hpieces, planPieceLayouts, if_neg (Nat.ne_of_gt hpos)] at hp
      have hle := pieceLoop_length_le _ (hp ▸ List.mem_singleton.2 rfl :
        (⟨0, 0, m.totalSize⟩ : PieceLayout) ∈ _)
      have hone := h.pos
      dsimp only at hle
      omega
    have hshort := h.short
    rw [hpieces]
    simp only [planPieceBlocks, List.flatMap_cons, List.flatMap_nil]
    rw [satAdd_of_lt (by omega), Nat.zero_add]
    by_cases hsmall : m.totalSize ≤ 256 * 1024
    · rw [blockLoop_single hpos (by omega) hpos (by omega),
        blockLoop_single hpos (by omega) hpos (by omega)]
    · rw [show max (min m.pieceSize (256 * 1024)) 1 = max (256 * 1024) 1 by omega]

theorem planPieceLayouts_first (hs : 0 < pieceSize)
    (h : planPieceLayouts total pieceSize = p :: q :: rest) : p.length = pieceSize := by
  have hchain := planPieceLayouts_chain total pieceSize
  rw [h] at hchain
  obtain ⟨_, _, _, _, _, hql, hrest⟩ := hchain
  have hle := hrest.le
  have hfirst : p.length = min (total - 0) (max pieceSize 1) := by
    simp only [planPieceLayouts] at h
    split at h
    · cases h
    · obtain ⟨n, rfl⟩ : ∃ n, total = n + 1 := ⟨total - 1, by omega⟩
      simp only [pieceLoop, Nat.zero_lt_succ, if_true, List.cons.injEq] at h
      rw [← h.1]
  omega

/-- The first block with number one belongs to the second piece, which starts after one piece. -/
theorem SessionManifest.HttpPlanned.second_piece {m : SessionManifest} (h : m.HttpPlanned) :
    (m.pieces.length ≤ 1 → m.blocks.find? (·.pieceIndex == 1) = none) ∧
      (2 ≤ m.pieces.length → ∃ b, m.blocks.find? (·.pieceIndex == 1) = some b ∧
        b.offset = m.pieceSize) := by
  constructor
  · intro hl
    apply List.find?_eq_none.2
    intro b hb he
    rw [h.blocks, planPieceBlocks_eq] at hb
    obtain ⟨p, hp, hbp⟩ := List.mem_flatMap.1 hb
    rw [h.chain.single hl] at hp
    split at hp
    · cases hp
    · obtain rfl := List.mem_singleton.1 hp
      rw [pieceBlocks_pieceIndex b hbp] at he
      cases he
  · intro hl
    match hpieces : m.pieces, hl with
    | p :: q :: rest, _ =>
      have hchain := h.chain
      have htiles := h.chain.tiles
      have hsize := h.size
      rw [hpieces] at hchain htiles
      obtain ⟨hpi, hpo, hpl, hqi, hqo, hql, hrest⟩ := hchain
      have hle := hrest.le
      have hfirst : p.length = m.pieceSize :=
        planPieceLayouts_first h.pos (h.pieces.symm.trans hpieces)
      obtain ⟨b, bs, hbs, hkey, hoffset⟩ := pieceBlocks_head hql (by omega)
        (min m.pieceSize (256 * 1024))
      have hnone : (pieceBlocks (min m.pieceSize (256 * 1024)) p).find? (·.pieceIndex == 1) =
          none := by
        apply List.find?_eq_none.2
        intro c hc he
        rw [pieceBlocks_pieceIndex c hc, hpi] at he
        cases he
      have hindex : (b.pieceIndex == 1) = true := by
        rw [show b.pieceIndex = q.pieceIndex from congrArg Prod.fst hkey, hqi]
        rfl
      refine ⟨b, ?_, by rw [hoffset, hqo, Nat.zero_add, hfirst]⟩
      rw [h.blocks, hpieces, planPieceBlocks_eq, List.flatMap_cons, List.flatMap_cons,
        List.find?_append, hnone, Option.none_or, hbs, List.cons_append, List.find?_cons, hindex]

theorem find_offset_eq {bs cs : List PieceBlock} (hk : bs.map (·.key) = cs.map (·.key))
    (ho : bs.map PieceBlock.offset = cs.map PieceBlock.offset) (n : Nat) :
    (bs.find? (·.pieceIndex == n)).map PieceBlock.offset =
      (cs.find? (·.pieceIndex == n)).map PieceBlock.offset := by
  induction bs generalizing cs with
  | nil =>
    rw [List.map_nil] at hk
    rw [List.map_eq_nil_iff.1 hk.symm]
  | cons b bs ih =>
    cases cs with
    | nil => cases hk
    | cons c cs =>
      obtain ⟨hkey, hk⟩ := List.cons.inj hk
      obtain ⟨hoff, ho⟩ := List.cons.inj ho
      have hidx : b.pieceIndex = c.pieceIndex := congrArg Prod.fst hkey
      rw [List.find?_cons, List.find?_cons, hidx]
      split
      · rw [Option.map_some, Option.map_some, hoff]
      · exact ih hk ho

/-- When blocks of two plans are numbered alike, their offsets agree exactly when there is one piece
or the pieces have one size, provided that the second payload is no longer. -/
theorem offsets_eq_iff (h₁ : m₁.HttpPlanned) (h₂ : m₂.HttpPlanned) (hsame : SameIndexes m₁ m₂)
    (hle : m₂.totalSize ≤ m₁.totalSize) :
    m₁.blocks.map PieceBlock.offset = m₂.blocks.map PieceBlock.offset ↔
      m₁.pieces.length ≤ 1 ∨ m₁.pieceSize = m₂.pieceSize := by
  have hlen : (m₂.blocks.map PieceBlock.offset).length =
      (m₁.blocks.map PieceBlock.offset).length := by
    have hl := congrArg List.length hsame
    rw [List.length_map, List.length_map] at hl
    rw [List.length_map, List.length_map, hl]
  constructor
  · intro hoffsets
    by_cases hone : m₁.pieces.length ≤ 1
    · exact .inl hone
    · have hfind := find_offset_eq hsame hoffsets 1
      obtain ⟨b, hb, hboff⟩ := h₁.second_piece.2 (by omega)
      rw [hb, Option.map_some, hboff] at hfind
      by_cases hone' : m₂.pieces.length ≤ 1
      · rw [h₂.second_piece.1 hone', Option.map_none] at hfind
        cases hfind
      · obtain ⟨c, hc, hcoff⟩ := h₂.second_piece.2 (by omega)
        rw [hc, Option.map_some, hcoff, Option.some.injEq] at hfind
        exact .inr hfind
  · rintro (hone | hsize)
    · have hone' : m₂.pieces.length ≤ 1 := by
        by_contra hmore
        obtain ⟨c, hc, _⟩ := h₂.second_piece.2 (by omega)
        have hfind : (m₁.blocks.map (·.key)).find? (fun k => k.1 == 1) = none := by
          rw [List.find?_map, Option.map_eq_none_iff]
          exact h₁.second_piece.1 hone
        rw [hsame, List.find?_map, Option.map_eq_none_iff] at hfind
        exact absurd (hc.symm.trans hfind) (Option.some_ne_none c)
      rw [h₁.single hone (le_refl _), h₂.single hone' hle] at hlen ⊢
      exact ((planned_offsets_isPrefix hle h₁.size _ _).eq_of_length hlen).symm
    · rw [h₁.blocks, h₂.blocks, h₁.pieces, h₂.pieces, hsize] at hlen ⊢
      exact ((planned_offsets_isPrefix hle h₁.size _ _).eq_of_length hlen).symm

theorem HttpPlanned.carries_iff (h₁ : m₁.HttpPlanned) (h₂ : m₂.HttpPlanned) :
    CarriesOnlySameBytes m₁ m₂ ↔ ¬ SameIndexes m₁ m₂ ∨
      m₂.totalSize ≤ m₁.totalSize ∧ (m₁.pieces.length ≤ 1 ∨ m₁.pieceSize = m₂.pieceSize) := by
  by_cases hsame : SameIndexes m₁ m₂
  · rw [carries_iff_offsets h₁.blocks_tile h₂.blocks_tile hsame]
    have heq := offsets_eq_iff h₁ h₂ hsame
    constructor
    · rintro ⟨hoffsets, hle⟩
      exact .inr ⟨hle, (heq hle).1 hoffsets⟩
    · rintro (hnot | ⟨hle, hsize⟩)
      · exact absurd hsame hnot
      · exact ⟨(heq hle).2 hsize, hle⟩
  · constructor
    · intro _
      exact .inl hsame
    · intro _ t hlayout byte hbyte
      rw [installManifest_of_not_sameIndexes hlayout hsame] at hbyte
      exact absurd hbyte (not_completedByte_fresh _ _)

/-- Whatever two probes of a task find, installing the second manifest over the progress of the
first claims only the same bytes exactly when the numbers of the blocks differ, or the payload has
not grown and is in one piece or in pieces of the same size. -/
theorem install_carries_same_bytes_iff (t₁ t₂ : Task) (env₁ env₂ : Env)
    (sources₁ sources₂ : SourceSet) (path₁ path₂ : String) (probe₁ probe₂ : OriginMetadata)
    (h₁ : ∀ n, probe₁.totalSize = some n → n < 2 ^ 64)
    (h₂ : ∀ n, probe₂.totalSize = some n → n < 2 ^ 64) :
    let m₁ := t₁.buildSingleFileManifest env₁ sources₁ path₁ probe₁
    let m₂ := t₂.buildSingleFileManifest env₂ sources₂ path₂ probe₂
    CarriesOnlySameBytes m₁ m₂ ↔ ¬ SameIndexes m₁ m₂ ∨
      m₂.totalSize ≤ m₁.totalSize ∧ (m₁.pieces.length ≤ 1 ∨ m₁.pieceSize = m₂.pieceSize) := by
  intro m₁ m₂
  exact HttpPlanned.carries_iff (buildSingleFileManifest_planned t₁ env₁ sources₁ path₁ probe₁ h₁)
    (buildSingleFileManifest_planned t₂ env₂ sources₂ path₂ probe₂ h₂)

/-- A task that asks for four workers. -/
def fourWorkerTask : Task :=
  { restoredTask [] with config := ⟨"/downloads", 1, 4, .resume, {}⟩ }

/-- The manifest of a payload of `n` bytes that supports ranges. -/
def probedManifest (n : Nat) : SessionManifest :=
  fourWorkerTask.buildSingleFileManifest plainEnv fourWorkerTask.sources "/downloads/file.bin"
    ⟨some n, true, {}, none⟩

theorem same_payload_carries : CarriesOnlySameBytes (probedManifest 10) (probedManifest 10) := by
  have hsize (n : Nat) (h : some 10 = some n) : n < 2 ^ 64 := by
    obtain rfl := Option.some.inj h
    decide
  exact (install_carries_same_bytes_iff fourWorkerTask fourWorkerTask plainEnv plainEnv
    fourWorkerTask.sources fourWorkerTask.sources "/downloads/file.bin" "/downloads/file.bin"
    ⟨some 10, true, {}, none⟩ ⟨some 10, true, {}, none⟩ hsize hsize).2
      (.inr ⟨le_refl _, .inr rfl⟩)

/-- The payload grows from ten bytes to eleven: both are cut into four pieces of three bytes, and
the last block, completed with one byte, is carried over as completed with two. -/
theorem grown_payload_carries_more :
    SameIndexes (probedManifest 10) (probedManifest 11) ∧
      ¬ CarriesOnlySameBytes (probedManifest 10) (probedManifest 11) := by
  have hsame : SameIndexes (probedManifest 10) (probedManifest 11) := by decide
  refine ⟨hsame, ?_⟩
  intro hall
  let states : List BlockState := [⟨0, 0, true⟩, ⟨1, 0, true⟩, ⟨2, 0, true⟩, ⟨3, 0, true⟩]
  have hlayout : LayoutMatches (probedManifest 10).blocks states := by decide
  have hinstall : ((restoredTask states).installManifest (probedManifest 11)).blockStates =
      states := installManifest_of_sameIndexes hlayout hsame
  obtain ⟨i, b, s, hb, _, _, hlow, hhigh⟩ := hall (restoredTask states) hlayout 10
    ⟨3, ⟨3, 0, 9, 2⟩, ⟨3, 0, true⟩, by decide, by rw [hinstall]; rfl, rfl, by decide, by decide⟩
  have htiles : BlocksTile 0 (probedManifest 10).blocks 10 :=
    (buildSingleFileManifest_planned fourWorkerTask plainEnv fourWorkerTask.sources
      "/downloads/file.bin" ⟨some 10, true, {}, none⟩ (by decide)).blocks_tile
  have hend := (htiles.inside b (List.mem_of_getElem? hb)).1.2
  omega

end Paradown
