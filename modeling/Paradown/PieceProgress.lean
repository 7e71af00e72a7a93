import Paradown.SwarmStop
import Paradown.Sync
import Paradown.Restart

namespace Paradown
set_option autoImplicit true

/-- The layout that every manifest made of the metadata has. -/
def TorrentMetadata.layout (m : TorrentMetadata) : SessionManifest :=
  .forFilesWithPieceSize (.metadata none none) {} m.stableId m.totalSize m.pieceSize
    (min (max m.pieceSize 1) TORRENT_BLOCK_SIZE) [] []

/-- A torrent task, and the pieces the engine has reported finished since the last reset. -/
structure PieceRun where
  torrent : SwarmTask
  reported : List Nat

inductive PieceAct where
  | engine (env : SwarmEnv) (event : TorrentEngineEvent)
  | pause (env : SwarmEnv) (engine : Except Error Unit)
  | setStatus (status : Status)
  | prepare (env : SwarmEnv) (preparation : SwarmPreparation)
  | restore (codec : Codec) (now : Nat) (fs : FileSystem)
  | reset

/-- A manifest that describes the same torrent. -/
def SameLayout (m : TorrentMetadata) (manifest : SessionManifest) : Prop :=
  manifest.pieces = m.layout.pieces ∧ manifest.blocks = m.layout.blocks

/-- All metadata that the step brings is `m`. -/
def PieceRun.SameMetadata (m : TorrentMetadata) (s : PieceRun) : PieceAct → Prop
  | .engine _ (.metadataDiscovered metadata) => metadata = m
  | .prepare _ preparation =>
    ∀ session ∈ preparation.session.toOption,
      (∀ metadata ∈ s.torrent.preparedMetadata session, metadata = m) ∧
        ∀ manifest ∈ session.manifest, SameLayout m manifest
  | _ => True

instance (m : TorrentMetadata) (manifest : SessionManifest) : Decidable (SameLayout m manifest) :=
  inferInstanceAs (Decidable (_ ∧ _))

instance (m : TorrentMetadata) (s : PieceRun) : (a : PieceAct) → Decidable (s.SameMetadata m a)
  | .engine _ (.metadataDiscovered _) => inferInstanceAs (Decidable (_ = _))
  | .prepare _ preparation => inferInstanceAs (Decidable (∀ session ∈ preparation.session.toOption,
      (∀ metadata ∈ s.torrent.preparedMetadata session, metadata = m) ∧
        ∀ manifest ∈ session.manifest, SameLayout m manifest))
  | .engine _ (.stateChanged _) | .engine _ (.progress _) | .engine _ (.pieceFinished _)
  | .engine _ (.resumeData _) | .engine _ (.diagnostic _) | .engine _ .finished
  | .engine _ (.error _) | .pause _ _ | .setStatus _ | .restore _ _ _ | .reset => isTrue trivial

namespace PieceRun

def withTask (s : PieceRun) (t : SwarmTask) : PieceRun := { s with torrent := t }

/-- The task of the next process. -/
def restored (s : SwarmTask) (codec : Codec) (now : Nat) (fs : FileSystem) : SwarmTask where
  task := restoreTask codec now ⟨s.task, fs⟩
  persistence := s.persistence
  session := none
  transfer := none
  diagnostics := []
  permit := false
  sent := []
  stored := .ofBundle (saveTask codec s.task)

def step (m : TorrentMetadata) (s : PieceRun) (a : PieceAct) : Option PieceRun :=
  if s.SameMetadata m a then
    match a with
    | .engine env event =>
      some
        { torrent := (s.torrent.handleTorrentEngineEvent env event).2
          reported := match event with
            | .pieceFinished pieceIndex => pieceIndex :: s.reported
            | _ => s.reported }
    | .pause env engine => some (s.withTask (s.torrent.pause env engine).2)
    | .setStatus status => some (s.withTask (s.torrent.setStatus status))
    | .prepare env preparation =>
      some (s.withTask (s.torrent.prepareSwarmDownload env preparation).2)
    | .restore codec now fs => some (s.withTask (restored s.torrent codec now fs))
    | .reset =>
      some
        { torrent := { s.torrent with
            task := (resetTask ⟨s.torrent.task, .empty⟩).task
            session := none, transfer := none, diagnostics := [] }
          reported := [] }
  else none

/-- The step installs a manifest of the torrent. -/
def Installs (s : PieceRun) : PieceAct → Prop
  | .engine _ (.metadataDiscovered metadata) => metadata.Installable
  | .prepare _ preparation =>
    ∃ session ∈ preparation.session.toOption,
      match s.torrent.preparedMetadata session with
      | some metadata => metadata.Installable
      | none => session.manifest.isSome = true
  | _ => False

/-- The piece is one of the torrent, and its states, if any, are completed. -/
def PieceKept (m : TorrentMetadata) (states : List PieceState) (pieceIndex : Nat) : Prop :=
  pieceIndex ∈ m.layout.pieces.map (·.pieceIndex) →
    ∀ piece ∈ states, piece.pieceIndex = pieceIndex → piece.completed = true

/-- Every block of the piece is marked, in states that follow the layout of the torrent. -/
def BlocksMarked (m : TorrentMetadata) (states : List BlockState) (pieceIndex : Nat) : Prop :=
  LayoutMatches m.layout.blocks states ∧
    ∀ block ∈ m.layout.blocks, block.pieceIndex = pieceIndex → blockCompleted states block = true

/-- After an installation every reported piece is still marked. -/
def KeepsPieces (m : TorrentMetadata) (s : PieceRun) (a : PieceAct) : Prop :=
  s.Installs a → ∀ s', s.step m a = some s' → ∀ pieceIndex ∈ s.reported,
    PieceKept m s'.torrent.task.pieceStates pieceIndex

/-- Before an installation all blocks of every reported piece are marked. -/
def InstallsMarked (m : TorrentMetadata) (s : PieceRun) (a : PieceAct) : Prop :=
  s.Installs a → ∀ pieceIndex ∈ s.reported, pieceIndex ∈ m.layout.pieces.map (·.pieceIndex) →
    BlocksMarked m s.torrent.task.blockStates pieceIndex

/-- Before an installation no piece of the torrent has been reported. -/
def InstallsUnreported (m : TorrentMetadata) (s : PieceRun) (a : PieceAct) : Prop :=
  s.Installs a → ∀ pieceIndex ∈ s.reported, pieceIndex ∉ m.layout.pieces.map (·.pieceIndex)

end PieceRun

/-- An event with which the engine reports the whole download. -/
def PieceAct.finishes : PieceAct → Bool
  | .engine _ (.stateChanged .completed) | .engine _ (.stateChanged .seeding)
  | .engine _ .finished => true
  | _ => false

/-- The states are those of the torrent, perhaps in the order in which rows are read back; the
pieces may be lost without the blocks. An installed manifest has set the order of both. -/
structure Laid (m : TorrentMetadata) (t : Task) : Prop where
  keys : (t.pieceStates = [] ∧ t.blockStates = []) ∨
    (t.pieceStates = [] ∨
      (t.pieceStates.map (·.pieceIndex)).Perm (m.layout.pieces.map (·.pieceIndex))) ∧
    (t.blockStates.map (·.key)).Perm (m.layout.blocks.map (·.key))
  matched : t.pieceStates ≠ [] →
    t.pieceStates.map (·.pieceIndex) = m.layout.pieces.map (·.pieceIndex) →
    LayoutMatches m.layout.blocks t.blockStates
  manifest : ∀ manifest ∈ t.manifest, SameLayout m manifest ∧
    t.pieceStates.map (·.pieceIndex) = m.layout.pieces.map (·.pieceIndex) ∧
    LayoutMatches m.layout.blocks t.blockStates

theorem Laid.congr {t t' : Task} (h : Laid m t)
    (hp : t'.pieceStates.map (·.pieceIndex) = t.pieceStates.map (·.pieceIndex))
    (hb : t'.blockStates.map (·.key) = t.blockStates.map (·.key))
    (hm : t'.manifest = t.manifest) : Laid m t' := by
  have hpieces : t'.pieceStates = [] ↔ t.pieceStates = [] := by
    rw [← List.map_eq_nil_iff (f := fun piece : PieceState => piece.pieceIndex), hp,
      List.map_eq_nil_iff]
  have hblocks : t'.blockStates = [] ↔ t.blockStates = [] := by
    rw [← List.map_eq_nil_iff (f := BlockState.key), hb, List.map_eq_nil_iff]
  constructor
  case keys =>
    rw [hpieces, hblocks, hp, hb]
    exact h.keys
  case matched =>
    rw [Ne, hpieces, hp, LayoutMatches, hb]
    exact h.matched
  case manifest =>
    rw [hm, hp, LayoutMatches, hb]
    exact h.manifest

theorem Laid.of_matches {t : Task}
    (hp : t.pieceStates.map (·.pieceIndex) = m.layout.pieces.map (·.pieceIndex))
    (hb : LayoutMatches m.layout.blocks t.blockStates)
    (hm : ∀ manifest ∈ t.manifest, SameLayout m manifest) : Laid m t := by
  constructor
  case keys => exact .inr ⟨.inr (hp ▸ .refl _), (show _ = _ from hb) ▸ .refl _⟩
  case matched =>
    intro _ _
    exact hb
  case manifest =>
    intro manifest hmanifest
    exact ⟨hm manifest hmanifest, hp, hb⟩

theorem Laid.cleared {t : Task} (hp : t.pieceStates = []) (hb : t.blockStates = [])
    (hm : t.manifest = none) : Laid m t := by
  constructor
  case keys => exact .inl ⟨hp, hb⟩
  case matched =>
    intro hne
    exact absurd hp hne
  case manifest =>
    rw [hm]
    intro manifest hmanifest
    cases hmanifest

theorem markPiece_keys (pieceIndex : Nat) (states : List PieceState) :
    (SwarmTask.markPiece pieceIndex states).map (·.pieceIndex) = states.map (·.pieceIndex) := by
  induction states with
  | nil => rfl
  | cons piece rest ih =>
    simp only [SwarmTask.markPiece]
    split
    · rfl
    · rw [List.map_cons, List.map_cons, ih]

theorem carryPieceFlags_keys (fresh restored : List PieceState) :
    (carryPieceFlags fresh restored).map (·.pieceIndex) = fresh.map (·.pieceIndex) := by
  induction fresh generalizing restored with
  | nil => cases restored <;> rfl
  | cons next rest ih =>
    cases restored with
    | nil => rfl
    | cons r rs => rw [carryPieceFlags, List.map_cons, List.map_cons, ih]

theorem initializePieceStates_keys (pieces : List PieceLayout) :
    (initializePieceStates pieces).map (·.pieceIndex) = pieces.map (·.pieceIndex) := by
  rw [initializePieceStates, List.map_map]
  rfl

theorem derive_keys (pieces : List PieceLayout) (blocks : List PieceBlock)
    (states : List BlockState) :
    (derivePieceStatesFromBlocks pieces blocks states).map (·.pieceIndex) =
      pieces.map (·.pieceIndex) := by
  rw [derivePieceStatesFromBlocks, List.map_map]
  rfl

theorem Task.installManifest_pieceIndexes (t : Task) (manifest : SessionManifest) :
    (t.installManifest manifest).pieceStates.map (·.pieceIndex) =
      manifest.pieces.map (·.pieceIndex) := by
  simp only [Task.installManifest]
  split
  · exact derive_keys _ _ _
  · split
    · rw [carryPieceFlags_keys, initializePieceStates_keys]
    · exact initializePieceStates_keys _

theorem Task.installManifest_layout (t : Task) (manifest : SessionManifest) :
    LayoutMatches manifest.blocks (t.installManifest manifest).blockStates := by
  rw [Task.installManifest_blockStates]
  split
  · exact (layoutMatches_iff _ _).1 ‹_›
  · exact LayoutMatches.initialize manifest.blocks

theorem Laid.installed {m : TorrentMetadata} {manifest : SessionManifest} (t : Task)
    (h : SameLayout m manifest) : Laid m (t.installManifest manifest) := by
  apply Laid.of_matches
  · rw [Task.installManifest_pieceIndexes, h.1]
  · rw [← h.2]
    exact t.installManifest_layout manifest
  · intro other hother
    obtain rfl := Option.some.inj hother
    exact h

theorem markedAll_matches (h : LayoutMatches blocks states) :
    LayoutMatches blocks (states.map fun s => { s with completed := true }) := by
  rw [LayoutMatches, List.map_map]
  exact h

theorem Laid.markedAll {t : Task} (h : Laid m t) : Laid m t.markAllPiecesCompleted := by
  unfold Task.markAllPiecesCompleted
  split
  · exact h
  · rename_i manifest hmanifest
    obtain ⟨hsame, hp, hb⟩ := h.manifest manifest hmanifest
    have hlength : t.pieceStates.length = manifest.pieces.length := by
      rw [hsame.1, ← List.length_map (·.pieceIndex), hp, List.length_map]
    have hlength' : t.blockStates.length = manifest.blocks.length := by
      rw [hsame.2]
      exact hb.length
    dsimp only
    rw [if_neg (not_not.2 hlength), if_neg (not_not.2 hlength')]
    apply Laid.of_matches
    · rw [List.map_map]
      exact hp
    · exact markedAll_matches hb
    · exact fun other hother => (h.manifest other hother).1

/-- The order of the block rows that are read back. -/
def KeyLe (a b : Nat × Nat) : Prop := a.1 < b.1 ∨ a.1 = b.1 ∧ a.2 ≤ b.2

theorem pieceBlocks_sorted (h : piece.length < 2 ^ 32) :
    ((pieceBlocks blockSize piece).map (·.key)).Pairwise KeyLe := by
  have hindex : ((pieceBlocks blockSize piece).map (·.blockIndex)).Pairwise (· < ·) := by
    rw [pieceBlocks, blockLoop_blockIndex (by omega)]
    exact List.pairwise_lt_range'
  rw [List.pairwise_map] at hindex ⊢
  apply hindex.imp_of_mem
  intro b c hb hc hlt
  right
  exact ⟨(pieceBlocks_pieceIndex b hb).trans (pieceBlocks_pieceIndex c hc).symm, Nat.le_of_lt hlt⟩

theorem planPieceBlocks_sorted {pieces : List PieceLayout}
    (hs : (pieces.map (·.pieceIndex)).Pairwise (· < ·)) (hl : ∀ p ∈ pieces, p.length < 2 ^ 32) :
    ((planPieceBlocks pieces blockSize).map (·.key)).Pairwise KeyLe := by
  rw [planPieceBlocks_eq, List.map_flatMap, List.pairwise_flatMap]
  constructor
  · intro p hp
    exact pieceBlocks_sorted (hl p hp)
  · apply (List.pairwise_map.1 hs).imp
    intro p q hlt a ha b hb
    obtain ⟨c, hc, rfl⟩ := List.mem_map.1 ha
    obtain ⟨d, hd, rfl⟩ := List.mem_map.1 hb
    left
    rw [PieceBlock.key, PieceBlock.key, pieceBlocks_pieceIndex c hc, pieceBlocks_pieceIndex d hd]
    exact hlt

theorem PieceChain.sorted {xs : List PieceLayout} (h : PieceChain 0 base xs total)
    (hs : (xs.map (·.pieceIndex)).Pairwise (· ≤ ·)) :
    (xs.map (·.pieceIndex)).Pairwise (· < ·) := by
  have hle : xs.length ≤ 2 ^ 32 := by
    by_contra hlarge
    rw [h.index_eq] at hs
    have hlast := getElem?_map_mod xs.length (2 ^ 32 - 1) (by omega)
    have hround := getElem?_map_mod xs.length (2 ^ 32) (by omega)
    rw [List.getElem?_eq_some_iff] at hlast hround
    obtain ⟨hi, hlast⟩ := hlast
    obtain ⟨hj, hround⟩ := hround
    have := List.pairwise_iff_getElem.1 hs _ _ hi hj (by omega)
    omega
  apply (hs.and (h.nodup_iff.2 hle)).imp
  intro a b hab
  exact Nat.lt_of_le_of_ne hab.1 hab.2

theorem TorrentMetadata.layout_knownSize {m : TorrentMetadata} (ht : m.totalSize < 2 ^ 64) :
    m.layout.KnownSize :=
  ⟨rfl, ht, _, _, by omega, rfl, rfl⟩

theorem dbPieces_perm (taskId : Nat) (states : List PieceState) :
    (dbPiecesToPieceStates (pieceStatesToDb taskId states)).Perm states := by
  have hperm := (List.perm_insertionSort (fun a b : DBDownloadPiece => a.pieceIndex ≤ b.pieceIndex)
    (pieceStatesToDb taskId states)).map fun p => (⟨p.pieceIndex, p.completed⟩ : PieceState)
  rw [pieceStatesToDb, List.map_map] at hperm
  exact hperm.trans (.of_eq (List.map_id states))

theorem dbBlocks_perm (taskId : Nat) (states : List BlockState) :
    (dbBlocksToBlockStates (blockStatesToDb taskId states)).Perm states := by
  have hperm := (List.perm_insertionSort (fun a b : DBDownloadBlock => a.pieceIndex < b.pieceIndex ∨
    a.pieceIndex = b.pieceIndex ∧ a.blockIndex ≤ b.blockIndex)
    (blockStatesToDb taskId states)).map fun b =>
      (⟨b.pieceIndex, b.blockIndex, b.completed⟩ : BlockState)
  rw [blockStatesToDb, List.map_map] at hperm
  exact hperm.trans (.of_eq (List.map_id states))

/-- When the pieces are in order, the block rows come back in the order of the layout. -/
theorem restoredBlocks_match {m : TorrentMetadata} (h : m.layout.KnownSize)
    (hpieces : (m.layout.pieces.map (·.pieceIndex)).Pairwise (· ≤ ·))
    (hblocks : (states.map (·.key)).Perm (m.layout.blocks.map (·.key))) :
    LayoutMatches m.layout.blocks (dbBlocksToBlockStates (blockStatesToDb taskId states)) := by
  have hplanned : (m.layout.blocks.map (·.key)).Pairwise KeyLe :=
    planPieceBlocks_sorted (h.chain.sorted hpieces) h.length_lt
  have hread : ((dbBlocksToBlockStates (blockStatesToDb taskId states)).map (·.key)).Pairwise
      KeyLe := by
    rw [List.pairwise_map]
    exact dbBlocks_sorted _
  apply List.Perm.eq_of_pairwise _ hread hplanned
  · exact ((dbBlocks_perm taskId states).map _).trans hblocks
  · rintro ⟨p, b⟩ ⟨q, c⟩ _ _ hpq hqp
    simp only [KeyLe] at hpq hqp
    rw [Prod.mk.injEq]
    omega

theorem restoreTask_states (codec : Codec) (now : Nat) (m : Machine) :
    (restoreTask codec now m).manifest = none ∧
      (restoreTask codec now m).blockStates =
        dbBlocksToBlockStates (blockStatesToDb m.task.id m.task.blockStates) ∧
      ((restoreTask codec now m).pieceStates = [] ∨
        (restoreTask codec now m).pieceStates =
          dbPiecesToPieceStates (pieceStatesToDb m.task.id m.task.pieceStates)) := by
  obtain ⟨plan, hplan⟩ : ∃ plan, plan = buildRestorePlan codec m.fs.view (saveTask codec m.task) :=
    ⟨_, rfl⟩
  have hpieces : plan.taskRequest.pieceStates = some [] ∨
      plan.taskRequest.pieceStates =
        some (dbPiecesToPieceStates (pieceStatesToDb m.task.id m.task.pieceStates)) := by
    simp only [hplan, buildRestorePlan, apply_ite TaskRequest.pieceStates, ite_self]
    split
    · exact .inl rfl
    · split
      · exact .inl rfl
      · exact .inr rfl
  have hblocks : plan.taskRequest.blockStates =
      some (dbBlocksToBlockStates (blockStatesToDb m.task.id m.task.blockStates)) := by
    simp only [hplan, buildRestorePlan, apply_ite TaskRequest.blockStates, ite_self]
    rfl
  rw [restoreTask, addTaskWithWorkers_eq, ← hplan]
  simp only [Task.new, hblocks, Option.getD_some, true_and]
  rcases hpieces with h | h
  · left
    rw [h]
    rfl
  · right
    rw [h]
    rfl

theorem Laid.restored {m : TorrentMetadata} {x : Machine} (hk : m.layout.KnownSize)
    (h : Laid m x.task) (codec : Codec) (now : Nat) : Laid m (restoreTask codec now x) := by
  obtain ⟨hnone, hblocks, hpieces⟩ := restoreTask_states codec now x
  constructor
  case keys =>
    rw [hblocks]
    rcases h.keys with ⟨hp, hb⟩ | ⟨hp, hb⟩
    · left
      constructor
      · rcases hpieces with hread | hread
        · exact hread
        · rw [hread, hp]
          rfl
      · rw [hb]
        rfl
    · right
      constructor
      · rcases hpieces with hread | hread
        · exact .inl hread
        · rcases hp with hp | hp
          · left
            rw [hread, hp]
            rfl
          · right
            rw [hread]
            exact ((dbPieces_perm _ _).map _).trans hp
      · exact ((dbBlocks_perm _ _).map _).trans hb
  case matched =>
    intro hne hkeys
    rcases hpieces with hread | hread
    · exact absurd hread hne
    · rw [hread] at hne hkeys
      have hsorted : (m.layout.pieces.map (·.pieceIndex)).Pairwise (· ≤ ·) := by
        rw [← hkeys, List.pairwise_map]
        exact dbPieces_sorted _
      rcases h.keys with ⟨hp, _⟩ | ⟨_, hb⟩
      · rw [hp] at hne
        exact absurd rfl hne
      · rw [hblocks]
        exact restoredBlocks_match hk hsorted hb
  case manifest =>
    rw [hnone]
    intro manifest hmanifest
    cases hmanifest

theorem restoredBlocks_incomplete (taskId : Nat) (h : NoBlockCompleted states) :
    NoBlockCompleted (dbBlocksToBlockStates (blockStatesToDb taskId states)) := by
  intro s hs
  exact h s ((dbBlocks_perm taskId states).mem_iff.1 hs)

/-- The second task is the first after the installation of a manifest of the torrent. -/
def InstalledFrom (m : TorrentMetadata) (t t' : Task) : Prop :=
  ∃ manifest, SameLayout m manifest ∧ t'.manifest = some manifest ∧
    t'.pieceStates = (t.installManifest manifest).pieceStates ∧
    t'.blockStates = (t.installManifest manifest).blockStates

theorem InstalledFrom.of_metadata (h : installTorrentMetadata t m requested = .ok t') :
    InstalledFrom m t t' := by
  rcases installTorrentMetadata_cases t m requested with ⟨_, files, path, hok⟩ | ⟨_, err, herr⟩
  · cases h.symm.trans hok
    exact ⟨.forFilesWithPieceSize t.spec t.sources m.stableId m.totalSize m.pieceSize
      (min (max m.pieceSize 1) TORRENT_BLOCK_SIZE) files [], ⟨rfl, rfl⟩, rfl, rfl, rfl⟩
  · cases herr.symm.trans h

theorem foldl_recordTorrentDiagnostic_task (reports : List TorrentDiagnosticEvent) (s : SwarmTask) :
    (reports.foldl SwarmTask.recordTorrentDiagnostic s).task = s.task := by
  induction reports generalizing s with
  | nil => rfl
  | cons d rest ih => exact ih _

/-- Metadata, or else the manifest of the session, is installed; without either, or with metadata
that is refused, the states stay as they were. -/
theorem prepareSwarmDownload_cases (m : TorrentMetadata) (env : SwarmEnv)
    (preparation : SwarmPreparation) (s : SwarmTask)
    (hsame : ∀ session ∈ preparation.session.toOption,
      (∀ metadata ∈ s.preparedMetadata session, metadata = m) ∧
        ∀ manifest ∈ session.manifest, SameLayout m manifest) :
    InstalledFrom m s.task (s.prepareSwarmDownload env preparation).2.task ∨
      (¬ ∃ session ∈ preparation.session.toOption,
        match s.preparedMetadata session with
        | some metadata => metadata.Installable
        | none => session.manifest.isSome = true) ∧
      (s.prepareSwarmDownload env preparation).2.task.manifest = s.task.manifest ∧
      (s.prepareSwarmDownload env preparation).2.task.pieceStates = s.task.pieceStates ∧
      (s.prepareSwarmDownload env preparation).2.task.blockStates = s.task.blockStates := by
  simp only [SwarmTask.prepareSwarmDownload]
  set s₁ := (preparation.reports.foldl SwarmTask.recordTorrentDiagnostic s).setTask
    { (preparation.reports.foldl SwarmTask.recordTorrentDiagnostic s).task with
      sources := preparation.candidates.foldl SourceSet.pushUnique
        (preparation.reports.foldl SwarmTask.recordTorrentDiagnostic s).task.sources } with hs₁
  have htask : s₁.task =
      { s.task with
        sources := preparation.candidates.foldl SourceSet.pushUnique s.task.sources } := by
    rw [hs₁, foldl_recordTorrentDiagnostic_task]
    rfl
  have hprepared (session : TorrentEngineSession) :
      s₁.preparedMetadata session = s.preparedMetadata session := by
    rw [SwarmTask.preparedMetadata, htask]
    rfl
  cases hsession : preparation.session with
  | error err =>
    right
    rw [htask]
    refine ⟨?_, rfl, rfl, rfl⟩
    rintro ⟨session, hs, _⟩
    cases hs
  | ok session =>
    rw [hsession] at hsame
    obtain ⟨hmeta, hmanifest⟩ := hsame session rfl
    simp only [hprepared]
    cases hm : s.preparedMetadata session with
    | some metadata =>
      obtain rfl := hmeta metadata hm
      simp only
      split
      · rename_i err herr
        right
        rw [htask]
        refine ⟨?_, rfl, rfl, rfl⟩
        rintro ⟨other, hother, hinstallable⟩
        obtain rfl := Option.some.inj hother
        rw [hm] at hinstallable
        obtain ⟨t, hok⟩ := (installTorrentMetadata_isOk s₁.task metadata s₁.task.filePath).2
          hinstallable
        cases herr.symm.trans hok
      · rename_i t hok
        left
        rw [SwarmTask.persistTask, SwarmTask.save_task]
        obtain ⟨manifest, hlayout, hinstalled⟩ := InstalledFrom.of_metadata hok
        rw [htask] at hinstalled
        exact ⟨manifest, hlayout, hinstalled⟩
    | none =>
      cases hgiven : session.manifest with
      | some manifest =>
        left
        simp only
        rw [SwarmTask.persistTask, SwarmTask.save_task, htask]
        exact ⟨manifest, hmanifest manifest hgiven, rfl, rfl, rfl⟩
      | none =>
        right
        simp only
        rw [SwarmTask.persistTask, SwarmTask.save_task, htask]
        refine ⟨?_, rfl, rfl, rfl⟩
        rintro ⟨other, hother, hinstallable⟩
        obtain rfl := Option.some.inj hother
        rw [hm, hgiven] at hinstallable
        cases hinstallable

/-- What the steps of a torrent task keep of its states: whatever outlives a flag of a piece, an
installation, a restart and a reset. -/
structure StatesInvariant (m : TorrentMetadata) (P : Task → Prop) : Prop where
  congr : ∀ t t' : Task, t'.manifest = t.manifest →
    t'.pieceStates.map (·.pieceIndex) = t.pieceStates.map (·.pieceIndex) →
    t'.blockStates = t.blockStates → P t → P t'
  installed : ∀ (t : Task) (manifest : SessionManifest), SameLayout m manifest → P t →
    P (t.installManifest manifest)
  restored : ∀ codec now (x : Machine), P x.task → P (restoreTask codec now x)
  cleared : ∀ t : Task, t.manifest = none → t.pieceStates = [] → t.blockStates = [] → P t

theorem laid_invariant {m : TorrentMetadata} (h : m.layout.KnownSize) :
    StatesInvariant m (Laid m) where
  congr t t' hm hp hb ht := ht.congr hp (by rw [hb]) hm
  installed t manifest hsame _ := .installed t hsame
  restored codec now x hx := hx.restored h codec now
  cleared t hm hp hb := .cleared hp hb hm

theorem incomplete_invariant (m : TorrentMetadata) :
    StatesInvariant m fun t => NoBlockCompleted t.blockStates where
  congr t t' _ _ hb ht := by
    rw [hb]
    exact ht
  installed t manifest _ ht := by
    rw [t.installManifest_blockStates]
    split
    · exact ht
    · exact noBlockCompleted_of_blocks _
  restored codec now x hx := by
    rw [(restoreTask_states codec now x).2.1]
    exact restoredBlocks_incomplete _ hx
  cleared t _ _ hb := by
    rw [hb]
    intro s hs
    cases hs

namespace StatesInvariant

variable {m : TorrentMetadata} {P : Task → Prop}

theorem kept (h : StatesInvariant m P) (env : SwarmEnv) : SwarmTask.Kept env fun s => P s.task :=
  .of_task fun t ht => h.congr t _ rfl rfl rfl ht

theorem persistTask (h : StatesInvariant m P) (env : SwarmEnv) (s : SwarmTask) (hs : P s.task) :
    P (s.persistTask env).2.task := (h.kept env).persistTask hs

theorem finishAndRelease (h : StatesInvariant m P) (env : SwarmEnv) (s : SwarmTask)
    (outcome : Except Error Unit) (hs : P s.task)
    (hm : outcome = .ok () → P s.task.markAllPiecesCompleted) :
    P (s.finishAndRelease env outcome).2.task := by
  apply (h.kept env).finishAndRelease
  · intro hok
    exact h.congr s.task.markAllPiecesCompleted _ rfl rfl rfl (hm hok)
  · intro err _
    exact h.congr s.task _ rfl rfl rfl hs

theorem pause (h : StatesInvariant m P) (env : SwarmEnv) (engine : Except Error Unit)
    (s : SwarmTask) (hs : P s.task) : P (s.pause env engine).2.task := by
  unfold SwarmTask.pause
  split
  case h_1 | h_2 =>
    dsimp only
    split
    · exact h.congr s.task _ rfl rfl rfl hs
    · apply SwarmTask.andThen_keeps (P := fun s => P s.task)
      · exact h.persistTask env _ (h.congr s.task _ rfl rfl rfl hs)
      · intro s hs
        exact hs
  case h_3 => exact hs
  case h_4 => exact hs

theorem installedFrom (h : StatesInvariant m P) (hs : P t) (hi : InstalledFrom m t t') : P t' := by
  obtain ⟨manifest, hsame, hm, hp, hb⟩ := hi
  exact h.congr (t.installManifest manifest) t' hm (by rw [hp]) hb (h.installed t manifest hsame hs)

theorem handleTorrentEngineEvent (h : StatesInvariant m P) (env : SwarmEnv) (s : SwarmTask)
    (event : TorrentEngineEvent) (hs : P s.task)
    (hmeta : ∀ metadata, event = .metadataDiscovered metadata → metadata = m)
    (hall : ∀ t, PieceAct.finishes (.engine env event) = true → P t → P t.markAllPiecesCompleted) :
    P (s.handleTorrentEngineEvent env event).2.task := by
  cases event with
  | metadataDiscovered metadata =>
    obtain rfl := hmeta metadata rfl
    have hrecorded : P (s.recordTorrentMetadata metadata).task := h.congr s.task _ rfl rfl rfl hs
    simp only [SwarmTask.handleTorrentEngineEvent]
    split
    · exact hrecorded
    · exact h.persistTask env _ (h.installedFrom hrecorded (.of_metadata ‹_›))
  | stateChanged state =>
    have hrecorded : P (s.recordTorrentState state).task := h.congr s.task _ rfl rfl rfl hs
    cases state with
    | completed => exact h.finishAndRelease env _ _ hrecorded fun _ => hall _ rfl hrecorded
    | seeding => exact h.finishAndRelease env _ _ hrecorded fun _ => hall _ rfl hrecorded
    | paused => exact h.congr s.task _ rfl rfl rfl hs
    | _ => exact hrecorded
  | progress stats => exact h.congr s.task _ rfl rfl rfl hs
  | pieceFinished pieceIndex =>
    exact h.persistTask env _ (h.congr s.task _ rfl (markPiece_keys _ _) rfl hs)
  | resumeData bytes => exact h.persistTask env _ (h.congr s.task _ rfl rfl rfl hs)
  | diagnostic d =>
    simp only [SwarmTask.handleTorrentEngineEvent]
    split_ifs <;> exact hs
  | finished =>
    have hrecorded : P (s.recordTorrentState .completed).task := h.congr s.task _ rfl rfl rfl hs
    exact h.finishAndRelease env _ _ hrecorded fun _ => hall _ rfl hrecorded
  | error message =>
    have hrecorded : P (s.recordTorrentDiagnostic
        ⟨.session, .error, message, none, none, none⟩).task := hs
    apply h.finishAndRelease env _ (.error (.other message)) hrecorded
    intro hok
    cases hok

theorem prepareSwarmDownload (h : StatesInvariant m P) (env : SwarmEnv)
    (preparation : SwarmPreparation) (s : SwarmTask) (hs : P s.task)
    (hsame : ∀ session ∈ preparation.session.toOption,
      (∀ metadata ∈ s.preparedMetadata session, metadata = m) ∧
        ∀ manifest ∈ session.manifest, SameLayout m manifest) :
    P (s.prepareSwarmDownload env preparation).2.task := by
  rcases prepareSwarmDownload_cases m env preparation s hsame with hi | ⟨_, hm, hp, hb⟩
  · exact h.installedFrom hs hi
  · exact h.congr s.task _ hm (by rw [hp]) hb hs

theorem step (h : StatesInvariant m P) {s s' : PieceRun}
    (hall : ∀ t, a.finishes = true → P t → P t.markAllPiecesCompleted) (hs : P s.torrent.task)
    (hstep : s.step m a = some s') : P s'.torrent.task := by
  unfold PieceRun.step at hstep
  split at hstep
  · rename_i hsame
    cases a with
    | engine env event =>
      obtain rfl := Option.some.inj hstep
      apply h.handleTorrentEngineEvent env _ _ hs _ hall
      rintro metadata rfl
      exact hsame
    | pause env engine =>
      obtain rfl := Option.some.inj hstep
      exact h.pause env engine _ hs
    | setStatus status =>
      obtain rfl := Option.some.inj hstep
      exact h.congr s.torrent.task _ rfl rfl rfl hs
    | prepare env preparation =>
      obtain rfl := Option.some.inj hstep
      exact h.prepareSwarmDownload env preparation _ hs hsame
    | restore codec now fs =>
      obtain rfl := Option.some.inj hstep
      exact h.restored codec now ⟨s.torrent.task, fs⟩ hs
    | reset =>
      obtain rfl := Option.some.inj hstep
      exact h.cleared _ rfl rfl rfl
  · cases hstep

end StatesInvariant

theorem PieceRun.step_installs {s s' : PieceRun} (h : s.step m a = some s') (hi : s.Installs a) :
    InstalledFrom m s.torrent.task s'.torrent.task := by
  unfold PieceRun.step at h
  split at h
  · rename_i hsame
    cases a with
    | engine env event =>
      obtain rfl := Option.some.inj h
      cases event with
      | metadataDiscovered metadata =>
        obtain rfl : metadata = m := hsame
        obtain ⟨t, hok⟩ := (installTorrentMetadata_isOk
          (s.torrent.recordTorrentMetadata metadata).task metadata s.torrent.task.filePath).2 hi
        obtain ⟨manifest, hlayout, hinstalled⟩ := InstalledFrom.of_metadata hok
        refine ⟨manifest, hlayout, ?_⟩
        simp only [SwarmTask.handleTorrentEngineEvent]
        rw [show (s.torrent.recordTorrentMetadata metadata).task.filePath =
          s.torrent.task.filePath from rfl, hok]
        simp only
        rw [SwarmTask.persistTask, SwarmTask.save_task]
        exact hinstalled
      | _ => exact hi.elim
    | prepare env preparation =>
      obtain rfl := Option.some.inj h
      rcases prepareSwarmDownload_cases m env preparation s.torrent hsame with hfrom | ⟨hnot, _⟩
      · exact hfrom
      · exact absurd hi hnot
    | _ => exact hi.elim
  · cases h

theorem pieceKept_derive (states : List BlockState)
    (hp : pieceIndex ∈ (m.layout.pieces.map (·.pieceIndex))) :
    PieceRun.PieceKept m (derivePieceStatesFromBlocks m.layout.pieces m.layout.blocks states)
        pieceIndex ↔
      ∀ block ∈ m.layout.blocks, block.pieceIndex = pieceIndex →
        blockCompleted states block = true := by
  constructor
  · intro hkept block hblock hindex
    obtain ⟨piece, hpiece, rfl⟩ := List.mem_map.1 hp
    have hall := hkept hp _ (List.mem_map_of_mem hpiece) rfl
    apply List.all_eq_true.1 hall block
    rw [List.mem_filter, beq_iff_eq]
    exact ⟨hblock, hindex⟩
  · intro hmarked _ state hstate hindex
    obtain ⟨piece, _, rfl⟩ := List.mem_map.1 hstate
    apply List.all_eq_true.2
    intro block hblock
    rw [List.mem_filter, beq_iff_eq] at hblock
    exact hmarked block hblock.1 (hblock.2.trans hindex)

theorem carryPieceFlags_nil (fresh : List PieceState) : carryPieceFlags fresh [] = fresh := by
  cases fresh <;> rfl

/-- An installation keeps a piece exactly when its blocks are marked. -/
theorem InstalledFrom.kept_iff {t t' : Task} (h : Laid m t) (hi : InstalledFrom m t t')
    (hp : pieceIndex ∈ m.layout.pieces.map (·.pieceIndex)) :
    PieceRun.PieceKept m t'.pieceStates pieceIndex ↔
      PieceRun.BlocksMarked m t.blockStates pieceIndex := by
  obtain ⟨manifest, ⟨hpieces, hblocks⟩, _, hstates, _⟩ := hi
  rw [hstates]
  simp only [Task.installManifest, hpieces, hblocks]
  split
  · rename_i hmatched
    rw [carryBlockFlags_eq hmatched, pieceKept_derive t.blockStates hp]
    exact (and_iff_right ((layoutMatches_iff _ _).1 hmatched)).symm
  · rename_i hmatched
    rw [layoutMatches_iff] at hmatched
    -- the pieces do not match either, as their order would be that of the layout
    have hfresh : (if pieceStateLayoutMatches (initializePieceStates m.layout.pieces) t.pieceStates
        then carryPieceFlags (initializePieceStates m.layout.pieces) t.pieceStates
        else initializePieceStates m.layout.pieces) = initializePieceStates m.layout.pieces := by
      split
      · rename_i hsame
        by_cases hnil : t.pieceStates = []
        · rw [hnil, carryPieceFlags_nil]
        · rw [pieceStateLayoutMatches, beq_iff_eq, initializePieceStates_keys] at hsame
          exact absurd (h.matched hnil hsame.symm) hmatched
      · rfl
    rw [hfresh]
    apply iff_of_false
    · intro hkept
      obtain ⟨piece, hpiece, rfl⟩ := List.mem_map.1 hp
      have hcompleted := hkept hp _ (List.mem_map_of_mem hpiece) rfl
      cases hcompleted
    · intro hmarked
      exact hmatched hmarked.1

namespace PieceRun

theorem keepsPieces_iff {s s' : PieceRun} (hl : Laid m s.torrent.task)
    (h : s.step m a = some s') : s.KeepsPieces m a ↔ s.InstallsMarked m a := by
  constructor
  · intro hkeeps hi pieceIndex hreported hp
    exact ((step_installs h hi).kept_iff hl hp).1 (hkeeps hi s' h pieceIndex hreported)
  · intro hmarked hi s'' h' pieceIndex hreported hp
    obtain rfl := Option.some.inj (h.symm.trans h')
    exact ((step_installs h hi).kept_iff hl hp).2 (hmarked hi pieceIndex hreported hp) hp

theorem installsMarked_iff {s : PieceRun} (hk : m.layout.KnownSize)
    (hb : NoBlockCompleted s.torrent.task.blockStates) :
    s.InstallsMarked m a ↔ s.InstallsUnreported m a := by
  constructor
  · intro hmarked hi pieceIndex hreported hp
    obtain ⟨piece, hpiece, rfl⟩ := List.mem_map.1 hp
    obtain ⟨⟨_, hend⟩, hlength⟩ := hk.pieces_tile.inside piece hpiece
    have hsize := hk.size
    obtain ⟨block, hblock, hindex⟩ : ∃ block ∈ m.layout.blocks,
        block.pieceIndex = piece.pieceIndex := planPieceBlocks_covers hpiece hlength (by omega)
    have hcompleted := (hmarked hi _ hreported hp).2 block hblock hindex
    rw [hb.blockCompleted block] at hcompleted
    cases hcompleted
  · intro hunreported hi pieceIndex hreported hp
    exact absurd hp (hunreported hi pieceIndex hreported)

end PieceRun

/-- Every installation keeps the reported pieces exactly when all their blocks are marked before it;
until the engine has reported the whole download none is. -/
theorem installed_pieces_kept_iff (m : TorrentMetadata) (s s' : PieceRun) (acts : List PieceAct)
    (ht : m.totalSize < 2 ^ 64) (hmanifest : s.torrent.task.manifest = none)
    (hpieces : s.torrent.task.pieceStates = []) (hblocks : s.torrent.task.blockStates = [])
    (hr : Transition.run (PieceRun.step m) s acts = some s') :
    (Transition.Meets (PieceRun.step m) (PieceRun.KeepsPieces m) s acts ↔
        Transition.Meets (PieceRun.step m) (PieceRun.InstallsMarked m) s acts) ∧
      ((∀ a ∈ acts, a.finishes = false) →
        (Transition.Meets (PieceRun.step m) (PieceRun.KeepsPieces m) s acts ↔
          Transition.Meets (PieceRun.step m) (PieceRun.InstallsUnreported m) s acts)) := by
  have hk := m.layout_knownSize ht
  have hlaid : Laid m s.torrent.task := .cleared hpieces hblocks hmanifest
  have hnone : NoBlockCompleted s.torrent.task.blockStates := by
    rw [hblocks]
    intro state hstate
    cases hstate
  constructor
  · apply Transition.meets_iff (I := fun s => Laid m s.torrent.task) _ _ hlaid hr
    · intro s a s' hs _ hstep
      exact (laid_invariant hk).step (fun t _ ht => ht.markedAll) hs hstep
    · intro s a s' hs hstep
      exact PieceRun.keepsPieces_iff hs hstep
  · intro hfinish
    rw [Transition.meets_and_iff hfinish (C := PieceRun.KeepsPieces m),
      Transition.meets_and_iff hfinish (C := PieceRun.InstallsUnreported m)]
    apply Transition.meets_iff (I := fun s => Laid m s.torrent.task ∧
      NoBlockCompleted s.torrent.task.blockStates) _ _ ⟨hlaid, hnone⟩ hr
    · rintro s a s' ⟨hs, hb⟩ ⟨ha, _⟩ hstep
      constructor
      · exact (laid_invariant hk).step (fun t _ ht => ht.markedAll) hs hstep
      · apply (incomplete_invariant m).step _ hb hstep
        intro t hfinishes
        rw [ha] at hfinishes
        cases hfinishes
    · rintro s a s' ⟨hs, hb⟩ hstep
      rw [PieceRun.keepsPieces_iff hs hstep, PieceRun.installsMarked_iff hk hb]

instance (m : TorrentMetadata) (states : List PieceState) (pieceIndex : Nat) :
    Decidable (PieceRun.PieceKept m states pieceIndex) :=
  inferInstanceAs (Decidable (_ → ∀ piece ∈ states, _ → _))

instance (m : TorrentMetadata) (states : List BlockState) (pieceIndex : Nat) :
    Decidable (PieceRun.BlocksMarked m states pieceIndex) :=
  inferInstanceAs (Decidable (_ ∧ ∀ block ∈ m.layout.blocks, _ → _))

instance (s : PieceRun) : (a : PieceAct) → Decidable (s.Installs a)
  | .engine _ (.metadataDiscovered metadata) => inferInstanceAs (Decidable metadata.Installable)
  | .prepare _ preparation =>
    decidable_of_iff (preparation.session.toOption.any fun session =>
      match s.torrent.preparedMetadata session with
      | some metadata => decide metadata.Installable
      | none => session.manifest.isSome) (by
        rw [Option.any_eq_true]
        apply exists_congr
        intro session
        apply and_congr_right
        intro _
        split <;> simp only [decide_eq_true_eq])
  | .engine _ (.stateChanged _) | .engine _ (.progress _) | .engine _ (.pieceFinished _)
  | .engine _ (.resumeData _) | .engine _ (.diagnostic _) | .engine _ .finished
  | .engine _ (.error _) | .pause _ _ | .setStatus _ | .restore _ _ _ | .reset => isFalse id

instance (m : TorrentMetadata) (s : PieceRun) (a : PieceAct) :
    Decidable (PieceRun.InstallsMarked m s a) :=
  inferInstanceAs (Decidable (_ → ∀ pieceIndex ∈ s.reported, _ → _))

/-- Two pieces, of four bytes and of one. -/
def fiveByteMetadata : TorrentMetadata where
  name := "payload.bin"
  infoHashV1 := none
  infoHashV2 := none
  pieceSize := 4
  pieceCount := 2
  totalSize := 5
  private' := false
  files := [⟨["payload.bin"], 5, 0⟩]
  pieceHashes := []
  trackers := []
  webSeeds := []

def discovered : PieceAct := .engine quietSwarmEnv (.metadataDiscovered fiveByteMetadata)

def firstPieceFinished : PieceAct := .engine quietSwarmEnv (.pieceFinished 0)

theorem finished_pieces_are_kept :
    Transition.Meets (PieceRun.step fiveByteMetadata) (PieceRun.KeepsPieces fiveByteMetadata)
      ⟨runningTorrent, []⟩
      [discovered, firstPieceFinished, .engine quietSwarmEnv .finished, discovered] := by
  obtain ⟨s', hrun, _⟩ : ∃ s', Transition.run (PieceRun.step fiveByteMetadata) ⟨runningTorrent, []⟩
      [discovered, firstPieceFinished, .engine quietSwarmEnv .finished, discovered] = some s' ∧
      s'.reported = [0] := Transition.run_any (by decide)
  apply (installed_pieces_kept_iff fiveByteMetadata ⟨runningTorrent, []⟩ s' _ (by decide) rfl rfl
    rfl hrun).1.2
  decide

/-- The piece that was reported is unmarked by the next installation of the same metadata. -/
theorem reported_piece_is_unmarked :
    ∃ s s', Transition.run (PieceRun.step fiveByteMetadata) ⟨runningTorrent, []⟩
        [discovered, firstPieceFinished] = some s ∧
      s.torrent.task.pieceStates = [⟨0, true⟩, ⟨1, false⟩] ∧ s.Installs discovered ∧
      s.step fiveByteMetadata discovered = some s' ∧
      s'.torrent.task.pieceStates = [⟨0, false⟩, ⟨1, false⟩] ∧
      ¬ s.KeepsPieces fiveByteMetadata discovered := by
  obtain ⟨s, hrun, hmarked, hinstalls, hreported, hnext⟩ : ∃ s,
      Transition.run (PieceRun.step fiveByteMetadata) ⟨runningTorrent, []⟩
        [discovered, firstPieceFinished] = some s ∧
      s.torrent.task.pieceStates = [⟨0, true⟩, ⟨1, false⟩] ∧ s.Installs discovered ∧
      s.reported = [0] ∧ (s.step fiveByteMetadata discovered).any (fun s' =>
        decide (s'.torrent.task.pieceStates = [⟨0, false⟩, ⟨1, false⟩])) = true :=
    Transition.run_any (by decide)
  obtain ⟨s', hstep, hstates⟩ := (Option.any_eq_true _ _).1 hnext
  have hunmarked := of_decide_eq_true hstates
  refine ⟨s, s', hrun, hmarked, hinstalls, hstep, hunmarked, ?_⟩
  intro hkeeps
  have hkept := hkeeps hinstalls s' hstep 0 (by rw [hreported]; exact List.mem_cons_self)
    (by decide) ⟨0, false⟩ (by rw [hunmarked]; exact List.mem_cons_self) rfl
  cases hkept

end Paradown
