import Mathlib.Data.Prod.Lex
import Paradown.MissingFile
import Paradown.Restart

namespace Paradown
set_option autoImplicit true

/-- The JSON texts written for a task are read back as what they stand for. -/
structure Codec.RoundTrips (codec : Codec) (t : Task) : Prop where
  spec : codec.specFromJson (codec.specToJson t.spec) = some t.spec
  sources : codec.sourcesFromJson (codec.sourcesToJson t.sources) = some t.sources
  state : ∀ r, t.torrentResume = some r →
    (codec.stateToJson r.state).bind codec.stateFromJson = some r.state
  metadata : ∀ r m, t.torrentResume = some r → r.metadata = some m →
    (codec.metadataToJson m).bind codec.metadataFromJson = some m

/-- The text fields of the record that are present. -/
def Task.textFields (t : Task) : List String :=
  t.fileName.toList ++ t.filePath.toList ++ t.identity.resolvedUrl.toList ++
    t.identity.entityTag.toList ++ t.identity.lastModified.toList ++
    (t.torrentResume.map (·.handle.externalId)).toList

/-- The request gives back what the task had when it was recorded; of a failure it does not keep
the error. -/
structure TaskRequest.Restores (r : TaskRequest) (t : Task) : Prop where
  spec : r.spec = t.spec
  sources : r.sources = some t.sources
  fileName : r.fileName = t.fileName
  filePath : r.filePath = t.filePath
  identity : r.resourceIdentity = some t.identity
  downloadedSize : r.downloadedSize = some t.downloadedSize
  totalSize : r.totalSize = t.totalSizeOption
  pieceStates : r.pieceStates = some t.pieceStates
  blockStates : r.blockStates = some t.blockStates
  torrentResume : r.torrentResume = t.torrentResume
  status : r.status = some t.status.forgetError

def BlockState.place (s : BlockState) : Nat ×ₗ Nat := toLex (s.pieceIndex, s.blockIndex)

/-- The states stand in the order of their pieces and blocks. -/
structure Task.StatesInOrder (t : Task) : Prop where
  pieces : t.pieceStates.Pairwise fun a b => a.pieceIndex < b.pieceIndex
  blocks : t.blockStates.Pairwise fun a b => a.place < b.place

/-- Of the lists with the same elements only one is in strict order. -/
theorem eq_of_perm_of_sorted [PartialOrder κ] {key : α → κ} {xs ys : List α} (hperm : xs.Perm ys)
    (hx : xs.Pairwise fun a b => key a ≤ key b) (hy : ys.Pairwise fun a b => key a < key b) :
    xs = ys := by
  have hnodup : xs.Pairwise fun a b => key a ≠ key b :=
    hperm.symm.pairwise (hy.imp fun h => h.ne) fun h => h.symm
  have hlt : xs.Pairwise fun a b => key a < key b :=
    (hx.and hnodup).imp fun h => lt_of_le_of_ne h.1 h.2
  exact hperm.eq_of_pairwise (fun a b _ _ hab hba => absurd hab hba.asymm) hlt hy

theorem dbPieces_of_rows (taskId : Nat) {states : List PieceState}
    (hrows : rows.Perm (pieceStatesToDb taskId states))
    (h : states.Pairwise fun a b => a.pieceIndex < b.pieceIndex) :
    dbPiecesToPieceStates rows = states := by
  apply eq_of_perm_of_sorted _ (dbPieces_sorted rows) h
  have hsort := List.perm_insertionSort (fun a b : DBDownloadPiece => a.pieceIndex ≤ b.pieceIndex) rows
  have hperm := (hsort.trans hrows).map fun p => (⟨p.pieceIndex, p.completed⟩ : PieceState)
  rw [pieceStatesToDb, List.map_map] at hperm
  exact hperm.trans (.of_eq (List.map_id states))

theorem dbBlocks_of_rows (taskId : Nat) {states : List BlockState}
    (hrows : rows.Perm (blockStatesToDb taskId states))
    (h : states.Pairwise fun a b => a.place < b.place) :
    dbBlocksToBlockStates rows = states := by
  have hsorted : (dbBlocksToBlockStates rows).Pairwise fun a b => a.place ≤ b.place := by
    apply (dbBlocks_sorted rows).imp
    intro a b hab
    exact Prod.Lex.toLex_le_toLex.2 hab
  apply eq_of_perm_of_sorted _ hsorted h
  have hsort := List.perm_insertionSort (fun a b : DBDownloadBlock => a.pieceIndex < b.pieceIndex ∨
    a.pieceIndex = b.pieceIndex ∧ a.blockIndex ≤ b.blockIndex) rows
  have hperm := (hsort.trans hrows).map fun b =>
    (⟨b.pieceIndex, b.blockIndex, b.completed⟩ : BlockState)
  rw [blockStatesToDb, List.map_map] at hperm
  exact hperm.trans (.of_eq (List.map_id states))

theorem normalizedTextField_getD {field : Option String}
    (hblank : ∀ text ∈ field.toList, trim text ≠ "") :
    normalizedTextField (field.getD "") = field ↔ ∀ text ∈ field.toList, trim text = text := by
  cases field with
  | none =>
    apply iff_of_true
    · decide
    · exact fun text hmem => absurd hmem List.not_mem_nil
  | some text =>
    have hne := hblank text (List.mem_singleton_self text)
    rw [Option.getD_some, normalizedTextField, if_neg hne, Option.some.injEq, Option.toList_some,
      List.forall_mem_singleton]

theorem torrentBackendFromDb_toDb (backend : TorrentEngineBackend) :
    torrentBackendFromDb (torrentBackendToDb backend) = some backend := by
  cases backend
  decide +kernel

theorem dbTaskToTorrentResume_taskToDb {codec : Codec} {t : Task} (hcodec : codec.RoundTrips t)
    (hblank : ∀ text ∈ (t.torrentResume.map (·.handle.externalId)).toList, trim text ≠ "") :
    dbTaskToTorrentResume codec (taskToDb codec t) = t.torrentResume ↔
      ∀ text ∈ (t.torrentResume.map (·.handle.externalId)).toList, trim text = text := by
  cases hresume : t.torrentResume with
  | none =>
    have hread : dbTaskToTorrentResume codec (taskToDb codec t) = none := by
      simp only [dbTaskToTorrentResume, taskToDb, hresume, Option.map_none, Option.bind_none]
    rw [hread]
    exact iff_of_true rfl fun text hmem => absurd hmem List.not_mem_nil
  | some r =>
    rw [hresume] at hblank
    have hne := hblank _ (List.mem_singleton_self _)
    have hid : normalizedTextField r.handle.externalId = some (trim r.handle.externalId) := if_neg hne
    have hmetadata : (r.metadata.bind codec.metadataToJson).bind codec.metadataFromJson =
        r.metadata := by
      cases hm : r.metadata with
      | none => rfl
      | some m => exact hcodec.metadata r m hresume hm
    have hread : dbTaskToTorrentResume codec (taskToDb codec t) =
        some { r with handle := ⟨r.handle.backend, trim r.handle.externalId⟩ } := by
      simp only [dbTaskToTorrentResume, taskToDb, hresume, Option.map_some, Option.bind_some,
        torrentBackendFromDb_toDb, Option.getD_some, hid, hcodec.state r hresume, hmetadata]
    rw [hread, Option.some.injEq, Option.map_some, Option.toList_some, List.forall_mem_singleton]
    constructor
    · intro he
      exact congrArg (·.handle.externalId) he
    · intro he
      rw [he]

theorem identity_eq_iff {i : HttpResourceIdentity} :
    ⟨url, tag, modified⟩ = i ↔ url = i.resolvedUrl ∧ tag = i.entityTag ∧ modified = i.lastModified := by
  cases i
  rw [HttpResourceIdentity.mk.injEq]

theorem Task.forall_textFields {t : Task} {P : String → Prop} :
    (∀ text ∈ t.textFields, P text) ↔ (∀ text ∈ t.fileName.toList, P text) ∧
      (∀ text ∈ t.filePath.toList, P text) ∧ (∀ text ∈ t.identity.resolvedUrl.toList, P text) ∧
      (∀ text ∈ t.identity.entityTag.toList, P text) ∧
      (∀ text ∈ t.identity.lastModified.toList, P text) ∧
      ∀ text ∈ (t.torrentResume.map (·.handle.externalId)).toList, P text := by
  simp only [textFields, List.forall_mem_append, and_assoc]

theorem task_record_round_trips_iff {codec : Codec} {t : Task} (hcodec : codec.RoundTrips t)
    (hblank : ∀ text ∈ t.textFields, trim text ≠ "") (horder : t.StatesInOrder)
    {pieces : List DBDownloadPiece} {blocks : List DBDownloadBlock}
    (hpieces : pieces.Perm (pieceStatesToDb t.id t.pieceStates))
    (hblocks : blocks.Perm (blockStatesToDb t.id t.blockStates))
    (checksums : List DBDownloadChecksum) :
    (dbTaskToRequest codec (taskToDb codec t) pieces blocks checksums).Restores t ↔
      ∀ text ∈ t.textFields, trim text = text := by
  obtain ⟨hname, hpath, hurl, htag, hmodified, hid⟩ := Task.forall_textFields.1 hblank
  rw [Task.forall_textFields, ← normalizedTextField_getD hname, ← normalizedTextField_getD hpath,
    ← normalizedTextField_getD hurl, ← normalizedTextField_getD htag,
    ← normalizedTextField_getD hmodified, ← dbTaskToTorrentResume_taskToDb hcodec hid]
  constructor
  · intro h
    have hname := h.fileName
    have hpath := h.filePath
    have hidentity := h.identity
    simp only [dbTaskToRequest, taskToDb, Option.some.injEq, identity_eq_iff]
      at hname hpath hidentity
    exact ⟨hname, hpath, hidentity.1, hidentity.2.1, hidentity.2.2, h.torrentResume⟩
  · rintro ⟨hname, hpath, hurl, htag, hmodified, hresume⟩
    constructor
    case spec => simp only [dbTaskToRequest, taskToDb, hcodec.spec]; rfl
    case sources => exact hcodec.sources
    case fileName => simpa only [dbTaskToRequest, taskToDb] using hname
    case filePath => simpa only [dbTaskToRequest, taskToDb] using hpath
    case identity => simp only [dbTaskToRequest, taskToDb, hurl, htag, hmodified]
    case downloadedSize => rfl
    case totalSize => rfl
    case pieceStates => exact congrArg some (dbPieces_of_rows t.id hpieces horder.pieces)
    case blockStates => exact congrArg some (dbBlocks_of_rows t.id hblocks horder.blocks)
    case torrentResume => exact hresume
    case status =>
      simp only [dbTaskToRequest, taskToDb, Status.fromText_toText, Option.getD_some]

/-- A codec that reads back the one download of the runs below, and a paused torrent. -/
def pausedCodec : Codec :=
  { oneSourceCodec with
    specToJson := fun _ => "https"
    specFromJson := fun text =>
      if text = "https" then some (.https "https://example.com/file.bin") else none
    stateToJson := fun _ => some "Paused"
    stateFromJson := fun text => if text = "Paused" then some .paused else none }

/-- A failed download with a name, a torrent snapshot and three blocks. -/
def recordedTask (name : String) : Task :=
  { restoredTask [⟨0, 0, true⟩, ⟨0, 1, false⟩, ⟨1, 0, true⟩] with
    status := .failed (.io "disk full")
    fileName := some name
    pieceStates := [⟨0, false⟩, ⟨1, true⟩]
    torrentResume := some ⟨⟨.libtorrent, "0123"⟩, .paused, none, some [1, 2]⟩ }

theorem recordedTask_roundTrips (name : String) : pausedCodec.RoundTrips (recordedTask name) where
  spec := rfl
  sources := rfl
  state r hr := by
    cases hr
    rfl
  metadata r m hr hm := by
    cases hr
    cases hm

theorem recordedTask_statesInOrder (name : String) : (recordedTask name).StatesInOrder := by
  constructor
  case pieces =>
    show List.Pairwise (fun a b : PieceState => a.pieceIndex < b.pieceIndex) [⟨0, false⟩, ⟨1, true⟩]
    decide
  case blocks =>
    show List.Pairwise (fun a b : BlockState => a.place < b.place)
      [⟨0, 0, true⟩, ⟨0, 1, false⟩, ⟨1, 0, true⟩]
    simp only [BlockState.place, Prod.Lex.toLex_lt_toLex]
    decide

/-- The rows come in reverse order. -/
theorem recorded_task_round_trips :
    (dbTaskToRequest pausedCodec (taskToDb pausedCodec (recordedTask "my file.bin"))
      (pieceStatesToDb 1 (recordedTask "my file.bin").pieceStates).reverse
      (blockStatesToDb 1 (recordedTask "my file.bin").blockStates).reverse
      []).Restores (recordedTask "my file.bin") :=
  (task_record_round_trips_iff (recordedTask_roundTrips _) (by decide)
    (recordedTask_statesInOrder _) (List.reverse_perm _) (List.reverse_perm _) []).2
    (by decide)

/-- A blank in front of the file name is lost, and with it the name. -/
theorem padded_name_is_not_restored :
    (∀ text ∈ (recordedTask " file.bin").textFields, trim text ≠ "") ∧
    ¬ (dbTaskToRequest pausedCodec (taskToDb pausedCodec (recordedTask " file.bin"))
      (pieceStatesToDb 1 (recordedTask " file.bin").pieceStates)
      (blockStatesToDb 1 (recordedTask " file.bin").blockStates)
      []).Restores (recordedTask " file.bin") := by
  constructor
  case left => decide
  case right =>
    intro h
    have hname : normalizedTextField " file.bin" = some " file.bin" := h.fileName
    exact absurd hname (by decide)

end Paradown
