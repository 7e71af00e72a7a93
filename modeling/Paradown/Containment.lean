import Paradown.Paths
import Paradown.Swarm

namespace Paradown
set_option autoImplicit true

/-- The place a path names once its `.` and `..` components are resolved. -/
def normalizePath (path : String) : Paths.Place (List Char) := Paths.normalize path.toList

theorem toList_pathJoin (dir name : String) :
    (pathJoin dir name).toList = Paths.join dir.toList name.toList := by
  have habs : (Paths.isAbsolute name.toList = true) ↔ name.toList.head? = some '/' := beq_iff_eq
  have hdir : dir.toList = [] ↔ dir = "" := String.toList_eq_nil_iff
  unfold pathJoin Paths.join
  split
  case isTrue h => rw [if_pos (habs.2 h)]
  case isFalse h =>
    rw [if_neg (fun ha => h (habs.1 ha))]
    split
    case isTrue hsep =>
      rw [if_pos (hsep.imp_left hdir.2)]
      exact String.toList_append
    case isFalse hsep =>
      rw [if_neg (fun hs => hsep (hs.imp_left hdir.1)), String.toList_append, String.toList_append,
        List.append_assoc]
      rfl

theorem isSafeComponent_isName (h : isSafeComponent component = true) :
    Paths.IsName component.toList := by
  simp only [isSafeComponent, Bool.and_eq_true, bne_iff_ne, Bool.not_eq_true',
    List.contains_eq_mem, decide_eq_false_iff_not] at h
  obtain ⟨⟨⟨⟨hempty, hdot⟩, hdots⟩, hslash⟩, _⟩ := h
  refine ⟨?_, ?_, ?_, hslash⟩
  · exact fun he => hempty (String.toList_eq_nil_iff.1 he)
  · exact fun he => hdot (String.toList_injective he)
  · exact fun he => hdots (String.toList_injective he)

theorem sanitizedRelativePath_eq_ok (h : sanitizedRelativePath components = .ok path) :
    path = String.intercalate "/" components ∧ components ≠ [] ∧
      ∀ part ∈ components.map String.toList, Paths.IsName part := by
  have hsafe := (sanitizedRelativePath_isOk components).1 ⟨path, h⟩
  refine ⟨?_, hsafe.1, ?_⟩
  · unfold sanitizedRelativePath at h
    rw [if_neg hsafe.1] at h
    split at h
    case h_1 => cases h
    case h_2 => exact (Except.ok.inj h).symm
  · intro part hpart
    obtain ⟨component, hmem, rfl⟩ := List.mem_map.1 hpart
    exact isSafeComponent_isName (hsafe.2 component hmem)

theorem normalizePath_join_sanitized (dir : String)
    (h : sanitizedRelativePath components = .ok path) :
    normalizePath (pathJoin dir path) = (normalizePath dir).down (components.map String.toList) := by
  obtain ⟨rfl, hne, hnames⟩ := sanitizedRelativePath_eq_ok h
  have hne' : components.map String.toList ≠ [] := fun he => hne (List.map_eq_nil_iff.1 he)
  have hpath : (String.intercalate "/" components).toList =
      ['/'].intercalate (components.map String.toList) := by
    rw [String.toList_intercalate]
    rfl
  rw [normalizePath, toList_pathJoin, hpath]
  exact Paths.normalize_join_intercalate hne' hnames

/-- The directory that `build_file_manifests` puts the files of the torrent into. -/
def TorrentMetadata.directory (m : TorrentMetadata) (downloadDir : String) : String :=
  if m.isMultiFile then pathJoin downloadDir m.name else downloadDir

theorem buildFileManifest_path (h : buildFileManifest m downloadDir none file = .ok built) :
    file.pathComponents ≠ [] ∧ normalizePath built.path =
      (normalizePath (m.directory downloadDir)).down (file.pathComponents.map String.toList) := by
  unfold buildFileManifest at h
  split at h
  case h_1 => cases h
  case h_2 path hpath =>
    cases h
    refine ⟨(sanitizedRelativePath_eq_ok hpath).2.1, ?_⟩
    rw [← normalizePath_join_sanitized _ hpath]
    unfold TorrentMetadata.directory
    split <;> rfl

theorem forall_mem_iff_of_forall₂ {P : β → Prop} {Q : α → Prop} (h : List.Forall₂ R xs ys)
    (hR : ∀ x y, R x y → (P y ↔ Q x)) : (∀ y ∈ ys, P y) ↔ ∀ x ∈ xs, Q x := by
  induction h with
  | nil => simp only [List.not_mem_nil, false_implies, implies_true]
  | cons hxy _ ih => rw [List.forall_mem_cons, List.forall_mem_cons, hR _ _ hxy, ih]

theorem manifestFromTorrentMetadata_files
    (h : manifestFromTorrentMetadata spec sources m downloadDir requested = .ok manifest) :
    List.Forall₂ (fun file built => buildFileManifest m downloadDir requested file = .ok built)
      m.files manifest.files := by
  unfold manifestFromTorrentMetadata at h
  split at h
  case h_1 => cases h
  case h_2 files hfiles =>
    cases h
    unfold buildFileManifests at hfiles
    split at hfiles
    case isTrue => cases hfiles
    case isFalse => exact mapM_eq_ok.1 hfiles

/-- Every file lies strictly below `download_dir`, and no file of a multi-file torrent leaves the
directory of the torrent. -/
def SessionManifest.StaysInside (manifest : SessionManifest) (m : TorrentMetadata)
    (downloadDir : String) : Prop :=
  ∀ file ∈ manifest.files, normalizePath file.path < normalizePath downloadDir ∧
    (m.isMultiFile = true → normalizePath file.path < normalizePath (m.directory downloadDir))

/-- The torrent's directory is not outside of `download_dir`, or it is above it and the path of the
file leads back in. -/
def TorrentFileEntry.LeadsInside (file : TorrentFileEntry) (m : TorrentMetadata)
    (downloadDir : String) : Prop :=
  normalizePath (m.directory downloadDir) ≤ normalizePath downloadDir ∨
    ∃ rest, normalizePath downloadDir = (normalizePath (m.directory downloadDir)).down rest ∧
      rest <+: file.pathComponents.map String.toList ∧
      rest ≠ file.pathComponents.map String.toList

theorem TorrentFileEntry.leadsInside_of_singleFile (file : TorrentFileEntry)
    (h : m.isMultiFile = false) : file.LeadsInside m downloadDir := by
  left
  rw [TorrentMetadata.directory, h]
  exact le_rfl

/-- No file leaves the directory that its torrent gets. -/
theorem buildFileManifest_lt_directory
    (h : buildFileManifest m downloadDir none file = .ok built) :
    normalizePath built.path < normalizePath (m.directory downloadDir) := by
  obtain ⟨hne, hpath⟩ := buildFileManifest_path h
  rw [hpath]
  exact Paths.Place.down_lt _ fun he => hne (List.map_eq_nil_iff.1 he)

theorem buildFileManifest_lt_iff (h : buildFileManifest m downloadDir none file = .ok built) :
    normalizePath built.path < normalizePath downloadDir ↔ file.LeadsInside m downloadDir := by
  obtain ⟨hne, hpath⟩ := buildFileManifest_path h
  rw [hpath]
  exact Paths.Place.down_lt_iff fun he => hne (List.map_eq_nil_iff.1 he)

theorem torrent_files_stay_inside_iff
    (h : manifestFromTorrentMetadata spec sources m downloadDir none = .ok manifest) :
    manifest.StaysInside m downloadDir ↔
      (m.isMultiFile = true → ∀ file ∈ m.files, file.LeadsInside m downloadDir) := by
  have hfiles := manifestFromTorrentMetadata_files h
  have hinside : manifest.StaysInside m downloadDir ↔
      ∀ file ∈ m.files, file.LeadsInside m downloadDir := by
    apply forall_mem_iff_of_forall₂ hfiles
    intro file built hbuilt
    rw [buildFileManifest_lt_iff hbuilt]
    exact and_iff_left fun _ => buildFileManifest_lt_directory hbuilt
  rw [hinside]
  constructor
  · exact fun hall _ => hall
  · intro hmulti file hfile
    cases hm : m.isMultiFile with
    | false => exact file.leadsInside_of_singleFile hm
    | true => exact hmulti hm file hfile

/-- Two files of a torrent that goes by the name given. -/
def bundle (name : String) : TorrentMetadata where
  name := name
  infoHashV1 := some "0123456789abcdef0123456789abcdef01234567"
  infoHashV2 := none
  pieceSize := 4
  pieceCount := 3
  totalSize := 10
  private' := false
  files := [⟨["a.bin"], 4, 0⟩, ⟨["nested", "b.bin"], 6, 4⟩]
  pieceHashes := []
  trackers := []
  webSeeds := []

theorem bundle_stays_inside :
    ∃ manifest, manifestFromTorrentMetadata (.torrentFile "/tmp/bundle.torrent") {} (bundle "bundle")
        "/downloads" none = .ok manifest ∧ manifest.StaysInside (bundle "bundle") "/downloads" :=
  ⟨_, rfl, (torrent_files_stay_inside_iff rfl).2 fun _ _ _ => .inl (by decide)⟩

/-- The name of a torrent may climb out of `download_dir`, and an absolute one replaces it. -/
theorem bundle_name_leads_outside :
    (∃ manifest, manifestFromTorrentMetadata (.torrentFile "/tmp/bundle.torrent") {}
        (bundle "../outside") "/downloads" none = .ok manifest ∧
      ¬ manifest.StaysInside (bundle "../outside") "/downloads") ∧
    ∃ manifest, manifestFromTorrentMetadata (.torrentFile "/tmp/bundle.torrent") {}
        (bundle "/etc") "/downloads" none = .ok manifest ∧
      ¬ manifest.StaysInside (bundle "/etc") "/downloads" := by
  constructor
  case left =>
    refine ⟨_, rfl, fun hinside => ?_⟩
    exact absurd (hinside _ (List.mem_cons_self ..)).1 (by decide)
  case right =>
    refine ⟨_, rfl, fun hinside => ?_⟩
    exact absurd (hinside _ (List.mem_cons_self ..)).1 (by decide)

end Paradown
