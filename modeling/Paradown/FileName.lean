import Paradown.Containment
import Paradown.MissingFile

namespace Paradown
set_option autoImplicit true

def trimMatches (p : Char → Bool) (text : List Char) : List Char :=
  ((text.dropWhile p).reverse.dropWhile p).reverse

/-- `str::split_once` at a text: what stands around the first place where `sep` stands. -/
def splitOnText (sep : List Char) : List Char → Option (List Char × List Char)
  | [] => if sep = [] then some ([], []) else none
  | c :: rest =>
    match (c :: rest).dropPrefix? sep with
    | some after => some ([], after)
    | none => (splitOnText sep rest).map fun halves => (c :: halves.1, halves.2)

def quote : Char := Char.ofNat 34

def apostrophe : Char := Char.ofNat 39

def isVisibleAscii (byte : UInt8) : Bool := (32 ≤ byte && byte < 127) || byte == 9

/-- What `HeaderValue::to_str` is documented to do. -/
def headerToStr (value : List UInt8) : Except Error (List Char) :=
  if value.all isVisibleAscii then .ok (value.map fun byte => Char.ofNat byte.toNat)
  else .error (.header "failed to convert header to a str")

/-- A header value is read as text if it is made of visible characters and tabs, and only then. -/
structure ReadsVisibleAscii (toStr : List UInt8 → Except Error (List Char)) : Prop where
  reads : ∀ value, value.all isVisibleAscii = true →
    toStr value = .ok (value.map fun byte => Char.ofNat byte.toNat)
  refuses : ∀ value, value.all isVisibleAscii = false → ∃ err, toStr value = .error err

theorem headerToStr_reads : ReadsVisibleAscii headerToStr where
  reads _ h := if_pos h
  refuses _ h := ⟨_, if_neg (Bool.eq_false_iff.1 h)⟩

def decodeHexNibble (byte : UInt8) : Option UInt8 :=
  if 48 ≤ byte && byte ≤ 57 then some (byte - 48)
  else if 97 ≤ byte && byte ≤ 102 then some (byte - 97 + 10)
  else if 65 ≤ byte && byte ≤ 70 then some (byte - 65 + 10)
  else none

def percentDecodeBytes : List UInt8 → Option (List UInt8)
  | [] => some []
  | byte :: rest =>
    if byte = 37 then
      match rest with
      | high :: low :: rest => do
        let high ← decodeHexNibble high
        let low ← decodeHexNibble low
        let decoded ← percentDecodeBytes rest
        some ((high <<< 4 ||| low) :: decoded)
      | _ => none
    else (percentDecodeBytes rest).map (byte :: ·)

def stringFromUtf8 (bytes : List UInt8) : Option String := String.fromUTF8? ⟨bytes.toArray⟩

def decodeContentDispositionExtendedFilename (value : List Char) : Option String := do
  let value := trimMatches (· == quote) (trimMatches isWhiteSpace value)
  let (charset, remainder) ← splitOnText [apostrophe, apostrophe] value
  let encoded := remainder.takeWhile (· != apostrophe)
  let bytes ← percentDecodeBytes (String.ofList encoded).toUTF8.data.toList
  let charset := charset.map Char.toLower
  if charset = "utf-8".toList then stringFromUtf8 bytes
  else if charset = "iso-8859-1".toList ∨ charset = "latin1".toList ∨ charset = "latin-1".toList then
    some (String.ofList (bytes.map fun byte => Char.ofNat byte.toNat))
  else stringFromUtf8 bytes

def normalizeContentDispositionFilename (value : List Char) : Option String :=
  let value := trimMatches (· == quote) (trimMatches isWhiteSpace value)
  if value = [] then none else some (String.ofList value)

/-- The loop over the segments of the header: an extended name that can be decoded ends it, a plain
one is kept until the next. -/
def fileNameOfSegments (fallback : Option String) : List (List Char) → Option String
  | [] => fallback
  | segment :: rest =>
    let segment := trimMatches isWhiteSpace segment
    match segment.dropPrefix? "filename*=".toList with
    | some filename =>
      match decodeContentDispositionExtendedFilename filename with
      | some decoded => some decoded
      | none => fileNameOfSegments fallback rest
    | none =>
      match segment.dropPrefix? "filename=".toList with
      | some filename => fileNameOfSegments (normalizeContentDispositionFilename filename) rest
      | none => fileNameOfSegments fallback rest

section
-- `HeaderValue::to_str`; `Url::parse` and the last of its `path_segments`.
variable (toStr : List UInt8 → Except Error (List Char)) (lastSegment : String → Option String)

def parseContentDispositionHeader (value : List UInt8) : Except Error (Option String) := do
  let value ← toStr value
  .ok (fileNameOfSegments none ((value.splitOn ';').drop 1))

def contentTypeExtensions : List (String × String) :=
  [("application/json", "json"), ("application/pdf", "pdf"), ("application/zip", "zip"),
    ("application/gzip", "gz"), ("application/x-gzip", "gz"), ("application/x-tar", "tar"),
    ("application/xml", "xml"), ("text/xml", "xml"), ("text/plain", "txt"), ("text/html", "html"),
    ("text/css", "css"), ("text/csv", "csv"), ("image/png", "png"), ("image/jpeg", "jpg"),
    ("image/gif", "gif"), ("image/webp", "webp"), ("audio/mpeg", "mp3"), ("video/mp4", "mp4")]

def suggestExtensionFromContentType (value : List UInt8) : Option String := do
  let text ← (toStr value).toOption
  let contentType ← (text.splitOn ';').head?
  contentTypeExtensions.lookup
    (String.ofList ((trimMatches isWhiteSpace contentType).map Char.toLower))

/-- `Path::file_name`: the last component, where it is neither `.` nor `..`. -/
def pathFileName (path : String) : Option String :=
  match ((Paths.moves path.toList).filter (· != .stay)).getLast? with
  | some (.down name) => some (String.ofList name)
  | _ => none

/-- `Path::extension` is there where a dot stands after the first character of the file name. -/
def hasExtension (path : String) : Bool :=
  (pathFileName path).any fun name => (name.toList.drop 1).contains '.'

def fileNameHintFromLocator (locator : String) : Option String :=
  (lastSegment locator).filter (· != "")

def DownloadSpec.fileNameHint : DownloadSpec → Option String
  | .torrentFile path => pathFileName path
  | .metadata displayName _ => displayName
  | spec => fileNameHintFromLocator lastSegment spec.locator

/-- The parts of an answer that its file name is taken from. -/
structure NamingHeaders where
  url : String
  contentDisposition : Option (List UInt8)
  contentType : Option (List UInt8)

def NamingHeaders.contentDispositionFileName (r : NamingHeaders) : Except Error (Option String) :=
  match r.contentDisposition with
  | none => .ok none
  | some value => parseContentDispositionHeader toStr value

/-- The name that the locator and the content type suggest. -/
def NamingHeaders.hintedFileName (r : NamingHeaders) : Option String :=
  match fileNameHintFromLocator lastSegment r.url,
    r.contentType.bind (suggestExtensionFromContentType toStr) with
  | some name, some extension =>
    if hasExtension name then some name else some (name ++ "." ++ extension)
  | some name, none => some name
  | none, some extension => some ("download." ++ extension)
  | none, none => none

def NamingHeaders.extractSuggestedFileName (r : NamingHeaders) : Except Error (Option String) := do
  match ← r.contentDispositionFileName toStr with
  | some name => .ok (some name)
  | none => .ok (r.hintedFileName toStr lastSegment)

/-- An answer that is missing suggests nothing. -/
def suggestedBy : Option NamingHeaders → Except Error (Option String)
  | none => .ok none
  | some r => r.extractSuggestedFileName toStr lastSegment

/-- The name that the probe suggests: the answer to the range request comes before the one to the
`HEAD` request. -/
def probeSuggestedFileName (head range : Option NamingHeaders) : Except Error (Option String) := do
  let headName ← suggestedBy toStr lastSegment head
  let name ← suggestedBy toStr lastSegment range
  .ok (name <|> headName)

/-- The environment whose file-name hints are those of the sources. -/
def Env.withHints (env : Env) : Env :=
  { env with
    urlFileName := fileNameHintFromLocator lastSegment
    specFileName := DownloadSpec.fileNameHint lastSegment }

/-- The path that a download gets from the name that is suggested. -/
def Task.downloadPath (t : Task) (env : Env) (suggested : Option String) : String :=
  ((t.initializeFileName env suggested).2.getOrInitFilePath env).1

def NamingHeaders.dispositionName (r : NamingHeaders) : Option String :=
  (r.contentDispositionFileName toStr).toOption.join

/-- The name of this answer's header, unless the answer suggests another name without one. -/
def disposedBy (r : Option NamingHeaders) (otherwise : Option String) : Option String :=
  match r with
  | none => otherwise
  | some r =>
    match r.dispositionName toStr with
    | some name => some name
    | none => if (r.hintedFileName toStr lastSegment).isSome then none else otherwise

/-- The name that a `Content-Disposition` header gives to the download, if one does. -/
def dispositionName (head range : Option NamingHeaders) : Option String :=
  disposedBy toStr lastSegment range (disposedBy toStr lastSegment head none)

/-- A path segment that the `url` crate reads off has no separator in it, and dot segments are
resolved when a locator is parsed. -/
def ResolvesSegments : Prop :=
  ∀ locator segment, lastSegment locator = some segment →
    '/' ∉ segment.toList ∧ segment ≠ "." ∧ segment ≠ ".."

end

def IsFileName (name : String) : Prop := Paths.IsName name.toList

theorem isFileName_append_extension (hname : '/' ∉ name.toList) (hext : '/' ∉ extension.toList)
    (hlen : 2 ≤ extension.length) : IsFileName (name ++ "." ++ extension) := by
  have hchars : (name ++ "." ++ extension).toList = name.toList ++ '.' :: extension.toList := by
    rw [String.toList_append, String.toList_append, List.append_assoc]
    rfl
  have hlong : 3 ≤ (name.toList ++ '.' :: extension.toList).length := by
    rw [← String.length_toList] at hlen
    rw [List.length_append, List.length_cons]
    omega
  have hne {short : List Char} (hs : short.length ≤ 2) :
      name.toList ++ '.' :: extension.toList ≠ short := by
    intro he
    rw [he] at hlong
    omega
  rw [IsFileName, hchars]
  refine ⟨hne (by decide), hne (by decide), hne (by decide), fun hslash => ?_⟩
  rcases List.mem_append.1 hslash with hmem | hmem
  · exact hname hmem
  · rcases List.mem_cons.1 hmem with he | hmem
    · cases he
    · exact hext hmem

theorem contentTypeExtensions_plain : ∀ entry ∈ contentTypeExtensions,
    '/' ∉ entry.2.toList ∧ 2 ≤ entry.2.length := by
  decide

theorem suggestExtension_plain (h : suggestExtensionFromContentType toStr value = some extension) :
    '/' ∉ extension.toList ∧ 2 ≤ extension.length := by
  unfold suggestExtensionFromContentType at h
  obtain ⟨text, _, h⟩ := Option.bind_eq_some_iff.1 h
  obtain ⟨contentType, _, h⟩ := Option.bind_eq_some_iff.1 h
  obtain ⟨before, after, hentry, _⟩ := List.lookup_eq_some_iff.1 h
  apply contentTypeExtensions_plain (_, extension)
  rw [hentry]
  exact List.mem_append_right _ (List.mem_cons_self ..)

theorem fileNameHintFromLocator_isFileName (h : ResolvesSegments lastSegment)
    (hn : fileNameHintFromLocator lastSegment locator = some name) : IsFileName name := by
  obtain ⟨hsegment, hne⟩ := Option.filter_eq_some_iff.1 hn
  obtain ⟨hslash, hdot, hdots⟩ := h locator name hsegment
  refine ⟨?_, ?_, ?_, hslash⟩
  · exact fun he => bne_iff_ne.1 hne (String.toList_eq_nil_iff.1 he)
  · exact fun he => hdot (String.toList_injective he)
  · exact fun he => hdots (String.toList_injective he)

theorem fileNameHint_isFileName (h : ResolvesSegments lastSegment)
    (hs : spec.supportsSwarmDiscovery = false)
    (hn : DownloadSpec.fileNameHint lastSegment spec = some name) : IsFileName name := by
  cases spec with
  | http url => exact fileNameHintFromLocator_isFileName h hn
  | https url => exact fileNameHintFromLocator_isFileName h hn
  | ftp url => exact fileNameHintFromLocator_isFileName h hn
  | torrentFile path => cases hs
  | magnet uri => cases hs
  | metadata displayName infoHash => cases hs

theorem hintedFileName_isFileName (h : ResolvesSegments lastSegment) {r : NamingHeaders}
    (hn : r.hintedFileName toStr lastSegment = some name) : IsFileName name := by
  unfold NamingHeaders.hintedFileName at hn
  split at hn
  case h_1 hint extension hhint hext =>
    obtain ⟨value, _, hext⟩ := Option.bind_eq_some_iff.1 hext
    have hplain := suggestExtension_plain hext
    have hfile := fileNameHintFromLocator_isFileName h hhint
    split at hn
    case isTrue => exact Option.some.inj hn ▸ hfile
    case isFalse =>
      exact Option.some.inj hn ▸ isFileName_append_extension hfile.2.2.2 hplain.1 hplain.2
  case h_2 hint hhint _ =>
    exact Option.some.inj hn ▸ fileNameHintFromLocator_isFileName h hhint
  case h_3 extension _ hext =>
    obtain ⟨value, _, hext⟩ := Option.bind_eq_some_iff.1 hext
    have hplain := suggestExtension_plain hext
    have hdownload : '/' ∉ "download".toList := by decide
    have hname : "download." = "download" ++ "." := by decide
    rw [← Option.some.inj hn, hname]
    exact isFileName_append_extension hdownload hplain.1 hplain.2
  case h_4 => cases hn

theorem temporaryName_isFileName (id : Nat) : IsFileName s!"download_{id}.tmp" := by
  have hname : '/' ∉ ("download_" ++ toString id).toList := by
    rw [String.toList_append, Nat.toString_eq_repr, Nat.toList_repr]
    intro hslash
    rcases List.mem_append.1 hslash with hmem | hmem
    · exact absurd hmem (by decide)
    · exact absurd (Nat.isDigit_of_mem_toDigits (by decide) (by decide) hmem) (by decide)
  have htext : s!"download_{id}.tmp" = "download_" ++ toString id ++ "." ++ "tmp" :=
    calc s!"download_{id}.tmp" = "download_" ++ toString id ++ ("." ++ "tmp") := rfl
      _ = "download_" ++ toString id ++ "." ++ "tmp" := String.append_assoc.symm
  rw [htext]
  exact isFileName_append_extension hname (by decide) (by decide)

theorem extractSuggestedFileName_eq_ok {r : NamingHeaders}
    (h : r.extractSuggestedFileName toStr lastSegment = .ok suggested) :
    suggested = (r.dispositionName toStr <|> r.hintedFileName toStr lastSegment) := by
  unfold NamingHeaders.extractSuggestedFileName at h
  unfold NamingHeaders.dispositionName
  cases hname : r.contentDispositionFileName toStr with
  | error err =>
    rw [hname] at h
    cases h
  | ok name =>
    rw [hname] at h
    cases name with
    | none => exact (Except.ok.inj h).symm
    | some name => exact (Except.ok.inj h).symm

/-- What a suggestion is: the name of a header, or else a plain file name. -/
def ComesFrom (disposed suggested : Option String) : Prop :=
  suggested = disposed ∧ disposed.isSome = true ∨
    disposed = none ∧ ∀ name, suggested = some name → IsFileName name

theorem comesFrom_none : ComesFrom none none :=
  .inr ⟨rfl, fun _ he => nomatch he⟩

theorem suggestedBy_comesFrom (h : ResolvesSegments lastSegment) {r : Option NamingHeaders}
    (hs : suggestedBy toStr lastSegment r = .ok name) (hrest : ComesFrom disposed suggested) :
    ComesFrom (disposedBy toStr lastSegment r disposed) (name <|> suggested) := by
  cases r with
  | none =>
    cases hs
    exact hrest
  | some r =>
    rw [extractSuggestedFileName_eq_ok hs, disposedBy]
    cases hd : r.dispositionName toStr with
    | some name => exact .inl ⟨rfl, rfl⟩
    | none =>
      cases hn : r.hintedFileName toStr lastSegment with
      | some name =>
        refine .inr ⟨rfl, fun name' he => ?_⟩
        exact Option.some.inj he ▸ hintedFileName_isFileName h hn
      | none => exact hrest

theorem probeSuggestedFileName_comesFrom (h : ResolvesSegments lastSegment)
    (hs : probeSuggestedFileName toStr lastSegment head range = .ok suggested) :
    ComesFrom (dispositionName toStr lastSegment head range) suggested := by
  unfold probeSuggestedFileName at hs
  cases hhead : suggestedBy toStr lastSegment head with
  | error err =>
    rw [hhead] at hs
    cases hs
  | ok headName =>
    cases hrange : suggestedBy toStr lastSegment range with
    | error err =>
      rw [hhead, hrange] at hs
      cases hs
    | ok name =>
      rw [hhead, hrange] at hs
      cases hs
      have hfirst : ComesFrom (disposedBy toStr lastSegment head none) headName := by
        have hown := suggestedBy_comesFrom h hhead comesFrom_none
        cases headName <;> exact hown
      exact suggestedBy_comesFrom h hrange hfirst

theorem downloadPath_eq {t : Task} (env : Env) (suggested : Option String)
    (hname : t.fileName = none) (hpath : t.filePath = none) :
    t.downloadPath env suggested = pathJoin t.config.downloadDir
      ((suggested <|> t.identity.resolvedUrl.bind env.urlFileName <|>
        env.specFileName t.spec).getD s!"download_{t.id}.tmp") := by
  simp only [Task.downloadPath, Task.initializeFileName, Task.getOrInitFilePath, hname, hpath]

/-- A name that, joined to the directory, leads to a place strictly below it: an absolute name
lies there by itself, and a relative one that climbs comes down again. -/
def NameStaysInside (dir name : String) : Prop :=
  if Paths.isAbsolute name.toList then normalizePath name < normalizePath dir
  else (normalizePath dir).Regains (normalizePath name)

theorem pathJoin_lt_iff (dir name : String) :
    normalizePath (pathJoin dir name) < normalizePath dir ↔ NameStaysInside dir name := by
  rw [normalizePath, toList_pathJoin]
  exact Paths.normalize_join_lt_iff

theorem IsFileName.staysInside (h : IsFileName name) (dir : String) : NameStaysInside dir name := by
  rw [← pathJoin_lt_iff, normalizePath, toList_pathJoin, Paths.normalize_join_name h]
  exact Paths.Place.down_lt _ (List.cons_ne_nil _ _)

theorem fallbackName_isFileName (h : ResolvesSegments lastSegment) {t : Task} (env : Env)
    (hspec : t.spec.supportsSwarmDiscovery = false) :
    IsFileName ((t.identity.resolvedUrl.bind (env.withHints lastSegment).urlFileName <|>
      (env.withHints lastSegment).specFileName t.spec).getD s!"download_{t.id}.tmp") := by
  cases hurl : t.identity.resolvedUrl.bind (env.withHints lastSegment).urlFileName with
  | some name =>
    obtain ⟨url, _, hname⟩ := Option.bind_eq_some_iff.1 hurl
    exact fileNameHintFromLocator_isFileName h hname
  | none =>
    cases hhint : (env.withHints lastSegment).specFileName t.spec with
    | some name => exact fileNameHint_isFileName h hspec hhint
    | none => exact temporaryName_isFileName t.id

theorem downloadPath_staysInside_iff (hurl : ResolvesSegments lastSegment) {t : Task} (env : Env)
    (hspec : t.spec.supportsSwarmDiscovery = false) (hname : t.fileName = none)
    (hpath : t.filePath = none)
    (h : probeSuggestedFileName toStr lastSegment head range = .ok suggested) :
    normalizePath (t.downloadPath (env.withHints lastSegment) suggested) <
        normalizePath t.config.downloadDir ↔
      ∀ name, dispositionName toStr lastSegment head range = some name →
        NameStaysInside t.config.downloadDir name := by
  rw [downloadPath_eq _ suggested hname hpath, pathJoin_lt_iff]
  rcases probeSuggestedFileName_comesFrom hurl h with ⟨hsame, hsome⟩ | ⟨hnone, hplain⟩
  · obtain ⟨name, hdisposed⟩ := Option.isSome_iff_exists.1 hsome
    rw [hsame, hdisposed]
    simp only [Option.some.injEq, forall_eq']
    exact Iff.rfl
  · rw [hnone]
    apply iff_of_true _ (fun name he => nomatch he)
    cases hs : suggested with
    | some name => exact (hplain name hs).staysInside _
    | none => exact (fallbackName_isFileName hurl env hspec).staysInside _

/-- A download of `https://example.com/file.bin` that nobody has named. -/
def unnamedTask : Task := { restoredTask [] with fileName := none, filePath := none }

/-- The last segment of the one locator that the runs below use. -/
def exampleSegment (locator : String) : Option String :=
  if locator = "https://example.com/file.bin" then some "file.bin" else none

theorem exampleSegment_resolves : ResolvesSegments exampleSegment := by
  intro locator segment h
  unfold exampleSegment at h
  split at h
  case isTrue =>
    cases h
    decide
  case isFalse => cases h

/-- An answer whose `Content-Disposition` header is the text given. -/
def disposedAnswer (disposition : String) : NamingHeaders :=
  ⟨"https://example.com/file.bin", some disposition.toUTF8.data.toList, none⟩

/-- A name that climbs, and comes down into the directory again. -/
theorem returning_name_stays_inside :
    normalizePath (unnamedTask.downloadPath (plainEnv.withHints exampleSegment)
      (some "../downloads/file.iso")) < normalizePath "/downloads" := by
  have hprobe : probeSuggestedFileName headerToStr exampleSegment none
      (some (disposedAnswer "attachment; filename=../downloads/file.iso")) =
      .ok (some "../downloads/file.iso") := by decide
  apply (downloadPath_staysInside_iff exampleSegment_resolves plainEnv rfl rfl rfl hprobe).2
  intro name hname
  have hdisposed : dispositionName headerToStr exampleSegment none
      (some (disposedAnswer "attachment; filename=../downloads/file.iso")) =
      some "../downloads/file.iso" := by decide
  obtain rfl := Option.some.inj (hdisposed.symm.trans hname)
  have hplace : normalizePath (pathJoin "/downloads" "../downloads/file.iso") <
      normalizePath "/downloads" := by decide
  exact (pathJoin_lt_iff "/downloads" "../downloads/file.iso").1 hplace

/-- Both forms of the header name any file of the machine. -/
theorem disposition_names_any_file :
    probeSuggestedFileName headerToStr exampleSegment none
        (some (disposedAnswer "attachment; filename=\"/etc/cron.d/job\"")) =
      .ok (some "/etc/cron.d/job") ∧
    ¬ normalizePath (unnamedTask.downloadPath (plainEnv.withHints exampleSegment)
      (some "/etc/cron.d/job")) < normalizePath "/downloads" ∧
    probeSuggestedFileName headerToStr exampleSegment none
        (some (disposedAnswer "attachment; filename*=utf-8''..%2F.profile")) =
      .ok (some "../.profile") ∧
    ¬ normalizePath (unnamedTask.downloadPath (plainEnv.withHints exampleSegment)
      (some "../.profile")) < normalizePath "/downloads" := by
  decide

end Paradown
