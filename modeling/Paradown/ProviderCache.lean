import Paradown.IndexTemplate
import Paradown.Prepare
import Paradown.Provider
import Paradown.Transition

namespace Paradown
set_option autoImplicit true

/-- Times and durations are in nanoseconds. -/
structure CacheFile where
  contents : ByteArray
  modified : Nat

abbrev CacheFiles := String → Option CacheFile

/-- How a write of a cache file ends: done, not even begun, or broken off after some bytes. -/
inductive WriteOutcome where
  | written
  | refused (err : String)
  | torn (bytes : Nat) (err : String)
  deriving DecidableEq

def WriteOutcome.error? : WriteOutcome → Option String
  | .written => none
  | .refused err | .torn _ err => some err

/-- What the write leaves in the file, if it touches it. -/
def WriteOutcome.stores (contents : ByteArray) : WriteOutcome → Option ByteArray
  | .written => some contents
  | .refused _ => none
  | .torn bytes _ => some (contents.extract 0 bytes)

namespace CacheFiles

def write (files : CacheFiles) (path : String) (contents : ByteArray) (now : Nat)
    (outcome : WriteOutcome) : CacheFiles :=
  match outcome.stores contents with
  | some stored => Function.update files path (some ⟨stored, now⟩)
  | none => files

def readToString (files : CacheFiles) (path : String) : Option String :=
  (files path).bind fun file => String.fromUTF8? file.contents

/-- A file that is dated after the present time is not fresh. -/
def isFreshCache (files : CacheFiles) (now ttl : Nat) (path : String) : Bool :=
  (files path).any fun file => decide (file.modified ≤ now ∧ now - file.modified ≤ ttl)

end CacheFiles

/-- `str::lines`. -/
def textLines (text : List Char) : List (List Char) :=
  let lines := text.splitOn '\n'
  let lines := if lines.getLast? = some [] then lines.dropLast else lines
  lines.map fun line => if line.getLast? = some '\r' then line.dropLast else line

def parseTrackerLines (contents : String) : List String :=
  ((textLines contents.toList).map fun line => trim (String.ofList line)).filter fun line =>
    line ≠ "" ∧ line.toList.head? ≠ some '#'

namespace TorrentSwarmProviderReport

def push (report : TorrentSwarmProviderReport) (candidate : TorrentSwarmProviderCandidate) :
    TorrentSwarmProviderReport :=
  if trim candidate.locator = "" then report
  else { report with candidates := report.candidates ++ [candidate] }

def diagnostic (report : TorrentSwarmProviderReport) (severity : TorrentSwarmProviderSeverity)
    (message : String) (source : Option String) : TorrentSwarmProviderReport :=
  { report with
    diagnostics := report.diagnostics ++ [⟨report.provider, severity, message, source⟩] }

end TorrentSwarmProviderReport

inductive TorrentDiscoveryInputKind where
  | auto
  | html
  | feed
  | text
  deriving DecidableEq

structure TorrentDiscoveryOptions where
  inputKind : TorrentDiscoveryInputKind
  baseUrl : Option String
  basePath : Option String

inductive TorrentDiscoveryKind where
  | magnet
  | torrentFile
  | tracker
  | webSeed
  deriving DecidableEq

structure TorrentDiscoveryCandidate where
  kind : TorrentDiscoveryKind
  locator : String
  displayName : Option String
  source : String

structure ServerAnswer where
  contentType : Option String
  bytes : ByteArray

/-- What the providers take from elsewhere: the encoding of `form_urlencoded`, what `url::Url` tells of
a URL, the hexadecimal SHA-1 digest, the two ways to read a body as text, and the search for candidates in a text. -/
structure ProviderEnv where
  byteSerialize : List UInt8 → List Char
  parseUrl : String → Except Error ParsedUrl
  lastSegment : String → Option String
  digest : String → String
  responseText : ServerAnswer → String
  fromUtf8Lossy : ByteArray → String
  discoverTorrentCandidates :
    String → TorrentDiscoveryOptions → Except Error (List TorrentDiscoveryCandidate)

/-- What `push_discovery_candidates_for_provider` makes of a candidate found in a text. -/
def discoveryCandidate (provider : String) (candidate : TorrentDiscoveryCandidate) :
    TorrentSwarmProviderCandidate :=
  match candidate.kind with
  | .magnet => ⟨.magnet, candidate.locator, candidate.displayName, provider, candidate.source⟩
  | .torrentFile =>
    ⟨.torrentFile, candidate.locator, candidate.displayName, provider, candidate.source⟩
  | .tracker => ⟨.tracker, candidate.locator, none, provider, candidate.source⟩
  | .webSeed => ⟨.webSeed, candidate.locator, none, provider, candidate.source⟩

structure TrackerListProvider where
  urls : List String
  cacheTtl : Nat

structure SwarmIndexProviderConfig where
  name : String
  urlTemplate : String
  inputKind : TorrentDiscoveryInputKind
  cacheTtlSecs : Nat
  timeoutSecs : Nat

def SwarmIndexProviderConfig.cacheTtl (config : SwarmIndexProviderConfig) : Nat :=
  config.cacheTtlSecs * 1000000000

structure IndexFeedProvider where
  config : SwarmIndexProviderConfig
  providerName : String

/-- What a read of a URL ends with: its contents, if there are any, and the files and the report. -/
structure SourceRead (σ : Type) where
  source : Option σ
  files : CacheFiles
  report : TorrentSwarmProviderReport

def noteFailedWrite (report : TorrentSwarmProviderReport) (message path url : String)
    (outcome : WriteOutcome) : TorrentSwarmProviderReport :=
  match outcome.error? with
  | some err => report.diagnostic .warning (message ++ path ++ ": " ++ err) (some url)
  | none => report

namespace TrackerListProvider

variable (env : ProviderEnv) (provider : TrackerListProvider)

def name : String := "tracker-list"

def cachePath (cacheDir url : String) : String :=
  pathJoin (pathJoin cacheDir "tracker-lists") (env.digest url ++ ".txt")

/-- `read_source` up to the request: the contents where the cache is fresh, even if they cannot be
read. -/
def readFresh (files : CacheFiles) (now : Nat) (cacheDir url : String) : Option (Option String) :=
  let path := cachePath env cacheDir url
  if files.isFreshCache now provider.cacheTtl path then some (files.readToString path) else none

/-- The rest of `read_source`, once the server has answered. -/
def readAnswer (files : CacheFiles) (now : Nat) (cacheDir url : String)
    (report : TorrentSwarmProviderReport) (answer : Except Error ServerAnswer)
    (outcome : WriteOutcome) : SourceRead String :=
  let path := cachePath env cacheDir url
  match answer with
  | .ok answer =>
    let contents := env.responseText answer
    { source := some contents
      files := files.write path contents.toUTF8 now outcome
      report := noteFailedWrite report "failed to write tracker cache " path url outcome }
  | .error err =>
    match files.readToString path with
    | some contents =>
      { source := some contents
        files
        report := report.diagnostic .warning
          ("using stale tracker cache after fetch failed: " ++ err.toText) (some url) }
    | none =>
      { source := none
        files
        report := report.diagnostic .error ("failed to fetch tracker list: " ++ err.toText)
          (some url) }

def candidates (url contents : String) : List TorrentSwarmProviderCandidate :=
  (parseTrackerLines contents).map fun tracker => ⟨.tracker, tracker, none, name, url⟩

/-- One turn of the loop of `discover` with the contents of a URL. -/
def use (url : String) (report : TorrentSwarmProviderReport) (source : Option String) :
    TorrentSwarmProviderReport :=
  match source with
  | none => report
  | some contents => (candidates url contents).foldl .push report

end TrackerListProvider

inductive FetchedIndexSource where
  | text (contents : String)
  | torrentFile (bytes : ByteArray)

inductive IndexProviderSource where
  | text (contents : String)
  | torrentFile (path : String)
  deriving DecidableEq

def looksLikeTorrentBytes (bytes : ByteArray) : Bool :=
  bytes.data.toList.head? == some 'd'.toNat.toUInt8 &&
    decide ("4:info".toUTF8.data.toList <:+: bytes.data.toList)

def isTorrentUrl (env : ProviderEnv) (url : String) : Bool :=
  (env.lastSegment url).any fun name =>
    decide (".torrent".toList <:+ name.toList.map Char.toLower)

def looksLikeTorrentResponse (env : ProviderEnv) (url : String) (answer : ServerAnswer) : Bool :=
  let contentType := answer.contentType.map fun value => value.toList.map Char.toLower
  let expectedTorrent := isTorrentUrl env url || contentType.any fun value =>
    decide ("application/x-bittorrent".toList <:+: value) ||
      decide ("application/octet-stream".toList <:+: value)
  if expectedTorrent then looksLikeTorrentBytes answer.bytes
  else if (contentType.any fun value => decide ("text/".toList <+: value)) &&
      looksLikeTorrentBytes answer.bytes then true
  else looksLikeTorrentBytes answer.bytes

namespace IndexFeedProvider

variable (env : ProviderEnv) (provider : IndexFeedProvider)

def new (config : SwarmIndexProviderConfig) : Except Error IndexFeedProvider :=
  let config := { config with name := trim config.name, urlTemplate := trim config.urlTemplate }
  if config.name = "" then .error (.other "index provider name cannot be blank")
  else if config.urlTemplate = "" then
    .error (.other "index provider url_template cannot be blank")
  else if config.cacheTtlSecs = 0 ∨ config.timeoutSecs = 0 then
    .error (.other "index provider cache_ttl_secs and timeout_secs must be greater than 0")
  else .ok ⟨config, "index-feed:" ++ config.name⟩

def cachePath (cacheDir url extension : String) : String :=
  pathJoin (pathJoin cacheDir "index-feeds")
    (env.digest (provider.providerName ++ "\n" ++ url) ++ "." ++ extension)

def readFresh (files : CacheFiles) (now : Nat) (cacheDir url : String) :
    Option (Option IndexProviderSource) :=
  let torrentPath := cachePath env provider cacheDir url "torrent"
  let textPath := cachePath env provider cacheDir url "txt"
  let ttl := provider.config.cacheTtl
  if files.isFreshCache now ttl torrentPath then some (some (.torrentFile torrentPath))
  else if files.isFreshCache now ttl textPath then some ((files.readToString textPath).map .text)
  else none

def fetched (url : String) (answer : ServerAnswer) : FetchedIndexSource :=
  if looksLikeTorrentResponse env url answer then .torrentFile answer.bytes
  else .text (env.fromUtf8Lossy answer.bytes)

def readAnswer (files : CacheFiles) (now : Nat) (cacheDir url : String)
    (report : TorrentSwarmProviderReport) (answer : Except Error ServerAnswer)
    (outcome : WriteOutcome) : SourceRead IndexProviderSource :=
  let torrentPath := cachePath env provider cacheDir url "torrent"
  let textPath := cachePath env provider cacheDir url "txt"
  match answer with
  | .ok answer =>
    match fetched env url answer with
    | .torrentFile bytes =>
      { source := some (.torrentFile torrentPath)
        files := files.write torrentPath bytes now outcome
        report := noteFailedWrite report "failed to write index cache " torrentPath url outcome }
    | .text contents =>
      { source := some (.text contents)
        files := files.write textPath contents.toUTF8 now outcome
        report := noteFailedWrite report "failed to write index cache " textPath url outcome }
  | .error err =>
    let stale := report.diagnostic .warning
      ("using stale index cache after fetch failed: " ++ err.toText) (some url)
    if (files torrentPath).isSome then
      { source := some (.torrentFile torrentPath), files, report := stale }
    else
      match files.readToString textPath with
      | some contents => { source := some (.text contents), files, report := stale }
      | none =>
        { source := none
          files
          report := report.diagnostic .error ("failed to fetch index feed: " ++ err.toText)
            (some url) }

/-- What the source of a URL holds, or why it cannot be read. -/
def candidates (spec : DownloadSpec) (url : String) :
    IndexProviderSource → Except Error (List TorrentSwarmProviderCandidate)
  | .torrentFile path =>
    .ok [⟨.torrentFile, path, spec.fileNameHint env.lastSegment, provider.providerName, url⟩]
  | .text contents =>
    (env.discoverTorrentCandidates contents ⟨provider.config.inputKind, some url, none⟩).map
      (List.map (discoveryCandidate provider.providerName))

def use (spec : DownloadSpec) (url : String) (report : TorrentSwarmProviderReport)
    (source : Option IndexProviderSource) : TorrentSwarmProviderReport :=
  match source with
  | none => report
  | some source =>
    match candidates env provider spec url source with
    | .ok candidates => candidates.foldl .push report
    | .error err =>
      report.diagnostic .error ("failed to parse index feed " ++ url ++ ": " ++ err.toText)
        (some url)

end IndexFeedProvider

end Paradown
