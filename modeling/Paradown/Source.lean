import Paradown.Http

namespace Paradown
set_option autoImplicit true

inductive DownloadSpec where
  | http (url : String)
  | https (url : String)
  | ftp (url : String)
  | torrentFile (path : String)
  | magnet (uri : String)
  | metadata (displayName infoHash : Option String)
  deriving DecidableEq, Repr

def DownloadSpec.locator : DownloadSpec → String
  | .http url | .https url | .ftp url => url
  | .torrentFile path => path
  | .magnet uri => uri
  | .metadata displayName infoHash => (infoHash <|> displayName).getD "metadata"

def DownloadSpec.supportsSwarmDiscovery : DownloadSpec → Bool
  | .torrentFile _ | .magnet _ | .metadata _ _ => true
  | _ => false

def DownloadSpec.identityKey : DownloadSpec → String
  | .http url | .https url | .ftp url => url
  | .torrentFile path => "torrent-file:" ++ path
  | .magnet uri => uri
  | .metadata displayName infoHash =>
    "metadata:" ++ infoHash.getD "" ++ ":" ++ displayName.getD ""

inductive SourceKind where
  | http
  | https
  | ftp
  | torrentFile
  | magnet
  | metadata
  | tracker
  | dht
  | peer
  | webSeed
  | mirror
  | offlineCache
  deriving DecidableEq, Repr

structure SourceCapabilities where
  metadataDiscovery : Bool
  randomAccess : Bool
  rangeRequests : Bool
  uploads : Bool
  dynamicAvailability : Bool
  deriving DecidableEq, Repr

def SourceCapabilities.httpOrigin : SourceCapabilities := ⟨false, true, true, false, false⟩

def SourceCapabilities.ftpOrigin : SourceCapabilities := ⟨false, true, false, false, false⟩

def SourceCapabilities.metadataOnly : SourceCapabilities := ⟨true, false, false, false, true⟩

structure SourceDescriptor where
  id : String
  kind : SourceKind
  locator : String
  metadataOnly : Bool
  request : Option HttpRequestOptions
  resourceIdentity : Option HttpResourceIdentity
  capabilities : SourceCapabilities
  deriving DecidableEq, Repr

def SourceDescriptor.fromSpec (spec : DownloadSpec) (request : Option HttpRequestOptions) :
    SourceDescriptor :=
  match spec with
  | .http url => ⟨"http::" ++ url, .http, url, false, request, none, .httpOrigin⟩
  | .https url => ⟨"https::" ++ url, .https, url, false, request, none, .httpOrigin⟩
  | .ftp url => ⟨"ftp::" ++ url, .ftp, url, false, request, none, .ftpOrigin⟩
  | .torrentFile path =>
    ⟨"torrent::" ++ path, .torrentFile, path, true, none, none, .metadataOnly⟩
  | .magnet uri => ⟨"magnet::" ++ uri, .magnet, uri, true, none, none, .metadataOnly⟩
  | .metadata displayName infoHash =>
    let stableKey := (infoHash <|> displayName).getD "metadata"
    ⟨"metadata::" ++ stableKey, .metadata, stableKey, true, none, none, .metadataOnly⟩

def SourceDescriptor.canTransferPayload (s : SourceDescriptor) : Bool := !s.metadataOnly

structure SourceSet where
  primaryId : Option String := none
  sources : List SourceDescriptor := []
  deriving DecidableEq, Repr, Inhabited

def SourceSet.singlePrimary (source : SourceDescriptor) : SourceSet :=
  ⟨some source.id, [source]⟩

def SourceSet.forSpec (spec : DownloadSpec) (request : Option HttpRequestOptions) : SourceSet :=
  .singlePrimary (.fromSpec spec request)

def SourceSet.isEmpty (s : SourceSet) : Bool := s.sources.isEmpty

def SourceSet.pushUnique (s : SourceSet) (source : SourceDescriptor) : SourceSet :=
  if s.sources.any (·.id == source.id) then s else { s with sources := s.sources ++ [source] }

def SourceSet.get (s : SourceSet) (sourceId : String) : Option SourceDescriptor :=
  s.sources.find? (·.id == sourceId)

def SourceSet.primary (s : SourceSet) : Option SourceDescriptor :=
  (s.primaryId.bind s.get) <|> s.sources.head?

/-- Change the first source that satisfies `p`. -/
def updateFirst (p : α → Bool) (f : α → α) : List α → List α
  | [] => []
  | a :: as => if p a then f a :: as else a :: updateFirst p f as

/-- `primary_mut`: unlike `primary`, a primary id that names no source selects nothing. -/
def SourceSet.modifyPrimary (s : SourceSet) (f : SourceDescriptor → SourceDescriptor) : SourceSet :=
  match s.primaryId with
  | some primaryId => { s with sources := updateFirst (·.id == primaryId) f s.sources }
  | none => { s with sources := updateFirst (fun _ => true) f s.sources }

def SourceSet.activeTransferSources (s : SourceSet) : List SourceDescriptor :=
  s.sources.filter (·.canTransferPayload)

end Paradown
