import Paradown.Status

namespace Paradown
set_option autoImplicit true

inductive TorrentEngineBackend where
  | libtorrent
  deriving DecidableEq, Repr

structure TorrentPieceHash where
  pieceIndex : Nat
  sha1 : Option String
  sha256 : Option String
  deriving DecidableEq, Repr

structure TorrentFileEntry where
  pathComponents : List String
  length : Nat
  offset : Nat
  deriving DecidableEq, Repr

structure TorrentTracker where
  url : String
  tier : Nat
  deriving DecidableEq, Repr

structure TorrentMetadata where
  name : String
  infoHashV1 : Option String
  infoHashV2 : Option String
  pieceSize : Nat
  pieceCount : Nat
  totalSize : Nat
  private' : Bool
  files : List TorrentFileEntry
  pieceHashes : List TorrentPieceHash
  trackers : List TorrentTracker
  webSeeds : List String
  deriving DecidableEq, Repr

structure TorrentEngineHandle where
  backend : TorrentEngineBackend
  externalId : String
  deriving DecidableEq, Repr

inductive TorrentEngineState where
  | resolvingMetadata
  | checkingFiles
  | downloading
  | seeding
  | paused
  | completed
  | error (message : String)
  deriving DecidableEq, Repr

structure TorrentResumeSnapshot where
  handle : TorrentEngineHandle
  state : TorrentEngineState
  metadata : Option TorrentMetadata
  resumeData : Option (List UInt8)
  deriving DecidableEq, Repr

end Paradown
