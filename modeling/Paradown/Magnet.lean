import Paradown.Distinct
import Paradown.Durability
import Paradown.Source
import Paradown.Transfer
import Paradown.Urlencoded

namespace Paradown
set_option autoImplicit true

/-- `str::rsplit_once`. -/
def rsplitOnce (c : Char) (text : List Char) : Option (List Char × List Char) :=
  (splitOnce c text.reverse).map fun halves => (halves.2.reverse, halves.1.reverse)

/-- The digits of a number below `limit`, after those that make up `value`. -/
def parseDigits (limit value : Nat) : List Char → Except String Nat
  | [] => .ok value
  | c :: rest =>
    if c.isDigit then
      let value := value * 10 + (c.toNat - '0'.toNat)
      if value < limit then parseDigits limit value rest
      else .error "number too large to fit in target type"
    else .error "invalid digit found in string"

/-- `str::parse::<u16>`, with the texts of its errors. -/
def parseU16 (text : List Char) : Except String UInt16 :=
  match text with
  | [] => .error "cannot parse integer from empty string"
  | ['+'] => .error "invalid digit found in string"
  | '+' :: digits => (parseDigits (2 ^ 16) 0 digits).map .ofNat
  | digits => (parseDigits (2 ^ 16) 0 digits).map .ofNat

structure TorrentPeerEndpoint where
  host : String
  port : UInt16
  deriving DecidableEq, Repr

def TorrentPeerEndpoint.parse (value : String) : Except Error TorrentPeerEndpoint :=
  let value := trim value
  match rsplitOnce ':' value.toList with
  | none => .error (.other s!"torrent peer must be HOST:PORT, got '{value}'")
  | some (host, port) =>
    let host := String.ofList host
    if trim host = "" then .error (.other s!"torrent peer host cannot be blank in '{value}'")
    else
      match parseU16 port with
      | .error err => .error (.other s!"invalid torrent peer port in '{value}': {err}")
      | .ok port => .ok ⟨host, port⟩

/-- The `Display` text. -/
def TorrentPeerEndpoint.toText (peer : TorrentPeerEndpoint) : String :=
  peer.host ++ ":" ++ toString peer.port.toNat

structure TorrentSwarmHints where
  trackers : List String := []
  peers : List TorrentPeerEndpoint := []
  webSeeds : List String := []
  deriving DecidableEq, Repr

def pushUnique (values : List String) (value : String) : List String :=
  if trim value = "" then values else Distinct.add values (trim value)

namespace TorrentSwarmHints

def addTracker (hints : TorrentSwarmHints) (tracker : String) : TorrentSwarmHints :=
  { hints with trackers := pushUnique hints.trackers tracker }

def addPeer (hints : TorrentSwarmHints) (peer : TorrentPeerEndpoint) : TorrentSwarmHints :=
  { hints with peers := Distinct.add hints.peers peer }

def addWebSeed (hints : TorrentSwarmHints) (webSeed : String) : TorrentSwarmHints :=
  { hints with webSeeds := pushUnique hints.webSeeds webSeed }

def merge (hints other : TorrentSwarmHints) : TorrentSwarmHints :=
  let hints := other.trackers.foldl addTracker hints
  let hints := other.peers.foldl addPeer hints
  other.webSeeds.foldl addWebSeed hints

end TorrentSwarmHints

inductive MagnetExactTopic where
  | btih (hash : String)
  | btmh (hash : String)
  | other (value : String)
  deriving DecidableEq, Repr

def parseExactTopic (value : String) : MagnetExactTopic :=
  match value.toList.dropPrefix? "urn:btih:".toList with
  | some hash => .btih (String.ofList (hash.map Char.toLower))
  | none =>
    match value.toList.dropPrefix? "urn:btmh:".toList with
    | some hash => .btmh (String.ofList (hash.map Char.toLower))
    | none => .other value

structure MagnetParameter where
  key : String
  value : String
  deriving DecidableEq, Repr

structure MagnetLink where
  uri : String
  exactTopics : List MagnetExactTopic := []
  displayName : Option String := none
  trackers : List String := []
  peers : List TorrentPeerEndpoint := []
  webSeeds : List String := []
  exactSources : List String := []
  extensions : List MagnetParameter := []
  params : List MagnetParameter := []

/-- What `url::Url` tells of a URI: its scheme and its `query_pairs`. -/
structure ParsedUrl where
  scheme : String
  queryPairs : List MagnetParameter

/-- The field that a parameter fills. -/
def MagnetLink.fill (link : MagnetLink) (parameter : MagnetParameter) : Except Error MagnetLink :=
  let value := parameter.value
  match parameter.key with
  | "xt" => .ok { link with exactTopics := link.exactTopics ++ [parseExactTopic value] }
  | "dn" => .ok { link with displayName := some value }
  | "tr" => .ok { link with trackers := pushUnique link.trackers value }
  | "x.pe" => do
    let peer ← TorrentPeerEndpoint.parse value
    .ok { link with peers := link.peers ++ [peer] }
  | "ws" => .ok { link with webSeeds := pushUnique link.webSeeds value }
  | "xs" => .ok { link with exactSources := pushUnique link.exactSources value }
  | _ => .ok { link with extensions := link.extensions ++ [parameter] }

/-- One turn of the loop over the parameters of a URI. -/
def MagnetLink.addParameter (link : MagnetLink) (parameter : MagnetParameter) :
    Except Error MagnetLink := do
  let link ← link.fill parameter
  .ok { link with params := link.params ++ [parameter] }

def MagnetLink.swarmHints (link : MagnetLink) : TorrentSwarmHints :=
  ⟨link.trackers, link.peers, link.webSeeds⟩

/-- The set is kept as a list. -/
def valuesForKey (params : List MagnetParameter) (key : String) : List String :=
  (params.filter fun parameter => parameter.key = key).map (·.value)

/-- One turn of a loop over hints of one kind: the parameters so far, and the values of its key. -/
def pushHint (key : String) (state : List MagnetParameter × List String) (value : String) :
    List MagnetParameter × List String :=
  if value ∈ state.2 then state else (state.1 ++ [⟨key, value⟩], value :: state.2)

/-- The parameters of the enhanced URI. -/
def MagnetLink.enhancedPairs (link : MagnetLink) (hints : TorrentSwarmHints) :
    List MagnetParameter :=
  let pairs := link.params
  let trackers := valuesForKey pairs "tr"
  let peers := valuesForKey pairs "x.pe"
  let webSeeds := valuesForKey pairs "ws"
  let pairs := (hints.trackers.foldl (pushHint "tr") (pairs, trackers)).1
  let pairs := ((hints.peers.map (·.toText)).foldl (pushHint "x.pe") (pairs, peers)).1
  (hints.webSeeds.foldl (pushHint "ws") (pairs, webSeeds)).1

section
-- `Url::parse` and the serializer of `form_urlencoded`.
variable (parseUrl : String → Except Error ParsedUrl) (serialize : List MagnetParameter → String)

def MagnetLink.parse (uri : String) : Except Error MagnetLink := do
  let parsed ← parseUrl uri
  if parsed.scheme ≠ "magnet" then .error (.unsupportedProtocol parsed.scheme)
  else parsed.queryPairs.foldlM MagnetLink.addParameter { uri }

def MagnetLink.enhance (link : MagnetLink) (hints : TorrentSwarmHints) : Except Error String :=
  .ok ("magnet:?" ++ serialize (link.enhancedPairs hints))

def TorrentSwarmHints.enhanceMagnetUri (hints : TorrentSwarmHints) (uri : String) :
    Except Error String := do
  let link ← MagnetLink.parse parseUrl uri
  link.enhance serialize hints

def TorrentSwarmHints.addSource (hints : TorrentSwarmHints) (source : SourceDescriptor) :
    Except Error TorrentSwarmHints :=
  match source.kind with
  | .tracker => .ok (hints.addTracker source.locator)
  | .peer => do
    let peer ← TorrentPeerEndpoint.parse source.locator
    .ok (hints.addPeer peer)
  | .webSeed => .ok (hints.addWebSeed source.locator)
  | _ => .ok hints

def TorrentSwarmHints.fromSpecAndSources (spec : DownloadSpec) (sources : SourceSet) :
    Except Error TorrentSwarmHints := do
  let hints : TorrentSwarmHints ←
    match spec with
    | .magnet uri => do
      let link ← MagnetLink.parse parseUrl uri
      .ok (TorrentSwarmHints.merge {} link.swarmHints)
    | _ => .ok {}
  sources.sources.foldlM addSource hints

/-- What the serializer writes is read as the parameters that it was given. -/
def ReadsBack : Prop :=
  ∀ pairs, parseUrl ("magnet:?" ++ serialize pairs) = .ok ⟨"magnet", pairs⟩

end

/-- The parameters that hints ask for. -/
def TorrentSwarmHints.parameters (hints : TorrentSwarmHints) : List MagnetParameter :=
  hints.trackers.map (⟨"tr", ·⟩) ++
    (hints.peers.map fun peer => ⟨"x.pe", peer.toText⟩) ++ hints.webSeeds.map (⟨"ws", ·⟩)

theorem mem_valuesForKey : value ∈ valuesForKey params key ↔ ⟨key, value⟩ ∈ params := by
  unfold valuesForKey
  rw [List.mem_map]
  constructor
  · rintro ⟨parameter, hm, rfl⟩
    obtain ⟨hm, hk⟩ := List.mem_filter.1 hm
    rw [← of_decide_eq_true hk]
    exact hm
  · intro hm
    exact ⟨⟨key, value⟩, List.mem_filter.2 ⟨hm, decide_eq_true rfl⟩, rfl⟩

theorem foldl_pushHint (values : List String)
    (h : ∀ value, value ∈ seen ↔ (⟨key, value⟩ : MagnetParameter) ∈ pairs) :
    (values.foldl (pushHint key) (pairs, seen)).1 =
      Distinct.addAll pairs (values.map (⟨key, ·⟩)) := by
  induction values generalizing pairs seen with
  | nil => rfl
  | cons value values ih =>
    rw [List.foldl_cons, List.map_cons, Distinct.addAll_cons]
    by_cases hv : value ∈ seen
    · have hskip : pushHint key (pairs, seen) value = (pairs, seen) := if_pos hv
      rw [hskip, Distinct.add_of_mem ((h value).1 hv)]
      exact ih h
    · have hpush : pushHint key (pairs, seen) value = (pairs ++ [⟨key, value⟩], value :: seen) :=
        if_neg hv
      rw [hpush, Distinct.add_of_notMem fun hm => hv ((h value).2 hm)]
      apply ih
      intro v
      rw [List.mem_cons, List.mem_append, List.mem_singleton, h v, MagnetParameter.mk.injEq,
        or_comm]
      simp only [true_and]

theorem mem_valuesForKey_addAll (h : ∀ parameter ∈ added, parameter.key ≠ key) :
    value ∈ valuesForKey params key ↔
      (⟨key, value⟩ : MagnetParameter) ∈ Distinct.addAll params added := by
  rw [mem_valuesForKey, Distinct.mem_addAll]
  exact (or_iff_left fun hm => h _ hm rfl).symm

/-- The three loops add the parameters of the hints that are missing, each of them once. -/
theorem MagnetLink.enhancedPairs_eq (link : MagnetLink) (hints : TorrentSwarmHints) :
    link.enhancedPairs hints = Distinct.addAll link.params hints.parameters := by
  have htrackers (parameter : MagnetParameter)
      (hm : parameter ∈ hints.trackers.map (MagnetParameter.mk "tr")) : parameter.key = "tr" := by
    obtain ⟨tracker, _, rfl⟩ := List.mem_map.1 hm
    rfl
  have hpeers (parameter : MagnetParameter)
      (hm : parameter ∈ (hints.peers.map (·.toText)).map (MagnetParameter.mk "x.pe")) :
      parameter.key = "x.pe" := by
    obtain ⟨peer, _, rfl⟩ := List.mem_map.1 hm
    rfl
  simp only [enhancedPairs]
  rw [foldl_pushHint hints.trackers fun _ => mem_valuesForKey,
    foldl_pushHint _ fun _ => mem_valuesForKey_addAll fun parameter hm => ?_,
    ← Distinct.addAll_append,
    foldl_pushHint hints.webSeeds fun _ => mem_valuesForKey_addAll fun parameter hm => ?_,
    ← Distinct.addAll_append, TorrentSwarmHints.parameters, List.map_map]
  · rfl
  · rcases List.mem_append.1 hm with hm | hm
    · rw [htrackers parameter hm]
      decide
    · rw [hpeers parameter hm]
      decide
  · rw [htrackers parameter hm]
    decide

section
variable {parseUrl : String → Except Error ParsedUrl} {serialize : List MagnetParameter → String}
variable {uri : String}

/-- A URI parses when it is a magnet URI and names every peer by a host and a port. -/
def ParsedUrl.IsMagnet (url : ParsedUrl) : Prop :=
  url.scheme = "magnet" ∧ ∀ parameter ∈ url.queryPairs, parameter.key = "x.pe" →
    ∃ peer, TorrentPeerEndpoint.parse parameter.value = .ok peer

theorem MagnetLink.fill_params {link : MagnetLink} (h : link.fill parameter = .ok link') :
    link'.params = link.params := by
  unfold fill at h
  split at h
  case h_4 =>
    cases hp : TorrentPeerEndpoint.parse parameter.value with
    | error err =>
      simp only [hp] at h
      cases h
    | ok peer =>
      simp only [hp] at h
      cases h
      rfl
  all_goals
    cases h
    rfl

theorem MagnetLink.fill_isOk (link : MagnetLink) (parameter : MagnetParameter) :
    (∃ link', link.fill parameter = .ok link') ↔
      (parameter.key = "x.pe" → ∃ peer, TorrentPeerEndpoint.parse parameter.value = .ok peer) := by
  unfold fill
  split
  case h_4 hkey =>
    rw [imp_iff_right hkey]
    cases hp : TorrentPeerEndpoint.parse parameter.value with
    | error err => simp [hp, bind, Except.bind]
    | ok peer => simp [hp, bind, Except.bind]
  case h_7 _ _ _ hkey _ _ => exact iff_of_true ⟨_, rfl⟩ fun he => absurd he hkey
  all_goals
    rename_i hkey
    exact iff_of_true ⟨_, rfl⟩ fun he => absurd (hkey.symm.trans he) (by decide)

theorem MagnetLink.addParameter_params {link : MagnetLink}
    (h : link.addParameter parameter = .ok link') : link'.params = link.params ++ [parameter] := by
  unfold addParameter at h
  cases hf : link.fill parameter with
  | error err =>
    rw [hf] at h
    cases h
  | ok filled =>
    rw [hf] at h
    cases h
    rw [fill_params hf]

theorem MagnetLink.foldlM_params {link : MagnetLink}
    (h : parameters.foldlM addParameter link = .ok link') :
    link'.params = link.params ++ parameters := by
  induction parameters generalizing link with
  | nil =>
    cases h
    exact (List.append_nil _).symm
  | cons parameter parameters ih =>
    rw [List.foldlM_cons] at h
    cases ha : link.addParameter parameter with
    | error err =>
      rw [ha] at h
      cases h
    | ok next =>
      rw [ha] at h
      rw [ih h, addParameter_params ha, List.append_assoc]
      rfl

theorem MagnetLink.foldlM_isOk (link : MagnetLink) (parameters : List MagnetParameter) :
    (∃ link', parameters.foldlM addParameter link = .ok link') ↔
      ∀ parameter ∈ parameters, parameter.key = "x.pe" →
        ∃ peer, TorrentPeerEndpoint.parse parameter.value = .ok peer := by
  induction parameters generalizing link with
  | nil => exact iff_of_true ⟨link, rfl⟩ fun _ hm => absurd hm List.not_mem_nil
  | cons parameter parameters ih =>
    rw [List.forall_mem_cons, ← fill_isOk link parameter, List.foldlM_cons]
    cases hf : link.fill parameter with
    | error err => simp [addParameter, hf, bind, Except.bind]
    | ok filled =>
      rw [and_iff_right ⟨filled, rfl⟩, ← ih { filled with params := filled.params ++ [parameter] }]
      simp only [addParameter, hf, bind, Except.bind]

/-- A URI is parsed into a link with its parameters if and only if it is a magnet URI. -/
theorem MagnetLink.parse_isOk (hu : parseUrl uri = .ok url) :
    (∃ link, MagnetLink.parse parseUrl uri = .ok link) ↔ url.IsMagnet := by
  have hparse : MagnetLink.parse parseUrl uri =
      if url.scheme ≠ "magnet" then .error (.unsupportedProtocol url.scheme)
      else url.queryPairs.foldlM MagnetLink.addParameter { uri } := by
    rw [MagnetLink.parse, hu]
    rfl
  rw [hparse, ParsedUrl.IsMagnet]
  by_cases hs : url.scheme = "magnet"
  · rw [if_neg (not_not_intro hs), and_iff_right hs]
    exact foldlM_isOk _ _
  · rw [if_pos hs]
    exact iff_of_false (fun ⟨_, h⟩ => nomatch h) fun h => hs h.1

theorem MagnetLink.parse_params (h : MagnetLink.parse parseUrl uri = .ok link) :
    ∃ url, parseUrl uri = .ok url ∧ url.IsMagnet ∧ link.params = url.queryPairs := by
  cases hu : parseUrl uri with
  | error err =>
    rw [MagnetLink.parse, hu] at h
    cases h
  | ok url =>
    have hmagnet := (parse_isOk hu).1 ⟨link, h⟩
    refine ⟨url, rfl, hmagnet, ?_⟩
    rw [MagnetLink.parse, hu] at h
    simp only [bind, Except.bind, if_neg (not_not_intro hmagnet.1)] at h
    exact foldlM_params h

end

theorem splitOnce_append (h : c ∉ left) (right : List Char) :
    splitOnce c (left ++ c :: right) = some (left, right) := by
  induction left with
  | nil => exact if_pos rfl
  | cons d left ih =>
    obtain ⟨hd, hleft⟩ := not_or.1 (mt List.mem_cons.2 h)
    rw [List.cons_append, splitOnce, if_neg (Ne.symm hd), ih hleft]
    rfl

theorem rsplitOnce_append (h : c ∉ right) (left : List Char) :
    rsplitOnce c (left ++ c :: right) = some (left, right) := by
  rw [rsplitOnce, List.reverse_append, List.reverse_cons, List.append_assoc]
  have hr : c ∉ right.reverse := fun hm => h (List.mem_reverse.1 hm)
  rw [List.singleton_append, splitOnce_append hr, Option.map_some, List.reverse_reverse,
    List.reverse_reverse]

theorem parseDigits_of_lt (hd : ∀ c ∈ digits, c.isDigit = true)
    (h : Nat.ofDigitChars 10 digits value < limit) :
    parseDigits limit value digits = .ok (Nat.ofDigitChars 10 digits value) := by
  induction digits generalizing value with
  | nil => rfl
  | cons d digits ih =>
    obtain ⟨hd, hdigits⟩ := List.forall_mem_cons.1 hd
    rw [Nat.ofDigitChars_cons] at h ⊢
    rw [parseDigits, if_pos hd, Nat.mul_comm value 10]
    have hle : 10 * value + (d.toNat - '0'.toNat) ≤
        Nat.ofDigitChars 10 digits (10 * value + (d.toNat - '0'.toNat)) := by
      rw [Nat.ofDigitChars_eq_ofDigitChars_zero]
      exact Nat.le_add_right_of_le (Nat.le_mul_of_pos_left _ (Nat.pow_pos (by decide)))
    have hlt := Nat.lt_of_le_of_lt hle h
    exact (if_pos hlt).trans (ih hdigits h)

theorem parseU16_toDigits (port : UInt16) : parseU16 (Nat.toDigits 10 port.toNat) = .ok port := by
  have hdigits : ∀ c ∈ Nat.toDigits 10 port.toNat, c.isDigit = true := fun c hc =>
    Nat.isDigit_of_mem_toDigits (by decide) (by decide) hc
  have hlt : Nat.ofDigitChars 10 (Nat.toDigits 10 port.toNat) 0 < 2 ^ 16 := by
    rw [Nat.ofDigitChars_ten_toDigits]
    exact port.toNat_lt
  have hparse := parseDigits_of_lt hdigits hlt
  rw [Nat.ofDigitChars_ten_toDigits] at hparse
  unfold parseU16
  split
  case h_1 hnil => exact absurd hnil Nat.toDigits_ne_nil
  case h_2 hplus =>
    rw [hplus] at hdigits
    exact absurd (hdigits '+' List.mem_cons_self) (by decide)
  case h_3 hplus =>
    rw [hplus] at hdigits
    exact absurd (hdigits '+' List.mem_cons_self) (by decide)
  case h_4 =>
    rw [hparse]
    exact congrArg Except.ok UInt16.ofNat_toNat

theorem isWhiteSpace_of_isDigit {c : Char} (h : c.isDigit = true) : isWhiteSpace c = false := by
  rw [Char.isDigit, Bool.and_eq_true, decide_eq_true_iff, decide_eq_true_iff] at h
  have hlow : 48 ≤ c.toNat := h.1
  have hhigh : c.toNat ≤ 57 := h.2
  unfold isWhiteSpace
  grind

theorem trim_toText {peer : TorrentPeerEndpoint} (h : trim peer.host ≠ "") :
    ∃ c host, isWhiteSpace c = false ∧
      trim peer.toText = String.ofList (c :: host ++ ':' :: Nat.toDigits 10 peer.port.toNat) := by
  cases hhost : peer.host.toList.dropWhile isWhiteSpace with
  | nil =>
    rw [trim, hhost] at h
    exact absurd rfl h
  | cons c host =>
    have hc : isWhiteSpace c = false := by
      have hn := List.head_dropWhile_not (p := isWhiteSpace) (l := peer.host.toList)
        (by rw [hhost]; exact List.cons_ne_nil c host)
      simpa only [hhost, List.head_cons] using hn
    refine ⟨c, host, hc, ?_⟩
    have htext : peer.toText.toList =
        peer.host.toList ++ ':' :: Nat.toDigits 10 peer.port.toNat := by
      rw [TorrentPeerEndpoint.toText, String.toList_append, String.toList_append,
        Nat.toString_eq_repr, Nat.toList_repr, List.append_assoc]
      rfl
    rw [trim, htext, List.dropWhile_append, hhost, if_neg (by simp)]
    congr 1
    apply List.rdropWhile_eq_self_iff.2
    intro hne
    rw [Bool.not_eq_true]
    apply isWhiteSpace_of_isDigit
    apply Nat.isDigit_of_mem_toDigits (b := 10) (n := peer.port.toNat) (by decide) (by decide)
    rw [List.getLast_append_of_ne_nil _ (List.cons_ne_nil _ _),
      List.getLast_cons Nat.toDigits_ne_nil]
    exact List.getLast_mem _

/-- A peer with a host that is not blank is read from its text. -/
theorem TorrentPeerEndpoint.parse_toText {peer : TorrentPeerEndpoint}
    (h : trim peer.host ≠ "") : ∃ peer', TorrentPeerEndpoint.parse peer.toText = .ok peer' := by
  obtain ⟨c, host, hc, htrim⟩ := trim_toText h
  have hcolon : ':' ∉ Nat.toDigits 10 peer.port.toNat := by
    intro hm
    exact absurd (Nat.isDigit_of_mem_toDigits (by decide) (by decide) hm) (by decide)
  have hblank : trim (String.ofList (c :: host)) ≠ "" :=
    trim_ne_empty (by rw [String.toList_ofList]; exact List.mem_cons_self) hc
  refine ⟨⟨String.ofList (c :: host), peer.port⟩, ?_⟩
  unfold parse
  simp only [htrim, String.toList_ofList, rsplitOnce_append hcolon, if_neg hblank,
    parseU16_toDigits]

section
variable {parseUrl : String → Except Error ParsedUrl} {serialize : List MagnetParameter → String}
variable {uri : String} {hints : TorrentSwarmHints}

theorem TorrentSwarmHints.enhanceMagnetUri_eq (h : MagnetLink.parse parseUrl uri = .ok link) :
    hints.enhanceMagnetUri parseUrl serialize uri =
      .ok ("magnet:?" ++ serialize (Distinct.addAll link.params hints.parameters)) := by
  rw [enhanceMagnetUri, h, ← MagnetLink.enhancedPairs_eq]
  rfl

theorem TorrentSwarmHints.parameters_peer (hh : ∀ peer ∈ hints.peers, trim peer.host ≠ "")
    (hm : parameter ∈ hints.parameters) (hk : parameter.key = "x.pe") :
    ∃ peer, TorrentPeerEndpoint.parse parameter.value = .ok peer := by
  rcases List.mem_append.1 hm with hm | hm
  · rcases List.mem_append.1 hm with hm | hm
    · obtain ⟨tracker, _, rfl⟩ := List.mem_map.1 hm
      exact absurd hk (by decide : ¬("tr" = "x.pe"))
    · obtain ⟨peer, hpeer, rfl⟩ := List.mem_map.1 hm
      exact TorrentPeerEndpoint.parse_toText (hh peer hpeer)
  · obtain ⟨webSeed, _, rfl⟩ := List.mem_map.1 hm
    exact absurd hk (by decide : ¬("ws" = "x.pe"))

/-- An enhanced URI has the parameters that it had, then those of the hints that it had not, each
of them once; to enhance it again changes nothing. -/
theorem TorrentSwarmHints.enhanceMagnetUri_conservative (hr : ReadsBack parseUrl serialize)
    (hp : MagnetLink.parse parseUrl uri = .ok link)
    (hh : ∀ peer ∈ hints.peers, trim peer.host ≠ "") :
    ∃ uri' url url' link' added,
      hints.enhanceMagnetUri parseUrl serialize uri = .ok uri' ∧
      MagnetLink.parse parseUrl uri' = .ok link' ∧
      parseUrl uri = .ok url ∧ parseUrl uri' = .ok url' ∧
      url'.queryPairs = url.queryPairs ++ added ∧ added ⊆ hints.parameters ∧
      (∀ parameter ∈ hints.parameters, parameter ∈ url'.queryPairs ∧
        (parameter ∉ url.queryPairs → url'.queryPairs.count parameter = 1)) ∧
      hints.enhanceMagnetUri parseUrl serialize uri' = .ok uri' := by
  obtain ⟨url, hurl, ⟨_, hpeers⟩, hparams⟩ := MagnetLink.parse_params hp
  obtain ⟨added, hadded, hnodup, hmem⟩ := Distinct.addAll_eq_append link.params hints.parameters
  have hread := hr (link.params ++ added)
  have hmagnet : (⟨"magnet", link.params ++ added⟩ : ParsedUrl).IsMagnet := by
    refine ⟨rfl, ?_⟩
    intro parameter hm hk
    rcases List.mem_append.1 hm with hm | hm
    · exact hpeers parameter (hparams ▸ hm) hk
    · exact parameters_peer hh (hmem parameter hm).1 hk
  obtain ⟨link', hlink'⟩ := (MagnetLink.parse_isOk hread).2 hmagnet
  have hparams' : link'.params = link.params ++ added := by
    obtain ⟨url', hurl', _, hpairs⟩ := MagnetLink.parse_params hlink'
    rw [hread] at hurl'
    cases hurl'
    exact hpairs
  have hin : ∀ parameter ∈ hints.parameters, parameter ∈ link.params ++ added := fun parameter hm =>
    hadded ▸ Distinct.mem_addAll.2 (.inr hm)
  refine ⟨_, url, _, link', added, hadded ▸ enhanceMagnetUri_eq hp, hlink', hurl, hread, ?_, ?_, ?_,
    ?_⟩
  · rw [hparams]
  · exact fun parameter hm => (hmem parameter hm).1
  · intro parameter hm
    refine ⟨hin parameter hm, ?_⟩
    intro hnot
    rw [← hparams] at hnot
    have hnew := (List.mem_append.1 (hin parameter hm)).resolve_left hnot
    change (link.params ++ added).count parameter = 1
    rw [List.count_append, List.count_eq_zero_of_not_mem hnot,
      List.count_eq_one_of_mem hnodup hnew]
  · rw [enhanceMagnetUri_eq hlink', hparams', Distinct.addAll_of_subset hin]

end

/-- A parser that knows magnet URIs only, and reads their parameters as they are encoded. -/
def parseMagnetUrl (uri : String) : Except Error ParsedUrl :=
  match uri.toList.dropPrefix? "magnet:?".toList with
  | some query => .ok ⟨"magnet", (Urlencoded.parse query).map fun pair => ⟨pair.1, pair.2⟩⟩
  | none => .error (.parse "relative URL without a base")

def serializeParameters (parameters : List MagnetParameter) : String :=
  .ofList (Urlencoded.serialize (parameters.map fun parameter => (parameter.key, parameter.value)))

theorem serializeParameters_readsBack : ReadsBack parseMagnetUrl serializeParameters := by
  intro pairs
  rw [parseMagnetUrl, String.toList_append, List.dropPrefix?_append_of_beq _ (beq_self_eq_true _)]
  simp only [serializeParameters, String.toList_ofList, Urlencoded.parse_serialize, List.map_map]
  congr 2
  exact List.map_id pairs

theorem tracker_and_peer_added :
    let hints : TorrentSwarmHints :=
      { trackers := ["udp://a/1", "udp://b/2"], peers := [⟨"127.0.0.1", 6881⟩] }
    ∃ uri' url url' link' added,
      hints.enhanceMagnetUri parseMagnetUrl serializeParameters
        "magnet:?xt=urn%3Abtih%3Aab&tr=udp%3A%2F%2Fa%2F1" = .ok uri' ∧
      MagnetLink.parse parseMagnetUrl uri' = .ok link' ∧
      parseMagnetUrl "magnet:?xt=urn%3Abtih%3Aab&tr=udp%3A%2F%2Fa%2F1" = .ok url ∧
      parseMagnetUrl uri' = .ok url' ∧
      url'.queryPairs = url.queryPairs ++ added ∧ added ⊆ hints.parameters ∧
      (∀ parameter ∈ hints.parameters, parameter ∈ url'.queryPairs ∧
        (parameter ∉ url.queryPairs → url'.queryPairs.count parameter = 1)) ∧
      hints.enhanceMagnetUri parseMagnetUrl serializeParameters uri' = .ok uri' := by
  have huri : "magnet:?" ++ serializeParameters [⟨"xt", "urn:btih:ab"⟩, ⟨"tr", "udp://a/1"⟩] =
      "magnet:?xt=urn%3Abtih%3Aab&tr=udp%3A%2F%2Fa%2F1" := by
    decide
  have hread := serializeParameters_readsBack [⟨"xt", "urn:btih:ab"⟩, ⟨"tr", "udp://a/1"⟩]
  rw [huri] at hread
  obtain ⟨link, hlink⟩ := (MagnetLink.parse_isOk hread).2 ⟨rfl, by simp⟩
  exact TorrentSwarmHints.enhanceMagnetUri_conservative serializeParameters_readsBack hlink
    (by decide)

end Paradown
