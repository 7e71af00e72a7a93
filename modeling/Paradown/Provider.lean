import Paradown.Magnet

namespace Paradown
set_option autoImplicit true

structure SwarmProviderLimits where
  maxTrackers : Nat
  maxPeers : Nat
  maxWebSeeds : Nat
  maxLocators : Nat
  maxDiagnostics : Nat

inductive TorrentSwarmProviderCandidateKind where
  | tracker
  | peer
  | webSeed
  | magnet
  | torrentFile
  deriving DecidableEq, Repr

structure TorrentSwarmProviderCandidate where
  kind : TorrentSwarmProviderCandidateKind
  locator : String
  displayName : Option String := none
  provider : String
  source : String
  deriving DecidableEq, Repr

inductive TorrentSwarmProviderSeverity where
  | info
  | warning
  | error
  deriving DecidableEq, Repr

structure TorrentSwarmProviderDiagnostic where
  provider : String
  severity : TorrentSwarmProviderSeverity
  message : String
  source : Option String := none
  deriving DecidableEq, Repr

structure TorrentSwarmProviderReport where
  provider : String
  candidates : List TorrentSwarmProviderCandidate := []
  diagnostics : List TorrentSwarmProviderDiagnostic := []
  deriving DecidableEq, Repr

structure TorrentSwarmProviderContext where
  spec : DownloadSpec
  existingHints : TorrentSwarmHints
  cacheDir : String

/-- A provider is asked once in a resolution, and may answer anything. -/
structure TorrentSwarmProvider where
  name : String
  discover : TorrentSwarmProviderContext → Except Error TorrentSwarmProviderReport

structure TorrentSwarmProviderResolution where
  hints : TorrentSwarmHints
  candidates : List TorrentSwarmProviderCandidate := []
  diagnostics : List TorrentSwarmProviderDiagnostic := []
  reports : List TorrentSwarmProviderReport := []
  deriving DecidableEq, Repr

/-- The set is kept as a list. -/
abbrev SeenCandidates := List (TorrentSwarmProviderCandidateKind × String)

def TorrentSwarmProviderCandidate.pair (candidate : TorrentSwarmProviderCandidate) :
    TorrentSwarmProviderCandidateKind × String :=
  (candidate.kind, candidate.locator)

def TorrentSwarmProviderCandidate.isLocator (candidate : TorrentSwarmProviderCandidate) : Bool :=
  match candidate.kind with
  | .magnet | .torrentFile => true
  | _ => false

section
variable (limits : SwarmProviderLimits)

/-- The hints with what the candidate names, if its kind has room for it. -/
def accept (resolution : TorrentSwarmProviderResolution) (candidate : TorrentSwarmProviderCandidate) :
    Option TorrentSwarmHints :=
  let hints := resolution.hints
  match candidate.kind with
  | .tracker =>
    if limits.maxTrackers ≤ hints.trackers.length then none
    else some (hints.addTracker candidate.locator)
  | .peer =>
    if limits.maxPeers ≤ hints.peers.length then none
    else
      match TorrentPeerEndpoint.parse candidate.locator with
      | .ok peer => some (hints.addPeer peer)
      | .error _ => none
  | .webSeed =>
    if limits.maxWebSeeds ≤ hints.webSeeds.length then none
    else some (hints.addWebSeed candidate.locator)
  | .magnet | .torrentFile =>
    let locatorCount := resolution.candidates.countP (·.isLocator)
    if limits.maxLocators ≤ locatorCount then none else some hints

/-- The candidate is marked as seen even when it is not taken. -/
def insertCandidate (resolution : TorrentSwarmProviderResolution) (seen : SeenCandidates)
    (candidate : TorrentSwarmProviderCandidate) :
    Bool × TorrentSwarmProviderResolution × SeenCandidates :=
  if candidate.pair ∈ seen then (false, resolution, seen)
  else
    let seen := candidate.pair :: seen
    match accept limits resolution candidate with
    | none => (false, resolution, seen)
    | some hints =>
      (true, { resolution with hints, candidates := resolution.candidates ++ [candidate] }, seen)

def pushLimitedDiagnostic (resolution : TorrentSwarmProviderResolution)
    (diagnostic : TorrentSwarmProviderDiagnostic) : TorrentSwarmProviderResolution :=
  if resolution.diagnostics.length < limits.maxDiagnostics then
    { resolution with diagnostics := resolution.diagnostics ++ [diagnostic] }
  else resolution

def seedSeenFromHints (seen : SeenCandidates) (hints : TorrentSwarmHints) : SeenCandidates :=
  let seen := hints.trackers.foldl (fun seen tracker => (.tracker, tracker) :: seen) seen
  let seen := hints.peers.foldl (fun seen peer => (.peer, peer.toText) :: seen) seen
  hints.webSeeds.foldl (fun seen webSeed => (.webSeed, webSeed) :: seen) seen

/-- What the loop over the providers does with the answer of one of them. -/
def takeReport (resolution : TorrentSwarmProviderResolution) (seen : SeenCandidates)
    (provider : String) (answer : Except Error TorrentSwarmProviderReport) :
    TorrentSwarmProviderResolution × SeenCandidates :=
  match answer with
  | .ok report =>
    let resolution := report.diagnostics.foldl (pushLimitedDiagnostic limits) resolution
    let (resolution, seen) := report.candidates.foldl
      (fun state candidate => (insertCandidate limits state.1 state.2 candidate).2) (resolution, seen)
    ({ resolution with reports := resolution.reports ++ [report] }, seen)
  | .error err =>
    (pushLimitedDiagnostic limits resolution
      ⟨provider, .error, "provider failed: " ++ err.toText, none⟩, seen)

def resolve (cacheDir : String) (providers : List TorrentSwarmProvider) (spec : DownloadSpec)
    (initialHints : TorrentSwarmHints) : TorrentSwarmProviderResolution :=
  (providers.foldl
    (fun state provider =>
      takeReport limits state.1 state.2 provider.name
        (provider.discover ⟨spec, state.1.hints, cacheDir⟩))
    ({ hints := initialHints }, seedSeenFromHints [] initialHints)).1

end

/-- No list names an entry twice. -/
structure TorrentSwarmHints.DuplicateFree (hints : TorrentSwarmHints) : Prop where
  trackers : hints.trackers.Nodup
  peers : hints.peers.Nodup
  webSeeds : hints.webSeeds.Nodup

/-- Each list is added to while it is shorter than its limit. -/
structure TorrentSwarmHints.Grows (limits : SwarmProviderLimits)
    (hints hints' : TorrentSwarmHints) : Prop where
  trackers : Distinct.Grows limits.maxTrackers hints.trackers hints'.trackers
  peers : Distinct.Grows limits.maxPeers hints.peers hints'.peers
  webSeeds : Distinct.Grows limits.maxWebSeeds hints.webSeeds hints'.webSeeds

/-- The hints hold what the candidate names. -/
def TorrentSwarmProviderCandidate.Denotes (candidate : TorrentSwarmProviderCandidate)
    (hints : TorrentSwarmHints) : Prop :=
  match candidate.kind with
  | .tracker => trim candidate.locator ≠ "" → trim candidate.locator ∈ hints.trackers
  | .peer => ∃ peer, TorrentPeerEndpoint.parse candidate.locator = .ok peer ∧ peer ∈ hints.peers
  | .webSeed => trim candidate.locator ≠ "" → trim candidate.locator ∈ hints.webSeeds
  | .magnet | .torrentFile => True

section
variable {limits : SwarmProviderLimits} {resolution resolution' : TorrentSwarmProviderResolution}
variable {seen seen' : SeenCandidates} {candidate : TorrentSwarmProviderCandidate}
variable {hints hints' hints'' initial : TorrentSwarmHints}

theorem TorrentSwarmHints.Grows.refl (limits : SwarmProviderLimits) (hints : TorrentSwarmHints) :
    hints.Grows limits hints :=
  ⟨.refl _ _, .refl _ _, .refl _ _⟩

theorem TorrentSwarmHints.Grows.trans (h : Grows limits hints hints')
    (h' : Grows limits hints' hints'') : Grows limits hints hints'' :=
  ⟨h.trackers.trans h'.trackers, h.peers.trans h'.peers, h.webSeeds.trans h'.webSeeds⟩

theorem pushUnique_grows {values : List String} (h : values.length < limit) (value : String) :
    Distinct.Grows limit values (pushUnique values value) := by
  unfold pushUnique
  split
  · exact .refl _ _
  · exact .add h _

theorem TorrentSwarmHints.addTracker_grows (h : hints.trackers.length < limits.maxTrackers)
    (tracker : String) : hints.Grows limits (hints.addTracker tracker) := by
  have hg := pushUnique_grows h tracker
  constructor <;> simp only [addTracker]
  · exact hg
  · exact .refl _ _
  · exact .refl _ _

theorem TorrentSwarmHints.addPeer_grows (h : hints.peers.length < limits.maxPeers)
    (peer : TorrentPeerEndpoint) : hints.Grows limits (hints.addPeer peer) := by
  have hg := Distinct.Grows.add h peer
  constructor <;> simp only [addPeer]
  · exact .refl _ _
  · exact hg
  · exact .refl _ _

theorem TorrentSwarmHints.addWebSeed_grows (h : hints.webSeeds.length < limits.maxWebSeeds)
    (webSeed : String) : hints.Grows limits (hints.addWebSeed webSeed) := by
  have hg := pushUnique_grows h webSeed
  constructor <;> simp only [addWebSeed]
  · exact .refl _ _
  · exact .refl _ _
  · exact hg

theorem mem_pushUnique {values : List String} (h : trim value ≠ "") :
    trim value ∈ pushUnique values value := by
  rw [pushUnique, if_neg h, Distinct.mem_add]
  exact .inr rfl

theorem TorrentSwarmProviderCandidate.Denotes.mono (h : candidate.Denotes hints)
    (hg : hints.Grows limits hints') : candidate.Denotes hints' := by
  unfold Denotes at h ⊢
  split
  case h_1 hk =>
    rw [hk] at h
    exact fun hb => hg.trackers.keeps.subset (h hb)
  case h_2 hk =>
    rw [hk] at h
    obtain ⟨peer, hparse, hm⟩ := h
    exact ⟨peer, hparse, hg.peers.keeps.subset hm⟩
  case h_3 hk =>
    rw [hk] at h
    exact fun hb => hg.webSeeds.keeps.subset (h hb)
  all_goals trivial

/-- What a candidate does to the hints when its kind has room for it. -/
structure Admits (limits : SwarmProviderLimits) (resolution : TorrentSwarmProviderResolution)
    (candidate : TorrentSwarmProviderCandidate) (hints' : TorrentSwarmHints) : Prop where
  grows : resolution.hints.Grows limits hints'
  denotes : candidate.Denotes hints'
  locators : candidate.isLocator = true →
    resolution.candidates.countP (·.isLocator) < limits.maxLocators

theorem accept_admits (h : accept limits resolution candidate = some hints') :
    Admits limits resolution candidate hints' := by
  unfold accept at h
  split at h
  case h_1 hk =>
    obtain ⟨hl, h⟩ := Option.ite_none_left_eq_some.1 h
    cases h
    refine ⟨TorrentSwarmHints.addTracker_grows (Nat.lt_of_not_le hl) _, ?_, ?_⟩
    · simp only [TorrentSwarmProviderCandidate.Denotes, hk, TorrentSwarmHints.addTracker]
      exact mem_pushUnique
    · simp only [TorrentSwarmProviderCandidate.isLocator, hk]
      nofun
  case h_2 hk =>
    obtain ⟨hl, h⟩ := Option.ite_none_left_eq_some.1 h
    split at h
    case h_1 peer hp =>
      cases h
      refine ⟨TorrentSwarmHints.addPeer_grows (Nat.lt_of_not_le hl) _, ?_, ?_⟩
      · simp only [TorrentSwarmProviderCandidate.Denotes, hk]
        exact ⟨peer, hp, Distinct.mem_add.2 (.inr rfl)⟩
      · simp only [TorrentSwarmProviderCandidate.isLocator, hk]
        nofun
    case h_2 => cases h
  case h_3 hk =>
    obtain ⟨hl, h⟩ := Option.ite_none_left_eq_some.1 h
    cases h
    refine ⟨TorrentSwarmHints.addWebSeed_grows (Nat.lt_of_not_le hl) _, ?_, ?_⟩
    · simp only [TorrentSwarmProviderCandidate.Denotes, hk, TorrentSwarmHints.addWebSeed]
      exact mem_pushUnique
    · simp only [TorrentSwarmProviderCandidate.isLocator, hk]
      nofun
  all_goals
    rename_i hk
    obtain ⟨hl, h⟩ := Option.ite_none_left_eq_some.1 h
    cases h
    refine ⟨.refl _ _, ?_, fun _ => Nat.lt_of_not_le hl⟩
    simp only [TorrentSwarmProviderCandidate.Denotes, hk]

/-- What holds of a resolution that started with the initial hints. -/
structure Resolved (limits : SwarmProviderLimits) (initial : TorrentSwarmHints)
    (resolution : TorrentSwarmProviderResolution) (seen : SeenCandidates) : Prop where
  grows : initial.Grows limits resolution.hints
  locators : resolution.candidates.countP (·.isLocator) ≤ limits.maxLocators
  diagnostics : resolution.diagnostics.length ≤ limits.maxDiagnostics
  distinct : (resolution.candidates.map (·.pair)).Nodup
  marked : ∀ candidate ∈ resolution.candidates, candidate.pair ∈ seen
  denotes : ∀ candidate ∈ resolution.candidates, candidate.Denotes resolution.hints

theorem Resolved.take (h : Resolved limits initial resolution seen)
    (hs : candidate.pair ∉ seen) (ha : Admits limits resolution candidate hints') :
    Resolved limits initial
      { resolution with hints := hints', candidates := resolution.candidates ++ [candidate] }
      (candidate.pair :: seen) := by
  constructor
  case grows => exact h.grows.trans ha.grows
  case locators =>
    rw [List.countP_append, List.countP_singleton]
    split
    case isTrue hl => exact ha.locators hl
    case isFalse => exact h.locators
  case diagnostics => exact h.diagnostics
  case distinct =>
    rw [List.map_append, List.map_singleton, ← List.concat_eq_append, List.nodup_concat]
    refine ⟨?_, h.distinct⟩
    intro hm
    obtain ⟨other, hother, he⟩ := List.mem_map.1 hm
    exact hs (he ▸ h.marked other hother)
  case marked =>
    intro other hm
    rcases List.mem_append.1 hm with hm | hm
    · exact List.mem_cons_of_mem _ (h.marked other hm)
    · cases List.mem_singleton.1 hm
      exact List.mem_cons_self
  case denotes =>
    intro other hm
    rcases List.mem_append.1 hm with hm | hm
    · exact (h.denotes other hm).mono ha.grows
    · cases List.mem_singleton.1 hm
      exact ha.denotes

theorem Resolved.insertCandidate (h : Resolved limits initial resolution seen)
    (candidate : TorrentSwarmProviderCandidate) :
    let state := (insertCandidate limits resolution seen candidate).2
    Resolved limits initial state.1 state.2 := by
  unfold Paradown.insertCandidate
  by_cases hs : candidate.pair ∈ seen
  · rw [if_pos hs]
    exact h
  rw [if_neg hs]
  cases ha : accept limits resolution candidate with
  | none => exact { h with marked := fun other hm => List.mem_cons_of_mem _ (h.marked other hm) }
  | some hints' => exact h.take hs (accept_admits ha)

theorem Resolved.pushLimitedDiagnostic (h : Resolved limits initial resolution seen)
    (diagnostic : TorrentSwarmProviderDiagnostic) :
    Resolved limits initial (pushLimitedDiagnostic limits resolution diagnostic) seen := by
  unfold Paradown.pushLimitedDiagnostic
  split
  case isTrue hl =>
    refine { h with diagnostics := ?_ }
    rw [List.length_append]
    exact hl
  case isFalse => exact h

theorem Resolved.pushDiagnostics (h : Resolved limits initial resolution seen)
    (diagnostics : List TorrentSwarmProviderDiagnostic) :
    Resolved limits initial
      (diagnostics.foldl (Paradown.pushLimitedDiagnostic limits) resolution) seen := by
  induction diagnostics generalizing resolution with
  | nil => exact h
  | cons diagnostic diagnostics ih => exact ih (h.pushLimitedDiagnostic diagnostic)

theorem Resolved.insertCandidates (h : Resolved limits initial resolution seen)
    (candidates : List TorrentSwarmProviderCandidate) :
    let state := candidates.foldl (fun state candidate =>
      (Paradown.insertCandidate limits state.1 state.2 candidate).2) (resolution, seen)
    Resolved limits initial state.1 state.2 := by
  induction candidates generalizing resolution seen with
  | nil => exact h
  | cons candidate candidates ih => exact ih (h.insertCandidate candidate)

theorem Resolved.takeReport (h : Resolved limits initial resolution seen) (provider : String)
    (answer : Except Error TorrentSwarmProviderReport) :
    let state := takeReport limits resolution seen provider answer
    Resolved limits initial state.1 state.2 := by
  cases answer with
  | error err => exact h.pushLimitedDiagnostic _
  | ok report =>
    obtain ⟨grows, locators, diagnostics, distinct, marked, denotes⟩ :=
      (h.pushDiagnostics report.diagnostics).insertCandidates report.candidates
    exact ⟨grows, locators, diagnostics, distinct, marked, denotes⟩

/-- The whole loop, from hints to which nothing has been added. -/
theorem resolve_resolved (limits : SwarmProviderLimits) (cacheDir : String)
    (providers : List TorrentSwarmProvider) (spec : DownloadSpec) (initial : TorrentSwarmHints) :
    ∃ seen, Resolved limits initial (resolve limits cacheDir providers spec initial) seen := by
  have hloop (state : TorrentSwarmProviderResolution × SeenCandidates)
      (h : Resolved limits initial state.1 state.2) :
      let state' := providers.foldl (fun state provider =>
        Paradown.takeReport limits state.1 state.2 provider.name
          (provider.discover ⟨spec, state.1.hints, cacheDir⟩)) state
      Resolved limits initial state'.1 state'.2 := by
    induction providers generalizing state with
    | nil => exact h
    | cons provider providers ih => exact ih _ (h.takeReport _ _)
  refine ⟨_, hloop ({ hints := initial }, seedSeenFromHints [] initial) ?_⟩
  constructor
  case grows => exact .refl _ _
  case locators => exact Nat.zero_le _
  case diagnostics => exact Nat.zero_le _
  case distinct => exact List.nodup_nil
  case marked => exact fun _ hm => absurd hm List.not_mem_nil
  case denotes => exact fun _ hm => absurd hm List.not_mem_nil

/-- The hints of a resolution hold the initial ones at their front and no entry twice, within the
limits, and they hold what the candidates that were taken name; no candidate is taken twice. -/
theorem resolve_invariants (hd : initial.DuplicateFree) (limits : SwarmProviderLimits)
    (cacheDir : String) (providers : List TorrentSwarmProvider) (spec : DownloadSpec) :
    let resolution := resolve limits cacheDir providers spec initial
    let hints := resolution.hints
    (initial.trackers <+: hints.trackers ∧ initial.peers <+: hints.peers ∧
      initial.webSeeds <+: hints.webSeeds) ∧
    hints.DuplicateFree ∧
    hints.trackers.length ≤ max initial.trackers.length limits.maxTrackers ∧
    hints.peers.length ≤ max initial.peers.length limits.maxPeers ∧
    hints.webSeeds.length ≤ max initial.webSeeds.length limits.maxWebSeeds ∧
    resolution.candidates.countP (·.isLocator) ≤ limits.maxLocators ∧
    resolution.diagnostics.length ≤ limits.maxDiagnostics ∧
    (resolution.candidates.map (·.pair)).Nodup ∧
    ∀ candidate ∈ resolution.candidates, candidate.Denotes hints := by
  intro resolution hints
  obtain ⟨seen, h⟩ := resolve_resolved limits cacheDir providers spec initial
  have htrackers := h.grows.trackers
  have hpeers := h.grows.peers
  have hwebSeeds := h.grows.webSeeds
  have hfree : hints.DuplicateFree :=
    ⟨htrackers.nodup hd.trackers, hpeers.nodup hd.peers, hwebSeeds.nodup hd.webSeeds⟩
  exact ⟨⟨htrackers.keeps, hpeers.keeps, hwebSeeds.keeps⟩, hfree, htrackers.length_le,
    hpeers.length_le, hwebSeeds.length_le, h.locators, h.diagnostics, h.distinct, h.denotes⟩

theorem static_provider_resolved :
    let limits : SwarmProviderLimits := ⟨1, 8, 8, 0, 1⟩
    let report : TorrentSwarmProviderReport := {
      provider := "static"
      candidates := [⟨.tracker, " udp://a/1 ", none, "static", "config"⟩,
        ⟨.tracker, "udp://b/2", none, "static", "config"⟩, ⟨.peer, "a", none, "static", "config"⟩,
        ⟨.magnet, "magnet:?xt=urn:btih:ab", none, "static", "config"⟩] }
    let providers : List TorrentSwarmProvider :=
      [⟨"static", fun _ => .ok report⟩, ⟨"index", fun _ => .error (.other "no answer")⟩]
    let initial : TorrentSwarmHints := { peers := [⟨"127.0.0.1", 6881⟩] }
    let resolution := resolve limits "cache" providers (.magnet "magnet:?xt=urn:btih:ab") initial
    let hints := resolution.hints
    (initial.trackers <+: hints.trackers ∧ initial.peers <+: hints.peers ∧
      initial.webSeeds <+: hints.webSeeds) ∧
    hints.DuplicateFree ∧
    hints.trackers.length ≤ max initial.trackers.length limits.maxTrackers ∧
    hints.peers.length ≤ max initial.peers.length limits.maxPeers ∧
    hints.webSeeds.length ≤ max initial.webSeeds.length limits.maxWebSeeds ∧
    resolution.candidates.countP (·.isLocator) ≤ limits.maxLocators ∧
    resolution.diagnostics.length ≤ limits.maxDiagnostics ∧
    (resolution.candidates.map (·.pair)).Nodup ∧
    ∀ candidate ∈ resolution.candidates, candidate.Denotes hints :=
  resolve_invariants ⟨List.nodup_nil, List.nodup_singleton _, List.nodup_nil⟩ _ _ _ _

theorem nodup_pushUnique {values : List String} (h : values.Nodup) (value : String) :
    (pushUnique values value).Nodup := by
  unfold pushUnique
  split
  · exact h
  · exact Distinct.nodup_add h _

theorem TorrentSwarmHints.DuplicateFree.addTracker (h : hints.DuplicateFree) (tracker : String) :
    (hints.addTracker tracker).DuplicateFree := by
  constructor <;> simp only [TorrentSwarmHints.addTracker]
  · exact nodup_pushUnique h.trackers tracker
  · exact h.peers
  · exact h.webSeeds

theorem TorrentSwarmHints.DuplicateFree.addPeer (h : hints.DuplicateFree)
    (peer : TorrentPeerEndpoint) : (hints.addPeer peer).DuplicateFree := by
  constructor <;> simp only [TorrentSwarmHints.addPeer]
  · exact h.trackers
  · exact Distinct.nodup_add h.peers peer
  · exact h.webSeeds

theorem TorrentSwarmHints.DuplicateFree.addWebSeed (h : hints.DuplicateFree) (webSeed : String) :
    (hints.addWebSeed webSeed).DuplicateFree := by
  constructor <;> simp only [TorrentSwarmHints.addWebSeed]
  · exact h.trackers
  · exact h.peers
  · exact nodup_pushUnique h.webSeeds webSeed

theorem TorrentSwarmHints.DuplicateFree.merge (h : hints.DuplicateFree)
    (other : TorrentSwarmHints) : (hints.merge other).DuplicateFree := by
  have hadd {α : Type} (add : TorrentSwarmHints → α → TorrentSwarmHints)
      (hstep : ∀ hints x, hints.DuplicateFree → (add hints x).DuplicateFree) (xs : List α)
      (hints : TorrentSwarmHints) (h : hints.DuplicateFree) :
      (xs.foldl add hints).DuplicateFree := by
    induction xs generalizing hints with
    | nil => exact h
    | cons x xs ih => exact ih _ (hstep hints x h)
  have htrackers :=
    hadd TorrentSwarmHints.addTracker (fun _ x h => h.addTracker x) other.trackers _ h
  have hpeers := hadd TorrentSwarmHints.addPeer (fun _ x h => h.addPeer x) other.peers _ htrackers
  exact hadd TorrentSwarmHints.addWebSeed (fun _ x h => h.addWebSeed x) other.webSeeds _ hpeers

theorem TorrentSwarmHints.DuplicateFree.addSource (h : hints.DuplicateFree)
    (ha : hints.addSource source = .ok hints') : hints'.DuplicateFree := by
  unfold TorrentSwarmHints.addSource at ha
  split at ha
  · cases ha
    exact h.addTracker _
  · cases hp : TorrentPeerEndpoint.parse source.locator with
    | error err =>
      rw [hp] at ha
      cases ha
    | ok peer =>
      rw [hp] at ha
      cases ha
      exact h.addPeer peer
  · cases ha
    exact h.addWebSeed _
  · cases ha
    exact h

/-- The hints that a task starts from name no entry twice, whatever its sources are. -/
theorem TorrentSwarmHints.fromSpecAndSources_duplicateFree
    (h : fromSpecAndSources parseUrl spec sources = .ok hints) : hints.DuplicateFree := by
  have hempty : ({} : TorrentSwarmHints).DuplicateFree :=
    ⟨List.nodup_nil, List.nodup_nil, List.nodup_nil⟩
  have hsources (sources : List SourceDescriptor) (first : TorrentSwarmHints)
      (hfirst : first.DuplicateFree) (h : sources.foldlM addSource first = .ok hints) :
      hints.DuplicateFree := by
    induction sources generalizing first with
    | nil =>
      cases h
      exact hfirst
    | cons source sources ih =>
      rw [List.foldlM_cons] at h
      cases ha : first.addSource source with
      | error err =>
        rw [ha] at h
        cases h
      | ok next =>
        rw [ha] at h
        exact ih next (hfirst.addSource ha) h
  unfold fromSpecAndSources at h
  split at h
  case h_1 uri =>
    cases hp : MagnetLink.parse parseUrl uri with
    | error err =>
      rw [hp] at h
      cases h
    | ok link =>
      rw [hp] at h
      exact hsources _ _ (hempty.merge link.swarmHints) h
  case h_2 => exact hsources _ _ hempty h

end

end Paradown
