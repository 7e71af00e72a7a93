import Mathlib.Algebra.Order.Ring.Int
import Paradown.ProviderCache
import Paradown.Spacing

namespace Paradown
set_option autoImplicit true

inductive CachedProvider where
  | trackerList (provider : TrackerListProvider)
  | indexFeed (provider : IndexFeedProvider)

/-- The URL that a provider asks for, and the cache directory in which it keeps the answer. Tracker
lists share their cache; an index feed has its own, by its name. -/
inductive DiscoverQuery where
  | trackerList (cacheDir url : String)
  | indexFeed (providerName cacheDir url : String)
  deriving DecidableEq

namespace CachedProvider

variable (env : ProviderEnv)

def name : CachedProvider → String
  | .trackerList _ => TrackerListProvider.name
  | .indexFeed provider => provider.providerName

def ttl : CachedProvider → Nat
  | .trackerList provider => provider.cacheTtl
  | .indexFeed provider => provider.config.cacheTtl

/-- The files that may hold what the provider was answered with for a URL. -/
def slots (cacheDir url : String) : CachedProvider → List String
  | .trackerList _ => [TrackerListProvider.cachePath env cacheDir url]
  | .indexFeed provider =>
    [provider.cachePath env cacheDir url "torrent", provider.cachePath env cacheDir url "txt"]

def query (cacheDir url : String) : CachedProvider → DiscoverQuery
  | .trackerList _ => .trackerList cacheDir url
  | .indexFeed provider => .indexFeed provider.providerName cacheDir url

def readFresh (files : CacheFiles) (now : Nat) (cacheDir url : String) :
    CachedProvider → Option (Option IndexProviderSource)
  | .trackerList provider =>
    (provider.readFresh env files now cacheDir url).map (Option.map .text)
  | .indexFeed provider => provider.readFresh env files now cacheDir url

def readAnswer (files : CacheFiles) (now : Nat) (cacheDir url : String)
    (report : TorrentSwarmProviderReport) (answer : Except Error ServerAnswer)
    (outcome : WriteOutcome) : CachedProvider → SourceRead IndexProviderSource
  | .trackerList _ =>
    let read := TrackerListProvider.readAnswer env files now cacheDir url report answer outcome
    { source := read.source.map .text, files := read.files, report := read.report }
  | .indexFeed provider => provider.readAnswer env files now cacheDir url report answer outcome

/-- A tracker list is a text. -/
def use (spec : DownloadSpec) (url : String) (report : TorrentSwarmProviderReport)
    (source : Option IndexProviderSource) : CachedProvider → TorrentSwarmProviderReport
  | .trackerList _ =>
    TrackerListProvider.use url report <| source.bind fun
      | .text contents => some contents
      | .torrentFile _ => none
  | .indexFeed provider => provider.use env spec url report source

end CachedProvider

/-- A call of `discover`: the URLs left, and whether the first of them is asked for. -/
structure DiscoverCall where
  provider : CachedProvider
  context : TorrentSwarmProviderContext
  pending : List String
  asking : Bool := false
  report : TorrentSwarmProviderReport

/-- An index feed without a URL for the torrent says so in its report. -/
def CachedProvider.discover (env : ProviderEnv) (context : TorrentSwarmProviderContext) :
    CachedProvider → DiscoverCall
  | .trackerList provider =>
    { provider := .trackerList provider
      context
      pending := provider.urls
      report := { provider := TrackerListProvider.name } }
  | .indexFeed provider =>
    let report : TorrentSwarmProviderReport := { provider := provider.providerName }
    let url := expandIndexUrlTemplate env.byteSerialize env.parseUrl env.lastSegment
      provider.config.urlTemplate context.spec
    { provider := .indexFeed provider
      context
      pending := url.toList
      report := if url.isSome then report else report.diagnostic .warning
        "index URL template could not be expanded for this torrent spec"
        (some provider.config.urlTemplate) }

/-- The cache directory, the clock, which may be set to any time, and the calls in progress. -/
structure SwarmCache where
  files : CacheFiles := fun _ => none
  now : Nat
  calls : List DiscoverCall := []

/-- What happens to the calls: a call may be dropped at any moment, and the process may die. -/
inductive CacheAct where
  | setClock (now : Nat)
  | discover (provider : CachedProvider) (context : TorrentSwarmProviderContext)
  | look (call : Nat)
  | answer (call : Nat) (answer : Except Error ServerAnswer) (outcome : WriteOutcome)
  | drop (call : Nat)
  | crash

namespace SwarmCache

variable (env : ProviderEnv)

/-- A call goes on to its next URL with what it has read for this one. -/
def proceed (s : SwarmCache) (i : Nat) (c : DiscoverCall) (url : String) (rest : List String)
    (read : SourceRead IndexProviderSource) : SwarmCache :=
  { s with
    files := read.files
    calls := s.calls.set i { c with
      pending := rest
      asking := false
      report := c.provider.use env c.context.spec url read.report read.source } }

def look (s : SwarmCache) (i : Nat) (c : DiscoverCall) : Option SwarmCache :=
  match c.pending, c.asking with
  | url :: rest, false =>
    match c.provider.readFresh env s.files s.now c.context.cacheDir url with
    | some source => some (s.proceed env i c url rest ⟨source, s.files, c.report⟩)
    | none => some { s with calls := s.calls.set i { c with asking := true } }
  | _, _ => none

def answer (s : SwarmCache) (i : Nat) (c : DiscoverCall) (answer : Except Error ServerAnswer)
    (outcome : WriteOutcome) : Option SwarmCache :=
  match c.pending, c.asking with
  | url :: rest, true =>
    some (s.proceed env i c url rest
      (c.provider.readAnswer env s.files s.now c.context.cacheDir url c.report answer outcome))
  | _, _ => none

def step (s : SwarmCache) : CacheAct → Option SwarmCache
  | .setClock now => some { s with now }
  | .discover provider context => some { s with calls := s.calls ++ [provider.discover env context] }
  | .look i => s.calls[i]?.bind (s.look env i)
  | .answer i answer outcome => s.calls[i]?.bind fun c => s.answer env i c answer outcome
  | .drop i => s.calls[i]?.map fun c =>
    { s with calls := s.calls.set i { c with pending := [], asking := false } }
  | .crash => some { s with calls := [] }

end SwarmCache

/-- An answer of a server: what was asked, the file that it is written to, how the write ended, and
how long the asker takes it to be fresh. -/
structure Answered where
  query : DiscoverQuery
  path : String
  contents : ByteArray
  outcome : WriteOutcome
  ttl : Nat
  time : Nat

/-- What the write left in the file, if it touched it. -/
def Answered.stored (k : Answered) : Option ByteArray := k.outcome.stores k.contents

namespace CachedProvider

variable (env : ProviderEnv)

/-- The file that an answer is written to, and what is written. -/
def keeps (cacheDir url : String) (answer : ServerAnswer) : CachedProvider → String × ByteArray
  | .trackerList _ =>
    (TrackerListProvider.cachePath env cacheDir url, (env.responseText answer).toUTF8)
  | .indexFeed provider =>
    match IndexFeedProvider.fetched env url answer with
    | .torrentFile bytes => (provider.cachePath env cacheDir url "torrent", bytes)
    | .text contents => (provider.cachePath env cacheDir url "txt", contents.toUTF8)

def answered (cacheDir url : String) (now : Nat) (answer : ServerAnswer) (outcome : WriteOutcome)
    (provider : CachedProvider) : Answered :=
  let kept := provider.keeps env cacheDir url answer
  ⟨provider.query cacheDir url, kept.1, kept.2, outcome, provider.ttl, now⟩

end CachedProvider

/-- The answers of the servers, in their order. -/
def noteAnswer (env : ProviderEnv) (log : List Answered) (s : SwarmCache) (a : CacheAct)
    (_ : SwarmCache) : List Answered :=
  match a with
  | .answer i (.ok answer) outcome =>
    log ++ (s.calls[i]?.bind fun c => c.pending.head?.map fun url =>
      c.provider.answered env c.context.cacheDir url s.now answer outcome).toList
  | _ => log

namespace CachedProvider

variable {env : ProviderEnv} {provider : CachedProvider}

theorem slots_congr {provider' : CachedProvider}
    (h : provider.query cacheDir url = provider'.query cacheDir' url') :
    provider.slots env cacheDir url = provider'.slots env cacheDir' url' := by
  cases provider with
  | trackerList provider =>
    cases provider' with
    | trackerList provider' =>
      cases h
      rfl
    | indexFeed provider' => cases h
  | indexFeed provider =>
    cases provider' with
    | trackerList provider' => cases h
    | indexFeed provider' =>
      obtain ⟨hname, rfl, rfl⟩ := DiscoverQuery.indexFeed.inj h
      simp only [slots, IndexFeedProvider.cachePath, hname]

theorem keeps_mem_slots (cacheDir url : String) (answer : ServerAnswer) :
    (provider.keeps env cacheDir url answer).1 ∈ provider.slots env cacheDir url := by
  cases provider with
  | trackerList provider => exact List.mem_cons_self
  | indexFeed provider =>
    rw [keeps]
    cases IndexFeedProvider.fetched env url answer with
    | torrentFile bytes => exact List.mem_cons_self
    | text contents => exact List.mem_cons_of_mem _ List.mem_cons_self

theorem readAnswer_ok_files (files : CacheFiles) (now : Nat) (cacheDir url : String)
    (report : TorrentSwarmProviderReport) (answer : ServerAnswer) (outcome : WriteOutcome) :
    (provider.readAnswer env files now cacheDir url report (.ok answer) outcome).files =
      files.write (provider.keeps env cacheDir url answer).1
        (provider.keeps env cacheDir url answer).2 now outcome := by
  cases provider with
  | trackerList provider => rfl
  | indexFeed provider =>
    simp only [readAnswer, IndexFeedProvider.readAnswer, keeps]
    cases IndexFeedProvider.fetched env url answer <;> rfl

theorem readAnswer_error_files (files : CacheFiles) (now : Nat) (cacheDir url : String)
    (report : TorrentSwarmProviderReport) (err : Error) (outcome : WriteOutcome) :
    (provider.readAnswer env files now cacheDir url report (.error err) outcome).files = files := by
  cases provider with
  | trackerList provider =>
    simp only [readAnswer, TrackerListProvider.readAnswer]
    split <;> rfl
  | indexFeed provider =>
    simp only [readAnswer, IndexFeedProvider.readAnswer]
    split
    · rfl
    · split <;> rfl

theorem readFresh_eq_none (h : provider.readFresh env files now cacheDir url = none) :
    ∀ path ∈ provider.slots env cacheDir url, files.isFreshCache now provider.ttl path = false := by
  cases provider with
  | trackerList provider =>
    simp only [readFresh, TrackerListProvider.readFresh, Option.map_eq_none_iff] at h
    split at h
    case isTrue => cases h
    case isFalse hstale =>
      intro path hp
      cases List.mem_singleton.1 hp
      exact Bool.eq_false_of_not_eq_true hstale
  | indexFeed provider =>
    simp only [readFresh, IndexFeedProvider.readFresh] at h
    split at h
    case isTrue => cases h
    case isFalse htorrent =>
      split at h
      case isTrue => cases h
      case isFalse htext =>
        intro path hp
        rcases List.mem_cons.1 hp with rfl | hp
        · exact Bool.eq_false_of_not_eq_true htorrent
        · cases List.mem_singleton.1 hp
          exact Bool.eq_false_of_not_eq_true htext

end CachedProvider

theorem isFreshCache_eq_false {files : CacheFiles} (h : files.isFreshCache now ttl path = false)
    (hf : files path = some file) (hnow : file.modified ≤ now) : file.modified + ttl < now := by
  simp only [CacheFiles.isFreshCache, hf, Option.any_some, decide_eq_false_iff_not] at h
  omega

/-- What the call asks, or will ask. -/
def DiscoverCall.query (c : DiscoverCall) : Option DiscoverQuery :=
  c.pending.head?.map fun url => c.provider.query c.context.cacheDir url

theorem DiscoverCall.query_cons {c : DiscoverCall} (h : c.pending = url :: rest) :
    c.query = some (c.provider.query c.context.cacheDir url) := by
  rw [query, h]
  rfl

/-- The call waits for the answer. -/
def DiscoverCall.Asks (c : DiscoverCall) (query : DiscoverQuery) : Prop :=
  c.asking = true ∧ c.query = some query

/-- The clock is not set back, every answer gets as far as its file, and no call looks for what one
of the same provider is asking. -/
def SwarmCache.Orderly (s : SwarmCache) : CacheAct → Prop
  | .setClock now => s.now ≤ now
  | .look i => ∀ c ∈ s.calls[i]?, ∀ c' ∈ s.calls, c'.asking = true → c'.query ≠ c.query
  | .answer _ _ (.refused _) => False
  | _ => True

instance SwarmCache.decidableOrderly (s : SwarmCache) : (a : CacheAct) → Decidable (s.Orderly a)
  | .setClock now => inferInstanceAs (Decidable (s.now ≤ now))
  | .look i => inferInstanceAs (Decidable (∀ c ∈ s.calls[i]?, ∀ c' ∈ s.calls, c'.asking = true →
      c'.query ≠ c.query))
  | .answer _ _ (.refused _) => isFalse id
  | .answer _ _ .written | .answer _ _ (.torn _ _) => isTrue trivial
  | .discover _ _ | .drop _ | .crash => isTrue trivial

/-- The answers to one question are further apart than they stay fresh, and whoever asks finds all
of them too old. -/
structure SwarmCache.Paced (env : ProviderEnv) (s : SwarmCache) (log : List Answered) : Prop where
  dated : ∀ path file, s.files path = some file → file.modified ≤ s.now
  filed : ∀ k ∈ log, ∃ file, s.files k.path = some file ∧ k.time ≤ file.modified
  placed : ∀ k ∈ log, ∀ (provider : CachedProvider) (cacheDir url : String),
    provider.query cacheDir url = k.query → k.path ∈ provider.slots env cacheDir url
  asking : ∀ (i : Nat) (c : DiscoverCall) (query : DiscoverQuery), s.calls[i]? = some c →
    c.Asks query → ∀ k ∈ log, k.query = query → k.time + c.provider.ttl < s.now
  alone : ∀ (i j : Nat) (c c' : DiscoverCall) (query : DiscoverQuery), s.calls[i]? = some c →
    s.calls[j]? = some c' → c.Asks query → c'.Asks query → i = j
  spaced : log.Pairwise fun a b => a.query = b.query → a.time + b.ttl < b.time

namespace SwarmCache

variable {env : ProviderEnv} {s s' : SwarmCache} {c d : DiscoverCall} {k : Answered}
  {log : List Answered} {query : DiscoverQuery}

theorem Paced.empty (now : Nat) : Paced env { now } [] where
  dated path file hf := by cases hf
  filed k hk := by cases hk
  placed k hk := by cases hk
  asking i c query hi := by cases hi
  alone i j c c' query hi := by cases hi
  spaced := .nil

theorem Paced.calls (h : s.Paced env log) (calls : List DiscoverCall)
    (hasks : ∀ (i : Nat) (c : DiscoverCall) (query : DiscoverQuery), calls[i]? = some c →
      c.Asks query → ∃ c', s.calls[i]? = some c' ∧ c'.Asks query ∧
        c'.provider.ttl = c.provider.ttl) :
    Paced env { s with calls } log where
  dated := h.dated
  filed := h.filed
  placed := h.placed
  asking i c query hi ha k hk hquery := by
    obtain ⟨c', hi', ha', httl⟩ := hasks i c query hi ha
    rw [← httl]
    exact h.asking i c' query hi' ha' k hk hquery
  alone i j c c' query hi hj ha ha' := by
    obtain ⟨d, hd, hda, _⟩ := hasks i c query hi ha
    obtain ⟨d', hd', hda', _⟩ := hasks j c' query hj ha'
    exact h.alone i j d d' query hd hd' hda hda'
  spaced := h.spaced

theorem asks_set {calls : List DiscoverCall} (hc : c.asking = false) (i : Nat) :
    ∀ (j : Nat) (c' : DiscoverCall) (query : DiscoverQuery), (calls.set i c)[j]? = some c' →
      c'.Asks query → ∃ d, calls[j]? = some d ∧ d.Asks query ∧
        d.provider.ttl = c'.provider.ttl := by
  intro j c' query hj ha
  rw [List.getElem?_set] at hj
  split at hj
  · split at hj <;> cases hj
    exact absurd (hc.symm.trans ha.1) Bool.false_ne_true
  · exact ⟨c', hj, ha, rfl⟩

theorem Paced.setClock {time : Nat} (h : s.Paced env log) (hnow : s.now ≤ time) :
    Paced env { s with now := time } log where
  dated path file hf := (h.dated path file hf).trans hnow
  filed := h.filed
  placed := h.placed
  asking i c query hi ha k hk hquery := (h.asking i c query hi ha k hk hquery).trans_le hnow
  alone := h.alone
  spaced := h.spaced

/-- Where no file of a URL is fresh, all its answers are too old. -/
theorem Paced.stale {provider : CachedProvider} (h : s.Paced env log)
    (hstale : ∀ path ∈ provider.slots env cacheDir url,
      s.files.isFreshCache s.now ttl path = false) :
    ∀ k ∈ log, k.query = provider.query cacheDir url → k.time + ttl < s.now := by
  intro k hk hquery
  obtain ⟨file, hf, hle⟩ := h.filed k hk
  have hpath := h.placed k hk provider cacheDir url hquery.symm
  have hlt := isFreshCache_eq_false (hstale k.path hpath) hf (h.dated _ _ hf)
  omega

theorem Paced.ask (h : s.Paced env log) (hquery : c.query = some query)
    (hold : ∀ k ∈ log, k.query = query → k.time + c.provider.ttl < s.now)
    (hfree : ∀ c' ∈ s.calls, c'.asking = true → c'.query ≠ some query) (i : Nat) :
    Paced env { s with calls := s.calls.set i { c with asking := true } } log := by
  have hasks {j : Nat} {c' : DiscoverCall} {query' : DiscoverQuery}
      (hj : (s.calls.set i { c with asking := true })[j]? = some c') (ha : c'.Asks query') :
      j = i ∧ query' = query ∧ c'.provider.ttl = c.provider.ttl ∨
        s.calls[j]? = some c' ∧ query' ≠ query := by
    rw [List.getElem?_set] at hj
    split at hj
    case isTrue he =>
      split at hj <;> cases hj
      cases hquery.symm.trans ha.2
      exact .inl ⟨he.symm, rfl, rfl⟩
    case isFalse =>
      refine .inr ⟨hj, ?_⟩
      rintro rfl
      exact hfree c' (List.mem_of_getElem? hj) ha.1 ha.2
  constructor
  case dated => exact h.dated
  case filed => exact h.filed
  case placed => exact h.placed
  case asking =>
    intro j c' query' hj ha k hk hk'
    rcases hasks hj ha with ⟨_, rfl, httl⟩ | ⟨hj', _⟩
    · rw [httl]
      exact hold k hk hk'
    · exact h.asking j c' query' hj' ha k hk hk'
  case alone =>
    intro j j' c₁ c₂ query' hj hj' ha ha'
    rcases hasks hj ha with ⟨rfl, rfl, _⟩ | ⟨hj, hne⟩ <;>
      rcases hasks hj' ha' with ⟨rfl, he, _⟩ | ⟨hj', hne'⟩
    · rfl
    · exact absurd rfl hne'
    · exact absurd he hne
    · exact h.alone j j' c₁ c₂ query' hj hj' ha ha'
  case spaced => exact h.spaced

theorem Paced.answer (h : s.Paced env log) (hi : s.calls[i]? = some c) (ha : c.Asks k.query)
    (hplaced : ∀ (provider : CachedProvider) (cacheDir url : String),
      provider.query cacheDir url = k.query → k.path ∈ provider.slots env cacheDir url)
    (hstores : k.stored = some stored) (httl : k.ttl = c.provider.ttl) (htime : k.time = s.now)
    (hc : d.asking = false) :
    Paced env
      { s with
        files := s.files.write k.path k.contents s.now k.outcome
        calls := s.calls.set i d } (log ++ [k]) := by
  have hfiles : s.files.write k.path k.contents s.now k.outcome =
      Function.update s.files k.path (some ⟨stored, s.now⟩) := by
    rw [CacheFiles.write, show k.outcome.stores k.contents = some stored from hstores]
  have hothers : ∀ (j : Nat) (c' : DiscoverCall) (query : DiscoverQuery),
      (s.calls.set i d)[j]? = some c' → c'.Asks query →
        s.calls[j]? = some c' ∧ query ≠ k.query := by
    intro j c' query hj hask
    rw [List.getElem?_set] at hj
    split at hj
    case isTrue =>
      split at hj <;> cases hj
      exact absurd (hc.symm.trans hask.1) Bool.false_ne_true
    case isFalse hne =>
      refine ⟨hj, ?_⟩
      rintro rfl
      exact hne (h.alone i j c c' _ hi hj ha hask)
  rw [hfiles]
  constructor
  case dated =>
    intro path file hf
    by_cases hp : path = k.path
    · subst hp
      have hf' : Function.update s.files k.path (some ⟨stored, s.now⟩) k.path = some file := hf
      rw [Function.update_self] at hf'
      cases hf'
      exact le_refl s.now
    · have hf' : Function.update s.files k.path (some ⟨stored, s.now⟩) path = some file := hf
      rw [Function.update_of_ne hp] at hf'
      exact h.dated path file hf'
  case filed =>
    intro k' hk'
    rcases List.mem_append.1 hk' with hk' | hk'
    · obtain ⟨file, hf, hle⟩ := h.filed k' hk'
      by_cases hp : k'.path = k.path
      · refine ⟨⟨stored, s.now⟩, ?_, hle.trans (h.dated _ _ hf)⟩
        rw [hp]
        exact Function.update_self _ _ _
      · exact ⟨file, (Function.update_of_ne hp _ _).trans hf, hle⟩
    · cases List.mem_singleton.1 hk'
      exact ⟨⟨stored, s.now⟩, Function.update_self _ _ _, le_of_eq htime⟩
  case placed =>
    intro k' hk'
    rcases List.mem_append.1 hk' with hk' | hk'
    · exact h.placed k' hk'
    · cases List.mem_singleton.1 hk'
      exact hplaced
  case asking =>
    intro j c' query hj hask k' hk' hquery
    obtain ⟨hj', hne⟩ := hothers j c' query hj hask
    rcases List.mem_append.1 hk' with hk' | hk'
    · exact h.asking j c' query hj' hask k' hk' hquery
    · cases List.mem_singleton.1 hk'
      exact absurd hquery.symm hne
  case alone =>
    intro j j' c₁ c₂ query hj hj' ha₁ ha₂
    exact h.alone j j' c₁ c₂ query (hothers j c₁ query hj ha₁).1 (hothers j' c₂ query hj' ha₂).1
      ha₁ ha₂
  case spaced =>
    rw [List.pairwise_append]
    refine ⟨h.spaced, List.pairwise_singleton _ _, ?_⟩
    intro k' hk' b hb hquery
    cases List.mem_singleton.1 hb
    rw [httl, htime]
    exact h.asking i c k.query hi ha k' hk' hquery

theorem look_cases (h : s.look env i c = some s') :
    ∃ url rest, c.pending = url :: rest ∧ c.asking = false ∧
      ((∃ source, c.provider.readFresh env s.files s.now c.context.cacheDir url = some source ∧
          s' = s.proceed env i c url rest ⟨source, s.files, c.report⟩) ∨
        c.provider.readFresh env s.files s.now c.context.cacheDir url = none ∧
          s' = { s with calls := s.calls.set i { c with asking := true } }) := by
  simp only [look] at h
  split at h
  case h_2 => cases h
  case h_1 url rest hpending hasking =>
    refine ⟨url, rest, hpending, hasking, ?_⟩
    cases hread : c.provider.readFresh env s.files s.now c.context.cacheDir url with
    | some source =>
      rw [hread] at h
      exact .inl ⟨source, rfl, (Option.some.inj h).symm⟩
    | none =>
      rw [hread] at h
      exact .inr ⟨rfl, (Option.some.inj h).symm⟩

theorem answer_cases {result : Except Error ServerAnswer}
    (h : s.answer env i c result outcome = some s') :
    ∃ url rest, c.pending = url :: rest ∧ c.asking = true ∧
      s' = s.proceed env i c url rest (c.provider.readAnswer env s.files s.now c.context.cacheDir url
        c.report result outcome) := by
  simp only [SwarmCache.answer] at h
  split at h
  case h_2 => cases h
  case h_1 url rest hpending hasking =>
    exact ⟨url, rest, hpending, hasking, (Option.some.inj h).symm⟩

theorem stores_of_not_refused {result : Except Error ServerAnswer}
    (h : s.Orderly (.answer i result outcome)) (contents : ByteArray) :
    ∃ stored, outcome.stores contents = some stored := by
  cases outcome with
  | written => exact ⟨_, rfl⟩
  | refused err => exact h.elim
  | torn bytes err => exact ⟨_, rfl⟩

theorem Paced.step (h : s.Paced env log) (ho : s.Orderly a) (hs : s.step env a = some s') :
    s'.Paced env (noteAnswer env log s a s') := by
  cases a with
  | setClock now =>
    cases hs
    exact h.setClock ho
  | discover provider context =>
    cases hs
    apply h.calls
    intro j c query hj ha
    rcases Nat.lt_or_ge j s.calls.length with hlt | hge
    · rw [List.getElem?_append_left hlt] at hj
      exact ⟨c, hj, ha, rfl⟩
    · rw [List.getElem?_append_right hge] at hj
      cases List.mem_singleton.1 (List.mem_of_getElem? hj)
      have hidle : (provider.discover env context).asking = false := by cases provider <;> rfl
      exact absurd (hidle.symm.trans ha.1) Bool.false_ne_true
  | drop i =>
    obtain ⟨c, _, rfl⟩ := Option.map_eq_some_iff.1 hs
    exact h.calls _ (asks_set rfl i)
  | crash =>
    cases hs
    apply h.calls
    intro j c query hj
    cases hj
  | look i =>
    obtain ⟨c, hi, hs⟩ := Option.bind_eq_some_iff.1 hs
    obtain ⟨url, rest, hpending, hasking, hread⟩ := look_cases hs
    rcases hread with ⟨source, _, rfl⟩ | ⟨hnone, rfl⟩
    · exact h.calls _ (asks_set rfl i)
    · have hquery := DiscoverCall.query_cons hpending
      have hfree := ho c hi
      rw [hquery] at hfree
      exact h.ask hquery (h.stale (CachedProvider.readFresh_eq_none hnone)) hfree i
  | answer i answer outcome =>
    obtain ⟨c, hi, hs⟩ := Option.bind_eq_some_iff.1 hs
    obtain ⟨url, rest, hpending, hasking, rfl⟩ := answer_cases hs
    cases answer with
    | error err =>
      rw [proceed, CachedProvider.readAnswer_error_files]
      exact h.calls _ (asks_set rfl i)
    | ok answer =>
      obtain ⟨stored, hstored⟩ := stores_of_not_refused ho
        (c.provider.keeps env c.context.cacheDir url answer).2
      simp only [noteAnswer, hi, hpending, Option.bind_some, List.head?_cons, Option.map_some,
        Option.toList_some]
      rw [proceed, CachedProvider.readAnswer_ok_files]
      apply h.answer (k := c.provider.answered env c.context.cacheDir url s.now answer outcome) hi
        ⟨hasking, DiscoverCall.query_cons hpending⟩ _ hstored rfl rfl rfl
      intro provider cacheDir url' hquery
      rw [CachedProvider.slots_congr hquery]
      exact CachedProvider.keeps_mem_slots _ _ _

end SwarmCache

/-- Answers that are so far apart are few in any span of time. -/
theorem answers_in_span {log : List Answered} (h : log.Pairwise fun a b => a.time + ttl < b.time)
    (hle : low ≤ high) :
    (log.filter fun k => decide (low ≤ k.time ∧ k.time ≤ high)).length * (ttl + 1) ≤
      high - low + (ttl + 1) := by
  have hspaced : Spacing.Spaced (fun k : Answered => (k.time : ℤ)) (fun _ => (ttl : ℤ) + 1) log := by
    apply List.Pairwise.isChain
    apply h.imp
    intro a b hab
    show (a.time : ℤ) + (ttl + 1) ≤ b.time
    omega
  have hwindow := hspaced.window (fun _ _ => by omega) (low : ℤ) (high : ℤ)
  have hsame : (log.filter fun k => decide ((low : ℤ) ≤ k.time ∧ (k.time : ℤ) ≤ high)) =
      log.filter fun k => decide (low ≤ k.time ∧ k.time ≤ high) := by
    simp only [Nat.cast_le]
  simp only [hsame, List.map_const', List.sum_replicate, nsmul_eq_mul] at hwindow
  rcases hwindow with hnil | ⟨_, _, hsum⟩
  · rw [hnil, List.length_nil, Nat.zero_mul]
    exact Nat.zero_le _
  · apply Int.ofNat_le.1
    simp only [Nat.cast_mul, Nat.cast_add, Nat.cast_sub hle, Nat.cast_one]
    exact hsum

/-- However discoveries of any providers run beside each other, and wherever they are dropped or the
process dies: as long as the clock is not set back, every answer gets as far as its file and no call
looks up a URL while one of the same provider asks for it, the answers that a provider is given for
one URL are further apart than the one who asks takes an answer to be fresh, so that a span of time
holds no more of them than fit into it and one. -/
theorem server_answers_are_spaced (env : ProviderEnv) (now : Nat) (acts : List CacheAct)
    (s : SwarmCache) (ho : Transition.Meets (SwarmCache.step env) SwarmCache.Orderly { now } acts)
    (hr : Transition.run (SwarmCache.step env) { now } acts = some s) :
    let log := Transition.history (SwarmCache.step env) (noteAnswer env) [] { now } acts
    (log.Pairwise fun a b => a.query = b.query → a.time + b.ttl < b.time) ∧
    ∀ query ttl low high, (∀ k ∈ log, k.query = query → ttl ≤ k.ttl) → low ≤ high →
      (((log.filter fun k => decide (k.query = query)).filter fun k =>
        decide (low ≤ k.time ∧ k.time ≤ high)).length) * (ttl + 1) ≤ high - low + (ttl + 1) := by
  intro log
  have hkeep (s : SwarmCache) (log : List Answered) (a : CacheAct) (s' : SwarmCache)
      (h : s.Paced env log) (ho : s.Orderly a) (hs : s.step env a = some s') :
      s'.Paced env (noteAnswer env log s a s') := h.step ho hs
  have hspaced := (ho.history hkeep (.empty now) hr).spaced
  refine ⟨hspaced, ?_⟩
  intro query ttl low high httl hle
  apply answers_in_span _ hle
  rw [List.pairwise_filter]
  apply hspaced.imp_of_mem
  intro a b _ hb hab ha hb'
  have hquery := (of_decide_eq_true ha).trans (of_decide_eq_true hb').symm
  have := hab hquery
  have := httl b hb (of_decide_eq_true hb')
  omega

def trackersEnv : ProviderEnv where
  byteSerialize := Percent.encode Urlencoded.literal
  parseUrl _ := .error (.other "relative URL without a base")
  lastSegment _ := some "all"
  digest _ := "60e5a54e519f18bbe7d8723471a4eb2bef47bb31"
  responseText answer := (String.fromUTF8? answer.bytes).getD ""
  fromUtf8Lossy bytes := (String.fromUTF8? bytes).getD ""
  discoverTorrentCandidates _ _ := .ok []

def discoverHourly : CacheAct :=
  .discover (.trackerList ⟨["http://t.example/all"], 3600000000000⟩)
    ⟨.magnet "magnet:?dn=debian.iso", {}, "cache"⟩

/-- Three tasks ask for the same list, the last of them two hours after the others. The first answer
comes from the server, the second call is dropped, and the third asks again. -/
def trackersAskedTwice : List CacheAct :=
  [discoverHourly, .look 0, .answer 0 (.ok ⟨none, "udp://a.example:80".toUTF8⟩) .written,
    discoverHourly, .drop 1, .setClock 7200000000000, discoverHourly, .look 2,
    .answer 2 (.ok ⟨none, "udp://b.example:80".toUTF8⟩) (.torn 3 "No space left on device")]

theorem trackers_asked_twice :
    let log := Transition.history (SwarmCache.step trackersEnv) (noteAnswer trackersEnv) []
      { now := 0 } trackersAskedTwice
    log.map Answered.time = [0, 7200000000000] ∧
      log.Pairwise fun a b => a.query = b.query → a.time + b.ttl < b.time := by
  intro log
  obtain ⟨s, hs, htimes⟩ : ∃ s, Transition.run (SwarmCache.step trackersEnv) { now := 0 }
      trackersAskedTwice = some s ∧ log.map Answered.time = [0, 7200000000000] :=
    Transition.run_any (by decide)
  have hspaced := server_answers_are_spaced trackersEnv 0 trackersAskedTwice s (by decide) hs
  exact ⟨htimes, hspaced.1⟩

end Paradown
