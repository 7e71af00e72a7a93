import Mathlib.Data.List.Perm.Basic
import Paradown.Keyed
import Paradown.Swarm
import Paradown.Tally
import Paradown.Transition

namespace Paradown
set_option autoImplicit true

def EVENT_METADATA : Nat := 1
def EVENT_STATE : Nat := 2
def EVENT_PROGRESS : Nat := 3
def EVENT_PIECE_FINISHED : Nat := 4
def EVENT_RESUME_DATA : Nat := 5
def EVENT_FINISHED : Nat := 6
def EVENT_ERROR : Nat := 7
def EVENT_DIAGNOSTIC : Nat := 8

structure NativeTorrentPieceHash where
  pieceIndex : Nat
  sha1 : String
  sha256 : String
  deriving DecidableEq, Repr

structure NativeTorrentMetadata where
  name : String
  hasInfoHashV1 : Bool
  infoHashV1 : String
  hasInfoHashV2 : Bool
  infoHashV2 : String
  pieceSize : Nat
  pieceCount : Nat
  totalSize : Nat
  privateTorrent : Bool
  files : List TorrentFileEntry
  pieceHashes : List NativeTorrentPieceHash
  trackers : List TorrentTracker
  webSeeds : List String
  deriving DecidableEq, Repr

structure NativeEngineEvent where
  kind : Nat
  externalId : String
  state : Nat
  message : String
  pieceIndex : Nat
  downloaded : Nat
  total : Nat
  downloadRateBps : Nat
  uploadRateBps : Nat
  connectedPeers : Nat
  seeds : Nat
  resumeData : List UInt8
  hasMetadata : Bool
  metadata : NativeTorrentMetadata
  diagnosticScope : Nat
  diagnosticSeverity : Nat
  diagnosticUrl : String
  diagnosticEndpoint : String
  diagnosticHasPeers : Bool
  diagnosticPeers : Nat
  deriving DecidableEq, Repr

def nonEmptyString (value : String) : Option String := if value = "" then none else some value

def diagnosticScopeFromNative : Nat → TorrentDiagnosticScope
  | 1 => .tracker
  | 2 => .dht
  | 3 => .peer
  | 4 => .listen
  | 5 => .portMapping
  | 6 => .session
  | _ => .session

def diagnosticSeverityFromNative : Nat → TorrentDiagnosticSeverity
  | 1 => .info
  | 2 => .warning
  | 3 => .error
  | _ => .info

def diagnosticFromNative (e : NativeEngineEvent) : TorrentDiagnosticEvent where
  scope := diagnosticScopeFromNative e.diagnosticScope
  severity := diagnosticSeverityFromNative e.diagnosticSeverity
  message := e.message
  url := nonEmptyString e.diagnosticUrl
  endpoint := nonEmptyString e.diagnosticEndpoint
  peers := if e.diagnosticHasPeers then some e.diagnosticPeers else none

def stateFromNative : Nat → TorrentEngineState
  | 1 => .resolvingMetadata
  | 2 => .checkingFiles
  | 3 => .downloading
  | 4 => .seeding
  | 5 => .paused
  | 6 => .completed
  | _ => .downloading

def metadataFromNative (m : NativeTorrentMetadata) : TorrentMetadata where
  name := m.name
  infoHashV1 := if m.hasInfoHashV1 then some m.infoHashV1 else none
  infoHashV2 := if m.hasInfoHashV2 then some m.infoHashV2 else none
  pieceSize := m.pieceSize
  pieceCount := m.pieceCount
  totalSize := m.totalSize
  private' := m.privateTorrent
  files := m.files
  pieceHashes := m.pieceHashes.map fun hash =>
    ⟨hash.pieceIndex, nonEmptyString hash.sha1, nonEmptyString hash.sha256⟩
  trackers := m.trackers
  webSeeds := m.webSeeds

/-- The event of a session that an alert stands for, if it stands for one. -/
def eventFromNative (e : NativeEngineEvent) : Option TorrentEngineEvent :=
  if e.kind = EVENT_METADATA then
    if e.hasMetadata then some (.metadataDiscovered (metadataFromNative e.metadata))
    else some (.stateChanged .downloading)
  else if e.kind = EVENT_STATE then some (.stateChanged (stateFromNative e.state))
  else if e.kind = EVENT_PROGRESS then
    some (.progress ⟨e.downloaded, e.total, e.downloadRateBps, e.uploadRateBps, e.connectedPeers,
      e.seeds⟩)
  else if e.kind = EVENT_PIECE_FINISHED then some (.pieceFinished e.pieceIndex)
  else if e.kind = EVENT_RESUME_DATA then some (.resumeData e.resumeData)
  else if e.kind = EVENT_DIAGNOSTIC then some (.diagnostic (diagnosticFromNative e))
  else if e.kind = EVENT_FINISHED then some .finished
  else if e.kind = EVENT_ERROR then some (.error e.message)
  else none

/-- An alert about the engine as a whole. -/
def NativeEngineEvent.isGlobal (e : NativeEngineEvent) : Bool :=
  decide (e.kind = EVENT_DIAGNOSTIC) && decide (e.externalId = "")

/-- A channel of a session, and what is sent on it. -/
abbrev Dispatch := Nat × TorrentEngineEvent

/-- A broadcast goes through the sessions in some order, that of a hash map in the source. -/
def translateEvent (senders : List (String × Nat)) (e : NativeEngineEvent) : List Dispatch :=
  if e.isGlobal then
    senders.map fun entry => (entry.2, .diagnostic (diagnosticFromNative e))
  else
    match senders.lookup e.externalId with
    | none => []
    | some sender => (eventFromNative e).toList.map fun event => (sender, event)

def startExternalId (externalId : String) (resume : Option TorrentResumeSnapshot) : String :=
  if externalId ≠ "" then externalId
  else (resume.map (·.handle.externalId)).getD "libtorrent:pending"

/-- Where a call of `start_session` stands once the library has the torrent. -/
inductive StartPhase where
  | hinting
  | inserting
  | ensuring
  | returned
  deriving DecidableEq, Repr

structure StartCall where
  externalId : String
  sender : Option Nat
  phase : StartPhase
  deriving DecidableEq, Repr

/-- Where `poll_libtorrent_alerts` stands: before it takes the lock, or with what it still has to
send and whether it will go on. -/
inductive Poller where
  | polling
  | dispatching (rest : List Dispatch) (shouldContinue : Bool)
  | ended
  deriving DecidableEq, Repr

/-- The state under the lock, the calls and the pollers, and what has been sent. -/
structure Engine where
  senders : List (String × Nat) := []
  polling : Bool := false
  calls : List StartCall := []
  pollers : List Poller := []
  sent : List Dispatch := []
  deriving DecidableEq, Repr

/-- A section of a call or of a poller. A call whose torrent the library refuses changes nothing and
is left out; `remove` is `cancel_session` and `remove_session`. -/
inductive EngineAct where
  | add (externalId : String) (resume : Option TorrentResumeSnapshot) (sender : Option Nat)
  | hint (call : Nat) (ok : Bool)
  | insert (call : Nat)
  | ensure (call : Nat)
  | remove (externalId : String) (ok : Bool)
  | poll (poller : Nat) (alerts : Except String (List NativeEngineEvent))
  | dispatch (poller : Nat)

namespace Poller

/-- The poller will take the lock again. -/
def goesOn : Poller → Bool
  | polling => true
  | dispatching _ shouldContinue => shouldContinue
  | ended => false

def rest : Poller → List Dispatch
  | dispatching rest _ => rest
  | _ => []

end Poller

namespace Engine

def pollFailure (err : String) : String := s!"failed to poll libtorrent alerts: {err}"

/-- What a poll decides to send. -/
def translated (s : Engine) : Except String (List NativeEngineEvent) → List Dispatch
  | .ok events => events.flatMap (translateEvent s.senders)
  | .error err => s.senders.map fun entry => (entry.2, .error (pollFailure err))

/-- A poll goes on when it has succeeded and there are sessions. -/
def continues (s : Engine) : Except String (List NativeEngineEvent) → Bool
  | .ok _ => !s.senders.isEmpty
  | .error _ => false

def step (s : Engine) : EngineAct → Option Engine
  | .add externalId resume sender =>
    some { s with calls := s.calls ++ [⟨startExternalId externalId resume, sender, .hinting⟩] }
  | .hint i ok =>
    match s.calls[i]? with
    | some ⟨id, sender, .hinting⟩ =>
      some { s with calls := s.calls.set i ⟨id, sender, if ok then .inserting else .returned⟩ }
    | _ => none
  | .insert i =>
    match s.calls[i]? with
    | some ⟨id, sender, .inserting⟩ =>
      some { s with
        senders := match sender with
          | some sender => Keyed.insert s.senders id sender
          | none => s.senders
        calls := s.calls.set i ⟨id, sender, .ensuring⟩ }
    | _ => none
  | .ensure i =>
    match s.calls[i]? with
    | some ⟨id, sender, .ensuring⟩ =>
      let calls := s.calls.set i ⟨id, sender, .returned⟩
      if s.polling then some { s with calls }
      else some { s with calls, polling := true, pollers := s.pollers ++ [.polling] }
    | _ => none
  | .remove id ok =>
    if ok then some { s with senders := s.senders.filter fun entry => decide (entry.1 ≠ id) }
    else some s
  | .poll p alerts =>
    match s.pollers[p]? with
    | some .polling =>
      some { s with
        polling := s.polling && s.continues alerts
        pollers := s.pollers.set p (.dispatching (s.translated alerts) (s.continues alerts)) }
    | _ => none
  | .dispatch p =>
    match s.pollers[p]? with
    | some (.dispatching (d :: rest) shouldContinue) =>
      some { s with
        sent := s.sent ++ [d]
        pollers := s.pollers.set p (.dispatching rest shouldContinue) }
    | some (.dispatching [] shouldContinue) =>
      some { s with pollers := s.pollers.set p (if shouldContinue then .polling else .ended) }
    | _ => none

/-- What the pollers have decided to send and have not sent. -/
def pending (s : Engine) : List Dispatch := s.pollers.flatMap Poller.rest

/-- What a section finds and what it makes of the state. -/
inductive Moves (s : Engine) : EngineAct → Engine → Prop where
  | add : Moves s (.add externalId resume sender)
      { s with calls := s.calls ++ [⟨startExternalId externalId resume, sender, .hinting⟩] }
  | hint {i : Nat} (h : s.calls[i]? = some ⟨externalId, sender, .hinting⟩) : Moves s (.hint i ok)
      { s with calls := s.calls.set i ⟨externalId, sender, if ok then .inserting else .returned⟩ }
  | insert {i : Nat} {senders : List (String × Nat)}
      (h : s.calls[i]? = some ⟨externalId, sender, .inserting⟩)
      (hs : senders = sender.elim s.senders (Keyed.insert s.senders externalId)) :
      Moves s (.insert i) { s with senders, calls := s.calls.set i ⟨externalId, sender, .ensuring⟩ }
  | polled {i : Nat} (h : s.calls[i]? = some ⟨externalId, sender, .ensuring⟩) (hp : s.polling = true) :
      Moves s (.ensure i) { s with calls := s.calls.set i ⟨externalId, sender, .returned⟩ }
  | ensure {i : Nat} (h : s.calls[i]? = some ⟨externalId, sender, .ensuring⟩) (hp : s.polling = false) :
      Moves s (.ensure i) { s with
        calls := s.calls.set i ⟨externalId, sender, .returned⟩, polling := true
        pollers := s.pollers ++ [.polling] }
  | refused : Moves s (.remove externalId false) s
  | remove : Moves s (.remove externalId true)
      { s with senders := s.senders.filter fun entry => decide (entry.1 ≠ externalId) }
  | poll {p : Nat} (h : s.pollers[p]? = some .polling) : Moves s (.poll p alerts)
      { s with
        polling := s.polling && s.continues alerts
        pollers := s.pollers.set p (.dispatching (s.translated alerts) (s.continues alerts)) }
  | send {p : Nat} (h : s.pollers[p]? = some (.dispatching (d :: rest) shouldContinue)) :
      Moves s (.dispatch p) { s with
        sent := s.sent ++ [d], pollers := s.pollers.set p (.dispatching rest shouldContinue) }
  | turn {p : Nat} (h : s.pollers[p]? = some (.dispatching [] shouldContinue)) :
      Moves s (.dispatch p) { s with
        pollers := s.pollers.set p (if shouldContinue then .polling else .ended) }

theorem step_moves {s s' : Engine} (hs : s.step a = some s') : s.Moves a s' := by
  cases a with
  | add externalId resume sender =>
    cases hs
    exact .add
  | hint i ok =>
    simp only [step] at hs
    split at hs <;> cases hs
    exact .hint ‹_›
  | insert i =>
    simp only [step] at hs
    split at hs <;> cases hs
    rename_i sender hi
    refine .insert hi ?_
    cases sender <;> rfl
  | ensure i =>
    simp only [step] at hs
    split at hs
    · split at hs <;> cases hs
      · exact .polled ‹_› ‹_›
      · exact .ensure ‹_› (Bool.eq_false_of_not_eq_true ‹_›)
    · cases hs
  | remove id ok =>
    cases ok <;> cases hs
    · exact .refused
    · exact .remove
  | poll p alerts =>
    simp only [step] at hs
    split at hs <;> cases hs
    exact .poll ‹_›
  | dispatch p =>
    simp only [step] at hs
    split at hs <;> cases hs
    · exact .send ‹_›
    · exact .turn ‹_›

variable {s s' : Engine} {id : String}

/-- A poller that goes on is the only one, and a session is polled, about to be polled, or told
that the polling has failed. -/
structure Served (s : Engine) : Prop where
  one : s.pollers.countP Poller.goesOn = s.polling.toNat
  watched : s.senders ≠ [] → s.polling = true ∨ (∃ call ∈ s.calls, call.phase = .ensuring) ∨
    ∀ entry ∈ s.senders, ∃ err, (entry.2, .error (pollFailure err)) ∈ s.sent ++ s.pending

theorem Served.congr (h : Served s) (hpollers : s'.pollers = s.pollers)
    (hpolling : s'.polling = s.polling) (hsent : s'.sent = s.sent)
    (hsenders : ∀ entry ∈ s'.senders, entry ∈ s.senders)
    (hcalls : (∃ call ∈ s.calls, call.phase = .ensuring) →
      ∃ call ∈ s'.calls, call.phase = .ensuring) : Served s' := by
  constructor
  case one => rw [hpollers, hpolling, h.one]
  case watched =>
    intro hne
    obtain ⟨entry, hentry⟩ := List.exists_mem_of_ne_nil _ hne
    rw [hpolling, pending, hpollers, hsent]
    rcases h.watched (List.ne_nil_of_mem (hsenders entry hentry)) with hp | hc | he
    · exact .inl hp
    · exact .inr (.inl (hcalls hc))
    · exact .inr (.inr fun entry hentry => he entry (hsenders entry hentry))

theorem exists_ensuring_set {calls : List StartCall} (hi : calls[i]? = some call)
    (hc : call.phase ≠ .ensuring) (h : ∃ c ∈ calls, c.phase = .ensuring) :
    ∃ c ∈ calls.set i call', c.phase = .ensuring := by
  obtain ⟨c, hmem, hphase⟩ := h
  obtain ⟨j, hj⟩ := List.getElem?_of_mem hmem
  refine ⟨c, List.mem_of_getElem? (i := j) ?_, hphase⟩
  rw [List.getElem?_set_ne, hj]
  rintro rfl
  cases hi.symm.trans hj
  exact hc hphase

theorem flatMap_set_perm {f : α → List β} {l : List α} (h : l[i]? = some a) (b : α) :
    ((l.set i b).flatMap f ++ f a).Perm (l.flatMap f ++ f b) := by
  induction l generalizing i with
  | nil => cases h
  | cons c l ih =>
    cases i with
    | zero =>
      cases h
      rw [List.set_cons_zero, List.flatMap_cons, List.flatMap_cons, List.append_assoc,
        List.append_assoc]
      calc f b ++ (l.flatMap f ++ f a)
        _ |>.Perm (l.flatMap f ++ f a ++ f b) := List.perm_append_comm
        _ |>.Perm (f a ++ l.flatMap f ++ f b) := List.perm_append_comm.append_right _
        _ = f a ++ (l.flatMap f ++ f b) := List.append_assoc ..
    | succ i =>
      rw [List.set_cons_succ, List.flatMap_cons, List.flatMap_cons, List.append_assoc,
        List.append_assoc]
      exact (ih h).append_left _

theorem dispatch_perm (hs : s.Moves (.dispatch p) s') :
    (s'.sent ++ s'.pending).Perm (s.sent ++ s.pending) := by
  cases hs with
  | @send d rest shouldContinue _ hp =>
    rw [List.append_assoc]
    apply List.Perm.append_left
    have hset := flatMap_set_perm (f := Poller.rest) hp (.dispatching rest shouldContinue)
    have hcons : ([d] ++ (s.pollers.set p (.dispatching rest shouldContinue)).flatMap Poller.rest ++
        rest).Perm (s.pollers.flatMap Poller.rest ++ rest) := by
      refine ((List.perm_append_comm.append_right rest).trans ?_).trans hset
      rw [List.append_assoc, List.singleton_append]
      exact List.Perm.refl _
    exact (List.perm_append_right_iff rest).1 hcons
  | @turn shouldContinue _ hp =>
    apply List.Perm.append_left
    have hset := flatMap_set_perm (f := Poller.rest) hp
      (if shouldContinue then .polling else .ended)
    cases shouldContinue <;> simpa [Poller.rest, pending] using hset

theorem Served.polling {p : Nat} (h : Served s) (hp : s.pollers[p]? = some Poller.polling) :
    s.polling = true := by
  have hpos : 0 < s.pollers.countP Poller.goesOn :=
    List.countP_pos_iff.2 ⟨_, List.mem_of_getElem? hp, rfl⟩
  rw [h.one] at hpos
  cases hpolling : s.polling with
  | true => rfl
  | false =>
    rw [hpolling] at hpos
    exact absurd hpos (Nat.lt_irrefl 0)

theorem Served.poll {p : Nat} (h : Served s) (hp : s.pollers[p]? = some .polling) :
    Served { s with
      polling := s.polling && s.continues alerts
      pollers := s.pollers.set p (.dispatching (s.translated alerts) (s.continues alerts)) } := by
  have hpolling := h.polling hp
  have hcount := List.countP_set_add (p := Poller.goesOn) hp
    (.dispatching (s.translated alerts) (s.continues alerts))
  rw [h.one, hpolling] at hcount
  constructor
  case one =>
    change (s.pollers.set p _).countP Poller.goesOn = (s.polling && s.continues alerts).toNat
    rw [hpolling, Bool.true_and]
    exact Nat.add_right_cancel (hcount.trans (Nat.add_comm _ _))
  case watched =>
    intro hne
    cases alerts with
    | ok events =>
      left
      simp [hpolling, continues, hne]
    | error err =>
      right; right
      intro entry hentry
      obtain ⟨hlt, _⟩ := List.getElem?_eq_some_iff.1 hp
      refine ⟨err, List.mem_append_right _ (List.mem_flatMap.2 ⟨_,
        List.mem_of_getElem? (List.getElem?_set_self hlt), ?_⟩)⟩
      exact List.mem_map_of_mem hentry

theorem dispatch_same {p : Nat} (hs : s.Moves (.dispatch p) s') :
    s'.senders = s.senders ∧ s'.polling = s.polling ∧ s'.calls = s.calls ∧
      s'.pollers.countP Poller.goesOn = s.pollers.countP Poller.goesOn := by
  cases hs with
  | @send d rest shouldContinue _ hp =>
    have hcount := List.countP_set_add (p := Poller.goesOn) hp (.dispatching rest shouldContinue)
    exact ⟨rfl, rfl, rfl, Nat.add_right_cancel hcount⟩
  | @turn shouldContinue _ hp =>
    have hcount := List.countP_set_add (p := Poller.goesOn) hp
      (if shouldContinue then .polling else .ended)
    cases shouldContinue <;> exact ⟨rfl, rfl, rfl, Nat.add_right_cancel hcount⟩

theorem Served.dispatch {p : Nat} (h : Served s) (hs : s.Moves (.dispatch p) s') :
    Served s' := by
  obtain ⟨hsenders, hpolling, hcalls, hcount⟩ := dispatch_same hs
  constructor
  case one => rw [hcount, hpolling, h.one]
  case watched =>
    rw [hsenders, hpolling, hcalls]
    intro hne
    refine (h.watched hne).imp_right (Or.imp_right ?_)
    intro herr entry hentry
    obtain ⟨err, hmem⟩ := herr entry hentry
    exact ⟨err, (dispatch_perm hs).mem_iff.2 hmem⟩

theorem Served.moves (h : Served s) (hs : s.Moves a s') : Served s' := by
  cases hs with
  | add =>
    refine h.congr rfl rfl rfl (fun _ he => he) ?_
    rintro ⟨call, hmem, hphase⟩
    exact ⟨call, List.mem_append_left _ hmem, hphase⟩
  | hint hi =>
    refine h.congr rfl rfl rfl (fun _ he => he) (exists_ensuring_set hi ?_)
    intro hc
    cases hc
  | @insert id sender _ i hi _ =>
    obtain ⟨hlt, _⟩ := List.getElem?_eq_some_iff.1 hi
    refine ⟨h.one, fun _ => .inr (.inl ⟨⟨id, sender, .ensuring⟩, ?_, rfl⟩)⟩
    exact List.mem_of_getElem? (List.getElem?_set_self hlt)
  | polled _ hpolling => exact ⟨h.one, fun _ => .inl hpolling⟩
  | ensure _ hpolling =>
    refine ⟨?_, fun _ => .inl rfl⟩
    rw [List.countP_append, h.one, hpolling]
    rfl
  | refused => exact h
  | remove => exact h.congr rfl rfl rfl (fun _ he => List.mem_of_mem_filter he) fun hc => hc
  | poll hp => exact h.poll hp
  | send hp => exact h.dispatch (.send hp)
  | turn hp => exact h.dispatch (.turn hp)

/-- Every session has its own entry and its own channel. -/
structure Registered (s : Engine) : Prop where
  ids : (s.senders.map Prod.fst).Nodup
  channels : (s.senders.map Prod.snd).Nodup

/-- A channel that is inserted is not the channel of another session. -/
def OwnChannel (s : Engine) : EngineAct → Prop
  | .insert i => ∀ call ∈ s.calls[i]?, ∀ entry ∈ s.senders,
      call.sender = some entry.2 → entry.1 = call.externalId
  | _ => True

theorem Registered.insert (h : Registered s)
    (hown : ∀ entry ∈ s.senders, entry.2 = sender → entry.1 = id) :
    ((Keyed.insert s.senders id sender).map Prod.fst).Nodup ∧
      ((Keyed.insert s.senders id sender).map Prod.snd).Nodup := by
  have hkept := List.filter_sublist (l := s.senders) (p := fun e => decide (e.1 ≠ id))
  have hfst := h.ids.sublist (hkept.map Prod.fst)
  have hsnd := h.channels.sublist (hkept.map Prod.snd)
  rw [Keyed.insert, List.map_append, List.map_append, List.nodup_append', List.nodup_append']
  refine ⟨⟨hfst, List.nodup_singleton _, ?_⟩, hsnd, List.nodup_singleton _, ?_⟩
  · intro k hk hk'
    obtain ⟨entry, hentry, rfl⟩ := List.mem_map.1 hk
    have hne := of_decide_eq_true (List.mem_filter.1 hentry).2
    exact hne (List.mem_singleton.1 hk')
  · intro c hc hc'
    obtain ⟨entry, hentry, rfl⟩ := List.mem_map.1 hc
    obtain ⟨hmem, hne⟩ := List.mem_filter.1 hentry
    exact of_decide_eq_true hne (hown entry hmem (List.mem_singleton.1 hc'))

theorem Registered.congr (h : Registered s) (hs : s'.senders = s.senders) : Registered s' := by
  constructor
  case ids => exact hs ▸ h.ids
  case channels => exact hs ▸ h.channels

theorem Registered.moves (h : Registered s) (hown : s.OwnChannel a) (hs : s.Moves a s') :
    Registered s' := by
  cases hs with
  | @insert id sender _ i hi hsenders =>
    cases sender with
    | none => exact h.congr hsenders
    | some sender =>
      have hfree : ∀ entry ∈ s.senders, entry.2 = sender → entry.1 = id := by
        intro entry hentry heq
        exact hown _ hi entry hentry (by rw [heq])
      have hkept := h.insert hfree
      rw [hsenders]
      exact ⟨hkept.1, hkept.2⟩
  | remove =>
    exact ⟨h.ids.sublist (List.filter_sublist.map _),
      h.channels.sublist (List.filter_sublist.map _)⟩
  | refused => exact h
  | add | hint | polled | ensure | poll | send | turn => exact h.congr rfl

theorem mem_of_lookup {senders : List (String × Nat)} (h : senders.lookup id = some channel) :
    (id, channel) ∈ senders := by
  obtain ⟨before, after, heq, _⟩ := List.lookup_eq_some_iff.1 h
  rw [heq]
  exact List.mem_append_right _ List.mem_cons_self

theorem Registered.lookup_id (h : Registered s) (hmem : (id, channel) ∈ s.senders) :
    s.senders.lookup id = some channel := by
  cases hl : s.senders.lookup id with
  | none => simpa using List.lookup_eq_none_iff.1 hl _ hmem
  | some other =>
    cases List.inj_on_of_nodup_map h.ids (mem_of_lookup hl) hmem rfl
    rfl

/-- What the alert says to the session. -/
def eventFor (id : String) (e : NativeEngineEvent) : Option TorrentEngineEvent :=
  if e.isGlobal then some (.diagnostic (diagnosticFromNative e))
  else if e.externalId = id then eventFromNative e
  else none

/-- What a poll owes the session of a channel. -/
def owed (channel : Nat) (s : Engine) : EngineAct → List TorrentEngineEvent
  | .poll _ alerts =>
    match s.senders.find? fun entry => decide (entry.2 = channel) with
    | none => []
    | some (id, _) =>
      match alerts with
      | .ok events => events.filterMap (eventFor id)
      | .error err => [.error (pollFailure err)]
  | _ => []

/-- What a run owes the channel. -/
def owedBy (channel : Nat) : Engine → List EngineAct → List TorrentEngineEvent :=
  Transition.history Engine.step (fun due s a _ => due ++ s.owed channel a) []

/-- What is for the channel, in this order. -/
def onChannel (channel : Nat) (ds : List Dispatch) : List TorrentEngineEvent :=
  ds.filterMap fun d => if d.1 = channel then some d.2 else none

@[simp] theorem onChannel_cons_self (channel : Nat) (event : TorrentEngineEvent)
    (ds : List Dispatch) :
    onChannel channel ((channel, event) :: ds) = event :: onChannel channel ds :=
  List.filterMap_cons_some (if_pos rfl)

theorem onChannel_cons_ne (h : sender ≠ channel) (event : TorrentEngineEvent) (ds : List Dispatch) :
    onChannel channel ((sender, event) :: ds) = onChannel channel ds :=
  List.filterMap_cons_none (if_neg h)

theorem onChannel_append (channel : Nat) (ds ds' : List Dispatch) :
    onChannel channel (ds ++ ds') = onChannel channel ds ++ onChannel channel ds' :=
  List.filterMap_append

theorem onChannel_none (h : ∀ d ∈ ds, d.1 ≠ channel) : onChannel channel ds = [] := by
  apply List.filterMap_eq_nil_iff.2
  intro d hd
  exact if_neg (h d hd)

theorem onChannel_broadcast (senders : List (String × Nat)) (h : (senders.map Prod.snd).Nodup)
    (channel : Nat) (event : TorrentEngineEvent) :
    onChannel channel (senders.map fun entry => (entry.2, event)) =
      match senders.find? fun entry => decide (entry.2 = channel) with
      | none => []
      | some _ => [event] := by
  induction senders with
  | nil => rfl
  | cons entry senders ih =>
    rw [List.map_cons, List.nodup_cons] at h
    by_cases hc : entry.2 = channel
    · subst hc
      have hrest : onChannel entry.2 (senders.map fun entry => (entry.2, event)) = [] := by
        apply onChannel_none
        intro d hd heq
        obtain ⟨other, hother, rfl⟩ := List.mem_map.1 hd
        exact h.1 (List.mem_map.2 ⟨other, hother, heq⟩)
      have hfind : (entry :: senders).find? (fun e => decide (e.2 = entry.2)) = some entry :=
        List.find?_cons_of_pos (by simp)
      rw [hfind, List.map_cons, onChannel_cons_self, hrest]
    · rw [List.find?_cons_of_neg (by simpa using hc), List.map_cons, onChannel_cons_ne hc]
      exact ih h.2

theorem onChannel_translateEvent (h : Registered s) (channel : Nat) (e : NativeEngineEvent) :
    onChannel channel (translateEvent s.senders e) =
      match s.senders.find? fun entry => decide (entry.2 = channel) with
      | none => []
      | some (id, _) => (eventFor id e).toList := by
  unfold translateEvent eventFor
  cases hg : e.isGlobal with
  | true =>
    rw [if_pos rfl, onChannel_broadcast _ h.channels]
    cases s.senders.find? fun entry => decide (entry.2 = channel) <;> rfl
  | false =>
    simp only [Bool.false_eq_true, if_false]
    cases hf : s.senders.find? fun entry => decide (entry.2 = channel) with
    | none =>
      split
      · rfl
      · rename_i sender hl
        apply onChannel_none
        intro d hd hc
        obtain ⟨event, _, rfl⟩ := List.mem_map.1 hd
        exact List.find?_eq_none.1 hf _ (mem_of_lookup hl) (decide_eq_true hc)
    | some entry =>
      obtain ⟨id, c⟩ := entry
      have hc : c = channel := by simpa using List.find?_some hf
      subst hc
      have hmem := List.mem_of_find?_eq_some hf
      by_cases he : e.externalId = id
      · subst he
        simp only [h.lookup_id hmem, if_true]
        cases eventFromNative e with
        | none => rfl
        | some event => exact onChannel_cons_self c event []
      · simp only [if_neg he, Option.toList_none]
        split
        · rfl
        · rename_i sender hl
          apply onChannel_none
          intro d hd hc
          obtain ⟨event, _, rfl⟩ := List.mem_map.1 hd
          cases hc
          cases List.inj_on_of_nodup_map h.channels (mem_of_lookup hl) hmem rfl
          exact he rfl

theorem onChannel_translated (h : Registered s) (channel p : Nat)
    (alerts : Except String (List NativeEngineEvent)) :
    onChannel channel (s.translated alerts) = s.owed channel (.poll p alerts) := by
  cases alerts with
  | error err =>
    rw [translated, onChannel_broadcast _ h.channels, owed]
    cases s.senders.find? fun entry => decide (entry.2 = channel) <;> rfl
  | ok events =>
    simp only [translated, owed]
    induction events with
    | nil =>
      split <;> rfl
    | cons e events ih =>
      rw [List.flatMap_cons, onChannel_append, ih, onChannel_translateEvent h]
      split
      · rfl
      · rename_i id c hf
        cases he : eventFor id e with
        | none =>
          rw [List.filterMap_cons_none he]
          rfl
        | some event =>
          rw [List.filterMap_cons_some he]
          rfl

/-- What an action decides to send. -/
def decided (s : Engine) : EngineAct → List Dispatch
  | .poll _ alerts => s.translated alerts
  | _ => []

theorem onChannel_decided (h : Registered s) (channel : Nat) (a : EngineAct) :
    onChannel channel (s.decided a) = s.owed channel a := by
  cases a with
  | poll p alerts => exact onChannel_translated h channel p alerts
  | _ => rfl

theorem Moves.cases (hs : s.Moves a s') :
    (s'.sent = s.sent ∧ s'.pending = s.pending ∧ s.decided a = [] ∧
      (s'.pollers = s.pollers ∨ s'.pollers = s.pollers ++ [.polling])) ∨
    (∃ p alerts, a = .poll p alerts ∧ s.pollers[p]? = some .polling ∧ s'.sent = s.sent ∧
      s'.pollers = s.pollers.set p (.dispatching (s.translated alerts) (s.continues alerts))) ∨
    ∃ p, a = .dispatch p := by
  cases hs with
  | ensure =>
    refine .inl ⟨rfl, ?_, rfl, .inr rfl⟩
    rw [pending, List.flatMap_append]
    exact List.append_nil _
  | poll hp => exact .inr (.inl ⟨_, _, rfl, hp, rfl, rfl⟩)
  | send | turn => exact .inr (.inr ⟨_, rfl⟩)
  | add | hint | insert | polled | refused | remove => exact .inl ⟨rfl, rfl, rfl, .inl rfl⟩

/-- What is decided is sent in the end, once each. -/
theorem moves_perm (hs : s.Moves a s') :
    (s'.sent ++ s'.pending).Perm (s.sent ++ s.pending ++ s.decided a) := by
  rcases hs.cases with ⟨hsent, hpending, hdecided, _⟩ | ⟨p, alerts, rfl, hp, hsent, hpollers⟩ |
    ⟨p, rfl⟩
  · rw [hsent, hpending, hdecided, List.append_nil]
  · have hset : ((s.pollers.set p (.dispatching (s.translated alerts)
        (s.continues alerts))).flatMap Poller.rest ++ []).Perm (s.pending ++ s.translated alerts) :=
      flatMap_set_perm hp _
    rw [List.append_nil, ← hpollers] at hset
    rw [hsent, List.append_assoc]
    exact hset.append_left _
  · have hperm := dispatch_perm hs
    rw [show s.decided (.dispatch p) = [] from rfl, List.append_nil]
    exact hperm

/-- A poller that will not go on has nothing left to send. -/
def Idle (s : Engine) : Prop := ∀ poller ∈ s.pollers, poller.goesOn = false → poller.rest = []

/-- The poll succeeds. -/
def Polls : EngineAct → Prop
  | .poll _ (.error _) => False
  | _ => True

theorem flatMap_set_only {pollers : List Poller}
    (hidle : ∀ poller ∈ pollers, poller.goesOn = false → poller.rest = [])
    (hone : pollers.countP Poller.goesOn ≤ 1) (hp : pollers[p]? = some a) (ha : a.goesOn = true)
    (b : Poller) : (pollers.set p b).flatMap Poller.rest = b.rest := by
  induction pollers generalizing p with
  | nil => cases hp
  | cons c pollers ih =>
    rw [List.countP_cons] at hone
    rw [List.forall_mem_cons] at hidle
    cases p with
    | zero =>
      cases hp
      rw [if_pos ha] at hone
      have hnone : pollers.flatMap Poller.rest = [] := by
        apply List.flatMap_eq_nil_iff.2
        intro poller hmem
        apply hidle.2 poller hmem
        have hzero : pollers.countP Poller.goesOn = 0 := by omega
        exact Bool.eq_false_of_not_eq_true (List.countP_eq_zero.1 hzero poller hmem)
      rw [List.set_cons_zero, List.flatMap_cons, hnone, List.append_nil]
    | succ p =>
      have hpos : 0 < pollers.countP Poller.goesOn :=
        List.countP_pos_iff.2 ⟨a, List.mem_of_getElem? hp, ha⟩
      have hc : c.goesOn = false := by
        cases hc : c.goesOn with
        | false => rfl
        | true =>
          rw [hc, if_pos rfl] at hone
          omega
      rw [List.set_cons_succ, List.flatMap_cons, hidle.1 hc, List.nil_append]
      exact ih hidle.2 (by omega) hp

theorem Idle.set (h : Idle s) (hb : b.goesOn = false → b.rest = [])
    (hpollers : s'.pollers = s.pollers.set p b) : Idle s' := by
  intro poller hmem
  rw [hpollers] at hmem
  rcases List.mem_or_eq_of_mem_set hmem with hmem | rfl
  · exact h poller hmem
  · exact hb

theorem Idle.pending_eq {p : Nat} {a : Poller} (h : Idle s)
    (hone : s.pollers.countP Poller.goesOn ≤ 1) (hp : s.pollers[p]? = some a)
    (ha : a.goesOn = true) : s.pending = a.rest := by
  have hset := flatMap_set_only h hone hp ha a
  obtain ⟨hlt, rfl⟩ := List.getElem?_eq_some_iff.1 hp
  rwa [List.set_getElem_self] at hset

theorem flatMap_set_same {f : α → List β} {l : List α} (h : l[i]? = some a) (hb : f b = f a) :
    (l.set i b).flatMap f = l.flatMap f := by
  obtain ⟨hlt, rfl⟩ := List.getElem?_eq_some_iff.1 h
  have hmap : i < (l.map f).length := by
    rw [List.length_map]
    exact hlt
  have hget : f l[i] = (l.map f)[i] := (List.getElem_map _).symm
  rw [List.flatMap_def, List.flatMap_def, List.map_set, hb, hget, List.set_getElem_self]

theorem Idle.dispatch (h : Idle s) (hone : s.pollers.countP Poller.goesOn ≤ 1)
    (hs : s.Moves (.dispatch p) s') :
    Idle s' ∧ s'.sent ++ s'.pending = s.sent ++ s.pending := by
  cases hs with
  | @send d rest shouldContinue _ hp =>
    cases shouldContinue with
    | false => cases h _ (List.mem_of_getElem? hp) rfl
    | true =>
      have hgoes : (Poller.dispatching rest true).goesOn = true := rfl
      refine ⟨h.set (fun hstops => by cases hgoes.symm.trans hstops) rfl, ?_⟩
      have hrest : _ = rest := flatMap_set_only h hone hp rfl (.dispatching rest true)
      rw [h.pending_eq hone hp rfl, pending, hrest, List.append_assoc]
      rfl
  | @turn shouldContinue _ hp =>
    have hb : (if shouldContinue then Poller.polling else .ended).rest = [] := by
      cases shouldContinue <;> rfl
    refine ⟨h.set (fun _ => hb) rfl, ?_⟩
    rw [pending, flatMap_set_same hp hb]
    rfl

theorem Idle.moves (h : Idle s) (hone : s.pollers.countP Poller.goesOn ≤ 1) (ha : Polls a)
    (hs : s.Moves a s') :
    Idle s' ∧ s'.sent ++ s'.pending = s.sent ++ s.pending ++ s.decided a := by
  rcases hs.cases with ⟨hsent, hpending, hdecided, hpollers⟩ |
    ⟨p, alerts, rfl, hp, hsent, hpollers⟩ | ⟨p, rfl⟩
  · rw [hsent, hpending, hdecided, List.append_nil]
    refine ⟨?_, rfl⟩
    unfold Idle
    rcases hpollers with hpollers | hpollers
    · rw [hpollers]
      exact h
    · rw [hpollers, List.forall_mem_append]
      refine ⟨h, ?_⟩
      intro poller hmem hgoes
      cases List.mem_singleton.1 hmem
      rfl
  · cases alerts with
    | error err => cases ha
    | ok events =>
      have hrest : _ = s.translated (.ok events) :=
        flatMap_set_only h hone hp rfl
          (.dispatching (s.translated (.ok events)) (s.continues (.ok events)))
      constructor
      · refine h.set ?_ hpollers
        intro hstops
        have hnone : s.senders = [] := by simpa [Poller.goesOn, continues] using hstops
        simp [Poller.rest, translated, translateEvent, hnone]
      · rw [hsent, h.pending_eq hone hp rfl, pending, hpollers, hrest]
        rw [show Poller.polling.rest = [] from rfl, List.append_nil]
        rfl
  · have hdispatch := h.dispatch hone hs
    rw [show s.decided (.dispatch p) = [] from rfl, List.append_nil]
    exact hdispatch

theorem Served.run (hrun : Transition.run Engine.step {} acts = some s) : Served s := by
  apply Transition.run_invariant (I := Served) _ _ hrun
  · intro s a s' hs hstep
    exact hs.moves (step_moves hstep)
  · exact ⟨rfl, fun hne => absurd rfl hne⟩

end Engine

/-- Whatever the order of the calls, the polls and their failures: at most one poller is at work,
and as long as there are sessions there is one, a call is about to start one, or every session has
been or is being told that the polling has failed. -/
theorem engine_sessions_watched (acts : List EngineAct) (s : Engine)
    (hrun : Transition.run Engine.step {} acts = some s) :
    s.pollers.countP Poller.goesOn ≤ 1 ∧
      (s.senders ≠ [] → s.pollers.countP Poller.goesOn = 1 ∨
        (∃ call ∈ s.calls, call.phase = .ensuring) ∨
        ∀ entry ∈ s.senders, ∃ err,
          (entry.2, .error (Engine.pollFailure err)) ∈ s.sent ++ s.pending) := by
  have h := Engine.Served.run hrun
  rw [h.one]
  constructor
  · exact Bool.toNat_le _
  · intro hne
    refine (h.watched hne).imp_left ?_
    intro hpolling
    rw [hpolling]
    rfl

/-- A session gets what the alerts of its torrent, and those about the engine, say while it is
there: nothing is lost and nothing is sent twice, and as long as the polls succeed the order is that
of the alerts. -/
theorem engine_delivers_in_order (acts : List EngineAct) (s : Engine) (channel : Nat)
    (hown : Transition.Meets Engine.step Engine.OwnChannel {} acts)
    (hrun : Transition.run Engine.step {} acts = some s) :
    (Engine.onChannel channel (s.sent ++ s.pending)).Perm (Engine.owedBy channel {} acts) ∧
      ((∀ a ∈ acts, Engine.Polls a) →
        Engine.onChannel channel (s.sent ++ s.pending) = Engine.owedBy channel {} acts) := by
  have hregistered : Engine.Registered {} := ⟨List.nodup_nil, List.nodup_nil⟩
  constructor
  · have h : s.Registered ∧ (Engine.onChannel channel (s.sent ++ s.pending)).Perm
        (Engine.owedBy channel {} acts) := by
      apply hown.history (I := fun s due =>
        s.Registered ∧ (Engine.onChannel channel (s.sent ++ s.pending)).Perm due) _ _ hrun
      · rintro s due a s' ⟨hs, hdue⟩ ha hstep
        refine ⟨hs.moves ha (Engine.step_moves hstep), ?_⟩
        rw [← Engine.onChannel_decided hs]
        calc Engine.onChannel channel (s'.sent ++ s'.pending)
          _ |>.Perm (Engine.onChannel channel (s.sent ++ s.pending ++ s.decided a)) :=
            (Engine.moves_perm (Engine.step_moves hstep)).filterMap _
          _ = Engine.onChannel channel (s.sent ++ s.pending) ++
              Engine.onChannel channel (s.decided a) := Engine.onChannel_append ..
          _ |>.Perm (due ++ Engine.onChannel channel (s.decided a)) := hdue.append_right _
      · exact ⟨hregistered, List.Perm.refl _⟩
    exact h.2
  · intro hpolls
    have h : s.Registered ∧ s.Served ∧ s.Idle ∧
        Engine.onChannel channel (s.sent ++ s.pending) = Engine.owedBy channel {} acts := by
      apply ((Transition.meets_and_iff hpolls).1 hown).history (I := fun s due =>
        s.Registered ∧ s.Served ∧ s.Idle ∧ Engine.onChannel channel (s.sent ++ s.pending) = due)
        _ _ hrun
      · rintro s due a s' ⟨hs, hserved, hidle, rfl⟩ ⟨hpoll, ha⟩ hstep
        have hone : s.pollers.countP Poller.goesOn ≤ 1 := by
          rw [hserved.one]
          exact Bool.toNat_le _
        obtain ⟨hidle', heq⟩ := hidle.moves hone hpoll (Engine.step_moves hstep)
        have hmoves := Engine.step_moves hstep
        refine ⟨hs.moves ha hmoves, hserved.moves hmoves, hidle', ?_⟩
        rw [heq, Engine.onChannel_append, Engine.onChannel_decided hs]
      · exact ⟨hregistered, ⟨rfl, fun hne => absurd rfl hne⟩,
          fun poller hmem => absurd hmem List.not_mem_nil, rfl⟩
    exact h.2.2.2

instance (s : Engine) : (a : EngineAct) → Decidable (s.OwnChannel a)
  | .insert i => inferInstanceAs (Decidable (∀ call ∈ s.calls[i]?, ∀ entry ∈ s.senders,
      call.sender = some entry.2 → entry.1 = call.externalId))
  | .add _ _ _ | .hint _ _ | .ensure _ | .remove _ _ | .poll _ _ | .dispatch _ => isTrue trivial

/-- A piece of the torrent has been checked. -/
def pieceAlert (externalId : String) (pieceIndex : Nat) : NativeEngineEvent where
  kind := EVENT_PIECE_FINISHED
  externalId := externalId
  state := 0
  message := ""
  pieceIndex := pieceIndex
  downloaded := 0
  total := 0
  downloadRateBps := 0
  uploadRateBps := 0
  connectedPeers := 0
  seeds := 0
  resumeData := []
  hasMetadata := false
  metadata := ⟨"", false, "", false, "", 0, 0, 0, false, [], [], [], []⟩
  diagnosticScope := 0
  diagnosticSeverity := 0
  diagnosticUrl := ""
  diagnosticEndpoint := ""
  diagnosticHasPeers := false
  diagnosticPeers := 0

/-- Two sessions are started; a third alert comes when the first has been removed. -/
def alertedTorrents : List EngineAct :=
  [.add "a" none (some 1), .add "b" none (some 2), .hint 0 true, .insert 0, .ensure 0, .hint 1 true,
    .insert 1, .poll 0 (.ok [pieceAlert "a" 0, pieceAlert "b" 0]), .ensure 1, .dispatch 0,
    .dispatch 0, .dispatch 0, .remove "a" true, .poll 0 (.ok [pieceAlert "a" 1, pieceAlert "b" 1])]

theorem two_torrents_watched : ∃ s, Transition.run Engine.step {} alertedTorrents = some s ∧
    s.pollers.countP Poller.goesOn ≤ 1 ∧
      (s.senders ≠ [] → s.pollers.countP Poller.goesOn = 1 ∨
        (∃ call ∈ s.calls, call.phase = .ensuring) ∨
        ∀ entry ∈ s.senders, ∃ err,
          (entry.2, .error (Engine.pollFailure err)) ∈ s.sent ++ s.pending) :=
  ⟨_, rfl, engine_sessions_watched alertedTorrents _ rfl⟩

theorem two_torrents_delivered : ∃ s, Transition.run Engine.step {} alertedTorrents = some s ∧
    Engine.owedBy 2 {} alertedTorrents = [.pieceFinished 0, .pieceFinished 1] ∧
    (Engine.onChannel 2 (s.sent ++ s.pending)).Perm (Engine.owedBy 2 {} alertedTorrents) ∧
      ((∀ a ∈ alertedTorrents, Engine.Polls a) →
        Engine.onChannel 2 (s.sent ++ s.pending) = Engine.owedBy 2 {} alertedTorrents) :=
  ⟨_, rfl, by decide, engine_delivers_in_order alertedTorrents _ 2 (by decide) rfl⟩

end Paradown
