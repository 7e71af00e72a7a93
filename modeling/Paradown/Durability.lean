import Paradown.Backends
import Paradown.Splice
import Paradown.Transition

namespace Paradown
set_option autoImplicit true

/-- What `serde_json` makes of the state, and back. -/
structure JsonFormat where
  toVecPretty : JsonRepositoryState → List UInt8
  fromStr : String → Except String JsonRepositoryState

/-- `JsonFileRepository::new`, for a file that is missing or can be read. -/
def JsonFormat.openRepository (format : JsonFormat) (path : String) :
    Option (List UInt8) → Except Error JsonRepositoryState
  | none => .ok {}
  | some bytes =>
    match String.fromUTF8? ⟨bytes.toArray⟩ with
    | none => .error (.io "stream did not contain valid UTF-8")
    | some contents =>
      if trim contents = "" then .ok {}
      else
        match format.fromStr contents with
        | .ok state => .ok state
        | .error err => .error (.other ("failed to parse " ++ path ++ ": " ++ err))

/-- The text of the state is read back as the state. -/
def JsonFormat.RoundTrips (format : JsonFormat) (state : JsonRepositoryState) : Prop :=
  ∃ text, String.fromUTF8? ⟨(format.toVecPretty state).toArray⟩ = some text ∧ trim text ≠ "" ∧
    format.fromStr text = .ok state

theorem JsonFormat.RoundTrips.opens {format : JsonFormat} {state : JsonRepositoryState}
    (h : format.RoundTrips state) (path : String) :
    format.openRepository path (some (format.toVecPretty state)) = .ok state := by
  obtain ⟨text, hutf, htrim, hstr⟩ := h
  simp only [openRepository, hutf, if_neg htrim, hstr]

theorem trim_ne_empty {s : String} (hc : c ∈ s.toList) (h : isWhiteSpace c = false) :
    trim s ≠ "" := by
  have hleft : s.toList.dropWhile isWhiteSpace ≠ [] := by
    intro hnil
    rw [List.dropWhile_eq_nil_iff.1 hnil c hc] at h
    cases h
  intro htrim
  rw [trim, String.ofList_eq_empty_iff, List.reverse_eq_nil_iff, List.dropWhile_eq_nil_iff] at htrim
  have hhead := List.head_dropWhile_not (p := isWhiteSpace) hleft
  rw [htrim _ (List.mem_reverse.2 (List.head_mem hleft))] at hhead
  cases hhead

/-- Write into a file at an offset; what is missing in between is filled with zeros. -/
def writeBytes (contents : List UInt8) (offset : Nat) (bytes : List UInt8) : List UInt8 :=
  splice (contents ++ List.replicate (offset - contents.length) 0) offset bytes

/-- Where a call stands: it takes the write lock, then a snapshot, then it writes the file. -/
inductive JsonPhase where
  | begun
  | changed
  | holding (snapshot : JsonRepositoryState)
  | writing (snapshot : JsonRepositoryState) (written : Nat)
  | returned (result : Except Error Unit)
  deriving DecidableEq

def JsonPhase.isHolding : JsonPhase → Bool
  | .holding _ => true
  | _ => false

def JsonPhase.isWriting : JsonPhase → Bool
  | .writing _ _ => true
  | _ => false

structure JsonCall where
  op : RepositoryOp
  phase : JsonPhase
  deriving DecidableEq

/-- The state in memory, the file, and the calls that have been made. -/
structure JsonStore where
  state : JsonRepositoryState
  file : Option (List UInt8)
  calls : List JsonCall := []

/-- A step goes on, where it writes with a number of bytes, or it meets an I/O error. -/
inductive JsonChoice where
  | go (bytes : Nat)
  | fail (err : Error)

inductive JsonAct where
  | call (op : RepositoryOp)
  | step (call : Nat) (choice : JsonChoice)

namespace JsonStore

def goto (w : JsonStore) (i : Nat) (call : JsonCall) (phase : JsonPhase) : JsonStore :=
  { w with calls := w.calls.set i { call with phase } }

/-- `tokio::fs::write` truncates the file and then writes, perhaps in several parts. -/
def step (format : JsonFormat) (w : JsonStore) : JsonAct → Option JsonStore
  | .call op => some { w with calls := w.calls ++ [⟨op, .begun⟩] }
  | .step i choice =>
    match w.calls[i]? with
    | none => none
    | some call =>
      match call.phase, choice with
      | .begun, .go _ => some ({ w with state := w.state.apply call.op }.goto i call .changed)
      | .changed, .go _ => some (w.goto i call (.holding w.state))
      | .holding snapshot, .go _ =>
        some ({ w with file := some [] }.goto i call (.writing snapshot 0))
      | .holding _, .fail err => some (w.goto i call (.returned (.error err)))
      | .writing snapshot written, .go bytes =>
        let payload := format.toVecPretty snapshot
        if written + bytes ≤ payload.length then
          let file := writeBytes (w.file.getD []) written ((payload.drop written).take bytes)
          some ({ w with file := some file }.goto i call
            (if written + bytes = payload.length then .returned (.ok ())
              else .writing snapshot (written + bytes)))
        else none
      | .writing _ _, .fail err => some (w.goto i call (.returned (.error err)))
      | .begun, .fail _ | .changed, .fail _ | .returned _, _ => none

/-- Every call has returned `Ok`. -/
def AllReturned (calls : List JsonCall) : Prop := ∀ call ∈ calls, call.phase = .returned (.ok ())

instance (calls : List JsonCall) : Decidable (AllReturned calls) :=
  inferInstanceAs (Decidable (∀ _ ∈ _, _))

/-- When the step leaves every call returned, the file holds the state in memory. -/
def KeepsFile (format : JsonFormat) (w : JsonStore) (a : JsonAct) : Prop :=
  ∀ w', w.step format a = some w' → AllReturned w'.calls →
    w'.file = some (format.toVecPretty w'.state)

/-- A call opens the file only while no other call is writing. -/
def OpensAlone (w : JsonStore) : JsonAct → Prop
  | .step i (.go _) =>
    ∀ call ∈ w.calls[i]?, call.phase.isHolding = true →
      ∀ other ∈ w.calls, other.phase.isWriting = false
  | _ => True

/-- The snapshot whose last bytes the step writes. -/
def finished (format : JsonFormat) (w : JsonStore) : JsonAct → Option (Nat × JsonRepositoryState)
  | .step i (.go bytes) =>
    match w.calls[i]? with
    | some ⟨_, .writing snapshot written⟩ =>
      if written + bytes = (format.toVecPretty snapshot).length then some (i, snapshot) else none
    | _ => none
  | _ => none

/-- A call that writes its last bytes when every other call has returned `Ok` writes the state in
memory: nothing has changed it since the snapshot. -/
def WritesCurrent (format : JsonFormat) (w : JsonStore) (a : JsonAct) : Prop :=
  ∀ e ∈ w.finished format a, AllReturned (w.calls.eraseIdx e.1) →
    format.toVecPretty e.2 = format.toVecPretty w.state

instance : DecidableRel OpensAlone
  | w, .step i (.go _) =>
    decidable_of_iff (∀ call ∈ (w.calls[i]?).toList, call.phase.isHolding = true →
      ∀ other ∈ w.calls, other.phase.isWriting = false)
      (by simp only [OpensAlone, Option.mem_toList, Option.mem_def])
  | _, .step _ (.fail _) => isTrue trivial
  | _, .call _ => isTrue trivial

instance (format : JsonFormat) : DecidableRel (WritesCurrent format) := fun w a =>
  decidable_of_iff (∀ e ∈ (w.finished format a).toList, AllReturned (w.calls.eraseIdx e.1) →
    format.toVecPretty e.2 = format.toVecPretty w.state)
    (by simp only [WritesCurrent, Option.mem_toList, Option.mem_def])

/-- What a step of a call can do. -/
inductive Move (format : JsonFormat) (w : JsonStore) (op : RepositoryOp) :
    JsonChoice → JsonPhase → JsonPhase → JsonRepositoryState → Option (List UInt8) → Prop where
  | change : Move format w op (.go bytes) .begun .changed (w.state.apply op) w.file
  | snapshot : Move format w op (.go bytes) .changed (.holding w.state) w.state w.file
  | truncate (snapshot : JsonRepositoryState) :
    Move format w op (.go bytes) (.holding snapshot) (.writing snapshot 0) w.state (some [])
  | write (snapshot : JsonRepositoryState) (written : Nat)
      (h : written + bytes ≤ (format.toVecPretty snapshot).length) :
    Move format w op (.go bytes) (.writing snapshot written)
      (if written + bytes = (format.toVecPretty snapshot).length then .returned (.ok ())
        else .writing snapshot (written + bytes)) w.state
      (some (writeBytes (w.file.getD []) written
        (((format.toVecPretty snapshot).drop written).take bytes)))
  | fail (phase : JsonPhase) :
    Move format w op (.fail err) phase (.returned (.error err)) w.state w.file

theorem step_move {w w' : JsonStore} (h : w.step format (.step i choice) = some w') :
    ∃ call phase state file, w.calls[i]? = some call ∧
      Move format w call.op choice call.phase phase state file ∧
      w' = ⟨state, file, w.calls.set i { call with phase }⟩ := by
  simp only [step] at h
  split at h
  · cases h
  · rename_i call hi
    split at h
    case h_1 hphase =>
      cases h
      exact ⟨call, _, _, _, hi, hphase ▸ .change, rfl⟩
    case h_2 hphase =>
      cases h
      exact ⟨call, _, _, _, hi, hphase ▸ .snapshot, rfl⟩
    case h_3 hphase =>
      cases h
      exact ⟨call, _, _, _, hi, hphase ▸ .truncate _, rfl⟩
    case h_4 hphase =>
      cases h
      exact ⟨call, _, _, _, hi, .fail _, rfl⟩
    case h_5 hphase =>
      split at h
      · rename_i hle
        cases h
        exact ⟨call, _, _, _, hi, hphase ▸ .write _ _ hle, rfl⟩
      · cases h
    case h_6 hphase =>
      cases h
      exact ⟨call, _, _, _, hi, .fail _, rfl⟩
    all_goals cases h

/-- At most one call is writing, and the file holds what it has written so far. -/
structure OneWriter (format : JsonFormat) (w : JsonStore) : Prop where
  content : ∀ (i : Nat) call snapshot written, w.calls[i]? = some call →
    call.phase = .writing snapshot written →
      w.file = some ((format.toVecPretty snapshot).take written)
  alone : ∀ (i j : Nat) call other, w.calls[i]? = some call → w.calls[j]? = some other →
    call.phase.isWriting = true → other.phase.isWriting = true → i = j

theorem writeBytes_next {payload : List UInt8} (h : written + bytes ≤ payload.length) :
    writeBytes (payload.take written) written ((payload.drop written).take bytes) =
      payload.take (written + bytes) := by
  have hlength : (payload.take written).length = written := by
    rw [List.length_take]
    omega
  have hrest : (payload.take written).drop (written + ((payload.drop written).take bytes).length) =
      [] := by
    apply List.drop_eq_nil_of_le
    rw [hlength]
    exact Nat.le_add_right _ _
  rw [writeBytes, hlength, Nat.sub_self, List.replicate_zero, List.append_nil, splice, hrest,
    List.take_take, Nat.min_self, List.append_nil, List.take_add]

theorem set_cases {l : List α} {i j : Nat} {x y : α} (h : (l.set i x)[j]? = some y) :
    (j = i ∧ y = x) ∨ (j ≠ i ∧ l[j]? = some y) := by
  by_cases hij : j = i
  · subst hij
    rw [List.getElem?_set_self'] at h
    left
    obtain ⟨_, _, rfl⟩ := Option.map_eq_some_iff.1 h
    exact ⟨rfl, rfl⟩
  · rw [List.getElem?_set_ne (Ne.symm hij)] at h
    exact .inr ⟨hij, h⟩

/-- Only a call that opens the file or is writing touches it. -/
theorem Move.cases {w : JsonStore} {state : JsonRepositoryState} {file : Option (List UInt8)}
    (h : Move format w op choice phase phase' state file) :
    (phase'.isWriting = false ∧ file = w.file) ∨ phase.isWriting = true ∨
      (phase.isHolding = true ∧ ∃ bytes, choice = .go bytes) := by
  cases h with
  | change => exact .inl ⟨rfl, rfl⟩
  | snapshot => exact .inl ⟨rfl, rfl⟩
  | truncate snapshot => exact .inr (.inr ⟨rfl, _, rfl⟩)
  | write snapshot written h => exact .inr (.inl rfl)
  | fail phase => exact .inl ⟨rfl, rfl⟩

theorem OneWriter.step {w w' : JsonStore} (h : w.OneWriter format) (ha : w.OpensAlone a)
    (hs : w.step format a = some w') : w'.OneWriter format := by
  cases a with
  | call op =>
    cases hs
    have hold (i : Nat) (call : JsonCall) (hi : (w.calls ++ [⟨op, .begun⟩])[i]? = some call)
        (hw : call.phase.isWriting = true) : w.calls[i]? = some call := by
      rw [List.getElem?_append] at hi
      split at hi
      · exact hi
      · rw [List.mem_singleton.1 (List.mem_of_getElem? hi)] at hw
        cases hw
    constructor
    case content =>
      intro i call snapshot written hi hphase
      exact h.content i call snapshot written (hold i call hi (by rw [hphase]; rfl)) hphase
    case alone =>
      intro i j call other hi hj hcall hother
      exact h.alone i j call other (hold i call hi hcall) (hold j other hj hother) hcall hother
  | step i choice =>
    obtain ⟨call, phase, state, file, hi, hmove, rfl⟩ := step_move hs
    -- a call that goes on writing leaves the steps of this one nothing to touch
    have hquiet (j : Nat) (other : JsonCall) (hne : j ≠ i) (hj : w.calls[j]? = some other)
        (hother : other.phase.isWriting = true) : phase.isWriting = false ∧ file = w.file := by
      rcases hmove.cases with hquiet | hwriting | ⟨hholding, bytes, rfl⟩
      · exact hquiet
      · exact absurd (h.alone j i other call hj hi hother hwriting) hne
      · have hnot := ha call hi hholding other (List.mem_of_getElem? hj)
        rw [hother] at hnot
        cases hnot
    constructor
    case content =>
      intro j other snapshot written hj hphase
      rcases set_cases hj with ⟨rfl, rfl⟩ | ⟨hne, hj'⟩
      · dsimp only at hphase
        generalize hcall : call.phase = before at hmove
        cases hmove with
        | change => cases hphase
        | snapshot => cases hphase
        | truncate _ =>
          cases hphase
          rfl
        | write snapshot' written' hle =>
          rw [h.content _ _ _ _ hi hcall, Option.getD_some, writeBytes_next hle]
          split at hphase
          · cases hphase
          · cases hphase
            rfl
        | fail _ => cases hphase
      · rw [(hquiet j other hne hj' (by rw [hphase]; rfl)).2]
        exact h.content j other snapshot written hj' hphase
    case alone =>
      intro j k first second hj hk hfirst hsecond
      rcases set_cases hj with ⟨rfl, rfl⟩ | ⟨hne, hj'⟩
      · rcases set_cases hk with ⟨rfl, rfl⟩ | ⟨hne, hk'⟩
        · rfl
        · have hphase := (hquiet k second hne hk' hsecond).1
          rw [hphase] at hfirst
          cases hfirst
      · rcases set_cases hk with ⟨rfl, rfl⟩ | ⟨hne', hk'⟩
        · have hphase := (hquiet j first hne hj' hfirst).1
          rw [hphase] at hsecond
          cases hsecond
        · exact h.alone j k first second hj' hk' hfirst hsecond

theorem not_allReturned {calls : List JsonCall} {call new : JsonCall} (hi : calls[i]? = some call)
    (hnew : new.phase ≠ .returned (.ok ())) : ¬ AllReturned (calls.set i new) := by
  intro h
  apply hnew
  apply h
  have hlt := (List.getElem?_eq_some_iff.1 hi).1
  exact List.mem_of_getElem? (List.getElem?_set_self hlt)

theorem allReturned_iff {calls : List JsonCall} (new : JsonCall)
    (hnew : new.phase = .returned (.ok ())) :
    AllReturned (calls.set i new) ↔ AllReturned (calls.eraseIdx i) := by
  constructor
  · intro h other hother
    obtain ⟨j, hne, hj⟩ := List.mem_eraseIdx_iff_getElem?.1 hother
    apply h
    apply List.mem_of_getElem? (i := j)
    rw [List.getElem?_set_ne (Ne.symm hne)]
    exact hj
  · intro h other hother
    obtain ⟨j, hj⟩ := List.mem_iff_getElem?.1 hother
    rcases set_cases hj with ⟨_, rfl⟩ | ⟨hne, hj⟩
    · exact hnew
    · exact h other (List.mem_eraseIdx_iff_getElem?.2 ⟨j, hne, hj⟩)

/-- As long as one call writes at a time, the file holds the state exactly when the last bytes are
those of the state. -/
theorem OneWriter.keepsFile_iff {w w' : JsonStore} (h : w.OneWriter format)
    (hs : w.step format a = some w') : w.KeepsFile format a ↔ w.WritesCurrent format a := by
  cases a with
  | call op =>
    cases hs
    apply iff_of_true
    · intro w' hs hall
      cases hs
      have hnew := hall ⟨op, .begun⟩ (List.mem_append_right _ List.mem_cons_self)
      cases hnew
    · intro e he
      cases he
  | step i choice =>
    obtain ⟨call, phase, state, file, hi, hmove, rfl⟩ := step_move hs
    -- unless the call writes its last bytes, it has not returned, and nothing is asked
    have hidle (hphase : phase ≠ .returned (.ok ()))
        (hfinished : w.finished format (.step i choice) = none) :
        w.KeepsFile format (.step i choice) ↔ w.WritesCurrent format (.step i choice) := by
      apply iff_of_true
      · intro w'' hs' hall
        cases hs.symm.trans hs'
        exact absurd hall (not_allReturned hi hphase)
      · intro e he
        rw [hfinished] at he
        cases he
    obtain ⟨op, before⟩ := call
    cases hmove with
    | change => exact hidle JsonPhase.noConfusion (by simp only [finished, hi])
    | snapshot => exact hidle JsonPhase.noConfusion (by simp only [finished, hi])
    | truncate _ => exact hidle JsonPhase.noConfusion (by simp only [finished, hi])
    | fail _ =>
      apply hidle _ rfl
      intro he
      cases he
    | write snapshot written hle =>
      rename_i bytes
      split at hidle
      case isFalse hlast =>
        apply hidle JsonPhase.noConfusion
        simp only [finished, hi, if_neg hlast]
      case isTrue hlast =>
        have hfinished : w.finished format (.step i (.go bytes)) = some (i, snapshot) := by
          simp only [finished, hi, if_pos hlast]
        have hbytes := writeBytes_next hle
        rw [hlast, List.take_length] at hbytes
        simp only [h.content i _ snapshot written hi rfl, Option.getD_some, hbytes,
          if_pos hlast] at hs
        simp only [KeepsFile, WritesCurrent, hs, hfinished, Option.mem_def, Option.some.injEq,
          forall_eq', allReturned_iff ⟨op, .returned (.ok ())⟩ rfl]

/-- The store as `JsonFileRepository::new` leaves it. -/
def opened (state : JsonRepositoryState) (file : Option (List UInt8)) : JsonStore where
  state := state
  file := file

theorem OneWriter.opened (format : JsonFormat) (state : JsonRepositoryState)
    (file : Option (List UInt8)) : (opened state file).OneWriter format where
  content i call snapshot written h := by cases h
  alone i j call other h := by cases h

/-- As long as a call opens the file only while no other writes it, the file holds the state
whenever all calls have returned exactly if the bytes written last are those of the state. It then
opens as the state. -/
theorem file_holds_state_iff {state : JsonRepositoryState} {file : Option (List UInt8)}
    (path : String) (hopen : format.openRepository path file = .ok state)
    (hr : Transition.run (step format) (opened state file) acts = some w)
    (halone : Transition.Meets (step format) OpensAlone (opened state file) acts) :
    (Transition.Meets (step format) (KeepsFile format) (opened state file) acts ↔
      Transition.Meets (step format) (WritesCurrent format) (opened state file) acts) ∧
    (Transition.Meets (step format) (WritesCurrent format) (opened state file) acts →
      AllReturned w.calls → format.RoundTrips w.state →
        format.openRepository path w.file = .ok w.state) := by
  have hiff : Transition.Meets (step format) (KeepsFile format) (opened state file) acts ↔
      Transition.Meets (step format) (WritesCurrent format) (opened state file) acts := by
    apply halone.iff (I := OneWriter format) _ _ (.opened format state file) hr
    · intro w a w' hw ha hs
      exact hw.step ha hs
    · intro w a w' hw ha hs
      exact hw.keepsFile_iff hs
  refine ⟨hiff, ?_⟩
  intro hcurrent hall hround
  -- before the first step the file is the one that was opened
  have hlast : AllReturned w.calls →
      w = opened state file ∨ w.file = some (format.toVecPretty w.state) := by
    apply (hiff.2 hcurrent).invariant _ _ hr
    · intro w a w' _ hkeeps hs hall
      exact .inr (hkeeps w' hs hall)
    · intro _
      exact .inl rfl
  rcases hlast hall with rfl | hfile
  · exact hopen
  · rw [hfile]
    exact hround.opens path

/-- What `serde_json` writes for a block row without a date. -/
def blockText (b : DBDownloadBlock) : String :=
  "\n    \x7b\n      \"task_id\": " ++ toString b.taskId ++
  ",\n      \"piece_index\": " ++ toString b.pieceIndex ++
  ",\n      \"block_index\": " ++ toString b.blockIndex ++
  ",\n      \"completed\": " ++ toString b.completed ++
  ",\n      \"updated_at\": null\n    \x7d"

/-- What it writes for a state that holds such rows and no others. -/
def blocksText (blocks : List DBDownloadBlock) : String :=
  "\x7b" ++ "\n  \"tasks\": [],\n  \"workers\": [],\n  \"pieces\": [],\n  \"blocks\": [" ++
  String.intercalate "," (blocks.map blockText) ++ "\n  ],\n  \"checksums\": []\n\x7d"

def blocksFormat (known : List (List DBDownloadBlock)) : JsonFormat where
  toVecPretty state := (blocksText state.blocks).toUTF8.data.toList
  fromStr text :=
    match known.find? (fun blocks => blocksText blocks = text) with
    | some blocks => .ok { blocks }
    | none => .error "expected value at line 1 column 1"

theorem blocksFormat_roundTrips
    (h : known.find? (fun rows => blocksText rows = blocksText blocks) = some blocks) :
    (blocksFormat known).RoundTrips { blocks } := by
  refine ⟨blocksText blocks, ?_, ?_, ?_⟩
  · change String.fromUTF8? (blocksText blocks).toByteArray = _
    rw [String.fromUTF8?, dif_pos (blocksText blocks).isValidUTF8]
    rfl
  · apply trim_ne_empty (c := '\x7b') _ rfl
    rw [blocksText, String.append_assoc, String.append_assoc, String.toList_append]
    exact List.mem_append_left _ List.mem_cons_self
  · simp only [blocksFormat, h]

def firstBlock : DBDownloadBlock := ⟨1, 0, 0, true, none⟩
def secondBlock : DBDownloadBlock := ⟨2, 0, 0, true, none⟩

def twoBlocksFormat : JsonFormat := blocksFormat [[firstBlock], [firstBlock, secondBlock]]

theorem twoBlocks_roundTrips : twoBlocksFormat.RoundTrips { blocks := [firstBlock, secondBlock] } :=
  blocksFormat_roundTrips (by decide +kernel)

theorem firstBlock_roundTrips : twoBlocksFormat.RoundTrips { blocks := [firstBlock] } :=
  blocksFormat_roundTrips (by decide +kernel)

/-- Two calls to `save_blocks`, one after the other. -/
def callsInTurn : List JsonAct :=
  [.call (.saveBlocks 1 [firstBlock]), .step 0 (.go 0), .step 0 (.go 0), .step 0 (.go 0),
    .step 0 (.go 200), .step 0 (.go 18), .call (.saveBlocks 2 [secondBlock]), .step 1 (.go 0),
    .step 1 (.go 0), .step 1 (.go 0), .step 1 (.go 349)]

/-- The second call takes its snapshot and writes it while the first has yet to write its own. -/
def overtakenCalls : List JsonAct :=
  [.call (.saveBlocks 1 [firstBlock]), .call (.saveBlocks 2 [secondBlock]), .step 0 (.go 0),
    .step 0 (.go 0), .step 1 (.go 0), .step 1 (.go 0), .step 1 (.go 0), .step 1 (.go 349),
    .step 0 (.go 0), .step 0 (.go 218)]

theorem calls_in_turn_hold : ∃ w,
    Transition.run (step twoBlocksFormat) (opened {} none) callsInTurn = some w ∧
    AllReturned w.calls ∧
    Transition.Meets (step twoBlocksFormat) (KeepsFile twoBlocksFormat) (opened {} none)
      callsInTurn ∧
    twoBlocksFormat.openRepository "tasks.json" w.file =
      .ok { blocks := [firstBlock, secondBlock] } := by
  obtain ⟨w, hr, hall, hstate⟩ : ∃ w,
      Transition.run (step twoBlocksFormat) (opened {} none) callsInTurn = some w ∧
      AllReturned w.calls ∧ w.state = { blocks := [firstBlock, secondBlock] } :=
    Transition.run_any (by decide +kernel)
  have hcurrent : Transition.Meets (step twoBlocksFormat) (WritesCurrent twoBlocksFormat)
      (opened {} none) callsInTurn := by decide +kernel
  have hholds := file_holds_state_iff "tasks.json" rfl hr (by decide +kernel)
  refine ⟨w, hr, hall, hholds.1.2 hcurrent, ?_⟩
  rw [← hstate]
  apply hholds.2 hcurrent hall
  rw [hstate]
  exact twoBlocks_roundTrips

/-- Both calls return `Ok`, and the row the second one saved is gone when the file is opened. -/
theorem overtaken_call_is_lost : ∃ w,
    twoBlocksFormat.openRepository "tasks.json" none = .ok {} ∧
    Transition.run (step twoBlocksFormat) (opened {} none) overtakenCalls = some w ∧
    AllReturned w.calls ∧ w.state = { blocks := [firstBlock, secondBlock] } ∧
    w.file ≠ some (twoBlocksFormat.toVecPretty w.state) ∧
    twoBlocksFormat.openRepository "tasks.json" w.file = .ok { blocks := [firstBlock] } := by
  obtain ⟨w, hr, hall, hstate, hfile, hlost⟩ : ∃ w,
      Transition.run (step twoBlocksFormat) (opened {} none) overtakenCalls = some w ∧
      AllReturned w.calls ∧ w.state = { blocks := [firstBlock, secondBlock] } ∧
      w.file = some (twoBlocksFormat.toVecPretty { blocks := [firstBlock] }) ∧
      w.file ≠ some (twoBlocksFormat.toVecPretty w.state) :=
    Transition.run_any (by decide +kernel)
  refine ⟨w, rfl, hr, hall, hstate, hlost, ?_⟩
  rw [hfile]
  exact firstBlock_roundTrips.opens "tasks.json"

end JsonStore

end Paradown
