import Paradown.History
import Paradown.Payload

namespace Paradown
set_option autoImplicit true

/-- The `Display` texts of the errors. -/
def Error.toText : Error → String
  | .io message => "IO error: " ++ message
  | .reqwest message => "HTTP error: " ++ message
  | .httpError id code message => s!"HTTP error for file {id}: {code} {message}"
  | .networkError id message => s!"Network error for file {id}: {message}"
  | .resumeInvalidated id message => s!"Resume invalidated for file {id}: {message}"
  | .checksumMismatch id expected actual =>
    s!"Checksum mismatch for file {id}: expected {expected}, got {actual}"
  | .invalidUrl message => "Invalid URL: " ++ message
  | .unsupportedProtocol message => "Unsupported protocol: " ++ message
  | .urlParseError message => "URL parse error: " ++ message
  | .configError message => "Configuration error: " ++ message
  | .other message => "Other error: " ++ message
  | .joinError message => "Task join error: " ++ message
  | .acquireError message => "Semaphore acquire error: " ++ message
  | .taskNotFound id => s!"Task {id} not found"
  | .canceled id => s!"Task {id} is cancelled"
  | .parse message => "Parse error: " ++ message
  | .header message => "Header ToStrError: " ++ message

/-- `str::split_once`. -/
def splitOnce (c : Char) : List Char → Option (List Char × List Char)
  | [] => none
  | d :: ds => if d = c then some ([], ds) else (splitOnce c ds).map fun p => (d :: p.1, p.2)

/-- `str::parse::<u64>`: one or more digits after an optional plus sign, within 64 bits. -/
def parseU64 (text : List Char) : Option Nat :=
  let digits := match text with
    | '+' :: rest => rest
    | _ => text
  if digits.isEmpty || !digits.all Char.isDigit then none
  else
    let value := digits.foldl (fun n d => n * 10 + (d.toNat - '0'.toNat)) 0
    if value < 2 ^ 64 then some value else none

structure ContentRange where
  start : Nat
  endByte : Nat
  totalSize : Option Nat
  deriving DecidableEq, Repr

def parseContentRange (value : String) : Option ContentRange := do
  let value ← match (trim value).toList with
    | 'b' :: 'y' :: 't' :: 'e' :: 's' :: ' ' :: rest => some rest
    | _ => none
  let (rangePart, totalPart) ← splitOnce '/' value
  let (startPart, endPart) ← splitOnce '-' rangePart
  let start ← parseU64 startPart
  let endByte ← parseU64 endPart
  if totalPart = ['*'] then return ⟨start, endByte, none⟩
  let totalSize ← parseU64 totalPart
  return ⟨start, endByte, some totalSize⟩

/-- What a server sends back to one request. The header `Content-Range` may be absent, or present
without being readable as text; the body comes in chunks and ends cleanly or with an error. -/
structure Response where
  status : Nat
  statusText : String
  contentRange : Option (Option String)
  chunks : List (List UInt8)
  failure : Option String
  deriving DecidableEq, Repr

def Response.body (r : Response) : List UInt8 := r.chunks.flatten

/-- `validate_response` of the HTTP driver. -/
def validateResponse (w : Worker) (r : Response) (useRangeRequests : Bool) (expectedStart : Nat) :
    Except Error Unit :=
  if useRangeRequests then
    if w.start < expectedStart ∧ r.status = 200 then
      .error (.resumeInvalidated w.id "remote resource no longer matches stored validator")
    else if r.status ≠ 206 then
      .error (.other s!"Expected 206 Partial Content, got {r.statusText}")
    else
      match r.contentRange with
      | none => .error (.other "Missing Content-Range")
      | some none => .error (.header "failed to convert header to a str")
      | some (some text) =>
        match parseContentRange text with
        | none => .error (.other "Invalid Content-Range")
        | some range =>
          if range.start ≠ expectedStart ∨ range.endByte ≠ w.endByte then
            .error (.other (s!"Unexpected Content-Range {range.start}-{range.endByte}" ++
              s!" for expected {expectedStart}-{w.endByte}"))
          else .ok ()
  else if r.status ≠ 200 then .error (.other s!"Expected 200 OK, got {r.statusText}")
  else .ok ()

def classifyTerminalHttpError (w : Worker) (r : Response) : Option Error :=
  if r.status ∈ [401, 403, 404] then
    some (.httpError w.id r.status s!"non-retryable HTTP status {r.statusText}")
  else none

def shouldRetryHttpStatus (status : Nat) : Bool := status ∈ [408, 429, 500, 502, 503, 504]

def RATE_LIMIT_SLICE_BYTES : Nat := 16 * 1024

/-- `slice::chunks`: consecutive parts of `n` bytes, the last one possibly shorter. -/
def cutLoop (n : Nat) : Nat → List UInt8 → List (List UInt8)
  | 0, _ => []
  | _ + 1, [] => []
  | fuel + 1, data => data.take n :: cutLoop n fuel (data.drop n)

def rateLimitSlices (chunk : List UInt8) : List (List UInt8) :=
  cutLoop RATE_LIMIT_SLICE_BYTES chunk.length chunk

/-- The response being written out: where its next byte goes, the slices left of the chunk in
hand and the chunks still to come. -/
structure BodyStream where
  response : Response
  writeOffset : Nat
  slices : List (List UInt8)
  chunks : List (List UInt8)
  deriving DecidableEq, Repr

/-- Where a run of a worker stands. -/
inductive Phase where
  | starting
  | attempt
  | requesting (useRangeRequests : Bool) (rangeStart : Nat)
  | streaming
  | streamed
  | retrying (err : Error)
  | succeeding
  | finished (result : Except Error Unit)
  deriving DecidableEq

/-- A run of `Worker::start`: the worker, the local variables of `run_download_loop`, the last
response it began to write out, the file system and the size it reported for a stream of unknown
length. -/
structure Transfer where
  worker : Worker
  downloaded : Nat
  retryCount : Nat
  fs : FileSystem
  phase : Phase
  stream : Option BodyStream
  streamTotal : Option Nat

/-- What the run meets: calls on the worker from outside, its own progress, the answers of the
network and of the file system, and the source that `select_retry_source` chose. -/
inductive TransferAct where
  | pause
  | resume
  | cancel
  | delete
  | proceed
  | turn (supportsRangeRequests : Bool)
  | buildFails (err : Error)
  | sendFails (message : String)
  | respond (response : Response)
  | storeFails (response : Response) (err : Error)
  | writeFails (written : Nat) (err : Error)
  | retry (fallback : Option SourceDescriptor)

/-- The payload store of the task and the retry budget. -/
structure TransferEnv where
  store : FileMap
  maxRetries : Nat

def Worker.shouldStopGracefully (w : Worker) : Bool := w.deleted || w.canceled

/-- `Worker::resume` of a worker that is running. -/
def Worker.resume (w : Worker) : Worker :=
  if w.status.isTerminal then w else { w with paused := false, status := .running }

def Worker.cancel (w : Worker) : Worker := { w with canceled := true, status := .canceled }

def Worker.delete (w : Worker) : Worker := { w with deleted := true, status := .deleted }

def Worker.switchSource (w : Worker) (source : SourceDescriptor) : Worker :=
  { w with source, lane := { w.lane with sourceId := source.id } }

/-- The worker with the source chosen for the next attempt, when that is another one. -/
def Worker.fallBack (w : Worker) : Option SourceDescriptor → Worker
  | some source => if source.id ≠ w.source.id then w.switchSource source else w
  | none => w

/-- Sources that `driver_for_source` gives to the HTTP driver; the other driver refuses to build a
request. -/
def SourceKind.usesHttpDriver : SourceKind → Bool
  | .http | .https | .webSeed | .mirror => true
  | _ => false

def Worker.validateDownloadedLength (w : Worker) (actualLength : Nat) : Except Error Unit :=
  if !w.lengthKnown then .ok ()
  else if actualLength ≠ w.expectedLength then
    .error (.other
      s!"Worker {w.id} downloaded length mismatch: expected {w.expectedLength}, got {actualLength}")
  else .ok ()

namespace Transfer

def setWorker (t : Transfer) (w : Worker) : Transfer := { t with worker := w }

def goto (t : Transfer) (phase : Phase) : Transfer := { t with phase }

/-- `mark_failed` at the end of `Worker::start`. -/
def fail (t : Transfer) (err : Error) : Transfer :=
  { t with worker := { t.worker with status := .failed err }, phase := .finished (.error err) }

/-- `prepare_run_state` and the checks before the loop. -/
def begin (t : Transfer) : Transfer :=
  match t.worker.status with
  | .canceled | .deleted =>
    t.fail (.other s!"Task cannot start, status: {t.worker.status.toText}")
  | .completed => t.goto (.finished (.ok ()))
  | status =>
    let worker := { t.worker with
      paused := if status = .paused then false else t.worker.paused, status := .running }
    let t := { t with worker, downloaded := worker.downloadedSize }
    if worker.lengthKnown && decide (worker.expectedLength ≤ worker.downloadedSize) then
      t.goto .succeeding
    else t.goto .attempt

/-- The head of the loop up to the request; a paused worker stays where it is. -/
def turn (t : Transfer) (supportsRangeRequests : Bool) : Transfer :=
  if t.worker.shouldStopGracefully then t.goto (.finished (.ok ()))
  else if t.worker.paused then t
  else if t.worker.source.kind.usesHttpDriver then
    t.goto (.requesting (t.worker.lengthKnown && supportsRangeRequests)
      (satAdd t.worker.start t.downloaded))
  else t.goto (.retrying
    (.unsupportedProtocol s!"{t.worker.source.locator} transfer is not implemented yet"))

/-- Why a response is not written out: a final error, or one that is retried. -/
def refusal (w : Worker) (r : Response) (useRangeRequests : Bool) (rangeStart : Nat) :
    Option (Error × Bool) :=
  match classifyTerminalHttpError w r with
  | some err => some (err, false)
  | none =>
    if shouldRetryHttpStatus r.status then
      some (.httpError w.id r.status s!"retryable HTTP status {r.statusText}", true)
    else
      match validateResponse w r useRangeRequests rangeStart with
      | .error err => some (.httpError w.id r.status err.toText, true)
      | .ok () => none

def respond (t : Transfer) (r : Response) (storeError : Option Error) (useRangeRequests : Bool)
    (rangeStart : Nat) : Transfer :=
  match refusal t.worker r useRangeRequests rangeStart with
  | some (err, false) => t.fail err
  | some (err, true) => t.goto (.retrying err)
  | none =>
    match storeError with
    | some err => t.goto (.retrying err)
    | none =>
      { t with
        stream := some ⟨r, if useRangeRequests then rangeStart else t.worker.start, [], r.chunks⟩
        phase := .streaming }

/-- A slice that `write_at` has written. -/
def countSlice (t : Transfer) (s : BodyStream) (data : List UInt8) (rest : List (List UInt8))
    (fs : FileSystem) : Transfer :=
  let downloaded := t.downloaded + data.length
  { t with
    fs, downloaded
    worker := { t.worker with downloadedSize := downloaded }
    stream := some { s with writeOffset := satAdd s.writeOffset data.length, slices := rest } }

/-- One turn of the loops of `stream_response`. -/
def streamStep (env : TransferEnv) (t : Transfer) (s : BodyStream) : Transfer :=
  match s.slices, s.chunks, s.response.failure with
  | [], [], none => t.goto .streamed
  | slices, chunks, failure =>
    if t.worker.shouldStopGracefully then t.goto .streamed
    else if t.worker.paused then t
    else
      match slices, chunks, failure with
      | data :: rest, _, _ =>
        match env.store.writeAt t.fs s.writeOffset data with
        | .error err => t.goto (.retrying err)
        | .ok fs => t.countSlice s data rest fs
      | [], chunk :: rest, _ =>
        { t with stream := some { s with slices := rateLimitSlices chunk, chunks := rest } }
      | [], [], some message => t.goto (.retrying (.networkError t.worker.id message))
      | [], [], none => t.goto .streamed

/-- The loop after `stream_response` came back without an error. -/
def complete (t : Transfer) : Transfer :=
  if t.worker.shouldStopGracefully then t.goto (.finished (.ok ()))
  else
    match t.worker.validateDownloadedLength t.downloaded with
    | .error err => t.fail err
    | .ok () =>
      { t with
        streamTotal := if t.worker.lengthKnown then t.streamTotal else some t.downloaded
        phase := .succeeding }

def finishSuccess (t : Transfer) : Transfer :=
  { t with worker := { t.worker with status := .completed }, phase := .finished (.ok ()) }

def retryOrFail (env : TransferEnv) (t : Transfer) (err : Error) (fallback : Option SourceDescriptor) :
    Transfer :=
  let t := t.setWorker (t.worker.fallBack fallback)
  match err with
  | .resumeInvalidated _ _ => t.fail err
  | _ =>
    if env.maxRetries ≤ t.retryCount then t.fail err
    else { t with retryCount := t.retryCount + 1, phase := .attempt }

def proceed (env : TransferEnv) (t : Transfer) : Option Transfer :=
  match t.phase, t.stream with
  | .starting, _ => some t.begin
  | .streaming, some s => some (t.streamStep env s)
  | .streamed, _ => some t.complete
  | .succeeding, _ => some t.finishSuccess
  | _, _ => none

/-- The slice is resolved, and then its write fails after the first `written` bytes and says so: a
file that cannot be opened or sought does, while a write that `tokio` has put off may come to light
only with the next operation on the file, which is left out here. -/
def writeFails (env : TransferEnv) (t : Transfer) (written : Nat) (err : Error) : Option Transfer :=
  match t.phase, t.stream with
  | .streaming, some s =>
    match s.slices with
    | data :: _ =>
      if t.worker.shouldStopGracefully || t.worker.paused then none
      else
        match env.store.resolveWrites s.writeOffset data.length,
            env.store.writeAt t.fs s.writeOffset (data.take written) with
        | .ok _, .ok fs => some { t with fs, phase := .retrying err }
        | _, _ => none
    | [] => none
  | _, _ => none

/-- A call on the worker from outside, while the run goes on. -/
def outside (t : Transfer) (f : Worker → Worker) : Option Transfer :=
  match t.phase with
  | .finished _ => none
  | _ => some (t.setWorker (f t.worker))

def step (env : TransferEnv) (t : Transfer) : TransferAct → Option Transfer
  | .pause => t.outside Worker.pause
  | .resume => t.outside Worker.resume
  | .cancel => t.outside Worker.cancel
  | .delete => t.outside Worker.delete
  | .proceed => t.proceed env
  | .turn supportsRangeRequests =>
    match t.phase with
    | .attempt => some (t.turn supportsRangeRequests)
    | _ => none
  | .buildFails err =>
    match t.phase with
    | .requesting _ _ => some (t.goto (.retrying err))
    | _ => none
  | .sendFails message =>
    match t.phase with
    | .requesting _ _ => some (t.goto (.retrying (.networkError t.worker.id message)))
    | _ => none
  | .respond r =>
    match t.phase with
    | .requesting useRangeRequests rangeStart => some (t.respond r none useRangeRequests rangeStart)
    | _ => none
  | .storeFails r err =>
    match t.phase with
    | .requesting useRangeRequests rangeStart =>
      some (t.respond r (some err) useRangeRequests rangeStart)
    | _ => none
  | .writeFails written err => t.writeFails env written err
  | .retry fallback =>
    match t.phase with
    | .retrying err => some (t.retryOrFail env err fallback)
    | _ => none

end Transfer

/-- The loop of `run_download_loop` has been entered and not left. -/
def Phase.isLoop : Phase → Bool
  | .starting | .finished _ => false
  | _ => true

/-- Between two responses, or after the last one. -/
def Phase.isRest : Phase → Bool
  | .attempt | .retrying _ | .finished _ => true
  | _ => false

/-- The places from which the loop can come to its next attempt. -/
def Phase.mayRetry : Phase → Bool
  | .attempt | .requesting _ _ | .streaming | .retrying _ => true
  | _ => false

theorem Phase.isLoop_of_mayRetry {phase : Phase} (h : phase.mayRetry = true) :
    phase.isLoop = true := by
  cases phase <;> first | rfl | cases h

/-- The same lane with the same counter. A stop flag once set stays set, and only the end of a run
makes a worker completed. -/
structure SameRange (w w' : Worker) : Prop where
  start : w'.start = w.start
  endByte : w'.endByte = w.endByte
  lengthKnown : w'.lengthKnown = w.lengthKnown
  downloadedSize : w'.downloadedSize = w.downloadedSize
  stop : w.shouldStopGracefully = true → w'.shouldStopGracefully = true
  completed : w'.status = .completed → w.status = .completed

theorem SameRange.refl (w : Worker) : SameRange w w := ⟨rfl, rfl, rfl, rfl, fun h => h, fun h => h⟩

theorem SameRange.expectedLength (h : SameRange w w') : w'.expectedLength = w.expectedLength := by
  simp only [Worker.expectedLength, h.start, h.endByte, h.lengthKnown]

theorem Worker.pause_sameRange (w : Worker) : SameRange w w.pause := by
  refine ⟨rfl, rfl, rfl, rfl, fun h => h, fun h => ?_⟩
  simp only [Worker.pause] at h
  split at h
  · exact h
  · cases h

theorem Worker.resume_sameRange (w : Worker) : SameRange w w.resume := by
  unfold Worker.resume
  split
  · exact .refl w
  · exact ⟨rfl, rfl, rfl, rfl, fun h => h, nofun⟩

theorem Worker.cancel_sameRange (w : Worker) : SameRange w w.cancel :=
  ⟨rfl, rfl, rfl, rfl, fun _ => by simp [Worker.cancel, Worker.shouldStopGracefully], nofun⟩

theorem Worker.delete_sameRange (w : Worker) : SameRange w w.delete :=
  ⟨rfl, rfl, rfl, rfl, fun _ => by simp [Worker.delete, Worker.shouldStopGracefully], nofun⟩

theorem Worker.fallBack_sameRange (w : Worker) (fallback : Option SourceDescriptor) :
    SameRange w (w.fallBack fallback) := by
  unfold Worker.fallBack
  split
  · split
    · exact ⟨rfl, rfl, rfl, rfl, fun h => h, fun h => h⟩
    · exact .refl w
  · exact .refl w

/-- Everything a step of a run can do. -/
inductive Move (env : TransferEnv) (t : Transfer) : TransferAct → Transfer → Prop where
  /-- No byte, no counter and no response changes. -/
  | idle (hw : SameRange t.worker w)
      (hp : phase = t.phase ∨
        phase.isRest = true ∧ (phase.isLoop = true → t.phase.mayRetry = true)) :
      Move env t a { t with worker := w, retryCount, phase }
  | begin (hp : t.phase = .starting) (hw : SameRange t.worker w)
      (hq : phase = .attempt ∨
        phase = .succeeding ∧ w.lengthKnown = true ∧ w.expectedLength ≤ w.downloadedSize) :
      Move env t .proceed { t with worker := w, downloaded := w.downloadedSize, phase }
  | request (hp : t.phase = .attempt) (supports : Bool) :
      Move env t (.turn supports) (t.goto (.requesting (t.worker.lengthKnown && supports)
        (satAdd t.worker.start t.downloaded)))
  | accept (hp : t.phase = .requesting useRange rangeStart)
      (hv : validateResponse t.worker r useRange rangeStart = .ok ()) :
      Move env t (.respond r) { t with
        stream := some ⟨r, if useRange then rangeStart else t.worker.start, [], r.chunks⟩
        phase := .streaming }
  | chunk (hp : t.phase = .streaming) (hs : t.stream = some s) (hl : s.slices = [])
      (hc : s.chunks = c :: rest) :
      Move env t .proceed
        { t with stream := some { s with slices := rateLimitSlices c, chunks := rest } }
  | slice (hp : t.phase = .streaming) (hs : t.stream = some s) (hl : s.slices = data :: rest)
      (hw : env.store.writeAt t.fs s.writeOffset data = .ok fs) :
      Move env t .proceed (t.countSlice s data rest fs)
  /-- A write that fails half-way leaves its bytes behind, but they are not counted. -/
  | torn (hp : t.phase = .streaming) (hs : t.stream = some s) (hl : s.slices = data :: rest)
      (hr : env.store.resolveWrites s.writeOffset data.length = .ok writes)
      (hw : env.store.writeAt t.fs s.writeOffset (data.take written) = .ok fs) :
      Move env t (.writeFails written err) { t with fs, phase := .retrying err }
  | ended (hp : t.phase = .streaming) (hs : t.stream = some s)
      (he : t.worker.shouldStopGracefully = true ∨
        s.slices = [] ∧ s.chunks = [] ∧ s.response.failure = none) :
      Move env t .proceed (t.goto .streamed)
  | checked (hp : t.phase = .streamed) (hn : t.worker.shouldStopGracefully = false)
      (hv : t.worker.validateDownloadedLength t.downloaded = .ok ()) :
      Move env t .proceed { t with
        streamTotal := if t.worker.lengthKnown then t.streamTotal else some t.downloaded
        phase := .succeeding }
  | finish (hp : t.phase = .succeeding) : Move env t .proceed t.finishSuccess

theorem Worker.length_of_validated {w : Worker} (hk : w.lengthKnown = true)
    (h : w.validateDownloadedLength actual = .ok ()) : actual = w.expectedLength := by
  unfold Worker.validateDownloadedLength at h
  rw [hk] at h
  by_contra hne
  rw [if_neg (by simp), if_pos hne] at h
  cases h

theorem Move.settle (t : Transfer) (h : Phase.isRest next = true)
    (hl : next.isLoop = true → t.phase.mayRetry = true) : Move env t a (t.goto next) :=
  .idle (.refl t.worker) (.inr ⟨h, hl⟩)

theorem Move.stay (env : TransferEnv) (t : Transfer) (a : TransferAct) : Move env t a t :=
  .idle (.refl t.worker) (.inl rfl)

theorem Move.fail (t : Transfer) (hw : SameRange t.worker w) (err : Error) :
    Move env t a ((t.setWorker w).fail err) :=
  .idle ⟨hw.start, hw.endByte, hw.lengthKnown, hw.downloadedSize, hw.stop, nofun⟩
    (.inr ⟨rfl, nofun⟩)

namespace Transfer

/-- A step with the place it is taken from. -/
inductive Performs (env : TransferEnv) (t : Transfer) : TransferAct → Transfer → Prop where
  | pause (hp : ∀ result, t.phase ≠ .finished result) :
      Performs env t .pause (t.setWorker t.worker.pause)
  | resume (hp : ∀ result, t.phase ≠ .finished result) :
      Performs env t .resume (t.setWorker t.worker.resume)
  | cancel (hp : ∀ result, t.phase ≠ .finished result) :
      Performs env t .cancel (t.setWorker t.worker.cancel)
  | delete (hp : ∀ result, t.phase ≠ .finished result) :
      Performs env t .delete (t.setWorker t.worker.delete)
  | begin (hp : t.phase = .starting) : Performs env t .proceed t.begin
  | stream (hp : t.phase = .streaming) (hs : t.stream = some s) :
      Performs env t .proceed (t.streamStep env s)
  | complete (hp : t.phase = .streamed) : Performs env t .proceed t.complete
  | finishSuccess (hp : t.phase = .succeeding) : Performs env t .proceed t.finishSuccess
  | turn (hp : t.phase = .attempt) (supports : Bool) :
      Performs env t (.turn supports) (t.turn supports)
  | buildFails (hp : t.phase = .requesting useRange rangeStart) (err : Error) :
      Performs env t (.buildFails err) (t.goto (.retrying err))
  | sendFails (hp : t.phase = .requesting useRange rangeStart) (message : String) :
      Performs env t (.sendFails message) (t.goto (.retrying (.networkError t.worker.id message)))
  | respond (hp : t.phase = .requesting useRange rangeStart) (r : Response) :
      Performs env t (.respond r) (t.respond r none useRange rangeStart)
  | storeFails (hp : t.phase = .requesting useRange rangeStart) (r : Response) (err : Error) :
      Performs env t (.storeFails r err) (t.respond r (some err) useRange rangeStart)
  | writeFails {count : Nat} {fs : FileSystem} (hp : t.phase = .streaming)
      (hs : t.stream = some s) (hl : s.slices = data :: rest)
      (hn : ¬ (t.worker.shouldStopGracefully || t.worker.paused) = true)
      (hr : env.store.resolveWrites s.writeOffset data.length = .ok writes)
      (hw : env.store.writeAt t.fs s.writeOffset (data.take count) = .ok fs) (err : Error) :
      Performs env t (.writeFails count err) { t with fs, phase := .retrying err }
  | retry (hp : t.phase = .retrying err) (fallback : Option SourceDescriptor) :
      Performs env t (.retry fallback) (t.retryOrFail env err fallback)

theorem outside_some {t : Transfer} (h : t.outside f = some t') :
    (∀ result, t.phase ≠ .finished result) ∧ t' = t.setWorker (f t.worker) := by
  unfold outside at h
  split at h
  · cases h
  · rename_i hp
    cases h
    exact ⟨hp, rfl⟩

theorem writeFails_performs {t : Transfer} (h : t.writeFails env count err = some t') :
    Performs env t (.writeFails count err) t' := by
  unfold writeFails at h
  split at h
  · split at h
    · split at h
      · cases h
      · split at h
        · cases h
          exact .writeFails ‹_› ‹_› ‹_› ‹_› ‹_› ‹_› err
        · cases h
    · cases h
  · cases h

theorem step_performs {t : Transfer} (h : step env t a = some t') : Performs env t a t' := by
  cases a with
  | pause =>
    obtain ⟨hp, rfl⟩ := outside_some h
    exact .pause hp
  | resume =>
    obtain ⟨hp, rfl⟩ := outside_some h
    exact .resume hp
  | cancel =>
    obtain ⟨hp, rfl⟩ := outside_some h
    exact .cancel hp
  | delete =>
    obtain ⟨hp, rfl⟩ := outside_some h
    exact .delete hp
  | proceed =>
    simp only [step, proceed] at h
    split at h
    · cases h
      exact .begin ‹_›
    · cases h
      exact .stream ‹_› ‹_›
    · cases h
      exact .complete ‹_›
    · cases h
      exact .finishSuccess ‹_›
    · cases h
  | turn supports =>
    simp only [step] at h
    split at h
    · cases h
      exact .turn ‹_› supports
    · cases h
  | buildFails err =>
    simp only [step] at h
    split at h
    · cases h
      exact .buildFails ‹_› err
    · cases h
  | sendFails message =>
    simp only [step] at h
    split at h
    · cases h
      exact .sendFails ‹_› message
    · cases h
  | respond r =>
    simp only [step] at h
    split at h
    · cases h
      exact .respond ‹_› r
    · cases h
  | storeFails r err =>
    simp only [step] at h
    split at h
    · cases h
      exact .storeFails ‹_› r err
    · cases h
  | writeFails count err => exact writeFails_performs h
  | retry fallback =>
    simp only [step] at h
    split at h
    · cases h
      exact .retry ‹_› fallback
    · cases h

theorem begin_move (t : Transfer) (hp : t.phase = .starting) : Move env t .proceed t.begin := by
  have hrun (paused : Bool) : Move env t .proceed
      (if t.worker.lengthKnown && decide (t.worker.expectedLength ≤ t.worker.downloadedSize) then
        { t with worker := { t.worker with paused, status := .running }
                 downloaded := t.worker.downloadedSize, phase := .succeeding }
      else { t with worker := { t.worker with paused, status := .running }
                    downloaded := t.worker.downloadedSize, phase := .attempt }) := by
    have hw : SameRange t.worker { t.worker with paused, status := .running } :=
      ⟨rfl, rfl, rfl, rfl, fun h => h, nofun⟩
    split
    · rename_i hc
      simp only [Bool.and_eq_true, decide_eq_true_eq] at hc
      exact .begin hp hw (.inr ⟨rfl, hc.1, hc.2⟩)
    · exact .begin hp hw (.inl rfl)
  unfold begin
  split
  · exact .fail t (.refl t.worker) _
  · exact .fail t (.refl t.worker) _
  · exact .settle t rfl nofun
  · exact hrun _

theorem turn_move (t : Transfer) (hp : t.phase = .attempt) (supports : Bool) :
    Move env t (.turn supports) (t.turn supports) := by
  unfold turn
  split
  · exact .settle t rfl nofun
  · split
    · exact .stay env t _
    · split
      · exact .request hp supports
      · exact .settle t rfl fun _ => hp ▸ rfl

theorem refusal_none (h : refusal w r useRange rangeStart = none) :
    validateResponse w r useRange rangeStart = .ok () := by
  unfold refusal at h
  split at h
  · cases h
  · split at h
    · cases h
    · split at h
      · cases h
      · assumption

theorem respond_move (t : Transfer) (hp : t.phase = .requesting useRange rangeStart) (r : Response) :
    Move env t (.respond r) (t.respond r none useRange rangeStart) := by
  unfold respond
  split
  · exact .fail t (.refl t.worker) _
  · exact .settle t rfl fun _ => hp ▸ rfl
  · exact .accept hp (refusal_none ‹_›)

theorem storeFails_move (t : Transfer) (hp : t.phase = .requesting useRange rangeStart)
    (r : Response) (err : Error) :
    Move env t (.storeFails r err) (t.respond r (some err) useRange rangeStart) := by
  unfold respond
  split
  · exact .fail t (.refl t.worker) _
  · exact .settle t rfl fun _ => hp ▸ rfl
  · exact .settle t rfl fun _ => hp ▸ rfl

theorem streamStep_move (t : Transfer) (hp : t.phase = .streaming) (hs : t.stream = some s) :
    Move env t .proceed (t.streamStep env s) := by
  have hloop (err : Error) : Move env t .proceed (t.goto (.retrying err)) :=
    .settle t rfl fun _ => hp ▸ rfl
  unfold streamStep
  split
  · exact .ended hp hs (.inr ⟨‹_›, ‹_›, ‹_›⟩)
  · split
    · exact .ended hp hs (.inl ‹_›)
    · split
      · exact .stay env t _
      · split
        · split
          · exact hloop _
          · exact .slice hp hs ‹_› ‹_›
        · exact .chunk hp hs ‹_› ‹_›
        · exact hloop _
        · exact .ended hp hs (.inr ⟨‹_›, ‹_›, ‹_›⟩)

theorem complete_move (t : Transfer) (hp : t.phase = .streamed) : Move env t .proceed t.complete := by
  unfold complete
  split
  · exact .settle t rfl nofun
  · split
    · exact .fail t (.refl t.worker) _
    · exact .checked hp (Bool.eq_false_iff.2 ‹_›) ‹_›

theorem retryOrFail_move (t : Transfer) (hp : t.phase = .retrying err)
    (fallback : Option SourceDescriptor) :
    Move env t (.retry fallback) (t.retryOrFail env err fallback) := by
  have hw := t.worker.fallBack_sameRange fallback
  unfold retryOrFail
  dsimp only
  split
  · exact .fail t hw _
  · split
    · exact .fail t hw _
    · exact .idle hw (.inr ⟨rfl, fun _ => hp ▸ rfl⟩)

theorem step_move {t : Transfer} (h : step env t a = some t') : Move env t a t' := by
  cases step_performs h with
  | pause => exact .idle t.worker.pause_sameRange (.inl rfl)
  | resume => exact .idle t.worker.resume_sameRange (.inl rfl)
  | cancel => exact .idle t.worker.cancel_sameRange (.inl rfl)
  | delete => exact .idle t.worker.delete_sameRange (.inl rfl)
  | begin hp => exact begin_move t hp
  | stream hp hs => exact streamStep_move t hp hs
  | complete hp => exact complete_move t hp
  | finishSuccess hp => exact .finish hp
  | turn hp supports => exact turn_move t hp supports
  | buildFails hp err => exact .settle t rfl fun _ => hp ▸ rfl
  | sendFails hp message => exact .settle t rfl fun _ => hp ▸ rfl
  | respond hp r => exact respond_move t hp r
  | storeFails hp r err => exact storeFails_move t hp r err
  | writeFails hp hs hl hn hr hw err => exact .torn hp hs hl hr hw
  | retry hp fallback => exact retryOrFail_move t hp fallback

/-- A run never changes the lane of its worker. -/
theorem step_lane {t t' : Transfer} (h : step env t a = some t') :
    t'.worker.start = t.worker.start ∧ t'.worker.endByte = t.worker.endByte ∧
      t'.worker.lengthKnown = t.worker.lengthKnown := by
  cases step_move h with
  | idle hw hp => exact ⟨hw.start, hw.endByte, hw.lengthKnown⟩
  | begin hp hw hq => exact ⟨hw.start, hw.endByte, hw.lengthKnown⟩
  | _ => exact ⟨rfl, rfl, rfl⟩

theorem run_lane {t t' : Transfer} (h : Transition.run (step env) t acts = some t') :
    t'.worker.start = t.worker.start ∧ t'.worker.endByte = t.worker.endByte ∧
      t'.worker.lengthKnown = t.worker.lengthKnown := by
  apply Transition.run_invariant (I := fun s => s.worker.start = t.worker.start ∧
    s.worker.endByte = t.worker.endByte ∧ s.worker.lengthKnown = t.worker.lengthKnown) ?_ ?_ h
  · intro s a s' hs hstep
    obtain ⟨h1, h2, h3⟩ := step_lane hstep
    exact ⟨h1.trans hs.1, h2.trans hs.2.1, h3.trans hs.2.2⟩
  · exact ⟨rfl, rfl, rfl⟩

end Transfer
end Paradown
