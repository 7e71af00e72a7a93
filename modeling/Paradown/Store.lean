import Paradown.Manifest

namespace Paradown
set_option autoImplicit true

/-- One byte of a local file, with the record of whether a worker put it there from a response. -/
structure Cell where
  value : UInt8
  written : Bool
  deriving DecidableEq, Repr

/-- The byte a file is extended with. -/
def Cell.hole : Cell := ⟨0, false⟩

/-- A local file; the inode number tells a file from a later one under the same path. -/
structure File where
  ino : Nat
  cells : List Cell
  deriving DecidableEq, Repr

def File.len (f : File) : Nat := f.cells.length

def File.content (f : File) : List UInt8 := f.cells.map (·.value)

/-- Every byte in `[0, n)` of the file was written by a worker since the file was created. -/
def File.WrittenUpTo (f : File) (n : Nat) : Prop :=
  n ≤ f.len ∧ ∀ c ∈ f.cells.take n, c.written = true

instance (f : File) (n : Nat) : Decidable (f.WrittenUpTo n) :=
  inferInstanceAs (Decidable (_ ∧ _))

/-- `set_len`: truncate, or extend with zero bytes nobody downloaded. -/
def setLen (cells : List Cell) (n : Nat) : List Cell :=
  cells.take n ++ List.replicate (n - cells.length) .hole

/-- `seek` and `write_all`; a gap before the offset is filled with zero bytes. -/
def writeCells (cells : List Cell) (offset : Nat) (data : List UInt8) : List Cell :=
  setLen cells offset ++ data.map (⟨·, true⟩) ++ cells.drop (offset + data.length)

/-- The files under their paths. Inode numbers are handed out in order, so a file that is created
later never has the number of an earlier one. -/
structure FileSystem where
  file : String → Option File
  nextIno : Nat
  fresh : ∀ path f, file path = some f → f.ino < nextIno

def FileSystem.empty : FileSystem := ⟨fun _ => none, 0, fun _ _ h => nomatch h⟩

def FileSystem.removeFile (fs : FileSystem) (path : String) : FileSystem where
  file p := if p = path then none else fs.file p
  nextIno := fs.nextIno
  fresh := by
    intro p f h
    split at h
    · cases h
    · exact fs.fresh p f h

/-- `OpenOptions::new().create(true).truncate(false)`. -/
def FileSystem.openOrCreate (fs : FileSystem) (path : String) : FileSystem :=
  match fs.file path with
  | some _ => fs
  | none =>
    { file := fun p => if p = path then some ⟨fs.nextIno, []⟩ else fs.file p
      nextIno := fs.nextIno + 1
      fresh := by
        intro p f h
        split at h
        · cases h
          exact Nat.lt_succ_self _
        · exact Nat.lt_succ_of_lt (fs.fresh p f h) }

/-- Change the bytes of an existing file. -/
def FileSystem.modify (fs : FileSystem) (path : String) (g : List Cell → List Cell) : FileSystem where
  file p := if p = path then (fs.file p).map fun f => { f with cells := g f.cells } else fs.file p
  nextIno := fs.nextIno
  fresh := by
    intro p f h
    split at h
    · obtain ⟨f', hf, rfl⟩ := Option.map_eq_some_iff.1 h
      exact fs.fresh p f' hf
    · exact fs.fresh p f h

structure FileSegment where
  path : String
  offset : Nat
  length : Nat
  deriving DecidableEq, Repr

structure WriteSlice where
  path : String
  fileOffset : Nat
  bufferStart : Nat
  bufferEnd : Nat
  deriving DecidableEq, Repr

structure FileMap where
  segments : List FileSegment
  totalSize : Nat
  bounded : Bool
  deriving DecidableEq, Repr

def FileMap.fromManifest (manifest : SessionManifest) : FileMap where
  segments := manifest.files.map fun file => ⟨file.path, file.offset, file.length⟩
  totalSize := manifest.totalSize
  bounded := decide (0 < manifest.pieceCount) || decide (0 < manifest.totalSize)

/-- The segment loop of `resolve_writes`, with its three cursors; the second component is what
could not be placed. -/
def resolveLoop (offset : Nat) : List FileSegment → Nat → Nat → Nat → List WriteSlice × Nat
  | [], _, _, remainingLen => ([], remainingLen)
  | segment :: rest, remainingStart, bufferOffset, remainingLen =>
    if remainingLen = 0 then ([], 0)
    else
      let segmentEnd := satAdd segment.offset segment.length
      let writeStart := max remainingStart segment.offset
      if segmentEnd ≤ remainingStart ∨ remainingStart < segment.offset ∧ segmentEnd ≤ offset ∨
          segmentEnd ≤ writeStart then
        resolveLoop offset rest remainingStart bufferOffset remainingLen
      else
        let writable := min (segmentEnd - writeStart) remainingLen
        let (slices, left) := resolveLoop offset rest (writeStart + writable)
          (bufferOffset + writable) (remainingLen - writable)
        (⟨segment.path, writeStart - segment.offset, bufferOffset, bufferOffset + writable⟩ ::
          slices, left)

def FileMap.resolveWrites (m : FileMap) (offset len : Nat) : Except Error (List WriteSlice) :=
  if !m.bounded then
    match m.segments with
    | [] => .error (.other "payload store has no file segments")
    | segment :: _ => .ok [⟨segment.path, offset, 0, len⟩]
  else
    let last := satAdd offset len
    if m.totalSize < last then
      .error (.other s!"payload write out of bounds: {offset}..{last} exceeds {m.totalSize}")
    else
      let (slices, left) := resolveLoop offset m.segments offset 0 len
      if left ≠ 0 then .error (.other "payload write could not be resolved") else .ok slices

def prepareSegment (m : FileMap) (fs : FileSystem) (segment : FileSegment) : FileSystem :=
  let fs := fs.openOrCreate segment.path
  if m.bounded then fs.modify segment.path (setLen · segment.length) else fs

/-- `PayloadStore::prepare`: every file of the manifest exists afterwards and, when the size is
known, has its final length. -/
def FileMap.prepare (m : FileMap) (fs : FileSystem) : FileSystem :=
  m.segments.foldl (prepareSegment m) fs

def writeSlice (data : List UInt8) (fs : FileSystem) (w : WriteSlice) : FileSystem :=
  let part := (data.drop w.bufferStart).take (w.bufferEnd - w.bufferStart)
  (fs.openOrCreate w.path).modify w.path (writeCells · w.fileOffset part)

/-- `PayloadStore::write_at`. -/
def FileMap.writeAt (m : FileMap) (fs : FileSystem) (offset : Nat) (data : List UInt8) :
    Except Error FileSystem := do
  let writes ← m.resolveWrites offset data.length
  return writes.foldl (writeSlice data) fs

@[simp] theorem FileSystem.removeFile_self (fs : FileSystem) (path : String) :
    (fs.removeFile path).file path = none := by
  simp [FileSystem.removeFile]

theorem FileSystem.openOrCreate_some {fs : FileSystem} (h : fs.file path = some f) :
    fs.openOrCreate path = fs := by
  simp only [FileSystem.openOrCreate]
  split
  · rfl
  · rename_i hn
    rw [h] at hn
    cases hn

theorem FileSystem.openOrCreate_none {fs : FileSystem} (h : fs.file path = none) :
    (fs.openOrCreate path).file path = some ⟨fs.nextIno, []⟩ := by
  simp only [FileSystem.openOrCreate]
  split
  · rename_i hs
    rw [h] at hs
    cases hs
  · simp

@[simp] theorem FileSystem.modify_self (fs : FileSystem) (path : String)
    (g : List Cell → List Cell) :
    (fs.modify path g).file path = (fs.file path).map fun f => { f with cells := g f.cells } := by
  simp [FileSystem.modify]

@[simp] theorem setLen_length (cells : List Cell) (n : Nat) : (setLen cells n).length = n := by
  simp only [setLen, List.length_append, List.length_take, List.length_replicate]
  omega

@[simp] theorem writeCells_length (cells : List Cell) (offset : Nat) (data : List UInt8) :
    (writeCells cells offset data).length = max cells.length (offset + data.length) := by
  simp only [writeCells, List.length_append, setLen_length, List.length_map, List.length_drop]
  omega

end Paradown
