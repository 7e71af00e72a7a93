import Paradown.Store
import Paradown.Splice

namespace Paradown
set_option autoImplicit true

/-- The segments stand in offset order, without gap or overlap, from `base` to `total`. -/
def Contiguous : Nat → List FileSegment → Nat → Prop
  | base, [], total => base = total
  | base, segment :: rest, total =>
    segment.offset = base ∧ Contiguous (base + segment.length) rest total

/-- A map whose files make up one payload of `totalSize` bytes. -/
structure FileMap.Flat (m : FileMap) : Prop where
  contiguous : Contiguous 0 m.segments m.totalSize
  paths : (m.segments.map (·.path)).Nodup
  bounded : m.bounded = true
  size : m.totalSize < 2 ^ 64

def FileSystem.contentOf (fs : FileSystem) (path : String) : List UInt8 :=
  ((fs.file path).map File.content).getD []

/-- The bytes of the files, one after the other. -/
def payloadOf (fs : FileSystem) (segments : List FileSegment) : List UInt8 :=
  (segments.map fun segment => fs.contentOf segment.path).flatten

def FileMap.payload (m : FileMap) (fs : FileSystem) : List UInt8 := payloadOf fs m.segments

/-- Every file of the list exists and has its final length. -/
def Allocated (fs : FileSystem) (segments : List FileSegment) : Prop :=
  ∀ segment ∈ segments, ∃ f, fs.file segment.path = some f ∧ f.len = segment.length

theorem File.content_length (f : File) : f.content.length = f.len := by
  simp [File.content, File.len]

theorem Allocated.content_length {segment : FileSegment} (h : Allocated fs segments)
    (hs : segment ∈ segments) :
    (fs.contentOf segment.path).length = segment.length := by
  obtain ⟨f, hf, hl⟩ := h segment hs
  simp [FileSystem.contentOf, hf, File.content_length, hl]

theorem Contiguous.le (h : Contiguous base segments total) : base ≤ total := by
  induction segments generalizing base with
  | nil => exact le_of_eq h
  | cons s ss ih =>
    have := ih h.2
    omega

theorem payloadOf_length (h : Allocated fs segments) (hc : Contiguous base segments total) :
    (payloadOf fs segments).length = total - base := by
  induction segments generalizing base with
  | nil =>
    have hb : base = total := hc
    simp [payloadOf, hb]
  | cons s ss ih =>
    have hs := h.content_length List.mem_cons_self
    have hr := ih (fun t ht => h t (List.mem_cons_of_mem _ ht)) hc.2
    have hle := Contiguous.le hc.2
    simp only [payloadOf, List.map_cons, List.flatten_cons, List.length_append] at hr ⊢
    omega

theorem setLen_of_le {cells : List Cell} (h : n ≤ cells.length) : setLen cells n = cells.take n := by
  simp [setLen, Nat.sub_eq_zero_of_le h]

theorem writeCells_content {cells : List Cell} (h : offset ≤ cells.length) :
    (writeCells cells offset data).map (·.value) = splice (cells.map (·.value)) offset data := by
  simp only [writeCells, setLen_of_le h, splice, List.map_append, List.map_take, List.map_drop,
    List.map_map]
  congr 2
  exact List.map_id data

/-- The bytes that one slice takes from the buffer. -/
def WriteSlice.part (w : WriteSlice) (data : List UInt8) : List UInt8 :=
  (data.drop w.bufferStart).take (w.bufferEnd - w.bufferStart)

theorem writeSlice_ne (data : List UInt8) {fs : FileSystem} {w : WriteSlice} (h : path ≠ w.path) :
    (writeSlice data fs w).file path = fs.file path := by
  unfold writeSlice FileSystem.modify FileSystem.openOrCreate
  split <;> simp [h]

theorem writeSlice_self (data : List UInt8) {fs : FileSystem} {w : WriteSlice} (hf : fs.file w.path = some f)
    (hl : w.fileOffset + (w.part data).length ≤ f.len) :
    ∃ f', (writeSlice data fs w).file w.path = some f' ∧ f'.len = f.len ∧
      f'.content = splice f.content w.fileOffset (w.part data) := by
  refine ⟨{ f with cells := writeCells f.cells w.fileOffset (w.part data) }, ?_, ?_, ?_⟩
  · simp only [writeSlice, FileSystem.openOrCreate_some hf, FileSystem.modify_self, hf,
      Option.map_some, WriteSlice.part]
  · simp only [File.len, writeCells_length] at hl ⊢
    omega
  · exact writeCells_content (Nat.le_of_add_right_le hl)

theorem foldl_writeSlice_ne (data : List UInt8) (fs : FileSystem) {writes : List WriteSlice}
    (h : ∀ w ∈ writes, path ≠ w.path) :
    (writes.foldl (writeSlice data) fs).file path = fs.file path := by
  induction writes generalizing fs with
  | nil => rfl
  | cons w ws ih =>
    rw [List.foldl_cons, ih _ fun v hv => h v (List.mem_cons_of_mem _ hv)]
    exact writeSlice_ne data (h w List.mem_cons_self)

theorem resolveLoop_zero (offset : Nat) (segments : List FileSegment) (start buffer : Nat) :
    resolveLoop offset segments start buffer 0 = ([], 0) := by
  cases segments with
  | nil => rfl
  | cons s ss => simp [resolveLoop]

theorem resolveLoop_path : ∀ w ∈ (resolveLoop offset segments start buffer len).1,
    ∃ segment ∈ segments, w.path = segment.path := by
  induction segments generalizing start buffer len with
  | nil => simp [resolveLoop]
  | cons s ss ih =>
    intro w hw
    simp only [resolveLoop] at hw
    split at hw
    · cases hw
    · split at hw
      · obtain ⟨t, ht, hp⟩ := ih w hw
        exact ⟨t, List.mem_cons_of_mem _ ht, hp⟩
      · rcases List.mem_cons.1 hw with rfl | hw
        · exact ⟨s, List.mem_cons_self, rfl⟩
        · obtain ⟨t, ht, hp⟩ := ih w hw
          exact ⟨t, List.mem_cons_of_mem _ ht, hp⟩

/-- One turn of the loop over contiguous segments: the segment lies before the cursor, or it takes
as much of the buffer as fits behind the cursor. -/
theorem resolveLoop_cons {s : FileSegment} (hs : s.offset = base) (hb : base ≤ start)
    (hl : 0 < len) (ht : base + s.length < 2 ^ 64) :
    resolveLoop offset (s :: rest) start buffer len =
      if base + s.length ≤ start then resolveLoop offset rest start buffer len
      else
        let writable := min (base + s.length - start) len
        (⟨s.path, start - base, buffer, buffer + writable⟩ ::
          (resolveLoop offset rest (start + writable) (buffer + writable) (len - writable)).1,
        (resolveLoop offset rest (start + writable) (buffer + writable) (len - writable)).2) := by
  have he : satAdd s.offset s.length = base + s.length := by
    unfold satAdd
    omega
  have hm : max start s.offset = start := by omega
  simp only [resolveLoop, he, hm, Nat.ne_of_gt hl, if_false]
  by_cases h : base + s.length ≤ start
  · simp only [h, true_or, if_true]
  · have hn : ¬ start < base := by omega
    simp only [h, hn, hs, false_and, or_false, if_false]

theorem payloadOf_cons (fs : FileSystem) (s : FileSegment) (ss : List FileSegment) :
    payloadOf fs (s :: ss) = fs.contentOf s.path ++ payloadOf fs ss := rfl

theorem payloadOf_congr {fs fs' : FileSystem}
    (h : ∀ s ∈ segments, fs'.file s.path = fs.file s.path) :
    payloadOf fs' segments = payloadOf fs segments := by
  unfold payloadOf
  congr 1
  apply List.map_congr_left
  intro s hs
  simp only [FileSystem.contentOf, h s hs]

theorem Allocated.tail (h : Allocated fs (s :: ss)) : Allocated fs ss :=
  fun t ht => h t (List.mem_cons_of_mem _ ht)

theorem Allocated.cons_congr {fs fs' : FileSystem} (h : Allocated fs (s :: ss))
    (hs : fs'.file s.path = fs.file s.path) (hss : Allocated fs' ss) : Allocated fs' (s :: ss) := by
  intro t ht
  rcases List.mem_cons.1 ht with rfl | ht
  · obtain ⟨f, hf, hl⟩ := h t List.mem_cons_self
    exact ⟨f, hs.trans hf, hl⟩
  · exact hss t ht

theorem Allocated.writeSlice_head (data : List UInt8) (h : Allocated fs (s :: ss))
    (hn : s.path ∉ ss.map (·.path)) (hp : w.path = s.path)
    (hl : w.fileOffset + (w.part data).length ≤ s.length) :
    Allocated (writeSlice data fs w) (s :: ss) ∧
      (writeSlice data fs w).contentOf s.path =
        splice (fs.contentOf s.path) w.fileOffset (w.part data) ∧
      payloadOf (writeSlice data fs w) ss = payloadOf fs ss := by
  obtain ⟨f, hf, hfl⟩ := h s List.mem_cons_self
  obtain ⟨f', hf', hfl', hfc⟩ := writeSlice_self data (hp ▸ hf) (hfl ▸ hl)
  rw [hp] at hf'
  have hother : ∀ t ∈ ss, (writeSlice data fs w).file t.path = fs.file t.path := by
    intro t ht
    apply writeSlice_ne
    rw [hp]
    exact fun he => hn (List.mem_map.2 ⟨t, ht, he⟩)
  refine ⟨?_, ?_, payloadOf_congr hother⟩
  · intro t ht
    rcases List.mem_cons.1 ht with rfl | ht
    · exact ⟨f', hf', hfl'.trans hfl⟩
    · obtain ⟨g, hg, hgl⟩ := h.tail t ht
      exact ⟨g, (hother t ht).trans hg, hgl⟩
  · simp only [FileSystem.contentOf, hf', hf, Option.map_some, Option.getD_some, hfc]

/-- The slices that `resolve_writes` finds for contiguous segments overwrite one window of the
concatenated files. -/
theorem resolveLoop_writes (offset : Nat) (hc : Contiguous base segments total)
    (ht : total < 2 ^ 64) (hn : (segments.map (·.path)).Nodup) (ha : Allocated fs segments)
    (hb : base ≤ start ∨ len = 0) (hl : start + len ≤ total) (hd : buffer + len = data.length) :
    let fs' := (resolveLoop offset segments start buffer len).1.foldl (writeSlice data) fs
    Allocated fs' segments ∧
      payloadOf fs' segments = splice (payloadOf fs segments) (start - base) (data.drop buffer) := by
  rcases Nat.eq_zero_or_pos len with hz | hp
  · subst hz
    have he : data.drop buffer = [] := List.drop_eq_nil_of_le (by omega)
    rw [resolveLoop_zero, he, splice_nil]
    exact ⟨ha, rfl⟩
  induction segments generalizing base start buffer len fs with
  | nil =>
    have hbt : base = total := hc
    omega
  | cons s ss ih =>
    obtain ⟨hs, hc⟩ := hc
    have hle := hc.le
    have hlen := ha.content_length List.mem_cons_self
    rw [List.map_cons, List.nodup_cons] at hn
    obtain ⟨hnot, hn⟩ := hn
    -- the slices of the other segments stay away from the file of this one
    have hself (fs : FileSystem) (start' buffer' len' : Nat) :
        ((resolveLoop offset ss start' buffer' len').1.foldl (writeSlice data) fs).file s.path =
          fs.file s.path := by
      apply foldl_writeSlice_ne
      intro w hw he
      obtain ⟨t, ht, hp⟩ := resolveLoop_path w hw
      exact hnot (List.mem_map.2 ⟨t, ht, hp.symm.trans he.symm⟩)
    rw [resolveLoop_cons hs (by omega) hp (by omega)]
    split
    · rename_i hskip
      obtain ⟨hal, hpay⟩ := ih hc hn ha.tail (.inl hskip) hl hd hp
      refine ⟨ha.cons_congr (hself _ _ _ _) hal, ?_⟩
      rw [payloadOf_cons, payloadOf_cons, hpay, splice_append_right (by omega)]
      simp only [FileSystem.contentOf, hself] at hlen ⊢
      congr 2
      omega
    · rename_i hin
      simp only [List.foldl_cons]
      generalize hw : min (base + s.length - start) len = writable
      generalize hws : (⟨s.path, start - base, buffer, buffer + writable⟩ : WriteSlice) = w
      have hpart : w.part data = (data.drop buffer).take writable := by
        rw [← hws]
        simp [WriteSlice.part]
      have hoff : w.fileOffset = start - base := by rw [← hws]
      obtain ⟨ha', hcont, hrest⟩ := ha.writeSlice_head data hnot (w := w) (by rw [← hws]) (by
        rw [hpart, hoff, List.length_take, List.length_drop]
        omega)
      have hfits : splice (fs.contentOf s.path ++ payloadOf fs ss) (start - base)
          (data.drop buffer) = (writeSlice data fs w).contentOf s.path ++
            splice (payloadOf (writeSlice data fs w) ss) 0 (data.drop (buffer + writable)) := by
        rw [hcont, hrest, hpart, hoff, ← List.drop_drop]
        apply splice_append_min
        · omega
        · rw [hlen, List.length_drop]
          omega
      rw [payloadOf_cons fs, hfits]
      rcases Nat.eq_zero_or_pos (len - writable) with hz | hpos
      · have he : data.drop (buffer + writable) = [] := List.drop_eq_nil_of_le (by omega)
        rw [hz, resolveLoop_zero, he, splice_nil]
        exact ⟨ha', rfl⟩
      · obtain ⟨hal, hpay⟩ := @ih (base + s.length) (writeSlice data fs w) (start + writable)
          (len - writable) (buffer + writable) hc hn ha'.tail (by omega) (by omega) (by omega) hpos
        have hz : start + writable - (base + s.length) = 0 := by omega
        rw [hz] at hpay
        refine ⟨ha'.cons_congr (hself _ _ _ _) hal, ?_⟩
        rw [payloadOf_cons, hpay]
        simp only [FileSystem.contentOf, hself]

theorem resolveLoop_overrun (hc : Contiguous base segments total) (ht : total < 2 ^ 64)
    (hb : base ≤ start) (hp : 0 < len) (hl : total < start + len) :
    (resolveLoop offset segments start buffer len).2 ≠ 0 := by
  induction segments generalizing base start buffer len with
  | nil =>
    simp only [resolveLoop]
    omega
  | cons s ss ih =>
    obtain ⟨hs, hc⟩ := hc
    have hle := hc.le
    rw [resolveLoop_cons hs hb hp (by omega)]
    split
    · rename_i hskip
      exact ih hc hskip hp hl
    · have hm : min (base + s.length - start) len = base + s.length - start := by omega
      simp only [hm]
      exact ih hc (by omega) (by omega) (by omega)

/-- The buffer ranges of the slices cut `first`..`last` into consecutive parts. -/
def Tiles : Nat → List WriteSlice → Nat → Prop
  | first, [], last => first = last
  | first, w :: ws, last => w.bufferStart = first ∧ w.bufferStart < w.bufferEnd ∧
    Tiles w.bufferEnd ws last

/-- The slice puts byte `k` of the buffer where the payload offset `offset + k` lies: in the file
that contains it, at the distance from the start of that file. -/
def WriteSlice.Denotes (w : WriteSlice) (segments : List FileSegment) (offset : Nat) : Prop :=
  ∃ segment ∈ segments, w.path = segment.path ∧
    segment.offset + w.fileOffset = offset + w.bufferStart ∧
    w.fileOffset + (w.bufferEnd - w.bufferStart) ≤ segment.length

theorem WriteSlice.Denotes.mono (h : WriteSlice.Denotes w ss offset) :
    WriteSlice.Denotes w (s :: ss) offset := by
  obtain ⟨t, ht, hw⟩ := h
  exact ⟨t, List.mem_cons_of_mem _ ht, hw⟩

/-- Inside the payload nothing is left over, and the slices cut the buffer in order. -/
theorem resolveLoop_tiles (hc : Contiguous base segments total) (ht : total < 2 ^ 64)
    (hb : base ≤ start ∨ len = 0) (hl : start + len ≤ total) (hs : start = offset + buffer) :
    (resolveLoop offset segments start buffer len).2 = 0 ∧
      Tiles buffer (resolveLoop offset segments start buffer len).1 (buffer + len) ∧
      ∀ w ∈ (resolveLoop offset segments start buffer len).1, w.Denotes segments offset := by
  induction segments generalizing base start buffer len with
  | nil =>
    have hbt : base = total := hc
    have hz : len = 0 := by omega
    subst hz
    rw [resolveLoop_zero]
    exact ⟨rfl, rfl, fun w hw => absurd hw List.not_mem_nil⟩
  | cons s ss ih =>
    rcases Nat.eq_zero_or_pos len with hz | hp
    · subst hz
      rw [resolveLoop_zero]
      exact ⟨rfl, rfl, fun w hw => absurd hw List.not_mem_nil⟩
    obtain ⟨hso, hc⟩ := hc
    have hle := hc.le
    rw [resolveLoop_cons hso (by omega) hp (by omega)]
    split
    · rename_i hskip
      obtain ⟨hz, htile, hden⟩ := ih hc (.inl hskip) hl hs
      exact ⟨hz, htile, fun w hw => (hden w hw).mono⟩
    · rename_i hin
      simp only
      generalize hw : min (base + s.length - start) len = writable
      obtain ⟨hz, htile, hden⟩ := @ih (base + s.length) (start + writable) (len - writable)
        (buffer + writable) hc (by omega) (by omega) (by omega)
      have he : buffer + writable + (len - writable) = buffer + len := by omega
      rw [he] at htile
      refine ⟨hz, ⟨rfl, ?_, htile⟩, ?_⟩
      · simp only
        omega
      · intro w hm
        rcases List.mem_cons.1 hm with rfl | hm
        · refine ⟨s, List.mem_cons_self, rfl, ?_, ?_⟩
          · simp only
            omega
          · simp only
            omega
        · exact (hden w hm).mono

theorem FileMap.Flat.resolveWrites {m : FileMap} (h : m.Flat) (hl : offset + len ≤ m.totalSize) :
    m.resolveWrites offset len = .ok (resolveLoop offset m.segments offset 0 len).1 ∧
      Tiles 0 (resolveLoop offset m.segments offset 0 len).1 len ∧
      ∀ w ∈ (resolveLoop offset m.segments offset 0 len).1, w.Denotes m.segments offset := by
  have hsize := h.size
  have hlast : satAdd offset len = offset + len := by
    unfold satAdd
    omega
  obtain ⟨hz, htile, hden⟩ := resolveLoop_tiles h.contiguous hsize (.inl (Nat.zero_le offset)) hl
    (Nat.add_zero offset).symm
  rw [Nat.zero_add] at htile
  refine ⟨?_, htile, hden⟩
  simp only [FileMap.resolveWrites, h.bounded, Bool.not_true, Bool.false_eq_true, if_false, hlast,
    Nat.not_lt.2 hl, hz, ne_eq, not_true_eq_false]

theorem FileMap.Flat.resolveWrites_error {m : FileMap} (h : m.Flat) (ho : offset < 2 ^ 64)
    (hl : m.totalSize < offset + len) : ∃ err, m.resolveWrites offset len = .error err := by
  simp only [FileMap.resolveWrites, h.bounded, Bool.not_true, Bool.false_eq_true, if_false]
  split
  · exact ⟨_, rfl⟩
  · rename_i hin
    have hp : 0 < len := by
      rcases Nat.eq_zero_or_pos len with hz | hp
      · subst hz
        unfold satAdd at hin
        omega
      · exact hp
    have hleft : (resolveLoop offset m.segments offset 0 len).2 ≠ 0 :=
      resolveLoop_overrun h.contiguous h.size (Nat.zero_le offset) hp hl
    rw [if_pos hleft]
    exact ⟨_, rfl⟩

theorem FileMap.Flat.writeAt {m : FileMap} (h : m.Flat) (ha : Allocated fs m.segments)
    (hl : offset + data.length ≤ m.totalSize) :
    ∃ fs', m.writeAt fs offset data = .ok fs' ∧ Allocated fs' m.segments ∧
      m.payload fs' = splice (m.payload fs) offset data := by
  obtain ⟨hok, _, _⟩ := h.resolveWrites hl
  obtain ⟨ha', hp⟩ := resolveLoop_writes offset h.contiguous h.size h.paths ha
    (.inl (Nat.zero_le offset)) hl (Nat.zero_add data.length)
  refine ⟨_, ?_, ha', ?_⟩
  · simp only [FileMap.writeAt, hok, bind, Except.bind, pure, Except.pure]
  · rw [Nat.sub_zero, List.drop_zero] at hp
    exact hp

theorem prepareSegment_ne (m : FileMap) (fs : FileSystem) {segment : FileSegment}
    (h : path ≠ segment.path) : (prepareSegment m fs segment).file path = fs.file path := by
  unfold prepareSegment FileSystem.modify FileSystem.openOrCreate
  split <;> split <;> simp [h]

theorem prepareSegment_self {m : FileMap} (hb : m.bounded = true) (fs : FileSystem)
    (segment : FileSegment) :
    ∃ f, (prepareSegment m fs segment).file segment.path = some f ∧ f.len = segment.length := by
  have hex : ∃ f, (fs.openOrCreate segment.path).file segment.path = some f := by
    cases h : fs.file segment.path with
    | some f => exact ⟨f, by rw [FileSystem.openOrCreate_some h, h]⟩
    | none => exact ⟨_, FileSystem.openOrCreate_none h⟩
  obtain ⟨f, hf⟩ := hex
  simp only [prepareSegment, hb, if_true, FileSystem.modify_self, hf, Option.map_some]
  exact ⟨_, rfl, setLen_length f.cells segment.length⟩

theorem foldl_prepareSegment_ne (m : FileMap) {segments : List FileSegment}
    (h : path ∉ segments.map (·.path)) (fs : FileSystem) :
    (segments.foldl (prepareSegment m) fs).file path = fs.file path := by
  induction segments generalizing fs with
  | nil => rfl
  | cons s ss ih =>
    rw [List.map_cons, List.mem_cons, not_or] at h
    rw [List.foldl_cons, ih h.2, prepareSegment_ne m fs h.1]

theorem FileMap.Flat.prepare {m : FileMap} (h : m.Flat) (fs : FileSystem) :
    Allocated (m.prepare fs) m.segments := by
  have hn := h.paths
  unfold FileMap.prepare
  generalize m.segments = segments at hn ⊢
  induction segments generalizing fs with
  | nil => exact fun s hs => absurd hs List.not_mem_nil
  | cons s ss ih =>
    rw [List.map_cons, List.nodup_cons] at hn
    intro t ht
    rcases List.mem_cons.1 ht with rfl | ht
    · obtain ⟨f, hf, hl⟩ := prepareSegment_self h.bounded fs t
      exact ⟨f, (foldl_prepareSegment_ne m hn.1 _).trans hf, hl⟩
    · exact ih (prepareSegment m fs s) hn.2 t ht

/-- The arguments of one `write_at` call. -/
structure Write where
  offset : UInt64
  data : List UInt8
  deriving DecidableEq

/-- The file system after a call, whether it succeeded or not: `resolve_writes` fails before the
first byte is written. -/
def FileMap.write (m : FileMap) (fs : FileSystem) (w : Write) : FileSystem :=
  match m.writeAt fs w.offset.toNat w.data with
  | .ok fs' => fs'
  | .error _ => fs

def Write.Fits (w : Write) (totalSize : Nat) : Prop := w.offset.toNat + w.data.length ≤ totalSize

instance (w : Write) (n : Nat) : Decidable (w.Fits n) := inferInstanceAs (Decidable (_ ≤ _))

/-- The abstract store: one array of `totalSize` bytes, which a call that does not fit leaves as
it is. -/
def flatWrite (totalSize : Nat) (bytes : List UInt8) (w : Write) : List UInt8 :=
  if w.Fits totalSize then splice bytes w.offset.toNat w.data else bytes

theorem FileMap.Flat.write_error {m : FileMap} (h : m.Flat) (fs : FileSystem)
    (hw : ¬ w.Fits m.totalSize) :
    (∃ err, m.writeAt fs w.offset.toNat w.data = .error err) ∧ m.write fs w = fs := by
  obtain ⟨err, he⟩ := h.resolveWrites_error w.offset.toNat_lt (Nat.lt_of_not_le hw)
  have hwrite : m.writeAt fs w.offset.toNat w.data = .error err := by
    simp only [FileMap.writeAt, he, bind, Except.bind]
  exact ⟨⟨err, hwrite⟩, by simp only [FileMap.write, hwrite]⟩

/-- One call of the store is one step of the flat array. -/
theorem FileMap.Flat.write {m : FileMap} (h : m.Flat) (ha : Allocated fs m.segments) (w : Write) :
    Allocated (m.write fs w) m.segments ∧
      m.payload (m.write fs w) = flatWrite m.totalSize (m.payload fs) w := by
  unfold flatWrite
  split
  · rename_i hf
    obtain ⟨fs', hok, ha', hp⟩ := h.writeAt ha hf
    simp only [FileMap.write, hok]
    exact ⟨ha', hp⟩
  · rename_i hf
    rw [(h.write_error fs hf).2]
    exact ⟨ha, rfl⟩

theorem FileMap.Flat.writes {m : FileMap} (h : m.Flat) (ha : Allocated fs m.segments)
    (writes : List Write) :
    Allocated (writes.foldl m.write fs) m.segments ∧
      m.payload (writes.foldl m.write fs) =
        writes.foldl (flatWrite m.totalSize) (m.payload fs) := by
  induction writes generalizing fs with
  | nil => exact ⟨ha, rfl⟩
  | cons w ws ih =>
    obtain ⟨ha', hp⟩ := h.write ha w
    have hr := ih ha'
    rw [hp] at hr
    exact hr

/-- The files of the manifest in offset order, contiguous from 0 to a total size that a `u64` can
hold, under distinct paths. -/
structure SessionManifest.Flat (manifest : SessionManifest) : Prop where
  contiguous : Contiguous 0 (FileMap.fromManifest manifest).segments manifest.totalSize
  paths : (manifest.files.map (·.path)).Nodup
  pos : 0 < manifest.totalSize
  size : manifest.totalSize < 2 ^ 64

theorem SessionManifest.Flat.fileMap (h : SessionManifest.Flat manifest) :
    (FileMap.fromManifest manifest).Flat := by
  refine ⟨h.contiguous, ?_, ?_, h.size⟩
  · simpa [FileMap.fromManifest, Function.comp_def] using h.paths
  · simp [FileMap.fromManifest, h.pos]

/-- After `prepare` and any calls, the files are the flat array after the same calls; a further
call that fits overwrites its window, through slices that cut the buffer in order and put every
byte where its payload offset lies, and one that does not fit fails and changes nothing. -/
theorem payloadStore_refines_flat (manifest : SessionManifest) (h : manifest.Flat)
    (fs : FileSystem) (writes : List Write) :
    let m := FileMap.fromManifest manifest
    let fs₁ := writes.foldl m.write (m.prepare fs)
    m.payload fs₁ = writes.foldl (flatWrite manifest.totalSize) (m.payload (m.prepare fs)) ∧
      (m.payload fs₁).length = manifest.totalSize ∧ Allocated fs₁ m.segments ∧
      ∀ w : Write,
        (w.offset.toNat + w.data.length ≤ manifest.totalSize →
          (∃ fs₂, m.writeAt fs₁ w.offset.toNat w.data = .ok fs₂ ∧ m.write fs₁ w = fs₂ ∧
            m.payload fs₂ = splice (m.payload fs₁) w.offset.toNat w.data) ∧
          ∃ slices, m.resolveWrites w.offset.toNat w.data.length = .ok slices ∧
            Tiles 0 slices w.data.length ∧ ∀ s ∈ slices, s.Denotes m.segments w.offset.toNat) ∧
        (manifest.totalSize < w.offset.toNat + w.data.length →
          (∃ err, m.writeAt fs₁ w.offset.toNat w.data = .error err) ∧ m.write fs₁ w = fs₁) := by
  intro m fs₁
  have hm : m.Flat := h.fileMap
  have htotal : m.totalSize = manifest.totalSize := rfl
  obtain ⟨ha, hp⟩ := hm.writes (hm.prepare fs) writes
  refine ⟨hp, ?_, ha, ?_⟩
  · have hl := payloadOf_length ha hm.contiguous
    rw [Nat.sub_zero] at hl
    exact hl
  · intro w
    constructor
    · intro hw
      obtain ⟨fs₂, hok, _, hpay⟩ := hm.writeAt ha hw
      obtain ⟨hr, htile, hden⟩ := hm.resolveWrites hw
      refine ⟨⟨fs₂, hok, ?_, hpay⟩, _, hr, htile, hden⟩
      simp only [FileMap.write]
      rw [hok]
    · intro hw
      exact hm.write_error fs₁ (Nat.not_le.2 hw)

/-- Eight bytes in two files with an empty one between them. -/
def threeFileManifest : SessionManifest :=
  let spec := DownloadSpec.https "https://example.com/archive.bin"
  { SessionManifest.forSingleFileWithPieceSize spec (.forSpec spec none) "archive.bin" "/left.bin" 8
      DEFAULT_PIECE_SIZE DEFAULT_BLOCK_SIZE [] with
    files := [⟨"/left.bin", "left.bin", 4, 0⟩, ⟨"/empty.bin", "empty.bin", 0, 4⟩,
      ⟨"/right.bin", "right.bin", 4, 4⟩] }

theorem threeFileManifest_flat : threeFileManifest.Flat :=
  ⟨⟨rfl, rfl, rfl, rfl⟩, by decide, by decide, by decide⟩

theorem write_across_files_is_one_array :
    let m := FileMap.fromManifest threeFileManifest
    threeFileManifest.Flat ∧
      m.payload (m.write (m.prepare .empty) ⟨2, [65, 66, 67, 68]⟩) =
        [0, 0, 65, 66, 67, 68, 0, 0] := by
  intro m
  refine ⟨threeFileManifest_flat, ?_⟩
  have h := (payloadStore_refines_flat threeFileManifest threeFileManifest_flat .empty
    [⟨2, [65, 66, 67, 68]⟩]).1
  exact h.trans (by decide)

end Paradown
