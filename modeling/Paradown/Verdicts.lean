import Paradown.Storage

namespace Paradown
set_option autoImplicit true

/-- `Checksum::verify`, which opens the file only for a checksum that has something to compare. -/
def Checksum.verifyFile (d : Digests) (c : Checksum) (file : Except Error (List UInt8)) :
    Except Error Bool :=
  match c.value with
  | none => .ok true
  | some expected =>
    match d.apply c.algorithm with
    | none => .ok true
    | some digest =>
      match file with
      | .error err => .error err
      | .ok content => .ok (digest content == expected)

/-- `verify_file_checksums` of a file that may be unreadable. -/
def verifyChecksums (d : Digests) (now : Nat) (file : Except Error (List UInt8)) :
    List Checksum → Except Error Bool × List Checksum
  | [] => (.ok true, [])
  | c :: cs =>
    match c.verifyFile d file with
    | .ok true =>
      let (verdict, cs) := verifyChecksums d now file cs
      (verdict, { c with verified := some true, verifiedAt := some now } :: cs)
    | verdict => (verdict, { c with verified := some false, verifiedAt := some now } :: cs)

/-- A checksum that has been saved and restored. -/
def Checksum.restored (taskId : Nat) (c : Checksum) : Checksum := dbToChecksum (checksumToDb c taskId)

/-- The checksums after a number of save/restore cycles. -/
def restoredChecksums (taskId : Nat) : Nat → List Checksum → List Checksum
  | 0, cs => cs
  | n + 1, cs => restoredChecksums taskId n (cs.map (Checksum.restored taskId))

/-- A checksum that names no algorithm or has a value to compare with. -/
def Checksum.Complete (c : Checksum) : Prop := c.algorithm ≠ .none → c.value.isSome = true

instance (c : Checksum) : Decidable c.Complete := inferInstanceAs (Decidable (_ → _))

theorem ChecksumAlgorithm.fromText_toText (a : ChecksumAlgorithm) : fromText a.toText = a := by
  cases a <;> rfl

theorem Checksum.verifyFile_ok (d : Digests) (c : Checksum) (content : List UInt8) :
    c.verifyFile d (.ok content) = .ok (c.verify d content) := by
  obtain ⟨algorithm, value, verified, verifiedAt⟩ := c
  cases value with
  | none => rfl
  | some expected => cases algorithm <;> rfl

theorem verifyChecksums_ok (d : Digests) (now : Nat) (content : List UInt8) (cs : List Checksum) :
    verifyChecksums d now (.ok content) cs =
      (.ok (verifyFileChecksums d now content cs).1, (verifyFileChecksums d now content cs).2) := by
  induction cs with
  | nil => rfl
  | cons c cs ih =>
    rw [verifyChecksums, c.verifyFile_ok, verifyFileChecksums]
    cases c.verify d content with
    | true => simp only [ih, if_true]
    | false => rfl

/-- A verdict that does not depend on the checksum: reading fails or the digest is another one. -/
def failedVerdict (file : Except Error (List UInt8)) : Except Error Bool :=
  match file with
  | .error err => .error err
  | .ok _ => .ok false

theorem failedVerdict_ne (file : Except Error (List UInt8)) : failedVerdict file ≠ .ok true := by
  cases file with
  | error err => exact fun h => nomatch h
  | ok content => exact fun h => nomatch h

theorem Checksum.verifyFile_cases (d : Digests) (c : Checksum) (file : Except Error (List UInt8)) :
    c.verifyFile d file = .ok true ∨ c.verifyFile d file = failedVerdict file := by
  unfold Checksum.verifyFile
  split
  · exact .inl rfl
  · split
    · exact .inl rfl
    · rename_i expected _ _ digest _
      cases file with
      | error err => exact .inr rfl
      | ok content =>
        cases hd : digest content == expected with
        | true => exact .inl (congrArg Except.ok hd)
        | false => exact .inr (congrArg Except.ok hd)

theorem verifyChecksums_cases (d : Digests) (now : Nat) (file : Except Error (List UInt8))
    (cs : List Checksum) :
    ((∀ c ∈ cs, c.verifyFile d file = .ok true) ∧ (verifyChecksums d now file cs).1 = .ok true) ∨
    ((∃ c ∈ cs, c.verifyFile d file ≠ .ok true) ∧
      (verifyChecksums d now file cs).1 = failedVerdict file) := by
  induction cs with
  | nil => exact .inl ⟨fun c hc => absurd hc List.not_mem_nil, rfl⟩
  | cons c cs ih =>
    rcases c.verifyFile_cases d file with hpass | hfail
    · rw [List.forall_mem_cons, List.exists_mem_cons_iff, verifyChecksums, hpass]
      rcases ih with ⟨hall, hv⟩ | ⟨hsome, hv⟩
      · exact .inl ⟨⟨rfl, hall⟩, hv⟩
      · exact .inr ⟨.inr hsome, hv⟩
    · have hne : c.verifyFile d file ≠ .ok true := hfail ▸ failedVerdict_ne file
      refine .inr ⟨⟨c, List.mem_cons_self, hne⟩, ?_⟩
      rw [verifyChecksums]
      split
      · exact absurd ‹_› hne
      · exact hfail

/-- A verdict is that of another list exactly when both pass or neither does. -/
theorem verifyChecksums_eq_iff (d : Digests) (now now' : Nat) (file : Except Error (List UInt8))
    (cs cs' : List Checksum) :
    (verifyChecksums d now file cs).1 = (verifyChecksums d now' file cs').1 ↔
      ((∀ c ∈ cs, c.verifyFile d file = .ok true) ↔ ∀ c ∈ cs', c.verifyFile d file = .ok true) := by
  have hnot (cs : List Checksum) (h : ∃ c ∈ cs, c.verifyFile d file ≠ .ok true) :
      ¬ ∀ c ∈ cs, c.verifyFile d file = .ok true := by
    intro hall
    obtain ⟨c, hc, hne⟩ := h
    exact hne (hall c hc)
  rcases verifyChecksums_cases d now file cs with ⟨hall, hv⟩ | ⟨hsome, hv⟩ <;>
    rcases verifyChecksums_cases d now' file cs' with ⟨hall', hv'⟩ | ⟨hsome', hv'⟩
  · exact iff_of_true (hv.trans hv'.symm) (iff_of_true hall hall')
  · apply iff_of_false
    · rw [hv, hv']
      exact (failedVerdict_ne file).symm
    · intro h
      exact hnot cs' hsome' (h.1 hall)
  · apply iff_of_false
    · rw [hv, hv']
      exact failedVerdict_ne file
    · intro h
      exact hnot cs hsome (h.2 hall')
  · exact iff_of_true (hv.trans hv'.symm) (iff_of_false (hnot cs hsome) (hnot cs' hsome'))

theorem Checksum.restored_eq (taskId : Nat) (c : Checksum) :
    c.restored taskId = ⟨c.algorithm, some (c.value.getD ""), some (c.verified.getD false),
      c.verifiedAt⟩ := by
  rw [Checksum.restored, dbToChecksum, checksumToDb, ChecksumAlgorithm.fromText_toText]

theorem Checksum.restored_restored (taskId : Nat) (c : Checksum) :
    (c.restored taskId).restored taskId = c.restored taskId := by
  simp only [Checksum.restored_eq, Option.getD_some]

/-- Further cycles change nothing. -/
theorem restoredChecksums_succ (taskId n : Nat) (cs : List Checksum) :
    restoredChecksums taskId (n + 1) cs = cs.map (Checksum.restored taskId) := by
  induction n generalizing cs with
  | zero => rfl
  | succ n ih =>
    rw [restoredChecksums, ih, List.map_map]
    apply List.map_congr_left
    intro c _
    exact c.restored_restored taskId

theorem Checksum.restored_verify_complete {c : Checksum} (h : c.Complete) (d : Digests)
    (taskId : Nat) (file : Except Error (List UInt8)) :
    (c.restored taskId).verifyFile d file = c.verifyFile d file := by
  rw [c.restored_eq]
  obtain ⟨algorithm, value, verified, verifiedAt⟩ := c
  cases value with
  | some expected => rfl
  | none =>
    have hnone : algorithm = .none := by
      by_contra ha
      exact nomatch h ha
    rw [hnone]
    rfl

theorem Checksum.restored_verify_incomplete {c : Checksum} (h : ¬ c.Complete) {d : Digests}
    (hd : ∀ algorithm digest content, d.apply algorithm = some digest → digest content ≠ "")
    (taskId : Nat) (file : Except Error (List UInt8)) :
    c.verifyFile d file = .ok true ∧ (c.restored taskId).verifyFile d file = failedVerdict file := by
  rw [c.restored_eq]
  obtain ⟨algorithm, value, verified, verifiedAt⟩ := c
  cases value with
  | some expected => exact absurd (fun _ => rfl) h
  | none =>
    refine ⟨rfl, ?_⟩
    cases hdigest : d.apply algorithm with
    | none =>
      refine absurd (fun ha => ?_) h
      cases algorithm <;> first | exact absurd rfl ha | cases hdigest
    | some digest =>
      simp only [Checksum.verifyFile, hdigest, Option.getD_none]
      cases file with
      | error err => rfl
      | ok content =>
        have hne := hd algorithm digest content hdigest
        simp only [failedVerdict, beq_eq_false_iff_ne.2 hne]

/-- After any number of cycles the verdict is the same exactly when every checksum that names an
algorithm has a value, or the file does not pass anyway. -/
theorem verdict_preserved_iff (d : Digests)
    (hd : ∀ algorithm digest content, d.apply algorithm = some digest → digest content ≠ "")
    (taskId now now' : Nat) (file : Except Error (List UInt8)) (cs : List Checksum) :
    (∀ n, (verifyChecksums d now file (restoredChecksums taskId n cs)).1 =
      (verifyChecksums d now' file cs).1) ↔
    (∀ c ∈ cs, c.Complete) ∨ ∃ c ∈ cs, c.verifyFile d file ≠ .ok true := by
  have hcycle : (verifyChecksums d now file (cs.map (Checksum.restored taskId))).1 =
        (verifyChecksums d now' file cs).1 ↔
      (∀ c ∈ cs, c.Complete) ∨ ∃ c ∈ cs, c.verifyFile d file ≠ .ok true := by
    rw [verifyChecksums_eq_iff, List.forall_mem_map]
    constructor
    · intro h
      by_cases hall : ∀ c ∈ cs, c.verifyFile d file = .ok true
      · left
        intro c hc
        by_contra hincomplete
        have hfail := (Checksum.restored_verify_incomplete hincomplete hd taskId file).2
        rw [h.2 hall c hc] at hfail
        exact failedVerdict_ne file hfail.symm
      · right
        push Not at hall
        exact hall
    · rintro (hall | ⟨c, hc, hne⟩)
      · constructor
        · intro h c hc
          rw [← Checksum.restored_verify_complete (hall c hc) d taskId file]
          exact h c hc
        · intro h c hc
          rw [Checksum.restored_verify_complete (hall c hc) d taskId file]
          exact h c hc
      · apply iff_of_false
        · intro h
          by_cases hcomplete : c.Complete
          · rw [← Checksum.restored_verify_complete hcomplete d taskId file] at hne
            exact hne (h c hc)
          · exact hne (Checksum.restored_verify_incomplete hcomplete hd taskId file).1
        · intro h
          exact hne (h c hc)
  constructor
  · intro h
    exact hcycle.1 (h 1)
  · intro h n
    cases n with
    | zero => exact (verifyChecksums_eq_iff d now now' file cs cs).2 Iff.rfl
    | succ n =>
      rw [restoredChecksums_succ]
      exact hcycle.2 h

/-- The digests of the empty file. -/
def emptyFileDigests : Digests where
  md5 _ := "d41d8cd98f00b204e9800998ecf8427e"
  sha1 _ := "da39a3ee5e6b4b0d3255bfef95601890afd80709"
  sha256 _ := "e3b0c44298fc1c149afbf4c8996fb92427ae41e4649b934ca495991b7852b855"

theorem emptyFileDigests_ne (algorithm : ChecksumAlgorithm) (digest : List UInt8 → String)
    (content : List UInt8) (h : emptyFileDigests.apply algorithm = some digest) :
    digest content ≠ "" := by
  cases algorithm <;> cases h <;> exact ne_of_beq_false rfl

theorem given_digest_is_preserved :
    (verifyChecksums emptyFileDigests 5 (.ok []) (restoredChecksums 1 3
        [⟨.md5, some "d41d8cd98f00b204e9800998ecf8427e", none, none⟩, ⟨.none, none, none, none⟩])).1 =
      (verifyChecksums emptyFileDigests 2 (.ok [])
        [⟨.md5, some "d41d8cd98f00b204e9800998ecf8427e", none, none⟩, ⟨.none, none, none, none⟩]).1 :=
  (verdict_preserved_iff emptyFileDigests emptyFileDigests_ne 1 5 2 (.ok []) _).2
    (.inl (by decide)) 3

/-- The file passes, and after one cycle it does not. -/
theorem absent_digest_is_not_preserved :
    (verifyChecksums emptyFileDigests 2 (.ok []) [⟨.sha256, none, none, none⟩]).1 = .ok true ∧
    (verifyChecksums emptyFileDigests 5 (.ok [])
      (restoredChecksums 1 1 [⟨.sha256, none, none, none⟩])).1 = .ok false := by
  constructor
  · rfl
  · rw [restoredChecksums_succ, List.map_singleton, Checksum.restored_eq]
    rfl

end Paradown
