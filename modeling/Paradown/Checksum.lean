import Paradown.Status

namespace Paradown
set_option autoImplicit true

inductive ChecksumAlgorithm where
  | md5
  | sha1
  | sha256
  | none
  deriving DecidableEq, Repr

structure Checksum where
  algorithm : ChecksumAlgorithm
  value : Option String
  verified : Option Bool
  verifiedAt : Option Nat
  deriving DecidableEq, Repr

/-- The three digest functions, each giving the lower-case hexadecimal digest of a byte string. -/
structure Digests where
  md5 : List UInt8 → String
  sha1 : List UInt8 → String
  sha256 : List UInt8 → String

/-- `None` is the algorithm that computes nothing. -/
def Digests.apply (d : Digests) : ChecksumAlgorithm → Option (List UInt8 → String)
  | .md5 => some d.md5
  | .sha1 => some d.sha1
  | .sha256 => some d.sha256
  | .none => Option.none

/-- A checksum that carries an expected digest; the others are skipped by `verify`. -/
def Checksum.CarriesDigest (c : Checksum) : Prop :=
  c.value.isSome = true ∧ c.algorithm ≠ .none

instance (c : Checksum) : Decidable c.CarriesDigest := inferInstanceAs (Decidable (_ ∧ _))

/-- `Checksum::verify` on a readable file: no expected value or no algorithm means success. -/
def Checksum.verify (d : Digests) (c : Checksum) (content : List UInt8) : Bool :=
  match c.value with
  | none => true
  | some expected =>
    match d.apply c.algorithm with
    | none => true
    | some digest => digest content == expected

/-- `verify_file_checksums` records each verdict and stops at the first mismatch. -/
def verifyFileChecksums (d : Digests) (now : Nat) (content : List UInt8) :
    List Checksum → Bool × List Checksum
  | [] => (true, [])
  | c :: cs =>
    if c.verify d content then
      let (ok, cs') := verifyFileChecksums d now content cs
      (ok, { c with verified := some true, verifiedAt := some now } :: cs')
    else (false, { c with verified := some false, verifiedAt := some now } :: cs)

theorem verifyFileChecksums_fst (d : Digests) (now : Nat) (content : List UInt8)
    (cs : List Checksum) :
    (verifyFileChecksums d now content cs).1 = cs.all (·.verify d content) := by
  induction cs with
  | nil => rfl
  | cons c cs ih =>
    simp only [verifyFileChecksums, List.all_cons]
    cases hv : c.verify d content with
    | true => simpa using ih
    | false => simp

theorem Checksum.verify_of_not_carriesDigest (d : Digests) {c : Checksum}
    (h : ¬ c.CarriesDigest) (content : List UInt8) : c.verify d content = true := by
  unfold Checksum.verify
  cases hv : c.value with
  | none => rfl
  | some v =>
    have ha : c.algorithm = .none := by
      by_contra ha
      exact h ⟨by simp [hv], ha⟩
    simp [ha, Digests.apply]

end Paradown
