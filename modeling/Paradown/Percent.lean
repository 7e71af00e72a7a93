import Mathlib.Data.List.Basic

namespace Percent
set_option autoImplicit true

/-- The value of a hexadecimal digit of either case. -/
def hexValue (c : Char) : Option Nat :=
  if '0' ≤ c ∧ c ≤ '9' then some (c.toNat - '0'.toNat)
  else if 'a' ≤ c ∧ c ≤ 'f' then some (c.toNat - 'a'.toNat + 10)
  else if 'A' ≤ c ∧ c ≤ 'F' then some (c.toNat - 'A'.toNat + 10)
  else none

/-- The upper-case digit of a value below sixteen. -/
def hexDigit (value : Nat) : Char :=
  if value < 10 then Char.ofNat ('0'.toNat + value) else Char.ofNat ('A'.toNat + (value - 10))

theorem hexValue_hexDigit : ∀ value < 16, hexValue (hexDigit value) = some value := by
  decide

theorem hexValue_cases (h : hexValue c = some value) :
    ('0' ≤ c ∧ c ≤ '9' ∧ value = c.toNat - '0'.toNat) ∨
      ('a' ≤ c ∧ c ≤ 'f' ∧ value = c.toNat - 'a'.toNat + 10) ∨
      ('A' ≤ c ∧ c ≤ 'F' ∧ value = c.toNat - 'A'.toNat + 10) := by
  unfold hexValue at h
  split_ifs at h with hd hl hu
  · cases h
    exact .inl ⟨hd.1, hd.2, rfl⟩
  · cases h
    exact .inr (.inl ⟨hl.1, hl.2, rfl⟩)
  · cases h
    exact .inr (.inr ⟨hu.1, hu.2, rfl⟩)

section
-- The characters that stand for a byte by themselves.
variable {stands : UInt8 → Char → Prop}

/-- The texts that stand for a list of bytes; the digits may be of either case. -/
inductive Encodes (stands : UInt8 → Char → Prop) : List UInt8 → List Char → Prop
  | nil : Encodes stands [] []
  | char (h : stands byte c) (ht : Encodes stands bytes text) :
      Encodes stands (byte :: bytes) (c :: text)
  | escape (hh : hexValue high = some h) (hl : hexValue low = some l)
      (ht : Encodes stands bytes text) :
      Encodes stands (.ofNat (16 * h + l) :: bytes) ('%' :: high :: low :: text)

theorem Encodes.imp (h : Encodes stands bytes text)
    (himp : ∀ byte c, stands byte c → stands' byte c) : Encodes stands' bytes text := by
  induction h with
  | nil => exact .nil
  | char hc _ ih => exact .char (himp _ _ hc) ih
  | escape hh hl _ ih => exact .escape hh hl ih

theorem Encodes.forall_mem {p : Char → Prop} (h : Encodes stands bytes text)
    (hs : ∀ byte c, stands byte c → p c) (hp : p '%')
    (hd : ∀ c value, hexValue c = some value → p c) : ∀ c ∈ text, p c := by
  induction h with
  | nil => exact fun c hc => absurd hc List.not_mem_nil
  | char hc _ ih => exact List.forall_mem_cons.2 ⟨hs _ _ hc, ih⟩
  | escape hh hl _ ih =>
    have hlow := List.forall_mem_cons.2 ⟨hd _ _ hl, ih⟩
    have hhigh := List.forall_mem_cons.2 ⟨hd _ _ hh, hlow⟩
    exact List.forall_mem_cons.2 ⟨hp, hhigh⟩

end

/-- Escape every byte that is no character of its own. -/
def encode (literal : UInt8 → Option Char) (bytes : List UInt8) : List Char :=
  bytes.flatMap fun byte =>
    match literal byte with
    | some c => [c]
    | none => ['%', hexDigit (byte.toNat / 16), hexDigit (byte.toNat % 16)]

theorem encode_encodes (literal : UInt8 → Option Char) (bytes : List UInt8) :
    Encodes (fun byte c => literal byte = some c) bytes (encode literal bytes) := by
  induction bytes with
  | nil => exact .nil
  | cons byte bytes ih =>
    unfold encode at ih ⊢
    rw [List.flatMap_cons]
    cases hl : literal byte with
    | some c => exact .char hl ih
    | none =>
      have hbyte : UInt8.ofNat (16 * (byte.toNat / 16) + byte.toNat % 16) = byte := by
        rw [Nat.div_add_mod, UInt8.ofNat_toNat]
      have hlt : byte.toNat / 16 < 16 := Nat.div_lt_of_lt_mul byte.toNat_lt
      have hesc := Encodes.escape (hexValue_hexDigit _ hlt)
        (hexValue_hexDigit _ (Nat.mod_lt byte.toNat (by decide))) ih
      rwa [hbyte] at hesc

/-- Decode the escapes; a percent sign without two digits after it stands for itself. -/
def decode (plain : Char → List UInt8) : List Char → List UInt8
  | [] => []
  | c :: rest =>
    if c = '%' then
      match rest with
      | high :: low :: rest =>
        match hexValue high, hexValue low with
        | some h, some l => .ofNat (16 * h + l) :: decode plain rest
        | _, _ => plain c ++ decode plain (high :: low :: rest)
      | rest => plain c ++ decode plain rest
    else plain c ++ decode plain rest

theorem decode_cons {plain : Char → List UInt8} (h : c ≠ '%') (rest : List Char) :
    decode plain (c :: rest) = plain c ++ decode plain rest := by
  rw [decode.eq_def]
  exact if_neg h

/-- Every text that stands for the bytes is decoded into them. -/
theorem Encodes.decode {plain : Char → List UInt8} (h : Encodes stands bytes text)
    (hplain : ∀ byte c, stands byte c → c ≠ '%' ∧ plain c = [byte]) :
    decode plain text = bytes := by
  induction h with
  | nil => rfl
  | char hc _ ih =>
    obtain ⟨hne, hp⟩ := hplain _ _ hc
    rw [decode_cons hne, hp, ih]
    rfl
  | escape hh hl _ ih =>
    rw [Percent.decode, if_pos rfl]
    simp only [hh, hl, ih]

end Percent
