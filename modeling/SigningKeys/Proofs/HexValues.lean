import Mathlib.Algebra.Group.Nat.Defs
import SigningKeys.Proofs.LineGrammar

/-!
# Values in hexadecimal digits

The fields that hold bytes are read from hexadecimal digits in either case and written with small
letters.  So a text that is read comes back with small letters when its value is written, and the
text that is written for some bytes is read as these bytes.  A text that cannot be read leaves the
record as it was.

## Main definitions

* `Byte.toLower`: a small letter for a capital one.
* `Kind.bytes`: the bytes of a value, if its kind has bytes.

## Main results

* `Hex.digit_digitValue`, `Hex.encode_pairs`: digits come back with small letters.
* `Field.exists_read_iff_of_hex`: which texts are read.
* `Field.hex_reads_back`: **digits and bytes stand for each other, but for capital letters.**
-/

namespace SigningKeys

open Byte

/-- A small letter for a capital one, and any other byte as it is. -/
def Byte.toLower (b : UInt8) : UInt8 := if 65 ≤ b ∧ b ≤ 90 then b + 32 else b

/-! ### Digits -/

namespace Hex

instance (b : UInt8) : Decidable (IsDigit b) :=
  inferInstanceAs (Decidable (48 ≤ b ∧ b ≤ 57 ∨ 97 ≤ b ∧ b ≤ 102 ∨ 65 ≤ b ∧ b ≤ 70))

theorem digitValue_lt {b : UInt8} (h : IsDigit b) : digitValue b < 16 := by
  simp only [IsDigit, UInt8.le_iff_toNat_le, UInt8.reduceToNat] at h
  simp only [digitValue, UInt8.le_iff_toNat_le, UInt8.reduceToNat]
  split
  · omega
  · split <;> omega

/-- The digit of a value is the one that the value was read from, or its small letter. -/
theorem digit_digitValue {b : UInt8} (h : IsDigit b) : digit (digitValue b) = toLower b := by
  simp only [IsDigit, UInt8.le_iff_toNat_le, UInt8.reduceToNat] at h
  simp only [digit, digitValue, toLower, UInt8.le_iff_toNat_le, UInt8.reduceToNat]
  rcases h with hdecimal | hsmall | hcapital
  · have hvalue : b.toNat - 48 < 10 := by omega
    have hletter : ¬ (65 ≤ b.toNat ∧ b.toNat ≤ 90) := by omega
    rw [if_pos hdecimal.2, if_pos hvalue, if_neg hletter, Nat.add_sub_cancel' hdecimal.1,
      UInt8.ofNat_toNat]
  · have hdecimal : ¬ b.toNat ≤ 57 := by omega
    have hcapital : ¬ b.toNat ≤ 70 := by omega
    have hvalue : ¬ b.toNat - 87 < 10 := by omega
    have hletter : ¬ (65 ≤ b.toNat ∧ b.toNat ≤ 90) := by omega
    rw [if_neg hdecimal, if_neg hcapital, if_neg hvalue, if_neg hletter,
      Nat.add_sub_cancel' (by omega), UInt8.ofNat_toNat]
  · have hdecimal : ¬ b.toNat ≤ 57 := by omega
    have hvalue : ¬ b.toNat - 55 < 10 := by omega
    have hletter : 65 ≤ b.toNat ∧ b.toNat ≤ 90 := by omega
    have hsmall : 87 + (b.toNat - 55) = b.toNat + 32 := by omega
    rw [if_neg hdecimal, if_pos hcapital.2, if_neg hvalue, if_pos hletter, hsmall,
      UInt8.ofNat_add, UInt8.ofNat_toNat]
    rfl

/-- Digits in pairs are written again with small letters. -/
theorem encode_pairs {raw : Bytes} (hlen : raw.length % 2 = 0) (hdigits : ∀ b ∈ raw, IsDigit b) :
    encode (pairs raw) = raw.map toLower := by
  fun_induction pairs raw with
  | case1 high low rest ih =>
    rw [List.forall_mem_cons, List.forall_mem_cons] at hdigits
    obtain ⟨hhigh, hlow, hrest⟩ := hdigits
    have hparity : rest.length % 2 = 0 := by
      simp only [List.length_cons] at hlen
      omega
    -- the two digits are the halves of the byte again
    have hhighValue := digitValue_lt hhigh
    have hlowValue := digitValue_lt hlow
    have hbyte : 16 * digitValue high + digitValue low < 256 := by omega
    have hdiv : (16 * digitValue high + digitValue low) / 16 = digitValue high := by omega
    have hmod : (16 * digitValue high + digitValue low) % 16 = digitValue low := by omega
    rw [encode_cons, UInt8.toNat_ofNat_of_lt' hbyte, hdiv, hmod, digit_digitValue hhigh,
      digit_digitValue hlow, ih hparity hrest, List.map_cons, List.map_cons]
  | case2 raw hraw =>
    cases raw with
    | nil => rfl
    | cons high rest =>
      cases rest with
      | nil => cases hlen
      | cons low rest => exact absurd rfl (hraw high low rest)

end Hex

/-! ### Fields that hold bytes -/

/-- The bytes of a value; only some kinds have bytes for values. -/
def Kind.bytes : (k : Kind) → k.Value → Option Bytes
  | .text, _ => none
  | .unsigned, _ => none
  | .hex _, bs => some bs

namespace Field

variable {f : Field} {n : ℕ} {raw : Bytes}

/-- A field that holds `n` bytes is read from `2 * n` hexadecimal digits, and from nothing else. -/
theorem exists_read_iff_of_hex (hf : f.kind = .hex n) :
    (∃ v, f.read raw = .ok v) ↔ raw.length = 2 * n ∧ ∀ b ∈ raw, Hex.IsDigit b := by
  have hadmits : f.kind.Admits raw ↔ raw.length = 2 * n ∧ ∀ b ∈ raw, Hex.IsDigit b := by
    rw [hf]
    rfl
  rw [← hadmits]
  constructor
  · rintro ⟨v, hread⟩
    exact (read_eq_ok_iff.mp hread).1
  · intro h
    exact ⟨_, read_eq_ok_iff.mpr ⟨h, rfl⟩⟩

/-- What is read spells its bytes, two digits for each. -/
theorem bytes_of_read (hf : f.kind = .hex n) {v : f.kind.Value} (h : f.read raw = .ok v) :
    f.kind.bytes v = some (Hex.pairs raw) := by
  have key : ∀ k : Kind, k = .hex n → k.bytes (k.meaning raw) = some (Hex.pairs raw) := by
    rintro k rfl
    rfl
  rw [(read_eq_ok_iff.mp h).2, key f.kind hf]

/-- The text that is written for some bytes is read as these bytes. -/
theorem read_encode (hf : f.kind = .hex n) {bs : Bytes} (hbs : bs.length = n) :
    ∃ v, f.read (Hex.encode bs) = .ok v ∧ f.kind.bytes v = some bs := by
  have key : ∀ k : Kind, k = .hex n →
      ∃ v, f.readKind k (Hex.encode bs) = .ok v ∧ k.bytes v = some bs := by
    rintro k rfl
    exact ⟨bs, f.readHex_encode hbs, rfl⟩
  exact key f.kind hf

/-- A field that holds `n` bytes is read from `2 * n` hexadecimal digits in either case, and from
nothing else.  Its bytes are written as these digits, with small letters for capital ones, and read
back from what is written for them.  What is read from a line is stored if the field has no value
yet, and all other fields are as before; where nothing is stored, the line is at fault and the
record as it was. -/
theorem hex_reads_back (hf : f.kind = .hex n) :
    (∀ raw, (∃ v, f.read raw = .ok v) ↔ raw.length = 2 * n ∧ ∀ b ∈ raw, Hex.IsDigit b) ∧
    (∀ raw v, f.read raw = .ok v →
      ∃ bs, f.kind.bytes v = some bs ∧ bs.length = n ∧ Hex.encode bs = raw.map toLower) ∧
    (∀ bs : Bytes, bs.length = n →
      ∃ v, f.read (Hex.encode bs) = .ok v ∧ f.kind.bytes v = some bs) ∧
    ∀ (r : Record) raw line, f.IsLine raw line → newline ∉ line →
      (∀ v, r.get f = none → f.read raw = .ok v →
        ∃ r' : Record, r.scan (line ++ [newline]) = ⟨r', none⟩ ∧ r'.get f = some v ∧
          ∀ g, g ≠ f → r'.get g = r.get g) ∧
      ((∀ r', r.apply f raw ≠ .ok r') →
        ∃ fault, r.scan (line ++ [newline]) = ⟨r, some fault⟩) := by
  refine ⟨fun raw => exists_read_iff_of_hex hf, ?_, fun bs => read_encode hf, ?_⟩
  · intro raw v hread
    obtain ⟨hlen, hdigits⟩ := (exists_read_iff_of_hex hf).mp ⟨v, hread⟩
    have hencode := Hex.encode_pairs (by omega) hdigits
    have hlength := congrArg List.length hencode
    rw [Hex.length_encode, List.length_map, hlen] at hlength
    exact ⟨_, bytes_of_read hf hread, by omega, hencode⟩
  · intro r raw line hline hnl
    constructor
    · intro v hfree hread
      refine ⟨r.set f v, ?_, r.get_set f v, fun g hg => r.get_set_of_ne hg v⟩
      rw [Record.scan_isLine_eq_ok_iff hline hnl]
      exact Record.apply_eq_ok_iff.mpr ⟨v, hread, hfree, rfl⟩
    · exact Record.scan_isLine_of_not_apply hline hnl

/-- An identifier with letters in both cases, and one whose last digit is missing. -/
theorem id_hex_reads_back :
    Field.kind .id = .hex 8 ∧
      (∃ v bs, Field.read .id (Utf8.encode "0123456789abCDEF") = .ok v ∧
        Kind.bytes _ v = some bs ∧ Hex.encode bs = Utf8.encode "0123456789abcdef" ∧
        ∃ r : Record, Record.empty.scan (Utf8.encode "id: 0123456789abCDEF" ++ [newline]) =
          ⟨r, none⟩ ∧ r.get .id = some v) ∧
      ∃ fault, Record.empty.scan (Utf8.encode "id: 0123456789abCDE" ++ [newline]) =
        ⟨Record.empty, some fault⟩ := by
  have hid : Field.kind .id = .hex 8 := rfl
  obtain ⟨hread, hspells, -, hlines⟩ := hex_reads_back hid
  obtain ⟨v, hv⟩ := (hread (Utf8.encode "0123456789abCDEF")).mpr (by decide +kernel)
  obtain ⟨bs, hbs, -, hencode⟩ := hspells _ v hv
  have hlower : (Utf8.encode "0123456789abCDEF").map toLower = Utf8.encode "0123456789abcdef" := by
    decide +kernel
  have hline : ∀ raw line, raw.head? = some 48 → line = Utf8.encode "id: " ++ raw →
      Field.IsLine .id raw line := by
    rintro raw _ hraw rfl
    refine ⟨[], [32], by simp, List.forall_mem_singleton.mpr rfl, ?_,
      congrArg (· ++ raw) (by decide +kernel)⟩
    intro b hb
    rw [hraw] at hb
    cases hb
    rfl
  have hshort : ∀ r', Record.empty.apply .id (Utf8.encode "0123456789abCDE") ≠ .ok r' := by
    intro r' happly
    cases happly
  have hwhole := hline (Utf8.encode "0123456789abCDEF") (Utf8.encode "id: 0123456789abCDEF")
    (by decide +kernel) (by decide +kernel)
  have hcut := hline (Utf8.encode "0123456789abCDE") (Utf8.encode "id: 0123456789abCDE")
    (by decide +kernel) (by decide +kernel)
  obtain ⟨r, hscan, hget, -⟩ := (hlines Record.empty _ _ hwhole (by decide +kernel)).1 v rfl hv
  exact ⟨hid, ⟨v, bs, hv, hbs, hencode.trans hlower, r, hscan, hget⟩,
    (hlines Record.empty _ _ hcut (by decide +kernel)).2 hshort⟩

end Field

end SigningKeys
