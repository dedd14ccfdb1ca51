import Mathlib.Algebra.Group.Nat.Defs
import SigningKeys.Proofs.WellFormed

/-!
# What the texts of values stand for

Each kind of field admits certain texts and gives each of them a meaning: any bytes are free text,
a number is a string of digits that fits into 32 bits, and bytes are written as two hexadecimal
digits each.  A text that the kind of a field does not admit is never stored, and a text that it
admits is stored exactly if the field has no value yet.

## Main definitions

* `Hex.IsDigit`, `Hex.pairs`: hexadecimal digits in either case, and the bytes that they spell.
* `Kind.Admits`, `Kind.meaning`: the texts of a kind and what they stand for.

## Main results

* `Hex.decode_eq_some_iff`: digits in pairs are read, and nothing else.
* `Field.read_eq_ok_iff`: a text is read exactly if its kind admits it.
* `Record.apply_eq_ok_iff_admits`: **when the text of a value is stored, and as what.**
-/

namespace SigningKeys

open Byte

/-! ### Hexadecimal digits -/

namespace Hex

/-- The hexadecimal digits, with small or capital letters. -/
def IsDigit (b : UInt8) : Prop :=
  48 ≤ b ∧ b ≤ 57 ∨ 97 ≤ b ∧ b ≤ 102 ∨ 65 ≤ b ∧ b ≤ 70

/-- The value of a hexadecimal digit. -/
def digitValue (b : UInt8) : ℕ :=
  if b ≤ 57 then b.toNat - 48 else if b ≤ 70 then b.toNat - 55 else b.toNat - 87

/-- The bytes that a string of digits spells, two digits for each byte. -/
def pairs : Bytes → Bytes
  | h :: l :: rest => UInt8.ofNat (16 * digitValue h + digitValue l) :: pairs rest
  | _ => []

theorem value_eq_some_iff {b : UInt8} {n : ℕ} : value b = some n ↔ IsDigit b ∧ n = digitValue b := by
  simp only [value, IsDigit, digitValue, UInt8.le_iff_toNat_le, UInt8.reduceToNat]
  by_cases hdecimal : 48 ≤ b.toNat ∧ b.toNat ≤ 57
  · simp [hdecimal, eq_comm]
  by_cases hsmall : 97 ≤ b.toNat ∧ b.toNat ≤ 102
  · have h₁ : ¬ b.toNat ≤ 57 := by omega
    have h₂ : ¬ b.toNat ≤ 70 := by omega
    simp [hsmall, h₁, h₂, eq_comm]
  by_cases hcapital : 65 ≤ b.toNat ∧ b.toNat ≤ 70
  · have h₁ : ¬ b.toNat ≤ 57 := by omega
    simp [hsmall, hcapital, h₁, eq_comm]
  · simp [hdecimal, hsmall, hcapital]

/-- Digits that come in pairs are read, and nothing else. -/
theorem decode_eq_some_iff {raw bs : Bytes} :
    decode raw = some bs ↔
      raw.length % 2 = 0 ∧ (∀ b ∈ raw, IsDigit b) ∧ bs = pairs raw := by
  fun_induction decode raw generalizing bs with
  | case1 => simp [pairs, eq_comm]
  | case2 b => simp
  | case3 h l rest m n hlow hhigh ih =>
    obtain ⟨isDigit_low, rfl⟩ := value_eq_some_iff.mp hlow
    obtain ⟨isDigit_high, rfl⟩ := value_eq_some_iff.mp hhigh
    have hparity : (rest.length + 1 + 1) % 2 = rest.length % 2 := by omega
    simp only [Option.map_eq_some_iff, ih, List.length_cons, hparity, List.forall_mem_cons, pairs]
    constructor
    · rintro ⟨tail, ⟨hlen, hrest, rfl⟩, rfl⟩
      exact ⟨hlen, ⟨isDigit_high, isDigit_low, hrest⟩, rfl⟩
    · rintro ⟨hlen, ⟨-, -, hrest⟩, rfl⟩
      exact ⟨pairs rest, ⟨hlen, hrest, rfl⟩, rfl⟩
  | case4 h l rest hnone =>
    simp only [reduceCtorEq, List.forall_mem_cons, false_iff]
    rintro ⟨-, ⟨hhigh, hlow, -⟩, -⟩
    exact hnone _ _ (value_eq_some_iff.mpr ⟨hhigh, rfl⟩) (value_eq_some_iff.mpr ⟨hlow, rfl⟩)

end Hex

/-- A string of digits denotes a word exactly if its number fits into 32 bits. -/
theorem Decimal.word_eq_some_iff {ds : Bytes} {n : UInt32} :
    word ds = some n ↔ value ds < 2 ^ 32 ∧ n = UInt32.ofNat (value ds) := by
  have hlimit : wordLimit = 2 ^ 32 := rfl
  rw [word_eq, hlimit]
  by_cases hfits : value ds < 2 ^ 32
  · rw [if_pos hfits, Option.some.injEq, and_iff_right hfits, eq_comm]
  · rw [if_neg hfits]
    simp only [reduceCtorEq, false_iff]
    exact fun h => hfits h.1

/-! ### Texts of each kind -/

namespace Kind

/-- The texts of a kind: any bytes, a number that fits into 32 bits, or two hexadecimal digits for
each byte. -/
def Admits : Kind → Bytes → Prop
  | .text, _ => True
  | .unsigned, raw => raw ≠ [] ∧ (∀ b ∈ raw, isDigit b = true) ∧ Decimal.value raw < 2 ^ 32
  | .hex n, raw => raw.length = 2 * n ∧ ∀ b ∈ raw, Hex.IsDigit b

/-- What a text of a kind stands for. -/
def meaning : (k : Kind) → Bytes → k.Value
  | .text, raw => Utf8.decodeLossy raw
  | .unsigned, raw => UInt32.ofNat (Decimal.value raw)
  | .hex _, raw => Hex.pairs raw

end Kind

namespace Field

variable {f : Field} {raw : Bytes}

theorem readUnsigned_eq_ok_iff {n : UInt32} :
    f.readUnsigned raw = .ok n ↔
      Kind.unsigned.Admits raw ∧ n = UInt32.ofNat (Decimal.value raw) := by
  simp only [Kind.Admits, readUnsigned, List.all_eq_true]
  by_cases hdigits : raw ≠ [] ∧ ∀ b ∈ raw, isDigit b = true
  · rw [if_pos hdigits, ← and_assoc, and_iff_right hdigits, ← Decimal.word_eq_some_iff]
    cases Decimal.word raw <;> simp
  · rw [if_neg hdigits]
    simp only [reduceCtorEq, false_iff]
    rintro ⟨⟨hne, hall, -⟩, -⟩
    exact hdigits ⟨hne, hall⟩

theorem readHex_eq_ok_iff {n : ℕ} {bs : Bytes} :
    f.readHex n raw = .ok bs ↔ (Kind.hex n).Admits raw ∧ bs = Hex.pairs raw := by
  simp only [Kind.Admits, readHex]
  by_cases hlen : raw.length = 2 * n
  · have hdecode : ∀ bs, Hex.decode raw = some bs ↔
        (∀ b ∈ raw, Hex.IsDigit b) ∧ bs = Hex.pairs raw := by
      intro bs
      rw [Hex.decode_eq_some_iff, and_iff_right (by omega)]
    rw [if_pos hlen, and_iff_right hlen, ← hdecode]
    cases Hex.decode raw <;> simp
  · simp [hlen]

/-- A text is read exactly if the kind of the field admits it. -/
theorem read_eq_ok_iff {v : f.kind.Value} :
    f.read raw = .ok v ↔ f.kind.Admits raw ∧ v = f.kind.meaning raw := by
  have key : ∀ (k : Kind) (v : k.Value),
      f.readKind k raw = .ok v ↔ k.Admits raw ∧ v = k.meaning raw := by
    intro k v
    cases k with
    | text =>
      constructor
      · rintro ⟨⟩
        exact ⟨trivial, rfl⟩
      · rintro ⟨-, rfl⟩
        rfl
    | unsigned => exact readUnsigned_eq_ok_iff
    | hex n => exact readHex_eq_ok_iff
  exact key f.kind v

end Field

/-- A text is stored exactly if the field has no value yet and its kind admits the text; the value
is what the text stands for. -/
theorem Record.apply_eq_ok_iff_admits {r r' : Record} {f : Field} {raw : Bytes} :
    r.apply f raw = .ok r' ↔
      r.get f = none ∧ f.kind.Admits raw ∧ r' = r.set f (f.kind.meaning raw) := by
  rw [apply_eq_ok_iff]
  constructor
  · rintro ⟨v, hread, hget, rfl⟩
    obtain ⟨hadmits, rfl⟩ := Field.read_eq_ok_iff.mp hread
    exact ⟨hget, hadmits, rfl⟩
  · rintro ⟨hget, hadmits, rfl⟩
    exact ⟨_, Field.read_eq_ok_iff.mpr ⟨hadmits, rfl⟩, hget, rfl⟩

end SigningKeys
