import SigningKeys.Bytes

/-!
# Hexadecimal text

A byte is written as two hexadecimal digits, the high half first.  Writing uses the small letters;
reading accepts either case.

## Main definitions

* `Hex.encode`: the digits of a byte string.
* `Hex.encodeInto`: the digits of a byte string in a buffer of a given length.
* `Hex.decode`: the byte string that digits spell, if they come in pairs.
* `Hex.text`: the digits as text.

## Main results

* `Hex.decode_encode`: what is written reads back.
* `Hex.length_encode`: a byte takes two digits.
-/

namespace SigningKeys

namespace Hex

/-- The digit of a half byte. -/
def digit (n : Nat) : UInt8 := if n < 10 then UInt8.ofNat (48 + n) else UInt8.ofNat (87 + n)

/-- The value of a digit, in either case. -/
def value (b : UInt8) : Option Nat :=
  if 48 ≤ b ∧ b ≤ 57 then some (b.toNat - 48)
  else if 97 ≤ b ∧ b ≤ 102 then some (b.toNat - 87)
  else if 65 ≤ b ∧ b ≤ 70 then some (b.toNat - 55)
  else none

/-- The digits of a byte string, with small letters. -/
def encode : Bytes → Bytes
  | [] => []
  | b :: rest => digit (b.toNat / 16) :: digit (b.toNat % 16) :: encode rest

/-- The digits of a byte string in a buffer of a given length, which they have to fill. -/
def encodeInto (length : Nat) (bs : Bytes) : Option Bytes :=
  if 2 * bs.length = length then some (encode bs) else none

/-- The byte string that digits spell; there is none for an odd number of digits or a byte that is
no digit. -/
def decode : Bytes → Option Bytes
  | [] => some []
  | [_] => none
  | h :: l :: rest =>
    match value h, value l with
    | some h, some l => (decode rest).map (UInt8.ofNat (16 * h + l) :: ·)
    | _, _ => none

@[simp] theorem encode_nil : encode [] = [] := rfl

@[simp] theorem encode_cons (b : UInt8) (rest : Bytes) :
    encode (b :: rest) = digit (b.toNat / 16) :: digit (b.toNat % 16) :: encode rest := rfl

@[simp] theorem decode_nil : decode [] = some [] := rfl

theorem value_digit {n : Nat} (h : n < 16) : value (digit n) = some n := by
  have : ∀ n : Fin 16, value (digit n) = some n.val := by decide
  exact this ⟨n, h⟩

@[simp] theorem length_encode (bs : Bytes) : (encode bs).length = 2 * bs.length := by
  induction bs with
  | nil => rfl
  | cons b rest ih => simp only [encode_cons, List.length_cons, ih]; omega

/-- What is written reads back. -/
theorem decode_encode (bs : Bytes) : decode (encode bs) = some bs := by
  induction bs with
  | nil => rfl
  | cons b rest ih =>
    have hb := b.toNat_lt
    simp only [encode_cons, decode, value_digit (show b.toNat / 16 < 16 by omega),
      value_digit (Nat.mod_lt b.toNat (show 0 < 16 by decide)), ih, Option.map_some]
    rw [Nat.div_add_mod, UInt8.ofNat_toNat]

/-- The digits of a byte string as text. -/
def text (bs : Bytes) : String :=
  String.ofList ((encode bs).map fun b => Char.ofNat b.toNat)

end Hex

end SigningKeys
