import SigningKeys.Bytes

/-!
# Base64 text

Three bytes are written as four symbols of six bits each.  A rest of one or two bytes is written as
two or three symbols and filled up with pads.  Reading is strict: the pads must be there, nothing
follows them, and the bits of a last symbol that belong to no byte must be zero.  So each byte
string has exactly one text.

## Main definitions

* `Base64.symbol`, `Base64.value`: the alphabet and its inverse.
* `Base64.encode`: the text of a byte string.
* `Base64.decode`: the byte string of a text, if it is one.
-/

namespace SigningKeys

namespace Base64

/-! ### The alphabet -/

/-- The symbol for a value below 64. -/
def symbol (n : Nat) : UInt8 :=
  if n < 26 then UInt8.ofNat (65 + n)
  else if n < 52 then UInt8.ofNat (71 + n)
  else if n < 62 then UInt8.ofNat (n - 4)
  else if n = 62 then 43
  else 47

/-- The value of a symbol. -/
def value (b : UInt8) : Option Nat :=
  if 65 ≤ b ∧ b ≤ 90 then some (b.toNat - 65)
  else if 97 ≤ b ∧ b ≤ 122 then some (b.toNat - 71)
  else if 48 ≤ b ∧ b ≤ 57 then some (b.toNat + 4)
  else if b = 43 then some 62
  else if b = 47 then some 63
  else none

/-- The byte that fills up the last four symbols. -/
def pad : UInt8 := 61

theorem value_symbol {n : Nat} (h : n < 64) : value (symbol n) = some n := by
  have all : ∀ n : Fin 64, value (symbol n) = some n.val := by decide
  exact all ⟨n, h⟩

theorem symbol_ne_pad {n : Nat} (h : n < 64) : symbol n ≠ pad := by
  have all : ∀ n : Fin 64, symbol n ≠ pad := by decide
  exact all ⟨n, h⟩

@[simp] theorem value_pad : value pad = none := rfl

/-! ### Writing -/

/-- The text of a byte string. -/
def encode : Bytes → Bytes
  | [] => []
  | [a] => [symbol (a.toNat / 4), symbol (a.toNat % 4 * 16), pad, pad]
  | [a, b] =>
    [symbol (a.toNat / 4), symbol (a.toNat % 4 * 16 + b.toNat / 16), symbol (b.toNat % 16 * 4), pad]
  | a :: b :: c :: rest =>
    symbol (a.toNat / 4) :: symbol (a.toNat % 4 * 16 + b.toNat / 16) ::
      symbol (b.toNat % 16 * 4 + c.toNat / 64) :: symbol (c.toNat % 64) :: encode rest

/-! ### Reading -/

/-- The three bytes of four symbols. -/
def triple (w x y z : UInt8) : Option Bytes :=
  match value w, value x, value y, value z with
  | some w, some x, some y, some z =>
    some [UInt8.ofNat (w * 4 + x / 16), UInt8.ofNat (x % 16 * 16 + y / 4),
      UInt8.ofNat (y % 4 * 64 + z)]
  | _, _, _, _ => none

/-- The two bytes of three symbols whose last two bits are zero. -/
def pair (w x y : UInt8) : Option Bytes :=
  match value w, value x, value y with
  | some w, some x, some y =>
    if y % 4 = 0 then
      some [UInt8.ofNat (w * 4 + x / 16), UInt8.ofNat (x % 16 * 16 + y / 4)]
    else none
  | _, _, _ => none

/-- The byte of two symbols whose last four bits are zero. -/
def single (w x : UInt8) : Option Bytes :=
  match value w, value x with
  | some w, some x => if x % 16 = 0 then some [UInt8.ofNat (w * 4 + x / 16)] else none
  | _, _ => none

/-- The bytes of the last four symbols, of which the last one or two may be pads. -/
def closing (w x y z : UInt8) : Option Bytes :=
  if z = pad then if y = pad then single w x else pair w x y else triple w x y z

/-- The byte string of a text; there is none if the text is not exactly as it would be written. -/
def decode : Bytes → Option Bytes
  | [] => some []
  | [w, x, y, z] => closing w x y z
  | w :: x :: y :: z :: rest =>
    match triple w x y z, decode rest with
    | some bs, some cs => some (bs ++ cs)
    | _, _ => none
  | _ => none

@[simp] theorem encode_nil : encode [] = [] := rfl

@[simp] theorem decode_nil : decode [] = some [] := rfl

end Base64

end SigningKeys
