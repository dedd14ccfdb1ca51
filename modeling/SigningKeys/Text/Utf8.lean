import SigningKeys.Bytes

/-!
# Text as UTF-8

Text fields are stored as text and written as UTF-8.  Reading never fails: a byte sequence that is
not UTF-8 is read with one replacement character for every maximal part of it that begins a
character and cannot be continued, and for every byte that begins none.

The scanner keeps the character under way as a `Pending`.  Its bounds on the next byte rule out
overlong forms, surrogates and numbers past the last character: only the first continuation byte
can make a sequence ill-formed in these ways, so only its range depends on the leading byte.

## Main definitions

* `Utf8.encode`: the bytes of a text.
* `Utf8.lead`: what a byte means at the start of a character.
* `Utf8.decodeLossy`: the text of arbitrary bytes.
-/

namespace SigningKeys

namespace Utf8

/-- The UTF-8 bytes of a text. -/
def encode (s : String) : Bytes := s.toList.flatMap String.utf8EncodeChar

@[simp] theorem encode_ofList (cs : List Char) :
    encode (String.ofList cs) = cs.flatMap String.utf8EncodeChar := by
  simp only [encode, String.toList_ofList]

/-! ### Reading arbitrary bytes -/

/-- What stands for bytes that are no character. -/
def replacement : Char := Char.ofNat 0xFFFD

/-- A character under way: some of its bytes have been read. -/
structure Pending where
  /-- How many continuation bytes are due after the next one. -/
  after : Nat
  /-- The least byte that may come next. -/
  lo : UInt8
  /-- The greatest byte that may come next. -/
  hi : UInt8
  /-- The bits read so far. -/
  bits : Nat
  deriving DecidableEq, Repr

/-- What a byte means where a character starts. -/
inductive Lead where
  /-- It is an ASCII character. -/
  | ascii (c : Char)
  /-- It starts a character of several bytes. -/
  | opens (p : Pending)
  /-- It starts no character. -/
  | invalid
  deriving DecidableEq, Repr

/-- The meaning of a byte where a character starts. -/
def lead (b : UInt8) : Lead :=
  if b < 0x80 then .ascii (Char.ofNat b.toNat)
  else if b < 0xC2 then .invalid
  else if b < 0xE0 then .opens ⟨0, 0x80, 0xBF, b.toNat % 32⟩
  else if b = 0xE0 then .opens ⟨1, 0xA0, 0xBF, 0⟩
  else if b = 0xED then .opens ⟨1, 0x80, 0x9F, 13⟩
  else if b < 0xF0 then .opens ⟨1, 0x80, 0xBF, b.toNat % 16⟩
  else if b = 0xF0 then .opens ⟨2, 0x90, 0xBF, 0⟩
  else if b < 0xF4 then .opens ⟨2, 0x80, 0xBF, b.toNat % 8⟩
  else if b = 0xF4 then .opens ⟨2, 0x80, 0x8F, 4⟩
  else .invalid

/-- Whether the byte continues the character under way. -/
def Pending.accepts (p : Pending) (b : UInt8) : Bool := p.lo ≤ b && b ≤ p.hi

/-- The bits of the character under way with those of one more byte. -/
def Pending.extend (p : Pending) (b : UInt8) : Nat := p.bits * 64 + b.toNat % 64

/-- The characters of a byte string, given the character under way.  A byte that does not continue
that character closes it with a replacement and is then read as the start of the next. -/
def scan : Option Pending → Bytes → List Char
  | none, [] => []
  | some _, [] => [replacement]
  | none, b :: rest =>
    match lead b with
    | .ascii c => c :: scan none rest
    | .opens p => scan (some p) rest
    | .invalid => replacement :: scan none rest
  | some p, b :: rest =>
    if p.accepts b then
      match p.after with
      | 0 => Char.ofNat (p.extend b) :: scan none rest
      | n + 1 => scan (some ⟨n, 0x80, 0xBF, p.extend b⟩) rest
    else
      match lead b with
      | .ascii c => replacement :: c :: scan none rest
      | .opens q => replacement :: scan (some q) rest
      | .invalid => replacement :: replacement :: scan none rest

@[simp] theorem scan_none_nil : scan none [] = [] := rfl

@[simp] theorem scan_some_nil (p : Pending) : scan (some p) [] = [replacement] := rfl

/-- A byte that does not continue the character under way is read as if a new character started. -/
theorem scan_some_of_not_accepts {p : Pending} {b : UInt8} (h : p.accepts b = false)
    (rest : Bytes) : scan (some p) (b :: rest) = replacement :: scan none (b :: rest) := by
  simp only [scan, h, Bool.false_eq_true, if_false]
  cases lead b <;> rfl

/-- The text of a byte string, with replacement characters where it is not UTF-8. -/
def decodeLossy (bs : Bytes) : String := String.ofList (scan none bs)

end Utf8

end SigningKeys
