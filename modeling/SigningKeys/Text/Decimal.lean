import SigningKeys.Bytes

/-!
# Decimal numbers

Numbers are written with the fewest digits.  They are read with any number of leading zeros, and
have to fit into 32 bits.

## Main definitions

* `Decimal.digits`: the digits of a number, without leading zeros.
* `Decimal.value`: the number that a string of digits denotes.
* `Decimal.word`: the same as a 32-bit word, if it fits.

## Main results

* `Decimal.word_eq`: a string of digits denotes a word exactly if its number fits.
* `Decimal.value_digits`: the digits of a number denote it.
* `Decimal.word_digits`: what is written reads back.
-/

namespace SigningKeys

namespace Decimal

/-- The digits of a number, without leading zeros. -/
def digits (n : Nat) : Bytes :=
  if n < 10 then [UInt8.ofNat (48 + n)] else digits (n / 10) ++ [UInt8.ofNat (48 + n % 10)]
termination_by n

theorem digits_of_lt {n : Nat} (h : n < 10) : digits n = [UInt8.ofNat (48 + n)] := by
  rw [digits, if_pos h]

theorem digits_of_ge {n : Nat} (h : 10 ≤ n) :
    digits n = digits (n / 10) ++ [UInt8.ofNat (48 + n % 10)] := by
  rw [digits, if_neg (Nat.not_lt.2 h)]

/-- The number whose digits are those of `n` and one more. -/
def append (n : Nat) (d : UInt8) : Nat := 10 * n + (d.toNat - 48)

theorem le_append (n : Nat) (d : UInt8) : n ≤ append n d := by
  rw [append]
  omega

/-- The number that a string of digits denotes when it follows the digits of `n`. -/
def valueFrom (n : Nat) (ds : Bytes) : Nat := ds.foldl append n

/-- The number that a string of digits denotes. -/
def value (ds : Bytes) : Nat := valueFrom 0 ds

@[simp] theorem valueFrom_nil (n : Nat) : valueFrom n [] = n := rfl

theorem valueFrom_cons (n : Nat) (d : UInt8) (ds : Bytes) :
    valueFrom n (d :: ds) = valueFrom (append n d) ds := by
  rw [valueFrom, List.foldl_cons, valueFrom]

@[simp] theorem value_nil : value [] = 0 := rfl

/-- A digit after the others counts once, and the others ten times. -/
@[simp] theorem value_concat (ds : Bytes) (d : UInt8) :
    value (ds ++ [d]) = 10 * value ds + (d.toNat - 48) := by
  simp only [value, valueFrom, List.foldl_append, List.foldl_cons, List.foldl_nil, append]

/-- Further digits do not make a number smaller. -/
theorem le_valueFrom (n : Nat) (ds : Bytes) : n ≤ valueFrom n ds := by
  induction ds generalizing n with
  | nil => exact Nat.le_refl n
  | cons d ds ih =>
    rw [valueFrom_cons]
    exact Nat.le_trans (le_append n d) (ih (append n d))

/-- The least number that does not fit into 32 bits. -/
def wordLimit : Nat := 4294967296

/-- The 32-bit word that a string of digits denotes when it follows the digits of `n`, if it fits.
Digits behind a number that does not fit any more are not looked at. -/
def wordFrom (n : Nat) : Bytes → Option UInt32
  | [] => some (UInt32.ofNat n)
  | d :: ds => if append n d < wordLimit then wordFrom (append n d) ds else none

/-- The 32-bit word that a string of digits denotes, if it fits. -/
def word (ds : Bytes) : Option UInt32 := wordFrom 0 ds

theorem wordFrom_eq {n : Nat} (hn : n < wordLimit) (ds : Bytes) :
    wordFrom n ds =
      if valueFrom n ds < wordLimit then some (UInt32.ofNat (valueFrom n ds)) else none := by
  induction ds generalizing n with
  | nil => rw [wordFrom, valueFrom_nil, if_pos hn]
  | cons d ds ih =>
    rw [wordFrom, valueFrom_cons]
    by_cases h : append n d < wordLimit
    · rw [if_pos h, ih h]
    · have hle := le_valueFrom (append n d) ds
      rw [if_neg h, if_neg (by omega)]

/-- A string of digits denotes a word exactly if its number fits. -/
theorem word_eq (ds : Bytes) :
    word ds = if value ds < wordLimit then some (UInt32.ofNat (value ds)) else none :=
  wordFrom_eq (show 0 < wordLimit by decide) ds

theorem toNat_digit {n : Nat} (h : n < 10) : (UInt8.ofNat (48 + n)).toNat = 48 + n := by
  simp only [UInt8.toNat_ofNat']
  omega

/-- The digits of a number denote it. -/
theorem value_digits (n : Nat) : value (digits n) = n := by
  induction n using Nat.strongRecOn with
  | ind n ih =>
    by_cases h : n < 10
    · rw [digits_of_lt h, ← List.nil_append [_], value_concat, toNat_digit h]
      simp
    · rw [digits_of_ge (Nat.not_lt.1 h), value_concat, ih _ (by omega),
        toNat_digit (Nat.mod_lt n (by decide))]
      omega

/-- Every byte of a written number is a digit. -/
theorem isDigit_of_mem_digits {n : Nat} {b : UInt8} (hb : b ∈ digits n) :
    Byte.isDigit b = true := by
  have hdigit : ∀ k : Fin 10, Byte.isDigit (UInt8.ofNat (48 + k)) = true := by decide
  induction n using Nat.strongRecOn with
  | ind n ih =>
    by_cases h : n < 10
    · rw [digits_of_lt h, List.mem_singleton] at hb
      exact hb ▸ hdigit ⟨n, h⟩
    · rw [digits_of_ge (Nat.not_lt.1 h), List.mem_append, List.mem_singleton] at hb
      rcases hb with hb | rfl
      · exact ih _ (by omega) hb
      · exact hdigit ⟨n % 10, Nat.mod_lt n (by decide)⟩

theorem digits_ne_nil (n : Nat) : digits n ≠ [] := by
  rw [digits]
  split <;> simp

/-- What is written reads back. -/
theorem word_digits (w : UInt32) : word (digits w.toNat) = some w := by
  have h : w.toNat < wordLimit := w.toNat_lt
  rw [word_eq, value_digits, if_pos h, UInt32.ofNat_toNat]

/-- The number as text. -/
def text (n : Nat) : String :=
  String.ofList ((digits n).map fun b => Char.ofNat b.toNat)

end Decimal

end SigningKeys
