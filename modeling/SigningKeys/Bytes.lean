/-!
# Byte strings

Containers are byte strings.  The classes of bytes that the format distinguishes are ASCII
classes: a byte outside ASCII is neither blank, nor a digit, nor graphic.

## Main definitions

* `Bytes`: byte strings.
* `Byte.isBlank`, `Byte.isDigit`, `Byte.isGraphic`: the classes that the format distinguishes.
* `Bytes.order`: the lexicographic order, in which a proper initial part comes first.
* `Bytes.xor`: two byte strings combined byte for byte.
* `Bytes.trimBlanks`: a byte string without the blanks at its end.

## Main results

* `Bytes.append_cons_inj`: the first occurrence of a byte tells what stands on either side of it.
-/

namespace SigningKeys

/-- A byte string. -/
abbrev Bytes := List UInt8

/-! ### Classes of bytes -/

namespace Byte

/-- The byte that ends a line. -/
def newline : UInt8 := 10

/-- The byte that may stand before the end of a line. -/
def carriageReturn : UInt8 := 13

/-- The byte between a name and its value. -/
def colon : UInt8 := 58

/-- Space, tab, line feed, form feed and carriage return. -/
def isBlank (b : UInt8) : Bool :=
  b == 32 || b == 9 || b == 10 || b == 12 || b == 13

/-- The digits `0` to `9`. -/
def isDigit (b : UInt8) : Bool := 48 ≤ b && b ≤ 57

/-- The visible ASCII characters, the space not among them. -/
def isGraphic (b : UInt8) : Bool := 33 ≤ b && b ≤ 126

@[simp] theorem isBlank_newline : isBlank newline = true := rfl

@[simp] theorem isBlank_carriageReturn : isBlank carriageReturn = true := rfl

@[simp] theorem isBlank_colon : isBlank colon = false := rfl

@[simp] theorem isDigit_newline : isDigit newline = false := rfl

@[simp] theorem isGraphic_colon : isGraphic colon = true := rfl

/-- A graphic byte is no blank. -/
theorem isBlank_of_isGraphic {b : UInt8} (h : isGraphic b = true) : isBlank b = false := by
  simp only [isGraphic, Bool.and_eq_true, decide_eq_true_eq, UInt8.le_iff_toNat_le] at h
  simp only [isBlank, Bool.or_eq_false_iff, beq_eq_false_iff_ne, ne_eq]
  refine ⟨⟨⟨⟨?_, ?_⟩, ?_⟩, ?_⟩, ?_⟩ <;> rintro rfl <;> simp at h

/-- A digit is graphic. -/
theorem isGraphic_of_isDigit {b : UInt8} (h : isDigit b = true) : isGraphic b = true := by
  simp only [isDigit, isGraphic, Bool.and_eq_true, decide_eq_true_eq, UInt8.le_iff_toNat_le,
    UInt8.reduceToNat] at h ⊢
  omega

end Byte

/-! ### Operations on byte strings -/

namespace Bytes

/-- The lexicographic order of byte strings; a proper initial part comes first. -/
def order : Bytes → Bytes → Ordering
  | [], [] => .eq
  | [], _ :: _ => .lt
  | _ :: _, [] => .gt
  | a :: as, b :: bs => if a < b then .lt else if b < a then .gt else order as bs

@[simp] theorem order_nil_nil : order [] [] = .eq := rfl

@[simp] theorem order_nil_cons (b : UInt8) (bs : Bytes) : order [] (b :: bs) = .lt := rfl

@[simp] theorem order_cons_nil (a : UInt8) (as : Bytes) : order (a :: as) [] = .gt := rfl

theorem order_cons_cons (a b : UInt8) (as bs : Bytes) :
    order (a :: as) (b :: bs) =
      if a < b then .lt else if b < a then .gt else order as bs := rfl

/-- Two byte strings combined byte for byte, as far as both reach. -/
def xor (as bs : Bytes) : Bytes := List.zipWith (· ^^^ ·) as bs

@[simp] theorem xor_nil (bs : Bytes) : xor [] bs = [] := rfl

@[simp] theorem xor_cons_cons (a b : UInt8) (as bs : Bytes) :
    xor (a :: as) (b :: bs) = (a ^^^ b) :: xor as bs := rfl

/-- Byte strings of one length keep it when they are combined. -/
theorem length_xor {as bs : Bytes} (h : as.length = bs.length) :
    (xor as bs).length = as.length := by
  simp [xor, List.length_zipWith, h]

/-- Combining with one byte string twice changes nothing. -/
theorem xor_xor_cancel {as bs : Bytes} (h : as.length = bs.length) :
    xor (xor as bs) bs = as := by
  induction as generalizing bs with
  | nil => rfl
  | cons a as ih =>
    cases bs with
    | nil => simp at h
    | cons b bs =>
      simp only [xor_cons_cons, ih (Nat.succ.inj h), UInt8.xor_assoc, UInt8.xor_self,
        UInt8.xor_zero]

/-- The byte string without the blanks at its end. -/
def trimBlanks (bs : Bytes) : Bytes := (bs.reverse.dropWhile Byte.isBlank).reverse

/-- The byte string without the byte `b` at its end, if it ends in `b`. -/
def dropFinal (b : UInt8) (bs : Bytes) : Bytes :=
  if bs.getLast? = some b then bs.dropLast else bs

/-! ### Runs of bytes -/

/-- A run of bytes of a class ends in front of a byte that is not of the class. -/
theorem takeWhile_run {p : UInt8 → Bool} {run : Bytes} {b : UInt8}
    (hrun : ∀ a ∈ run, p a = true) (hb : p b = false) (rest : Bytes) :
    (run ++ b :: rest).takeWhile p = run := by
  rw [List.takeWhile_append_of_pos hrun, List.takeWhile_cons, hb]
  exact List.append_nil run

theorem dropWhile_run {p : UInt8 → Bool} {run : Bytes} {b : UInt8}
    (hrun : ∀ a ∈ run, p a = true) (hb : p b = false) (rest : Bytes) :
    (run ++ b :: rest).dropWhile p = b :: rest := by
  rw [List.dropWhile_append_of_pos hrun, List.dropWhile_cons, hb]
  rfl

/-- What stands in front of the first `b` and what stands behind it are told apart by it. -/
theorem append_cons_inj {b : UInt8} {as as' bs bs' : Bytes} (has : b ∉ as) (has' : b ∉ as')
    (h : as ++ b :: bs = as' ++ b :: bs') : as = as' ∧ bs = bs' := by
  have hrun : ∀ {as : Bytes}, b ∉ as → ∀ a ∈ as, (a != b) = true := by
    intro as has a ha
    rw [bne_iff_ne]
    rintro rfl
    exact has ha
  have hb : (b != b) = false := bne_self_eq_false b
  have hfront := congrArg (List.takeWhile (· != b)) h
  rw [takeWhile_run (hrun has) hb, takeWhile_run (hrun has') hb] at hfront
  subst hfront
  exact ⟨rfl, (List.cons.inj (List.append_cancel_left h)).2⟩

end Bytes

end SigningKeys
