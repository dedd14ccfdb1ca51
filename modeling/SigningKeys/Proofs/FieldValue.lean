import SigningKeys.Field.Value
import SigningKeys.Proofs.Utf8

/-!
# Values of fields and their texts

A value of a field that was read is sound: bytes in hexadecimal digits are as many as the field
holds, and text stands on one line and does not start with a blank.  A sound value is written so
that it reads back, on a line of its own and behind a blank that does not get mixed up with it.

## Main definitions

* `Kind.Sound`: which values can stand in a container.

## Main results

* `Field.sound_of_read`: what is read is sound.
* `Field.read_render`: **a sound value reads back from its text.**
* `Kind.newline_not_mem_render`, `Kind.isBlank_head_render`: a sound value stays in its place.
-/

namespace SigningKeys

open Byte

/-! ### Sound values -/

/-- Which values of a kind can stand in a container. -/
def Kind.Sound : (k : Kind) → k.Value → Prop
  | .text, s => newline ∉ Utf8.encode s ∧ ∀ b, (Utf8.encode s).head? = some b → isBlank b = false
  | .unsigned, _ => True
  | .hex n, bs => bs.length = n

/-- Blanks are ASCII bytes, and none is the null byte. -/
theorem toNat_lt_of_isBlank {b : UInt8} (h : isBlank b = true) : b ≠ 0 ∧ b.toNat < 128 := by
  simp only [isBlank, Bool.or_eq_true, beq_iff_eq] at h
  rcases h with (((rfl | rfl) | rfl) | rfl) | rfl <;> decide

theorem Hex.length_of_decode : ∀ (raw : Bytes) {bs : Bytes}, Hex.decode raw = some bs →
    raw.length = 2 * bs.length
  | [], bs, h => by
    cases h
    rfl
  | [_], bs, h => by cases h
  | x :: y :: raw, bs, h => by
    rw [Hex.decode] at h
    cases hx : Hex.value x with
    | none => simp [hx] at h
    | some m =>
      cases hy : Hex.value y with
      | none => simp [hx, hy] at h
      | some n =>
        simp only [hx, hy, Option.map_eq_some_iff] at h
        obtain ⟨tail, htail, rfl⟩ := h
        have := Hex.length_of_decode raw htail
        simp only [List.length_cons, this]
        omega

namespace Field

theorem length_of_readHex {f : Field} {n : ℕ} {raw bs : Bytes} (h : readHex f n raw = .ok bs) :
    bs.length = n := by
  rw [readHex] at h
  split at h
  · next hlen =>
    cases hd : Hex.decode raw with
    | none => simp [hd] at h
    | some bs' =>
      simp only [hd, Except.ok.injEq] at h
      have := Hex.length_of_decode raw hd
      subst h
      omega
  · cases h

/-- The value that a text on one line stands for is sound, if the text starts with no blank. -/
theorem sound_of_read {f : Field} {raw : Bytes} {v : f.kind.Value} (hnl : newline ∉ raw)
    (hfirst : ∀ b, raw.head? = some b → isBlank b = false) (h : f.read raw = .ok v) :
    f.kind.Sound v := by
  have key : ∀ (k : Kind) (v : k.Value), f.readKind k raw = .ok v → k.Sound v := by
    intro k v h
    cases k with
    | text =>
      cases h
      constructor
      · intro hmem
        exact hnl (Utf8.mem_of_mem_encode_decodeLossy (by decide) (by decide) hmem)
      · -- a blank at the start of the text was at the start of the bytes
        intro b hb
        by_contra hblank
        rw [Bool.not_eq_false] at hblank
        obtain ⟨h0, hlt⟩ := toNat_lt_of_isBlank hblank
        have := hfirst b (Utf8.head?_of_head?_encode_decodeLossy h0 hlt hb)
        rw [this] at hblank
        cases hblank
    | unsigned => exact trivial
    | hex n => exact length_of_readHex h
  exact key f.kind v h

theorem readUnsigned_digits (f : Field) (n : UInt32) :
    f.readUnsigned (Decimal.digits n.toNat) = .ok n := by
  have hall : (Decimal.digits n.toNat).all isDigit = true :=
    List.all_eq_true.mpr fun b hb => Decimal.isDigit_of_mem_digits hb
  rw [readUnsigned, if_pos ⟨Decimal.digits_ne_nil _, hall⟩, Decimal.word_digits]

theorem readHex_encode (f : Field) {n : ℕ} {bs : Bytes} (h : bs.length = n) :
    f.readHex n (Hex.encode bs) = .ok bs := by
  rw [readHex, if_pos (h ▸ Hex.length_encode bs), Hex.decode_encode]

/-- A sound value reads back from its text. -/
theorem read_render {f : Field} {v : f.kind.Value} (h : f.kind.Sound v) :
    f.read (f.kind.render v) = .ok v := by
  have key : ∀ (k : Kind) (v : k.Value), k.Sound v → f.readKind k (k.render v) = .ok v := by
    intro k v h
    cases k with
    | text => exact congrArg Except.ok (Utf8.decodeLossy_encode v)
    | unsigned => exact f.readUnsigned_digits v
    | hex n => exact f.readHex_encode h
  exact key f.kind v h

end Field

/-! ### Texts of sound values -/

theorem Hex.isGraphic_of_mem_encode {bs : Bytes} {b : UInt8} (h : b ∈ Hex.encode bs) :
    isGraphic b = true := by
  have hdigit : ∀ n : Fin 16, isGraphic (Hex.digit n) = true := by decide
  induction bs with
  | nil => cases h
  | cons c bs ih =>
    have hc := c.toNat_lt
    rw [Hex.encode_cons, List.mem_cons, List.mem_cons] at h
    rcases h with rfl | rfl | h
    · exact hdigit ⟨c.toNat / 16, by omega⟩
    · exact hdigit ⟨c.toNat % 16, by omega⟩
    · exact ih h

namespace Kind

/-- The text of a value that is no free text has no blanks at all. -/
theorem isGraphic_of_mem_render {k : Kind} (hk : k ≠ .text) {v : k.Value} {b : UInt8}
    (h : b ∈ k.render v) : isGraphic b = true := by
  cases k with
  | text => exact absurd rfl hk
  | unsigned => exact isGraphic_of_isDigit (Decimal.isDigit_of_mem_digits h)
  | hex n => exact Hex.isGraphic_of_mem_encode h

theorem newline_not_mem_render {k : Kind} {v : k.Value} (h : k.Sound v) :
    newline ∉ k.render v := by
  by_cases hk : k = .text
  · subst hk
    exact h.1
  · intro hmem
    have := isGraphic_of_mem_render hk hmem
    cases this

theorem isBlank_head_render {k : Kind} {v : k.Value} (h : k.Sound v) {b : UInt8}
    (hb : (k.render v).head? = some b) : isBlank b = false := by
  by_cases hk : k = .text
  · subst hk
    exact h.2 b hb
  · exact isBlank_of_isGraphic (isGraphic_of_mem_render hk (List.mem_of_mem_head? hb))

theorem isDigit_of_mem_render {k : Kind} (hk : k = .unsigned) {v : k.Value} {b : UInt8}
    (h : b ∈ k.render v) : isDigit b = true := by
  subst hk
  exact Decimal.isDigit_of_mem_digits h

end Kind

end SigningKeys
