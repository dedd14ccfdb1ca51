import Mathlib.Algebra.GroupWithZero.Nat
import SigningKeys.Proofs.RoundTrip

/-!
# Room for a container

The text of a container is written into a buffer that is made beforehand, so that no part of a
secret is left behind in a buffer that became too small.  Every value but the KDF has a longest
text, so the lines of a container have a longest form, and the KDF comes on top with the bytes of
its text.

## Main definitions

* `Field.lineWidth`: the longest line of a field, free text apart.
* `Record.kdfLength`: the bytes of the KDF.

## Main results

* `Sink.writeAll_room`: what gets into a sink with room for so many bytes, and whether it is all.
* `Record.length_lines_le`, `Record.length_text_le`: how long lines and containers are at most.
* `Record.encode_fits_reserve`: **a container never outgrows the room that is reserved for it.**
-/

namespace SigningKeys

open Byte

/-- Of the pieces that are written to a sink with room for `n` bytes, the first `n` bytes get there.
The pieces are written exactly if they have no more. -/
theorem Sink.writeAll_room (w : Bytes) (n : ℕ) (pieces : List Bytes) :
    (⟨w, some n⟩ : Sink).writeAll pieces =
      (⟨w ++ pieces.flatten.take n, some (n - pieces.flatten.length)⟩,
        if pieces.flatten.length ≤ n then .ok () else .error .writeZero) := by
  induction pieces generalizing w n with
  | nil => simp
  | cons piece pieces ih =>
    rw [List.flatten_cons, List.length_append]
    by_cases hpiece : piece.length ≤ n
    · have hwrite : (⟨w, some n⟩ : Sink).write piece =
          (⟨w ++ piece, some (n - piece.length)⟩, .ok ()) := by
        simp [write, fits, take, hpiece, List.take_of_length_le]
      have hrest : pieces.flatten.length ≤ n - piece.length ↔
          piece.length + pieces.flatten.length ≤ n := by
        omega
      simp only [writeAll, hwrite, ih, hrest]
      rw [List.take_append, List.take_of_length_le hpiece, List.append_assoc, Nat.sub_sub]
    · -- nothing of the later pieces is written, and there is no room left
      have hwrite : (⟨w, some n⟩ : Sink).write piece =
          (⟨w ++ piece.take n, some (n - piece.length)⟩, .error .writeZero) := by
        simp [write, fits, take, hpiece]
      have hall : ¬ piece.length + pieces.flatten.length ≤ n := by omega
      have hroom : n - (piece.length + pieces.flatten.length) = n - piece.length := by omega
      simp only [writeAll, hwrite]
      rw [if_neg hall, hroom, List.take_append_of_le_length (by omega)]

/-- The longest line of a field, with its newline and without any free text. -/
def Field.lineWidth (f : Field) : ℕ := f.label.length + f.kind.widest + 1

namespace Record

variable {r : Record}

/-- The bytes of the KDF; there are none if it is absent. -/
def kdfLength (r : Record) : ℕ := (r.kdf.map fun s => (Utf8.encode s).length).getD 0

/-- The line of a field is no longer than the longest one, and the KDF. -/
theorem length_body_le (hr : r.WellFormed) {f : Field} {v : f.kind.Value} (hv : r.get f = some v) :
    (f.body v).length + 1 ≤ f.lineWidth + [f].count .kdf * r.kdfLength := by
  by_cases hf : f = .kdf
  · subst hf
    have hkdf : r.kdf = some v := hv
    have hbody : (Field.body .kdf v).length = (Field.label .kdf).length + r.kdfLength := by
      rw [kdfLength, hkdf, Field.body, List.length_append]
      rfl
    rw [hbody, Field.lineWidth, List.count_singleton_self]
    omega
  · have hrender := Kind.length_render_le (hr f v hv) (Field.kind_ne_text hf)
    rw [Field.body, List.length_append, Field.lineWidth]
    omega

/-- The lines of some fields are no longer than the longest ones, and the KDF where it is among
them. -/
theorem length_lines_le (hr : r.WellFormed) (fields : List Field) :
    (r.lines fields).length ≤
      (fields.map Field.lineWidth).sum + fields.count .kdf * r.kdfLength := by
  induction fields with
  | nil => exact Nat.zero_le _
  | cons f fields ih =>
    have hcount : (f :: fields).count .kdf = [f].count .kdf + fields.count .kdf := by
      rw [← List.count_append, List.singleton_append]
    rw [hcount, Nat.add_mul, List.map_cons, List.sum_cons]
    cases hv : r.get f with
    | none =>
      rw [lines_cons_of_none hv]
      omega
    | some v =>
      have hbody := length_body_le hr hv
      rw [lines_cons_of_some hv, List.length_append, List.length_cons]
      omega

/-- A container has no more than 395 bytes, and those of the KDF. -/
theorem length_text_le (hr : r.WellFormed) : r.text.length ≤ 395 + r.kdfLength := by
  have hlines := length_lines_le hr Field.written
  have hwidth : (Field.written.map Field.lineWidth).sum = 379 := by decide
  have hcount : Field.written.count .kdf = 1 := by decide
  have hmagic : magic.length = 15 := by decide
  rw [hwidth, hcount, Nat.one_mul] at hlines
  rw [text_eq, List.length_append, List.length_cons, hmagic]
  omega

/-- The text of a record that a caller can come by has no more bytes than are reserved for it, which
are 1024 and those of the KDF.  So the whole text is written into a sink that has just this room. -/
theorem encode_fits_reserve {bytes : Bytes} (hr : r.Reachable) (h : r.encode = .ok bytes) :
    bytes.length ≤ r.reserve ∧
      r.reserve = 1024 + (r.kdf.map fun s => (Utf8.encode s).length).getD 0 ∧
      r.write (.withRoom (some r.reserve)) =
        (⟨bytes, some (r.reserve - bytes.length)⟩, .ok ()) := by
  obtain ⟨⟨shape, hshape⟩, rfl⟩ := encode_eq_ok_iff.mp h
  have hreserve : r.reserve = 1024 + r.kdfLength := rfl
  have htext := length_text_le hr.wellFormed
  have hfits : r.text.length ≤ r.reserve := by
    rw [hreserve]
    omega
  refine ⟨hfits, hreserve, ?_⟩
  have hwritten := Sink.writeAll_room [] r.reserve r.pieces
  rw [← text, if_pos hfits, List.take_of_length_le hfits] at hwritten
  rw [write_eq, hshape]
  simp only [Sink.withRoom, hwritten, List.nil_append]
  rfl

/-- A key with a value for every field: the most rounds, and a KDF with a character of three bytes. -/
def roundsMax : Record := { zeros with
  kdf := some "scrypt\uFFFD"
  rounds := some 4294967295
  salt := some (List.replicate 16 255)
  checksum := some (List.replicate 64 255) }

theorem roundsMax_fits_reserve :
    roundsMax.Reachable ∧ roundsMax.encode = .ok roundsMax.text ∧
      roundsMax.text.length ≤ 1033 ∧
      roundsMax.write (.withRoom (some 1033)) =
        (⟨roundsMax.text, some (1033 - roundsMax.text.length)⟩, .ok ()) := by
  have hsound : Kind.Sound .text "scrypt\uFFFD" := ⟨by decide, fun b hb => by cases hb; rfl⟩
  have hkdf := reachable_zeros.set (f := .kdf) hsound rfl
  have hrounds := hkdf.set (f := .rounds) (v := (4294967295 : UInt32)) trivial rfl
  have hsalt := hrounds.set (f := .salt) (v := List.replicate 16 (255 : UInt8)) rfl rfl
  have hr : roundsMax.Reachable :=
    hsalt.set (f := .checksum) (v := List.replicate 64 (255 : UInt8)) rfl rfl
  have hwritten : roundsMax.encode = .ok roundsMax.text :=
    encode_eq_ok_iff.mpr ⟨⟨.plaintext, by decide⟩, rfl⟩
  have hreserve : roundsMax.reserve = 1033 := by decide
  obtain ⟨hfits, -, hwrite⟩ := encode_fits_reserve hr hwritten
  rw [hreserve] at hfits hwrite
  exact ⟨hr, hwritten, hfits, hwrite⟩

end Record

end SigningKeys
