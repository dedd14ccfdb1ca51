import SigningKeys.Proofs.Reserve

/-!
# Sinks that fill up

A container is written in many pieces, and the sink may be full in the middle of any of them or
between two.  How a text is cut into pieces makes no difference: a sink gets as much of the text as
it has room for, nothing is left out before that and nothing is added behind it, and the writer
tells whether it was all.  A record without a shape is refused before anything is written.

## Main results

* `Sink.writeAll_eq_write`: several pieces are written as if they were one.
* `Record.write_of_shape`: a record that has a shape is written as its text.
* `Record.write_withRoom`: **what of a record gets into a sink with room for so many bytes, and what
  the writer says about it.**
-/

namespace SigningKeys

namespace Sink

/-- Of one piece, a sink with room for `n` bytes takes the first `n`. -/
theorem write_room (w : Bytes) (n : ℕ) (piece : Bytes) :
    (⟨w, some n⟩ : Sink).write piece =
      (⟨w ++ piece.take n, some (n - piece.length)⟩,
        if piece.length ≤ n then .ok () else .error .writeZero) := by
  by_cases hfits : piece.length ≤ n <;> simp [write, fits, take, hfits]

/-- Pieces that are written one after the other are written as if they were one. -/
theorem writeAll_eq_write (s : Sink) (pieces : List Bytes) :
    s.writeAll pieces = s.write pieces.flatten := by
  obtain ⟨w, room⟩ := s
  cases room with
  | none => exact writeAll_unlimited w pieces
  | some n => rw [writeAll_room, write_room]

end Sink

namespace Record

variable {r : Record}

/-- A record without a shape is refused, and nothing is written. -/
theorem write_of_shape_error {fault : ShapeFault} (h : r.shape 1 = .error fault) (s : Sink) :
    r.write s = (s, .error (.inconsistent fault)) := by
  rw [write_eq, h]

/-- A record that has a shape is written as its text. -/
theorem write_of_shape {shape : Shape} (h : r.shape 1 = .ok shape) (s : Sink) :
    r.write s = ((s.write r.text).1, (s.write r.text).2.mapError .io) := by
  rw [write_eq, h, Sink.writeAll_eq_write, text]

/-- The whole text of a record gets into a sink without limit. -/
theorem write_unlimited {shape : Shape} (h : r.shape 1 = .ok shape) :
    r.write .unlimited = (⟨r.text, none⟩, .ok ()) :=
  write_of_shape h .unlimited

/-- A sink with room for `n` bytes gets the first `n` bytes of the text, and whether these are all
is the result. -/
theorem write_room {shape : Shape} (h : r.shape 1 = .ok shape) (n : ℕ) :
    r.write (.withRoom (some n)) =
      (⟨r.text.take n, some (n - r.text.length)⟩,
        if r.text.length ≤ n then .ok () else .error (.io .writeZero)) := by
  rw [write_of_shape h, Sink.withRoom, Sink.write_room, List.nil_append]
  split <;> rfl

/-- A record without a shape is refused, and nothing of it is written however much room there is.
A sink without limit gets the text of any other record, and one with a limit as much of it as there
is room for: exactly its beginning.  The writer succeeds exactly if that is all of it, also if the
room is used up then, and says that the sink takes no more exactly if something is missing. -/
theorem write_withRoom (r : Record) (n : ℕ) :
    (∀ fault, r.shape 1 = .error fault →
      r.write (.withRoom (some n)) = (.withRoom (some n), .error (.inconsistent fault))) ∧
    ∀ shape, r.shape 1 = .ok shape →
      r.write .unlimited = (⟨r.text, none⟩, .ok ()) ∧
        (r.write (.withRoom (some n))).1.written = r.text.take (min n r.text.length) ∧
        ((r.write (.withRoom (some n))).2 = .ok () ↔ r.text.length ≤ n) ∧
        ((r.write (.withRoom (some n))).2 = .error (.io .writeZero) ↔ n < r.text.length) := by
  refine ⟨fun fault h => write_of_shape_error h _, fun shape h => ?_⟩
  refine ⟨write_unlimited h, ?_⟩
  rw [write_room h]
  by_cases hfits : r.text.length ≤ n
  · simp [hfits, List.take_of_length_le]
  · simp [hfits, Nat.min_eq_left (Nat.le_of_not_ge hfits), Nat.lt_of_not_ge hfits]

/-- A sink that is full in the middle of the first line, one that is full behind the last, and a
record without a version. -/
theorem zeros_write_withRoom :
    (zeros.write (.withRoom (some 5))).1.written = Utf8.encode "ASIGN" ∧
      (zeros.write (.withRoom (some 5))).2 = .error (.io .writeZero) ∧
      (zeros.write (.withRoom (some zeros.text.length))).2 = .ok () ∧
      empty.write (.withRoom (some 5)) =
        (.withRoom (some 5), .error (.inconsistent .missingVersion)) := by
  have hshape : zeros.shape 1 = .ok .plaintext := by decide
  obtain ⟨-, hwritten, -, hfull⟩ := (write_withRoom zeros 5).2 _ hshape
  obtain ⟨-, -, hok, -⟩ := (write_withRoom zeros zeros.text.length).2 _ hshape
  refine ⟨?_, ?_, ?_, (write_withRoom empty 5).1 _ rfl⟩
  · rw [hwritten]
    decide +kernel
  · rw [hfull]
    decide +kernel
  · exact hok.mpr (Nat.le_refl _)

end Record

end SigningKeys
