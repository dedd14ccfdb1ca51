import SigningKeys.Proofs.WrittenLines

/-!
# Containers written and read

What a record is written as is read back in full, unless the name of its KDF stands in the way.  A
name that ends in a carriage return loses it, since it looks like a part of the end of the line; a
name of more than 1018 bytes makes a line that no reader accepts.

## Main definitions

* `Layout.kdfRoom`: the longest name of a KDF that leaves its line short enough.
* `Record.Faithful`: records that are read back as they are written.

## Main results

* `Record.write_eq`: a record is written in its pieces, whatever room the sink has.
* `Record.encode_eq_ok_iff`: which records are written, and how.
* `Record.parse_text`, `Record.parse_text_long`: what is read from a container that was written.
* `Record.reads_back_iff`: **a record that is written reads back exactly if its KDF allows it.**
-/

namespace SigningKeys

open Byte

/-- The longest name of a KDF that leaves its line short enough to be read. -/
def Layout.kdfRoom : ℕ := 1018

/-! ### Writing -/

/-- A sink without limit takes everything. -/
theorem Sink.writeAll_unlimited (w : Bytes) : ∀ pieces : List Bytes,
    (⟨w, none⟩ : Sink).writeAll pieces = (⟨w ++ pieces.flatten, none⟩, .ok ()) := by
  intro pieces
  induction pieces generalizing w with
  | nil => simp
  | cons piece pieces ih =>
    have hwrite : (⟨w, none⟩ : Sink).write piece = (⟨w ++ piece, none⟩, .ok ()) := rfl
    simp only [writeAll, hwrite]
    rw [ih, List.flatten_cons, List.append_assoc]

/-- Pieces are written one after the other, up to the first that does not fit. -/
theorem Sink.writeAll_append (s : Sink) (ps qs : List Bytes) :
    s.writeAll (ps ++ qs) =
      match s.writeAll ps with
      | (s', .ok ()) => s'.writeAll qs
      | (s', .error fault) => (s', .error fault) := by
  induction ps generalizing s with
  | nil => rfl
  | cons piece ps ih =>
    rw [List.cons_append, writeAll, writeAll]
    rcases s.write piece with ⟨s', _ | _⟩
    · rfl
    · exact ih s'

/-- The digits of a secret always fill the buffer that is made for them. -/
theorem secretDigits_eq (secret : Bytes) : secretDigits secret = .ok (Hex.encode secret) := by
  rw [secretDigits, Hex.encodeInto, if_pos rfl]

theorem Field.lineValue_eq (f : Field) (v : f.kind.Value) :
    f.lineValue v = .ok (f.kind.render v) := by
  cases f with
  | data => exact secretDigits_eq v
  | _ => rfl

namespace Record

theorem writeField_eq (r : Record) (f : Field) (s : Sink) :
    r.writeField f s =
      ((s.writeAll (r.fieldPieces f)).1, (s.writeAll (r.fieldPieces f)).2.mapError .io) := by
  rw [writeField, fieldPieces]
  cases r.get f with
  | none => rfl
  | some v =>
    simp only [f.lineValue_eq v]

theorem writeFields_eq (r : Record) (s : Sink) (fields : List Field) :
    r.writeFields s fields =
      ((s.writeAll (fields.flatMap r.fieldPieces)).1,
        (s.writeAll (fields.flatMap r.fieldPieces)).2.mapError .io) := by
  induction fields generalizing s with
  | nil => rfl
  | cons f fields ih =>
    rw [writeFields, writeField_eq, List.flatMap_cons, Sink.writeAll_append]
    rcases s.writeAll (r.fieldPieces f) with ⟨s', _ | _⟩
    · rfl
    · exact ih s'

/-- A record that has a shape is written in its pieces, one after the other. -/
theorem write_eq (r : Record) (s : Sink) :
    r.write s =
      match r.shape 1 with
      | .error fault => (s, .error (.inconsistent fault))
      | .ok _ => ((s.writeAll r.pieces).1, (s.writeAll r.pieces).2.mapError .io) := by
  rw [write]
  cases r.shape 1 with
  | error fault => rfl
  | ok shape =>
    simp only [pieces, Sink.writeAll_append]
    rcases s.writeAll [Utf8.encode Layout.privateMagic, [newline]] with ⟨s', _ | _⟩
    · rfl
    · exact writeFields_eq r s' Field.written

/-- A record is written exactly if it has a shape. -/
theorem encode_eq_ok_iff {r : Record} {bytes : Bytes} :
    r.encode = .ok bytes ↔ (∃ shape, r.shape 1 = .ok shape) ∧ bytes = r.text := by
  rw [encode, write_eq]
  cases h : r.shape 1 with
  | error fault => simp [Except.map]
  | ok shape =>
    have hwrite := Sink.writeAll_unlimited [] r.pieces
    simp only [Sink.unlimited, Sink.withRoom, hwrite, Except.mapError, Except.map, List.nil_append]
    simp [text, eq_comm]

/-! ### Reading what was written -/

theorem length_body_kdf (s : String) :
    (Field.body .kdf s).length = 5 + (Utf8.encode s).length := by
  have hlabel : Field.label .kdf = [107, 100, 102, 58, 32] := by decide
  show (Field.label .kdf ++ Utf8.encode s).length = _
  rw [hlabel, List.length_append]
  rfl

theorem length_body_lt {r : Record} (hwf : r.WellFormed)
    (hroom : ∀ s, r.kdf = some s → (Utf8.encode s).length ≤ Layout.kdfRoom) {f : Field}
    {v : f.kind.Value} (hv : r.get f = some v) : (f.body v).length < Layout.lineLimit := by
  by_cases hf : f = .kdf
  · subst hf
    have hs := hroom v hv
    rw [length_body_kdf v]
    simp only [Layout.kdfRoom, Layout.lineLimit] at hs ⊢
    omega
  · exact Field.length_body_lt hf (hwf f v hv)

/-- A container is read back but for a carriage return at the end of the KDF. -/
theorem parse_text {r : Record} (hwf : r.WellFormed)
    (hroom : ∀ s, r.kdf = some s → (Utf8.encode s).length ≤ Layout.kdfRoom) :
    (parse (.ofBytes r.text)).result = .ok r.reread := by
  have hlines := readLines_lines hwf .closed [] Field.written empty (by decide)
    (fun f _ => get_empty f) fun f _ v => length_body_lt hwf hroom
  rw [List.append_nil, fill_empty_written] at hlines
  rw [text_eq, parse_magic, Outcome.result_ofExcept, Stream.ofBytes, hlines]
  exact readLines_nil r.reread

/-- The line of a KDF with too long a name is refused. -/
theorem parse_text_long {r : Record} (hwf : r.WellFormed) {s : String} (hs : r.kdf = some s)
    (hlong : Layout.kdfRoom < (Utf8.encode s).length) :
    (parse (.ofBytes r.text)).result = .error (.format .overlongLine) := by
  have hwritten : Field.written =
      [.version, .data, .id] ++ Field.kdf :: [.rounds, .salt, .checksum] := rfl
  have hlen : ∀ f ∈ [Field.version, .data, .id], ∀ v, r.get f = some v →
      (f.body v).length < Layout.lineLimit := by
    intro f hf v hv
    refine Field.length_body_lt ?_ (hwf f v hv)
    rintro rfl
    simp at hf
  have hbody : Layout.lineLimit ≤ (Field.body .kdf s).length := by
    rw [length_body_kdf]
    simp only [Layout.kdfRoom, Layout.lineLimit] at hlong ⊢
    omega
  have hnl : newline ∉ Field.body .kdf s := Field.newline_not_mem_body (f := .kdf) (hwf .kdf s hs)
  rw [text_eq, parse_magic, Outcome.result_ofExcept, Stream.ofBytes, hwritten, lines_append,
    readLines_lines hwf .closed _ _ empty (by decide) (fun f _ => get_empty f) hlen,
    lines_cons_of_some (f := .kdf) hs]
  -- the newline of the line of the KDF stands behind all bytes that are taken
  apply readLines_long
  · intro hmem
    rw [List.take_append_of_le_length hbody] at hmem
    exact hnl (List.mem_of_mem_take hmem)
  · rw [List.length_append]
    exact Nat.le_add_right_of_le hbody

theorem reread_eq_self_iff {r : Record} :
    r.reread = r ↔ ∀ s, r.kdf = some s → s.toList.getLast? ≠ some '\r' := by
  obtain ⟨version, kdf, rounds, salt, id, data, checksum⟩ := r
  cases kdf with
  | none => simp [reread]
  | some s => simp [reread, dropReturn_eq_self_iff]

/-- A record that is read back as it is written. -/
structure Faithful (r : Record) : Prop where
  /-- All values are sound. -/
  wellFormed : r.WellFormed
  /-- The line of the KDF is short enough. -/
  room : ∀ s, r.kdf = some s → (Utf8.encode s).length ≤ Layout.kdfRoom
  /-- The KDF does not end in a carriage return. -/
  reread : r.reread = r

theorem Faithful.parse_text {r : Record} (h : r.Faithful) :
    (parse (.ofBytes r.text)).result = .ok r := by
  rw [Record.parse_text h.wellFormed h.room, h.reread]

theorem faithful_plain {secret id : Bytes} {r : Record} (h : Record.plain secret id = .ok r) :
    r.Faithful := by
  have hwf := wellFormed_plain h
  obtain ⟨-, -, rfl⟩ := plain_eq_ok_iff.mp h
  refine ⟨hwf, ?_, rfl⟩
  intro s hs
  cases hs

theorem faithful_wrap {secret id password : Bytes} {rounds : UInt32} {entropy : Entropy}
    {r : Record} (h : (wrap secret id password rounds entropy).result = .ok r) : r.Faithful := by
  have hwf := wellFormed_wrap h
  obtain ⟨-, -, -, -, rfl⟩ := wrap_eq_ok_iff.mp h
  refine ⟨hwf, ?_, reread_eq_self_iff.mpr ?_⟩
  · intro s hs
    cases hs
    decide
  · intro s hs
    cases hs
    decide

/-- A record that is written reads back, with the same values and of the same shape whatever is
required of its rounds, exactly if the name of its KDF is short enough and does not end in a
carriage return. -/
theorem reads_back_iff {r : Record} {bytes : Bytes} (hr : r.Reachable)
    (h : r.encode = .ok bytes) :
    (∃ r', (parse (.ofBytes bytes)).result = .ok r' ∧ r' = r ∧
        ∀ minRounds, r'.shape minRounds = r.shape minRounds) ↔
      ∀ s, r.kdf = some s →
        (Utf8.encode s).length ≤ 1018 ∧ s.toList.getLast? ≠ some '\r' := by
  obtain ⟨-, rfl⟩ := encode_eq_ok_iff.mp h
  constructor
  · rintro ⟨r', hparse, rfl, -⟩ s hs
    -- a line that is too long is not read at all, another one without the carriage return
    by_cases hlong : Layout.kdfRoom < (Utf8.encode s).length
    · rw [parse_text_long hr.wellFormed hs hlong] at hparse
      cases hparse
    · have hroom : ∀ s', r'.kdf = some s' → (Utf8.encode s').length ≤ Layout.kdfRoom := by
        intro s' hs'
        rw [hs, Option.some.injEq] at hs'
        exact hs' ▸ Nat.not_lt.mp hlong
      rw [parse_text hr.wellFormed hroom, Except.ok.injEq] at hparse
      exact ⟨Nat.not_lt.mp hlong, reread_eq_self_iff.mp hparse s hs⟩
  · intro hkdf
    have hparse := parse_text hr.wellFormed fun s hs => (hkdf s hs).1
    rw [reread_eq_self_iff.mpr fun s hs => (hkdf s hs).2] at hparse
    exact ⟨r, hparse, rfl, fun _ => rfl⟩

/-- The record of a secret and an identifier of zeros, as they are. -/
def zeros : Record := { empty with
  version := some 1, id := some (List.replicate 8 0), data := some (List.replicate 64 0) }

theorem reachable_zeros : zeros.Reachable := by
  have hplain : Record.plain (List.replicate 64 0) (List.replicate 8 0) = .ok zeros := rfl
  exact .plain hplain

theorem encode_zeros : zeros.encode = .ok zeros.text :=
  encode_eq_ok_iff.mpr ⟨⟨.plaintext, rfl⟩, rfl⟩

theorem zeros_reads_back :
    zeros.Reachable ∧ zeros.encode = .ok zeros.text ∧
      ∃ r', (parse (.ofBytes zeros.text)).result = .ok r' ∧ r' = zeros ∧
        ∀ minRounds, r'.shape minRounds = zeros.shape minRounds := by
  refine ⟨reachable_zeros, encode_zeros, (reads_back_iff reachable_zeros encode_zeros).mpr ?_⟩
  intro s hs
  cases hs

/-- A key without password whose KDF is the known name and a carriage return is written, and reads
back as a record that is no key at all. -/
theorem exists_written_not_read_back :
    ∃ r r' : Record, ∃ bytes, r.Reachable ∧ r.encode = .ok bytes ∧
      (parse (.ofBytes bytes)).result = .ok r' ∧
      r.kdf = some "pbkdf2-sha256\r" ∧ r'.kdf = some "pbkdf2-sha256" ∧
      r.shape 1 = .ok .plaintext ∧ r'.shape 1 = .error (.tooFewRounds 0 1) := by
  have hsound : Kind.Sound .text "pbkdf2-sha256\r" := by
    refine ⟨by decide, ?_⟩
    intro b hb
    have hhead : (Utf8.encode "pbkdf2-sha256\r").head? = some 112 := by decide
    rw [hhead, Option.some.injEq] at hb
    exact hb ▸ rfl
  have hr : (zeros.set .kdf "pbkdf2-sha256\r").Reachable := by
    have hscan := reachable_zeros.scan (Field.body .kdf "pbkdf2-sha256\r" ++ [newline])
    rwa [zeros.scan_body (f := .kdf) hsound rfl] at hscan
  have hparse := parse_text hr.wellFormed fun s hs => by cases hs; decide
  exact ⟨_, _, _, hr, encode_eq_ok_iff.mpr ⟨⟨.plaintext, by decide⟩, rfl⟩, hparse, rfl, by decide,
    by decide, by decide⟩

end Record

end SigningKeys
