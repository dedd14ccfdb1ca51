import SigningKeys.Proofs.LineGrammar
import SigningKeys.Proofs.Lines

/-!
# Values are written once

A step of the machine leaves the record as it is or gives one field the value that it lacks.  So
whatever is scanned into a record, in one buffer or in many, with or without faults, a value that
the record has once is there for good.  A second line of a field is therefore at fault wherever it
stands, and a container with two lines of one field is not read.

## Main definitions

* `Record.Extends`: a record with all values of another, and perhaps more.
* `Record.after`, `Record.FillsAt`: the record after some of the buffers that are scanned into it,
  and the buffer that gives a field its value.
* `Field.Names`: the lines that name a field.
* `Stream.NamesTwice`: the streams with two lines that name the same field.

## Main results

* `Machine.extends_of_step`, `Machine.extends_run`: a step takes no value away and changes none, and
  neither does a run.
* `Record.extends_scanAll`: nor do any number of buffers.
* `Record.readLines_format_of_get`: a line of a field that has a value is at fault, wherever it
  stands.
* `Record.written_once`: **a field gets a value at most once and keeps it, and a container that
  names a field twice is refused.**
-/

namespace SigningKeys

open Byte

/-! ### Records with more values -/

/-- A record has all values of another. -/
def Record.Extends (r' r : Record) : Prop :=
  ∀ (f : Field) (v : f.kind.Value), r.get f = some v → r'.get f = some v

namespace Record.Extends

variable {r r' r'' : Record}

theorem refl (r : Record) : r.Extends r := fun _ _ h => h

theorem trans (h' : r''.Extends r') (h : r'.Extends r) : r''.Extends r :=
  fun f v hv => h' f v (h f v hv)

/-- Storing a value takes none away and changes none. -/
theorem of_apply {f : Field} {raw : Bytes} (h : r.apply f raw = .ok r') : r'.Extends r := by
  obtain ⟨hfree, -, rfl⟩ := apply_eq_ok_iff_admits.mp h
  intro g v hv
  have hne : g ≠ f := by
    rintro rfl
    rw [hfree] at hv
    cases hv
  rw [get_set_of_ne r hne, hv]

end Record.Extends

/-! ### Steps and runs -/

namespace Machine

/-- A step leaves the record as it is or stores one value in it. -/
theorem record_of_step {m m' : Machine} (h : m.step = some m') :
    m'.record = m.record ∨ ∃ f raw, m.record.apply f raw = .ok m'.record := by
  obtain ⟨phase, rest, record⟩ := m
  cases rest with
  | nil => cases phase <;> cases h
  | cons b rest =>
    cases phase with
    | failed fault => cases h
    | blank =>
      cases h
      left
      simp only [stepBlank]
      split <;> rfl
    | name token =>
      cases h
      left
      simp only [stepName]
      split
      · split
        · rfl
        · split <;> rfl
      · split <;> rfl
    | colon f =>
      cases h
      left
      simp only [stepColon]
      split <;> rfl
    | gap f =>
      cases h
      left
      simp only [stepGap]
      split <;> rfl
    | value f token =>
      cases h
      simp only [stepValue]
      split
      · cases happly : record.apply f token.reverse with
        | ok r => exact .inr ⟨f, token.reverse, happly⟩
        | error fault => exact .inl rfl
      · left
        split <;> rfl

/-- A step takes no value away and changes none. -/
theorem extends_of_step {m m' : Machine} (h : m.step = some m') : m'.record.Extends m.record := by
  rcases record_of_step h with hsame | ⟨f, raw, happly⟩
  · rw [hsame]
    exact .refl m.record
  · exact .of_apply happly

/-- A run takes no value away and changes none. -/
theorem extends_run (m : Machine) : m.run.record.Extends m.record := by
  fun_induction run m with
  | case1 m hstep => exact .refl m.record
  | case2 m m' hstep ih => exact ih.trans (extends_of_step hstep)

/-- The end of the lines may store one more value. -/
theorem extends_outcome (m : Machine) : m.outcome.record.Extends m.record := by
  obtain ⟨phase, rest, record⟩ := m
  cases phase with
  | gap f =>
    simp only [outcome]
    cases happly : record.apply f [] with
    | ok r => exact .of_apply happly
    | error fault => exact .refl record
  | _ => exact .refl record

end Machine

/-! ### Lines that name a field -/

/-- A line is one of a field when its end has been taken off, whatever its value is. -/
def Field.Names (f : Field) (line : Bytes) : Prop := ∃ value, f.IsLine value (lineBody line)

/-- A stream has two whole lines that name the same field. -/
def Stream.NamesTwice (s : Stream) (f : Field) : Prop :=
  ∃ before line between line' later,
    Bytes.lines s.bytes = before ++ line :: (between ++ line' :: later) ∧
      f.Names line ∧ f.Names line' ∧ s.ending.Completes line'

/-- The first line of a container names no field. -/
theorem Field.Names.ne_magic {f : Field} {line : Bytes} (h : f.Names line) :
    lineBody line ≠ Utf8.encode Layout.privateMagic := by
  obtain ⟨value, before, between, hbefore, -, -, hline⟩ := h
  intro hmagic
  rw [hline] at hmagic
  -- it begins with a capital letter, and the lines of fields with blanks or small letters
  have hhead := congrArg List.head? hmagic
  cases before with
  | nil => cases f <;> exact absurd hhead (by simp [Field.nameBytes]; decide)
  | cons b before =>
    have hfirst : (Utf8.encode Layout.privateMagic).head? = some 65 := by decide
    rw [hfirst] at hhead
    cases hhead
    cases hbefore 65 List.mem_cons_self

namespace Record

variable {r r' : Record} {f : Field} {line : Bytes}

theorem extends_scan (r : Record) (lines : Bytes) : (r.scan lines).record.Extends r :=
  (Machine.extends_outcome _).trans (Machine.extends_run (Machine.start r lines))

/-! ### Buffer after buffer -/

theorem extends_scanAll (r : Record) (buffers : List Bytes) : (r.scanAll buffers).Extends r := by
  induction buffers generalizing r with
  | nil => exact .refl r
  | cons buffer buffers ih => exact (ih (r.scan buffer).record).trans (r.extends_scan buffer)

/-- The record after the first of some buffers have been scanned into it. -/
def after (r : Record) (buffers : List Bytes) (n : ℕ) : Record := r.scanAll (buffers.take n)

/-- A field has no value before the buffer with this number and has one after it. -/
def FillsAt (r : Record) (buffers : List Bytes) (f : Field) (n : ℕ) : Prop :=
  (r.after buffers n).get f = none ∧ ∃ v, (r.after buffers (n + 1)).get f = some v

/-- The record after more buffers has all values that it had after fewer. -/
theorem extends_after (r : Record) (buffers : List Bytes) {m n : ℕ} (h : m ≤ n) :
    (r.after buffers n).Extends (r.after buffers m) := by
  have hsplit := List.take_append_drop m (buffers.take n)
  rw [List.take_take, Nat.min_eq_left h] at hsplit
  rw [after, ← hsplit, scanAll, List.foldl_append]
  exact extends_scanAll _ _

/-- A field is given a value by one buffer at most. -/
theorem FillsAt.eq {buffers : List Bytes} {m n : ℕ} (hm : r.FillsAt buffers f m)
    (hn : r.FillsAt buffers f n) : m = n := by
  have hle : ∀ {m n : ℕ}, r.FillsAt buffers f m → r.FillsAt buffers f n → n ≤ m := by
    intro m n hm hn
    by_contra hlt
    obtain ⟨v, hv⟩ := hm.2
    have hkept := extends_after r buffers (Nat.lt_of_not_ge hlt) f v hv
    rw [hn.1] at hkept
    cases hkept
  exact Nat.le_antisymm (hle hn hm) (hle hm hn)

/-! ### Single lines -/

/-- A line that names a field is read only if the field has no value yet, and gives it one. -/
theorem get_of_readLine {bs : Bytes} {later : List Bytes} (hnames : f.Names line)
    (hlines : Bytes.lines bs = line :: later) (h : r.readLine line = .ok r') :
    r.get f = none ∧ ∃ v, r'.get f = some v := by
  obtain ⟨value, hline⟩ := hnames
  have hmem : line ∈ Bytes.lines bs := hlines ▸ List.mem_cons_self
  have hnl := newline_not_mem_lineBody (Bytes.newline_not_mem_dropLast_of_mem_lines hmem)
  obtain ⟨-, hscan⟩ := readLine_eq_ok_iff.mp h
  have happly := (scan_isLine_eq_ok_iff hline hnl).mp hscan
  obtain ⟨hfree, -, rfl⟩ := apply_eq_ok_iff_admits.mp happly
  exact ⟨hfree, _, get_set r f _⟩

/-! ### Streams -/

/-- If reading on behind the first line ends with a fault of format, so does reading. -/
theorem readLines_format {bs : Bytes} {later : List Bytes} {e : Ending}
    (hlines : Bytes.lines bs = line :: later) (hwhole : e.Completes line)
    (h : ∀ r' rest, r.readLine line = .ok r' → Bytes.lines rest = later →
      ∃ fault, r'.readLines ⟨rest, e⟩ = .error (.format fault)) :
    ∃ fault, r.readLines ⟨bs, e⟩ = .error (.format fault) := by
  obtain ⟨rest, hrest, hread⟩ := readLines_of_lines r hlines hwhole
  rw [hread]
  cases hline : r.readLine line with
  | ok r' => exact h r' rest hline hrest
  | error error =>
    obtain ⟨fault, rfl⟩ := format_of_readLine hline
    exact ⟨fault, rfl⟩

/-- A line of a field that has a value is at fault, wherever it stands. -/
theorem readLines_format_of_get {v : f.kind.Value} {bs : Bytes} {before later : List Bytes}
    {e : Ending} (hget : r.get f = some v) (hlines : Bytes.lines bs = before ++ line :: later)
    (hnames : f.Names line) (hwhole : e.Completes line) :
    ∃ fault, r.readLines ⟨bs, e⟩ = .error (.format fault) := by
  induction before generalizing r bs with
  | nil =>
    refine readLines_format hlines hwhole fun r' _ hr' _ => ?_
    obtain ⟨hfree, -⟩ := get_of_readLine hnames hlines hr'
    rw [hget] at hfree
    cases hfree
  | cons first before ih =>
    have hfirst := Bytes.isTerminated_of_lines hlines (by simp)
    refine readLines_format hlines (.inl hfirst) fun r' rest hr' hrest => ih ?_ hrest
    obtain ⟨-, hscan⟩ := readLine_eq_ok_iff.mp hr'
    have hextends := r.extends_scan (lineBuffer first)
    rw [hscan] at hextends
    exact hextends f v hget

/-- Of two lines that name the same field, the second is at fault, if no other line was before. -/
theorem readLines_format_of_two {bs line' : Bytes} {before between later : List Bytes} {e : Ending}
    (hlines : Bytes.lines bs = before ++ line :: (between ++ line' :: later))
    (hnames : f.Names line) (hnames' : f.Names line') (hwhole : e.Completes line') :
    ∃ fault, r.readLines ⟨bs, e⟩ = .error (.format fault) := by
  induction before generalizing r bs with
  | nil =>
    have hterm := Bytes.isTerminated_of_lines hlines (by simp)
    refine readLines_format hlines (.inl hterm) fun r' rest hr' hrest => ?_
    obtain ⟨-, v, hv⟩ := get_of_readLine hnames hlines hr'
    exact readLines_format_of_get hv hrest hnames' hwhole
  | cons first before ih =>
    have hfirst := Bytes.isTerminated_of_lines hlines (by simp)
    exact readLines_format hlines (.inl hfirst) fun _ _ _ hrest => ih hrest

/-- A container has a fault of format if its first line is not the fixed one or the lines behind
that have such a fault. -/
theorem parse_format_of_lines {bs first : Bytes} {later : List Bytes} {e : Ending}
    (hlines : Bytes.lines bs = first :: later) (hwhole : e.Completes first)
    (h : lineBody first = Utf8.encode Layout.privateMagic → ∀ rest, Bytes.lines rest = later →
      ∃ fault, empty.readLines ⟨rest, e⟩ = .error (.format fault)) :
    ∃ fault, (parse ⟨bs, e⟩).result = .error (.format fault) := by
  obtain ⟨rest, hrest, hparse⟩ := parse_of_lines hlines hwhole
  rw [hparse]
  split
  · exact ⟨_, rfl⟩
  · split
    · next hmagic => exact h hmagic rest hrest
    · exact ⟨_, rfl⟩

/-- A container that names a field twice is refused for its format. -/
theorem parse_format_of_namesTwice {s : Stream} (h : s.NamesTwice f) :
    ∃ fault, (parse s).result = .error (.format fault) := by
  obtain ⟨before, line, between, line', later, hlines, hnames, hnames', hwhole⟩ := h
  cases before with
  | nil =>
    have hterm := Bytes.isTerminated_of_lines hlines (by simp)
    exact parse_format_of_lines hlines (.inl hterm) fun hmagic => absurd hmagic hnames.ne_magic
  | cons first before =>
    have hfirst := Bytes.isTerminated_of_lines hlines (by simp)
    refine parse_format_of_lines hlines (.inl hfirst) fun _ rest hrest => ?_
    exact readLines_format_of_two hrest hnames hnames' hwhole

/-- A step of the machine keeps all values of the record, and so do its run and what it does at the
end of a buffer.  Whatever buffers are scanned into a record, and whatever becomes of them: a value
that a field has once stays as it is, and one buffer at most gives it a value.  So a container that
has two lines of the same field, wherever they stand, is refused for its format. -/
theorem written_once :
    (∀ m : Machine, (∀ m', m.step = some m' → m'.record.Extends m.record) ∧
      m.run.record.Extends m.record ∧ m.outcome.record.Extends m.record) ∧
    (∀ (r : Record) (buffers : List Bytes) (f : Field),
      (∀ m n v, m ≤ n → (r.after buffers m).get f = some v →
        (r.after buffers n).get f = some v) ∧
      ∀ m n, r.FillsAt buffers f m → r.FillsAt buffers f n → m = n) ∧
      ∀ (s : Stream) (f : Field), s.NamesTwice f →
        ∃ fault, (parse s).result = .error (.format fault) := by
  refine ⟨fun m => ⟨fun m' => Machine.extends_of_step, m.extends_run, m.extends_outcome⟩,
    fun r buffers f => ⟨?_, ?_⟩, fun s f => parse_format_of_namesTwice⟩
  · intro m n v hle
    exact extends_after r buffers hle f v
  · intro m n
    exact FillsAt.eq

/-- A buffer with a fault in its second line leaves what its first line stored, and a stream that
fails behind its lines has been refused before. -/
theorem kdf_written_once :
    empty.FillsAt (["kdf: a\nid: 00\n", "kdf: b\n"].map Utf8.encode) .kdf 0 ∧
      (empty.after (["kdf: a\nid: 00\n", "kdf: b\n"].map Utf8.encode) 2).get .kdf = some "a" ∧
      Stream.NamesTwice ⟨Utf8.encode "ASIGN-PRIV-KEY:\n\tkdf:a\nversion: 1\n kdf: b\n",
        .failing .other⟩ .kdf ∧
      ∃ fault, (parse ⟨Utf8.encode "ASIGN-PRIV-KEY:\n\tkdf:a\nversion: 1\n kdf: b\n",
        .failing .other⟩).result = .error (.format fault) := by
  have hfills : empty.FillsAt (["kdf: a\nid: 00\n", "kdf: b\n"].map Utf8.encode) .kdf 0 :=
    ⟨rfl, "a", by decide +kernel⟩
  have hnames : Stream.NamesTwice
      ⟨Utf8.encode "ASIGN-PRIV-KEY:\n\tkdf:a\nversion: 1\n kdf: b\n", .failing .other⟩ .kdf := by
    refine ⟨[Utf8.encode "ASIGN-PRIV-KEY:\n"], Utf8.encode "\tkdf:a\n",
      [Utf8.encode "version: 1\n"], Utf8.encode " kdf: b\n", [], by decide +kernel, ?_, ?_,
      .inl (by decide +kernel)⟩
    · exact ⟨[97], [9], [], by decide +kernel, by decide +kernel, fun b hb => by cases hb; rfl,
        by decide +kernel⟩
    · exact ⟨[98], [32], [32], by decide +kernel, by decide +kernel, fun b hb => by cases hb; rfl,
        by decide +kernel⟩
  obtain ⟨-, hkeeps, hrefused⟩ := written_once
  have hkept := (hkeeps empty (["kdf: a\nid: 00\n", "kdf: b\n"].map Utf8.encode) .kdf).1 1 2
    "a" (by decide) (by decide +kernel)
  exact ⟨hfills, hkept, hnames, hrefused _ _ hnames⟩

end Record

end SigningKeys
