import Mathlib.Data.List.TakeWhile
import SigningKeys.Proofs.FieldText

/-!
# The grammar of lines

A line of a container is blank, or it is the line of a field: blanks, the name of the field, a
colon, blanks, and a value that starts with no blank.  The line of a field can be read if the field
has no value yet and its kind admits the text of the value.  The machine reads exactly these lines,
and a line that it cannot read leaves the record as it was.

## Main definitions

* `Field.IsLine`: the lines of a field.
* `Record.Reads`: the lines that can be read into a record, and the record that they make of it.

## Main results

* `Record.line_cases`: a line that is neither blank nor the line of a field is at fault.
* `Record.scan_of_isLine`: the line of a field stores its value, unless it is no number where one
  is due.
* `Record.scan_line_iff_reads`: **the machine reads the lines of the grammar, and any other line
  leaves the record as it was.**
-/

namespace SigningKeys

open Byte

/-! ### The grammar -/

/-- A line of a field with this text of its value. -/
def Field.IsLine (f : Field) (value line : Bytes) : Prop :=
  ∃ before between : Bytes,
    (∀ b ∈ before, isBlank b = true) ∧ (∀ b ∈ between, isBlank b = true) ∧
      (∀ b, value.head? = some b → isBlank b = false) ∧
        line = before ++ f.nameBytes ++ [colon] ++ between ++ value

/-- The lines that can be read into a record, and the record that they make of it. -/
inductive Record.Reads (r : Record) (line : Bytes) : Record → Prop where
  /-- A blank line changes nothing. -/
  | blank (hblank : ∀ b ∈ line, isBlank b = true) : Reads r line r
  /-- The line of a field that has no value yet gives it the value that its text stands for. -/
  | field {f : Field} {value : Bytes} {r' : Record} (hline : f.IsLine value line)
      (hfree : r.get f = none) (hadmits : f.kind.Admits value)
      (hset : r'.get f = some (f.kind.meaning value))
      (hothers : ∀ g, g ≠ f → r'.get g = r.get g) : Reads r line r'

/-! ### Runs of bytes and the byte behind them -/

/-- A byte string is a run of bytes of a class and a rest that begins with no byte of the class. -/
theorem Bytes.exists_run (p : UInt8 → Bool) (bs : Bytes) :
    ∃ run rest, bs = run ++ rest ∧ (∀ b ∈ run, p b = true) ∧
      ∀ b, rest.head? = some b → p b = false := by
  refine ⟨bs.takeWhile p, bs.dropWhile p, List.takeWhile_append_dropWhile.symm, ?_, ?_⟩
  · intro b hb
    exact List.mem_takeWhile_imp hb
  · intro b hb
    have hnot := List.head?_dropWhile_not p bs
    rwa [hb] at hnot

namespace Reading

/-- Whether a byte can stand in a name. -/
def isNameByte (b : UInt8) : Bool := isGraphic b && b != colon

theorem isNameByte_iff {b : UInt8} : isNameByte b = true ↔ isGraphic b = true ∧ b ≠ colon := by
  simp [isNameByte]

/-- A byte behind a name, which may be empty, is taken as one that follows the name. -/
theorem takeAll_name_next (r : Record) {name : Bytes} {b : UInt8}
    (hname : ∀ c ∈ name, isNameByte c = true) (hfirst : name = [] → isBlank b = false) :
    (⟨.blank, r⟩ : Reading).takeAll (name ++ [b]) = ⟨takeName name.reverse b, r⟩ := by
  by_cases hne : name = []
  · have hb : ¬ isBlank b = true := by simp [hfirst hne]
    subst hne
    rw [List.nil_append, takeAll_cons, takeAll_nil, take_blank, if_neg hb]
    rfl
  · rw [takeAll_append, takeAll_blank_name r hne fun c hc => isNameByte_iff.mp (hname c hc)]
    rfl

/-- A byte that is no digit is at fault in a number, also at its start. -/
theorem takeAll_gap_not_digit {f : Field} (r : Record) (hf : f.kind = .unsigned) {digits : Bytes}
    {b : UInt8} (hdigits : ∀ c ∈ digits, isDigit c = true) (hb : isDigit b = false)
    (hnl : b ≠ newline) (hfirst : digits = [] → isBlank b = false) :
    (⟨.gap f, r⟩ : Reading).takeAll (digits ++ [b]) = ⟨.failed .malformed, r⟩ := by
  have htake : ∀ token, takeValue r f token b = ⟨.failed .malformed, r⟩ := by
    intro token
    rw [takeValue, if_neg hnl, if_pos ⟨hf, hb⟩]
  by_cases hne : digits = []
  · have hblank : ¬ isBlank b = true := by simp [hfirst hne]
    subst hne
    rw [List.nil_append, takeAll_cons, takeAll_nil, take_gap, if_neg hblank, htake]
  · have hnotBlank : ∀ c, digits.head? = some c → isBlank c = false := by
      intro c hc
      exact isBlank_of_isGraphic (isGraphic_of_isDigit (hdigits c (List.mem_of_mem_head? hc)))
    have hnlDigits : newline ∉ digits := fun hmem => by cases hdigits _ hmem
    rw [takeAll_append, takeAll_gap_value f r hne hnotBlank hnlDigits fun _ => hdigits,
      takeAll_cons, takeAll_nil, take_value, htake]

/-- A value that is no number where one is due is malformed, at its first byte that is no digit. -/
theorem takeAll_gap_not_digits {f : Field} (r : Record) (hf : f.kind = .unsigned) {value : Bytes}
    (hfirst : ∀ b, value.head? = some b → isBlank b = false) (hnl : newline ∉ value)
    (hdigits : ¬ ∀ b ∈ value, isDigit b = true) :
    (⟨.gap f, r⟩ : Reading).takeAll value = ⟨.failed .malformed, r⟩ := by
  obtain ⟨digits, rest, rfl, hrun, hrest⟩ := Bytes.exists_run isDigit value
  cases rest with
  | nil => exact absurd (by simpa using hrun) hdigits
  | cons b rest =>
    have hb : b ≠ newline := by
      rintro rfl
      exact hnl (by simp)
    have hblank : digits = [] → isBlank b = false := by
      rintro rfl
      exact hfirst b rfl
    have hbytes : digits ++ b :: rest = digits ++ [b] ++ rest := by simp
    rw [hbytes, takeAll_append, takeAll_gap_not_digit r hf hrun (hrest b rfl) hb hblank,
      takeAll_failed]

theorem outcome_takeAll_failed (fault : LineFault) (r : Record) (bs : Bytes) :
    ((⟨.failed fault, r⟩ : Reading).takeAll bs).outcome = ⟨r, some fault⟩ := by
  rw [takeAll_failed]
  rfl

end Reading

namespace Record

variable {r r' : Record} {f : Field} {line value : Bytes}

/-! ### Lines that are no lines of a field -/

/-- Behind blanks and the bytes of a name, the next byte tells what the name is worth. -/
theorem scan_name_next (r : Record) {before name : Bytes} {b : UInt8} (tail : Bytes)
    (hbefore : ∀ c ∈ before, isBlank c = true) (hname : ∀ c ∈ name, Reading.isNameByte c = true)
    (hfirst : name = [] → isBlank b = false) :
    r.scan (before ++ (name ++ b :: tail)) =
      ((⟨Reading.takeName name.reverse b, r⟩ : Reading).takeAll tail).outcome := by
  have hbytes : before ++ (name ++ b :: tail) = before ++ ((name ++ [b]) ++ tail) := by simp
  rw [scan_eq, hbytes, Reading.takeAll_append, Reading.takeAll_blanks r hbefore,
    Reading.takeAll_append, Reading.takeAll_name_next r hname hfirst]

/-- A line that is neither blank nor the line of a field is at fault. -/
theorem line_cases (r : Record) (line : Bytes) :
    (∀ b ∈ line, isBlank b = true) ∨ (∃ f value, Field.IsLine f value line) ∨
      ∃ fault, r.scan (line ++ [newline]) = ⟨r, some fault⟩ := by
  -- a line is blanks, the bytes of a name, and what follows: at the least, its newline
  obtain ⟨before, rest, rfl, hbefore, hrest⟩ := Bytes.exists_run isBlank line
  obtain ⟨name, rest, rfl, hname, hstop⟩ := Bytes.exists_run Reading.isNameByte rest
  by_cases hempty : name ++ rest = []
  · rw [hempty, List.append_nil]
    exact .inl hbefore
  obtain ⟨b, tail, htail⟩ : ∃ b tail, rest ++ [newline] = b :: tail :=
    List.exists_cons_of_ne_nil (by simp)
  have hfirst : name = [] → isBlank b = false := by
    rintro rfl
    cases rest with
    | nil => exact absurd rfl hempty
    | cons c rest =>
      cases htail
      exact hrest b rfl
  have hfails : ∀ fault, Reading.takeName name.reverse b = .failed fault →
      r.scan (before ++ (name ++ rest) ++ [newline]) = ⟨r, some fault⟩ := by
    intro fault hfault
    rw [List.append_assoc, List.append_assoc, htail, scan_name_next r tail hbefore hname hfirst,
      hfault, Reading.outcome_takeAll_failed]
  by_cases hcolon : b = colon
  · subst hcolon
    by_cases hnone : name = []
    · subst hnone
      exact .inr (.inr ⟨_, hfails .malformed rfl⟩)
    cases hlookup : Field.lookup name with
    | none =>
      refine .inr (.inr ⟨.unknownField name, hfails _ ?_⟩)
      simp only [Reading.takeName, if_pos, List.reverse_eq_nil_iff, hnone, if_false,
        List.reverse_reverse, hlookup]
    | some f =>
      -- the colon is not the newline, so it stands in the line and the value behind it
      obtain ⟨rest, rfl⟩ : ∃ rest', rest = colon :: rest' := by
        cases rest with
        | nil => cases htail
        | cons c rest => exact ⟨rest, by rw [(List.cons.inj htail).1]⟩
      obtain ⟨between, value, rfl, hbetween, hvalue⟩ := Bytes.exists_run isBlank rest
      refine .inr (.inl ⟨f, value, before, between, hbefore, hbetween, hvalue, ?_⟩)
      rw [Field.lookup_eq_some_iff.mp hlookup]
      simp
  · have hgraphic : ¬ isGraphic b = true := by
      intro hgraphic
      have hb : Reading.isNameByte b = true := Reading.isNameByte_iff.mpr ⟨hgraphic, hcolon⟩
      cases rest with
      | nil =>
        cases htail
        cases hgraphic
      | cons c rest =>
        cases htail
        rw [hstop b rfl] at hb
        cases hb
    refine .inr (.inr ⟨.malformed, hfails _ ?_⟩)
    rw [Reading.takeName, if_neg hcolon, if_neg hgraphic]

/-! ### Lines of fields -/

/-- A value that is no number where one is due is malformed. -/
theorem scan_field_not_digits (r : Record) (hkind : f.kind = .unsigned) {blanks : Bytes}
    (hblanks : ∀ b ∈ blanks, isBlank b = true)
    (hfirst : ∀ b, value.head? = some b → isBlank b = false) (hnl : newline ∉ value)
    (hdigits : ¬ ∀ b ∈ value, isDigit b = true) :
    r.scan (f.nameBytes ++ [colon] ++ blanks ++ value ++ [newline]) =
      ⟨r, some .malformed⟩ := by
  rw [scan_eq, Reading.takeAll_append, Reading.takeAll_append, Reading.takeAll_append,
    Reading.takeAll_nameBytes, Reading.takeAll_gap_blanks f r hblanks,
    Reading.takeAll_gap_not_digits r hkind hfirst hnl hdigits, Reading.outcome_takeAll_failed]

/-- The line of a field stores its value, unless it is no number where one is due. -/
theorem scan_of_isLine (r : Record) (hline : f.IsLine value line) (hnl : newline ∉ line) :
    r.scan (line ++ [newline]) = Scanned.ofApply r (r.apply f value) ∨
      ¬ f.kind.Admits value ∧ r.scan (line ++ [newline]) = ⟨r, some .malformed⟩ := by
  obtain ⟨before, between, hbefore, hbetween, hvalue, rfl⟩ := hline
  have hnlValue : newline ∉ value := fun hmem => hnl (List.mem_append_right _ hmem)
  have hscan : r.scan (before ++ f.nameBytes ++ [colon] ++ between ++ value ++ [newline]) =
      r.scan (f.nameBytes ++ [colon] ++ between ++ value ++ [newline]) := by
    simp only [scan_eq, List.append_assoc]
    rw [Reading.takeAll_append, Reading.takeAll_blanks r hbefore]
  rw [hscan]
  by_cases hdigits : f.kind = .unsigned → ∀ b ∈ value, isDigit b = true
  · exact .inl (scan_field_line r f hbetween hvalue hnlValue hdigits)
  · rw [Classical.not_imp] at hdigits
    obtain ⟨hkind, hdigits⟩ := hdigits
    refine .inr ⟨?_, scan_field_not_digits r hkind hbetween hvalue hnlValue hdigits⟩
    rw [hkind]
    exact fun h => hdigits h.2.1

/-- The line of a field is read exactly if its value is stored. -/
theorem scan_isLine_eq_ok_iff (hline : f.IsLine value line) (hnl : newline ∉ line) :
    r.scan (line ++ [newline]) = ⟨r', none⟩ ↔ r.apply f value = .ok r' := by
  rcases scan_of_isLine r hline hnl with hscan | ⟨hadmits, hscan⟩
  · rw [hscan]
    cases r.apply f value <;> simp [Scanned.ofApply]
  · rw [hscan]
    simp only [Scanned.mk.injEq, reduceCtorEq, and_false, false_iff]
    exact fun happly => hadmits (apply_eq_ok_iff_admits.mp happly).2.1

/-- The line of a field whose value is not stored is at fault. -/
theorem scan_isLine_of_not_apply (hline : f.IsLine value line) (hnl : newline ∉ line)
    (h : ∀ r', r.apply f value ≠ .ok r') :
    ∃ fault, r.scan (line ++ [newline]) = ⟨r, some fault⟩ := by
  rcases scan_of_isLine r hline hnl with hscan | ⟨-, hscan⟩
  · rw [hscan]
    cases happly : r.apply f value with
    | ok r' => exact absurd happly (h r')
    | error fault => exact ⟨fault, rfl⟩
  · exact ⟨_, hscan⟩

/-- A line of a field whose value is stored can be read. -/
theorem Reads.of_apply (hline : f.IsLine value line) (h : r.apply f value = .ok r') :
    r.Reads line r' := by
  obtain ⟨hfree, hadmits, rfl⟩ := apply_eq_ok_iff_admits.mp h
  exact .field hline hfree hadmits (get_set r f _) fun g hg => get_set_of_ne r hg _

theorem Reads.scan (h : r.Reads line r') (hnl : newline ∉ line) :
    r.scan (line ++ [newline]) = ⟨r', none⟩ := by
  cases h with
  | blank hblank =>
    apply scan_blanks
    intro b hb
    rw [List.mem_append, List.mem_singleton] at hb
    rcases hb with hb | rfl
    · exact hblank b hb
    · rfl
  | @field f value r' hline hfree hadmits hset hothers =>
    have hr' : r' = r.set f (f.kind.meaning value) := by
      apply ext_get
      intro g
      by_cases hg : g = f
      · subst hg
        rw [hset, get_set]
      · rw [hothers g hg, get_set_of_ne r hg]
    rw [scan_isLine_eq_ok_iff hline hnl]
    exact apply_eq_ok_iff_admits.mpr ⟨hfree, hadmits, hr'⟩

/-- The machine reads the lines that can be read into a record. -/
theorem scan_eq_ok_iff_reads (hnl : newline ∉ line) :
    r.scan (line ++ [newline]) = ⟨r', none⟩ ↔ r.Reads line r' := by
  refine ⟨fun hscan => ?_, fun h => h.scan hnl⟩
  rcases line_cases r line with hblank | ⟨f, value, hline⟩ | ⟨fault, hfault⟩
  · have hsame : r.scan (line ++ [newline]) = ⟨r, none⟩ := (Reads.blank hblank).scan hnl
    rw [hscan, Scanned.mk.injEq] at hsame
    exact hsame.1 ▸ .blank hblank
  · exact .of_apply hline ((scan_isLine_eq_ok_iff hline hnl).mp hscan)
  · rw [hscan] at hfault
    cases hfault

/-- The machine reads a line exactly if the line can be read into the record, and makes of it what
the grammar says.  Any other line is a fault of format and leaves the record as it was. -/
theorem scan_line_iff_reads (r : Record) (hnl : newline ∉ line) :
    (∀ r', r.scan (line ++ [newline]) = ⟨r', none⟩ ↔ r.Reads line r') ∧
      ((∀ r', ¬ r.Reads line r') →
        ∃ fault, r.scan (line ++ [newline]) = ⟨r, some fault⟩ ∧
          (r.scan (line ++ [newline])).toExcept = .error (.format (.line fault))) := by
  constructor
  · intro r'
    exact scan_eq_ok_iff_reads hnl
  · intro hnone
    have hfault : ∃ fault, r.scan (line ++ [newline]) = ⟨r, some fault⟩ := by
      rcases line_cases r line with hblank | ⟨f, value, hline⟩ | hfault
      · exact absurd (.blank hblank) (hnone r)
      · exact scan_isLine_of_not_apply hline hnl fun r' h => hnone r' (.of_apply hline h)
      · exact hfault
    obtain ⟨fault, hscan⟩ := hfault
    refine ⟨fault, hscan, ?_⟩
    rw [hscan]
    rfl

/-- Blanks of every sort stand before the name and before the value, and the value has a colon, a
space and a carriage return, which are kept. -/
theorem scan_kdf_line_iff_reads :
    newline ∉ Utf8.encode "\t kdf:\x0c a:b \r" ∧
      empty.Reads (Utf8.encode "\t kdf:\x0c a:b \r") { empty with kdf := some "a:b \r" } := by
  have hnl : newline ∉ Utf8.encode "\t kdf:\x0c a:b \r" := by decide +kernel
  exact ⟨hnl, ((scan_line_iff_reads empty hnl).1 _).mp (by decide +kernel)⟩

end Record

end SigningKeys
