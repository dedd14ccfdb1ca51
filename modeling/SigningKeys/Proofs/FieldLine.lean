import SigningKeys.Proofs.ByteReading
import SigningKeys.Proofs.Lookup

/-!
# Single lines

What the machine does with one line is told by the form of the line: a line of blanks changes
nothing, a line that breaks off in its name is refused, and the name of a field, a colon and blanks
lead to the value, which is everything up to the end of the line.

## Main definitions

* `Scanned.ofApply`: what storing a value makes of a line.

## Main results

* `Record.scan_field_line`: **the line of a field stores what its value stands for.**
* `Record.scan_unfinished_name`: a line that breaks off in its name is malformed.
-/

namespace SigningKeys

open Byte

namespace Reading

/-! ### Runs of bytes of one class -/

/-- Blanks before a name change nothing. -/
theorem takeAll_blanks (r : Record) {bs : Bytes} (h : ∀ b ∈ bs, isBlank b = true) :
    (⟨.blank, r⟩ : Reading).takeAll bs = ⟨.blank, r⟩ := by
  induction bs with
  | nil => rfl
  | cons b bs ih =>
    rw [List.forall_mem_cons] at h
    rw [takeAll_cons, take_blank, if_pos h.1]
    exact ih h.2

/-- Blanks before a value change nothing. -/
theorem takeAll_gap_blanks (f : Field) (r : Record) {bs : Bytes}
    (h : ∀ b ∈ bs, isBlank b = true) : (⟨.gap f, r⟩ : Reading).takeAll bs = ⟨.gap f, r⟩ := by
  induction bs with
  | nil => rfl
  | cons b bs ih =>
    rw [List.forall_mem_cons] at h
    rw [takeAll_cons, take_gap, if_pos h.1]
    exact ih h.2

/-- The bytes of a name are collected. -/
theorem takeAll_name (token : Bytes) (r : Record) {bs : Bytes}
    (h : ∀ b ∈ bs, isGraphic b = true ∧ b ≠ colon) :
    (⟨.name token, r⟩ : Reading).takeAll bs = ⟨.name (bs.reverse ++ token), r⟩ := by
  induction bs generalizing token with
  | nil => rfl
  | cons b bs ih =>
    rw [List.forall_mem_cons] at h
    obtain ⟨⟨hgraphic, hcolon⟩, hrest⟩ := h
    rw [takeAll_cons, take_name, takeName, if_neg hcolon, if_pos hgraphic, ih _ hrest,
      List.reverse_cons, List.append_assoc, List.singleton_append]

/-- A name begins with the first byte that is no blank. -/
theorem takeAll_blank_name (r : Record) {bs : Bytes} (hne : bs ≠ [])
    (h : ∀ b ∈ bs, isGraphic b = true ∧ b ≠ colon) :
    (⟨.blank, r⟩ : Reading).takeAll bs = ⟨.name bs.reverse, r⟩ := by
  obtain ⟨b, bs, rfl⟩ := List.exists_cons_of_ne_nil hne
  rw [List.forall_mem_cons] at h
  obtain ⟨⟨hgraphic, hcolon⟩, hrest⟩ := h
  -- the first byte is taken as a byte of the name although the phase is still that of blanks
  have hblank : ¬ isBlank b = true := by
    rw [isBlank_of_isGraphic hgraphic]
    decide
  rw [takeAll_cons, take_blank, if_neg hblank, takeName, if_neg hcolon, if_pos hgraphic,
    takeAll_name _ _ hrest, List.reverse_cons]

/-- The bytes of a value are collected. -/
theorem takeAll_value (f : Field) (token : Bytes) (r : Record) {bs : Bytes} (hnl : newline ∉ bs)
    (hdigit : f.kind = .unsigned → ∀ b ∈ bs, isDigit b = true) :
    (⟨.value f token, r⟩ : Reading).takeAll bs = ⟨.value f (bs.reverse ++ token), r⟩ := by
  induction bs generalizing token with
  | nil => rfl
  | cons b bs ih =>
    rw [List.mem_cons, not_or] at hnl
    have hfirst : ¬ (f.kind = .unsigned ∧ isDigit b = false) := by
      rintro ⟨hk, hb⟩
      rw [hdigit hk b List.mem_cons_self] at hb
      cases hb
    have hrest : f.kind = .unsigned → ∀ c ∈ bs, isDigit c = true := by
      intro hk c hc
      exact hdigit hk c (List.mem_cons_of_mem _ hc)
    rw [takeAll_cons, take_value, takeValue, if_neg (Ne.symm hnl.1), if_neg hfirst,
      ih _ hnl.2 hrest, List.reverse_cons, List.append_assoc, List.singleton_append]

/-- A value begins with the first byte that is no blank. -/
theorem takeAll_gap_value (f : Field) (r : Record) {bs : Bytes} (hne : bs ≠ [])
    (hfirst : ∀ b, bs.head? = some b → isBlank b = false) (hnl : newline ∉ bs)
    (hdigit : f.kind = .unsigned → ∀ b ∈ bs, isDigit b = true) :
    (⟨.gap f, r⟩ : Reading).takeAll bs = ⟨.value f bs.reverse, r⟩ := by
  obtain ⟨b, bs, rfl⟩ := List.exists_cons_of_ne_nil hne
  have hb : ¬ isBlank b = true := by
    rw [hfirst b rfl]
    decide
  -- the first byte is taken as if the value had begun before it
  have hstart : (⟨.gap f, r⟩ : Reading).take b = (⟨.value f [], r⟩ : Reading).take b := by
    rw [take_gap, if_neg hb, take_value]
  rw [takeAll_cons, hstart, ← takeAll_cons, takeAll_value f [] r hnl hdigit, List.append_nil]

end Reading

/-! ### Names of fields -/

theorem Field.nameBytes_ne_nil (f : Field) : f.nameBytes ≠ [] := by cases f <;> decide

theorem Field.isGraphic_of_mem_nameBytes (f : Field) :
    ∀ b ∈ f.nameBytes, isGraphic b = true ∧ b ≠ colon := by
  have hall : f.nameBytes.all (fun b => isGraphic b && b != colon) = true := by
    cases f <;> decide
  intro b hb
  simpa using List.all_eq_true.mp hall b hb

/-- The name of a field and a colon lead to its value. -/
theorem Reading.takeAll_nameBytes (f : Field) (r : Record) :
    (⟨.blank, r⟩ : Reading).takeAll (f.nameBytes ++ [colon]) = ⟨.gap f, r⟩ := by
  have hne : f.nameBytes.reverse ≠ [] := mt List.reverse_eq_nil_iff.mp f.nameBytes_ne_nil
  rw [takeAll_append, takeAll_blank_name r f.nameBytes_ne_nil f.isGraphic_of_mem_nameBytes,
    takeAll_cons, takeAll_nil, take_name, takeName, if_pos rfl, if_neg hne, List.reverse_reverse,
    Field.lookup_nameBytes]

/-! ### Whole lines -/

/-- What storing a value makes of a line: the record with the value, or the fault. -/
def Scanned.ofApply (r : Record) : Except LineFault Record → Scanned
  | .ok r' => ⟨r', none⟩
  | .error fault => ⟨r, some fault⟩

namespace Record

/-- A line of blanks changes nothing. -/
theorem scan_blanks (r : Record) {bs : Bytes} (h : ∀ b ∈ bs, isBlank b = true) :
    r.scan bs = ⟨r, none⟩ := by
  rw [scan_eq, Reading.takeAll_blanks r h]
  rfl

/-- A line that breaks off in its name is malformed. -/
theorem scan_unfinished_name (r : Record) {bs : Bytes} (hne : bs ≠ [])
    (h : ∀ b ∈ bs, isGraphic b = true ∧ b ≠ colon) :
    r.scan (bs ++ [newline]) = ⟨r, some .malformed⟩ := by
  rw [scan_eq, Reading.takeAll_append, Reading.takeAll_blank_name r hne h]
  rfl

/-- The line of a field stores what its value stands for. -/
theorem scan_field_line (r : Record) (f : Field) {blanks value : Bytes}
    (hblanks : ∀ b ∈ blanks, isBlank b = true)
    (hfirst : ∀ b, value.head? = some b → isBlank b = false) (hnl : newline ∉ value)
    (hdigit : f.kind = .unsigned → ∀ b ∈ value, isDigit b = true) :
    r.scan (f.nameBytes ++ [colon] ++ blanks ++ value ++ [newline]) =
      Scanned.ofApply r (r.apply f value) := by
  rw [scan_eq, Reading.takeAll_append, Reading.takeAll_append, Reading.takeAll_append,
    Reading.takeAll_nameBytes, Reading.takeAll_gap_blanks f r hblanks]
  by_cases hv : value = []
  · -- the newline is one more blank, and the lines end before any value
    subst hv
    rw [Reading.takeAll_nil, Reading.takeAll_gap_blanks f r (by simp)]
    show (match r.apply f [] with
      | .ok r' => (⟨r', none⟩ : Scanned)
      | .error fault => ⟨r, some fault⟩) = _
    cases r.apply f [] <;> rfl
  · rw [Reading.takeAll_gap_value f r hv hfirst hnl hdigit, Reading.takeAll_cons,
      Reading.takeAll_nil, Reading.take_value, Reading.takeValue, if_pos rfl,
      List.reverse_reverse]
    cases r.apply f value <;> rfl

end Record

end SigningKeys
