import Mathlib.Algebra.Group.Nat.Defs
import Mathlib.Data.List.Nodup
import SigningKeys.Container.Text
import SigningKeys.Proofs.WellFormed

/-!
# Written lines

A container lists the fields of a record, each on a line of its own.  Such a line is read into a
record as the value that was written, with one exception: a carriage return at the end of a text is
taken for a part of the end of the line.

## Main definitions

* `Field.label`, `Field.body`: the line of a field, without its newline.
* `Kind.reread`: what becomes of a value that is written and read.
* `Record.lines`: the lines of some fields of a record.
* `Record.fill`: a record into which some fields of another are copied.
* `Kind.widest`: the longest text of a value that is no free text.

## Main results

* `Record.scan_body`: the line of a sound value stores it.
* `Record.reachable_iff_wellFormed`: every well-formed record can be filled line by line.
* `Record.readBody_body`: **a written line is read as its value.**
* `Record.readLines_lines`: lines are read one after the other.
* `Record.text_eq`: a container is its first line and the lines of all fields.
-/

namespace SigningKeys

open Byte

/-! ### Carriage returns at the end -/

theorem head?_of_isPrefix {as bs : Bytes} (h : as <+: bs) {b : UInt8} (hb : as.head? = some b) :
    bs.head? = some b := by
  obtain ⟨tail, rfl⟩ := h
  rw [List.head?_append, hb, Option.some_or]

theorem dropFinal_append {b : UInt8} {as : Bytes} (h : as.getLast? ≠ some b) (bs : Bytes) :
    Bytes.dropFinal b (as ++ bs) = as ++ Bytes.dropFinal b bs := by
  cases bs with
  | nil =>
    rw [List.append_nil, dropFinal_of_getLast? h]
    exact (List.append_nil as).symm
  | cons c bs =>
    unfold Bytes.dropFinal
    rw [List.getLast?_append_of_ne_nil _ (List.cons_ne_nil c bs)]
    split
    · rw [List.dropLast_append_of_ne_nil (List.cons_ne_nil c bs)]
    · rfl

/-- The text without one carriage return at its end. -/
def dropReturn (s : String) : String :=
  if s.toList.getLast? = some '\r' then String.ofList s.toList.dropLast else s

theorem encode_dropReturn (s : String) :
    Utf8.encode (dropReturn s) = Bytes.dropFinal carriageReturn (Utf8.encode s) := by
  have hiff : (Utf8.encode s).getLast? = some carriageReturn ↔ s.toList.getLast? = some '\r' :=
    Utf8.getLast?_encode_iff (by decide) s
  by_cases h : s.toList.getLast? = some '\r'
  · obtain ⟨cs, hcs⟩ := List.getLast?_eq_some_iff.mp h
    have hreturn : String.utf8EncodeChar '\r' = [carriageReturn] := by decide
    rw [dropReturn, if_pos h, Utf8.encode_ofList, Utf8.encode, hcs, List.dropLast_concat,
      List.flatMap_append, List.flatMap_singleton, hreturn, dropFinal_concat]
  · rw [dropReturn, if_neg h, dropFinal_of_getLast? (mt hiff.mp h)]

theorem dropReturn_eq_self_iff {s : String} :
    dropReturn s = s ↔ s.toList.getLast? ≠ some '\r' := by
  unfold dropReturn
  constructor
  · intro heq hlast
    rw [if_pos hlast] at heq
    -- a text that is no shorter without its last character has none
    have hlen := congrArg (List.length ∘ String.toList) heq
    simp only [Function.comp_apply, String.toList_ofList, List.length_dropLast] at hlen
    have hnil : s.toList = [] := List.eq_nil_of_length_eq_zero (by omega)
    rw [hnil] at hlast
    cases hlast
  · intro hlast
    rw [if_neg hlast]

theorem sound_dropReturn {s : String} (h : Kind.Sound .text s) :
    Kind.Sound .text (dropReturn s) := by
  have hpre := dropFinal_isPrefix carriageReturn (Utf8.encode s)
  rw [← encode_dropReturn] at hpre
  constructor
  · intro hmem
    exact h.1 (hpre.subset hmem)
  · intro b hb
    exact h.2 b (head?_of_isPrefix hpre hb)

namespace Kind

/-- What becomes of a value that is written and read. -/
def reread : (k : Kind) → k.Value → k.Value
  | .text, s => dropReturn s
  | .unsigned, n => n
  | .hex _, bs => bs

theorem dropFinal_render (k : Kind) (v : k.Value) :
    Bytes.dropFinal carriageReturn (k.render v) = k.render (k.reread v) := by
  have hgraphic : k ≠ .text → Bytes.dropFinal carriageReturn (k.render v) = k.render v := by
    intro hk
    refine dropFinal_of_getLast? ?_
    intro hlast
    -- a carriage return is not graphic
    have := isGraphic_of_mem_render hk (List.mem_of_getLast? hlast)
    cases this
  cases k with
  | text => exact (encode_dropReturn v).symm
  | unsigned => exact hgraphic (by simp)
  | hex n => exact hgraphic (by simp)

theorem Sound.reread {k : Kind} {v : k.Value} (h : k.Sound v) : k.Sound (k.reread v) := by
  cases k with
  | text => exact sound_dropReturn h
  | unsigned => exact trivial
  | hex n => exact h

end Kind

/-! ### The line of a field -/

namespace Field

/-- The name of a field and what stands between it and the value. -/
def label (f : Field) : Bytes := f.nameBytes ++ Utf8.encode ": "

/-- The line of a field, without its newline. -/
def body (f : Field) (v : f.kind.Value) : Bytes := f.label ++ f.kind.render v

theorem label_eq (f : Field) : f.label = f.nameBytes ++ [colon] ++ [32] := by
  cases f <;> decide

theorem getLast?_label_ne (f : Field) : f.label.getLast? ≠ some carriageReturn := by
  rw [label_eq, List.getLast?_concat]
  decide

theorem newline_not_mem_label (f : Field) : newline ∉ f.label := by
  cases f <;> decide

theorem newline_not_mem_body {f : Field} {v : f.kind.Value} (h : f.kind.Sound v) :
    newline ∉ f.body v := by
  rw [body, List.mem_append, not_or]
  exact ⟨f.newline_not_mem_label, Kind.newline_not_mem_render h⟩

end Field

namespace Record

/-- The line of a sound value stores it. -/
theorem scan_body (r : Record) {f : Field} {v : f.kind.Value} (hv : f.kind.Sound v)
    (hget : r.get f = none) : r.scan (f.body v ++ [newline]) = ⟨r.set f v, none⟩ := by
  have happly : r.apply f (f.kind.render v) = .ok (r.set f v) :=
    apply_eq_ok_iff.mpr ⟨v, Field.read_render hv, hget, rfl⟩
  have hblank : ∀ b ∈ [32], isBlank b = true := List.forall_mem_singleton.mpr rfl
  rw [Field.body, f.label_eq, scan_field_line r f hblank
    (fun b => Kind.isBlank_head_render hv) (Kind.newline_not_mem_render hv)
    (fun hk b => Kind.isDigit_of_mem_render hk), happly]
  rfl

/-- A sound value can be stored in a record that lacks it. -/
theorem Reachable.set {r : Record} (hr : r.Reachable) {f : Field} {v : f.kind.Value}
    (hv : f.kind.Sound v) (hfree : r.get f = none) : (r.set f v).Reachable := by
  have hscan := hr.scan (f.body v ++ [newline])
  rwa [r.scan_body hv hfree] at hscan

/-- A written line is read as its value, but for a carriage return at its end. -/
theorem readBody_body (r : Record) {f : Field} {v : f.kind.Value} (hv : f.kind.Sound v)
    (hget : r.get f = none) : r.readBody (f.body v) = .ok (r.set f (f.kind.reread v)) := by
  -- the label does not end in a carriage return, so only the value can lose one
  have hbody : Bytes.dropFinal carriageReturn (f.body v) = f.body (f.kind.reread v) := by
    rw [Field.body, dropFinal_append f.getLast?_label_ne, Kind.dropFinal_render, Field.body]
  rw [readBody, hbody, scan_body r hv.reread hget]
  rfl

/-! ### The lines of some fields -/

/-- The lines of some fields of a record. -/
def lines (r : Record) (fields : List Field) : Bytes := (fields.flatMap r.fieldPieces).flatten

/-- A record into which some fields of another are copied. -/
def fill (r₀ r : Record) (fields : List Field) : Record :=
  fields.foldl (fun acc f => match r.get f with | none => acc | some v => acc.set f v) r₀

@[simp] theorem lines_nil (r : Record) : r.lines [] = [] := rfl

theorem lines_cons_of_none {r : Record} {f : Field} (h : r.get f = none) (fields : List Field) :
    r.lines (f :: fields) = r.lines fields := by
  simp [lines, fieldPieces, h]

theorem lines_cons_of_some {r : Record} {f : Field} {v : f.kind.Value} (h : r.get f = some v)
    (fields : List Field) :
    r.lines (f :: fields) = f.body v ++ newline :: r.lines fields := by
  simp [lines, fieldPieces, h, Field.body, Field.label]

theorem lines_append (r : Record) (before after : List Field) :
    r.lines (before ++ after) = r.lines before ++ r.lines after := by
  simp [lines]

@[simp] theorem fill_nil (r₀ r : Record) : r₀.fill r [] = r₀ := rfl

theorem fill_cons_of_none (r₀ : Record) {r : Record} {f : Field} (h : r.get f = none)
    (fields : List Field) : r₀.fill r (f :: fields) = r₀.fill r fields := by
  rw [fill, List.foldl_cons, h, fill]

theorem fill_cons_of_some (r₀ : Record) {r : Record} {f : Field} {v : f.kind.Value}
    (h : r.get f = some v) (fields : List Field) :
    r₀.fill r (f :: fields) = (r₀.set f v).fill r fields := by
  rw [fill, List.foldl_cons, h, fill]

/-- A field that is copied has the value of the other record, if that has one. -/
theorem get_fill (r₀ r : Record) (g : Field) (fields : List Field) :
    (r₀.fill r fields).get g = if g ∈ fields then (r.get g).or (r₀.get g) else r₀.get g := by
  induction fields generalizing r₀ with
  | nil => rfl
  | cons f fields ih =>
    cases hf : r.get f with
    | none =>
      rw [fill_cons_of_none r₀ hf, ih r₀]
      by_cases hg : g = f
      · subst hg
        simp [hf]
      · simp [hg]
    | some v =>
      rw [fill_cons_of_some r₀ hf, ih]
      -- a field that is listed once more gets the same value once more
      by_cases hg : g = f
      · subst hg
        simp [hf]
      · simp [hg, get_set_of_ne r₀ hg v]

/-- Copying all fields into a new record gives the record again. -/
theorem fill_empty_written (r : Record) : empty.fill r Field.written = r := by
  apply ext_get
  intro g
  rw [get_fill, if_pos (Field.mem_written g), get_empty, Option.or_none]

/-- Sound values can be stored one after the other. -/
theorem Reachable.fill {r : Record} (hr : r.WellFormed) :
    ∀ (fields : List Field) (r₀ : Record), r₀.Reachable → fields.Nodup →
      (∀ f ∈ fields, r₀.get f = none) → (r₀.fill r fields).Reachable := by
  intro fields
  induction fields with
  | nil =>
    intro r₀ h₀ _ _
    exact h₀
  | cons f fields ih =>
    intro r₀ h₀ hnodup hnone
    rw [List.nodup_cons] at hnodup
    cases hv : r.get f with
    | none =>
      rw [fill_cons_of_none r₀ hv]
      exact ih r₀ h₀ hnodup.2 fun g hg => hnone g (List.mem_cons_of_mem _ hg)
    | some v =>
      rw [fill_cons_of_some r₀ hv]
      refine ih _ (h₀.set (hr f v hv) (hnone f List.mem_cons_self)) hnodup.2 ?_
      intro g hg
      rw [get_set_of_ne r₀ (ne_of_mem_of_not_mem hg hnodup.1)]
      exact hnone g (List.mem_cons_of_mem _ hg)

/-- The records that a caller can come by are exactly the well-formed ones. -/
theorem reachable_iff_wellFormed {r : Record} : r.Reachable ↔ r.WellFormed := by
  constructor
  · exact Reachable.wellFormed
  · intro hr
    rw [← fill_empty_written r]
    exact Reachable.fill hr Field.written empty .empty (by decide) fun f _ => get_empty f

/-- The record without one carriage return at the end of its KDF. -/
def reread (r : Record) : Record := { r with kdf := r.kdf.map dropReturn }

theorem get_reread (r : Record) (f : Field) : r.reread.get f = (r.get f).map f.kind.reread := by
  have hid : ∀ {α : Type} (o : Option α), o = o.map fun a => a := fun o => Option.map_id'.symm
  cases f with
  | kdf => rfl
  | _ => exact hid _

end Record

/-! ### The lengths of lines -/

theorem Decimal.length_digits_le (k : ℕ) : ∀ n, n < 10 ^ (k + 1) → (digits n).length ≤ k + 1 := by
  induction k with
  | zero =>
    intro n hn
    rw [digits_of_lt (by simpa using hn)]
    exact Nat.le_refl 1
  | succ k ih =>
    intro n hn
    by_cases hlt : n < 10
    · rw [digits_of_lt hlt]
      simp
    · -- without its last digit the number is a tenth of what it was
      have hdiv : n / 10 < 10 ^ (k + 1) := by
        rw [Nat.pow_succ] at hn
        omega
      have := ih (n / 10) hdiv
      rw [digits_of_ge (by omega), List.length_append, List.length_singleton]
      omega

/-- The most bytes that the text of a value takes, if it is no free text. -/
def Kind.widest : Kind → ℕ
  | .text => 0
  | .unsigned => 10
  | .hex n => 2 * n

theorem Kind.length_render_le {k : Kind} {v : k.Value} (hv : k.Sound v) (htext : k ≠ .text) :
    (k.render v).length ≤ k.widest := by
  cases k with
  | text => exact absurd rfl htext
  | unsigned =>
    have hword : UInt32.toNat v < 10 ^ (9 + 1) := Nat.lt_trans (UInt32.toNat_lt v) (by decide)
    exact Decimal.length_digits_le 9 _ hword
  | hex n =>
    have hlen : (v : Bytes).length = n := hv
    have hencode : (Kind.render (.hex n) v).length = 2 * (v : Bytes).length := Hex.length_encode v
    rw [hencode, hlen]
    exact Nat.le_refl _

namespace Field

theorem length_label_le (f : Field) : f.label.length ≤ 10 := by
  cases f <;> decide

theorem kind_ne_text {f : Field} (hf : f ≠ .kdf) : f.kind ≠ .text := by
  cases f <;> first | exact absurd rfl hf | decide

theorem widest_kind_le (f : Field) : f.kind.widest ≤ 128 := by
  cases f <;> decide

/-- The line of a field that is no free text is short. -/
theorem length_body_lt {f : Field} {v : f.kind.Value} (hf : f ≠ .kdf) (hv : f.kind.Sound v) :
    (f.body v).length < Layout.lineLimit := by
  have hrender := Kind.length_render_le hv (kind_ne_text hf)
  have hwidest := f.widest_kind_le
  have hlabel := f.length_label_le
  rw [body, List.length_append, Layout.lineLimit]
  omega

end Field

namespace Record

/-! ### Reading the lines of some fields -/

theorem readLines_lines {r : Record} (hwf : r.WellFormed) (e : Ending) (rest : Bytes) :
    ∀ (fields : List Field) (r₀ : Record), fields.Nodup → (∀ f ∈ fields, r₀.get f = none) →
      (∀ f ∈ fields, ∀ v, r.get f = some v → (f.body v).length < Layout.lineLimit) →
      r₀.readLines ⟨r.lines fields ++ rest, e⟩ =
        (r₀.fill r.reread fields).readLines ⟨rest, e⟩ := by
  intro fields
  induction fields with
  | nil =>
    intro r₀ _ _ _
    rfl
  | cons f fields ih =>
    intro r₀ hnodup hnone hlen
    rw [List.nodup_cons] at hnodup
    cases hv : r.get f with
    | none =>
      have hreread : r.reread.get f = none := by rw [get_reread, hv, Option.map_none]
      rw [lines_cons_of_none hv, fill_cons_of_none r₀ hreread]
      refine ih r₀ hnodup.2 ?_ ?_
      · intro g hg
        exact hnone g (List.mem_cons_of_mem _ hg)
      · intro g hg
        exact hlen g (List.mem_cons_of_mem _ hg)
    | some v =>
      have hreread : r.reread.get f = some (f.kind.reread v) := by
        rw [get_reread, hv, Option.map_some]
      have hbody := readBody_body r₀ (hwf f v hv) (hnone f List.mem_cons_self)
      rw [lines_cons_of_some hv, fill_cons_of_some r₀ hreread, List.append_assoc,
        List.cons_append, readLines_cons r₀ _ e (Field.newline_not_mem_body (hwf f v hv))
          (hlen f List.mem_cons_self v hv), hbody]
      refine ih _ hnodup.2 ?_ ?_
      · intro g hg
        -- the remaining fields are others, so they have no value yet
        rw [get_set_of_ne r₀ (ne_of_mem_of_not_mem hg hnodup.1)]
        exact hnone g (List.mem_cons_of_mem _ hg)
      · intro g hg
        exact hlen g (List.mem_cons_of_mem _ hg)

/-- A container is its first line and the lines of all fields. -/
theorem text_eq (r : Record) : r.text = magic ++ newline :: r.lines Field.written := by
  simp [text, pieces, lines, magic]

end Record

end SigningKeys
