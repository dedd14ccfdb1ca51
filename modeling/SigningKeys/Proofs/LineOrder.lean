import Mathlib.Data.List.Perm.Basic
import SigningKeys.Record.Unlocking
import SigningKeys.Proofs.LineGrammar
import SigningKeys.Proofs.Lines

/-!
# The order of lines

A line that is read says nothing about the lines around it: it stores a value in a field of its own,
which has to be free, or it stores nothing.  So two lines can change places, and the lines of a
container can stand in any order, with any blank lines between them.

## Main definitions

* `isBlankLine`: the lines that store nothing.
* `IsContainer`: the containers that are made of a first line and of short lines that all end.
* `Rearranged`: the same lines in another order, and other blank lines between them.
* `Record.ReadsAll`: the lines that can be read into a record one after the other.

## Main results

* `Record.Reads.swap`: two lines that are read one after the other can change places.
* `Record.ReadsAll.perm`, `Record.readsAll_filter`: what is read does not depend on the order of
  the lines, nor on the blank ones.
* `Record.parse_of_rearranged`: **a container is read as any other with the same lines, and loaded
  with the same outcome.**
-/

namespace SigningKeys

open Byte

/-! ### Containers by their lines -/

/-- Whether a line has nothing but blanks, the end of the line among them. -/
def isBlankLine (line : Bytes) : Bool := line.all isBlank

/-- A byte string is a first line and these lines behind it, which all end and fit into the window
of the reader. -/
structure IsContainer (bs : Bytes) (lines : List Bytes) : Prop where
  /-- The first line is the fixed one. -/
  magic : ∃ first, Bytes.lines bs = first :: lines ∧ lineBody first = Record.magic
  /-- The lines end with newlines. -/
  terminated : ∀ line ∈ lines, isTerminated line = true
  /-- The lines are short. -/
  fits : ∀ line ∈ lines, line.length ≤ Layout.lineLimit

/-- The lines that are not blank are the same, in some order. -/
def Rearranged (lines lines' : List Bytes) : Prop :=
  (lines.filter fun line => !isBlankLine line).Perm (lines'.filter fun line => !isBlankLine line)

theorem not_isOverlong_of_magic {line : Bytes} (h : lineBody line = Record.magic) :
    ¬ IsOverlong line := by
  have hnewline := length_le_dropFinal newline line
  have hreturn := length_le_dropFinal carriageReturn (Bytes.dropFinal newline line)
  have hmagic : (lineBody line).length = 15 := by
    rw [h]
    decide
  rw [lineBody] at hmagic
  have hlimit : Layout.lineLimit = 1024 := rfl
  simp only [IsOverlong, hlimit]
  omega

namespace IsContainer

variable {bs : Bytes} {lines : List Bytes}

theorem newline_not_mem_lineBody (h : IsContainer bs lines) {line : Bytes}
    (hline : line ∈ lines) : newline ∉ lineBody line := by
  obtain ⟨first, hlines, -⟩ := h.magic
  have hmem : line ∈ Bytes.lines bs := hlines ▸ List.mem_cons_of_mem first hline
  exact Record.newline_not_mem_lineBody (Bytes.newline_not_mem_dropLast_of_mem_lines hmem)

theorem not_isOverlong (h : IsContainer bs lines) {line : Bytes} (hline : line ∈ lines) :
    ¬ IsOverlong line := by
  simp only [IsOverlong, h.terminated line hline, Bool.true_eq_false, and_false, or_false, not_lt]
  exact h.fits line hline

/-- Behind the first line, a container is what its lines make of an empty record. -/
theorem parse_eq (h : IsContainer bs lines) :
    Record.parse (.ofBytes bs) = .ofExcept (lines.foldlM Record.readLine Record.empty) := by
  obtain ⟨first, hlines, hfirst⟩ := h.magic
  have hwhole : Ending.closed.Completes first := .inr rfl
  have hmagic : lineBody first = Utf8.encode Layout.privateMagic := hfirst
  obtain ⟨rest, rfl, hparse⟩ := Record.parse_of_lines hlines hwhole
  rw [Stream.ofBytes, hparse, if_neg (not_isOverlong_of_magic hfirst), if_pos hmagic,
    ← Record.readLines_eq_foldlM]
  rfl

end IsContainer

/-! ### Two lines -/

namespace Record

variable {r r' r₁ r₂ : Record} {line line' : Bytes} {lines lines' : List Bytes}

/-- A blank line stores nothing. -/
theorem Reads.eq_of_blank (h : r.Reads line r') (hblank : ∀ b ∈ line, isBlank b = true) :
    r' = r := by
  cases h with
  | blank => rfl
  | field hline =>
    -- the line of a field has a colon, which is no blank
    obtain ⟨before, between, -, -, -, rfl⟩ := hline
    have hcolon := hblank colon (by simp)
    cases hcolon

/-- Two lines that are read one after the other can change places. -/
theorem Reads.swap (h : r.Reads line r₁) (h' : r₁.Reads line' r₂) :
    ∃ r₁', r.Reads line' r₁' ∧ r₁'.Reads line r₂ := by
  cases h with
  | blank hblank => exact ⟨r₂, h', .blank hblank⟩
  | @field f value _ hline hfree hadmits hset hothers =>
    cases h' with
    | blank hblank => exact ⟨r, .blank hblank, .field hline hfree hadmits hset hothers⟩
    | @field g value' _ hline' hfree' hadmits' hset' hothers' =>
      -- the second line finds its field free, so it is not the field of the first
      have hne : g ≠ f := by
        rintro rfl
        rw [hset] at hfree'
        cases hfree'
      have hfree'' : r.get g = none := by rw [← hothers g hne, hfree']
      have hset'' := get_set r g (g.kind.meaning value')
      refine ⟨r.set g (g.kind.meaning value'),
        .field hline' hfree'' hadmits' hset'' fun h hh => get_set_of_ne r hh _,
        .field hline ?_ hadmits ?_ ?_⟩
      · rw [get_set_of_ne r hne.symm, hfree]
      · rw [hothers' f hne.symm, hset]
      · intro h hh
        by_cases hg : h = g
        · subst hg
          rw [hset', hset'']
        · rw [hothers' h hg, hothers h hh, get_set_of_ne r hg]

/-! ### Any number of lines -/

/-- The lines that can be read into a record one after the other, and the record that they make of
it. -/
inductive ReadsAll : Record → List Bytes → Record → Prop where
  /-- No lines change nothing. -/
  | nil (r : Record) : ReadsAll r [] r
  /-- A line, and the lines behind it. -/
  | cons {r r₁ r₂ : Record} {line : Bytes} {later : List Bytes}
      (hline : r.Reads (lineBody line) r₁) (hlater : ReadsAll r₁ later r₂) :
      ReadsAll r (line :: later) r₂

theorem readsAll_nil_iff : r.ReadsAll [] r' ↔ r' = r := by
  constructor
  · intro h
    cases h
    rfl
  · rintro rfl
    exact .nil r'

theorem readsAll_cons_iff :
    r.ReadsAll (line :: lines) r' ↔ ∃ r₁, r.Reads (lineBody line) r₁ ∧ r₁.ReadsAll lines r' := by
  constructor
  · intro h
    cases h with
    | cons hline hlater => exact ⟨_, hline, hlater⟩
  · intro h
    obtain ⟨r₁, hline, hlater⟩ := h
    exact .cons hline hlater

/-- The order of the lines does not matter. -/
theorem ReadsAll.perm (hperm : lines.Perm lines') (h : r.ReadsAll lines r') :
    r.ReadsAll lines' r' := by
  induction hperm generalizing r with
  | nil => exact h
  | cons line _ ih =>
    cases h with
    | cons hline hlater => exact .cons hline (ih hlater)
  | swap line line' later =>
    obtain ⟨r₁, hline', h⟩ := readsAll_cons_iff.mp h
    obtain ⟨r₂, hline, hlater⟩ := readsAll_cons_iff.mp h
    obtain ⟨r₁', hfirst, hsecond⟩ := hline'.swap hline
    exact .cons hfirst (.cons hsecond hlater)
  | trans _ _ ih₁ ih₂ => exact ih₂ (ih₁ h)

/-- Blank lines do not matter. -/
theorem readsAll_filter :
    r.ReadsAll (lines.filter fun line => !isBlankLine line) r' ↔ r.ReadsAll lines r' := by
  induction lines generalizing r with
  | nil => rfl
  | cons line lines ih =>
    by_cases hblank : isBlankLine line = true
    · have hbody : ∀ b ∈ lineBody line, isBlank b = true := by
        intro b hb
        have hinitial : lineBody line <+: line :=
          (dropFinal_isPrefix carriageReturn _).trans (dropFinal_isPrefix newline line)
        exact List.all_eq_true.mp hblank b (hinitial.subset hb)
      rw [List.filter_cons_of_neg (by simp [hblank]), ih, readsAll_cons_iff]
      constructor
      · intro h
        exact ⟨r, .blank hbody, h⟩
      · intro h
        obtain ⟨r₁, hline, h⟩ := h
        rwa [hline.eq_of_blank hbody] at h
    · rw [List.filter_cons_of_pos (by simp [hblank]), readsAll_cons_iff, readsAll_cons_iff]
      simp only [ih]

theorem readsAll_of_rearranged (h : Rearranged lines lines') :
    r.ReadsAll lines r' ↔ r.ReadsAll lines' r' := by
  have hperm : r.ReadsAll (lines.filter fun line => !isBlankLine line) r' ↔
      r.ReadsAll (lines'.filter fun line => !isBlankLine line) r' := ⟨.perm h, .perm h.symm⟩
  exact readsAll_filter.symm.trans (hperm.trans readsAll_filter)

/-! ### Whole containers -/

/-- A short line is read exactly if what is left of it without its end can be read. -/
theorem readLine_eq_ok_iff_reads (hfits : ¬ IsOverlong line) (hnl : newline ∉ lineBody line) :
    r.readLine line = .ok r' ↔ r.Reads (lineBody line) r' := by
  rw [readLine_eq_ok_iff, and_iff_right hfits]
  exact scan_eq_ok_iff_reads hnl

theorem foldlM_readLine_eq_ok_iff
    (hlines : ∀ line ∈ lines, ¬ IsOverlong line ∧ newline ∉ lineBody line) :
    lines.foldlM readLine r = .ok r' ↔ r.ReadsAll lines r' := by
  induction lines generalizing r with
  | nil =>
    rw [readsAll_nil_iff, List.foldlM_nil, eq_comm]
    exact Except.ok.injEq r' r ▸ Iff.rfl
  | cons line lines ih =>
    rw [List.forall_mem_cons] at hlines
    obtain ⟨⟨hfits, hnl⟩, hlater⟩ := hlines
    rw [List.foldlM_cons, exceptBind_eq_ok_iff, readsAll_cons_iff]
    simp only [readLine_eq_ok_iff_reads hfits hnl, ih hlater]

theorem parse_eq_ok_iff_readsAll {bs : Bytes} (h : IsContainer bs lines) :
    (parse (.ofBytes bs)).result = .ok r ↔ empty.ReadsAll lines r := by
  rw [h.parse_eq, Outcome.result_ofExcept, foldlM_readLine_eq_ok_iff]
  intro line hline
  exact ⟨h.not_isOverlong hline, h.newline_not_mem_lineBody hline⟩

/-- Containers with the same lines, in whatever order and with whatever blank lines between them,
are read alike: both give the same record or both give none.  If they give one, they are loaded with
the same outcome, in its result as in its traces. -/
theorem parse_of_rearranged {bs bs' : Bytes} {lines lines' : List Bytes} (h : IsContainer bs lines)
    (h' : IsContainer bs' lines') (hlines : Rearranged lines lines') :
    (∀ r, (parse (.ofBytes bs)).result = .ok r ↔ (parse (.ofBytes bs')).result = .ok r) ∧
      ∀ r source settings entropy, (parse (.ofBytes bs)).result = .ok r →
        SecretKey.load (.ofBytes bs) source settings entropy =
          SecretKey.load (.ofBytes bs') source settings entropy := by
  have hiff : ∀ r, (parse (.ofBytes bs)).result = .ok r ↔
      (parse (.ofBytes bs')).result = .ok r := by
    intro r
    rw [parse_eq_ok_iff_readsAll h, parse_eq_ok_iff_readsAll h', readsAll_of_rearranged hlines]
  refine ⟨hiff, ?_⟩
  intro r source settings entropy hr
  have hr' := (hiff r).mp hr
  rw [h.parse_eq, Outcome.result_ofExcept] at hr
  rw [h'.parse_eq, Outcome.result_ofExcept] at hr'
  rw [SecretKey.load, SecretKey.load, h.parse_eq, h'.parse_eq, hr, hr']

/-- Two lines with an empty line between them, and the same lines the other way round behind a line
of blanks. -/
theorem parse_two_lines_of_rearranged :
    IsContainer (Utf8.encode "ASIGN-PRIV-KEY:\nversion: 1\n\nkdf: a\n")
        (["version: 1\n", "\n", "kdf: a\n"].map Utf8.encode) ∧
      IsContainer (Utf8.encode "ASIGN-PRIV-KEY:\r\n \t\r\nkdf: a\nversion: 1\n")
        ([" \t\r\n", "kdf: a\n", "version: 1\n"].map Utf8.encode) ∧
      Rearranged (["version: 1\n", "\n", "kdf: a\n"].map Utf8.encode)
        ([" \t\r\n", "kdf: a\n", "version: 1\n"].map Utf8.encode) ∧
      (parse (.ofBytes (Utf8.encode "ASIGN-PRIV-KEY:\r\n \t\r\nkdf: a\nversion: 1\n"))).result =
        .ok { empty with version := some 1, kdf := some "a" } := by
  have h : IsContainer (Utf8.encode "ASIGN-PRIV-KEY:\nversion: 1\n\nkdf: a\n")
      (["version: 1\n", "\n", "kdf: a\n"].map Utf8.encode) :=
    ⟨⟨Utf8.encode "ASIGN-PRIV-KEY:\n", by decide +kernel⟩, by decide +kernel, by decide +kernel⟩
  have h' : IsContainer (Utf8.encode "ASIGN-PRIV-KEY:\r\n \t\r\nkdf: a\nversion: 1\n")
      ([" \t\r\n", "kdf: a\n", "version: 1\n"].map Utf8.encode) :=
    ⟨⟨Utf8.encode "ASIGN-PRIV-KEY:\r\n", by decide +kernel⟩, by decide +kernel,
      by decide +kernel⟩
  have hlines : Rearranged (["version: 1\n", "\n", "kdf: a\n"].map Utf8.encode)
      ([" \t\r\n", "kdf: a\n", "version: 1\n"].map Utf8.encode) := by
    unfold Rearranged
    decide +kernel
  have hparse : (parse (.ofBytes (Utf8.encode "ASIGN-PRIV-KEY:\nversion: 1\n\nkdf: a\n"))).result =
      .ok { empty with version := some 1, kdf := some "a" } := by
    decide +kernel
  exact ⟨h, h', hlines, ((parse_of_rearranged h h' hlines).1 _).mp hparse⟩

end Record

end SigningKeys
