import SigningKeys.Record.Unlocking
import SigningKeys.Proofs.FieldLine
import SigningKeys.Proofs.Lines

/-!
# The ends of lines

A line of a container ends with a newline, with or without a carriage return in front of it.  The
last line may also end with the carriage return alone, or with the byte string.  A reader takes the
end of a line off before it looks at the line, so a container that is spelled with other ends of
lines is the same container.

## Main definitions

* `lineEnds`, `lastLineEnds`: how a line may end.
* `Spells`: a byte string has these bodies of lines, each with an end of its own.
* `IsLineBody`: the bodies that have room for any end and do not look like a part of one.

## Main results

* `Record.readLine_of_lineEnd`: a line is read as its body, whatever its end.
* `Spells.parse_eq`: a container is what its bodies of lines amount to.
* `SecretKey.parse_load_of_spells`: **containers with the same bodies of lines are read and loaded
  alike.**
-/

namespace SigningKeys

open Byte

/-! ### Spellings -/

/-- How a line may end if there is another one behind it. -/
def lineEnds : List Bytes := [[newline], [carriageReturn, newline]]

/-- How the last line may end. -/
def lastLineEnds : List Bytes := lineEnds ++ [[carriageReturn], []]

/-- A byte string has these bodies of lines, and each line ends in one of the ways that it may. -/
inductive Spells : List Bytes → Bytes → Prop where
  /-- The last line. -/
  | last {body ending : Bytes} (h : ending ∈ lastLineEnds) : Spells [body] (body ++ ending)
  /-- A line with others behind it. -/
  | line {body ending bs : Bytes} {bodies : List Bytes} (h : ending ∈ lineEnds)
      (later : Spells bodies bs) : Spells (body :: bodies) (body ++ ending ++ bs)

/-- The body of a line, short enough for any end and without anything that looks like a part of
one. -/
structure IsLineBody (body : Bytes) : Prop where
  /-- Two more bytes fit into the window of a reader. -/
  length_le : body.length ≤ 1022
  /-- The line does not end in its body. -/
  newline_not_mem : newline ∉ body
  /-- The body does not end in a carriage return. -/
  getLast?_ne : body.getLast? ≠ some carriageReturn

/-! ### Lines and their bodies -/

section

variable {body ending : Bytes}

theorem mem_lastLineEnds_of_mem (h : ending ∈ lineEnds) : ending ∈ lastLineEnds :=
  List.mem_append_left _ h

theorem mem_lastLineEnds_iff : ending ∈ lastLineEnds ↔ ending = [newline] ∨
    ending = [carriageReturn, newline] ∨ ending = [carriageReturn] ∨ ending = [] := by
  simp [lastLineEnds, lineEnds]

/-- An end that others follow is a newline, with something in front of it that has none. -/
theorem exists_of_mem_lineEnds (h : ending ∈ lineEnds) :
    ∃ before, newline ∉ before ∧ ending = before ++ [newline] := by
  simp only [lineEnds, List.mem_cons, List.not_mem_nil, or_false] at h
  rcases h with rfl | rfl
  · exact ⟨[], by decide, rfl⟩
  · exact ⟨[carriageReturn], by decide, rfl⟩

namespace IsLineBody

/-- What is left of a line without its end is its body. -/
theorem lineBody_append (h : IsLineBody body) (hending : ending ∈ lastLineEnds) :
    lineBody (body ++ ending) = body := by
  have hsame := dropFinal_of_getLast? h.getLast?_ne
  have hreturn : newline ∉ body ++ [carriageReturn] := by
    rw [List.mem_append, not_or]
    exact ⟨h.newline_not_mem, by decide⟩
  rw [mem_lastLineEnds_iff] at hending
  rcases hending with rfl | rfl | rfl | rfl
  · rw [lineBody_of_newline, hsame]
  · have hcut : body ++ [carriageReturn, newline] = body ++ [carriageReturn] ++ [newline] := by simp
    rw [hcut, lineBody_of_newline, dropFinal_concat]
  · rw [lineBody_of_not_mem hreturn, dropFinal_concat]
  · rw [List.append_nil, lineBody_of_not_mem h.newline_not_mem, hsame]

/-- A line is short enough, whatever its end. -/
theorem not_isOverlong (h : IsLineBody body) (hending : ending ∈ lastLineEnds) :
    ¬ IsOverlong (body ++ ending) := by
  have hlen := h.length_le
  have hlimit : Layout.lineLimit = 1024 := rfl
  rw [mem_lastLineEnds_iff] at hending
  rcases hending with rfl | rfl | rfl | rfl
  all_goals
    simp only [IsOverlong, hlimit, List.length_append, List.length_cons, List.length_nil]
  · omega
  · have hterm : isTerminated (body ++ [carriageReturn, newline]) = true := by simp [isTerminated]
    simp only [hterm, Bool.true_eq_false, and_false, or_false]
    omega
  · omega
  · omega

/-- A line that others follow is cut off behind its end. -/
theorem lines_append (h : IsLineBody body) (hending : ending ∈ lineEnds) (bs : Bytes) :
    Bytes.lines (body ++ ending ++ bs) = (body ++ ending) :: Bytes.lines bs := by
  obtain ⟨before, hbefore, rfl⟩ := exists_of_mem_lineEnds hending
  have hnl : newline ∉ body ++ before := by
    rw [List.mem_append, not_or]
    exact ⟨h.newline_not_mem, hbefore⟩
  have hcut : body ++ (before ++ [newline]) ++ bs = body ++ before ++ newline :: bs := by simp
  rw [hcut, Bytes.lines_append_newline hnl, List.append_assoc]

/-- The last line is one line, unless it is empty and has no end. -/
theorem lines_last (h : IsLineBody body) (hending : ending ∈ lastLineEnds)
    (hne : body ++ ending ≠ []) : Bytes.lines (body ++ ending) = [body ++ ending] := by
  simp only [lastLineEnds, List.mem_append] at hending
  rcases hending with hending | hending
  · have hlines := h.lines_append hending []
    rwa [List.append_nil] at hlines
  · refine Bytes.lines_of_not_mem hne ?_
    rw [List.mem_append, not_or]
    refine ⟨h.newline_not_mem, ?_⟩
    simp only [List.mem_cons, List.not_mem_nil, or_false] at hending
    rcases hending with rfl | rfl <;> decide

end IsLineBody

end

/-! ### Reading containers by the bodies of their lines -/

namespace Record

/-- A line is read as its body, whatever its end. -/
theorem readLine_of_lineEnd (r : Record) {body ending : Bytes} (h : IsLineBody body)
    (hending : ending ∈ lastLineEnds) : r.readLine (body ++ ending) = r.readBody body := by
  rw [readLine, if_neg (h.not_isOverlong hending), lineBuffer, h.lineBody_append hending, readBody,
    dropFinal_of_getLast? h.getLast?_ne]

/-- An empty line changes nothing. -/
theorem readBody_nil (r : Record) : r.readBody [] = .ok r := by
  have hscan : r.scan [newline] = ⟨r, none⟩ := r.scan_blanks (by simp)
  exact Scanned.toExcept_eq_ok_iff.mpr hscan

end Record

namespace Spells

open Record

variable {bodies : List Bytes} {bs : Bytes}

/-- The lines of a byte string are read as their bodies. -/
theorem foldlM_readLine (h : Spells bodies bs) (hbodies : ∀ body ∈ bodies, IsLineBody body)
    (r : Record) : (Bytes.lines bs).foldlM readLine r = bodies.foldlM readBody r := by
  induction h generalizing r with
  | @last body ending hending =>
    have hbody := hbodies body List.mem_cons_self
    by_cases hempty : body ++ ending = []
    · -- an empty last line without an end is no line at all
      obtain ⟨rfl, rfl⟩ := List.append_eq_nil_iff.mp hempty
      exact (List.foldlM_cons.trans (by rw [readBody_nil]; rfl)).symm
    · rw [hbody.lines_last hending hempty, List.foldlM_cons, List.foldlM_cons,
        readLine_of_lineEnd r hbody hending]
      rfl
  | @line body ending bs bodies hending later ih =>
    obtain ⟨hbody, hlater⟩ := List.forall_mem_cons.mp hbodies
    rw [hbody.lines_append hending, List.foldlM_cons, List.foldlM_cons,
      readLine_of_lineEnd r hbody (mem_lastLineEnds_of_mem hending)]
    exact congrArg _ (funext fun r' => ih hlater r')

/-- A container whose first line has a body is what the bodies of its lines amount to: the first one
is fixed, and the others are read into an empty record. -/
theorem parse_eq {first : Bytes} (h : Spells (first :: bodies) bs)
    (hbodies : ∀ body ∈ first :: bodies, IsLineBody body) (hne : first ≠ []) :
    parse (.ofBytes bs) =
      if first = Utf8.encode Layout.privateMagic then .ofExcept (bodies.foldlM readBody empty)
      else (Outcome.log (.rejected "private key" "magic line mismatch")).bind fun _ =>
        .error (.format .wrongMagic) := by
  obtain ⟨hfirst, hlater⟩ := List.forall_mem_cons.mp hbodies
  obtain ⟨ending, rest, hending, hlines, hread⟩ : ∃ ending rest, ending ∈ lastLineEnds ∧
      Bytes.lines bs = (first ++ ending) :: Bytes.lines rest ∧
      (Bytes.lines rest).foldlM readLine empty = bodies.foldlM readBody empty := by
    cases h with
    | @last _ ending hending =>
      exact ⟨ending, [], hending, hfirst.lines_last hending (by simp [hne]), rfl⟩
    | @line _ ending rest _ hending later =>
      exact ⟨ending, rest, mem_lastLineEnds_of_mem hending, hfirst.lines_append hending rest,
        later.foldlM_readLine hlater empty⟩
  obtain ⟨rest', hrest, hparse⟩ := parse_of_lines hlines (.inr rfl)
  rw [Stream.ofBytes, hparse, if_neg (hfirst.not_isOverlong hending),
    hfirst.lineBody_append hending, Bytes.lines_injective hrest, ← hread, ← readLines_eq_foldlM]
  rfl

end Spells

namespace SecretKey

/-- Two byte strings have the same bodies of lines, of which the first is not empty: whatever ends
their lines have, they are read with one outcome, and loaded with one outcome under any source and
any settings. -/
theorem parse_load_of_spells {first : Bytes} {bodies : List Bytes} {bs bs' : Bytes}
    (hbodies : ∀ body ∈ first :: bodies, IsLineBody body) (hne : first ≠ [])
    (h : Spells (first :: bodies) bs) (h' : Spells (first :: bodies) bs') :
    Record.parse (.ofBytes bs) = Record.parse (.ofBytes bs') ∧
      ∀ source settings entropy,
        load (.ofBytes bs) source settings entropy =
          load (.ofBytes bs') source settings entropy := by
  have hparse : Record.parse (.ofBytes bs) = Record.parse (.ofBytes bs') := by
    rw [h.parse_eq hbodies hne, h'.parse_eq hbodies hne]
  refine ⟨hparse, fun source settings entropy => ?_⟩
  simp only [load, hparse]

/-- A carriage return inside a line stays what it is, and the last line may be there or not if its
body is empty. -/
theorem parse_load_of_mixed_ends :
    (∀ body ∈ ["ASIGN-PRIV-KEY:", "kdf: a\rb ", ""].map Utf8.encode, IsLineBody body) ∧
      Utf8.encode "ASIGN-PRIV-KEY:" ≠ [] ∧
      Spells (["ASIGN-PRIV-KEY:", "kdf: a\rb ", ""].map Utf8.encode)
        (Utf8.encode "ASIGN-PRIV-KEY:\r\nkdf: a\rb \n\r") ∧
      Spells (["ASIGN-PRIV-KEY:", "kdf: a\rb ", ""].map Utf8.encode)
        (Utf8.encode "ASIGN-PRIV-KEY:\nkdf: a\rb \r\n") ∧
      Record.parse (.ofBytes (Utf8.encode "ASIGN-PRIV-KEY:\r\nkdf: a\rb \n\r")) =
        Record.parse (.ofBytes (Utf8.encode "ASIGN-PRIV-KEY:\nkdf: a\rb \r\n")) := by
  have hbodies : ∀ body ∈ ["ASIGN-PRIV-KEY:", "kdf: a\rb ", ""].map Utf8.encode,
      IsLineBody body := by
    intro body hbody
    simp only [List.map_cons, List.map_nil, List.mem_cons, List.not_mem_nil, or_false] at hbody
    rcases hbody with rfl | rfl | rfl
    all_goals exact ⟨by decide +kernel, by decide +kernel, by decide +kernel⟩
  have hne : Utf8.encode "ASIGN-PRIV-KEY:" ≠ [] := by decide +kernel
  have hspells : Spells (["ASIGN-PRIV-KEY:", "kdf: a\rb ", ""].map Utf8.encode)
      (Utf8.encode "ASIGN-PRIV-KEY:\r\nkdf: a\rb \n\r") := by
    have hbytes : Utf8.encode "ASIGN-PRIV-KEY:\r\nkdf: a\rb \n\r" =
        Utf8.encode "ASIGN-PRIV-KEY:" ++ [carriageReturn, newline] ++
          (Utf8.encode "kdf: a\rb " ++ [newline] ++ (Utf8.encode "" ++ [carriageReturn])) := by
      decide +kernel
    rw [hbytes]
    exact .line (by decide) (.line (by decide) (.last (by decide)))
  have hspells' : Spells (["ASIGN-PRIV-KEY:", "kdf: a\rb ", ""].map Utf8.encode)
      (Utf8.encode "ASIGN-PRIV-KEY:\nkdf: a\rb \r\n") := by
    have hbytes : Utf8.encode "ASIGN-PRIV-KEY:\nkdf: a\rb \r\n" =
        Utf8.encode "ASIGN-PRIV-KEY:" ++ [newline] ++
          (Utf8.encode "kdf: a\rb " ++ [carriageReturn, newline] ++ (Utf8.encode "" ++ [])) := by
      decide +kernel
    rw [hbytes]
    exact .line (by decide) (.line (by decide) (.last (by decide)))
  exact ⟨hbodies, hne, hspells, hspells',
    (parse_load_of_spells hbodies hne hspells hspells').1⟩

end SecretKey

end SigningKeys
