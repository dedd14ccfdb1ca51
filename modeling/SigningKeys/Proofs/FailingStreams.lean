import Mathlib.Data.List.DropRight
import SigningKeys.Proofs.Lines

/-!
# Streams that fail

A stream that fails has delivered some lines with their newlines and the beginning of one more
line.  The whole lines are read as those of any other stream, so a fault in them is found before the
failure.  The beginning of a line is never taken for a line: it is too long, or the stream has
failed in it, and what was read before is given up.  A read that was only interrupted is made again,
and leaves no trace.

## Main definitions

* `Bytes.wholeLines`, `Bytes.openLine`: the lines that have their newlines, and what is behind them.
* `Stream.breakOff`: why the line is refused in which a stream fails.
* `Record.FirstFault`: the first of some lines that is at fault.

## Main results

* `Bytes.flatten_wholeLines_append_openLine`: nothing is lost between the two.
* `Record.readLines_failing`: reading a stream that fails is going through its whole lines.
* `Record.parse_failing`: **a stream that fails never yields a record, and the first fault in it
  is found.**
-/

namespace SigningKeys

open Byte

/-! ### What a stream has delivered -/

namespace Bytes

/-- The lines of a byte string that have their newlines. -/
def wholeLines (bs : Bytes) : List Bytes := (lines bs).filter isTerminated

/-- What stands behind the last newline of a byte string. -/
def openLine (bs : Bytes) : Bytes := bs.rtakeWhile (· != newline)

theorem wholeLines_of_not_mem {body : Bytes} (h : newline ∉ body) : wholeLines body = [] := by
  by_cases hne : body = []
  · subst hne
    rfl
  · rw [wholeLines, lines_of_not_mem hne h, List.filter_cons_of_neg, List.filter_nil]
    rw [isTerminated_eq_false h]
    exact Bool.false_ne_true

theorem wholeLines_append_newline {body : Bytes} (h : newline ∉ body) (rest : Bytes) :
    wholeLines (body ++ newline :: rest) = (body ++ [newline]) :: wholeLines rest := by
  have hterm : isTerminated (body ++ [newline]) = true := by simp [isTerminated]
  rw [wholeLines, lines_append_newline h, List.filter_cons_of_pos hterm, wholeLines]

theorem openLine_of_not_mem {body : Bytes} (h : newline ∉ body) : openLine body = body := by
  refine List.rtakeWhile_eq_self_iff.mpr fun b hb => bne_iff_ne.mpr ?_
  exact ne_of_mem_of_not_mem hb h

theorem newline_not_mem_openLine (bs : Bytes) : newline ∉ openLine bs := by
  intro hmem
  have hne : (newline != newline) = true :=
    List.mem_rtakeWhile_imp (p := (· != newline)) hmem
  cases hne

theorem openLine_append_newline (before rest : Bytes) :
    openLine (before ++ newline :: rest) = openLine rest := by
  induction rest using List.reverseRecOn with
  | nil => exact List.rtakeWhile_concat_neg _ _ _ (by simp)
  | append_singleton rest b ih =>
    have hcut : before ++ newline :: (rest ++ [b]) = before ++ newline :: rest ++ [b] := by simp
    simp only [openLine] at ih ⊢
    rw [hcut, List.rtakeWhile_concat, List.rtakeWhile_concat, ih]

/-- Nothing is lost between the lines that have their newlines and what is behind them. -/
theorem flatten_wholeLines_append_openLine (bs : Bytes) :
    (wholeLines bs).flatten ++ openLine bs = bs := by
  induction bs using lineInduction with
  | last body h => rw [wholeLines_of_not_mem h, openLine_of_not_mem h, List.flatten_nil,
      List.nil_append]
  | line body rest h ih =>
    rw [wholeLines_append_newline h, openLine_append_newline, List.flatten_cons, List.append_assoc,
      ih, List.append_assoc, List.singleton_append]

end Bytes

/-! ### The line in which a stream fails -/

namespace Stream

/-- Why the line is refused in which a stream fails, of which this part was delivered: it is too
long already, or the failure is passed on. -/
def breakOff (line : Bytes) (fault : IoFault) : KeyError :=
  if Layout.lineLimit ≤ line.length then .format .overlongLine else .io fault

theorem line_of_breakOff {body : Bytes} (fault : IoFault) (h : newline ∉ body) :
    Stream.line ⟨body, .failing fault⟩ = .error (breakOff body fault) := by
  rw [breakOff]
  by_cases hlong : Layout.lineLimit ≤ body.length
  · rw [if_pos hlong]
    exact line_of_long _ (fun hmem => h (List.mem_of_mem_take hmem)) hlong
  · rw [if_neg hlong]
    exact line_of_open (.failing fault) h (Nat.not_le.mp hlong)

end Stream

namespace Record

/-! ### Reading a stream that fails -/

/-- Reading a stream that fails is going through its whole lines, up to the first fault; behind them
the last line breaks off. -/
theorem readLines_failing (r : Record) (bs : Bytes) (fault : IoFault) :
    r.readLines ⟨bs, .failing fault⟩ =
      ((Bytes.wholeLines bs).foldlM readLine r).bind fun _ =>
        .error (Stream.breakOff (Bytes.openLine bs) fault) := by
  induction bs using Bytes.lineInduction generalizing r with
  | last body h =>
    rw [readLines_of_error (Stream.line_of_breakOff fault h), Bytes.wholeLines_of_not_mem h,
      Bytes.openLine_of_not_mem h]
    rfl
  | line body rest h ih =>
    have hwhole : (Ending.failing fault).Completes (body ++ [newline]) :=
      .inl (by simp [isTerminated])
    obtain ⟨rest', hrest, hread⟩ :=
      readLines_of_lines r (Bytes.lines_append_newline h rest) hwhole
    rw [Bytes.lines_injective hrest] at hread
    rw [hread, Bytes.wholeLines_append_newline h, Bytes.openLine_append_newline, List.foldlM_cons]
    cases r.readLine (body ++ [newline]) with
    | error e => rfl
    | ok r' => exact ih r'

/-- A stream that fails in its first line yields nothing but that. -/
theorem result_parse_failing_open {bs : Bytes} (fault : IoFault) (h : Bytes.wholeLines bs = []) :
    (parse ⟨bs, .failing fault⟩).result =
      .error (Stream.breakOff (Bytes.openLine bs) fault) := by
  have hopen : Bytes.openLine bs = bs := by
    have hparts := Bytes.flatten_wholeLines_append_openLine bs
    rwa [h, List.flatten_nil, List.nil_append] at hparts
  have hline := Stream.line_of_breakOff fault (Bytes.newline_not_mem_openLine bs)
  rw [hopen] at hline ⊢
  simp only [parse, hline]
  rfl

/-- A stream that fails later is read as the container of its whole lines, and then breaks off. -/
theorem result_parse_failing {bs : Bytes} (fault : IoFault) (h : Bytes.wholeLines bs ≠ []) :
    (parse ⟨bs, .failing fault⟩).result =
      (parseLines (Bytes.wholeLines bs)).bind fun _ =>
        .error (Stream.breakOff (Bytes.openLine bs) fault) := by
  cases bs using Bytes.lineInduction with
  | last body hbody => exact absurd (Bytes.wholeLines_of_not_mem hbody) h
  | line body rest hbody _ =>
    have hwhole : (Ending.failing fault).Completes (body ++ [newline]) :=
      .inl (by simp [isTerminated])
    obtain ⟨rest', hrest, hparse⟩ := parse_of_lines (Bytes.lines_append_newline hbody rest) hwhole
    rw [Bytes.lines_injective hrest] at hparse
    rw [hparse, Bytes.wholeLines_append_newline hbody, Bytes.openLine_append_newline, parseLines]
    split
    · rfl
    · split
      · exact readLines_failing empty rest fault
      · rfl

/-! ### The first fault -/

/-- A line is the first of some lines that is at fault: the lines in front of it are read, and with
it they are not. -/
def FirstFault (lines : List Bytes) (e : KeyError) : Prop :=
  ∃ before line later, lines = before ++ line :: later ∧
    (before = [] ∨ ∃ r, parseLines before = .ok r) ∧ parseLines (before ++ [line]) = .error e

theorem parseLines_append {before : List Bytes} (hne : before ≠ []) (later : List Bytes) :
    parseLines (before ++ later) =
      (parseLines before).bind fun r => later.foldlM readLine r := by
  obtain ⟨first, before, rfl⟩ := List.exists_cons_of_ne_nil hne
  rw [List.cons_append, parseLines, parseLines]
  split
  · rfl
  · split
    · exact List.foldlM_append
    · rfl

/-- Whatever is wrong with lines that are read on is their format. -/
theorem format_of_foldlM_readLine {r : Record} {lines : List Bytes} {e : KeyError}
    (h : lines.foldlM readLine r = .error e) : ∃ fault, e = .format fault := by
  induction lines generalizing r with
  | nil => cases h
  | cons line lines ih =>
    rw [List.foldlM_cons] at h
    cases hline : r.readLine line with
    | error e' =>
      rw [hline] at h
      cases h
      exact format_of_readLine hline
    | ok r' =>
      rw [hline] at h
      exact ih h

theorem format_of_parseLines {lines : List Bytes} {e : KeyError} (h : parseLines lines = .error e) :
    ∃ fault, e = .format fault := by
  unfold parseLines at h
  split at h
  · cases h
    exact ⟨_, rfl⟩
  · split at h
    · cases h
      exact ⟨_, rfl⟩
    · split at h
      · exact format_of_foldlM_readLine h
      · cases h
        exact ⟨_, rfl⟩

/-- Lines that are not read have a first one at fault, and its error is that of the lines. -/
theorem firstFault_iff {lines : List Bytes} {e : KeyError} :
    FirstFault lines e ↔ lines ≠ [] ∧ parseLines lines = .error e := by
  constructor
  · intro h
    obtain ⟨before, line, later, rfl, -, herror⟩ := h
    have hcut : before ++ line :: later = before ++ [line] ++ later := by simp
    refine ⟨by simp, ?_⟩
    rw [hcut, parseLines_append (by simp), herror]
    rfl
  · intro h
    obtain ⟨hne, herror⟩ := h
    induction lines using List.reverseRecOn with
    | nil => exact absurd rfl hne
    | append_singleton lines line ih =>
      by_cases hnil : lines = []
      · subst hnil
        exact ⟨[], line, [], rfl, .inl rfl, herror⟩
      · cases hparse : parseLines lines with
        | ok r => exact ⟨lines, line, [], rfl, .inr ⟨r, hparse⟩, herror⟩
        | error e' =>
          -- an earlier line is at fault already, and its error is the one that is found
          rw [parseLines_append hnil, hparse] at herror
          cases herror
          obtain ⟨before, first, later, rfl, hbefore, hfirst⟩ := ih hnil hparse
          exact ⟨before, first, later ++ [line], by simp, hbefore, hfirst⟩

/-- A stream delivers the bytes in front of the byte number `n`, and then a read fails.  If it was
interrupted, it is made again, any number of times, and the container is read as if nothing had
happened.  Otherwise the stream has failed: if one of the lines that were delivered whole is at
fault, the first of them tells the error, which is one of format; if none is, the rest of what was
delivered is too long for a line, or the failure is passed on.  So a record never comes of a stream
that has failed, whatever was read before. -/
theorem parse_failing {bs : Bytes} {n : ℕ} (kind : ReadFault) (again : ℕ) (hn : n ≤ bs.length) :
    (kind = .interrupted → parse (.failingAt bs n kind again) = parse (.ofBytes bs)) ∧
      ∀ fault, kind = .final fault →
        (∀ e, FirstFault (Bytes.wholeLines (bs.take n)) e →
            (parse (.failingAt bs n kind again)).result = .error e ∧ ∃ f, e = .format f) ∧
          ((∀ e, ¬ FirstFault (Bytes.wholeLines (bs.take n)) e) →
            (parse (.failingAt bs n kind again)).result =
              .error (if 1024 ≤ (Bytes.openLine (bs.take n)).length then .format .overlongLine
                else .io fault)) ∧
          ∀ r, (parse (.failingAt bs n kind again)).result ≠ .ok r := by
  refine ⟨fun hkind => by rw [hkind, Stream.failingAt_interrupted], ?_⟩
  intro fault hkind
  rw [hkind, Stream.failingAt_final fault again hn]
  have hfaulty : ∀ e, FirstFault (Bytes.wholeLines (bs.take n)) e →
      (parse ⟨bs.take n, .failing fault⟩).result = .error e := by
    intro e he
    obtain ⟨hne, herror⟩ := firstFault_iff.mp he
    rw [result_parse_failing fault hne, herror]
    rfl
  have hfaultless : (∀ e, ¬ FirstFault (Bytes.wholeLines (bs.take n)) e) →
      (parse ⟨bs.take n, .failing fault⟩).result =
        .error (Stream.breakOff (Bytes.openLine (bs.take n)) fault) := by
    intro hnone
    by_cases hne : Bytes.wholeLines (bs.take n) = []
    · rw [result_parse_failing_open fault hne]
    · cases hparse : parseLines (Bytes.wholeLines (bs.take n)) with
      | error e => exact absurd (firstFault_iff.mpr ⟨hne, hparse⟩) (hnone e)
      | ok r =>
        rw [result_parse_failing fault hne, hparse]
        rfl
  refine ⟨?_, hfaultless, ?_⟩
  · intro e he
    obtain ⟨-, herror⟩ := firstFault_iff.mp he
    exact ⟨hfaulty e he, format_of_parseLines herror⟩
  · intro r hr
    by_cases hnone : ∃ e, FirstFault (Bytes.wholeLines (bs.take n)) e
    · obtain ⟨e, he⟩ := hnone
      rw [hfaulty e he] at hr
      cases hr
    · rw [hfaultless (not_exists.mp hnone)] at hr
      cases hr

/-- A stream that fails right behind a complete container yields no record, one that fails in the
line behind a faulty one is refused for the faulty one, and one that is interrupted between two
lines is read to its end. -/
theorem parse_failing_behind_lines :
    27 ≤ (Utf8.encode "ASIGN-PRIV-KEY:\nversion: 1\n").length ∧
      (parse (.failingAt (Utf8.encode "ASIGN-PRIV-KEY:\nversion: 1\n") 27
          (.final .timedOut) 0)).result = .error (.io .timedOut) ∧
      29 ≤ (Utf8.encode "ASIGN-PRIV-KEY:\nversion: x\nid: 00").length ∧
      (parse (.failingAt (Utf8.encode "ASIGN-PRIV-KEY:\nversion: x\nid: 00") 29
          (.final .other) 0)).result = .error (.format (.line .malformed)) ∧
      parse (.failingAt (Utf8.encode "ASIGN-PRIV-KEY:\nversion: 1\n") 27 .interrupted 2) =
        parse (.ofBytes (Utf8.encode "ASIGN-PRIV-KEY:\nversion: 1\n")) := by
  have hend : 27 ≤ (Utf8.encode "ASIGN-PRIV-KEY:\nversion: 1\n").length := by decide +kernel
  have hlater : 29 ≤ (Utf8.encode "ASIGN-PRIV-KEY:\nversion: x\nid: 00").length := by
    decide +kernel
  refine ⟨hend, ((parse_failing _ 0 hend).2 _ rfl).2.1 ?_, hlater,
    (((parse_failing _ 0 hlater).2 _ rfl).1 _ (firstFault_iff.mpr ⟨?_, ?_⟩)).1,
    (parse_failing _ 2 hend).1 rfl⟩
  · intro e he
    have hread : parseLines (Bytes.wholeLines
        ((Utf8.encode "ASIGN-PRIV-KEY:\nversion: 1\n").take 27)) =
          .ok { empty with version := some 1 } := by
      decide +kernel
    rw [(firstFault_iff.mp he).2] at hread
    cases hread
  · decide +kernel
  · decide +kernel

/-- A read that fails does not keep a record from being read if it was interrupted only: the failure
is not passed on. -/
theorem exists_record_of_interrupted :
    ∃ bs n r, n ≤ bs.length ∧ (parse (.failingAt bs n .interrupted 0)).result = .ok r := by
  refine ⟨Utf8.encode "ASIGN-PRIV-KEY:\nversion: 1\n", 16, { empty with version := some 1 }, ?_, ?_⟩
  · decide +kernel
  · rw [Stream.failingAt_interrupted]
    decide +kernel

end Record

end SigningKeys
