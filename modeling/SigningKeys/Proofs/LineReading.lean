import Mathlib.Data.List.Basic
import SigningKeys.Container.Reading

/-!
# Streams read line by line

A reader takes lines off the front of a stream.  Where the next newline stands decides what it
takes: a line that is short enough is taken whole, a longer one is refused before anything in it is
looked at, and the bytes after the last newline are a line of their own.

## Main definitions

* `Scanned.toExcept`: the record after some lines, or the first fault as an error.

## Main results

* `Stream.line_of_newline`, `Stream.line_of_open`, `Stream.line_of_long`: the next line of a stream.
* `Record.readLines_cons`: **reading is scanning the first line and reading on.**
* `Record.parse_magic`: a container is its first line and the lines that are read into a record.
-/

namespace SigningKeys

open Byte

/-! ### The next line -/

theorem splitLine_of_newline : ∀ (n : ℕ) (body rest : Bytes), newline ∉ body → body.length < n →
    splitLine n (body ++ newline :: rest) = (body ++ [newline], rest) := by
  intro n body
  induction body generalizing n with
  | nil =>
    intro rest _ hn
    obtain ⟨n, rfl⟩ := Nat.exists_eq_succ_of_ne_zero (Nat.ne_of_gt hn)
    rw [List.nil_append, splitLine, if_pos rfl, List.nil_append]
  | cons b body ih =>
    intro rest hnl hn
    rw [List.mem_cons, not_or] at hnl
    obtain ⟨n, rfl⟩ := Nat.exists_eq_succ_of_ne_zero (Nat.ne_of_gt (Nat.zero_lt_of_lt hn))
    rw [List.cons_append, splitLine, if_neg (Ne.symm hnl.1),
      ih n rest hnl.2 (by simpa using hn), List.cons_append]

theorem splitLine_of_not_mem : ∀ (n : ℕ) (bs : Bytes), newline ∉ bs.take n →
    splitLine n bs = (bs.take n, bs.drop n) := by
  intro n bs
  induction bs generalizing n with
  | nil => intro _; simp
  | cons b bs ih =>
    intro hnl
    cases n with
    | zero => rfl
    | succ n =>
      rw [List.take_succ_cons, List.mem_cons, not_or] at hnl
      rw [splitLine, if_neg (Ne.symm hnl.1), ih n hnl.2, List.take_succ_cons, List.drop_succ_cons]

/-- A byte string without a newline is no terminated line. -/
theorem isTerminated_eq_false {bs : Bytes} (h : newline ∉ bs) : isTerminated bs = false := by
  rw [isTerminated, beq_eq_false_iff_ne]
  exact fun hlast => h (List.mem_of_getLast? hlast)

namespace Stream

/-- A line that is short enough is taken with its newline, whatever comes behind it. -/
theorem line_of_newline {body : Bytes} (rest : Bytes) (e : Ending) (hnl : newline ∉ body)
    (hlen : body.length < Layout.lineLimit) :
    Stream.line ⟨body ++ newline :: rest, e⟩ = .ok (body ++ [newline], ⟨rest, e⟩) := by
  have hterm : isTerminated (body ++ [newline]) = true := by simp [isTerminated]
  simp only [Stream.line, splitLine_of_newline _ body rest hnl hlen, hterm, if_true]

/-- The bytes after the last newline are a line of their own, unless the stream fails behind
them. -/
theorem line_of_open {body : Bytes} (e : Ending) (hnl : newline ∉ body)
    (hlen : body.length < Layout.lineLimit) :
    Stream.line ⟨body, e⟩ =
      match e with
      | .closed => .ok (body, .ofBytes [])
      | .failing fault => .error (.io fault) := by
  have htake : body.take Layout.lineLimit = body := List.take_of_length_le (Nat.le_of_lt hlen)
  have hdrop : body.drop Layout.lineLimit = [] := List.drop_of_length_le (Nat.le_of_lt hlen)
  have hsplit := splitLine_of_not_mem Layout.lineLimit body (by rwa [htake])
  rw [htake, hdrop] at hsplit
  have hne : ¬ body.length = Layout.lineLimit := Nat.ne_of_lt hlen
  cases e <;>
    simp only [Stream.line, ofBytes, hsplit, isTerminated_eq_false hnl, Bool.false_eq_true,
      if_false, hne]

/-- The bytes after the last newline are a line of their own. -/
theorem line_of_end {body : Bytes} (hnl : newline ∉ body) (hlen : body.length < Layout.lineLimit) :
    Stream.line (.ofBytes body) = .ok (body, .ofBytes []) :=
  line_of_open .closed hnl hlen

/-- A line that is too long is refused. -/
theorem line_of_long {bs : Bytes} (e : Ending) (hnl : newline ∉ bs.take Layout.lineLimit)
    (hlen : Layout.lineLimit ≤ bs.length) :
    Stream.line ⟨bs, e⟩ = .error (.format .overlongLine) := by
  have htake : (bs.take Layout.lineLimit).length = Layout.lineLimit := List.length_take_of_le hlen
  simp only [Stream.line, splitLine_of_not_mem _ bs hnl, isTerminated_eq_false hnl,
    Bool.false_eq_true, if_false, htake, if_true]

end Stream

/-! ### Bodies of lines -/

theorem dropFinal_of_getLast? {b : UInt8} {bs : Bytes} (h : bs.getLast? ≠ some b) :
    Bytes.dropFinal b bs = bs := by
  rw [Bytes.dropFinal, if_neg h]

@[simp] theorem dropFinal_concat (b : UInt8) (bs : Bytes) : Bytes.dropFinal b (bs ++ [b]) = bs := by
  simp [Bytes.dropFinal]

theorem dropFinal_isPrefix (b : UInt8) (bs : Bytes) : Bytes.dropFinal b bs <+: bs := by
  unfold Bytes.dropFinal
  split
  · exact List.dropLast_prefix bs
  · exact List.prefix_refl bs

theorem length_le_dropFinal (b : UInt8) (bs : Bytes) :
    bs.length ≤ (Bytes.dropFinal b bs).length + 1 := by
  unfold Bytes.dropFinal
  split
  · rw [List.length_dropLast]
    omega
  · omega

theorem lineBody_of_newline (body : Bytes) :
    lineBody (body ++ [newline]) = Bytes.dropFinal carriageReturn body := by
  rw [lineBody, dropFinal_concat]

theorem lineBody_of_not_mem {body : Bytes} (h : newline ∉ body) :
    lineBody body = Bytes.dropFinal carriageReturn body := by
  rw [lineBody, dropFinal_of_getLast? fun hlast => h (List.mem_of_getLast? hlast)]

/-! ### Reading lines into a record -/

/-- The record after some lines, or the first fault as an error. -/
def Scanned.toExcept (s : Scanned) : Except KeyError Record :=
  match s.fault with
  | some fault => .error (.format (.line fault))
  | none => .ok s.record

theorem Scanned.toExcept_eq_ok_iff {s : Scanned} {r : Record} :
    s.toExcept = .ok r ↔ s = ⟨r, none⟩ := by
  obtain ⟨record, fault⟩ := s
  cases fault <;> simp [toExcept]

/-- What is wrong with lines is their format. -/
theorem Scanned.format_of_toExcept {s : Scanned} {e : KeyError} (h : s.toExcept = .error e) :
    ∃ fault, e = .format fault := by
  obtain ⟨record, fault⟩ := s
  cases fault with
  | none => cases h
  | some fault =>
    cases h
    exact ⟨.line fault, rfl⟩

namespace Record

/-- The record after the body of a line, whose end has been replaced. -/
def readBody (r : Record) (body : Bytes) : Except KeyError Record :=
  (r.scan (Bytes.dropFinal carriageReturn body ++ [newline])).toExcept

theorem readLines_of_line {r : Record} {s s' : Stream} {line : Bytes} (hne : line ≠ [])
    (h : s.line = .ok (line, s')) :
    r.readLines s =
      (r.scan (lineBody line ++ [newline])).toExcept.bind fun r' => r'.readLines s' := by
  rw [readLines]
  split
  · simp_all
  · simp_all
  · next b line' rest hline =>
    rw [h] at hline
    cases hline
    cases hfault : (r.scan (lineBody (b :: line') ++ [newline])).fault with
    | some fault => simp only [Scanned.toExcept, hfault, Except.bind]
    | none => simp only [Scanned.toExcept, hfault, Except.bind]

/-- Reading is scanning the first line and reading on. -/
theorem readLines_cons (r : Record) {body : Bytes} (rest : Bytes) (e : Ending)
    (hnl : newline ∉ body) (hlen : body.length < Layout.lineLimit) :
    r.readLines ⟨body ++ newline :: rest, e⟩ =
      (r.readBody body).bind fun r' => r'.readLines ⟨rest, e⟩ := by
  rw [readLines_of_line (by simp) (Stream.line_of_newline rest e hnl hlen), readBody,
    lineBody_of_newline]

theorem readLines_nil (r : Record) : r.readLines (.ofBytes []) = .ok r := by
  have hline : (Stream.ofBytes []).line = .ok ([], .ofBytes []) := rfl
  rw [readLines]
  split
  · simp_all
  · rfl
  · simp_all

/-- The bytes after the last newline are read as a line. -/
theorem readLines_last (r : Record) {body : Bytes} (hne : body ≠ []) (hnl : newline ∉ body)
    (hlen : body.length < Layout.lineLimit) : r.readLines (.ofBytes body) = r.readBody body := by
  rw [readLines_of_line hne (Stream.line_of_end hnl hlen), readBody, lineBody_of_not_mem hnl]
  cases (r.scan (Bytes.dropFinal carriageReturn body ++ [newline])).toExcept with
  | error e => rfl
  | ok r' => exact readLines_nil r'

/-- A line that is too long ends the reading. -/
theorem readLines_long (r : Record) {bs : Bytes} (e : Ending)
    (hnl : newline ∉ bs.take Layout.lineLimit) (hlen : Layout.lineLimit ≤ bs.length) :
    r.readLines ⟨bs, e⟩ = .error (.format .overlongLine) := by
  have hline := Stream.line_of_long e hnl hlen
  rw [readLines]
  split <;> simp_all

/-! ### Whole containers -/

/-- The first line of a container. -/
def magic : Bytes := Utf8.encode Layout.privateMagic

/-- A container is its first line and the lines that are read into a record. -/
theorem parse_magic (rest : Bytes) :
    parse (.ofBytes (magic ++ newline :: rest)) = .ofExcept (empty.readLines (.ofBytes rest)) := by
  have hnl : newline ∉ magic := by decide
  have hline := Stream.line_of_newline rest .closed hnl (by decide)
  have hbody : lineBody (magic ++ [newline]) = magic := by decide
  -- an empty line would be the end of the stream, so its first byte has to be shown
  obtain ⟨b, line, hmagic⟩ : ∃ b line, magic ++ [newline] = b :: line :=
    List.exists_cons_of_ne_nil (by simp)
  rw [hmagic] at hline hbody
  rw [parse, Stream.ofBytes, hline]
  simp only [hbody]
  rw [if_pos (by rfl)]
  rfl

end Record

end SigningKeys
