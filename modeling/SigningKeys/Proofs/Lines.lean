import Mathlib.Data.List.Basic
import SigningKeys.Proofs.LineReading

/-!
# Containers cut into lines

A reader takes lines off the front of a stream, through a window of limited length.  Seen from the
whole byte string, it cuts the string behind every newline and goes through the lines in order, up
to the first that is at fault.  A line that does not fit into the window is refused before anything
in it is looked at, so no part of it is ever taken for a line of its own, and what is scanned is
always one short line.

## Main definitions

* `Bytes.lines`: a byte string cut behind every newline.
* `IsOverlong`: the lines that are refused unseen.
* `Ending.Completes`: the lines that a stream delivers whole.
* `Record.parseLines`: what the lines of a container amount to.
* `Record.traceLines`, `Record.traceParse`: the reading of a container, with all buffers that are
  scanned on the way.
* `Record.scanAll`: the record after some buffers.
* `Record.IsLineBuffer`: one line that fits into the window, with its newline.

## Main results

* `Stream.line_of_lines_whole`, `Stream.line_of_lines_broken`: the next line of a stream is the
  first of its lines, if that is whole.
* `Record.readLines_of_lines`, `Record.parse_of_lines`: reading is reading the first line, if that is
  whole, and reading on.
* `Record.readLines_eq_foldlM`: reading on is going through the lines that are left.
* `Record.isLineBuffer_of_mem_traceParse`: what is scanned is one line that fits into the window.
* `Record.parse_eq_parseLines`: **reading a container is going through its lines, and every buffer
  that is scanned is one line that fits into the window.**
-/

namespace SigningKeys

open Byte

/-! ### Cutting behind newlines -/

/-- A byte string cut behind every newline; only the last line may be without one. -/
def Bytes.lines : Bytes → List Bytes
  | [] => []
  | b :: bs =>
    if b = newline then [b] :: lines bs
    else
      match lines bs with
      | [] => [[b]]
      | line :: later => (b :: line) :: later

namespace Bytes

@[simp] theorem lines_nil : lines [] = [] := rfl

theorem lines_newline_cons (bs : Bytes) : lines (newline :: bs) = [newline] :: lines bs := by
  rw [lines, if_pos rfl]

theorem lines_cons_of_nil {b : UInt8} {bs : Bytes} (hb : b ≠ newline) (h : lines bs = []) :
    lines (b :: bs) = [[b]] := by
  rw [lines, if_neg hb, h]

theorem lines_cons_of_cons {b : UInt8} {bs line : Bytes} {later : List Bytes} (hb : b ≠ newline)
    (h : lines bs = line :: later) : lines (b :: bs) = (b :: line) :: later := by
  rw [lines, if_neg hb, h]

/-- Nothing is lost in the cutting. -/
theorem flatten_lines (bs : Bytes) : (lines bs).flatten = bs := by
  induction bs with
  | nil => rfl
  | cons b bs ih =>
    by_cases hb : b = newline
    · subst hb
      rw [lines_newline_cons, List.flatten_cons, ih, List.singleton_append]
    · cases h : lines bs with
      | nil =>
        rw [h, List.flatten_nil] at ih
        rw [lines_cons_of_nil hb h, ← ih]
        rfl
      | cons line later =>
        rw [h, List.flatten_cons] at ih
        rw [lines_cons_of_cons hb h, List.flatten_cons, List.cons_append, ih]

/-- The bytes up to and with the first newline are a line. -/
theorem lines_append_newline {body : Bytes} (h : newline ∉ body) (bs : Bytes) :
    lines (body ++ newline :: bs) = (body ++ [newline]) :: lines bs := by
  induction body with
  | nil => exact lines_newline_cons bs
  | cons b body ih =>
    rw [List.mem_cons, not_or] at h
    exact lines_cons_of_cons (Ne.symm h.1) (ih h.2)

/-- A byte string has no newline, or it is a line and a byte string behind that. -/
@[elab_as_elim]
theorem lineInduction {motive : Bytes → Prop} (bs : Bytes)
    (last : ∀ body, newline ∉ body → motive body)
    (line : ∀ body rest, newline ∉ body → motive rest → motive (body ++ newline :: rest)) :
    motive bs := by
  by_cases hnl : newline ∈ bs
  · obtain ⟨body, rest, hbs, hbody⟩ := List.eq_append_cons_of_mem hnl
    rw [hbs]
    exact line body rest hbody (lineInduction rest last line)
  · exact last bs hnl
termination_by bs.length
decreasing_by
  rw [hbs, List.length_append, List.length_cons]
  omega

/-- Bytes without a newline are one line. -/
theorem lines_of_not_mem {body : Bytes} (hne : body ≠ []) (h : newline ∉ body) :
    lines body = [body] := by
  induction body with
  | nil => exact absurd rfl hne
  | cons b body ih =>
    rw [List.mem_cons, not_or] at h
    by_cases hbody : body = []
    · subst hbody
      exact lines_cons_of_nil (Ne.symm h.1) rfl
    · exact lines_cons_of_cons (Ne.symm h.1) (ih hbody h.2)

theorem ne_nil_of_mem_lines {bs line : Bytes} (h : line ∈ lines bs) : line ≠ [] := by
  induction bs generalizing line with
  | nil => cases h
  | cons b bs ih =>
    by_cases hb : b = newline
    · subst hb
      rw [lines_newline_cons, List.mem_cons] at h
      rcases h with rfl | h
      · exact List.cons_ne_nil _ _
      · exact ih h
    · cases hl : lines bs with
      | nil =>
        rw [lines_cons_of_nil hb hl, List.mem_singleton] at h
        exact h ▸ List.cons_ne_nil b []
      | cons first later =>
        rw [lines_cons_of_cons hb hl, List.mem_cons] at h
        rcases h with rfl | h
        · exact List.cons_ne_nil b first
        · exact ih (hl ▸ List.mem_cons_of_mem _ h)

/-- The lines tell the byte string. -/
theorem lines_injective : Function.Injective lines := by
  intro as bs h
  rw [← flatten_lines as, h, flatten_lines]

theorem ne_nil_of_lines {bs line : Bytes} {later : List Bytes} (h : lines bs = line :: later) :
    line ≠ [] :=
  ne_nil_of_mem_lines (h ▸ List.mem_cons_self)

/-- A line has a newline at its end or nowhere. -/
theorem newline_not_mem_dropLast_of_mem_lines {bs line : Bytes} (h : line ∈ lines bs) :
    newline ∉ line.dropLast := by
  induction bs generalizing line with
  | nil => cases h
  | cons b bs ih =>
    by_cases hb : b = newline
    · subst hb
      rw [lines_newline_cons, List.mem_cons] at h
      rcases h with rfl | h
      · simp
      · exact ih h
    · cases hl : lines bs with
      | nil =>
        rw [lines_cons_of_nil hb hl, List.mem_singleton] at h
        subst h
        simp
      | cons first later =>
        rw [lines_cons_of_cons hb hl, List.mem_cons] at h
        rcases h with rfl | h
        · have hfirst : first ∈ lines bs := hl ▸ List.mem_cons_self
          rw [List.dropLast_cons_of_ne_nil (ne_nil_of_mem_lines hfirst), List.mem_cons, not_or]
          exact ⟨Ne.symm hb, ih hfirst⟩
        · exact ih (hl ▸ List.mem_cons_of_mem _ h)

/-- A line with others behind it has its newline. -/
theorem isTerminated_of_lines {bs line : Bytes} {later : List Bytes}
    (h : lines bs = line :: later) (hlater : later ≠ []) : isTerminated line = true := by
  by_cases hnl : newline ∈ bs
  · obtain ⟨body, rest, rfl, hbody⟩ := List.eq_append_cons_of_mem hnl
    rw [lines_append_newline hbody, List.cons.injEq] at h
    obtain ⟨rfl, -⟩ := h
    simp [isTerminated]
  · have hne : bs ≠ [] := by
      rintro rfl
      cases h
    rw [lines_of_not_mem hne hnl, List.cons.injEq] at h
    exact absurd h.2.symm hlater

end Bytes

/-! ### The window of the reader -/

/-- A line that is longer than the window of the reader, or fills the window and has no end. -/
def IsOverlong (line : Bytes) : Prop :=
  Layout.lineLimit < line.length ∨ line.length = Layout.lineLimit ∧ isTerminated line = false

instance (line : Bytes) : Decidable (IsOverlong line) :=
  inferInstanceAs (Decidable (_ ∨ _))

theorem isOverlong_newline_iff (body : Bytes) :
    IsOverlong (body ++ [newline]) ↔ Layout.lineLimit ≤ body.length := by
  have hterm : isTerminated (body ++ [newline]) = true := by simp [isTerminated]
  simp only [IsOverlong, hterm, List.length_append, List.length_singleton, Bool.true_eq_false,
    and_false, or_false]
  exact Nat.lt_succ_iff

theorem isOverlong_iff_of_not_mem {body : Bytes} (h : newline ∉ body) :
    IsOverlong body ↔ Layout.lineLimit ≤ body.length := by
  simp only [IsOverlong, isTerminated_eq_false h, and_true]
  omega

theorem newline_not_mem_dropLast_splitLine (n : ℕ) (bs : Bytes) :
    newline ∉ (splitLine n bs).1.dropLast := by
  induction bs generalizing n with
  | nil => simp
  | cons b bs ih =>
    cases n with
    | zero => simp
    | succ n =>
      rw [splitLine]
      split
      · simp
      · next hb =>
        by_cases hrest : (splitLine n bs).1 = []
        · simp [hrest]
        · rw [List.dropLast_cons_of_ne_nil hrest, List.mem_cons, not_or]
          exact ⟨Ne.symm hb, ih n⟩

/-- A line that a reader takes fits into its window and has a newline at its end or nowhere. -/
theorem Stream.line_fits {s s' : Stream} {line : Bytes} (h : s.line = .ok (line, s')) :
    ¬ IsOverlong line ∧ newline ∉ line.dropLast := by
  have hle := length_splitLine_le Layout.lineLimit s.bytes
  have hnl := newline_not_mem_dropLast_splitLine Layout.lineLimit s.bytes
  have hline : line = (splitLine Layout.lineLimit s.bytes).1 ∧
      (isTerminated line = false → line.length ≠ Layout.lineLimit) := by
    simp only [Stream.line] at h
    split at h
    · next hterm =>
      cases h
      exact ⟨rfl, fun hfalse => by rw [hterm] at hfalse; cases hfalse⟩
    · split at h
      · cases h
      · next hlen =>
        split at h
        · cases h
          exact ⟨rfl, fun _ => hlen⟩
        · cases h
  obtain ⟨rfl, hopen⟩ := hline
  refine ⟨?_, hnl⟩
  rintro (hlong | ⟨hfull, hterm⟩)
  · omega
  · exact hopen hterm hfull

/-- A line in front of the ending of a stream is whole: it has its newline, or the stream has come
to its end behind it. -/
def Ending.Completes (e : Ending) (line : Bytes) : Prop := isTerminated line = true ∨ e = .closed

/-- The next line of a stream is the first of its lines, unless that is too long. -/
theorem Stream.line_of_lines_whole {bs line : Bytes} {later : List Bytes} {e : Ending}
    (h : Bytes.lines bs = line :: later) (hwhole : e.Completes line) :
    ∃ rest, Bytes.lines rest = later ∧
      Stream.line ⟨bs, e⟩ =
        if IsOverlong line then .error (.format .overlongLine) else .ok (line, ⟨rest, e⟩) := by
  by_cases hnl : newline ∈ bs
  · obtain ⟨body, rest, rfl, hbody⟩ := List.eq_append_cons_of_mem hnl
    rw [Bytes.lines_append_newline hbody, List.cons.injEq] at h
    obtain ⟨rfl, rfl⟩ := h
    refine ⟨rest, rfl, ?_⟩
    by_cases hlong : Layout.lineLimit ≤ body.length
    · -- the newline stands behind all bytes that fit into the window
      have hwindow : newline ∉ (body ++ newline :: rest).take Layout.lineLimit := by
        rw [List.take_append_of_le_length hlong]
        exact fun hmem => hbody (List.mem_of_mem_take hmem)
      rw [if_pos ((isOverlong_newline_iff body).mpr hlong)]
      exact line_of_long e hwindow (by rw [List.length_append]; omega)
    · rw [if_neg (mt (isOverlong_newline_iff body).mp hlong)]
      exact line_of_newline rest e hbody (Nat.not_le.mp hlong)
  · have hne : bs ≠ [] := by
      rintro rfl
      cases h
    rw [Bytes.lines_of_not_mem hne hnl, List.cons.injEq] at h
    obtain ⟨rfl, rfl⟩ := h
    -- without a newline the line is whole only at the end of the stream
    obtain rfl : e = .closed := by
      rcases hwhole with hterm | hclosed
      · rw [isTerminated_eq_false hnl] at hterm
        cases hterm
      · exact hclosed
    refine ⟨[], rfl, ?_⟩
    by_cases hlong : Layout.lineLimit ≤ bs.length
    · rw [if_pos ((isOverlong_iff_of_not_mem hnl).mpr hlong)]
      exact line_of_long .closed (fun hmem => hnl (List.mem_of_mem_take hmem)) hlong
    · rw [if_neg (mt (isOverlong_iff_of_not_mem hnl).mp hlong)]
      exact line_of_end hnl (Nat.not_le.mp hlong)

/-- A line that is not whole is not read: it is too long, or the stream fails behind it. -/
theorem Stream.line_of_lines_broken {bs line : Bytes} {later : List Bytes} {e : Ending}
    (h : Bytes.lines bs = line :: later) (hbroken : ¬ e.Completes line) :
    ∃ error, Stream.line ⟨bs, e⟩ = .error error := by
  obtain ⟨hterm, hopen⟩ := not_or.mp hbroken
  by_cases hnl : newline ∈ bs
  · obtain ⟨body, rest, rfl, hbody⟩ := List.eq_append_cons_of_mem hnl
    rw [Bytes.lines_append_newline hbody, List.cons.injEq] at h
    obtain ⟨rfl, -⟩ := h
    exact absurd (by simp [isTerminated]) hterm
  · by_cases hlong : Layout.lineLimit ≤ bs.length
    · exact ⟨_, line_of_long e (fun hmem => hnl (List.mem_of_mem_take hmem)) hlong⟩
    · cases e with
      | closed => exact absurd rfl hopen
      | failing fault => exact ⟨_, line_of_open (.failing fault) hnl (Nat.not_le.mp hlong)⟩

/-- A stream without lines has come to its end. -/
theorem Stream.line_of_lines_nil {bs : Bytes} (h : Bytes.lines bs = []) :
    (Stream.ofBytes bs).line = .ok ([], .ofBytes []) := by
  have hbs : bs = [] := by rw [← Bytes.flatten_lines bs, h, List.flatten_nil]
  subst hbs
  rfl

namespace Record

/-! ### Going through the lines -/

/-- A line with its end replaced by a plain newline. -/
def lineBuffer (line : Bytes) : Bytes := lineBody line ++ [newline]

/-- The record after one more line, unless the line is too long or at fault. -/
def readLine (r : Record) (line : Bytes) : Except KeyError Record :=
  if IsOverlong line then .error (.format .overlongLine)
  else (r.scan (lineBuffer line)).toExcept

theorem readLine_eq_ok_iff {r r' : Record} {line : Bytes} :
    r.readLine line = .ok r' ↔ ¬ IsOverlong line ∧ r.scan (lineBuffer line) = ⟨r', none⟩ := by
  rw [readLine]
  by_cases hlong : IsOverlong line
  · simp [hlong]
  · simp [hlong, Scanned.toExcept_eq_ok_iff]

/-- Whatever is wrong with a line is its format. -/
theorem format_of_readLine {r : Record} {line : Bytes} {e : KeyError}
    (h : r.readLine line = .error e) : ∃ fault, e = .format fault := by
  rw [readLine] at h
  split at h
  · cases h
    exact ⟨.overlongLine, rfl⟩
  · exact Scanned.format_of_toExcept h

/-- What the lines of a container amount to: the first one is fixed, and the others are read into
an empty record, up to the first that is at fault. -/
def parseLines : List Bytes → Except KeyError Record
  | [] => .error (.format .emptyContainer)
  | first :: later =>
    if IsOverlong first then .error (.format .overlongLine)
    else if lineBody first = Utf8.encode Layout.privateMagic then later.foldlM readLine empty
    else .error (.format .wrongMagic)

/-! ### The buffers that are scanned -/

/-- The reading of a stream into a record: the buffers that are scanned on the way, in order, and
the result. -/
def traceLines (r : Record) (s : Stream) : List Bytes × Except KeyError Record :=
  match _h : s.line with
  | .error e => ([], .error e)
  | .ok ([], _) => ([], .ok r)
  | .ok (b :: line, rest) =>
    let buffer := lineBody (b :: line) ++ [newline]
    let scanned := r.scan buffer
    match scanned.fault with
    | some fault => ([buffer], .error (.format (.line fault)))
    | none =>
      (buffer :: (traceLines scanned.record rest).1, (traceLines scanned.record rest).2)
termination_by s.bytes.length
decreasing_by exact Stream.line_shorter _h

/-- The reading of a container: the buffers that are scanned on the way, in order, and the
result. -/
def traceParse (s : Stream) : List Bytes × Except KeyError Record :=
  match s.line with
  | .error e => ([], .error e)
  | .ok ([], _) => ([], .error (.format .emptyContainer))
  | .ok (b :: line, rest) =>
    if lineBody (b :: line) = Utf8.encode Layout.privateMagic then empty.traceLines rest
    else ([], .error (.format .wrongMagic))

variable {r : Record} {s s' : Stream}

theorem traceLines_of_error {e : KeyError} (h : s.line = .error e) :
    r.traceLines s = ([], .error e) := by
  rw [traceLines]
  split <;> simp_all

theorem traceLines_of_nil (h : s.line = .ok ([], s')) : r.traceLines s = ([], .ok r) := by
  rw [traceLines]
  split <;> simp_all

theorem readLines_of_error {e : KeyError} (h : s.line = .error e) : r.readLines s = .error e := by
  rw [readLines]
  split <;> simp_all

/-- The first buffer is that of the next line; the others follow if nothing is wrong with it. -/
theorem traceLines_of_line {line : Bytes} (hne : line ≠ []) (h : s.line = .ok (line, s')) :
    r.traceLines s =
      match (r.scan (lineBuffer line)).fault with
      | some fault => ([lineBuffer line], .error (.format (.line fault)))
      | none =>
        (lineBuffer line :: ((r.scan (lineBuffer line)).record.traceLines s').1,
          ((r.scan (lineBuffer line)).record.traceLines s').2) := by
  rw [traceLines]
  split
  · simp_all
  · simp_all
  · next b line' rest hline =>
    rw [h] at hline
    cases hline
    rfl

/-- The trace ends with what is read. -/
theorem traceLines_snd (r : Record) (s : Stream) : (r.traceLines s).2 = r.readLines s := by
  fun_induction readLines r s with
  | case1 r s e hline => rw [traceLines_of_error hline]
  | case2 r s rest hline => rw [traceLines_of_nil hline]
  | case3 r s b line rest hline scanned fault hfault =>
    have hscan : (r.scan (lineBuffer (b :: line))).fault = some fault := hfault
    rw [traceLines_of_line (List.cons_ne_nil b line) hline, hscan]
  | case4 r s b line rest hline scanned hfault ih =>
    have hscan : (r.scan (lineBuffer (b :: line))).fault = none := hfault
    rw [traceLines_of_line (List.cons_ne_nil b line) hline, hscan]
    exact ih

/-- A container is its first line and the lines that are read into a record. -/
theorem parse_of_line {line : Bytes} (hne : line ≠ []) (h : s.line = .ok (line, s')) :
    (parse s).result =
      if lineBody line = Utf8.encode Layout.privateMagic then empty.readLines s'
      else .error (.format .wrongMagic) := by
  obtain ⟨b, line, rfl⟩ := List.exists_cons_of_ne_nil hne
  simp only [parse, h]
  split <;> rfl

theorem traceParse_of_line {line : Bytes} (hne : line ≠ []) (h : s.line = .ok (line, s')) :
    traceParse s =
      if lineBody line = Utf8.encode Layout.privateMagic then empty.traceLines s'
      else ([], .error (.format .wrongMagic)) := by
  obtain ⟨b, line, rfl⟩ := List.exists_cons_of_ne_nil hne
  simp only [traceParse, h]

theorem traceParse_snd (s : Stream) : (traceParse s).2 = (parse s).result := by
  cases h : s.line with
  | error e =>
    simp only [traceParse, parse, h]
    rfl
  | ok next =>
    obtain ⟨line, s'⟩ := next
    by_cases hne : line = []
    · subst hne
      simp only [traceParse, parse, h]
      rfl
    · rw [traceParse_of_line hne h, parse_of_line hne h]
      split
      · exact traceLines_snd empty s'
      · rfl

/-- The record after some buffers have been scanned into it. -/
def scanAll (r : Record) (buffers : List Bytes) : Record :=
  buffers.foldl (fun r buffer => (r.scan buffer).record) r

/-- What is read is what the buffers of the trace make of the record. -/
theorem scanAll_traceLines {r' : Record} (h : (r.traceLines s).2 = .ok r') :
    r.scanAll (r.traceLines s).1 = r' := by
  fun_induction traceLines r s with
  | case1 r s e hline => cases h
  | case2 r s rest hline =>
    cases h
    rfl
  | case3 r s b line rest hline first scanned fault hfault => cases h
  | case4 r s b line rest hline first scanned hfault ih => exact ih h

theorem scanAll_traceParse {r' : Record} (h : (traceParse s).2 = .ok r') :
    empty.scanAll (traceParse s).1 = r' := by
  cases hline : s.line with
  | error e =>
    simp only [traceParse, hline] at h
    cases h
  | ok next =>
    obtain ⟨line, s'⟩ := next
    by_cases hne : line = []
    · subst hne
      simp only [traceParse, hline] at h
      cases h
    · rw [traceParse_of_line hne hline] at h ⊢
      by_cases hmagic : lineBody line = Utf8.encode Layout.privateMagic
      · rw [if_pos hmagic] at h ⊢
        exact scanAll_traceLines h
      · rw [if_neg hmagic] at h
        cases h

/-- Reading is reading the first line, if that is whole, and reading on. -/
theorem readLines_of_lines (r : Record) {bs line : Bytes} {later : List Bytes} {e : Ending}
    (h : Bytes.lines bs = line :: later) (hwhole : e.Completes line) :
    ∃ rest, Bytes.lines rest = later ∧
      r.readLines ⟨bs, e⟩ = (r.readLine line).bind fun r' => r'.readLines ⟨rest, e⟩ := by
  obtain ⟨rest, hrest, hline⟩ := Stream.line_of_lines_whole h hwhole
  refine ⟨rest, hrest, ?_⟩
  rw [readLine]
  by_cases hlong : IsOverlong line
  · rw [if_pos hlong] at hline ⊢
    rw [← traceLines_snd, traceLines_of_error hline]
    rfl
  · rw [if_neg hlong] at hline ⊢
    exact readLines_of_line (Bytes.ne_nil_of_lines h) hline

/-- A container whose first line is whole is refused for that line, or the lines behind it are
read. -/
theorem parse_of_lines {bs first : Bytes} {later : List Bytes} {e : Ending}
    (h : Bytes.lines bs = first :: later) (hwhole : e.Completes first) :
    ∃ rest, Bytes.lines rest = later ∧
      parse ⟨bs, e⟩ =
        if IsOverlong first then .error (.format .overlongLine)
        else if lineBody first = Utf8.encode Layout.privateMagic then
          .ofExcept (empty.readLines ⟨rest, e⟩)
        else
          (Outcome.log (.rejected "private key" "magic line mismatch")).bind fun _ =>
            .error (.format .wrongMagic) := by
  obtain ⟨rest, hrest, hline⟩ := Stream.line_of_lines_whole h hwhole
  refine ⟨rest, hrest, ?_⟩
  by_cases hlong : IsOverlong first
  · rw [if_pos hlong] at hline ⊢
    simp only [parse, hline]
  · obtain ⟨b, line, rfl⟩ := List.exists_cons_of_ne_nil (Bytes.ne_nil_of_lines h)
    rw [if_neg hlong] at hline ⊢
    simp only [parse, hline, Outcome.bind_eq]

/-- Reading is going through the lines. -/
theorem readLines_eq_foldlM (r : Record) (bs : Bytes) :
    r.readLines (.ofBytes bs) = (Bytes.lines bs).foldlM readLine r := by
  generalize hl : Bytes.lines bs = lines
  induction lines generalizing r bs with
  | nil =>
    have hnil := Stream.line_of_lines_nil hl
    rw [← traceLines_snd, traceLines_of_nil hnil]
    rfl
  | cons line later ih =>
    have hwhole : Ending.closed.Completes line := .inr rfl
    obtain ⟨rest, hrest, hread⟩ := readLines_of_lines r hl hwhole
    rw [List.foldlM_cons, Stream.ofBytes, hread]
    exact congrArg _ (funext fun r' => ih r' rest hrest)

theorem result_parse (bs : Bytes) :
    (parse (.ofBytes bs)).result = parseLines (Bytes.lines bs) := by
  cases hl : Bytes.lines bs with
  | nil =>
    simp only [parse, parseLines, Stream.line_of_lines_nil hl]
    rfl
  | cons first later =>
    have hwhole : Ending.closed.Completes first := .inr rfl
    obtain ⟨rest, rfl, hparse⟩ := parse_of_lines hl hwhole
    rw [Stream.ofBytes, hparse, parseLines, ← readLines_eq_foldlM]
    split
    · rfl
    · split <;> rfl

/-! ### What is scanned -/

/-- One line that fits into the window of the reader, with its newline. -/
def IsLineBuffer (buffer : Bytes) : Prop :=
  buffer.length ≤ Layout.lineLimit ∧ ∃ body, newline ∉ body ∧ buffer = body ++ [newline]

/-- Without its newline, a line that fits into the window is shorter than the window. -/
theorem length_dropFinal_lt {line : Bytes} (h : ¬ IsOverlong line) :
    (Bytes.dropFinal newline line).length < Layout.lineLimit := by
  simp only [IsOverlong, not_or, not_and] at h
  obtain ⟨hle, hopen⟩ := h
  unfold Bytes.dropFinal
  by_cases hlast : line.getLast? = some newline
  · have hpos : 0 < line.length := List.length_pos_iff.mpr (by rintro rfl; cases hlast)
    rw [if_pos hlast, List.length_dropLast]
    omega
  · have hterm : isTerminated line = false := by simpa [isTerminated] using hlast
    have hlen : line.length ≠ Layout.lineLimit := fun hlen => hopen hlen hterm
    rw [if_neg hlast]
    omega

/-- Without the newline at its end, a line has no newline. -/
theorem newline_not_mem_dropFinal {line : Bytes} (h : newline ∉ line.dropLast) :
    newline ∉ Bytes.dropFinal newline line := by
  unfold Bytes.dropFinal
  by_cases hlast : line.getLast? = some newline
  · rwa [if_pos hlast]
  · rw [if_neg hlast]
    intro hmem
    have hne : line ≠ [] := List.ne_nil_of_mem hmem
    rw [← List.dropLast_concat_getLast hne, List.mem_append, List.mem_singleton] at hmem
    rcases hmem with hmem | hmem
    · exact h hmem
    · exact hlast (by rw [List.getLast?_eq_some_getLast hne, hmem])

/-- What is left of a line without its end has no newline. -/
theorem newline_not_mem_lineBody {line : Bytes} (h : newline ∉ line.dropLast) :
    newline ∉ lineBody line := by
  intro hmem
  have hinitial : lineBody line <+: Bytes.dropFinal newline line :=
    dropFinal_isPrefix carriageReturn _
  exact newline_not_mem_dropFinal h (hinitial.subset hmem)

theorem isLineBuffer_lineBuffer {line : Bytes} (hlong : ¬ IsOverlong line)
    (hnl : newline ∉ line.dropLast) : IsLineBuffer (lineBuffer line) := by
  have hinitial : lineBody line <+: Bytes.dropFinal newline line :=
    dropFinal_isPrefix carriageReturn _
  have hlen := Nat.lt_of_le_of_lt hinitial.length_le (length_dropFinal_lt hlong)
  refine ⟨?_, lineBody line, newline_not_mem_lineBody hnl, rfl⟩
  rw [lineBuffer, List.length_append, List.length_singleton]
  exact hlen

theorem isLineBuffer_of_mem_traceLines {buffer : Bytes} (h : buffer ∈ (r.traceLines s).1) :
    IsLineBuffer buffer := by
  have hfirst : ∀ {s s' : Stream} {line : Bytes}, s.line = .ok (line, s') →
      IsLineBuffer (lineBuffer line) := by
    intro s s' line hline
    obtain ⟨hlong, hnl⟩ := Stream.line_fits hline
    exact isLineBuffer_lineBuffer hlong hnl
  fun_induction traceLines r s with
  | case1 r s e hline => cases h
  | case2 r s rest hline => cases h
  | case3 r s b line rest hline first scanned fault hfault =>
    rw [List.mem_singleton] at h
    exact h ▸ hfirst hline
  | case4 r s b line rest hline first scanned hfault ih =>
    rw [List.mem_cons] at h
    rcases h with rfl | h
    · exact hfirst hline
    · exact ih h

theorem isLineBuffer_of_mem_traceParse {buffer : Bytes} (h : buffer ∈ (traceParse s).1) :
    IsLineBuffer buffer := by
  unfold traceParse at h
  split at h
  · cases h
  · cases h
  · split at h
    · exact isLineBuffer_of_mem_traceLines h
    · cases h

/-- Reading a container is going through its lines.  What is read is what the buffers of the trace
make of an empty record, and each of them has at most 1024 bytes and one newline, which stands at
its end. -/
theorem parse_eq_parseLines (bs : Bytes) :
    (parse (.ofBytes bs)).result = parseLines (Bytes.lines bs) ∧
      (traceParse (.ofBytes bs)).2 = (parse (.ofBytes bs)).result ∧
      (∀ r, (parse (.ofBytes bs)).result = .ok r →
        empty.scanAll (traceParse (.ofBytes bs)).1 = r) ∧
      ∀ buffer ∈ (traceParse (.ofBytes bs)).1,
        buffer.length ≤ 1024 ∧ ∃ body, newline ∉ body ∧ buffer = body ++ [newline] := by
  have htrace := traceParse_snd (.ofBytes bs)
  refine ⟨result_parse bs, htrace, ?_, fun buffer => isLineBuffer_of_mem_traceParse⟩
  intro r hr
  exact scanAll_traceParse (htrace.trans hr)

/-- A last line that ends without a newline, but with a carriage return, is scanned with its end
replaced. -/
theorem parse_open_line_eq_parseLines :
    Utf8.encode "kdf: a\n" ∈
        (traceParse (.ofBytes (Utf8.encode "ASIGN-PRIV-KEY:\r\nkdf: a\r"))).1 ∧
      (Utf8.encode "kdf: a\n").length ≤ 1024 := by
  have hmem : Utf8.encode "kdf: a\n" ∈
      (traceParse (.ofBytes (Utf8.encode "ASIGN-PRIV-KEY:\r\nkdf: a\r"))).1 := by
    decide +kernel
  obtain ⟨-, -, -, hbuffers⟩ :=
    parse_eq_parseLines (Utf8.encode "ASIGN-PRIV-KEY:\r\nkdf: a\r")
  exact ⟨hmem, (hbuffers _ hmem).1⟩

end Record

end SigningKeys
