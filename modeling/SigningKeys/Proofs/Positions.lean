import Mathlib.Data.List.Basic
import SigningKeys.Container.Line

/-!
# Lines read by position

The machine that reads lines takes its bytes from the front of what is left.  The same lines can be
read in place: a cursor keeps two positions in the buffer, where the name or the value that it reads
begins and which byte comes next, and cuts the text between them out of the buffer when it is
needed.  Whoever reads so must know that no position leaves the buffer, that no text ends before it
begins, and that the passes over the buffer come to an end although some of them take no byte.

A pass that takes no byte changes the stage for the same byte.  From a value it leads to the blanks
before a name, and from blanks to a name or to a value, but only the former at the end of a line and
only the latter elsewhere: at most two passes are made for a byte, and a third one finds a fault.

## Main definitions

* `Cursor`: the stage and the positions; `Cursor.pass`: one pass, with each access checked.
* `Cursor.loop`: the passes over a buffer, of which only so many may be made.
* `Cursor.Visits`: the cursors before, between and after the passes.
* `Cursor.Sound`: what holds of them all.
* `Machine.passes`: a bound on the passes that are still made.

## Main results

* `Cursor.keeps_of_shows`: a pass is a step of the machine.
* `Machine.passes_lt_of_step`: a step lowers the bound.
* `Cursor.loop_in_bounds`: **the passes end in time, never leave the buffer, and read the lines as
  the machine does.**
-/

namespace SigningKeys

open Byte

/-! ### Texts cut out of a buffer -/

/-- The text between two positions, if these are positions of a text. -/
def Bytes.slice (bs : Bytes) (i j : ℕ) : Option Bytes :=
  if i ≤ j ∧ j ≤ bs.length then some ((bs.take j).drop i) else none

namespace Bytes

variable {bs : Bytes} {i j : ℕ}

theorem slice_self (h : i ≤ bs.length) : bs.slice i i = some [] := by
  rw [slice, if_pos ⟨Nat.le_refl i, h⟩, List.drop_of_length_le (bs.length_take_le i)]

theorem slice_succ {word : Bytes} {b : UInt8} (h : bs.slice i j = some word)
    (hb : bs[j]? = some b) : bs.slice i (j + 1) = some (word ++ [b]) := by
  obtain ⟨hlt, hget⟩ := List.getElem?_eq_some_iff.mp hb
  rw [slice] at h
  split at h
  case isFalse => contradiction
  case isTrue hij =>
    obtain rfl := Option.some.inj h
    have hi : i ≤ (bs.take j).length := by
      rw [List.length_take]
      omega
    rw [slice, if_pos ⟨by omega, hlt⟩, List.take_succ_eq_append_getElem hlt, hget,
      List.drop_append_of_le_length hi]

theorem length_of_slice {word : Bytes} (h : bs.slice i j = some word) : word.length = j - i := by
  rw [slice] at h
  split at h
  case isFalse => contradiction
  case isTrue hij =>
    obtain rfl := Option.some.inj h
    rw [List.length_drop, List.length_take, Nat.min_eq_left hij.2]

end Bytes

/-! ### The cursor -/

/-- What is being read. -/
inductive Stage where
  /-- Blanks before a name. -/
  | blank
  /-- A name. -/
  | name
  /-- The colon after a name. -/
  | colon
  /-- Blanks before a value. -/
  | gap
  /-- A value. -/
  | value
  /-- Nothing any more. -/
  | failed
  deriving DecidableEq, Repr

/-- A reader of lines that stand in a buffer. -/
structure Cursor where
  /-- What is being read. -/
  stage : Stage
  /-- The field of the name that was read last, if it is the name of a field. -/
  field : Option Field
  /-- Where the name or the value begins. -/
  token : ℕ
  /-- Which byte comes next. -/
  pos : ℕ
  /-- What was found wrong, if there is more to say than that a line is malformed. -/
  fault : Option LineFault
  /-- The record as it has been filled so far. -/
  record : Record
  deriving DecidableEq, Repr

namespace Cursor

/-- The cursor at the front of a buffer that is to fill a record. -/
def start (r : Record) : Cursor := ⟨.blank, none, 0, 0, none, r⟩

/-- The cursor behind the next byte. -/
def advance (c : Cursor) : Cursor := { c with pos := c.pos + 1 }

/-- The cursor after it has found a malformed line. -/
def fail (c : Cursor) : Cursor := { c with stage := .failed }

/-- The cursor after it has found a particular fault. -/
def failWith (c : Cursor) (fault : LineFault) : Cursor :=
  { c with stage := .failed, fault := some fault }

/-! ### Passes by stage -/

/-- A pass over blanks; behind them, something is read that belongs to a field or to none yet. -/
def passBlank (c : Cursor) (b : UInt8) (next : Stage) (field : Option Field) : Cursor :=
  if isBlank b then c.advance else { c with stage := next, field := field, token := c.pos }

/-- A pass over a name; its field is looked up when its colon is met. -/
def passName (lines : Bytes) (c : Cursor) (b : UInt8) : Option Cursor :=
  if b = Byte.colon then
    if c.token < c.pos then
      (lines.slice c.token c.pos).map fun name =>
        match Field.lookup name with
        | some f => { c with stage := .colon, field := some f }
        | none => { c with field := none }.failWith (.unknownField name)
    else some c.fail
  else if isGraphic b then some c.advance
  else some c.fail

/-- A pass over the colon. -/
def passColon (c : Cursor) (b : UInt8) : Cursor :=
  if b = Byte.colon then { c.advance with stage := .gap } else c.fail

/-- A pass over a value, which is stored when the end of its line is met. -/
def passValue (lines : Bytes) (c : Cursor) (b : UInt8) : Option Cursor :=
  match c.field with
  | none => some c.fail
  | some f =>
    if b = newline then
      (lines.slice c.token c.pos).map fun raw =>
        match c.record.apply f raw with
        | .ok r => { c with stage := .blank, record := r }
        | .error fault => c.failWith fault
    else if f.kind = .unsigned ∧ isDigit b = false then some c.fail
    else some c.advance

/-- One pass; there is none that reads outside the buffer. -/
def pass (lines : Bytes) (c : Cursor) : Option Cursor :=
  lines[c.pos]?.bind fun b =>
    match c.stage with
    | .blank => some (c.passBlank b .name none)
    | .name => c.passName lines b
    | .colon => some (c.passColon b)
    | .gap => some (c.passBlank b .value c.field)
    | .value => c.passValue lines b
    | .failed => some c

/-- The cursor after its last pass, if it needs no more passes than are given and none of them
reads outside the buffer.  The pass that meets a fault found before is the last one, and counts. -/
def loop (lines : Bytes) : ℕ → Cursor → Option Cursor
  | 0, c => if c.pos < lines.length then none else some c
  | passes + 1, c =>
    if c.pos < lines.length then
      if c.stage = .failed then some c else (c.pass lines).bind (loop lines passes)
    else some c

/-- What a cursor after its last pass says about the lines; there is nothing to say of a value that
belongs to no field. -/
def outcome (c : Cursor) : Option Scanned :=
  match c.stage with
  | .blank => some ⟨c.record, none⟩
  | .gap => c.field.map fun f =>
    match c.record.apply f [] with
    | .ok r => ⟨r, none⟩
    | .error fault => ⟨c.record, some fault⟩
  | .failed => some ⟨c.record, some (c.fault.getD .malformed)⟩
  | .name | .colon | .value => some ⟨c.record, some .unterminated⟩

/-- The cursors before, between and after the passes over a buffer. -/
inductive Visits (lines : Bytes) (r : Record) : Cursor → Prop where
  /-- The first pass starts at the front of the buffer. -/
  | start : Visits lines r (start r)
  /-- There is another pass as long as there is a byte left and no fault has been found. -/
  | pass {c c' : Cursor} (h : Visits lines r c) (hpos : c.pos < lines.length)
      (hstage : c.stage ≠ .failed) (hpass : c.pass lines = some c') : Visits lines r c'

/-- What holds of a cursor at any time. -/
structure Sound (lines : Bytes) (c : Cursor) : Prop where
  /-- No text ends before it begins. -/
  token_le : c.token ≤ c.pos
  /-- No text ends behind the buffer. -/
  pos_le : c.pos ≤ lines.length
  /-- A colon is waited for only where one stands, hence never at the end of the buffer. -/
  at_colon : c.stage = .colon → lines[c.pos]? = some Byte.colon
  /-- What follows a name is read for the field that has this name. -/
  has_field : c.stage = .colon ∨ c.stage = .gap ∨ c.stage = .value → ∃ f, c.field = some f

/-! ### The cursor and the machine -/

/-- The phase of the machine that a cursor stands for. -/
inductive ShowsPhase (lines : Bytes) : Cursor → Phase → Prop where
  | blank {field : Option Field} {token pos : ℕ} {r : Record} :
    ShowsPhase lines ⟨.blank, field, token, pos, none, r⟩ .blank
  | name {field : Option Field} {token pos : ℕ} {r : Record} {word : Bytes}
      (h : lines.slice token pos = some word.reverse) :
    ShowsPhase lines ⟨.name, field, token, pos, none, r⟩ (.name word)
  | colon {f : Field} {token pos : ℕ} {r : Record} (h : lines[pos]? = some Byte.colon) :
    ShowsPhase lines ⟨.colon, some f, token, pos, none, r⟩ (.colon f)
  | gap {f : Field} {token pos : ℕ} {r : Record} :
    ShowsPhase lines ⟨.gap, some f, token, pos, none, r⟩ (.gap f)
  | value {f : Field} {token pos : ℕ} {r : Record} {word : Bytes}
      (h : lines.slice token pos = some word.reverse) :
    ShowsPhase lines ⟨.value, some f, token, pos, none, r⟩ (.value f word)
  | failed {field : Option Field} {token pos : ℕ} {fault : Option LineFault} {r : Record} :
    ShowsPhase lines ⟨.failed, field, token, pos, fault, r⟩ (.failed (fault.getD .malformed))

/-- A cursor within the buffer stands for a phase of the machine. -/
structure Shows (lines : Bytes) (c : Cursor) (p : Phase) : Prop where
  token_le : c.token ≤ c.pos
  pos_le : c.pos ≤ lines.length
  phase : ShowsPhase lines c p

/-- The machine in some phase that has the record of a cursor and the bytes behind it. -/
def machine (lines : Bytes) (c : Cursor) (p : Phase) : Machine :=
  ⟨p, lines.drop c.pos, c.record⟩

/-- A pass of a cursor is a step of the machine. -/
def Keeps (lines : Bytes) (c : Cursor) (p : Phase) : Prop :=
  ∃ c' p', c.pass lines = some c' ∧
    (c.machine lines p).step = some (c'.machine lines p') ∧ Shows lines c' p'

section Passes

variable {lines : Bytes} {field : Option Field} {f : Field} {token pos : ℕ} {r : Record}
  {word : Bytes} {b : UInt8}

theorem lt_of_getElem? (hb : lines[pos]? = some b) : pos < lines.length :=
  (List.getElem?_eq_some_iff.mp hb).1

theorem drop_of_getElem? (hb : lines[pos]? = some b) :
    lines.drop pos = b :: lines.drop (pos + 1) := by
  obtain ⟨hlt, rfl⟩ := List.getElem?_eq_some_iff.mp hb
  exact List.drop_eq_getElem_cons hlt

theorem keeps_blank (hb : lines[pos]? = some b) (htoken : token ≤ pos) :
    Keeps lines ⟨.blank, field, token, pos, none, r⟩ .blank := by
  have hlt : pos < lines.length := lt_of_getElem? hb
  have hle : pos ≤ lines.length := Nat.le_of_lt hlt
  by_cases hblank : isBlank b = true
  · refine ⟨⟨.blank, field, token, pos + 1, none, r⟩, .blank, ?_, ?_,
      Nat.le_succ_of_le htoken, hlt, .blank⟩
    · simp only [pass, hb, Option.bind_some, passBlank, if_pos hblank, advance]
    · simp only [machine, drop_of_getElem? hb, Machine.step, Machine.stepBlank, if_pos hblank]
  · refine ⟨⟨.name, none, pos, pos, none, r⟩, .name [], ?_, ?_, Nat.le_refl pos, hle,
      .name (Bytes.slice_self hle)⟩
    · simp only [pass, hb, Option.bind_some, passBlank, if_neg hblank]
    · simp only [machine, drop_of_getElem? hb, Machine.step, Machine.stepBlank, if_neg hblank]

theorem keeps_gap (hb : lines[pos]? = some b) (htoken : token ≤ pos) :
    Keeps lines ⟨.gap, some f, token, pos, none, r⟩ (.gap f) := by
  have hlt : pos < lines.length := lt_of_getElem? hb
  have hle : pos ≤ lines.length := Nat.le_of_lt hlt
  by_cases hblank : isBlank b = true
  · refine ⟨⟨.gap, some f, token, pos + 1, none, r⟩, .gap f, ?_, ?_,
      Nat.le_succ_of_le htoken, hlt, .gap⟩
    · simp only [pass, hb, Option.bind_some, passBlank, if_pos hblank, advance]
    · simp only [machine, drop_of_getElem? hb, Machine.step, Machine.stepGap, if_pos hblank]
  · refine ⟨⟨.value, some f, pos, pos, none, r⟩, .value f [], ?_, ?_, Nat.le_refl pos, hle,
      .value (Bytes.slice_self hle)⟩
    · simp only [pass, hb, Option.bind_some, passBlank, if_neg hblank]
    · simp only [machine, drop_of_getElem? hb, Machine.step, Machine.stepGap, if_neg hblank]

theorem keeps_colon (hb : lines[pos]? = some Byte.colon) (htoken : token ≤ pos) :
    Keeps lines ⟨.colon, some f, token, pos, none, r⟩ (.colon f) := by
  have hlt : pos < lines.length := lt_of_getElem? hb
  refine ⟨⟨.gap, some f, token, pos + 1, none, r⟩, .gap f, ?_, ?_,
    Nat.le_succ_of_le htoken, hlt, .gap⟩
  · simp only [pass, hb, Option.bind_some, passColon, if_pos, advance]
  · simp only [machine, drop_of_getElem? hb, Machine.step, Machine.stepColon, if_pos]

/-- At the colon behind a name, the text cut out of the buffer is the name. -/
theorem keeps_name_end (hb : lines[pos]? = some Byte.colon) (htoken : token ≤ pos)
    (hslice : lines.slice token pos = some word.reverse) :
    Keeps lines ⟨.name, field, token, pos, none, r⟩ (.name word) := by
  have hle : pos ≤ lines.length := Nat.le_of_lt (lt_of_getElem? hb)
  have hlength : word.length = pos - token := by
    rw [← Bytes.length_of_slice hslice, List.length_reverse]
  by_cases hword : word = []
  · have hempty : ¬ token < pos := by
      rw [hword, List.length_nil] at hlength
      omega
    refine ⟨⟨.failed, field, token, pos, none, r⟩, .failed .malformed, ?_, ?_, htoken, hle,
      .failed⟩
    · simp only [pass, hb, Option.bind_some, passName, if_pos, if_neg hempty, fail]
    · simp only [machine, drop_of_getElem? hb, Machine.step, Machine.stepName, if_pos,
        if_pos hword, Machine.fail]
  · have hnonempty : token < pos := by
      have hpositive := List.length_pos_iff.mpr hword
      omega
    cases hlookup : Field.lookup word.reverse with
    | some g =>
      refine ⟨⟨.colon, some g, token, pos, none, r⟩, .colon g, ?_, ?_, htoken, hle, .colon hb⟩
      · simp only [pass, hb, Option.bind_some, passName, if_pos, if_pos hnonempty, hslice,
          Option.map_some, hlookup]
      · simp only [machine, drop_of_getElem? hb, Machine.step, Machine.stepName, if_pos,
          if_neg hword, hlookup]
    | none =>
      refine ⟨⟨.failed, none, token, pos, some (.unknownField word.reverse), r⟩,
        .failed (.unknownField word.reverse), ?_, ?_, htoken, hle, .failed⟩
      · simp only [pass, hb, Option.bind_some, passName, if_pos, if_pos hnonempty, hslice,
          Option.map_some, hlookup, failWith]
      · simp only [machine, drop_of_getElem? hb, Machine.step, Machine.stepName, if_pos,
          if_neg hword, hlookup, Machine.fail]

theorem keeps_name (hb : lines[pos]? = some b) (htoken : token ≤ pos)
    (hslice : lines.slice token pos = some word.reverse) :
    Keeps lines ⟨.name, field, token, pos, none, r⟩ (.name word) := by
  have hlt : pos < lines.length := lt_of_getElem? hb
  by_cases hcolon : b = Byte.colon
  · subst hcolon
    exact keeps_name_end hb htoken hslice
  · by_cases hgraphic : isGraphic b = true
    · refine ⟨⟨.name, field, token, pos + 1, none, r⟩, .name (b :: word), ?_, ?_,
        Nat.le_succ_of_le htoken, hlt, .name ?_⟩
      · simp only [pass, hb, Option.bind_some, passName, if_neg hcolon, if_pos hgraphic, advance]
      · simp only [machine, drop_of_getElem? hb, Machine.step, Machine.stepName, if_neg hcolon,
          if_pos hgraphic]
      · rw [List.reverse_cons]
        exact Bytes.slice_succ hslice hb
    · refine ⟨⟨.failed, field, token, pos, none, r⟩, .failed .malformed, ?_, ?_, htoken,
        Nat.le_of_lt hlt, .failed⟩
      · simp only [pass, hb, Option.bind_some, passName, if_neg hcolon, if_neg hgraphic, fail]
      · simp only [machine, drop_of_getElem? hb, Machine.step, Machine.stepName, if_neg hcolon,
          if_neg hgraphic, Machine.fail]

/-- At the end of a line, the text cut out of the buffer is the value. -/
theorem keeps_value_end (hb : lines[pos]? = some newline) (htoken : token ≤ pos)
    (hslice : lines.slice token pos = some word.reverse) :
    Keeps lines ⟨.value, some f, token, pos, none, r⟩ (.value f word) := by
  have hle : pos ≤ lines.length := Nat.le_of_lt (lt_of_getElem? hb)
  cases happly : r.apply f word.reverse with
  | ok r' =>
    refine ⟨⟨.blank, some f, token, pos, none, r'⟩, .blank, ?_, ?_, htoken, hle, .blank⟩
    · simp only [pass, hb, Option.bind_some, passValue, if_pos, hslice, Option.map_some, happly]
    · simp only [machine, drop_of_getElem? hb, Machine.step, Machine.stepValue, if_pos, happly]
  | error fault =>
    refine ⟨⟨.failed, some f, token, pos, some fault, r⟩, .failed fault, ?_, ?_, htoken, hle,
      .failed⟩
    · simp only [pass, hb, Option.bind_some, passValue, if_pos, hslice, Option.map_some, happly,
        failWith]
    · simp only [machine, drop_of_getElem? hb, Machine.step, Machine.stepValue, if_pos, happly,
        Machine.fail]

theorem keeps_value (hb : lines[pos]? = some b) (htoken : token ≤ pos)
    (hslice : lines.slice token pos = some word.reverse) :
    Keeps lines ⟨.value, some f, token, pos, none, r⟩ (.value f word) := by
  have hlt : pos < lines.length := lt_of_getElem? hb
  by_cases hnewline : b = newline
  · subst hnewline
    exact keeps_value_end hb htoken hslice
  · by_cases hdigit : f.kind = .unsigned ∧ isDigit b = false
    · refine ⟨⟨.failed, some f, token, pos, none, r⟩, .failed .malformed, ?_, ?_, htoken,
        Nat.le_of_lt hlt, .failed⟩
      · simp only [pass, hb, Option.bind_some, passValue, if_neg hnewline, if_pos hdigit, fail]
      · simp only [machine, drop_of_getElem? hb, Machine.step, Machine.stepValue, if_neg hnewline,
          if_pos hdigit, Machine.fail]
    · refine ⟨⟨.value, some f, token, pos + 1, none, r⟩, .value f (b :: word), ?_, ?_,
        Nat.le_succ_of_le htoken, hlt, .value ?_⟩
      · simp only [pass, hb, Option.bind_some, passValue, if_neg hnewline, if_neg hdigit, advance]
      · simp only [machine, drop_of_getElem? hb, Machine.step, Machine.stepValue, if_neg hnewline,
          if_neg hdigit]
      · rw [List.reverse_cons]
        exact Bytes.slice_succ hslice hb

end Passes

/-- As long as there is a byte left and no fault has been found, a pass is a step. -/
theorem keeps_of_shows {lines : Bytes} {c : Cursor} {p : Phase} (h : Shows lines c p)
    (hpos : c.pos < lines.length) (hstage : c.stage ≠ .failed) : Keeps lines c p := by
  obtain ⟨htoken, -, hphase⟩ := h
  cases hphase with
  | blank => exact keeps_blank (List.getElem?_eq_getElem hpos) htoken
  | name hslice => exact keeps_name (List.getElem?_eq_getElem hpos) htoken hslice
  | colon hcolon => exact keeps_colon hcolon htoken
  | gap => exact keeps_gap (List.getElem?_eq_getElem hpos) htoken
  | value hslice => exact keeps_value (List.getElem?_eq_getElem hpos) htoken hslice
  | failed => exact absurd rfl hstage

end Cursor

/-! ### The number of passes -/

/-- Whether a phase makes one pass more for a byte than the pass that takes it. -/
def Phase.lingers (b : UInt8) : Phase → Bool
  | blank | gap _ => !isBlank b
  | name token => b == Byte.colon && !token.isEmpty
  | value _ _ => b == newline
  | colon _ | failed _ => false

namespace Machine

/-- A bound on the passes that are still made: two for each byte, and one for a fault, which takes
the place of the pass that would have taken the byte. -/
def passes (m : Machine) : ℕ :=
  match m.rest, m.phase with
  | [], _ => 0
  | _ :: _, .failed _ => 1
  | b :: rest, p => 2 * (rest.length + 1) + (p.lingers b).toNat

variable {m m' : Machine} {b : UInt8} {rest : Bytes}

theorem passes_le (m : Machine) : m.passes ≤ 2 * m.rest.length + 1 := by
  obtain ⟨p, rest, r⟩ := m
  cases rest with
  | nil => exact Nat.zero_le _
  | cons b rest =>
    have hlingers : (p.lingers b).toNat ≤ 1 := Bool.toNat_le _
    cases p <;> simp only [passes, List.length_cons] <;> omega

theorem passes_of_rest (hrest : m.rest = b :: rest) (hphase : ∀ fault, m.phase ≠ .failed fault) :
    m.passes = 2 * (rest.length + 1) + (m.phase.lingers b).toNat := by
  obtain ⟨p, _, r⟩ := m
  obtain rfl := hrest
  cases p with
  | failed fault => exact absurd rfl (hphase fault)
  | _ => rfl

/-- Where no pass is left, no byte is. -/
theorem rest_of_passes (h : m.passes = 0) : m.rest = [] := by
  obtain ⟨p, rest, r⟩ := m
  cases rest with
  | nil => rfl
  | cons b rest =>
    exfalso
    cases p <;> simp only [passes] at h <;> omega

/-- A byte is worth two passes. -/
theorem passes_lt_of_rest (hrest : m.rest = b :: m'.rest)
    (hphase : ∀ fault, m.phase ≠ .failed fault) : m'.passes < m.passes := by
  have hle := m'.passes_le
  have heq := passes_of_rest hrest hphase
  omega

/-- A fault is worth one pass. -/
theorem passes_fail_lt (hrest : m.rest = b :: rest) (hphase : ∀ fault, m.phase ≠ .failed fault)
    (fault : LineFault) : (m.fail fault).passes < m.passes := by
  have hone : (m.fail fault).passes = 1 := by
    simp only [passes, fail, hrest]
  have heq := passes_of_rest hrest hphase
  omega

/-- A pass that takes no byte leads to a phase that takes it. -/
theorem passes_lt_of_lingers (hrest : m.rest = b :: rest) (hrest' : m'.rest = m.rest)
    (hphase' : ∀ fault, m'.phase ≠ .failed fault) (hlingers : m.phase.lingers b = true)
    (hlingers' : m'.phase.lingers b = false) : m'.passes < m.passes := by
  have hphase : ∀ fault, m.phase ≠ .failed fault := by
    intro fault hfailed
    rw [hfailed] at hlingers
    contradiction
  rw [passes_of_rest hrest hphase, passes_of_rest (hrest'.trans hrest) hphase', hlingers,
    hlingers']
  exact Nat.lt_succ_self _

/-- A step lowers the bound. -/
theorem passes_lt_of_step (h : m.step = some m') : m'.passes < m.passes := by
  obtain ⟨phase, rest, record⟩ := m
  cases rest with
  | nil => cases phase <;> simp [step] at h
  | cons b rest =>
    cases phase with
    | failed fault => simp [step] at h
    | blank =>
      simp only [step, Option.some.injEq, stepBlank] at h
      subst h
      split
      case isTrue => exact passes_lt_of_rest rfl (by simp)
      case isFalse hblank =>
        exact passes_lt_of_lingers rfl rfl (by simp) (by simp [Phase.lingers, hblank])
          (by simp [Phase.lingers])
    | name token =>
      simp only [step, Option.some.injEq, stepName] at h
      subst h
      split
      case isTrue hcolon =>
        split
        case isTrue => exact passes_fail_lt rfl (by simp) _
        case isFalse hword =>
          split
          · exact passes_lt_of_lingers rfl rfl (by simp)
              (by simp [Phase.lingers, hcolon, hword]) rfl
          · exact passes_fail_lt rfl (by simp) _
      case isFalse =>
        split
        · exact passes_lt_of_rest rfl (by simp)
        · exact passes_fail_lt rfl (by simp) _
    | colon f =>
      simp only [step, Option.some.injEq, stepColon] at h
      subst h
      split
      · exact passes_lt_of_rest rfl (by simp)
      · exact passes_fail_lt rfl (by simp) _
    | gap f =>
      simp only [step, Option.some.injEq, stepGap] at h
      subst h
      split
      case isTrue => exact passes_lt_of_rest rfl (by simp)
      case isFalse hblank =>
        -- the end of a line is blank, so the value does not end where it begins
        have hnewline : b ≠ newline := by
          rintro rfl
          exact hblank isBlank_newline
        exact passes_lt_of_lingers rfl rfl (by simp) (by simp [Phase.lingers, hblank])
          (by simp [Phase.lingers, hnewline])
    | value f token =>
      simp only [step, Option.some.injEq, stepValue] at h
      subst h
      split
      case isTrue hnewline =>
        subst hnewline
        split
        · exact passes_lt_of_lingers rfl rfl (by simp) rfl rfl
        · exact passes_fail_lt rfl (by simp) _
      case isFalse =>
        split
        · exact passes_fail_lt rfl (by simp) _
        · exact passes_lt_of_rest rfl (by simp)

end Machine

namespace Cursor

variable {lines : Bytes} {c : Cursor} {p : Phase} {r : Record}

/-! ### The loop -/

theorem machine_step_of_end (h : ¬ c.pos < lines.length) : (c.machine lines p).step = none := by
  rw [machine, List.drop_of_length_le (Nat.le_of_not_lt h)]
  rfl

theorem shows_start : Shows lines (start r) .blank :=
  ⟨Nat.le_refl 0, Nat.zero_le _, .blank⟩

theorem phase_of_stage_failed (h : Shows lines c p) (hstage : c.stage = .failed) :
    ∃ fault, p = .failed fault := by
  obtain ⟨-, -, hphase⟩ := h
  cases hphase
  case failed fault => exact ⟨_, rfl⟩
  all_goals contradiction

/-- The loop ends if it may make as many passes as the bound says, and it ends where the machine
does. -/
theorem loop_of_shows {passes : ℕ} (h : Shows lines c p)
    (hpasses : (c.machine lines p).passes ≤ passes) :
    ∃ c' p', loop lines passes c = some c' ∧
      (c.machine lines p).run = c'.machine lines p' ∧ Shows lines c' p' := by
  induction passes generalizing c p with
  | zero =>
    have hrest : lines.drop c.pos = [] := Machine.rest_of_passes (Nat.le_zero.mp hpasses)
    have hend : ¬ c.pos < lines.length := Nat.not_lt.mpr (List.drop_eq_nil_iff.mp hrest)
    refine ⟨c, p, ?_, Machine.run_of_step_none (machine_step_of_end hend), h⟩
    rw [loop, if_neg hend]
  | succ passes ih =>
    by_cases hpos : c.pos < lines.length
    · by_cases hstage : c.stage = .failed
      · obtain ⟨fault, rfl⟩ := phase_of_stage_failed h hstage
        refine ⟨c, .failed fault, ?_, Machine.run_of_step_none ?_, h⟩
        · rw [loop, if_pos hpos, if_pos hstage]
        · rw [machine, List.drop_eq_getElem_cons hpos]
          rfl
      · obtain ⟨c₁, p₁, hpass, hstep, hshows⟩ := keeps_of_shows h hpos hstage
        have hlt := Machine.passes_lt_of_step hstep
        obtain ⟨c', p', hloop, hrun, hshows'⟩ := ih hshows (by omega)
        refine ⟨c', p', ?_, ?_, hshows'⟩
        · rw [loop, if_pos hpos, if_neg hstage, hpass, Option.bind_some, hloop]
        · rw [Machine.run_of_step_some hstep, hrun]
    · refine ⟨c, p, ?_, Machine.run_of_step_none (machine_step_of_end hpos), h⟩
      rw [loop, if_neg hpos]

/-- A cursor says about the lines what the machine says. -/
theorem outcome_of_shows (h : Shows lines c p) :
    c.outcome = some (c.machine lines p).outcome := by
  obtain ⟨-, -, hphase⟩ := h
  cases hphase
  case gap f token pos r =>
    cases happly : r.apply f [] <;>
      simp only [outcome, Option.map_some, Machine.outcome, machine, happly]
  all_goals rfl

/-- Every cursor that the passes lead to stands for a phase of the machine. -/
theorem shows_of_visits (h : Visits lines r c) : ∃ p, Shows lines c p := by
  induction h with
  | start => exact ⟨.blank, shows_start⟩
  | pass _ hpos hstage hpass ih =>
    obtain ⟨p, hshows⟩ := ih
    obtain ⟨c', p', hpass', -, hshows'⟩ := keeps_of_shows hshows hpos hstage
    obtain rfl : c' = _ := Option.some.inj (hpass'.symm.trans hpass)
    exact ⟨p', hshows'⟩

/-- The loop ends with a cursor that the passes lead to. -/
theorem visits_of_loop {passes : ℕ} {c' : Cursor} (h : Visits lines r c)
    (hloop : loop lines passes c = some c') : Visits lines r c' := by
  induction passes generalizing c with
  | zero =>
    rw [loop] at hloop
    split at hloop
    case isTrue => contradiction
    case isFalse =>
      obtain rfl := Option.some.inj hloop
      exact h
  | succ passes ih =>
    rw [loop] at hloop
    split at hloop
    case isTrue hpos =>
      split at hloop
      case isTrue =>
        obtain rfl := Option.some.inj hloop
        exact h
      case isFalse hstage =>
        obtain ⟨c₁, hpass, hloop⟩ := Option.bind_eq_some_iff.mp hloop
        exact ih (.pass h hpos hstage hpass) hloop
    case isFalse =>
      obtain rfl := Option.some.inj hloop
      exact h

theorem sound_of_shows (h : Shows lines c p) : Sound lines c := by
  obtain ⟨htoken, hpos, hphase⟩ := h
  refine ⟨htoken, hpos, ?_, ?_⟩
  · intro hstage
    cases hphase
    case colon hcolon => exact hcolon
    all_goals contradiction
  · intro hstage
    cases hphase
    case colon f _ _ _ _ => exact ⟨f, rfl⟩
    case gap f _ _ _ => exact ⟨f, rfl⟩
    case value f _ _ _ _ _ => exact ⟨f, rfl⟩
    all_goals simp at hstage

/-- The passes over a buffer end, within twice its length and one more, with what the machine says
about the lines.  No pass reads outside the buffer, and the positions are in order at any time: a
colon is waited for only where one stands, so not at the end of the buffer, and nothing is read
behind a name that is not the name of a field. -/
theorem loop_in_bounds (r : Record) (lines : Bytes) :
    (∃ c, loop lines (2 * lines.length + 1) (start r) = some c ∧ Visits lines r c ∧
        c.outcome = some (r.scan lines)) ∧
      ∀ c, Visits lines r c → Sound lines c ∧ (c.pos = lines.length → c.stage ≠ .colon) := by
  constructor
  · have hpasses := Machine.passes_le (machine lines (start r) .blank)
    obtain ⟨c, p, hloop, hrun, hshows⟩ := loop_of_shows shows_start hpasses
    refine ⟨c, hloop, visits_of_loop .start hloop, ?_⟩
    rw [outcome_of_shows hshows, ← hrun]
    rfl
  · intro c hvisits
    obtain ⟨p, hshows⟩ := shows_of_visits hvisits
    have hsound := sound_of_shows hshows
    refine ⟨hsound, ?_⟩
    intro hend hstage
    have hcolon := hsound.at_colon hstage
    rw [hend, List.getElem?_length] at hcolon
    contradiction

/-- A colon where a name should be takes all passes that the bound allows. -/
theorem colon_loop_in_bounds :
    loop [Byte.colon] 2 (start .empty) = none ∧
      ∃ c, loop [Byte.colon] 3 (start .empty) = some c ∧ Sound [Byte.colon] c ∧
        c.outcome = some ⟨.empty, some .malformed⟩ := by
  obtain ⟨⟨c, hloop, hvisits, houtcome⟩, hsound⟩ := loop_in_bounds .empty [Byte.colon]
  have hscan : Record.empty.scan [Byte.colon] = ⟨.empty, some .malformed⟩ := by decide +kernel
  refine ⟨by decide, c, hloop, (hsound c hvisits).1, ?_⟩
  rw [houtcome, hscan]

end Cursor

end SigningKeys
