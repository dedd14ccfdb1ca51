import SigningKeys.Record.Basic

/-!
# Lines

A line of a private key container is a name, a colon and a value.  Lines are read by a machine that
looks at one byte at a time and keeps the record that it fills.  A step may change the phase of the
machine without taking the byte: such a step never leads back to the phase that it left before the
byte is taken, so the machine stops.

A value ends at the end of its line and may be followed by further lines.  Blanks before a name and
before a value are skipped, the ends of lines among them.

## Main definitions

* `Phase`, `Machine`: the phases and states of the machine.
* `Machine.step`: one step; there is none from a final state.
* `Machine.run`: the final state that a state leads to.
* `Record.scan`: the record after some lines, and what is wrong with them.

## Main results

* `Machine.remaining_lt_of_step`: a step takes a byte or moves to an earlier phase.
-/

namespace SigningKeys

/-- What the machine is reading. -/
inductive Phase where
  /-- Blanks before a name. -/
  | blank
  /-- A name, of which these bytes have been read, the last first. -/
  | name (token : Bytes)
  /-- The colon after the name of a field. -/
  | colon (field : Field)
  /-- Blanks before the value of a field. -/
  | gap (field : Field)
  /-- The value of a field, of which these bytes have been read, the last first. -/
  | value (field : Field) (token : Bytes)
  /-- Nothing any more. -/
  | failed (fault : LineFault)
  deriving DecidableEq, Repr

/-- The state of the machine. -/
structure Machine where
  /-- What is being read. -/
  phase : Phase
  /-- The bytes that have not been taken. -/
  rest : Bytes
  /-- The record as it has been filled so far. -/
  record : Record
  deriving DecidableEq, Repr

namespace Machine

/-- The machine before some lines that are to fill a record. -/
def start (r : Record) (lines : Bytes) : Machine := ⟨.blank, lines, r⟩

/-- The machine after it has found a fault. -/
def fail (m : Machine) (fault : LineFault) : Machine := { m with phase := .failed fault }

/-! ### Steps by phase -/

/-- A step before a name. -/
def stepBlank (m : Machine) (b : UInt8) (rest : Bytes) : Machine :=
  if Byte.isBlank b then { m with rest := rest } else { m with phase := .name [] }

/-- A step within a name; the field of the name is looked up when its colon is met. -/
def stepName (m : Machine) (token : Bytes) (b : UInt8) (rest : Bytes) : Machine :=
  if b = Byte.colon then
    if token = [] then m.fail .malformed
    else
      match Field.lookup token.reverse with
      | some f => { m with phase := .colon f }
      | none => m.fail (.unknownField token.reverse)
  else if Byte.isGraphic b then { m with phase := .name (b :: token), rest := rest }
  else m.fail .malformed

/-- A step at the colon. -/
def stepColon (m : Machine) (f : Field) (b : UInt8) (rest : Bytes) : Machine :=
  if b = Byte.colon then { m with phase := .gap f, rest := rest } else m.fail .malformed

/-- A step before a value. -/
def stepGap (m : Machine) (f : Field) (b : UInt8) (rest : Bytes) : Machine :=
  if Byte.isBlank b then { m with rest := rest } else { m with phase := .value f [] }

/-- A step within a value, which is stored when the end of its line is met. -/
def stepValue (m : Machine) (f : Field) (token : Bytes) (b : UInt8) (rest : Bytes) : Machine :=
  if b = Byte.newline then
    match m.record.apply f token.reverse with
    | .ok r => { m with phase := .blank, record := r }
    | .error fault => m.fail fault
  else if f.kind = .unsigned ∧ Byte.isDigit b = false then m.fail .malformed
  else { m with phase := .value f (b :: token), rest := rest }

/-- One step, unless no byte is left or a fault has been found. -/
def step (m : Machine) : Option Machine :=
  match m.rest, m.phase with
  | [], _ => none
  | _ :: _, .failed _ => none
  | b :: rest, .blank => some (m.stepBlank b rest)
  | b :: rest, .name token => some (m.stepName token b rest)
  | b :: rest, .colon f => some (m.stepColon f b rest)
  | b :: rest, .gap f => some (m.stepGap f b rest)
  | b :: rest, .value f token => some (m.stepValue f token b rest)

/-! ### The machine stops -/

end Machine

/-- The order of the phases: a step that takes no byte leads to an earlier one. -/
def Phase.rank : Phase → Nat
  | failed _ => 0
  | colon _ => 1
  | name _ => 2
  | blank => 3
  | value _ _ => 4
  | gap _ => 5

namespace Machine

/-- A bound on the steps that a state still takes. -/
def remaining (m : Machine) : Nat := 6 * m.rest.length + m.phase.rank

theorem remaining_fail_lt (m : Machine) (fault : LineFault) (h : 0 < m.phase.rank) :
    (m.fail fault).remaining < m.remaining := by
  have hfail : (m.fail fault).phase.rank = 0 := rfl
  have hrest : (m.fail fault).rest = m.rest := rfl
  simp only [remaining, hfail, hrest]
  omega

theorem remaining_lt_of_rest {m m' : Machine} {b : UInt8} (h : m.rest = b :: m'.rest) :
    m'.remaining < m.remaining := by
  have hrank : m'.phase.rank ≤ 5 := by cases m'.phase <;> simp [Phase.rank]
  simp only [remaining, h, List.length_cons]
  omega

theorem remaining_lt_of_rank {m m' : Machine} (h : m.rest = m'.rest)
    (hrank : m'.phase.rank < m.phase.rank) : m'.remaining < m.remaining := by
  simp only [remaining, h]
  omega

/-- A step takes a byte or moves to an earlier phase for the same byte. -/
theorem remaining_lt_of_step {m m' : Machine} (h : m.step = some m') :
    m'.remaining < m.remaining := by
  obtain ⟨phase, rest, record⟩ := m
  cases rest with
  | nil => cases phase <;> simp [step] at h
  | cons b rest =>
    cases phase with
    | failed fault => simp [step] at h
    | blank =>
      simp only [step, Option.some.injEq, stepBlank] at h
      subst h
      split
      · exact remaining_lt_of_rest rfl
      · exact remaining_lt_of_rank rfl (by simp [Phase.rank])
    | name token =>
      simp only [step, Option.some.injEq, stepName] at h
      subst h
      split
      · split
        · exact remaining_fail_lt _ _ (by simp [Phase.rank])
        · split
          · exact remaining_lt_of_rank rfl (by simp [Phase.rank])
          · exact remaining_fail_lt _ _ (by simp [Phase.rank])
      · split
        · exact remaining_lt_of_rest rfl
        · exact remaining_fail_lt _ _ (by simp [Phase.rank])
    | colon f =>
      simp only [step, Option.some.injEq, stepColon] at h
      subst h
      split
      · exact remaining_lt_of_rest rfl
      · exact remaining_fail_lt _ _ (by simp [Phase.rank])
    | gap f =>
      simp only [step, Option.some.injEq, stepGap] at h
      subst h
      split
      · exact remaining_lt_of_rest rfl
      · exact remaining_lt_of_rank rfl (by simp [Phase.rank])
    | value f token =>
      simp only [step, Option.some.injEq, stepValue] at h
      subst h
      split
      · split
        · exact remaining_lt_of_rank rfl (by simp [Phase.rank])
        · exact remaining_fail_lt _ _ (by simp [Phase.rank])
      · split
        · exact remaining_fail_lt _ _ (by simp [Phase.rank])
        · exact remaining_lt_of_rest rfl

/-- The final state that a state leads to. -/
def run (m : Machine) : Machine :=
  match _h : m.step with
  | none => m
  | some m' => run m'
termination_by m.remaining
decreasing_by exact remaining_lt_of_step _h

theorem run_of_step_none {m : Machine} (h : m.step = none) : m.run = m := by
  rw [run]
  split
  · rfl
  · simp_all

theorem run_of_step_some {m m' : Machine} (h : m.step = some m') : m.run = m'.run := by
  rw [run]
  split <;> simp_all

end Machine

/-! ### Lines and records -/

/-- The record after some lines, and what was wrong with them. -/
structure Scanned where
  /-- The record, with the values of all lines before a faulty one. -/
  record : Record
  /-- The first fault. -/
  fault : Option LineFault
  deriving DecidableEq, Repr

/-- What a final state says about the lines.  A name may be followed by no value at all: the value
is then empty. -/
def Machine.outcome (m : Machine) : Scanned :=
  match m.phase with
  | .blank => ⟨m.record, none⟩
  | .gap f =>
    match m.record.apply f [] with
    | .ok r => ⟨r, none⟩
    | .error fault => ⟨m.record, some fault⟩
  | .failed fault => ⟨m.record, some fault⟩
  | .name _ | .colon _ | .value _ _ => ⟨m.record, some .unterminated⟩

/-- The record after some lines have been read into it. -/
def Record.scan (r : Record) (lines : Bytes) : Scanned := (Machine.start r lines).run.outcome

end SigningKeys
