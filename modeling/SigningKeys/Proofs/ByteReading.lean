import Mathlib.Data.List.Basic
import SigningKeys.Container.Line

/-!
# Lines read byte by byte

The machine that reads lines may change its phase several times before it takes a byte.  Seen from
the bytes, each of them moves the machine from one phase to the next, and the lines are a fold over
their bytes.  This view has no steps without a byte, so what a run does to the record is proved by
induction on the bytes.

## Main definitions

* `Reading`: the phase of the machine and the record that it fills.
* `Reading.take`: what one byte does, with all steps up to the one that takes it.
* `Reading.takeAll`: what a byte string does.

## Main results

* `Machine.outcome_run`: **a run of the machine ends as the fold over its bytes does.**
* `Reading.takeAll_append`: a byte string can be cut anywhere.
-/

namespace SigningKeys

open Byte

/-- The phase of the machine and the record that it fills. -/
structure Reading where
  /-- What is being read. -/
  phase : Phase
  /-- The record as it has been filled so far. -/
  record : Record
  deriving DecidableEq, Repr

namespace Reading

/-! ### One byte -/

/-- The phase after a byte of a name. -/
def takeName (token : Bytes) (b : UInt8) : Phase :=
  if b = colon then
    if token = [] then .failed .malformed
    else
      match Field.lookup token.reverse with
      | some f => .gap f
      | none => .failed (.unknownField token.reverse)
  else if isGraphic b then .name (b :: token)
  else .failed .malformed

/-- The phase and the record after a byte of a value. -/
def takeValue (r : Record) (f : Field) (token : Bytes) (b : UInt8) : Reading :=
  if b = newline then
    match r.apply f token.reverse with
    | .ok r' => ⟨.blank, r'⟩
    | .error fault => ⟨.failed fault, r⟩
  else if f.kind = .unsigned ∧ isDigit b = false then ⟨.failed .malformed, r⟩
  else ⟨.value f (b :: token), r⟩

/-- What one byte does. -/
def take (s : Reading) (b : UInt8) : Reading :=
  match s.phase with
  | .blank => if isBlank b then s else ⟨takeName [] b, s.record⟩
  | .name token => ⟨takeName token b, s.record⟩
  | .colon f => if b = colon then ⟨.gap f, s.record⟩ else ⟨.failed .malformed, s.record⟩
  | .gap f => if isBlank b then s else takeValue s.record f [] b
  | .value f token => takeValue s.record f token b
  | .failed _ => s

theorem take_blank (r : Record) (b : UInt8) :
    (⟨.blank, r⟩ : Reading).take b =
      if isBlank b then ⟨.blank, r⟩ else ⟨takeName [] b, r⟩ := rfl

theorem take_name (token : Bytes) (r : Record) (b : UInt8) :
    (⟨.name token, r⟩ : Reading).take b = ⟨takeName token b, r⟩ := rfl

theorem take_gap (f : Field) (r : Record) (b : UInt8) :
    (⟨.gap f, r⟩ : Reading).take b = if isBlank b then ⟨.gap f, r⟩ else takeValue r f [] b := rfl

theorem take_value (f : Field) (token : Bytes) (r : Record) (b : UInt8) :
    (⟨.value f token, r⟩ : Reading).take b = takeValue r f token b := rfl

/-- What a byte string does. -/
def takeAll (s : Reading) (bs : Bytes) : Reading := bs.foldl take s

/-- What the phase after the last byte says about the lines. -/
def outcome (s : Reading) : Scanned := (⟨s.phase, [], s.record⟩ : Machine).outcome

@[simp] theorem takeAll_nil (s : Reading) : s.takeAll [] = s := rfl

@[simp] theorem takeAll_cons (s : Reading) (b : UInt8) (bs : Bytes) :
    s.takeAll (b :: bs) = (s.take b).takeAll bs := rfl

/-- A byte string can be cut anywhere. -/
theorem takeAll_append (s : Reading) (as bs : Bytes) :
    s.takeAll (as ++ bs) = (s.takeAll as).takeAll bs :=
  List.foldl_append

/-- A fault is final. -/
@[simp] theorem takeAll_failed (fault : LineFault) (r : Record) (bs : Bytes) :
    (⟨.failed fault, r⟩ : Reading).takeAll bs = ⟨.failed fault, r⟩ := by
  induction bs with
  | nil => rfl
  | cons b bs ih => exact ih

end Reading

/-! ### The machine and its bytes -/

namespace Machine

/-- How a state ends: what its final state says. -/
def ending (p : Phase) (bs : Bytes) (r : Record) : Scanned := (⟨p, bs, r⟩ : Machine).run.outcome

theorem ending_nil (p : Phase) (r : Record) : ending p [] r = Reading.outcome ⟨p, r⟩ := by
  rw [ending, run_of_step_none rfl]
  rfl

theorem ending_failed (fault : LineFault) (bs : Bytes) (r : Record) :
    ending (.failed fault) bs r = ⟨r, some fault⟩ := by
  have hstep : (⟨.failed fault, bs, r⟩ : Machine).step = none := by cases bs <;> rfl
  rw [ending, run_of_step_none hstep]
  rfl

/-- A step that is not the last may be left out. -/
theorem ending_of_step {p p' : Phase} {bs bs' : Bytes} {r r' : Record}
    (h : (⟨p, bs, r⟩ : Machine).step = some ⟨p', bs', r'⟩) : ending p bs r = ending p' bs' r' := by
  rw [ending, run_of_step_some h, ending]

theorem ending_colon (f : Field) (b : UInt8) (bs : Bytes) (r : Record) :
    ending (.colon f) (b :: bs) r =
      if b = colon then ending (.gap f) bs r else ⟨r, some .malformed⟩ := by
  by_cases hb : b = colon
  · rw [if_pos hb]
    exact ending_of_step (by simp [step, stepColon, hb])
  · rw [if_neg hb, ← ending_failed .malformed (b :: bs)]
    exact ending_of_step (by simp [step, stepColon, hb, fail])

theorem ending_name (token : Bytes) (b : UInt8) (bs : Bytes) (r : Record) :
    ending (.name token) (b :: bs) r = ending (Reading.takeName token b) bs r := by
  unfold Reading.takeName
  by_cases hb : b = colon
  · subst hb
    rw [if_pos rfl]
    by_cases ht : token = []
    · rw [if_pos ht, ending_failed, ← ending_failed _ (colon :: bs)]
      exact ending_of_step (by simp [step, stepName, ht, fail])
    · rw [if_neg ht]
      cases hl : Field.lookup token.reverse with
      | some f =>
        -- the colon is met in the name and taken behind it
        have hstep : (⟨.name token, colon :: bs, r⟩ : Machine).step =
            some ⟨.colon f, colon :: bs, r⟩ := by
          simp only [step, stepName, if_pos, if_neg ht, hl]
        rw [ending_of_step hstep, ending_colon, if_pos rfl]
      | none =>
        rw [ending_failed, ← ending_failed _ (colon :: bs)]
        exact ending_of_step (by simp only [step, stepName, if_pos, if_neg ht, hl, fail])
  · rw [if_neg hb]
    by_cases hg : isGraphic b = true
    · rw [if_pos hg]
      exact ending_of_step (by simp only [step, stepName, if_neg hb, if_pos hg])
    · rw [if_neg hg, ending_failed, ← ending_failed _ (b :: bs)]
      exact ending_of_step (by simp only [step, stepName, if_neg hb, if_neg hg, fail])

theorem ending_value (f : Field) (token : Bytes) (b : UInt8) (bs : Bytes) (r : Record) :
    ending (.value f token) (b :: bs) r =
      ending (Reading.takeValue r f token b).phase bs (Reading.takeValue r f token b).record := by
  unfold Reading.takeValue
  by_cases hb : b = newline
  · subst hb
    rw [if_pos rfl]
    cases ha : r.apply f token.reverse with
    | ok r' =>
      -- the newline ends the value and is taken as a blank before the next name
      have hstep : (⟨.value f token, newline :: bs, r⟩ : Machine).step =
          some ⟨.blank, newline :: bs, r'⟩ := by
        simp only [step, stepValue, if_pos, ha]
      rw [ending_of_step hstep]
      exact ending_of_step (by simp [step, stepBlank])
    | error fault =>
      rw [ending_failed, ← ending_failed _ (newline :: bs)]
      exact ending_of_step (by simp only [step, stepValue, if_pos, ha, fail])
  · rw [if_neg hb]
    by_cases hd : f.kind = .unsigned ∧ isDigit b = false
    · rw [if_pos hd, ending_failed, ← ending_failed _ (b :: bs)]
      exact ending_of_step (by simp only [step, stepValue, if_neg hb, if_pos hd, fail])
    · rw [if_neg hd]
      exact ending_of_step (by simp only [step, stepValue, if_neg hb, if_neg hd])

/-- What one byte does to a run. -/
theorem ending_cons (p : Phase) (b : UInt8) (bs : Bytes) (r : Record) :
    ending p (b :: bs) r =
      ending ((⟨p, r⟩ : Reading).take b).phase bs ((⟨p, r⟩ : Reading).take b).record := by
  cases p with
  | blank =>
    by_cases hb : isBlank b = true
    · simp only [Reading.take, if_pos hb]
      exact ending_of_step (by simp only [step, stepBlank, if_pos hb])
    · simp only [Reading.take, if_neg hb]
      have hstep : (⟨.blank, b :: bs, r⟩ : Machine).step = some ⟨.name [], b :: bs, r⟩ := by
        simp only [step, stepBlank, if_neg hb]
      rw [ending_of_step hstep, ending_name]
  | name token => exact ending_name token b bs r
  | colon f =>
    rw [ending_colon]
    by_cases hb : b = colon
    · simp only [Reading.take, if_pos hb]
    · simp only [Reading.take, if_neg hb, ending_failed]
  | gap f =>
    by_cases hb : isBlank b = true
    · simp only [Reading.take, if_pos hb]
      exact ending_of_step (by simp only [step, stepGap, if_pos hb])
    · simp only [Reading.take, if_neg hb]
      have hstep : (⟨.gap f, b :: bs, r⟩ : Machine).step = some ⟨.value f [], b :: bs, r⟩ := by
        simp only [step, stepGap, if_neg hb]
      rw [ending_of_step hstep, ending_value]
  | value f token => exact ending_value f token b bs r
  | failed fault => simp only [Reading.take, ending_failed]

/-- A run of the machine ends as the fold over its bytes does. -/
theorem outcome_run (m : Machine) :
    m.run.outcome = ((⟨m.phase, m.record⟩ : Reading).takeAll m.rest).outcome := by
  obtain ⟨p, bs, r⟩ := m
  show ending p bs r = _
  induction bs generalizing p r with
  | nil => exact ending_nil p r
  | cons b bs ih => rw [ending_cons, ih, Reading.takeAll_cons]

end Machine

/-- Scanning lines is folding over their bytes. -/
theorem Record.scan_eq (r : Record) (lines : Bytes) :
    r.scan lines = ((⟨.blank, r⟩ : Reading).takeAll lines).outcome :=
  Machine.outcome_run (Machine.start r lines)

end SigningKeys
