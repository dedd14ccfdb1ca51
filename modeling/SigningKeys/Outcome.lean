import SigningKeys.Audit

/-!
# Outcomes

An operation on a key gives a result or an error, and leaves traces: the events that it adds to the
audit trail, and the requests that it makes to a password source.

## Main definitions

* `PasswordRequest`: what a password source is handed.
* `Outcome`: a result together with the traces of its computation.
* `Outcome.bind`: one operation after another; an error ends the sequence and keeps the traces.
-/

namespace SigningKeys

/-- What a password source is handed. -/
structure PasswordRequest where
  /-- The buffer, canary included. -/
  buffer : Bytes
  /-- How many bytes of it the source may fill. -/
  capacity : Nat
  deriving DecidableEq, Repr

/-- A result together with the traces of its computation. -/
structure Outcome (α : Type) where
  /-- The result, or why there is none. -/
  result : Except KeyError α
  /-- The events, in order. -/
  events : List Event
  /-- The requests made to a password source, in order. -/
  requests : List PasswordRequest

namespace Outcome

variable {α β : Type}

/-- A result without traces. -/
def ofExcept (result : Except KeyError α) : Outcome α := ⟨result, [], []⟩

/-- A value without traces. -/
def ok (a : α) : Outcome α := ofExcept (.ok a)

/-- An error without traces. -/
def error (e : KeyError) : Outcome α := ofExcept (.error e)

/-- An event and no result to speak of. -/
def log (event : Event) : Outcome Unit := ⟨.ok (), [event], []⟩

/-- A request and no result to speak of. -/
def request (request : PasswordRequest) : Outcome Unit := ⟨.ok (), [], [request]⟩

/-- One operation after another. -/
def bind (x : Outcome α) (f : α → Outcome β) : Outcome β :=
  match x.result with
  | .ok a => ⟨(f a).result, x.events ++ (f a).events, x.requests ++ (f a).requests⟩
  | .error e => ⟨.error e, x.events, x.requests⟩

/-- An operation after which its result is reported. -/
def reporting (x : Outcome α) (report : Except KeyError α → Event) : Outcome α :=
  { x with events := x.events ++ [report x.result] }

instance : Monad Outcome where
  pure := ok
  bind := bind

@[simp] theorem pure_eq_ok (a : α) : (pure a : Outcome α) = ok a := rfl

@[simp] theorem bind_eq (x : Outcome α) (f : α → Outcome β) : x >>= f = x.bind f := rfl

@[simp] theorem ok_bind (a : α) (f : α → Outcome β) : (ok a).bind f = f a := by
  simp only [bind, ok, ofExcept, List.nil_append]

@[simp] theorem error_bind (e : KeyError) (f : α → Outcome β) :
    (error e : Outcome α).bind f = error e := rfl

end Outcome

end SigningKeys
