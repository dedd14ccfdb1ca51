import SigningKeys.KeyError

/-!
# Sinks of bytes

A container is written to a sink piece by piece.  A sink may have room for so many bytes only; a
piece that does not fit is written as far as there is room, and the sink then takes nothing more.

## Main definitions

* `Sink`: what has been written and how much room is left.
* `Sink.write`, `Sink.writeAll`: one piece, and several up to the first that does not fit.
-/

namespace SigningKeys

/-- A sink of bytes. -/
structure Sink where
  /-- What has been written. -/
  written : Bytes
  /-- How many bytes still fit; there is no limit if this is absent. -/
  room : Option Nat
  deriving DecidableEq, Repr

namespace Sink

/-- A sink with room for so many bytes. -/
def withRoom (room : Option Nat) : Sink := ⟨[], room⟩

/-- A sink without limit. -/
def unlimited : Sink := withRoom none

/-- Whether a piece fits. -/
def fits (s : Sink) (piece : Bytes) : Bool :=
  match s.room with
  | none => true
  | some n => piece.length ≤ n

/-- The sink after as much of a piece as fits has been written. -/
def take (s : Sink) (piece : Bytes) : Sink :=
  match s.room with
  | none => ⟨s.written ++ piece, none⟩
  | some n => ⟨s.written ++ piece.take n, some (n - piece.length)⟩

/-- Writes one piece. -/
def write (s : Sink) (piece : Bytes) : Sink × Except IoFault Unit :=
  if s.fits piece then (s.take piece, .ok ()) else (s.take piece, .error .writeZero)

/-- Writes several pieces, up to the first that does not fit. -/
def writeAll (s : Sink) : List Bytes → Sink × Except IoFault Unit
  | [] => (s, .ok ())
  | piece :: pieces =>
    match s.write piece with
    | (s', .ok ()) => writeAll s' pieces
    | (s', .error fault) => (s', .error fault)

@[simp] theorem writeAll_nil (s : Sink) : s.writeAll [] = (s, .ok ()) := rfl

end Sink

end SigningKeys
