import SigningKeys.Container.Stream
import SigningKeys.Container.Line
import SigningKeys.Outcome

/-!
# Reading private key containers

The first line of a container is fixed.  Every other line is read into the record, after its end
has been replaced by a plain newline, so it does not matter how lines end and whether the last one
does.

## Main definitions

* `Record.readLines`: the record after all lines of a stream.
* `Record.parse`: the record of a container.
-/

namespace SigningKeys

namespace Record

/-- The record after all lines of a stream have been read into it. -/
def readLines (r : Record) (s : Stream) : Except KeyError Record :=
  match _h : s.line with
  | .error e => .error e
  | .ok ([], _) => .ok r
  | .ok (b :: line, rest) =>
    let scanned := r.scan (lineBody (b :: line) ++ [Byte.newline])
    match scanned.fault with
    | some fault => .error (.format (.line fault))
    | none => readLines scanned.record rest
termination_by s.bytes.length
decreasing_by exact Stream.line_shorter _h

/-- The record of a container, whose first line is fixed. -/
def parse (s : Stream) : Outcome Record :=
  match s.line with
  | .error e => .error e
  | .ok ([], _) => .error (.format .emptyContainer)
  | .ok (b :: line, rest) =>
    if lineBody (b :: line) = Utf8.encode Layout.privateMagic then
      .ofExcept (empty.readLines rest)
    else do
      .log (.rejected "private key" "magic line mismatch")
      .error (.format .wrongMagic)

end Record

end SigningKeys
