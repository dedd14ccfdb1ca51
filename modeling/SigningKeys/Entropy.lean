import SigningKeys.Bytes

/-!
# Random bytes

An operation that needs random bytes takes them from an endless sequence that its caller provides,
from the first on.

## Main definitions

* `Entropy`: an endless sequence of bytes.
* `Entropy.first`: so many bytes from its beginning.
-/

namespace SigningKeys

/-- An endless sequence of bytes. -/
structure Entropy where
  /-- The byte with a number. -/
  byte : Nat → UInt8

namespace Entropy

/-- So many bytes from the beginning. -/
def first (e : Entropy) (n : Nat) : Bytes := (List.range n).map e.byte

@[simp] theorem length_first (e : Entropy) (n : Nat) : (e.first n).length = n := by
  simp [first]

end Entropy

end SigningKeys
