import SigningKeys.Entropy
import SigningKeys.Outcome
import SigningKeys.Settings

/-!
# Asking for a password

A password source is handed a buffer and told how much of it it may fill.  Behind that part stands
a canary of random bytes.  A password is accepted only if the canary is as it was and the reported
length lies in the part that the source may fill, so a source that writes too far or claims too
much is caught before anything is derived from its bytes.

## Main definitions

* `PasswordSource`: anything that fills a buffer and reports a length.
* `PasswordSource.fixed`: the source of a known password.
* `askPassword`: the password that a source gives, if it keeps to the rules.
-/

namespace SigningKeys

/-- Anything that fills a buffer, up to a length that it is told, and reports how many bytes it has
filled, or that it declines. -/
structure PasswordSource where
  /-- The buffer after it has been filled, and the reported length. -/
  answer : {n : Nat} → Vector UInt8 n → Nat → Vector UInt8 n × Option Nat

namespace PasswordSource

/-- The source of a known password.  It declines if the password is empty or does not fit. -/
def fixed (password : Bytes) : PasswordSource where
  answer buffer capacity :=
    if password = [] ∨ capacity < password.length then (buffer, none)
    else
      let bytes := password.toArray
      (buffer.mapFinIdx fun i b _ => bytes.getD i b, some password.length)

/-- How a source of a known password is described. -/
def fixedDescription : String := "StaticPassword(***)"

end PasswordSource

/-! ### The guarded buffer -/

/-- The buffer that a source is handed: zeros and the canary. -/
def guardedBuffer (capacity : Nat) (canary : Bytes) : Vector UInt8 (capacity + canary.length) :=
  Vector.replicate capacity (0 : UInt8) ++ Vector.mk canary.toArray List.size_toArray

/-- What a source's answer is worth: the password, or why it is refused and the event that this
leaves, if any. -/
def acceptPassword (capacity : Nat) (canary buffer : Bytes) (reported : Option Nat) :
    Outcome Bytes :=
  if buffer.drop capacity ≠ canary then do
    .log .canaryChanged
    .error (.authentication .bufferOverflow)
  else
    match reported with
    | none => .error (.authentication .notProvided)
    | some n =>
      if capacity < n then do
        .log (.lengthOverrun n capacity)
        .error (.authentication .bufferOverflow)
      else if n = 0 then .error (.authentication .notProvided)
      else .ok (buffer.take n)

/-- The password that a source gives, if it keeps to the rules. -/
def askPassword (source : PasswordSource) (settings : LoadSettings) (entropy : Entropy) :
    Outcome Bytes :=
  if settings.capacity = 0 then .error (.authentication .bufferTooSmall)
  else do
    let canary := entropy.first Layout.canaryLength
    let buffer := guardedBuffer settings.capacity canary
    .request ⟨buffer.toList, settings.capacity⟩
    let (after, reported) := source.answer buffer settings.capacity
    acceptPassword settings.capacity canary after.toList reported

end SigningKeys
