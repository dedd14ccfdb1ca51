import SigningKeys.KeyError

/-!
# Streams of bytes

A container is read from a stream, line by line.  A stream delivers some bytes; after them it has
come to its end, or it fails.  A reader never looks further than the longest line it accepts, so a
line that is too long is refused before the stream can fail behind it.

The bytes come read by read, and how many come at once makes no difference.  A read that is
interrupted is made again, so an interruption makes no difference either; a stream that is
interrupted for ever is never read to its end, and there is none here.

## Main definitions

* `Stream`: bytes and what comes after them.
* `Stream.ofReads`: the stream of some reads.
* `splitLine`: the first line of a byte string, as far as a limit.
* `Stream.line`: the next line of a stream and the rest of the stream.

## Main results

* `splitLine_append`: nothing is lost between a line and the rest.
* `Stream.line_shorter`: a line that is not empty leaves less to read.
-/

namespace SigningKeys

/-- What comes after the bytes of a stream. -/
inductive Ending where
  /-- The stream has come to its end. -/
  | closed
  /-- The stream fails. -/
  | failing (fault : IoFault)
  deriving DecidableEq, Repr

/-- A stream of bytes. -/
structure Stream where
  /-- The bytes that it delivers. -/
  bytes : Bytes
  /-- What comes after them. -/
  ending : Ending
  deriving DecidableEq, Repr

/-- The stream that delivers some bytes and ends. -/
def Stream.ofBytes (bs : Bytes) : Stream := ⟨bs, .closed⟩

/-! ### Reads -/

/-- How a single read can fail. -/
inductive ReadFault where
  /-- The read was interrupted, and is made again. -/
  | interrupted
  /-- The stream fails. -/
  | final (fault : IoFault)
  deriving DecidableEq, Repr

/-- The stream that answers to some reads, one after the other.  A read that delivers nothing has
come to the end, and so has the one behind the last. -/
def Stream.ofReads : List (Except ReadFault Bytes) → Stream
  | [] => ofBytes []
  | .ok [] :: _ => ofBytes []
  | .ok (b :: chunk) :: reads =>
    let rest := ofReads reads
    ⟨b :: chunk ++ rest.bytes, rest.ending⟩
  | .error .interrupted :: reads => ofReads reads
  | .error (.final fault) :: _ => ⟨[], .failing fault⟩

/-- The reads that deliver some bytes: one, or none if there are no bytes. -/
def readsOf (bs : Bytes) : List (Except ReadFault Bytes) := if bs = [] then [] else [.ok bs]

/-- The stream in which a read fails when the byte with number `n` is needed, or the end if `n` is
the number of bytes, and fails again if it is made again, so many times; a stream that ends before
never comes to that. -/
def Stream.failingAt (bs : Bytes) (n : Nat) (fault : ReadFault) (again : Nat) : Stream :=
  ofReads (if n ≤ bs.length then
      readsOf (bs.take n) ++ (List.replicate (again + 1) (.error fault) ++ readsOf (bs.drop n))
    else readsOf bs)

theorem Stream.ofReads_readsOf_append (bs : Bytes) (reads : List (Except ReadFault Bytes)) :
    ofReads (readsOf bs ++ reads) = ⟨bs ++ (ofReads reads).bytes, (ofReads reads).ending⟩ := by
  cases bs <;> rfl

theorem Stream.ofReads_readsOf (bs : Bytes) : ofReads (readsOf bs) = ofBytes bs := by
  have h := ofReads_readsOf_append bs []
  rw [List.append_nil] at h
  rw [h]
  exact congrArg (Stream.mk · .closed) (List.append_nil bs)

/-- Interruptions leave no trace. -/
theorem Stream.ofReads_interrupted (n : Nat) (reads : List (Except ReadFault Bytes)) :
    ofReads (List.replicate n (.error .interrupted) ++ reads) = ofReads reads := by
  induction n with
  | zero => rfl
  | succ n ih => exact ih

/-- A stream that fails delivers the bytes in front of its failure, and no more. -/
theorem Stream.failingAt_final {bs : Bytes} {n : Nat} (fault : IoFault) (again : Nat)
    (hn : n ≤ bs.length) : failingAt bs n (.final fault) again = ⟨bs.take n, .failing fault⟩ := by
  rw [failingAt, if_pos hn, ofReads_readsOf_append]
  exact congrArg (Stream.mk · _) (List.append_nil _)

/-- A stream that is interrupted delivers all its bytes. -/
theorem Stream.failingAt_interrupted (bs : Bytes) (n again : Nat) :
    failingAt bs n .interrupted again = ofBytes bs := by
  unfold failingAt
  split
  · rw [ofReads_readsOf_append, ofReads_interrupted, ofReads_readsOf]
    exact congrArg (Stream.mk · .closed) (List.take_append_drop n bs)
  · exact ofReads_readsOf bs

/-! ### Lines -/

/-- The bytes up to and with the first newline, but no more than `limit`, and the bytes after
them. -/
def splitLine : Nat → Bytes → Bytes × Bytes
  | 0, bs => ([], bs)
  | _ + 1, [] => ([], [])
  | n + 1, b :: bs =>
    if b = Byte.newline then ([b], bs)
    else (b :: (splitLine n bs).1, (splitLine n bs).2)

@[simp] theorem splitLine_zero (bs : Bytes) : splitLine 0 bs = ([], bs) := rfl

@[simp] theorem splitLine_nil (n : Nat) : splitLine n [] = ([], []) := by cases n <;> rfl

/-- Nothing is lost between a line and the rest. -/
theorem splitLine_append (n : Nat) (bs : Bytes) :
    (splitLine n bs).1 ++ (splitLine n bs).2 = bs := by
  induction bs generalizing n with
  | nil => simp
  | cons b bs ih =>
    cases n with
    | zero => simp
    | succ n =>
      rw [splitLine]
      split
      · simp
      · simp [ih n]

/-- A line keeps to the limit. -/
theorem length_splitLine_le (n : Nat) (bs : Bytes) : (splitLine n bs).1.length ≤ n := by
  induction bs generalizing n with
  | nil => simp
  | cons b bs ih =>
    cases n with
    | zero => simp
    | succ n =>
      rw [splitLine]
      split
      · simp
      · simpa using ih n

/-- Whether a line has its newline. -/
def isTerminated (line : Bytes) : Bool := line.getLast? == some Byte.newline

/-- A line without its newline and a carriage return before that. -/
def lineBody (line : Bytes) : Bytes :=
  Bytes.dropFinal Byte.carriageReturn (Bytes.dropFinal Byte.newline line)

/-- The next line of a stream and the rest of the stream.  The line is empty at the end of the
stream. -/
def Stream.line (s : Stream) : Except KeyError (Bytes × Stream) :=
  let (line, rest) := splitLine Layout.lineLimit s.bytes
  if isTerminated line then .ok (line, ⟨rest, s.ending⟩)
  else if line.length = Layout.lineLimit then .error (.format .overlongLine)
  else
    match s.ending with
    | .closed => .ok (line, ⟨rest, .closed⟩)
    | .failing fault => .error (.io fault)

theorem Stream.append_of_line {s s' : Stream} {line : Bytes} (h : s.line = .ok (line, s')) :
    line ++ s'.bytes = s.bytes := by
  rw [← splitLine_append Layout.lineLimit s.bytes]
  simp only [Stream.line] at h
  split at h
  · cases h
    rfl
  · split at h
    · cases h
    · split at h
      · cases h
        rfl
      · cases h

/-- A line that is not empty leaves less to read. -/
theorem Stream.line_shorter {s s' : Stream} {b : UInt8} {line : Bytes}
    (h : s.line = .ok (b :: line, s')) : s'.bytes.length < s.bytes.length := by
  have hlen := congrArg List.length (append_of_line h)
  simp only [List.length_append, List.length_cons] at hlen
  omega

end SigningKeys
