import SigningKeys.KeyError

/-!
# Paths

A path is written as segments with slashes between them.  A segment is a step: a name leads into a
directory, two dots lead out of it again, and a single dot stays there, so it makes no difference on
the way; an empty segment is no step at all.  The end of a path does make a difference: dots, or a
slash behind a name, ask for a directory.

The steps are taken one after the other.  Two dots do not take back the name in front of them
unseen: that name must lead into a directory first.

Paths are texts; names that are byte strings and no texts are left out.

## Main definitions

* `Files.Path`: a path as it is written.
* `Files.Path.fault`: why a path as a whole leads nowhere.
* `Files.Step`, `Files.Path.steps`: the steps of a path.
* `Files.Path.directory`: the path of the directory that holds what is at a path.
* `Files.Path.closing`: what the end of the path asks for.
-/

namespace SigningKeys

namespace Files

/-- A path as it is written. -/
structure Path where
  /-- The text of the path. -/
  text : String
  deriving DecidableEq, Repr

/-- A step of a path. -/
inductive Step where
  /-- To what has a name in the directory. -/
  | enter (name : String)
  /-- To the directory itself. -/
  | stay
  /-- To the directory that holds the directory. -/
  | leave
  deriving DecidableEq, Repr

/-- What the end of a path asks for. -/
inductive Closing where
  /-- It ends in a name, and asks for whatever has it. -/
  | name
  /-- It ends in a name and a slash, and asks for a directory with that name. -/
  | slash
  /-- It ends in one or two dots, with or without a slash, or is nothing but slashes, and asks for
  the directory it has come to. -/
  | dots
  deriving DecidableEq, Repr

/-- The longest path, in bytes. -/
def pathLimit : Nat := 4095

/-- Whether a text holds the null character, which no path can hold. -/
def holdsNull (s : String) : Bool := s.toList.contains '\x00'

/-- A text cut at its slashes. -/
def cutAtSlashes : List Char → List (List Char)
  | [] => [[]]
  | c :: cs =>
    match cutAtSlashes cs with
    | [] => [[c]]
    | s :: rest => if c = '/' then [] :: s :: rest else (c :: s) :: rest

@[simp] theorem cutAtSlashes_nil : cutAtSlashes [] = [[]] := rfl

/-- The step that a segment stands for. -/
def Step.ofSegment (segment : String) : Option Step :=
  if segment = "" then none
  else if segment = "." then some .stay
  else if segment = ".." then some .leave
  else some (.enter segment)

namespace Path

/-- Why a path as a whole leads nowhere, whatever there is. -/
def fault (p : Path) : Option IoFault :=
  if holdsNull p.text then some .invalidPath
  else if p.text = "" then some .notFound
  else if pathLimit < p.text.utf8ByteSize then some .tooLong
  else none

/-- The segments of a path. -/
def segments (p : Path) : List String := (cutAtSlashes p.text.toList).map String.ofList

/-- The steps of a path. -/
def steps (p : Path) : List Step := p.segments.filterMap Step.ofSegment

/-- Whether a path begins at the root, and not where the caller works. -/
def isAbsolute (p : Path) : Bool := p.text.toList.head? == some '/'

/-- Whether a segment behind the first slash counts when the last segment is taken away. -/
def counts (segment : String) : Bool := segment ≠ "" ∧ segment ≠ "."

/-- The path of the directory that holds what is at a path, which is the text in front of the last
segment that counts.  A single dot counts if it begins the path.  There is no text if there is
nothing in front, and the root has none either. -/
def directory (p : Path) : Path :=
  match p.segments with
  | [] => ⟨""⟩
  | first :: rest =>
    let upToLast := rest.reverse.dropWhile (! counts ·)
    let before := ((upToLast.drop 1).dropWhile (! counts ·)).reverse
    if upToLast = [] then ⟨""⟩
    else if first = "" ∧ before = [] then ⟨"/"⟩
    else ⟨"/".intercalate (first :: before)⟩

/-- What the end of a path asks for. -/
def closing (p : Path) : Closing :=
  match (p.segments.filter (· ≠ "")).getLast? with
  | none => .dots
  | some last =>
    if last = "." ∨ last = ".." then .dots
    else if p.segments.getLast? = some "" then .slash
    else .name

end Path

end Files

end SigningKeys
