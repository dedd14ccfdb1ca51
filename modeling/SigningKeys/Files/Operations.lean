import SigningKeys.Files.Path
import SigningKeys.Files.Tree

/-!
# Reading and writing files

Every operation on a file begins with a walk along the steps of a path.  A step is taken in a
directory that the caller may search, and leads to the place of a name whether or not anything is
there; the next step, or what is done at the end, finds out.

Directories that are missing on the way to a new file are made first.  A file that is there is
written over and keeps its rights; a new one belongs to the caller.

Whatever else can keep a file from being read or written, such as a full disk or one that is not to
be changed, is left out, and nobody else changes the tree meanwhile.

## Main definitions

* `Files.Caller.walk`, `Files.Caller.resolve`: the place that some steps or a path lead to.
* `Files.Caller.makeDirectory`: the tree with the directory that a path needs.
* `Files.Caller.read`: the file at a path.
* `Files.Caller.save`: the tree with other content at a path.
-/

namespace SigningKeys

namespace Files

/-- The longest name that a directory can hold, in bytes. -/
def nameLimit : Nat := 255

/-- Whether no directory can hold a name. -/
def isTooLong (name : String) : Bool := nameLimit < name.utf8ByteSize

namespace Caller

/-! ### Walking -/

/-- The place that a step leads to.  The root holds itself. -/
def next (c : Caller) (t : Tree) (place : List String) (step : Step) :
    Except IoFault (List String) :=
  match t.look place with
  | none => .error .notFound
  | some (.file _) => .error .notADirectory
  | some (.directory rights) =>
    if ! c.may .search rights then .error .permissionDenied
    else
      match step with
      | .stay => .ok place
      | .leave => .ok place.dropLast
      | .enter name => if isTooLong name then .error .tooLong else .ok (place ++ [name])

/-- The place that some steps lead to, one after the other. -/
def walk (c : Caller) (t : Tree) (place : List String) (steps : List Step) :
    Except IoFault (List String) :=
  steps.foldlM (c.next t) place

/-- The place where a path begins. -/
def start (c : Caller) (p : Path) : List String := if p.isAbsolute then [] else c.workingDirectory

/-- The place that a path leads to. -/
def resolve (c : Caller) (t : Tree) (p : Path) : Except IoFault (List String) :=
  match p.fault with
  | some fault => .error fault
  | none => c.walk t (c.start p) p.steps

/-! ### Reading -/

/-- The file at a path.  A path that asks for a directory does not lead to a file. -/
def read (c : Caller) (t : Tree) (p : Path) : Except IoFault File := do
  let place ← c.resolve t p
  match t.look place with
  | none => .error .notFound
  | some (.directory rights) =>
    .error (if c.may .read rights then .isADirectory else .permissionDenied)
  | some (.file f) =>
    if p.closing ≠ .name then .error .notADirectory
    else if c.may .read f.rights then .ok f
    else .error .permissionDenied

/-! ### Making -/

/-- The tree with something new at a place where nothing is. -/
def make (c : Caller) (t : Tree) (place : List String) (new : Tree) : Except IoFault Tree :=
  match t.look place.dropLast with
  | none => .error .notFound
  | some (.file _) => .error .notADirectory
  | some (.directory rights) =>
    if c.may .write rights then .ok (t.insert place new) else .error .permissionDenied

/-- The permission bits with which a directory is made. -/
def directoryMode : Mode := 0o777

/-- The tree with a directory at a place, unless something is there. -/
def makeMissing (c : Caller) (t : Tree) (place : List String) : Except IoFault Tree :=
  if (t.look place).isSome then .ok t else c.make t place (.empty (c.newRights directoryMode))

/-- The tree with a directory where some steps lead, and with all directories on the way.  A tree
comes back in any case, since directories that have been made stay when one further down cannot be.
`made` says whether one was missing so far: behind it, a file on the way is met as something that is
to be made itself, and not as something to walk through. -/
def makeDirectories (c : Caller) (t : Tree) (made : Bool) (place : List String) :
    List Step → Tree × Except IoFault Unit
  | [] =>
    match t.look place with
    | none => (t, .error .notFound)
    | some (.file _) => (t, .error .alreadyExists)
    | some (.directory _) => (t, .ok ())
  | step :: steps =>
    match c.next t place step with
    | .error fault =>
      (t, .error (if made ∧ fault = .notADirectory then .alreadyExists else fault))
    | .ok place' =>
      match c.makeMissing t place' with
      | .error fault => (t, .error fault)
      | .ok t' => c.makeDirectories t' (made || (t.look place').isNone) place' steps

/-- The tree with the directory of a path, and with all directories on the way to it.  A path with
a single name needs none. -/
def makeDirectory (c : Caller) (t : Tree) (p : Path) : Tree × Except IoFault Unit :=
  if p.directory.text = "" then (t, .ok ())
  else
    match p.directory.fault with
    | some fault => (t, .error fault)
    | none => c.makeDirectories t false (c.start p.directory) p.directory.steps

/-! ### Writing -/

/-- The tree with other content in the file at a place.  A file that is there keeps its rights, a
new one gets the permission bits of `newMode`. -/
def writeAt (c : Caller) (t : Tree) (place : List String) (content : Bytes) (newMode : Mode) :
    Except IoFault Tree :=
  match t.look place with
  | none => c.make t place (.file ⟨content, c.newRights newMode⟩)
  | some (.directory _) => .error .isADirectory
  | some (.file f) =>
    if c.may .write f.rights then .ok (t.insert place (.file ⟨content, f.rights⟩))
    else .error .permissionDenied

/-- The tree with other content at a path whose directory is there.  A file is not made at a path
that asks for a directory, even if nothing is there. -/
def write (c : Caller) (t : Tree) (p : Path) (content : Bytes) (newMode : Mode) :
    Except IoFault Tree :=
  match p.closing with
  | .name => do c.writeAt t (← c.resolve t p) content newMode
  | .slash =>
    -- the directory that would hold the name is searched, but not for the name
    match p.fault with
    | some fault => .error fault
    | none => do
      let _ ← c.walk t (c.start p) (p.steps.dropLast ++ [.stay])
      .error .isADirectory
  | .dots => do
    let _ ← c.resolve t p
    .error .isADirectory

/-- The tree with other content at a path, after the directory of the path has been made. -/
def save (c : Caller) (t : Tree) (p : Path) (content : Bytes) (newMode : Mode) :
    Tree × Except IoFault Unit :=
  match c.makeDirectory t p with
  | (made, .error fault) => (made, .error fault)
  | (made, .ok ()) =>
    match c.write made p content newMode with
    | .error fault => (made, .error fault)
    | .ok written => (written, .ok ())

end Caller

end Files

end SigningKeys
