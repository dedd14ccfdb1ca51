import SigningKeys.Bytes
import SigningKeys.Files.Rights

/-!
# File trees

A tree is a file or a directory, and a directory holds at most one tree under each name.  A place in
a tree is told by the names on the way to it from the root.

There are no links: every file and every directory is at one place only, and no name stands for a
path.  Nor is there anything but files and directories.

## Main definitions

* `Files.File`, `Files.Tree`: files and directories.
* `Files.Tree.look`: what is at a place.
* `Files.Tree.insert`: the tree with something else at a place.
-/

namespace SigningKeys

namespace Files

/-- A file. -/
structure File where
  /-- What it holds. -/
  content : Bytes
  /-- Whom it belongs to, and who may do what with it. -/
  rights : Rights
  deriving DecidableEq, Repr

/-- What is at a place, without what is further down. -/
inductive Node where
  /-- A file. -/
  | file (file : File)
  /-- A directory. -/
  | directory (rights : Rights)
  deriving DecidableEq, Repr

/-- A file or a directory. -/
inductive Tree where
  /-- A file. -/
  | file (file : File)
  /-- A directory, by what it holds under each name. -/
  | directory (rights : Rights) (child : String → Option Tree)

namespace Tree

/-- The directory that holds nothing. -/
def empty (rights : Rights) : Tree := directory rights fun _ => none

/-- What a tree is, without what is further down. -/
def node : Tree → Node
  | file f => .file f
  | directory rights _ => .directory rights

/-- What is at a place. -/
def look : Tree → List String → Option Node
  | t, [] => some t.node
  | file _, _ :: _ => none
  | directory _ child, name :: names => (child name).bind fun t => t.look names

/-- The tree with something else at a place, which must be in a directory that is there. -/
def insert (t : Tree) (place : List String) (new : Tree) : Tree :=
  match t, place with
  | _, [] => new
  | file f, _ :: _ => file f
  | directory rights child, name :: names =>
    directory rights fun n =>
      if n ≠ name then child n
      else if names = [] then some new
      else (child name).map fun t => t.insert names new

@[simp] theorem look_nil (t : Tree) : t.look [] = some t.node := by
  cases t <;> rfl

@[simp] theorem look_file_cons (f : File) (name : String) (names : List String) :
    (file f).look (name :: names) = none := rfl

@[simp] theorem look_directory_cons (rights : Rights) (child : String → Option Tree)
    (name : String) (names : List String) :
    (directory rights child).look (name :: names) = (child name).bind (·.look names) := rfl

end Tree

end Files

end SigningKeys
