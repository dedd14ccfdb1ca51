/-!
# Who may do what

Every file and every directory belongs to a user and a group, and its nine permission bits say what
its owner, its group and all others may do with it.  The superuser may do everything.

The bits that change on whose behalf a program runs, or who may take a file out of a directory, are
left out, and so are access control lists, which can grant or withhold more than the nine bits.

## Main definitions

* `Files.Rights`: the owner, the group and the permission bits.
* `Files.Caller`: on whose behalf files are read and written, and where relative paths begin.
* `Files.Caller.may`: whether a caller may do something.
* `Files.Caller.newRights`: the rights of what a caller makes.
-/

namespace SigningKeys

namespace Files

/-- The permission bits: to read, to write and to search, for the owner, for the group and for
others, from the highest bit to the lowest. -/
abbrev Mode := BitVec 9

/-- Whom a file or a directory belongs to, and who may do what with it. -/
structure Rights where
  /-- The owner. -/
  user : Nat
  /-- The group. -/
  group : Nat
  /-- The permission bits. -/
  mode : Mode
  deriving DecidableEq, Repr

/-- What can be done with a file or a directory. -/
inductive Access where
  /-- To see what it holds. -/
  | read
  /-- To change what it holds. -/
  | write
  /-- To look for a name in a directory. -/
  | search
  deriving DecidableEq, Repr

/-- The permission bit for an access, among the three of a class of users. -/
def Access.bit : Access → Nat
  | read => 2
  | write => 1
  | search => 0

/-- On whose behalf files are read and written. -/
structure Caller where
  /-- The user. -/
  user : Nat
  /-- The group, which new files get. -/
  group : Nat
  /-- The other groups of the user. -/
  groups : List Nat
  /-- The permission bits that are withheld from whatever is made. -/
  umask : Mode
  /-- The place where relative paths begin, as the names on the way to it. -/
  workingDirectory : List String
  deriving DecidableEq, Repr

namespace Caller

/-- The lowest of the three permission bits for a caller, which are those of the owner, of the group
or of others. -/
def lowestBit (c : Caller) (rights : Rights) : Nat :=
  if c.user = rights.user then 6
  else if rights.group ∈ c.group :: c.groups then 3
  else 0

/-- Whether a caller may do something.  The superuser, who has number 0, may do everything. -/
def may (c : Caller) (access : Access) (rights : Rights) : Bool :=
  c.user == 0 || rights.mode.getLsbD (c.lowestBit rights + access.bit)

/-- The rights of something that is made with some permission bits. -/
def newRights (c : Caller) (mode : Mode) : Rights := ⟨c.user, c.group, mode &&& ~~~c.umask⟩

end Caller

end Files

end SigningKeys
