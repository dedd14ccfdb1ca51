import SigningKeys.Container.Text
import SigningKeys.Files.Operations
import SigningKeys.Public.Container
import SigningKeys.Record.Unlocking

/-!
# Key files

Containers are kept in files.  A private key file is made readable and writable by its owner alone;
one that is there already keeps its rights.  Nothing is touched before the text of the
container is complete, and a file that is too large to be a container is refused unread.

## Main definitions

* `Files.writeKey`: a record written to a file.
* `Files.loadKey`: the secret key of a file.
* `Files.loadPublic`: the public container of a file.
-/

namespace SigningKeys

namespace Files

/-- Read and write permission for the owner and nobody else. -/
def ownerOnly : Mode := 0o600

/-- The tree with the container of a record at a path. -/
def writeKey (c : Caller) (t : Tree) (r : Record) (p : Path) : Tree × Except KeyError Unit :=
  match r.encode with
  | .error e => (t, .error e)
  | .ok text =>
    let (t', result) := c.save t p text ownerOnly
    (t', result.mapError .io)

/-- The content of a private key file. -/
def readKeyFile (c : Caller) (t : Tree) (p : Path) : Except KeyError Bytes :=
  match c.read t p with
  | .error fault => .error (.io fault)
  | .ok f =>
    if f.content.length ≤ Layout.fileLimit then .ok f.content else .error (.format .oversizedFile)

/-- The secret key of the container in a file. -/
def loadKey (c : Caller) (t : Tree) (p : Path) (source : Option PasswordSource)
    (settings : LoadSettings) (entropy : Entropy) : Outcome SecretKey := do
  let content ← .ofExcept (readKeyFile c t p)
  .log (.containerRead (p.text))
  SecretKey.load (.ofBytes content) source settings entropy

/-- The public container in a file. -/
def loadPublic (c : Caller) (t : Tree) (p : Path) (format : Public.Format) :
    Except KeyError Public.Container :=
  match c.read t p with
  | .error fault => .error (.io fault)
  | .ok f =>
    (Public.Container.load format f.content).mapError fun fault => .format (.publicContainer fault)

end Files

end SigningKeys
