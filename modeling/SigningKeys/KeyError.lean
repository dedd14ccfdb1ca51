import SigningKeys.Field.Basic
import SigningKeys.Text.Decimal

/-!
# Errors

Every failure is a cause; its wording is derived from the cause in one place.  No cause carries a
secret: the only bytes that reach a message are the name of an unknown field.

## Main definitions

* `LineFault`, `PublicFault`, `FormatFault`: what can be wrong with the text of a container.
* `ShapeFault`: what keeps a well-formed record from describing a key.
* `PasswordFault`, `DerivationFault`: what can go wrong with a password.
* `IoFault`: how a stream, a sink or a file can fail.
* `KeyError`, `KeyError.kind`, `KeyError.message`: all of them, their classes and their wording.
-/

namespace SigningKeys

/-- A text between backticks. -/
def ticked (s : String) : String := "`" ++ s ++ "`"

/-! ### The text of a container -/

/-- What can be wrong with a line of a private key container. -/
inductive LineFault where
  /-- The line is no name and value. -/
  | malformed
  /-- The line ends inside a name or a value. -/
  | unterminated
  /-- No field has this name. -/
  | unknownField (name : Bytes)
  /-- The value is not a string of digits. -/
  | notDecimal (field : Field)
  /-- The number does not fit into 32 bits. -/
  | outOfRange (field : Field)
  /-- The value has not the digits of that many bytes. -/
  | wrongLength (field : Field) (length : Nat)
  /-- The value has a byte that is no hexadecimal digit. -/
  | notHex (field : Field)
  /-- The field has a value already. -/
  | alreadySet (field : Field)
  deriving DecidableEq, Repr

/-- The wording of a line fault. -/
def LineFault.message : LineFault → String
  | malformed => "malformed line"
  | unterminated => "unterminated line"
  | unknownField name => "unknown field " ++ ticked (Utf8.decodeLossy name)
  | notDecimal f => "field " ++ ticked f.name ++ " must be a decimal number"
  | outOfRange f => "field " ++ ticked f.name ++ " is out of range"
  | wrongLength f n =>
    "field " ++ ticked f.name ++ " must hold " ++ Decimal.text n ++ " hex-encoded bytes"
  | notHex f => "field " ++ ticked f.name ++ " is not valid hex"
  | alreadySet f => "field " ++ ticked f.name ++ " already set"

/-- A part of a public container. -/
inductive PublicPart where
  /-- The identifier. -/
  | id
  /-- The key or signature. -/
  | data
  deriving DecidableEq, Repr

/-- The name of a part. -/
def PublicPart.name : PublicPart → String
  | id => "id"
  | data => "data"

/-- What can be wrong with a public container. -/
inductive PublicFault where
  /-- The text does not go on after the expected beginning. -/
  | wrongMagic
  /-- No digits and colon follow the beginning. -/
  | missingVersion
  /-- The version does not fit into 32 bits. -/
  | versionOutOfRange
  /-- The format does not admit the version. -/
  | unsupportedVersion (version : UInt32)
  /-- No colon follows the identifier. -/
  | missingData
  /-- A part is not Base64 text. -/
  | notBase64 (part : PublicPart)
  /-- A part decodes to a wrong number of bytes. -/
  | wrongDecodedLength (part : PublicPart) (expected actual : Nat)
  /-- A part has a wrong number of bytes. -/
  | wrongPartLength
  deriving DecidableEq, Repr

/-- The wording of a fault of a public container. -/
def PublicFault.message : PublicFault → String
  | wrongMagic => "container magic mismatch"
  | missingVersion => "container version must be followed by " ++ ticked ":"
  | versionOutOfRange => "container version is out of range"
  | unsupportedVersion v => "unsupported version " ++ Decimal.text v.toNat
  | missingData => "container is missing its data field"
  | notBase64 part => "container " ++ part.name ++ " is not valid base64"
  | wrongDecodedLength part expected actual =>
    "container " ++ part.name ++ " must decode to " ++ Decimal.text expected ++ " bytes, got " ++
      Decimal.text actual
  | wrongPartLength => "container field has the wrong length"

/-- What can be wrong with the text or the parts of a container. -/
inductive FormatFault where
  /-- The stream has no line at all. -/
  | emptyContainer
  /-- The first line is not that of a private key container. -/
  | wrongMagic
  /-- A line is longer than a reader accepts. -/
  | overlongLine
  /-- A line is faulty. -/
  | line (fault : LineFault)
  /-- The file is larger than a reader accepts. -/
  | oversizedFile
  /-- A secret to be stored has the wrong length. -/
  | secretLength
  /-- A recovered secret has the wrong length. -/
  | recoveredLength (actual : Nat)
  /-- The digits of a secret do not fill the buffer for them. -/
  | secretNotEncoded
  /-- An identifier has the wrong length. -/
  | idLength
  /-- A public container is faulty. -/
  | publicContainer (fault : PublicFault)
  deriving DecidableEq, Repr

/-- The wording of a format fault. -/
def FormatFault.message : FormatFault → String
  | emptyContainer => "empty key container"
  | wrongMagic => "not a private key container"
  | overlongLine => "container line exceeds " ++ Decimal.text Layout.lineLimit ++ " bytes"
  | line fault => fault.message
  | oversizedFile => "key container exceeds " ++ Decimal.text Layout.fileLimit ++ " bytes"
  | secretLength => "secret must be " ++ Decimal.text Layout.secretLength ++ " bytes"
  | recoveredLength n =>
    "secret must be " ++ Decimal.text Layout.secretLength ++ " bytes, got " ++ Decimal.text n
  | secretNotEncoded => "secret blob could not be hex-encoded"
  | idLength => "key id must be " ++ Decimal.text Layout.idLength ++ " bytes"
  | publicContainer fault => fault.message

/-! ### Records and passwords -/

/-- What keeps a well-formed record from describing a key. -/
inductive ShapeFault where
  /-- The version is not the known one. -/
  | unsupportedVersion (version : UInt32)
  /-- There is no version. -/
  | missingVersion
  /-- The password is stretched less than is required. -/
  | tooFewRounds (rounds minimum : UInt32)
  /-- An encrypted key lacks a field. -/
  | encryptedWithout (field : Field)
  /-- A plaintext key lacks its identifier or its secret. -/
  | missingIdOrData
  /-- A key to be unlocked lacks a field. -/
  | missing (field : Field)
  /-- An encrypted key to be unlocked lacks one of the fields beside the secret. -/
  | incomplete
  deriving DecidableEq, Repr

/-- The wording of a shape fault. -/
def ShapeFault.message : ShapeFault → String
  | unsupportedVersion v => "unsupported version " ++ Decimal.text v.toNat
  | missingVersion => "missing version"
  | tooFewRounds rounds minimum =>
    Decimal.text rounds.toNat ++ " KDF rounds is below the minimum of " ++
      Decimal.text minimum.toNat
  | encryptedWithout f => "encrypted key is missing " ++ ticked f.name
  | missingIdOrData =>
    "key is missing " ++ ticked Field.id.name ++ " or " ++ ticked Field.data.name
  | missing f => "key is missing " ++ ticked f.name
  | incomplete => "encrypted key is incomplete"

/-- What can go wrong when a password is asked for and tried. -/
inductive PasswordFault where
  /-- The buffer has no room in front of the canary. -/
  | bufferTooSmall
  /-- The source wrote into the canary or claims more bytes than fit. -/
  | bufferOverflow
  /-- The source declined or gave an empty password. -/
  | notProvided
  /-- The unwrapped secret does not have the stored checksum. -/
  | checksumMismatch
  deriving DecidableEq, Repr

/-- The wording of a password fault. -/
def PasswordFault.message : PasswordFault → String
  | bufferTooSmall => "password buffer is too small"
  | bufferOverflow => "password buffer overflow"
  | notProvided => "password was not provided"
  | checksumMismatch => "checksum mismatch (wrong password or corrupted key)"

/-- Why no key is derived from a password. -/
inductive DerivationFault where
  /-- There are no bytes in the password. -/
  | emptyPassword
  /-- The function would be applied no times. -/
  | zeroRounds
  /-- There are no bytes in the salt. -/
  | emptySalt
  deriving DecidableEq, Repr

/-- The wording of a derivation fault. -/
def DerivationFault.message : DerivationFault → String
  | emptyPassword => "password is empty"
  | zeroRounds => "PBKDF2 rounds must be non-zero"
  | emptySalt => "PBKDF2 salt is empty"

/-! ### Streams, sinks and files -/

/-- How a stream, a sink or a file can fail.  An interruption is no failure of this kind: what was
interrupted is done again, and nobody is told. -/
inductive IoFault where
  /-- There is no such file. -/
  | notFound
  /-- The caller may not do this. -/
  | permissionDenied
  /-- There is a file where a directory is to be made. -/
  | alreadyExists
  /-- A directory on the way is a file. -/
  | notADirectory
  /-- The file is a directory. -/
  | isADirectory
  /-- A name or a whole path is too long. -/
  | tooLong
  /-- A path holds a character that no name can hold. -/
  | invalidPath
  /-- The other end is gone. -/
  | brokenPipe
  /-- The operation took too long. -/
  | timedOut
  /-- The data ended too early. -/
  | unexpectedEnd
  /-- The sink takes no more bytes. -/
  | writeZero
  /-- Any other failure that is told to the caller. -/
  | other
  deriving DecidableEq, Repr

/-! ### All errors -/

/-- The classes of errors. -/
inductive ErrorKind where
  /-- The text or the parts of a container are faulty. -/
  | format
  /-- A record describes no key. -/
  | consistency
  /-- A password or a checksum is refused. -/
  | authentication
  /-- The caller did not give what the key requires. -/
  | configuration
  /-- There is no memory for a secret. -/
  | allocation
  /-- A stream, a sink or a file failed. -/
  | io
  deriving DecidableEq, Repr

/-- The name of a class of errors. -/
def ErrorKind.name : ErrorKind → String
  | format => "Format"
  | consistency => "Consistency"
  | authentication => "Authentication"
  | configuration => "Configuration"
  | allocation => "Allocation"
  | io => "Io"

/-- Why an operation on a key failed. -/
inductive KeyError where
  /-- The text or the parts of a container are faulty. -/
  | format (fault : FormatFault)
  /-- The record describes no key. -/
  | inconsistent (fault : ShapeFault)
  /-- The password is refused. -/
  | authentication (fault : PasswordFault)
  /-- The key is encrypted and there is nobody to ask for a password. -/
  | passwordRequired
  /-- No key can be derived from the password. -/
  | keyDerivation (fault : DerivationFault)
  /-- A stream, a sink or a file failed. -/
  | io (fault : IoFault)
  deriving DecidableEq, Repr

namespace KeyError

/-- The class of an error. -/
def kind : KeyError → ErrorKind
  | format _ => .format
  | inconsistent _ => .consistency
  | authentication _ => .authentication
  | keyDerivation _ => .authentication
  | passwordRequired => .configuration
  | io _ => .io

/-- The wording of an error.  The system words the failures of streams, sinks and files itself, so
there is none for them here. -/
def message : KeyError → Option String
  | format fault => some ("Invalid key format: " ++ fault.message)
  | inconsistent fault => some ("Inconsistent key record: " ++ fault.message)
  | authentication fault => some ("Authentication failed: " ++ fault.message)
  | passwordRequired => some "A password source is required for an encrypted key"
  | keyDerivation fault => some ("Key derivation error: " ++ fault.message)
  | io _ => none

end KeyError

end SigningKeys
