/-!
# Quoted text

Descriptions show text between quotation marks.  A quotation mark and a backslash are preceded by
a backslash, tab, carriage return, line feed and the null character have short names, and every
other ASCII control character is written by its number.

Past ASCII, tables of Unicode say which characters are shown as they are; those that cannot be seen
or would run into the character before them are written by their numbers.  The tables are not part
of the project: whatever describes a text takes them as an argument.

## Main definitions

* `Quoted.escape`: how a character stands between the quotation marks.
* `Quoted.quote`: a text between quotation marks.
* `Quoted.quoteAscii`: a text without characters past ASCII between quotation marks.
-/

namespace SigningKeys

namespace Quoted

/-- The hexadecimal digits of a number, small letters, without leading zeros. -/
def hexDigits (n : Nat) : List Char := Nat.toDigits 16 n

/-- Whether a character is an ASCII control character. -/
def isControl (c : Char) : Bool := c.toNat < 32 || c.toNat == 127

/-- A character written by its number. -/
def byNumber (c : Char) : List Char := ['\\', 'u', '\x7b'] ++ hexDigits c.toNat ++ ['\x7d']

/-- How a character stands between quotation marks, if `shown` says which characters past ASCII are
shown as they are. -/
def escape (shown : Char → Bool) (c : Char) : List Char :=
  if c = '"' then ['\\', '"']
  else if c = '\\' then ['\\', '\\']
  else if c = '\t' then ['\\', 't']
  else if c = '\r' then ['\\', 'r']
  else if c = '\n' then ['\\', 'n']
  else if c.toNat = 0 then ['\\', '0']
  else if isControl c then byNumber c
  else if c.toNat < 128 || shown c then [c]
  else byNumber c

/-- A text between quotation marks. -/
def quote (shown : Char → Bool) (s : String) : String :=
  String.ofList ('"' :: s.toList.flatMap (escape shown) ++ ['"'])

/-- A text without characters past ASCII between quotation marks. -/
def quoteAscii (s : String) : String := quote (fun _ => false) s

end Quoted

end SigningKeys
