import CallDispatch.Text.Hexadecimal
import CallDispatch.Text.Utf8

/-!
# Percent encoding

Inside a web address a character that would be misread is written as the bytes of its UTF-8 form,
each as a percent sign and two hexadecimal digits. Which ASCII characters are escaped depends on the
place; everything outside ASCII always is. Decoding takes every percent sign that two digits follow
for a byte, and any other for itself.
-/

namespace CallDispatch.Web.Percent

/-- One byte as a percent sign and two digits, their letters in upper case. -/
def escapeByte (b : UInt8) : List Char :=
  ['%', Text.hexDigit (b.toNat / 16) 'A', Text.hexDigit (b.toNat % 16) 'A']

/-- One character, escaped if it is outside ASCII or in a set. -/
def encodeChar (escapes : Char → Bool) (c : Char) : List Char :=
  if 0x80 ≤ c.toNat || escapes c then (Text.Utf8.encodeChar c).flatMap escapeByte else [c]

/-- A text with the characters of a set, and those outside ASCII, escaped. -/
def encode (escapes : Char → Bool) (s : List Char) : List Char :=
  s.flatMap (encodeChar escapes)

/-- The bytes a text stands for. -/
def decode : List Char → List UInt8
  | '%' :: a :: b :: rest =>
    match Text.hexValue? a, Text.hexValue? b with
    | some high, some low => UInt8.ofNat (16 * high + low) :: decode rest
    | _, _ => Text.Utf8.encodeChar '%' ++ decode (a :: b :: rest)
  | c :: rest => Text.Utf8.encodeChar c ++ decode rest
  | [] => []

/-! ## Sets of characters to escape -/

/-- Control characters. -/
def isControl (c : Char) : Bool := c.toNat < 0x20 || c.toNat == 0x7F

/-- What is escaped in a fragment. -/
def inFragment (c : Char) : Bool := isControl c || [' ', '"', '<', '>', '\x60'].contains c

/-- What is escaped in a query. -/
def inQuery (c : Char) : Bool := isControl c || [' ', '"', '#', '<', '>'].contains c

/-- What is escaped in the query of an address of a well-known kind. -/
def inWellKnownQuery (c : Char) : Bool := inQuery c || c == '\''

/-- What is escaped in a path. -/
def inPath (c : Char) : Bool := inFragment c || ['#', '?', '\x7b', '\x7d'].contains c

/-- What is escaped in a path segment that is given as such. -/
def inSegment (c : Char) : Bool := inPath c || ['/', '%'].contains c

/-- What is escaped in a given segment where a backslash also separates segments. -/
def inWellKnownSegment (c : Char) : Bool := inSegment c || c == '\\'

/-- What is escaped in a user name or a password. -/
def inUserInfo (c : Char) : Bool :=
  inPath c || ['/', ':', ';', '=', '@', '[', '\\', ']', '^', '|'].contains c

end CallDispatch.Web.Percent
