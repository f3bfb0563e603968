import CallDispatch.Text.Shortest
import CallDispatch.Text.Quoted

/-!
# JSON values and their compact text

A value keeps the order of an object's members as given, so that a record can be written with its
fields in declaration order. A value that was read as data of no particular shape is *canonical*:
the members of every object are in strictly ascending order of their keys.

The text has no blanks; only quotes, backslashes and control characters are escaped.
-/

namespace CallDispatch

/-- A number as JSON text distinguishes it: a natural number below `2 ^ 64`, a negative integer of
magnitude at most `2 ^ 63`, or a double given by its bits. -/
inductive Number where
  | nat (value : Nat)
  | neg (magnitude : Nat)
  | binary64 (bits : UInt64)
  deriving DecidableEq, Repr, Inhabited

/-- A JSON value. -/
inductive Json where
  | null
  | bool (b : Bool)
  | number (n : Number)
  | text (s : String)
  | array (items : List Json)
  | object (members : List (String × Json))
  deriving BEq, Repr, Inhabited

/-- Doubles are written positionally from `1e-5` up to `1e16`. -/
def Number.layout : Text.Shortest.Layout := ⟨-5, 15, 2⟩

/-- The text of a number. -/
def Number.render : Number → List Char
  | .nat n => Text.Decimal.ofNat n
  | .neg n => '-' :: Text.Decimal.ofNat n
  | .binary64 bits => Text.Shortest.render Number.layout bits

namespace Json

/-- A member with a text that is written only if there is one. -/
def optionalMember (name : String) : Option String → List (String × Json)
  | some s => [(name, .text s)]
  | none => []

/-- One character inside a JSON string. -/
def renderChar (c : Char) : List Char :=
  if c = '"' then ['\\', '"']
  else if c = '\\' then ['\\', '\\']
  else if c = '\n' then ['\\', 'n']
  else if c = '\r' then ['\\', 'r']
  else if c = '\t' then ['\\', 't']
  else if c.toNat = 8 then ['\\', 'b']
  else if c.toNat = 12 then ['\\', 'f']
  else if c.toNat < 0x20 then
    ['\\', 'u', '0', '0', Text.hexDigit (c.toNat / 16), Text.hexDigit (c.toNat % 16)]
  else [c]

/-- A string between quotes. -/
def renderText (s : String) : List Char :=
  '"' :: s.toList.flatMap renderChar ++ ['"']

/-- The text of `true` and `false`. -/
def renderBool : Bool → List Char
  | true => ['t', 'r', 'u', 'e']
  | false => ['f', 'a', 'l', 's', 'e']

mutual

/-- The compact text of a value. -/
def render : Json → List Char
  | .null => ['n', 'u', 'l', 'l']
  | .bool b => renderBool b
  | .number n => n.render
  | .text s => renderText s
  | .array [] => ['[', ']']
  | .array (item :: rest) => '[' :: (render item ++ renderItems rest)
  | .object [] => ['\x7b', '\x7d']
  | .object ((key, value) :: rest) =>
    '\x7b' :: (renderText key ++ ':' :: (render value ++ renderMembers rest))

/-- The items after the first, up to the closing bracket. -/
def renderItems : List Json → List Char
  | [] => [']']
  | item :: rest => ',' :: (render item ++ renderItems rest)

/-- The members after the first, up to the closing brace. -/
def renderMembers : List (String × Json) → List Char
  | [] => ['\x7d']
  | (key, value) :: rest => ',' :: (renderText key ++ ':' :: (render value ++ renderMembers rest))

end

/-- The compact text of a value as a string. -/
def toText (j : Json) : String := String.ofList j.render

end Json

end CallDispatch
