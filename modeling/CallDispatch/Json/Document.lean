import CallDispatch.Json.Value
import CallDispatch.Text.Utf8

/-!
# Documents: what a reader meets in a JSON text

A document is the tree of a text as far as the text can be read, with the place where reading stops
marked in the tree. Decoding walks the tree in text order, so a value of the wrong kind is reported
before a fault that comes after it and after a fault that comes before it.

Some faults only matter to a decoder that looks at the value: a string that is no text, a number too
large for a double. A member nobody asks for is skipped past such leaves.
-/

namespace CallDispatch.Json

open Text (Symbol)

/-- Why reading stops: the text is no JSON from here on, or it ends too early. -/
inductive Fault where
  | malformed
  | truncated
  deriving DecidableEq, Repr

/-- How the contents of a container end: at its closing bracket, or at a fault. The fault of a
reader that looks at every string may differ from that of one that skips, and it makes a difference
whether a comma came before it. -/
inductive Stop where
  | closed
  | fault (afterComma : Bool) (strict lenient : Fault)
  deriving DecidableEq, Repr

/-- The tree of a JSON text. -/
inductive Document where
  | null
  | bool (b : Bool)
  | number (n : Number)
  /-- A numeral too large for a double. -/
  | beyond
  | text (s : String)
  /-- A closed string whose contents are no text. -/
  | garbled
  | array (items : List Document) (stop : Stop)
  /-- Members with their keys; a key whose contents are no text is missing. -/
  | object (members : List (Option String × Document)) (stop : Stop)
  /-- An object that has something other than a string in the place of its first key. -/
  | oddObject (key : Document)
  /-- A string that does not end. -/
  | brokenText (strict lenient : Fault)
  /-- No value. -/
  | broken (strict lenient : Fault)
  /-- The input ends where a value should start. -/
  | missing
  deriving Repr, Inhabited

mutual

/-- The document of a value. -/
def document : Json → Document
  | .null => .null
  | .bool b => .bool b
  | .number n => .number n
  | .text s => .text s
  | .array items => .array (documents items) .closed
  | .object members => .object (memberDocuments members) .closed

/-- The documents of values. -/
def documents : List Json → List Document
  | [] => []
  | item :: rest => document item :: documents rest

/-- The documents of members. -/
def memberDocuments : List (String × Json) → List (Option String × Document)
  | [] => []
  | (key, value) :: rest => (some key, document value) :: memberDocuments rest

end

end CallDispatch.Json
