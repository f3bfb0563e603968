import CallDispatch.Json.Value

/-!
# Indented JSON

The text of a value for people: every item and member on a line of its own, two blanks deeper than
what holds it. What is empty stays on one line.
-/

namespace CallDispatch.Json

/-- A line break and the blanks of a depth. -/
def newLine (depth : Nat) : List Char := '\n' :: List.replicate (2 * depth) ' '

mutual

/-- The indented text of a value at a depth. -/
def renderIndented (depth : Nat) : Json → List Char
  | .array (item :: rest) =>
    '[' :: (newLine (depth + 1) ++ renderIndented (depth + 1) item ++ indentedItems depth rest)
  | .object ((key, value) :: rest) =>
    '\x7b' :: (newLine (depth + 1) ++ renderText key ++ ':' :: ' ' ::
      (renderIndented (depth + 1) value ++ indentedMembers depth rest))
  | .null => render .null
  | .bool b => render (.bool b)
  | .number n => render (.number n)
  | .text s => render (.text s)
  | .array [] => render (.array [])
  | .object [] => render (.object [])

/-- The items after the first, up to the closing bracket. -/
def indentedItems (depth : Nat) : List Json → List Char
  | [] => newLine depth ++ [']']
  | item :: rest =>
    ',' :: (newLine (depth + 1) ++ renderIndented (depth + 1) item ++ indentedItems depth rest)

/-- The members after the first, up to the closing brace. -/
def indentedMembers (depth : Nat) : List (String × Json) → List Char
  | [] => newLine depth ++ ['\x7d']
  | (key, value) :: rest =>
    ',' :: (newLine (depth + 1) ++ renderText key ++ ':' :: ' ' ::
      (renderIndented (depth + 1) value ++ indentedMembers depth rest))

end

/-- The indented text of a value as a string. -/
def toIndentedText (j : Json) : String := String.ofList (j.renderIndented 0)

end CallDispatch.Json
