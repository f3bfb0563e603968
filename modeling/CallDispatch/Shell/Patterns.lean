/-!
# Patterns

In a pattern a star stands for any text, a question mark for any character, a set between square
brackets for one of its characters, and a character behind a backslash for itself. Everything else
stands for itself.
-/

namespace CallDispatch.Shell

/-- One element of a pattern. -/
inductive Element where
  | any
  | one (admits : Char → Bool)

/-- Whether a character is in a set with ranges. -/
def inSet (c : Char) : List Char → Bool
  | a :: '-' :: b :: rest => (a ≤ c && c ≤ b) || inSet c rest
  | a :: rest => a == c || inSet c rest
  | [] => false

/-- A set after its opening bracket, and what follows its closing one. -/
def readSet? (s : List Char) : Option ((Char → Bool) × List Char) :=
  let (inverted, s) := match s with
    | '!' :: rest => (true, rest)
    | s => (false, s)
  match s with
  | [] => none
  | first :: rest =>
    match rest.span (· ≠ ']') with
    | (more, ']' :: rest) => some (fun c => inSet c (first :: more) != inverted, rest)
    | _ => none

/-- The elements of a pattern, in at most `limit` steps. -/
def elements : (limit : Nat) → List Char → List Element
  | 0, _ => []
  | _, [] => []
  | limit + 1, '*' :: rest => .any :: elements limit rest
  | limit + 1, '?' :: rest => .one (fun _ => true) :: elements limit rest
  | limit + 1, '\\' :: c :: rest => .one (· == c) :: elements limit rest
  | limit + 1, '[' :: rest =>
    match readSet? rest with
    | some (admits, rest) => .one admits :: elements limit rest
    | none => .one (· == '[') :: elements limit rest
  | limit + 1, c :: rest => .one (· == c) :: elements limit rest

/-- Whether elements stand for a whole text. -/
def elementsMatch : List Element → List Char → Bool
  | [], s => s.isEmpty
  | .any :: rest, [] => elementsMatch rest []
  | .any :: rest, c :: s => elementsMatch rest (c :: s) || elementsMatch (.any :: rest) s
  | .one _ :: _, [] => false
  | .one admits :: rest, c :: s => admits c && elementsMatch rest s
termination_by es s => (es.length, s.length)

/-- Whether a pattern stands for a whole text. -/
def patternMatches (pattern s : List Char) : Bool :=
  elementsMatch (elements (pattern.length + 1) pattern) s

/-- A text without what a pattern stands for at its beginning or its end: the longest such part or
the shortest. -/
def cutOff (atEnd longest : Bool) (pattern s : List Char) : List Char :=
  let lengths := List.range (s.length + 1)
  let lengths := if longest then lengths.reverse else lengths
  let cut (n : Nat) : Option (List Char) :=
    if atEnd then
      if patternMatches pattern (s.drop (s.length - n)) then some (s.take (s.length - n)) else none
    else if patternMatches pattern (s.take n) then some (s.drop n)
    else none
  (lengths.findSome? cut).getD s

end CallDispatch.Shell
