import CallDispatch.Text.Quoted

/-!
# Activation identifiers

Every round of execution runs under an identifier of its own: twelve hexadecimal digits in lower
case. Where identifiers come from is left open: whoever runs calls draws them from a source, which
is asked once for each. A source at hand answers with the numerals of the natural numbers in turn,
and so does not repeat itself before it has given all texts of that width.
-/

namespace CallDispatch

namespace Activation

/-- How many digits an identifier has. -/
def width : Nat := 12

/-- The last `count` hexadecimal digits of a number, most significant first. -/
def digits : (count : Nat) → Nat → List Char
  | 0, _ => []
  | count + 1, n => digits count (n / 16) ++ [Text.hexDigit (n % 16)]

/-- The answer to a request that so many have come before, of the source at hand. -/
def id (n : Nat) : String := String.ofList (digits width n)

/-- Whether a character is a hexadecimal digit in lower case. -/
def isDigit (c : Char) : Bool := c.isDigit || ('a' ≤ c && c ≤ 'f')

/-- Whether a text has the form of an identifier. -/
def isWellFormed (s : String) : Bool :=
  s.toList.length == width && s.toList.all isDigit

end Activation

end CallDispatch
