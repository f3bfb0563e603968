/-!
# Hexadecimal digits

Digits from ten on are letters. Whoever writes them chooses their case; whoever reads them takes
both.
-/

namespace CallDispatch.Text

/-- A hexadecimal digit, with the letter that stands for ten. -/
def hexDigit (d : Nat) (ten : Char := 'a') : Char :=
  if d < 10 then Char.ofNat (48 + d) else Char.ofNat (ten.toNat + (d - 10))

/-- The shortest hexadecimal numeral of a number. -/
def hex (n : Nat) : List Char :=
  if n < 16 then [hexDigit n] else hex (n / 16) ++ [hexDigit (n % 16)]

/-- The value of a hexadecimal digit in either case. -/
def hexValue? (c : Char) : Option Nat :=
  let n := c.toNat
  if 0x30 ≤ n ∧ n ≤ 0x39 then some (n - 0x30)
  else if 0x41 ≤ n ∧ n ≤ 0x46 then some (n - 0x37)
  else if 0x61 ≤ n ∧ n ≤ 0x66 then some (n - 0x57)
  else none

end CallDispatch.Text
