import CallDispatch.Text.Decimal

/-!
# Shortest decimals of binary floating-point numbers

A finite double is `m * 2 ^ q`. It is written with the fewest digits that read back as the same
double: on the coarsest power-of-ten grid that has a point inside the interval of reals rounding to
the double, the point nearest to it. All of this is exact arithmetic on natural numbers.
-/

namespace CallDispatch.Text.Shortest

/-- A positive decimal `digits * 10 ^ exponent`. -/
structure Scaled where
  digits : Nat
  exponent : Int
  deriving DecidableEq, Repr

/-- A positive value with the interval that rounds to it: `low / den`, `value / den`, `high / den`,
the ends belonging to it or not. -/
structure Rounding where
  low : Nat
  value : Nat
  high : Nat
  den : Nat
  closed : Bool

/-- The value and rounding interval of a positive finite double, from its biased exponent and its
fraction bits. Just above a power of two the interval below is half as wide. -/
def Rounding.ofBits (biased fraction : Nat) : Rounding :=
  let m := if biased = 0 then fraction else 1 <<< 52 + fraction
  let q : Int := max biased 1 - 1075 - 2
  let below := if fraction = 0 ∧ biased > 1 then 1 else 2
  let up := 1 <<< q.toNat
  { low := (4 * m - below) * up
    value := 4 * m * up
    high := (4 * m + 2) * up
    den := 1 <<< (-q).toNat
    closed := m % 2 == 0 }

/-- Whether the point `n * p / r` lies in the interval. -/
def Rounding.contains (i : Rounding) (n p r : Nat) : Bool :=
  let x := n * p * i.den
  if i.closed then i.low * r ≤ x && x ≤ i.high * r else i.low * r < x && x < i.high * r

/-- The point of the grid of multiples of `10 ^ k` nearest to the value, if the interval has one. An
exact tie goes to the even neighbour. -/
def Rounding.onGrid? (i : Rounding) (k : Int) : Option Nat :=
  let p := Nat.pow 10 k.toNat
  let r := Nat.pow 10 (-k).toNat
  let step := i.den * p
  let n := i.value * r / step
  let rest := i.value * r % step
  match i.contains n p r, i.contains (n + 1) p r with
  | true, false => some n
  | false, true => some (n + 1)
  | true, true =>
    if 2 * rest < step ∨ (2 * rest = step ∧ n % 2 = 0) then some n else some (n + 1)
  | false, false => none

/-- The exponents of the grids, coarsest first. -/
def gridExponents : List Int :=
  (List.range 633).map fun i : Nat => (308 : Int) - i

/-- The shortest decimal of a positive finite double. -/
def ofBits (biased fraction : Nat) : Scaled :=
  let i := Rounding.ofBits biased fraction
  (gridExponents.findSome? fun k => (i.onGrid? k).map (Scaled.mk · k)).getD ⟨0, 0⟩

/-- How a decimal is laid out: which exponents are written positionally, and how many digits an
exponent has at least. -/
structure Layout where
  leastPositional : Int
  greatestPositional : Int
  exponentWidth : Nat

/-- Write a decimal. Positional notation always shows a fraction digit; an exponent always shows its
sign. -/
def Scaled.render (layout : Layout) (s : Scaled) : List Char :=
  let ds := Decimal.ofNat s.digits
  let top : Int := s.exponent + ds.length - 1
  if layout.leastPositional ≤ top ∧ top ≤ layout.greatestPositional then
    if 0 ≤ s.exponent then ds ++ List.replicate s.exponent.toNat '0' ++ ['.', '0']
    else if 0 ≤ top then ds.take (top.toNat + 1) ++ '.' :: ds.drop (top.toNat + 1)
    else '0' :: '.' :: List.replicate (-top - 1).toNat '0' ++ ds
  else
    let mantissa := match ds with
      | d :: rest => if rest.isEmpty then [d] else d :: '.' :: rest
      | [] => []
    mantissa ++ 'e' :: (if top < 0 then '-' else '+') ::
      Decimal.padded layout.exponentWidth top.natAbs

/-- Write a finite double given by its bits. -/
def render (layout : Layout) (bits : UInt64) : List Char :=
  let n := bits.toNat
  let sign := if n < 1 <<< 63 then [] else ['-']
  let magnitude := n % 1 <<< 63
  sign ++
    if magnitude = 0 then ['0', '.', '0']
    else (ofBits (magnitude >>> 52) (magnitude % 1 <<< 52)).render layout

end CallDispatch.Text.Shortest
