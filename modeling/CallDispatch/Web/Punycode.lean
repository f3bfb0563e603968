/-!
# Punycode

A name outside ASCII is written in ASCII: first its ASCII characters, then, after a dash, where the
others go. These are taken by ascending code point, and each is told as the distance from the one
before in a numeral to base 36 whose digits have thresholds of their own. The thresholds follow a
bias that adapts to the distances seen.
-/

namespace CallDispatch.Web.Punycode

/-- A digit to base 36: letters, then figures. -/
def digit (d : Nat) : Char :=
  if d < 26 then Char.ofNat (0x61 + d) else Char.ofNat (0x16 + d)

/-- The threshold of the digit with weight step `k`. -/
def threshold (k bias : Nat) : Nat :=
  if k ≤ bias then 1 else if bias + 26 ≤ k then 26 else k - bias

/-- The numeral of a distance. -/
def numeral (bias k q : Nat) : List Char :=
  if h : q < threshold k bias then [digit q]
  else
    digit (threshold k bias + (q - threshold k bias) % (36 - threshold k bias)) ::
      numeral bias (k + 36) ((q - threshold k bias) / (36 - threshold k bias))
termination_by q
decreasing_by
  have : 1 ≤ threshold k bias := by unfold threshold; grind
  have := Nat.div_le_self (q - threshold k bias) (36 - threshold k bias)
  omega

/-- Scale a distance down until the bias can be read off it. -/
def scale (delta k : Nat) : Nat × Nat :=
  if 455 < delta then scale (delta / 35) (k + 36) else (delta, k)
termination_by delta

/-- The bias after a distance, with `count` characters placed. -/
def adapt (delta count : Nat) (first : Bool) : Nat :=
  let delta := if first then delta / 700 else delta / 2
  let (delta, k) := scale (delta + delta / count) 0
  k + 36 * delta / (delta + 38)

/-- Where the writer is: the text so far, the distance since the last character placed, the bias,
and how many characters are placed. -/
structure Progress where
  written : List Char
  delta : Nat := 0
  bias : Nat := 72
  placed : Nat

/-- Pass one character of the name while placing those with code point `n`. -/
def pass (basic n : Nat) (p : Progress) (c : Char) : Progress :=
  if c.toNat < n then { p with delta := p.delta + 1 }
  else if c.toNat = n then
    { written := p.written ++ numeral p.bias 36 p.delta
      delta := 0
      bias := adapt p.delta (p.placed + 1) (p.placed == basic)
      placed := p.placed + 1 }
  else p

/-- Place the characters with each of some code points in turn; `n` is the least code point not yet
dealt with. -/
def place (name : List Char) (basic : Nat) : (points : List Nat) → (n : Nat) → Progress → Progress
  | [], _, p => p
  | point :: rest, n, p =>
    let p := { p with delta := p.delta + (point - n) * (p.placed + 1) }
    let p := name.foldl (pass basic point) p
    place name basic rest (point + 1) { p with delta := p.delta + 1 }

/-- The code points of a list without repetitions, ascending. -/
def ascending (points : List Nat) : List Nat :=
  (points.mergeSort (· ≤ ·)).eraseReps

/-- A name in ASCII. -/
def encode (name : List Char) : List Char :=
  let basic := name.filter (·.toNat < 0x80)
  let others := (name.map Char.toNat).filter (0x80 ≤ ·)
  let start := if basic.isEmpty then [] else basic ++ ['-']
  (place name basic.length (ascending others) 0x80
    { written := start, placed := basic.length }).written

end CallDispatch.Web.Punycode
