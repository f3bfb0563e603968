import CallDispatch.Json.Document

/-!
# Reading JSON text

The reader turns symbols into a document and hands back what follows it, or nothing when reading
stopped at a fault inside. Strings are read piece by piece and assembled afterwards, because whether
their contents are a text matters only to those who look at them.
-/

namespace CallDispatch.Json

open Text (Symbol)

/-- A blank of JSON text. -/
def isSpace (s : Symbol) : Bool :=
  s == .char ' ' || s == .char '\n' || s == .char '\t' || s == .char '\r'

/-- What follows the blanks. -/
def skipSpace (s : List Symbol) : List Symbol :=
  s.dropWhile isSpace

/-! ## Strings -/

/-- A piece of a string's contents: a character, a 16-bit unit given by its number, or input that is
no character. -/
inductive Piece where
  | char (c : Char)
  | unit (n : Nat)
  | stray
  deriving DecidableEq, Repr

/-- How a string ends: before the rest of the input, or at a fault. -/
inductive Ending where
  | closed (rest : List Symbol)
  | fault (f : Fault)

/-- The value of a symbol that is a hexadecimal digit. -/
def hexDigit? : Symbol → Option Nat
  | .char c => Text.hexValue? c
  | .stray => none

/-- The number written by four hexadecimal digits. -/
def hexUnit? (a b c d : Symbol) : Option Nat := do
  some ((((← hexDigit? a) * 16 + (← hexDigit? b)) * 16 + (← hexDigit? c)) * 16 + (← hexDigit? d))

/-- How many bytes symbols take. -/
def byteLength (s : List Symbol) : Nat :=
  s.foldl (fun n x => n + match x with | .char c => Text.Utf8.width c | .stray => 1) 0

/-- The character that a letter after a backslash stands for. -/
def escaped? : Char → Option Char
  | '"' => some '"'
  | '\\' => some '\\'
  | '/' => some '/'
  | 'b' => some (Char.ofNat 8)
  | 'f' => some (Char.ofNat 12)
  | 'n' => some '\n'
  | 'r' => some '\r'
  | 't' => some '\t'
  | _ => none

/-- Put a piece before what was scanned after it. -/
def Piece.before (p : Piece) (scanned : List Piece × Ending) : List Piece × Ending :=
  (p :: scanned.1, scanned.2)

/-- The pieces of a string up to its closing quote. Four hexadecimal digits are asked for before the
end of the input is. -/
def scanString : List Symbol → List Piece × Ending
  | [] => ([], .fault .truncated)
  | .char '"' :: rest => ([], .closed rest)
  | [.char '\\'] => ([], .fault .truncated)
  | .char '\\' :: .char 'u' :: a :: b :: c :: d :: rest =>
    match hexUnit? a b c d with
    | some n => (Piece.unit n).before (scanString rest)
    | none => ([], .fault .malformed)
  | .char '\\' :: .char 'u' :: rest =>
    ([], .fault (if byteLength rest < 4 then .truncated else .malformed))
  | .char '\\' :: .char e :: rest =>
    match escaped? e with
    | some c => (Piece.char c).before (scanString rest)
    | none => ([], .fault .malformed)
  | .char '\\' :: .stray :: _ => ([], .fault .malformed)
  | .char c :: rest =>
    if c.toNat < 0x20 then ([], .fault .malformed) else (Piece.char c).before (scanString rest)
  | .stray :: rest => Piece.stray.before (scanString rest)

/-- The first of a pair of units that stand for one character together. -/
def isLeading (n : Nat) : Bool := 0xD800 ≤ n && n ≤ 0xDBFF

/-- The second of such a pair. -/
def isTrailing (n : Nat) : Bool := 0xDC00 ≤ n && n ≤ 0xDFFF

/-- The text that pieces make up: units pair up, and neither half of a pair stands alone. -/
def assemble : List Piece → Option (List Char)
  | [] => some []
  | .char c :: rest => (assemble rest).map (c :: ·)
  | .unit n :: .unit t :: rest =>
    if isLeading n then
      if isTrailing t then
        (assemble rest).map (Char.ofNat (0x10000 + (n - 0xD800) * 0x400 + (t - 0xDC00)) :: ·)
      else none
    else if isTrailing n then none
    else (assemble (.unit t :: rest)).map (Char.ofNat n :: ·)
  | .unit n :: rest =>
    if isLeading n || isTrailing n then none else (assemble rest).map (Char.ofNat n :: ·)
  | .stray :: _ => none

/-- Whether half a pair stands alone, as far as the pieces tell. -/
def hasLoneUnit : List Piece → Bool
  | [] => false
  | .unit n :: .unit t :: rest =>
    if isLeading n then if isTrailing t then hasLoneUnit rest else true
    else isTrailing n || hasLoneUnit (.unit t :: rest)
  | [.unit n] => isTrailing n
  | .unit n :: rest => isLeading n || isTrailing n || hasLoneUnit rest
  | _ :: rest => hasLoneUnit rest

/-- A string after its opening quote: its contents, if they are a text, and what follows; or the
faults that stop a reader that looks at it and one that does not. -/
inductive StringReading where
  | closed (contents : Option String) (rest : List Symbol)
  | unclosed (strict lenient : Fault)

/-- Read a string after its opening quote. -/
def readString (s : List Symbol) : StringReading :=
  match scanString s with
  | (pieces, .closed rest) => .closed ((assemble pieces).map String.ofList) rest
  | (pieces, .fault f) => .unclosed (if hasLoneUnit pieces then .malformed else f) f

/-! ## Numbers -/

/-- An ASCII digit and its value. -/
def digit? : Symbol → Option Nat
  | .char c => Text.Decimal.digit? c
  | .stray => none

/-- The digits at the start of the input, and what follows them. -/
def readDigits : List Symbol → List Nat × List Symbol
  | [] => ([], [])
  | s :: rest =>
    match digit? s with
    | some d => let (ds, rest) := readDigits rest; (d :: ds, rest)
    | none => ([], s :: rest)

/-- A numeral: sign, digits before the point, digits after it, and an exponent with its sign. -/
structure Numeral where
  negative : Bool
  whole : List Nat
  fraction : List Nat := []
  exponent : Option (Bool × List Nat) := none

/-- What reading a numeral gives: the numeral and what follows it, or faults. -/
inductive NumeralReading where
  | read (n : Numeral) (rest : List Symbol)
  | fault (strict lenient : Fault)

/-- A numeral that lacks a digit here: a reader that looks at it tells the end of the input from
other symbols. -/
def lacksDigit : List Symbol → NumeralReading
  | [] => .fault .truncated .malformed
  | _ => .fault .malformed .malformed

/-- Read the exponent of a numeral, if one follows. -/
def readExponent (n : Numeral) (s : List Symbol) : NumeralReading :=
  let signed (negative : Bool) (s : List Symbol) : NumeralReading :=
    match readDigits s with
    | ([], rest) => lacksDigit rest
    | (ds, rest) => .read { n with exponent := some (negative, ds) } rest
  let afterMark (s : List Symbol) : NumeralReading :=
    match s with
    | .char '+' :: s => signed false s
    | .char '-' :: s => signed true s
    | s => signed false s
  match s with
  | .char 'e' :: s => afterMark s
  | .char 'E' :: s => afterMark s
  | s => .read n s

/-- Read a numeral after its sign. A leading zero stands alone before the point. -/
def readNumeral (negative : Bool) (s : List Symbol) : NumeralReading :=
  match readDigits s with
  | ([], rest) => lacksDigit rest
  | (0 :: _ :: _, _) => .fault .malformed .malformed
  | (whole, .char '.' :: rest) =>
    match readDigits rest with
    | ([], rest) => lacksDigit rest
    | (fraction, rest) => readExponent { negative, whole, fraction } rest
  | (whole, rest) => readExponent { negative, whole } rest

/-- Take digits into a value while it stays a machine word: the value and how many digits are left
over. -/
def takeDigits (value : Nat) : List Nat → Nat × Nat
  | [] => (value, 0)
  | d :: rest =>
    if value * 10 + d < Text.Decimal.wordBound then takeDigits (value * 10 + d) rest
    else (value, rest.length + 1)

/-- The value of digits. -/
def digitsValue (ds : List Nat) : Nat :=
  ds.foldl (fun v d => v * 10 + d) 0

/-- `10 ^ n` as a double. -/
def tenTo (n : Nat) : Float := Float.ofScientific 1 false n

/-- Scale a double by a power of ten in steps of at most `10 ^ 308`, or find it too large. -/
def scale (f : Float) (exponent : Int) : Nat → Option Float
  | 0 => some f
  | fuel + 1 =>
    if exponent.natAbs ≤ 308 then
      if 0 ≤ exponent then
        let f := f * tenTo exponent.natAbs
        if f.isInf then none else some f
      else some (f / tenTo exponent.natAbs)
    else if f == 0.0 then some f
    else if 0 ≤ exponent then none
    else scale (f / tenTo 308) (exponent + 308) fuel

/-- The exponent is read up to this bound; past it only its sign matters. -/
def exponentBound : Nat := 1 <<< 31

/-- The double of a numeral: its leading digits as a machine word, scaled by a power of ten. -/
def Numeral.float? (n : Numeral) : Option Float :=
  let (significand, excess) := takeDigits 0 n.whole
  let (significand, exponent) : Nat × Int :=
    let (s, left) := takeDigits significand n.fraction
    (s, (excess : Int) - ((n.fraction.length - left : Nat) : Int))
  let magnitude : Option Float :=
    match n.exponent with
    | none => scale (UInt64.ofNat significand).toFloat exponent 8
    | some (negative, ds) =>
      let e := digitsValue ds
      if exponentBound ≤ e then
        if significand ≠ 0 ∧ !negative then none else some 0.0
      else
        let total := if negative then exponent - e else exponent + e
        scale (UInt64.ofNat significand).toFloat total (e / 308 + 8)
  magnitude.map fun f => if n.negative then -f else f

/-- The number a numeral stands for: an integer if it is written as one and fits a machine word, and
else the nearest double the scaling finds. A negative zero is a double. -/
def Numeral.document (n : Numeral) : Document :=
  let float : Document :=
    match n.float? with
    | some f => .number (.binary64 f.toBits)
    | none => .beyond
  match n.fraction, n.exponent with
  | [], none =>
    let v := digitsValue n.whole
    if n.negative then if 0 < v ∧ v ≤ 1 <<< 63 then .number (.neg v) else float
    else if v < Text.Decimal.wordBound then .number (.nat v) else float
  | _, _ => float

/-- Read a number after its sign. -/
def readNumber (negative : Bool) (s : List Symbol) : Document × Option (List Symbol) :=
  match readNumeral negative s with
  | .read n rest => (n.document, some rest)
  | .fault strict lenient => (.broken strict lenient, none)

/-! ## Values -/

/-- Read the rest of a keyword. -/
def readKeyword (value : Document) : List Char → List Symbol → Document × Option (List Symbol)
  | [], s => (value, some s)
  | _ :: _, [] => (.broken .truncated .truncated, none)
  | c :: cs, s :: rest =>
    if s = .char c then readKeyword value cs rest else (.broken .malformed .malformed, none)

/-- A container's contents stopped by a fault of any reader. -/
def Stop.at (afterComma : Bool) (f : Fault) : Stop := .fault afterComma f f

mutual

/-- Read a value. -/
def readValue : Nat → List Symbol → Document × Option (List Symbol)
  | 0, _ => (.broken .malformed .malformed, none)
  | fuel + 1, s =>
    match skipSpace s with
    | [] => (.missing, none)
    | .char '"' :: rest =>
      match readString rest with
      | .closed (some s) rest => (.text s, some rest)
      | .closed none rest => (.garbled, some rest)
      | .unclosed strict lenient => (.brokenText strict lenient, none)
    | .char '[' :: rest =>
      match skipSpace rest with
      | [] => (.array [] (.at false .truncated), none)
      | .char ']' :: rest => (.array [] .closed, some rest)
      | rest =>
        let (items, stop, rest) := readItems fuel rest
        (.array items stop, rest)
    | .char '\x7b' :: rest =>
      match skipSpace rest with
      | [] => (.object [] (.at false .truncated), none)
      | .char '\x7d' :: rest => (.object [] .closed, some rest)
      | .char '"' :: rest =>
        let (members, stop, rest) := readMembers fuel false rest
        (.object members stop, rest)
      | rest => (.oddObject (readValue fuel rest).1, none)
    | .char 'n' :: rest => readKeyword .null ['u', 'l', 'l'] rest
    | .char 't' :: rest => readKeyword (.bool true) ['r', 'u', 'e'] rest
    | .char 'f' :: rest => readKeyword (.bool false) ['a', 'l', 's', 'e'] rest
    | .char '-' :: rest => readNumber true rest
    | first :: rest =>
      if (digit? first).isSome then readNumber false (first :: rest)
      else (.broken .malformed .malformed, none)

/-- Read items from the start of one. -/
def readItems : Nat → List Symbol → List Document × Stop × Option (List Symbol)
  | 0, _ => ([], .at false .malformed, none)
  | fuel + 1, s =>
    let (item, rest) := readValue fuel s
    match rest with
    | none => ([item], .closed, none)
    | some rest =>
      match skipSpace rest with
      | [] => ([item], .at false .truncated, none)
      | .char ']' :: rest => ([item], .closed, some rest)
      | .char ',' :: rest =>
        match skipSpace rest with
        | [] => ([item], .at true .truncated, none)
        | .char ']' :: _ => ([item], .at true .malformed, none)
        | rest =>
          let (items, stop, rest) := readItems fuel rest
          (item :: items, stop, rest)
      | _ => ([item], .at false .malformed, none)

/-- Read members from inside the key of one. -/
def readMembers : Nat → Bool → List Symbol →
    List (Option String × Document) × Stop × Option (List Symbol)
  | 0, _, _ => ([], .at false .malformed, none)
  | fuel + 1, afterComma, s =>
    match readString s with
    | .unclosed strict lenient => ([], .fault afterComma strict lenient, none)
    | .closed key rest =>
      match skipSpace rest with
      | [] => ([(key, .missing)], .closed, none)
      | .char ':' :: rest =>
        let (value, rest) := readValue fuel rest
        match rest with
        | none => ([(key, value)], .closed, none)
        | some rest =>
          match skipSpace rest with
          | [] => ([(key, value)], .at false .truncated, none)
          | .char '\x7d' :: rest => ([(key, value)], .closed, some rest)
          | .char ',' :: rest =>
            match skipSpace rest with
            | [] => ([(key, value)], .at true .truncated, none)
            | .char '"' :: rest =>
              let (members, stop, rest) := readMembers fuel true rest
              ((key, value) :: members, stop, rest)
            | _ => ([(key, value)], .at true .malformed, none)
          | _ => ([(key, value)], .at false .malformed, none)
      | _ => ([(key, .broken .malformed .malformed)], .closed, none)

end

/-- Read a value with fuel for any nesting the input can hold. -/
def read (s : List Symbol) : Document × Option (List Symbol) :=
  readValue (2 * s.length + 2) s

end CallDispatch.Json
