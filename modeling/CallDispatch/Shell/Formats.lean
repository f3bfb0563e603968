import CallDispatch.Text.Decimal
import CallDispatch.Text.Quoted
import CallDispatch.Text.Utf8

/-!
# Formatted output

`echo` and `printf` write their arguments as bytes. Backslash sequences stand for control characters
and, in octal, for any byte; a format is used again as long as arguments are left.
-/

namespace CallDispatch.Shell

/-- Text on its way out: bytes, and whether nothing more is to follow. -/
structure Written where
  bytes : List UInt8 := []
  stopped : Bool := false

/-- The bytes of characters. -/
def bytesOf (s : List Char) : List UInt8 := Text.Utf8.encode s

/-- The value of an octal digit. -/
def octal? (c : Char) : Option Nat :=
  if '0' ≤ c ∧ c ≤ '7' then some (c.toNat - '0'.toNat) else none

/-- Read up to `count` octal digits after a value. -/
def readOctal : (count value : Nat) → List Char → Nat × List Char
  | 0, value, s => (value, s)
  | _ + 1, value, [] => (value, [])
  | count + 1, value, c :: rest =>
    match octal? c with
    | some d => readOctal count (value * 8 + d) rest
    | none => (value, c :: rest)

/-- The control character a letter behind a backslash stands for. -/
def control? : Char → Option UInt8
  | 'a' => some 7
  | 'b' => some 8
  | 'f' => some 12
  | 'n' => some 10
  | 'r' => some 13
  | 't' => some 9
  | 'v' => some 11
  | '\\' => some 92
  | _ => none

/-- What stands behind a backslash: bytes and the rest. In a format an octal byte starts with any
digit, in an argument with a zero; `none` ends all output. -/
def readEscape (inFormat : Bool) : List Char → Option (List UInt8 × List Char)
  | [] => some ([92], [])
  | c :: rest =>
    match control? c with
    | some b => some ([b], rest)
    | none =>
      if c = 'c' ∧ !inFormat then none
      else if inFormat ∧ (octal? c).isSome then
        let (value, rest) := readOctal 3 0 (c :: rest)
        some ([UInt8.ofNat value], rest)
      else if c = '0' then
        let (value, rest) := readOctal 3 0 rest
        some ([UInt8.ofNat value], rest)
      else some (92 :: bytesOf [c], rest)

/-- An argument with its backslash sequences resolved, in at most `limit` steps. -/
def unescape : (limit : Nat) → List Char → Written
  | 0, _ => {}
  | _, [] => {}
  | limit + 1, '\\' :: rest =>
    match readEscape false rest with
    | none => { stopped := true }
    | some (bytes, rest) =>
      let w := unescape limit rest
      { w with bytes := bytes ++ w.bytes }
  | limit + 1, c :: rest =>
    let w := unescape limit rest
    { w with bytes := bytesOf [c] ++ w.bytes }

/-- Join texts with blanks between them. -/
def joinBlanks (args : List (List Char)) : List Char := [' '].intercalate args

/-- What `echo` writes. -/
def echo (args : List (List Char)) : List UInt8 :=
  let (silent, args) := match args with
    | ['-', 'n'] :: rest => (true, rest)
    | args => (false, args)
  let s := joinBlanks args
  let w := unescape (s.length + 1) s
  if w.stopped || silent then w.bytes else w.bytes ++ [10]

/-- An integer: decimal digits after an optional sign. -/
def readInteger (s : List Char) : Option Int :=
  match s with
  | '-' :: digits => (Text.Decimal.readDigits digits).map fun n => -(n : Int)
  | s => (Text.Decimal.readDigits (Text.Decimal.unsigned s)).map fun n => (n : Int)

/-- The text of an integer. -/
def integerText (n : Int) : List Char :=
  if n < 0 then '-' :: Text.Decimal.ofNat n.natAbs else Text.Decimal.ofNat n.natAbs

/-- The octal numeral of a number. -/
def octalText (n : Nat) : List Char :=
  if n < 8 then [Text.hexDigit n] else octalText (n / 8) ++ [Text.hexDigit (n % 8)]

/-- Text set into a width, on the left or on the right. -/
def setInto (width : Nat) (left zeros : Bool) (s : List Char) : List Char :=
  let blanks := List.replicate (width - s.length) (if zeros && !left then '0' else ' ')
  if left then s ++ blanks else blanks ++ s

/-- The number that the digits of a base at the start of a text make, and what follows them. -/
def readBase (base n : Nat) : List Char → Nat × List Char
  | [] => (n, [])
  | c :: rest =>
    match "0123456789abcdef".toList.idxOf? c.toLower with
    | some d => if d < base then readBase base (n * base + d) rest else (n, c :: rest)
    | none => (n, c :: rest)

/-- The integer at the start of a text, and whether that is the whole of it: sixteen is the base
after `0x` and eight after `0`; after a quotation mark it is the code of a character, and no text is
zero. -/
def leadingInteger (s : List Char) : Int × Bool :=
  let digits (s : List Char) : Nat × Bool :=
    match s with
    | '0' :: 'x' :: rest | '0' :: 'X' :: rest =>
      let (n, rest) := readBase 16 0 rest
      (n, rest.isEmpty)
    | '0' :: rest =>
      let (n, rest) := readBase 8 0 rest
      (n, rest.isEmpty)
    | s =>
      let (n, rest) := readBase 10 0 s
      (n, rest.isEmpty)
  match s with
  | '\'' :: c :: _ | '"' :: c :: _ => (c.toNat, true)
  | '-' :: rest => let (n, whole) := digits rest; (-(n : Int), whole)
  | '+' :: rest => let (n, whole) := digits rest; (n, whole)
  | s => let (n, whole) := digits s; (n, whole)

/-- What a conversion of `printf` writes for an argument, before it is set into a width, and whether
the argument suits it. -/
def convert (kind : Char) (arg : List Char) : Option (List Char × Bool) :=
  let (n, whole) := leadingInteger arg
  match kind with
  | 's' => some (arg, true)
  | 'c' => some (arg.take 1, true)
  | 'd' | 'i' | 'u' => some (integerText n, whole)
  | 'o' => some (octalText n.natAbs, whole)
  | 'x' => some (Text.hex n.natAbs, whole)
  | 'X' => some ((Text.hex n.natAbs).map Char.toUpper, whole)
  | _ => none

/-- One pass over a format: what it writes, the arguments left, and whether it took any. -/
structure Pass where
  bytes : List UInt8 := []
  args : List (List Char) := []
  took : Bool := false
  stopped : Bool := false
  failed : Bool := false
  doubtful : Bool := false

/-- Put bytes in front of what a pass writes. -/
def Pass.prepend (bytes : List UInt8) (p : Pass) : Pass := { p with bytes := bytes ++ p.bytes }

/-- Go over a format, in at most `limit` steps. -/
def formatPass : (limit : Nat) → (args : List (List Char)) → List Char → Pass
  | 0, args, _ => { args }
  | _, args, [] => { args }
  | limit + 1, args, '\\' :: rest =>
    match readEscape true rest with
    | none => { args, stopped := true }
    | some (bytes, rest) => (formatPass limit args rest).prepend bytes
  | limit + 1, args, '%' :: '%' :: rest => (formatPass limit args rest).prepend [37]
  | limit + 1, args, '%' :: rest =>
    let flags := rest.takeWhile (['-', '0', '+', ' ', '#'].contains ·)
    let rest := rest.dropWhile (['-', '0', '+', ' ', '#'].contains ·)
    let width := (Text.Decimal.readDigits (rest.takeWhile Char.isDigit)).getD 0
    let rest := rest.dropWhile Char.isDigit
    let (most, rest) := match rest with
      | '.' :: rest =>
        (some ((Text.Decimal.readDigits (rest.takeWhile Char.isDigit)).getD 0),
          rest.dropWhile Char.isDigit)
      | rest => (none, rest)
    match rest with
    | [] => { args, failed := true }
    | 'b' :: rest =>
      let arg := args.headD []
      let w := unescape (arg.length + 1) arg
      if w.stopped then { bytes := w.bytes, stopped := true }
      else { (formatPass limit (args.drop 1) rest).prepend w.bytes with took := true }
    | kind :: rest =>
      match convert kind (args.headD []) with
      | none => { args, failed := true }
      | some (s, suits) =>
        let s := match most with
          | some n => if kind = 's' then s.take n else setInto n false true s
          | none => s
        let s := setInto width (flags.contains '-') (flags.contains '0') s
        let p := (formatPass limit (args.drop 1) rest).prepend (bytesOf s)
        { p with took := true, doubtful := p.doubtful || !suits }
  | limit + 1, args, c :: rest => (formatPass limit args rest).prepend (bytesOf [c])

/-- What `printf` writes, over at most `limit` passes, and whether it succeeds. -/
def printfPasses (format : List Char) :
    (limit : Nat) → (args : List (List Char)) → List UInt8 × Bool
  | 0, _ => ([], true)
  | limit + 1, args =>
    let p := formatPass (format.length + 1) args format
    let ok := !p.failed && !p.doubtful
    if p.stopped || p.failed || p.args.isEmpty || !p.took then (p.bytes, ok)
    else
      let (bytes, othersOk) := printfPasses format limit p.args
      (p.bytes ++ bytes, ok && othersOk)

/-- What `printf` writes, and whether it succeeds. -/
def printf (format : List Char) (args : List (List Char)) : List UInt8 × Bool :=
  printfPasses format (args.length + 1) args

end CallDispatch.Shell
