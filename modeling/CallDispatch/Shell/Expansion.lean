import CallDispatch.Shell.Patterns
import CallDispatch.Shell.State
import CallDispatch.Shell.Tokens

/-!
# Expansion of words

Before a command runs, its words are worked out: parameters, the output of scripts and sums are put
in, and what was put in outside quotes is cut into fields at its separators, which are blanks unless
the script says otherwise. A word of which nothing is left vanishes, unless there were quotes in it.
-/

namespace CallDispatch.Shell

/-- A piece of a word that is worked out: a character, quotes around nothing, or a character at
which fields are cut. -/
inductive Piece where
  | char (c : Char)
  | quotes
  | cut (c : Char)
  deriving DecidableEq, Repr

/-- A blank, which alone never makes an empty field. -/
def isGap (c : Char) : Bool := c == ' ' || c == '\t' || c == '\n'

/-- The characters at which fields are cut. -/
def State.separators (s : State) : List Char :=
  (s.value? ['I', 'F', 'S']).getD [' ', '\t', '\n']

/-- The pieces of a value that is put in. -/
def pieces (separators : List Char) (quoted : Bool) (value : List Char) : List Piece :=
  if quoted then value.map .char
  else value.map fun c => if separators.contains c then .cut c else .char c

/-- The fields of pieces, after a field already begun; `ended` says that a blank has just ended one.
-/
def fieldsFrom : (begun : Option (List Char)) → (ended : Bool) → List Piece → List (List Char)
  | begun, _, [] => begun.toList
  | begun, _, .char c :: rest => fieldsFrom (some (begun.getD [] ++ [c])) false rest
  | begun, _, .quotes :: rest => fieldsFrom (some (begun.getD [])) false rest
  | some field, _, .cut c :: rest => field :: fieldsFrom none (isGap c) rest
  | none, ended, .cut c :: rest =>
    if isGap c then fieldsFrom none ended rest
    else if ended then fieldsFrom none false rest
    else [] :: fieldsFrom none false rest

/-- The text of pieces that are not to be cut. -/
def textOf (ps : List Piece) : List Char :=
  ps.filterMap fun
    | .char c => some c
    | .quotes => none
    | .cut c => some c

/-! ## Sums -/

/-- What a sum comes to, and what follows it. -/
abbrev SumRest := Option (Int × List Char)

/-- A text without leading blanks. -/
def skipBlanks (s : List Char) : List Char := s.dropWhile isGap

/-- The value of a name or a numeral in a sum. -/
def sumAtom (value? : List Char → Option (List Char)) (s : List Char) : SumRest :=
  match s.span inName with
  | ([], _) => none
  | (word, rest) =>
    match readInteger word with
    | some n => some (n, rest)
    | none => if isName word then some (((value? word).bind readInteger).getD 0, rest) else none

mutual

/-- A numeral, a name, a sum in brackets, or one of these with a sign. -/
def sumUnit (value? : List Char → Option (List Char)) : (limit : Nat) → List Char → SumRest
  | 0, _ => none
  | limit + 1, s =>
    match skipBlanks s with
    | '-' :: rest => (sumUnit value? limit rest).map fun (n, rest) => (-n, rest)
    | '+' :: rest => sumUnit value? limit rest
    | '(' :: rest => do
      let (n, rest) ← sumTerms value? limit rest
      match skipBlanks rest with
      | ')' :: rest => some (n, rest)
      | _ => none
    | '$' :: rest => sumAtom value? rest
    | s => sumAtom value? s

/-- What follows a first factor. -/
def sumFactors (value? : List Char → Option (List Char)) : (limit : Nat) → Int → List Char → SumRest
  | 0, _, _ => none
  | limit + 1, n, s =>
    match skipBlanks s with
    | '*' :: rest => do
      let (m, rest) ← sumUnit value? limit rest
      sumFactors value? limit (n * m) rest
    | '/' :: rest => do
      let (m, rest) ← sumUnit value? limit rest
      if m = 0 then none else sumFactors value? limit (n.tdiv m) rest
    | '%' :: rest => do
      let (m, rest) ← sumUnit value? limit rest
      if m = 0 then none else sumFactors value? limit (n.tmod m) rest
    | s => some (n, s)

/-- What follows a first term. -/
def sumMore (value? : List Char → Option (List Char)) : (limit : Nat) → Int → List Char → SumRest
  | 0, _, _ => none
  | limit + 1, n, s =>
    match skipBlanks s with
    | '+' :: rest => do
      let (m, rest) ← sumUnit value? limit rest
      let (m, rest) ← sumFactors value? limit m rest
      sumMore value? limit (n + m) rest
    | '-' :: rest => do
      let (m, rest) ← sumUnit value? limit rest
      let (m, rest) ← sumFactors value? limit m rest
      sumMore value? limit (n - m) rest
    | s => some (n, s)

/-- A sum. -/
def sumTerms (value? : List Char → Option (List Char)) : (limit : Nat) → List Char → SumRest
  | 0, _ => none
  | limit + 1, s => do
    let (n, rest) ← sumUnit value? limit s
    let (n, rest) ← sumFactors value? limit n rest
    sumMore value? limit n rest

end

/-- The value of a whole sum. -/
def sumValue? (value? : List Char → Option (List Char)) (s : List Char) : Option Int :=
  match sumTerms value? (4 * s.length + 8) s with
  | some (n, rest) => if (skipBlanks rest).isEmpty then some n else none
  | none => none

/-! ## Words -/

/-- A text without the line ends at its end. -/
def dropLineEnds (s : List Char) : List Char := (s.reverse.dropWhile (· = '\n')).reverse

/-- The value of a parameter by its name. -/
def parameterValue? (s : State) : List Char → Option (List Char)
  | ['?'] => some (Text.Decimal.ofNat s.status)
  | ['$'] => some State.processId
  | ['#'] => some (Text.Decimal.ofNat s.arguments.length)
  | ['0'] => some s.name
  | ['@'] | ['*'] => some ([' '].intercalate s.arguments)
  | [d] =>
    if d.isDigit then s.arguments[d.toNat - '1'.toNat]? else s.value? [d]
  | name => s.value? name

/-- What running a script from a state leaves: its output and the state. -/
abbrev Runner := List Char → State → List Char × State

/-- Work out words, given how scripts are run and how a text inside braces is worked out, as a text
or as a pattern; a complaint ends it. -/
structure Expander where
  run : Runner
  inner : List Char → Bool → State → Except State (List Piece × State)
  pattern : List Char → State → Except State (List Char × State)

/-- Whether a parameter counts as without a value. -/
def lacksValue (p : Parameter) (value? : Option (List Char)) : Bool :=
  match value? with
  | none => true
  | some v => p.emptyCounts && v.isEmpty

/-- Work out a parameter. -/
def expandParameter (e : Expander) (p : Parameter) (quoted : Bool) (s : State) :
    Except State (List Piece × State) :=
  let value? := parameterValue? s p.name
  let plain : List Piece × State :=
    let value := value?.getD []
    if p.name = ['@'] then
      (([Piece.cut ' '].intercalate (s.arguments.map fun a => .quotes :: a.map .char)), s)
    else
      (pieces s.separators quoted
        (if p.asLength then Text.Decimal.ofNat value.length else value), s)
  match p.fallback with
  | .nothing => .ok plain
  | .useInstead text => if lacksValue p value? then e.inner text quoted s else .ok plain
  | .ifPresent text => if lacksValue p value? then .ok ([], s) else e.inner text quoted s
  | .assign text =>
    if lacksValue p value? then do
      let (ps, s) ← e.inner text quoted s
      pure (ps, s.set p.name (textOf ps))
    else .ok plain
  | .complain text =>
    if lacksValue p value? then do
      let (ps, s) ← e.inner text true s
      let message := if text.isEmpty then "parameter not set" else String.ofList (textOf ps)
      throw (s.complain (String.ofList p.name ++ ": " ++ message) 2)
    else .ok plain
  | .without atEnd longest text => do
    let (pattern, s) ← e.pattern text s
    pure (pieces s.separators quoted (cutOff atEnd longest pattern (value?.getD [])), s)

/-- Work out a part of a word. -/
def expandPart (e : Expander) (part : Part) (s : State) : Except State (List Piece × State) :=
  match part with
  | .text cs quoted => .ok (if quoted then .quotes :: cs.map .char else cs.map .char, s)
  | .parameter p quoted => expandParameter e p quoted s
  | .output script quoted =>
    let (out, s) := e.run script s
    .ok (pieces s.separators quoted (dropLineEnds out), s)
  | .sum expression quoted => do
    let (ps, s) ← e.inner expression true s
    match sumValue? s.value? (textOf ps) with
    | some n => pure (pieces s.separators quoted (integerText n), s)
    | none => throw (s.complain "arithmetic expression" 2)

/-- Work out the parts of a word. -/
def expandParts (e : Expander) : Word → State → Except State (List Piece × State)
  | [], s => .ok ([], s)
  | part :: rest, s => do
    let (ps, s) ← expandPart e part s
    let (more, s) ← expandParts e rest s
    pure (ps ++ more, s)

/-- Whether a part stands between quotes. -/
def Part.isQuoted : Part → Bool
  | .text _ quoted | .parameter _ quoted | .output _ quoted | .sum _ quoted => quoted

/-- Work out the parts of a word that is a pattern. What stands between quotes means itself. -/
def patternParts (e : Expander) : Word → State → Except State (List Char × State)
  | [], s => .ok ([], s)
  | part :: rest, s => do
    let (ps, s) ← expandPart e part s
    let (more, s) ← patternParts e rest s
    let text := textOf ps
    pure ((if part.isQuoted then text.flatMap (['\\', ·]) else text) ++ more, s)

/-- Work out a text that stands inside braces, as if between double quotes; what it puts in is cut
if the whole is. -/
def expandInner (run : Runner) : (limit : Nat) → List Char → Bool → State →
    Except State (List Piece × State)
  | 0, text, quoted, s => .ok (pieces s.separators quoted text, s)
  | limit + 1, text, quoted, s =>
    match readWord (text.length + 3) true (text ++ ['"']) with
    | some (w, []) => do
      let e : Expander :=
        { run, inner := expandInner run limit, pattern := fun text s => .ok (text, s) }
      let (ps, s) ← expandParts e w s
      let kept := ps.filter (· ≠ .quotes)
      pure (if quoted then kept else kept.map fun p => if p = .char ' ' then .cut ' ' else p, s)
    | _ => .ok (pieces s.separators quoted text, s)

/-- Work out a pattern that stands inside braces. -/
def expandInnerPattern (run : Runner) (text : List Char) (s : State) :
    Except State (List Char × State) :=
  match readWord (text.length + 3) false text with
  | some (w, []) =>
    patternParts
      { run, inner := expandInner run 16, pattern := fun text s => .ok (text, s) } w s
  | _ => .ok (text, s)

/-- How words of commands are worked out. -/
def expander (run : Runner) : Expander :=
  { run, inner := expandInner run 16, pattern := expandInnerPattern run }

/-- Work out a word into fields. -/
def expandWord (run : Runner) (w : Word) (s : State) : Except State (List (List Char) × State) := do
  let (ps, s) ← expandParts (expander run) w s
  pure (fieldsFrom none false ps, s)

/-- Work out words into fields. -/
def expandWords (run : Runner) : List Word → State → Except State (List (List Char) × State)
  | [], s => .ok ([], s)
  | w :: rest, s => do
    let (fields, s) ← expandWord run w s
    let (more, s) ← expandWords run rest s
    pure (fields ++ more, s)

/-- Work out a word into one text. -/
def expandText (run : Runner) (w : Word) (s : State) : Except State (List Char × State) := do
  let (ps, s) ← expandParts (expander run) w s
  pure (textOf ps, s)

/-- Work out a word into a pattern. -/
def expandPattern (run : Runner) (w : Word) (s : State) : Except State (List Char × State) :=
  patternParts (expander run) w s

end CallDispatch.Shell
