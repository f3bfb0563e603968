import CallDispatch.Shell.Syntax

/-!
# Tokens of a script

A script is cut into words and symbols. Quotes and backslashes take the meaning from the characters
they protect; a dollar sign or a backquote begins a place where something is put in. What an opening
quote or bracket leaves open breaks the script from there on.
-/

namespace CallDispatch.Shell

/-- What stands before and after the next occurrence of a character. -/
def untilChar (mark : Char) : List Char → Option (List Char × List Char)
  | [] => none
  | c :: rest =>
    if c = mark then some ([], rest)
    else (untilChar mark rest).map fun (inside, rest) => (c :: inside, rest)

/-- What stands before and after the bracket that closes the one already open. Brackets inside
quotes do not count. -/
def untilClosing (opening closing : Char) : (depth : Nat) → (quote : Option Char) → List Char →
    Option (List Char × List Char)
  | _, _, [] => none
  | depth, quote, c :: rest =>
    let keep (depth : Nat) (quote : Option Char) : Option (List Char × List Char) :=
      (untilClosing opening closing depth quote rest).map fun (inside, rest) => (c :: inside, rest)
    match quote with
    | some q => keep depth (if c = q then none else quote)
    | none =>
      if c = '\'' ∨ c = '"' then keep depth (some c)
      else if c = opening then keep (depth + 1) none
      else if c = closing then
        match depth with
        | 0 => some ([], rest)
        | depth + 1 => keep depth none
      else keep depth none

/-- What to do for a parameter without a value, from what follows its name. -/
def readFallback : List Char → Option (Fallback × Bool)
  | [] => some (.nothing, false)
  | ':' :: '-' :: text => some (.useInstead text, true)
  | '-' :: text => some (.useInstead text, false)
  | ':' :: '=' :: text => some (.assign text, true)
  | '=' :: text => some (.assign text, false)
  | ':' :: '?' :: text => some (.complain text, true)
  | '?' :: text => some (.complain text, false)
  | ':' :: '+' :: text => some (.ifPresent text, true)
  | '+' :: text => some (.ifPresent text, false)
  | '#' :: '#' :: text => some (.without false true text, false)
  | '#' :: text => some (.without false false text, false)
  | '%' :: '%' :: text => some (.without true true text, false)
  | '%' :: text => some (.without true false text, false)
  | _ => none

/-- The name a parameter starts with, and what follows. -/
def splitName : List Char → List Char × List Char
  | c :: rest =>
    if startsName c then ((c :: rest).takeWhile inName, (c :: rest).dropWhile inName)
    else if isSpecial c then ([c], rest)
    else ([], c :: rest)
  | [] => ([], [])

/-- A parameter between braces. -/
def readBraced (s : List Char) : Option Parameter :=
  match s with
  | '#' :: rest@(_ :: _) =>
    match splitName rest with
    | (name@(_ :: _), []) => some { name, asLength := true }
    | _ => none
  | s => do
    let (name, rest) := splitName s
    if name.isEmpty then none
    else
      let (fallback, emptyCounts) ← readFallback rest
      some { name, fallback, emptyCounts }

/-- What a dollar sign begins, and what follows. -/
def readDollar (quoted : Bool) : List Char → Option (Part × List Char)
  | '(' :: '(' :: rest => do
    let (inside, rest) ← untilClosing '(' ')' 0 none rest
    match rest with
    | ')' :: rest => some (.sum inside quoted, rest)
    | _ => none
  | '(' :: rest => (untilClosing '(' ')' 0 none rest).map fun (inside, rest) =>
    (.output inside quoted, rest)
  | '\x7b' :: rest => do
    let (inside, rest) ← untilClosing '\x7b' '\x7d' 0 none rest
    let p ← readBraced inside
    some (.parameter p quoted, rest)
  | s =>
    match splitName s with
    | ([], rest) => some (.text ['$'] quoted, rest)
    | (name, rest) => some (.parameter { name } quoted, rest)

/-- A character that ends a word outside quotes. -/
def endsWord (c : Char) : Bool :=
  [' ', '\t', '\n', ';', '&', '|', '<', '>', '(', ')'].contains c

/-- Put a character in front of a word, together with text of the same kind. -/
def consText (c : Char) (quoted : Bool) : Word → Word
  | .text s q :: rest =>
    if q = quoted then .text (c :: s) q :: rest else .text [c] quoted :: .text s q :: rest
  | w => .text [c] quoted :: w

/-- Read a word, between double quotes or outside, in at most `limit` steps. -/
def readWord : (limit : Nat) → (inQuotes : Bool) → List Char → Option (Word × List Char)
  | 0, _, _ => none
  | _ + 1, false, [] => some ([], [])
  | _ + 1, true, [] => none
  | limit + 1, true, '"' :: rest => do
    let (w, rest) ← readWord limit false rest
    some (.text [] true :: w, rest)
  | limit + 1, false, '"' :: rest => do
    let (w, rest) ← readWord limit true rest
    some (.text [] true :: w, rest)
  | limit + 1, false, '\'' :: rest => do
    let (inside, rest) ← untilChar '\'' rest
    let (w, rest) ← readWord limit false rest
    some (.text inside true :: w, rest)
  | limit + 1, inQuotes, '\\' :: '\n' :: rest => readWord limit inQuotes rest
  | limit + 1, true, '\\' :: c :: rest => do
    let (w, rest) ← readWord limit true rest
    if ['$', '\x60', '"', '\\'].contains c then some (consText c true w, rest)
    else some (consText '\\' true (consText c true w), rest)
  | limit + 1, false, '\\' :: c :: rest => do
    let (w, rest) ← readWord limit false rest
    some (consText c true w, rest)
  | limit + 1, inQuotes, '$' :: rest => do
    let (part, rest) ← readDollar inQuotes rest
    let (w, rest) ← readWord limit inQuotes rest
    some (part :: w, rest)
  | limit + 1, inQuotes, '\x60' :: rest => do
    let (inside, rest) ← untilChar '\x60' rest
    let (w, rest) ← readWord limit inQuotes rest
    some (.output inside inQuotes :: w, rest)
  | limit + 1, inQuotes, c :: rest =>
    if !inQuotes && endsWord c then some ([], c :: rest)
    else do
      let (w, rest) ← readWord limit inQuotes rest
      some (consText c inQuotes w, rest)

/-- The symbol a text begins with, and what follows. -/
def readSymbol : List Char → Option (String × List Char)
  | '&' :: '&' :: rest => some ("&&", rest)
  | '|' :: '|' :: rest => some ("||", rest)
  | ';' :: ';' :: rest => some (";;", rest)
  | '>' :: '>' :: rest => some (">>", rest)
  | '>' :: '&' :: rest => some (">&", rest)
  | '>' :: '|' :: rest => some (">", rest)
  | '<' :: '&' :: rest => some ("<&", rest)
  | '<' :: '<' :: _ => none
  | ';' :: rest => some (";", rest)
  | '&' :: rest => some ("&", rest)
  | '|' :: rest => some ("|", rest)
  | '>' :: rest => some (">", rest)
  | '<' :: rest => some ("<", rest)
  | '(' :: rest => some ("(", rest)
  | ')' :: rest => some (")", rest)
  | _ => none

/-- The number of a stream right before a redirection. -/
def readStream : List Char → Option (Nat × List Char)
  | d :: c :: rest =>
    if d.isDigit ∧ (c = '<' ∨ c = '>') then some (d.toNat - '0'.toNat, c :: rest) else none
  | _ => none

/-- Cut a script into tokens, in at most `limit` steps. -/
def tokensFrom : (limit : Nat) → List Char → List Token
  | 0, _ => [.broken]
  | _ + 1, [] => []
  | limit + 1, c :: rest =>
    if c = ' ' ∨ c = '\t' then tokensFrom limit rest
    else if c = '\n' then .lineEnd :: tokensFrom limit rest
    else if c = '#' then tokensFrom limit (rest.dropWhile (· ≠ '\n'))
    else match readStream (c :: rest) with
      | some (n, rest) => .stream n :: tokensFrom limit rest
      | none =>
        match readSymbol (c :: rest) with
        | some (s, rest) => .symbol s :: tokensFrom limit rest
        | none =>
          match readWord (rest.length + 3) false (c :: rest) with
          | some (w, rest) =>
            if w.isEmpty then tokensFrom limit rest else .word w :: tokensFrom limit rest
          | none => [.broken]

/-- The tokens of a script. -/
def tokens (script : List Char) : List Token :=
  tokensFrom (script.length + 1) script

end CallDispatch.Shell
