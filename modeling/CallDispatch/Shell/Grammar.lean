import CallDispatch.Shell.Tokens

/-!
# Grammar of scripts

A script is read one line of commands at a time, so that what comes before a mistake is still run.
The words of the grammar count only where a command may begin.
-/

namespace CallDispatch.Shell

/-- The words of the grammar. -/
def reserved : List String :=
  ["if", "then", "elif", "else", "fi", "while", "until", "for", "do", "done", "in", "!",
    "\x7b", "\x7d",
    "case", "esac"]

/-- The word of the grammar that stands first, if one does. -/
def reserved? : List Token → Option String
  | .word w :: _ => (plainText? w).filter reserved.contains
  | _ => none

/-- What follows a word of the grammar that must stand first. -/
def expect (word : String) (ts : List Token) : Option (List Token) :=
  if reserved? ts = some word then some (ts.drop 1) else none

/-- What follows line ends. -/
def skipLineEnds : List Token → List Token
  | .lineEnd :: rest => skipLineEnds rest
  | ts => ts

/-- A redirection, if one stands first, with the stream it leads elsewhere if that is told. -/
def readRedirection (stream : Option Nat) : List Token → Option (Redirection × List Token)
  | .symbol s :: .word target :: rest =>
    match s with
    | "<" => some (⟨stream.getD 0, .read, target⟩, rest)
    | ">" => some (⟨stream.getD 1, .write, target⟩, rest)
    | ">>" => some (⟨stream.getD 1, .append, target⟩, rest)
    | "<&" => some (⟨stream.getD 0, .duplicate, target⟩, rest)
    | ">&" => some (⟨stream.getD 1, .duplicate, target⟩, rest)
    | _ => none
  | _ => none

/-- Whether a symbol begins a redirection. -/
def isRedirection (s : String) : Bool := ["<", ">", ">>", "<&", ">&"].contains s

/-- Redirections that stand first, in at most `limit` steps. -/
def readRedirections : (limit : Nat) → List Token → Option (List Redirection × List Token)
  | 0, ts => some ([], ts)
  | limit + 1, ts =>
    match ts with
    | .stream n :: rest => do
      let (r, rest) ← readRedirection (some n) rest
      let (rs, rest) ← readRedirections limit rest
      some (r :: rs, rest)
    | .symbol s :: rest =>
      if isRedirection s then do
        let (r, rest) ← readRedirection none (.symbol s :: rest)
        let (rs, rest) ← readRedirections limit rest
        some (r :: rs, rest)
      else some ([], .symbol s :: rest)
    | ts => some ([], ts)

/-- A word as an assignment: a name, an equals sign, and a value. -/
def assignment? : Word → Option (List Char × Word)
  | .text s false :: rest =>
    let (name, value) := s.span (· ≠ '=')
    match value with
    | _ :: value =>
      if isName name then some (name, if value.isEmpty then rest else .text value false :: rest)
      else none
    | [] => none
  | _ => none

/-- A simple command while it is being read. -/
structure Draft where
  assignments : List (List Char × Word) := []
  words : List Word := []
  redirections : List Redirection := []

/-- Read a simple command, in at most `limit` steps. -/
def readSimple : (limit : Nat) → Draft → List Token → Option (Draft × List Token)
  | 0, _, _ => none
  | limit + 1, d, ts =>
    match ts with
    | .word w :: rest =>
      match assignment? w with
      | some a =>
        if d.words.isEmpty then readSimple limit { d with assignments := d.assignments ++ [a] } rest
        else readSimple limit { d with words := d.words ++ [w] } rest
      | none => readSimple limit { d with words := d.words ++ [w] } rest
    | .stream _ :: _ => do
      let (rs, rest) ← readRedirections ts.length ts
      readSimple limit { d with redirections := d.redirections ++ rs } rest
    | .symbol s :: _ =>
      if isRedirection s then do
        let (rs, rest) ← readRedirections ts.length ts
        readSimple limit { d with redirections := d.redirections ++ rs } rest
      else some (d, ts)
    | .broken :: _ => none
    | ts => some (d, ts)

/-- The patterns of a branch, between bars and up to a bracket. -/
def readPatterns : List Token → Option (List Word × List Token)
  | .word w :: .symbol "|" :: rest =>
    (readPatterns rest).map fun (ws, rest) => (w :: ws, rest)
  | .word w :: .symbol ")" :: rest => some ([w], rest)
  | _ => none

/-- The words a loop goes over, up to the end of the line. -/
def readLoopWords : List Token → List Word × List Token
  | .word w :: rest => let (ws, rest) := readLoopWords rest; (w :: ws, rest)
  | .symbol ";" :: rest => ([], skipLineEnds rest)
  | ts => ([], skipLineEnds ts)

mutual

/-- A command that is not put together by symbols. -/
def readUnit : (limit : Nat) → List Token → Option (Command × List Token)
  | 0, _ => none
  | limit + 1, ts => do
    let (c, rest) ← match reserved? ts with
      | some "if" => readConditional limit (ts.drop 1)
      | some "while" => readLoop limit false (ts.drop 1)
      | some "until" => readLoop limit true (ts.drop 1)
      | some "for" => readEach limit (ts.drop 1)
      | some "case" => readChoice limit (ts.drop 1)
      | some "\x7b" => do
        let (c, rest) ← readList limit (ts.drop 1)
        some (c, ← expect "\x7d" rest)
      | some _ => none
      | none =>
        match ts with
        | .symbol "(" :: rest => do
          let (c, rest) ← readList limit rest
          match rest with
          | .symbol ")" :: rest => some (.inSubshell c, rest)
          | _ => none
        | ts => do
          let (d, rest) ← readSimple (ts.length + 1) {} ts
          if d.words.isEmpty && d.assignments.isEmpty && d.redirections.isEmpty then none
          else some (.simple d.assignments d.words d.redirections, rest)
    let (rs, rest) ← readRedirections rest.length rest
    some (if rs.isEmpty then c else .redirected c rs, rest)

/-- What follows `if` or `elif`. -/
def readConditional : (limit : Nat) → List Token → Option (Command × List Token)
  | 0, _ => none
  | limit + 1, ts => do
    let (test, rest) ← readList limit ts
    let (whenTrue, rest) ← readList limit (← expect "then" rest)
    match reserved? rest with
    | some "elif" =>
      let (whenFalse, rest) ← readConditional limit (rest.drop 1)
      some (.conditional test whenTrue whenFalse, rest)
    | some "else" =>
      let (whenFalse, rest) ← readList limit (rest.drop 1)
      some (.conditional test whenTrue whenFalse, ← expect "fi" rest)
    | _ => some (.conditional test whenTrue .nothing, ← expect "fi" rest)

/-- What follows `while` or `until`. -/
def readLoop : (limit : Nat) → (endsWhen : Bool) → List Token → Option (Command × List Token)
  | 0, _, _ => none
  | limit + 1, endsWhen, ts => do
    let (test, rest) ← readList limit ts
    let (body, rest) ← readList limit (← expect "do" rest)
    some (.loop endsWhen test body, ← expect "done" rest)

/-- What follows `for`. -/
def readEach : (limit : Nat) → List Token → Option (Command × List Token)
  | 0, _ => none
  | limit + 1, ts => do
    match ts with
    | .word name :: rest =>
      let name ← (plainText? name).filter fun s => isName s.toList
      let (words, rest) := readLoopWords (← expect "in" rest)
      let (body, rest) ← readList limit (← expect "do" rest)
      some (.each name.toList words body, ← expect "done" rest)
    | _ => none

/-- What follows `case`. -/
def readChoice : (limit : Nat) → List Token → Option (Command × List Token)
  | 0, _ => none
  | limit + 1, ts => do
    match ts with
    | .word subject :: rest =>
      let (branches, rest) ← readBranches limit (skipLineEnds (← expect "in" (skipLineEnds rest)))
      some (.choice subject branches, rest)
    | _ => none

/-- The branches of a choice, up to its end. -/
def readBranches : (limit : Nat) → List Token → Option (List (List Word × Command) × List Token)
  | 0, _ => none
  | limit + 1, ts => do
    if reserved? ts = some "esac" then some ([], ts.drop 1)
    else
      let (patterns, rest) ← readPatterns (match ts with
        | .symbol "(" :: rest => rest
        | ts => ts)
      let (body, rest) ← match skipLineEnds rest with
        | .symbol ";;" :: rest => some (Command.nothing, .symbol ";;" :: rest)
        | rest =>
          if reserved? rest = some "esac" then some (.nothing, rest) else readList limit rest
      match skipLineEnds rest with
      | .symbol ";;" :: rest =>
        let (branches, rest) ← readBranches limit (skipLineEnds rest)
        some ((patterns, body) :: branches, rest)
      | rest => some ([(patterns, body)], ← expect "esac" rest)

/-- Commands with pipes between them. -/
def readPipe : (limit : Nat) → List Token → Option (Command × List Token)
  | 0, _ => none
  | limit + 1, ts => do
    let (first, rest) ← readUnit limit ts
    match rest with
    | .symbol "|" :: rest =>
      let (second, rest) ← readPipe limit (skipLineEnds rest)
      some (.pipe first second, rest)
    | rest => some (first, rest)

/-- Commands with pipes between them, perhaps negated. -/
def readNegated : (limit : Nat) → List Token → Option (Command × List Token)
  | 0, _ => none
  | limit + 1, ts =>
    if reserved? ts = some "!" then do
      let (c, rest) ← readPipe limit (ts.drop 1)
      some (.negated c, rest)
    else readPipe limit ts

/-- What follows a command that others are tied to by `&&` and `||`. -/
def readTied : (limit : Nat) → (first : Command) → List Token → Option (Command × List Token)
  | 0, _, _ => none
  | limit + 1, first, ts =>
    match ts with
    | .symbol "&&" :: rest => do
      let (second, rest) ← readNegated limit (skipLineEnds rest)
      readTied limit (.both first second) rest
    | .symbol "||" :: rest => do
      let (second, rest) ← readNegated limit (skipLineEnds rest)
      readTied limit (.either first second) rest
    | ts => some (first, ts)

/-- The commands of a line. -/
def readLine : (limit : Nat) → List Token → Option (Command × List Token)
  | 0, _ => none
  | limit + 1, ts => do
    let (first, rest) ← readNegated limit ts
    let (first, rest) ← readTied limit first rest
    match rest with
    | .symbol s :: rest =>
      if s = ";" ∨ s = "&" then
        match rest with
        | [] => some (first, [])
        | .lineEnd :: _ => some (first, rest)
        | .symbol ")" :: _ | .symbol ";;" :: _ => some (first, rest)
        | rest =>
          if (reserved? rest).any
              ["then", "elif", "else", "fi", "do", "done", "esac", "\x7d"].contains then
            some (first, rest)
          else do
            let (second, rest) ← readLine limit rest
            some (.sequence first second, rest)
      else some (first, .symbol s :: rest)
    | rest => some (first, rest)

/-- The commands of one or more lines. -/
def readList : (limit : Nat) → List Token → Option (Command × List Token)
  | 0, _ => none
  | limit + 1, ts => do
    let (first, rest) ← readLine limit (skipLineEnds ts)
    match rest with
    | .lineEnd :: _ =>
      let rest := skipLineEnds rest
      match reserved? rest, rest with
      | some "then", _ | some "elif", _ | some "else", _ | some "fi", _ | some "do", _
      | some "done", _ | some "esac", _ | some "\x7d", _ | _, .symbol ")" :: _
      | _, .symbol ";;" :: _ | _, [] => some (first, rest)
      | _, _ =>
        let (second, rest) ← readList limit rest
        some (.sequence first second, rest)
    | rest => some (first, rest)

end

/-- The next line of a script, and what follows it; no command if the script has come to its end. -/
def nextLine? (ts : List Token) : Option (Option Command × List Token) :=
  match skipLineEnds ts with
  | [] => some (none, [])
  | ts => do
    let (c, rest) ← readLine (8 * ts.length + 8) ts
    match rest with
    | [] | .lineEnd :: _ => some (some c, rest)
    | _ => none

end CallDispatch.Shell
