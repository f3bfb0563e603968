import CallDispatch.Shell.Formats

/-!
# Programs a script can run

The programs read their input and the files there are, and write to their two outputs. What they
leave of the input is there for the next program.
-/

namespace CallDispatch.Shell

/-- What a program does: its output, its messages, its exit status, and what it leaves of its input.
-/
structure ProgramRun where
  out : List UInt8 := []
  err : List UInt8 := []
  status : Nat := 0
  rest : List UInt8 := []

/-- How much there is of what has no end. -/
def plenty : Nat := 1000000

/-- What a program finds: its input, if there is one, and the files. -/
structure Desk where
  input : Option (List UInt8) := some []
  files : List (List Char × List UInt8) := []

namespace Desk

/-- The contents of a file. -/
def file? (d : Desk) (name : List Char) : Option (List UInt8) :=
  if name = "/dev/null".toList then some []
  else if name = "/dev/stdin".toList then d.input
  else if name = "/dev/zero".toList then some (List.replicate plenty 0)
  else d.files.lookup name

/-- What is left of the input if nothing is read. -/
def untouched (d : Desk) : List UInt8 := d.input.getD []

end Desk

/-- The lines of a text, each with its end. -/
def linesOf : List UInt8 → List (List UInt8)
  | [] => []
  | b :: rest =>
    if b = 10 then [b] :: linesOf rest
    else match linesOf rest with
      | line :: lines => (b :: line) :: lines
      | [] => [[b]]

/-- A message of a program. -/
def complain (program : String) (message : String) : List UInt8 :=
  bytesOf (program ++ ": " ++ message ++ "\n").toList

/-- Read the files named, or the input if none is. -/
def gather (program : String) (d : Desk) (names : List (List Char)) : ProgramRun :=
  let names := if names.isEmpty then [['-']] else names
  names.foldl
    (fun r name =>
      if name = ['-'] then
        match d.input with
        | some _ => { r with out := r.out ++ r.rest, rest := [] }
        | none => { r with err := r.err ++ complain program "-: Bad file descriptor", status := 1 }
      else match d.file? name with
        | some bytes => { r with out := r.out ++ bytes }
        | none =>
          { r with
            err := r.err ++ complain program (String.ofList name ++ ": No such file or directory")
            status := 1 })
    { rest := d.untouched }

/-- The options of a program that takes a count: which unit, how many, and the files. -/
def readCount : List (List Char) → Char × Option (List Char) × List (List Char)
  | ['-', unit] :: count :: rest =>
    if unit = 'c' ∨ unit = 'n' then (unit, some count, rest)
    else if unit.isDigit then ('n', some [unit], count :: rest)
    else ('n', none, [])
  | ('-' :: unit :: digits) :: rest =>
    if unit = 'c' ∨ unit = 'n' then (unit, some digits, rest)
    else ('n', some (unit :: digits), rest)
  | names => ('n', some ['1', '0'], names)

/-- The first lines of a text. -/
def takeLines : (count : Nat) → List UInt8 → List UInt8
  | 0, _ => []
  | _, [] => []
  | count + 1, b :: rest => b :: takeLines (if b = 10 then count else count + 1) rest

/-- The beginning of what there is to read. -/
def head (d : Desk) (args : List (List Char)) : ProgramRun :=
  match readCount args with
  | (_, none, _) => { err := complain "head" "invalid option", status := 1, rest := d.untouched }
  | (unit, some count, names) =>
    match Text.Decimal.readDigits count with
    | none => { err := complain "head" "invalid number", status := 1, rest := d.untouched }
    | some count =>
      let r := gather "head" d names
      if unit = 'c' then
        { r with
          out := r.out.take count, rest := if names.isEmpty then r.out.drop count else r.rest }
      else { r with out := takeLines count r.out }

/-- The end of what there is to read. -/
def tail (d : Desk) (args : List (List Char)) : ProgramRun :=
  match readCount args with
  | (_, none, _) => { err := complain "tail" "invalid option", status := 1, rest := d.untouched }
  | (unit, some count, names) =>
    match Text.Decimal.readDigits (Text.Decimal.unsigned count) with
    | none => { err := complain "tail" "invalid number", status := 1, rest := d.untouched }
    | some n =>
      let r := gather "tail" d names
      let fromStart := count.head? = some '+'
      if unit = 'c' then
        { r with out := if fromStart then r.out.drop (n - 1) else r.out.drop (r.out.length - n) }
      else
        let lines := linesOf r.out
        { r with out := (lines.drop (if fromStart then n - 1 else lines.length - n)).flatten }

/-- How many words there are. -/
def wordCount (bytes : List UInt8) : Nat :=
  (bytes.foldl
    (fun (count, inside) b =>
      let blank := b = 32 ∨ (9 ≤ b ∧ b ≤ 13)
      if blank then (count, false) else (if inside then count else count + 1, true))
    (0, false)).1

/-- How many lines, words and bytes there are. -/
def wc (d : Desk) (args : List (List Char)) : ProgramRun :=
  let (options, names) := args.partition fun a => a.head? = some '-' ∧ 1 < a.length
  let asked := (options.map (·.drop 1)).flatten
  let r := gather "wc" d names
  let wanted (unit : Char) : Bool := asked.isEmpty || asked.contains unit
  let counts :=
    (if wanted 'l' then [(r.out.filter (· = 10)).length] else []) ++
    (if wanted 'w' then [wordCount r.out] else []) ++
    (if wanted 'c' then [r.out.length] else [])
  let texts := counts.map Text.Decimal.ofNat
  let texts := if texts.length = 1 then texts else texts.map (setInto 7 false false)
  { r with out := bytesOf (joinBlanks texts ++ ['\n']) }

/-- Integers from a first one on, as long as they do not pass the last, at most `limit` of them. -/
def countFrom (step last : Int) : (limit : Nat) → Int → List Int
  | 0, _ => []
  | limit + 1, n =>
    if (0 < step ∧ last < n) ∨ (step < 0 ∧ n < last) then []
    else n :: countFrom step last limit (n + step)

/-- A row of integers, one on each line. -/
def seq (d : Desk) (args : List (List Char)) : ProgramRun :=
  let row (first step last : Int) : ProgramRun :=
    let numbers := countFrom step last ((last - first).natAbs / step.natAbs + 1) first
    { out := numbers.flatMap fun n => bytesOf (integerText n ++ ['\n']), rest := d.untouched }
  match args.mapM readInteger with
  | some [last] => row 1 1 last
  | some [first, last] => row first 1 last
  | some [first, step, last] =>
    if step = 0 then { err := complain "seq" "invalid increment", status := 1, rest := d.untouched }
    else row first step last
  | _ => { err := complain "seq" "invalid argument", status := 1, rest := d.untouched }

/-- A line without its end. -/
def bareLine (line : List UInt8) : List UInt8 := line.filter (· ≠ 10)

/-- The lines of what there is to read, in ascending order of their bytes. -/
def sortLines (d : Desk) (args : List (List Char)) : ProgramRun :=
  let (options, names) := args.partition fun a => a.head? = some '-' ∧ 1 < a.length
  let r := gather "sort" d names
  let lines := ((linesOf r.out).map bareLine).mergeSort fun a b => !(b < a)
  let lines := if options.any (·.contains 'u') then lines.eraseReps else lines
  let lines := if options.any (·.contains 'r') then lines.reverse else lines
  { r with out := lines.flatMap (· ++ [10]) }

/-- Whether a text occurs in a line; behind a caret, whether the line begins with it. -/
def occursIn (pattern line : List UInt8) : Bool :=
  match pattern with
  | 94 :: rest => rest.isPrefixOf line
  | pattern => (List.range (line.length + 1)).any fun k => pattern.isPrefixOf (line.drop k)

/-- The lines a text occurs in. -/
def grep (d : Desk) (args : List (List Char)) : ProgramRun :=
  let (options, rest) := args.partition fun a => a.head? = some '-' ∧ 1 < a.length
  match rest with
  | [] => { err := complain "grep" "no pattern", status := 2, rest := d.untouched }
  | pattern :: names =>
    let r := gather "grep" d names
    let inverted := options.any (·.contains 'v')
    let found := (linesOf r.out).filter fun line =>
      occursIn (bytesOf pattern) (bareLine line) != inverted
    let out := if options.any (·.contains 'c') then
        bytesOf (Text.Decimal.ofNat found.length ++ ['\n'])
      else if options.any (·.contains 'q') then []
      else found.flatMap fun line => bareLine line ++ [10]
    { r with out, status := if found.isEmpty then 1 else 0 }

/-- The bytes from one to another. -/
def bytesBetween (a b : Char) : List UInt8 :=
  (List.range (b.toNat - a.toNat + 1)).map fun k => UInt8.ofNat (a.toNat + k)

/-- A set of bytes, with ranges written out, in at most `limit` steps. -/
def setOf : (limit : Nat) → List Char → List UInt8
  | 0, _ => []
  | _, [] => []
  | limit + 1, '[' :: ':' :: rest =>
    let (name, rest) := rest.span (· ≠ ':')
    let bytes := match String.ofList name with
      | "upper" => bytesBetween 'A' 'Z'
      | "lower" => bytesBetween 'a' 'z'
      | "digit" => bytesBetween '0' '9'
      | "space" => [9, 10, 11, 12, 13, 32]
      | _ => bytesBetween 'A' 'Z' ++ bytesBetween 'a' 'z'
    bytes ++ setOf limit (rest.drop 2)
  | limit + 1, '\\' :: rest =>
    match readEscape true rest with
    | some (bytes, rest) => (if bytes.length = 1 then bytes else bytes.drop 1) ++ setOf limit rest
    | none => []
  | limit + 1, a :: '-' :: b :: rest => bytesBetween a b ++ setOf limit rest
  | limit + 1, c :: rest => bytesOf [c] ++ setOf limit rest

/-- A row of equal bytes of a set made one. -/
def squeeze (set : List UInt8) : List UInt8 → List UInt8
  | a :: b :: rest =>
    if a = b ∧ set.contains a then squeeze set (b :: rest) else a :: squeeze set (b :: rest)
  | rest => rest

/-- Bytes of one set replaced by those of another, left out, or made one where equal ones follow one
another. -/
def translate (d : Desk) (args : List (List Char)) : ProgramRun :=
  let r := gather "tr" d []
  match args with
  | [['-', 'd'], set] =>
    let set := setOf (set.length + 1) set
    { r with out := r.out.filter (!set.contains ·) }
  | [['-', 's'], set] => { r with out := squeeze (setOf (set.length + 1) set) r.out }
  | [source, target] =>
    let source := setOf (source.length + 1) source
    let target := setOf (target.length + 1) target
    { r with
      out := r.out.map fun b =>
        match source.idxOf? b with
        | some k => (target[k]?).getD (target.getLast?.getD b)
        | none => b }
  | _ => { err := complain "tr" "missing operand", status := 1, rest := d.untouched }

/-- The lines of what there is to read, each changed and with its end. -/
def mapLines (program : String) (change : List UInt8 → List UInt8) (d : Desk)
    (names : List (List Char)) : ProgramRun :=
  let r := gather program d names
  { r with
    out := (linesOf r.out).flatMap fun line =>
      change (bareLine line) ++ (if line.getLast? = some 10 then [10] else []) }

/-- The same line after line told once, perhaps with how often. -/
def uniq (d : Desk) (args : List (List Char)) : ProgramRun :=
  let (options, names) := args.partition fun a => a.head? = some '-' ∧ 1 < a.length
  let r := gather "uniq" d names
  let counted := ((linesOf r.out).map bareLine).foldr
    (fun line counted => match counted with
      | (other, n) :: rest => if line = other then (line, n + 1) :: rest else (line, 1) :: counted
      | [] => [(line, 1)])
    []
  let row (line : List UInt8) (n : Nat) : List UInt8 :=
    if options.any (·.contains 'c') then
      bytesOf (setInto 7 false false (Text.Decimal.ofNat n)) ++ 32 :: line ++ [10]
    else line ++ [10]
  { r with out := counted.flatMap fun (line, n) => row line n }

/-- The parts of a line between a byte. -/
def partsAt (mark : UInt8) (line : List UInt8) : List (List UInt8) :=
  line.foldr (fun b parts => if b = mark then [] :: parts else
    match parts with
    | part :: rest => (b :: part) :: rest
    | [] => [[b]]) [[]]

/-- The first and the last of a range of positions that count from one. -/
def readSpan (s : List Char) : Option (Nat × Option Nat) :=
  match s.span (· ≠ '-') with
  | (first, []) => (Text.Decimal.readDigits first).map fun n => (n, some n)
  | ([], _ :: last) => (Text.Decimal.readDigits last).map fun n => (1, some n)
  | (first, [_]) => (Text.Decimal.readDigits first).map (·, none)
  | (first, _ :: last) => do
    some (← Text.Decimal.readDigits first, some (← Text.Decimal.readDigits last))

/-- What stands at positions of a range. -/
def spanOf (span : Nat × Option Nat) (xs : List α) : List α :=
  ((match span.2 with
    | some last => xs.take last
    | none => xs)).drop (span.1 - 1)

/-- Some of the characters or fields of each line. -/
def cut (d : Desk) (args : List (List Char)) : ProgramRun :=
  let withValues : List (List Char) := args.flatMap fun
    | '-' :: letter :: value@(_ :: _) => [['-', letter], value]
    | arg => [arg]
  let rec option? (letter : Char) : List (List Char) → Option (List Char)
    | ['-', l] :: value :: rest => if l = letter then some value else option? letter rest
    | _ => none
  let line (change : List UInt8 → List UInt8) : ProgramRun :=
    let r := gather "cut" d []
    { r with out := (linesOf r.out).flatMap fun line => change (bareLine line) ++ [10] }
  let mark := ((option? 'd' withValues).bind (bytesOf · |>.head?)).getD 9
  match ((option? 'c' withValues).orElse fun _ => option? 'b' withValues) >>= readSpan,
      option? 'f' withValues >>= readSpan with
  | some span, _ => line (spanOf span)
  | none, some span =>
    line fun l => if l.contains mark then [mark].intercalate (spanOf span (partsAt mark l)) else l
  | none, none =>
    { err := complain "cut" "you must specify a list", status := 1, rest := d.untouched }

/-- The last part of a path, or what stands before it. -/
def pathPart (last : Bool) (d : Desk) (args : List (List Char)) : ProgramRun :=
  let path := args.headD []
  let name := (path.reverse.takeWhile (· ≠ '/')).reverse
  let place := path.take (path.length - name.length - 1)
  let shown := if last then name
    else if name.length = path.length then ['.']
    else if place.isEmpty then ['/']
    else place
  { out := bytesOf (shown ++ ['\n']), rest := d.untouched }

/-- The names of files there are, and complaints about those there are not. -/
def list (d : Desk) (args : List (List Char)) : ProgramRun :=
  let names := args.filter fun a => a.head? ≠ some '-'
  let shown := names.filter fun name => (d.file? name).isSome
  let missing := names.filter fun name => (d.file? name).isNone
  { out := shown.flatMap fun name => bytesOf (name ++ ['\n'])
    err := missing.flatMap fun name =>
      complain "ls" ("cannot access '" ++ String.ofList name ++ "': No such file or directory")
    status := if missing.isEmpty then 0 else 2
    rest := d.untouched }

/-- Run a program by its name, with the variables it is told. -/
def runProgram? (name : String) (args : List (List Char))
    (environment : List (List Char × List Char)) (d : Desk) : Option ProgramRun :=
  match name with
  | "cat" => some (gather "cat" d args)
  | "ls" => some (list d args)
  | "head" => some (head d args)
  | "tail" => some (tail d args)
  | "wc" => some (wc d args)
  | "seq" => some (seq d args)
  | "sort" => some (sortLines d args)
  | "grep" => some (grep d args)
  | "tr" => some (translate d args)
  | "uniq" => some (uniq d args)
  | "cut" => some (cut d args)
  | "rev" => some (mapLines "rev" List.reverse d args)
  | "tac" =>
    let r := gather "tac" d args
    some { r with out := (linesOf r.out).reverse.flatten }
  | "tee" => some (gather "tee" d [])
  | "basename" => some (pathPart true d args)
  | "dirname" => some (pathPart false d args)
  | "yes" =>
    let line := bytesOf ((if args.isEmpty then ['y'] else joinBlanks args) ++ ['\n'])
    some { out := (List.replicate (plenty / line.length) line).flatten, rest := d.untouched }
  | "sleep" => some { rest := d.untouched }
  | "env" =>
    some { out := environment.flatMap fun (k, v) => bytesOf (k ++ '=' :: v ++ ['\n'])
           rest := d.untouched }
  | "printenv" =>
    match args with
    | [name] =>
      match environment.lookup name with
      | some v => some { out := bytesOf (v ++ ['\n']), rest := d.untouched }
      | none => some { status := 1, rest := d.untouched }
    | _ => some { rest := d.untouched }
  | _ => none

end CallDispatch.Shell
