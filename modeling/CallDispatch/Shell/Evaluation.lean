import CallDispatch.Shell.Expansion
import CallDispatch.Shell.Grammar

/-!
# Running scripts

A script runs command by command until it comes to its end, leaves, or is killed. A command that
cannot be found has status 127, and a script that cannot be read on leaves with status 2. Parts of a
pipe and commands in brackets run in a shell of their own, whose variables are gone afterwards.
-/

namespace CallDispatch.Shell

/-! ## Conditions -/

/-- Whether a comparison of two integers holds. -/
def compareIntegers? (op : String) (a b : Int) : Option Bool :=
  match op with
  | "-eq" => some (a == b)
  | "-ne" => some (a != b)
  | "-lt" => some (a < b)
  | "-le" => some (a ≤ b)
  | "-gt" => some (b < a)
  | "-ge" => some (b ≤ a)
  | _ => none

/-- Whether a path is that of a directory that is there. -/
def isDirectory (path : List Char) : Bool :=
  ["/", ".", "..", "/dev", "/tmp", "/bin", "/usr/bin"].any (·.toList = path)

/-- Whether a condition holds, if it is one. -/
def condition? (s : State) : List (List Char) → Option Bool
  | [] => some false
  | ['!'] :: rest@(_ :: _) => (condition? s rest).map (!·)
  | [a] => some (!a.isEmpty)
  | [op, a] =>
    match String.ofList op with
    | "-n" => some (!a.isEmpty)
    | "-z" => some a.isEmpty
    | "-e" | "-r" | "-w" => some (s.desk.file? a).isSome
    | "-f" => some (s.files.lookup a).isSome
    | "-s" => some ((s.files.lookup a).any (!·.isEmpty))
    | "-p" => some (a == "/dev/stdin".toList && s.input.isSome)
    | "-d" | "-x" => some (isDirectory a)
    | "-t" | "-L" => some false
    | _ => none
  | [a, op, b] =>
    match String.ofList op with
    | "=" => some (a == b)
    | "!=" => some (a != b)
    | op => do compareIntegers? op (← readInteger a) (← readInteger b)
  | _ => none

/-- The status of a condition. -/
def conditionStatus (s : State) (args : List (List Char)) : State :=
  match condition? s args with
  | some true => s.withStatus 0
  | some false => s.withStatus 1
  | none => s.complain "test: unexpected operator" 2

/-! ## Signals -/

/-- The number of a signal. -/
def signal? (name : List Char) : Option Nat :=
  match Text.Decimal.readDigits name with
  | some n => if n ≤ 64 then some n else none
  | none =>
    let name := String.ofList name
    let name := if name.startsWith "SIG" then (name.drop 3).toString else name
    [("HUP", 1), ("INT", 2), ("QUIT", 3), ("ILL", 4), ("TRAP", 5), ("ABRT", 6), ("BUS", 7),
      ("FPE", 8), ("KILL", 9), ("USR1", 10), ("SEGV", 11), ("USR2", 12), ("PIPE", 13), ("ALRM", 14),
      ("TERM", 15), ("CHLD", 17), ("CONT", 18), ("URG", 23), ("WINCH", 28)].lookup name

/-- Whether a signal kills a shell that has not been told otherwise. -/
def isDeadly (signal : Nat) : Bool := !([0, 17, 18, 23, 28].contains signal)

/-- What is said of a process that a signal killed. -/
def signalMessage (signal : Nat) : String :=
  ([(1, "Hangup"), (3, "Quit"), (4, "Illegal instruction"), (6, "Aborted"), (9, "Killed"),
    (10, "User defined signal 1"), (11, "Segmentation fault"), (12, "User defined signal 2"),
    (14, "Alarm clock"), (15, "Terminated")].lookup signal).getD ""

/-- Send a signal to a process. -/
def sendSignal (s : State) (signal : Nat) (target : List Char) : State × Course :=
  if target = State.processId ∨ target = ['0'] then
    let s := s.withStatus 0
    match (if signal = 0 ∨ signal = 9 then none else s.traps.lookup signal) with
    | some script => ({ s with called := s.called ++ [script] }, .onward)
    | none => (s, if isDeadly signal then .killed signal else .onward)
  else (s.complain "kill: No such process" 1, .onward)

/-- Send signals as told by arguments. -/
def kill (s : State) (args : List (List Char)) : State × Course :=
  let told : Option (Nat × List Char) := match args with
    | [['-', 's'], name, target] => (signal? name).map (·, target)
    | [['-', '-'], target] => some (15, target)
    | ['-' :: name, target] => (signal? name).map (·, target)
    | [target] => some (15, target)
    | _ => none
  match told with
  | some (signal, target) => sendSignal s signal target
  | none => (s.complain "kill: Illegal number" 2, .onward)

/-! ## What the shell does itself -/

/-- Read a line of the input into variables; the last takes what is left of the line. -/
def readIntoVariables (s : State) (names : List (List Char)) : State :=
  let input := s.input.getD []
  let line := input.takeWhile (· ≠ 10)
  let rest := input.drop line.length
  let text := Text.Utf8.shown (Text.Utf8.decode line)
  let trimmed := ((skipBlanks text).reverse.dropWhile isGap).reverse
  let (s, _) := (List.range names.length).foldl
    (fun (s, text) k =>
      let name := (names[k]?).getD []
      if k + 1 = names.length then (s.set name text, [])
      else
        let (word, more) := text.span (!isGap ·)
        (s.set name word, skipBlanks more))
    (s, trimmed)
  { s with input := s.input.map fun _ => rest.drop 1, status := if rest.isEmpty then 1 else 0 }

/-- Pass variables on to programs, setting those with a value. -/
def exportVariables (s : State) (args : List (List Char)) : State :=
  let s := args.foldl
    (fun s a =>
      let (name, value) := a.span (· ≠ '=')
      let s := if value.isEmpty then s else s.set name (value.drop 1)
      { s with exported := name :: s.exported })
    s
  s.withStatus 0

/-- Set how the shell works, and its arguments. -/
def setOptions (s : State) : List (List Char) → State
  | [] => s.withStatus 0
  | ['-', '-'] :: rest => { s.withStatus 0 with arguments := rest }
  | ('-' :: letters) :: rest =>
    setOptions (if letters.contains 'e' then { s with stopsOnFailure := true } else s) rest
  | ('+' :: letters) :: rest =>
    setOptions (if letters.contains 'e' then { s with stopsOnFailure := false } else s) rest
  | rest => { s.withStatus 0 with arguments := rest }

/-- Drop arguments of the shell. -/
def shift (s : State) (args : List (List Char)) : State × Course :=
  match Text.Decimal.readDigits (args.headD ['1']) with
  | some n =>
    if n ≤ s.arguments.length then
      ({ s.withStatus 0 with arguments := s.arguments.drop n }, .onward)
    else (s.complain "shift: can't shift that many" 2, .leaving)
  | none => (s.complain "shift: Illegal number" 2, .leaving)

/-- Say what to do on signals; zero and `EXIT` stand for the end of the shell. -/
def setTraps (s : State) : List (List Char) → State
  | [] => s.withStatus 0
  | script :: names =>
    let signals := names.filterMap fun name =>
      if name = "EXIT".toList then some 0 else signal? name
    let others := s.traps.filter fun e => !signals.contains e.1
    if script = ['-'] then { s.withStatus 0 with traps := others }
    else { s.withStatus 0 with traps := signals.map (·, script) ++ others }

/-- Leave the shell. -/
def leave (s : State) (args : List (List Char)) : State × Course :=
  match args with
  | [] => (s, .leaving)
  | arg :: _ =>
    match Text.Decimal.readDigits arg with
    | some n => (s.withStatus n, .leaving)
    | none => (s.complain ("exit: Illegal number: " ++ String.ofList arg) 2, .leaving)

/-- Carry out what the shell does itself, if a name stands for that. -/
def runBuiltin? (name : String) (args : List (List Char)) (s : State) : Option (State × Course) :=
  let going (s : State) : Option (State × Course) := some (s, .onward)
  let printed (bytes : List UInt8) (ok : Bool) : Option (State × Course) :=
    let failed := !ok || (s.sink 1 = .closed && !bytes.isEmpty)
    going ((s.write 1 bytes).withStatus (if failed then 1 else 0))
  match name with
  | ":" | "true" | "wait" | "umask" | "ulimit" | "." => going (s.withStatus 0)
  | "false" => going (s.withStatus 1)
  | "echo" => printed (echo args) true
  | "printf" =>
    match args with
    | [] | [['-', '-']] => going (s.complain "printf: usage: printf format [arg ...]" 2)
    | ['-', '-'] :: format :: args | format :: args =>
      let (bytes, ok) := printf format args
      printed bytes ok
  | "exit" | "return" => some (leave s args)
  | "shift" => some (shift s args)
  | "cd" =>
    if args.all isDirectory then going (s.withStatus 0)
    else going (s.complain ("cd: can't cd to " ++ String.ofList (joinBlanks args)) 2)
  | "kill" => some (kill s args)
  | "test" => going (conditionStatus s args)
  | "[" =>
    if args.getLast? = some [']'] then going (conditionStatus s args.dropLast)
    else going (s.complain "[: missing ]" 2)
  | "read" => going (readIntoVariables s (args.filter fun a => a ≠ ['-', 'r']))
  | "export" => going (exportVariables s args)
  | "unset" => going ((args.foldl State.unset s).withStatus 0)
  | "set" => going (setOptions s args)
  | "trap" => going (setTraps s args)
  | _ => none

/-! ## Redirections -/

/-- Lead one stream elsewhere. -/
def redirect (run : Runner) (r : Redirection) (s : State) : Except State State := do
  let (target, s) ← expandText run r.target s
  let failed (what : String) : State :=
    s.complain ("cannot " ++ what ++ " " ++ String.ofList target) 2
  match r.direction with
  | .read =>
    match s.desk.file? target with
    | some bytes => pure { s with input := some bytes }
    | none => throw (failed "open")
  | .write =>
    if target = "/dev/null".toList then pure (s.lead r.stream .nowhere)
    else if target = "/dev/stdout".toList then pure (s.lead r.stream (s.sink 1))
    else if target = "/dev/stderr".toList then pure (s.lead r.stream (s.sink 2))
    else if target.isEmpty then throw (failed "create")
    else
      let s := { s with files := (target, []) :: s.files.filter (·.1 ≠ target) }
      pure (s.lead r.stream (.file target))
  | .append =>
    if target = "/dev/null".toList then pure (s.lead r.stream .nowhere)
    else if target.isEmpty then throw (failed "create")
    else pure (s.lead r.stream (.file target))
  | .duplicate =>
    match target with
    | ['-'] =>
      if r.stream = 0 then pure { s with input := none } else pure (s.lead r.stream .closed)
    | _ =>
      match Text.Decimal.readDigits target with
      | some source =>
        if r.stream = 0 ∨ source = 0 then pure s else pure (s.lead r.stream (s.sink source))
      | none => throw (s.complain "bad fd number" 2)

/-- Lead streams elsewhere, one after the other. -/
def redirectAll (run : Runner) : List Redirection → State → Except State State
  | [], s => .ok s
  | r :: rest, s => redirect run r s >>= redirectAll run rest

/-- Lead streams back to where they led, after a command ran with some led elsewhere. -/
def restoreStreams (before after : State) (rs : List Redirection) : State :=
  { after with
    sinks := before.sinks
    input := if rs.any (·.stream = 0) then before.input else after.input }

/-! ## Commands -/

/-- What a shell of its own leaves behind: what it wrote and what it read, but not its variables. -/
def afterSubshell (before after : State) : State :=
  { before with
    input := after.input, out := after.out, err := after.err, files := after.files
    status := after.status }

/-- Leaving a shell of its own is no leaving. -/
def Course.ofSubshell : Course → Course
  | .killed signal => .killed signal
  | _ => .onward

/-- A shell that is started as a program: it knows only what is passed on. -/
def State.started (s : State) (name : List Char) (arguments : List (List Char)) : State :=
  { name, arguments, bindings := s.bindings.filter fun b => s.exported.contains b.1,
    exported := s.exported, input := s.input, sinks := s.sinks, out := s.out, err := s.err,
    files := s.files }

/-- What a shell that was started as a program leaves behind. -/
def afterProgram (before after : State) : Course → State
  | .killed signal =>
    let s := (afterSubshell before after).withStatus (128 + signal)
    if (signalMessage signal).isEmpty then s
    else s.write 2 (bytesOf ((signalMessage signal) ++ "\n").toList)
  | _ => afterSubshell before after

/-- Leave on a failure, if the shell is to do so and nobody looks at the status. -/
def stopIfFailed (tested : Bool) (s : State) (c : Course) : State × Course :=
  if c = .onward ∧ s.stopsOnFailure ∧ !tested ∧ s.status ≠ 0 then (s, .leaving) else (s, c)

/-- Give variables their values. -/
def assignAll (run : Runner) : List (List Char × Word) → State → Except State State
  | [], s => .ok s
  | (name, w) :: rest, s => do
    let (value, s) ← expandText run w s
    assignAll run rest (s.set name value)

/-- The name of a program without the usual places where programs are. -/
def bareName (name : List Char) : List Char :=
  match ["/usr/bin/".toList, "/bin/".toList].find? (·.isPrefixOf name) with
  | some place => name.drop place.length
  | none => name

/-- Run a program, with variables of its own. -/
def runExternal (name : List Char) (args : List (List Char)) (own : State) (s : State) : State :=
  match runProgram? (String.ofList (bareName name)) args own.environment s.desk with
  | some r => s.takeOver r
  | none => s.complain (String.ofList name ++ ": not found") 127

/-- Run a simple command whose words are worked out and whose streams are led where they should. -/
def runSimple (run : Runner) (assignments : List (List Char × Word)) (fields : List (List Char))
    (s : State) : Except State (State × Course) := do
  match fields with
  | [] =>
    let s ← assignAll run assignments (s.withStatus 0)
    pure (s, .onward)
  | name :: args =>
    let own ← assignAll run assignments s
    match runBuiltin? (String.ofList (bareName name)) args s with
    | some result => pure result
    | none =>
      let own := { own with exported := assignments.map (·.1) ++ own.exported }
      pure (runExternal name args own { s with err := own.err }, .onward)

mutual

/-- Run a command, in at most `limit` steps; `tested` says that somebody looks at its status. -/
def runCommand : (limit : Nat) → (tested : Bool) → Command → State → State × Course
  | 0, _, _, s => (s, .leaving)
  | limit + 1, tested, command, s =>
    match command with
    | .nothing => (s.withStatus 0, .onward)
    | .simple assignments words rs =>
      match expandWords (capture limit) words s with
      | .error s => (s, .leaving)
      | .ok (fields, s) =>
        match redirectAll (capture limit) rs s with
        | .error after => (restoreStreams s after rs, .onward)
        | .ok led =>
          match fields with
          | ['e', 'x', 'e', 'c'] :: [] => (led.withStatus 0, .onward)
          | ['e', 'x', 'e', 'c'] :: fields =>
            match runSimple (capture limit) assignments fields led with
            | .ok (after, .killed signal) => (restoreStreams s after rs, .killed signal)
            | .ok (after, _) => (restoreStreams s after rs, .leaving)
            | .error after => (restoreStreams s after rs, .leaving)
          | ['e', 'v', 'a', 'l'] :: fields =>
            let (after, course) := runScript limit (joinBlanks fields) led
            (restoreStreams s after rs, course)
          | ['c', 'o', 'm', 'm', 'a', 'n', 'd'] :: fields@(_ :: _) =>
            match runSimple (capture limit) assignments fields led with
            | .ok (after, course) => stopIfFailed tested (restoreStreams s after rs) course
            | .error after => (restoreStreams s after rs, .leaving)
          | ['s', 'h'] :: ['-', 'c'] :: script :: operands =>
            match assignAll (capture limit) assignments led with
            | .error after => (restoreStreams s after rs, .leaving)
            | .ok own =>
              let own := { own with exported := assignments.map Prod.fst ++ own.exported }
              let (after, course) :=
                runProgram limit script (own.started (operands.headD ['s', 'h']) (operands.drop 1))
              stopIfFailed tested (restoreStreams s (afterProgram led after course) rs) .onward
          | fields =>
            match runSimple (capture limit) assignments fields led with
            | .ok (after, course) =>
              let (after, course) := runCalled limit after.called { after with called := [] } course
              stopIfFailed tested (restoreStreams s after rs) course
            | .error after => (restoreStreams s after rs, .leaving)
    | .redirected c rs =>
      match redirectAll (capture limit) rs s with
      | .error after => (restoreStreams s after rs, .onward)
      | .ok led =>
        let (after, course) := runCommand limit tested c led
        (restoreStreams s after rs, course)
    | .pipe first second =>
      let (a, courseA) := runCommand limit true first ({ s with out := [] }.lead 1 .output)
      let s := { afterSubshell s a with out := s.out }
      let (b, courseB) := runCommand limit true second { s with input := some a.out }
      let after := { afterSubshell s b with input := s.input }
      match courseA, courseB with
      | .killed signal, _ | _, .killed signal => (after, .killed signal)
      | _, _ => stopIfFailed tested after .onward
    | .negated c =>
      let (s, course) := runCommand limit true c s
      (s.withStatus (if s.status = 0 then 1 else 0), course)
    | .sequence first second =>
      match runCommand limit tested first s with
      | (s, .onward) => runCommand limit tested second s
      | ended => ended
    | .both first second =>
      match runCommand limit true first s with
      | (s, .onward) => if s.status = 0 then runCommand limit tested second s else (s, .onward)
      | ended => ended
    | .either first second =>
      match runCommand limit true first s with
      | (s, .onward) => if s.status = 0 then (s, .onward) else runCommand limit tested second s
      | ended => ended
    | .conditional test whenTrue whenFalse =>
      match runCommand limit true test s with
      | (s, .onward) => runCommand limit tested (if s.status = 0 then whenTrue else whenFalse) s
      | ended => ended
    | .loop endsWhen test body =>
      match runCommand limit true test s with
      | (s, .onward) =>
        if (s.status = 0) = endsWhen then (s.withStatus 0, .onward)
        else match runCommand limit tested body s with
          | (s, .onward) => runCommand limit tested (.loop endsWhen test body) s
          | ended => ended
      | ended => ended
    | .each name words body =>
      match expandWords (capture limit) words s with
      | .error s => (s, .leaving)
      | .ok (fields, s) => runEach limit tested name fields body (s.withStatus 0)
    | .choice subject branches =>
      match expandText (capture limit) subject s with
      | .error s => (s, .leaving)
      | .ok (subject, s) => runBranches limit tested subject branches (s.withStatus 0)
    | .inSubshell c =>
      let (after, course) := runCommand limit tested c s
      stopIfFailed tested (afterSubshell s after) course.ofSubshell

/-- Run a command for each of some values of a variable. -/
def runEach : (limit : Nat) → (tested : Bool) → (name : List Char) → List (List Char) → Command →
    State → State × Course
  | 0, _, _, _, _, s => (s, .leaving)
  | _ + 1, _, _, [], _, s => (s, .onward)
  | limit + 1, tested, name, value :: rest, body, s =>
    match runCommand limit tested body (s.set name value) with
    | (s, .onward) => runEach limit tested name rest body s
    | ended => ended

/-- Run the first branch one of whose patterns stands for a text. -/
def runBranches : (limit : Nat) → (tested : Bool) → (subject : List Char) →
    List (List Word × Command) → State → State × Course
  | 0, _, _, _, s => (s, .leaving)
  | _ + 1, _, _, [], s => (s, .onward)
  | limit + 1, tested, subject, (patterns, body) :: rest, s =>
    match patterns with
    | [] => runBranches limit tested subject rest s
    | w :: more =>
      match expandPattern (capture limit) w s with
      | .error s => (s, .leaving)
      | .ok (pattern, s) =>
        if patternMatches pattern subject then runCommand limit tested body s
        else runBranches limit tested subject ((more, body) :: rest) s

/-- Run scripts that signals have called for. -/
def runCalled : (limit : Nat) → List (List Char) → State → Course → State × Course
  | 0, _, s, course => (s, course)
  | _ + 1, [], s, course => (s, course)
  | limit + 1, script :: rest, s, course =>
    match course with
    | .onward =>
      let (after, course) := runScript limit script s
      let after := if course = .onward then { after with status := s.status } else after
      runCalled limit rest after course
    | course => (s, course)

/-- Run a script, and then what is to be run at the end of the shell. -/
def runProgram : (limit : Nat) → List Char → State → State × Course
  | 0, _, s => (s, .leaving)
  | limit + 1, script, s =>
    match runScript limit script s with
    | (s, .killed signal) => (s, .killed signal)
    | (s, course) =>
      match s.traps.lookup 0 with
      | none => (s, course)
      | some last =>
        let (after, course) := runScript limit last { s with traps := [] }
        ({ after with status := if course = .onward then s.status else after.status }, course)

/-- Run the lines of a script. -/
def runLines : (limit : Nat) → List Token → State → State × Course
  | 0, _, s => (s, .leaving)
  | limit + 1, ts, s =>
    match nextLine? ts with
    | none => (s.complain "Syntax error" 2, .leaving)
    | some (none, _) => (s, .onward)
    | some (some command, rest) =>
      match runCommand limit false command s with
      | (s, .onward) => runLines limit rest s
      | ended => ended

/-- Run a script. -/
def runScript : (limit : Nat) → List Char → State → State × Course
  | 0, _, s => (s, .leaving)
  | limit + 1, script, s => runLines limit (tokens script) s

/-- Run a script in a shell of its own and take what it writes. -/
def capture : (limit : Nat) → Runner
  | 0, _, s => ([], s)
  | limit + 1, script, s =>
    let (after, _) := runScript limit script ({ s with out := [] }.lead 1 .output)
    (Text.Utf8.shown (Text.Utf8.decode after.out), { afterSubshell s after with out := s.out })

end

/-- How a shell ends: killed, or with a status. -/
inductive Ending where
  | killed
  | status (code : Nat)
  deriving DecidableEq, Repr

/-- What a shell wrote, and how it ended. -/
structure Result where
  out : List UInt8
  err : List UInt8
  ending : Ending
  deriving DecidableEq, Repr

/-- How many steps a script may take. -/
def stepLimit : Nat := 10000

/-- Run a script with an environment and an input. -/
def execute (script : String) (environment : List (String × String)) (input : List UInt8) :
    Result :=
  let bindings := environment.map fun (name, value) => (name.toList, value.toList)
  let (s, course) := runProgram stepLimit script.toList
    { bindings, exported := bindings.map (·.1), input := some input }
  { out := s.out
    err := s.err
    ending := match course with
      | .killed _ => .killed
      | _ => .status s.status }

end CallDispatch.Shell
