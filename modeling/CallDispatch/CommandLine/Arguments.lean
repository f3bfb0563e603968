import CallDispatch.CommandLine.Usage

/-!
# Arguments

A command line names an action, a payload and options. An option is given once, as `--name value` or
`--name=value`; the option for the handler may stand before or after the action. Arguments are read
from left to right, and the first that is out of place decides; a request for help or for the
version ends the reading. What is missing is noticed at the end.
-/

namespace CallDispatch

namespace CommandLine

open Program (Action)

/-- The value of an option must have a form of its own: a port is a number below `2 ^ 16`. -/
def isAcceptable (option value : String) : Bool :=
  if option = "port" then (Text.Decimal.readWord value.toList).any (· < 65536) else true

/-- Arguments read so far. -/
structure Given where
  options : List (String × String) := []
  payload : Option String := none
  deriving DecidableEq, Repr

/-- How reading arguments ends: at an argument out of place, at a request for help, with an action
or in general, at one for the version, or after the last argument. -/
inductive Reading (α : Type) where
  | misplaced
  | help (action : Option Action)
  | version
  | complete (value : α)
  deriving DecidableEq, Repr

/-- Whether an argument is read as an option. -/
def looksLikeOption (argument : String) : Bool :=
  match argument.toList with
  | '-' :: _ :: _ => true
  | _ => false

/-- The name of a long option and the value behind its equals sign. -/
def splitLong (argument : List Char) : String × Option String :=
  let (name, rest) := argument.span (· ≠ '=')
  (String.ofList name, if rest.isEmpty then none else some (String.ofList (rest.drop 1)))

/-- Whether an action has an option of a name. -/
def takes (action : Action) (option : String) : Bool :=
  (usage action).allOptions.any (·.name == option)

/-- An option of an action with its value, if the option has not been given yet. -/
def Given.set? (g : Given) (action : Action) (option value : String) : Option Given :=
  if takes action option && !(g.options.any (·.1 == option)) && isAcceptable option value then
    some { g with options := (option, value) :: g.options }
  else none

/-- A payload, if there is none yet. -/
def Given.setPayload? (g : Given) (value : String) : Option Given :=
  if g.payload.isNone then some { g with payload := some value } else none

/-- What the first argument is: the end of options, a long option, short flags, or a value. -/
inductive ArgumentForm where
  | endOfOptions
  | long (name : String) (value : Option String)
  | short (first : Char)
  | plain
  deriving DecidableEq, Repr

/-- The form of an argument. -/
def ArgumentForm.of (argument : String) : ArgumentForm :=
  match argument.toList with
  | ['-', '-'] => .endOfOptions
  | '-' :: '-' :: rest => let (name, value) := splitLong rest; .long name value
  | '-' :: first :: _ => .short first
  | _ => .plain

/-- Values behind the end of options. -/
def readValues (g : Given) : List String → Reading Given
  | [] => .complete g
  | value :: rest =>
    match g.setPayload? value with
    | some g => readValues g rest
    | none => .misplaced

/-- Read the arguments of an action. -/
def readAction (action : Action) (g : Given) : List String → Reading Given
  | [] => .complete g
  | argument :: rest =>
    match ArgumentForm.of argument with
    | .endOfOptions => readValues g rest
    | .short 'V' | .long "version" none => .version
    | .short 'h' | .long "help" none => .help (some action)
    | .short _ => .misplaced
    | .long name (some value) =>
      match g.set? action name value with
      | some g => readAction action g rest
      | none => .misplaced
    | .long name none =>
      match rest with
      | [] => .misplaced
      | value :: rest =>
        if looksLikeOption value then .misplaced
        else match g.set? action name value with
          | some g => readAction action g rest
          | none => .misplaced
    | .plain =>
      match g.setPayload? argument with
      | some g => readAction action g rest
      | none => .misplaced

/-- A command line up to its action. -/
structure Opening where
  handler : Option String := none
  action : Action
  rest : List String
  deriving DecidableEq, Repr

/-- What help is asked about: nothing in particular, or one action. -/
def readTopic : List String → Reading Opening
  | [] | ["help"] => .help none
  | [topic] =>
    match Action.ofName? topic with
    | some action => .help (some action)
    | none => .misplaced
  | _ => .misplaced

/-- Read up to the action; options before it are those of every action. -/
def readOpening (handler : Option String) : List String → Reading Opening
  | [] => .misplaced
  | argument :: rest =>
    match ArgumentForm.of argument with
    | .endOfOptions => .misplaced
    | .short 'V' | .long "version" none => .version
    | .short 'h' | .long "help" none => .help none
    | .short _ => .misplaced
    | .long name (some value) =>
      if name = "handler" ∧ handler.isNone then readOpening (some value) rest else .misplaced
    | .long name none =>
      match rest with
      | [] => .misplaced
      | value :: rest =>
        if name = "handler" ∧ handler.isNone ∧ !looksLikeOption value then
          readOpening (some value) rest
        else .misplaced
    | .plain =>
      match Action.ofName? argument with
      | some action => .complete { handler, action, rest }
      | none => if argument = "help" then readTopic rest else .misplaced

/-- A complete command line. -/
structure Command where
  action : Action
  handler : Option String
  given : Given
  deriving DecidableEq, Repr

/-- The value of an option: as given, or from the environment. -/
def Command.option? (c : Command) (environment : List (String × String)) (name : String) :
    Option String :=
  let fromEnvironment := do
    let option ← (usage c.action).allOptions.find? (·.name == name)
    environment.lookup (← option.environment)
  match c.given.options.lookup name with
  | some value => some value
  | none => if name = "handler" then c.handler.orElse fun _ => fromEnvironment else fromEnvironment

/-- What a whole command line comes to: a command, a request answered with text, or an argument out
of place. -/
inductive Request where
  | misplaced
  | help (action : Option Action)
  | version (action : Option Action)
  | command (c : Command)
  deriving DecidableEq, Repr

/-- Read a command line. -/
def read (arguments : List String) : Request :=
  match readOpening none arguments with
  | .misplaced => .misplaced
  | .help action => .help action
  | .version => .version none
  | .complete opening =>
    match readAction opening.action {} opening.rest with
    | .misplaced => .misplaced
    | .help action => .help action
    | .version => .version (some opening.action)
    | .complete given =>
      if (usage opening.action).payload.needed && given.payload.isNone then .misplaced
      else .command { action := opening.action, handler := opening.handler, given }

end CommandLine

end CallDispatch
