import CallDispatch.CommandLine.Usage
import CallDispatch.Text.Quoted

/-!
# Help

Help is laid out in sections of two columns, the second two blanks to the right of the longest entry
of the first. What stands in for an option is told with its present value, and a default that has
blanks in it is quoted.
-/

namespace CallDispatch

namespace CommandLine

open Program (Action)

/-- Rows of two columns, one to a line. -/
def columns (rows : List (String × String)) : String :=
  let width := rows.foldl (fun w row => max w row.1.length) 0 + 2
  String.join (rows.map fun (left, right) =>
    left ++ String.ofList (List.replicate (width - left.length) ' ') ++ right ++ "\n")

/-- A section: its title and its rows. -/
def titled (title : String) (rows : List (String × String)) : String :=
  "\n" ++ title ++ ":\n" ++ columns rows

/-- The word that stands for the value of an option. -/
def OptionUsage.placeholder (o : OptionUsage) : String :=
  "<" ++ o.name.map (fun c => if c = '-' then '_' else c.toUpper) ++ ">"

/-- A default as help shows it. -/
def shownDefault (s : String) : String :=
  if s.toList.any Text.isBlank then Text.quoted s else s

/-- What help says about an option. -/
def OptionUsage.row (environment : List (String × String)) (o : OptionUsage) : String × String :=
  let standIn := match o.environment with
    | some name => " [env: " ++ name ++ "=" ++ (environment.lookup name).getD "" ++ "]"
    | none => ""
  let fallback := match o.default with
    | some value => " [default: " ++ shownDefault value ++ "]"
    | none => ""
  ("      --" ++ o.name ++ " " ++ o.placeholder, o.description ++ standIn ++ fallback)

/-- The options that every help lists last. -/
def flagRows : List (String × String) :=
  [("  -h, --help", "Print help"), ("  -V, --version", "Print version")]

/-- Help about the program. -/
def programHelp (environment : List (String × String)) : String :=
  Program.description ++ "\n\nUsage: " ++ Program.title ++ " [OPTIONS] <COMMAND>\n" ++
    titled "Commands"
      (Action.all.map (fun a => ("  " ++ a.name, (usage a).description)) ++
        [("  help", "Print this message or the help of the given subcommand(s)")]) ++
    titled "Options" (handlerOption.row environment :: flagRows)

/-- Help about an action. -/
def actionHelp (environment : List (String × String)) (action : Action) : String :=
  let u := usage action
  let payload := if u.payload.needed then "<PAYLOAD>" else "[PAYLOAD]"
  u.description ++ "\n\nUsage: " ++ Program.title ++ " " ++ action.name ++ " [OPTIONS] " ++
    payload ++ "\n" ++
    titled "Arguments" [("  " ++ payload, u.payload.description)] ++
    titled "Options" (u.allOptions.map (·.row environment) ++ flagRows)

/-- Help about an action, or about the program. -/
def helpText (environment : List (String × String)) : Option Action → String
  | some action => actionHelp environment action
  | none => programHelp environment

end CommandLine

end CallDispatch
