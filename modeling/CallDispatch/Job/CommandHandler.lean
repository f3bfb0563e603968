import CallDispatch.Settings
import CallDispatch.Job.Invocation
import CallDispatch.Job.Wire
import CallDispatch.Shell.Evaluation

/-!
# Handlers that run a command

Every invocation is a shell of its own. It finds the payload as JSON on its input and what
identifies the invocation in its environment, and its exit status decides whether the invocation
failed. What it wrote to its messages is then the error.

Which shell that is, is not up to the handler: it takes any, and its reports make sense whatever the
shell does.
-/

namespace CallDispatch

namespace CommandHandler

/-- The environment of an invocation: the handler's own additions, and what identifies the
invocation, which wins. -/
def environment (c : HandlerSettings) (p : Payload) : List (String × String) :=
  let own := [("BATCH_JOB_KEY", p.jobKey), ("BATCH_CALL_IDS", ",".intercalate p.callIds),
    ("BATCH_ACTIVATION_ID", p.activationId.getD "")]
  own ++ c.env.filter fun (name, _) => own.all (·.1 != name)

/-- Whether a text has a character no argument or environment can hold. -/
def hasNul (s : String) : Bool := s.toList.any (·.toNat = 0)

/-- Bytes as text, ill-formed pieces replaced. -/
def textOf (bytes : List UInt8) : String :=
  String.ofList (Text.Utf8.shown (Text.Utf8.decode bytes))

/-- A text that counts only if there is some. -/
def nonempty? (s : String) : Option String := if s.isEmpty then none else some s

/-- The exit code of a shell: one that was killed has none. -/
def exitCode? : Shell.Ending → Option Int
  | .killed => none
  | .status code => some code

/-- The error of a failed invocation that wrote no message. -/
def exitMessage (code : Option Int) : String :=
  match code with
  | some code => "Exit code: Some(" ++ String.ofList (Shell.integerText code) ++ ")"
  | none => "Exit code: None"

/-- The report on a shell that ran. -/
def report (p : Payload) (r : Shell.Result) : InvocationRecord :=
  let exitCode := exitCode? r.ending
  let succeeded := exitCode = some 0
  { jobKey := p.jobKey
    callIds := p.callIds
    activationId := p.activationId
    status := if succeeded then .completed else .failed
    exitCode := exitCode
    output := nonempty? (textOf r.out)
    error :=
      if succeeded then none else some ((nonempty? (textOf r.err)).getD (exitMessage exitCode)) }

/-- The report on a shell that could not be started. -/
def notStarted (p : Payload) (message : String) : InvocationRecord where
  jobKey := p.jobKey
  callIds := p.callIds
  activationId := p.activationId
  status := .failed
  error := some message

/-- Run the calls of a payload in a shell, which gets the command, an environment and its input. -/
def handle (c : HandlerSettings) (p : Payload)
    (shell : String → List (String × String) → List UInt8 → Shell.Result := Shell.execute) :
    InvocationRecord :=
  let env := environment c p
  if hasNul c.command || env.any fun (name, value) => hasNul name || hasNul value then
    notStarted p "nul byte found in provided data"
  else report p (shell c.command env (Text.Utf8.encode p.json.render))

/-- A report is about the calls of the payload. It has them completed just if there is an exit code
and this is zero, and it has an error just if it does not. -/
theorem handle_reports (c : HandlerSettings) (p : Payload)
    (shell : String → List (String × String) → List UInt8 → Shell.Result) :
    let r := handle c p shell
    r.jobKey = p.jobKey ∧ r.callIds = p.callIds ∧ r.activationId = p.activationId ∧
      (r.status = .completed ↔ r.exitCode = some 0) ∧
      (r.error = none ↔ r.status = .completed) := by
  dsimp only [handle]
  split
  · exact ⟨rfl, rfl, rfl, by simp [notStarted], by simp [notStarted]⟩
  · exact ⟨rfl, rfl, rfl, by simp [report], by simp [report]⟩

end CommandHandler

end CallDispatch
