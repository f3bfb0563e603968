import CallDispatch.Job.Payload

/-!
# Invocations

A handler runs the calls of a payload in one invocation and reports how it went. Whoever handed it
the calls only looks at the status.
-/

namespace CallDispatch

open Json (Decoded Document)

/-- How an invocation ended. -/
inductive InvocationEnd where
  | completed
  | failed
  deriving DecidableEq, Repr

namespace InvocationEnd

/-- The JSON text of a status. -/
def json : InvocationEnd → Json
  | .completed => .text "Completed"
  | .failed => .text "Failed"

/-- The status as people read it. -/
def text : InvocationEnd → String
  | .completed => "completed"
  | .failed => "failed"

/-- Read a status. -/
def decode : Document → Decoded InvocationEnd :=
  Document.variant .direct fun name contents =>
    match name with
    | "Completed" => Json.bareVariant .completed contents
    | "Failed" => Json.bareVariant .failed contents
    | _ => .error (.mismatch (.unknownVariant name "Completed" "Failed"))

end InvocationEnd

/-- What a handler reports of one invocation. -/
structure InvocationRecord where
  jobKey : String
  callIds : List String
  activationId : Option String
  status : InvocationEnd
  exitCode : Option Int := none
  output : Option String := none
  error : Option String := none
  deriving Repr

end CallDispatch
