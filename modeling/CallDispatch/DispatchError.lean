import CallDispatch.Json.Decode

/-!
# Errors

Every way in which handing out, running or awaiting calls can fail, by its cause, with the message
shown to people. A request for work that failed in a *transient* way may simply be sent again.
-/

namespace CallDispatch

/-- An argument no operation can work with. -/
inductive Misuse where
  | zeroChunkSize
  | emptyCluster
  | malformedRange (text : String)
  | queueTaken (queue : String)
  | badMasterUrl (url reason : String)
  | pathlessMasterUrl (url : String)
  | other (detail : String)
  deriving DecidableEq, Repr

/-- A payload that cannot be read or does not have the calls asked for. -/
inductive PayloadFault where
  | invalidBase64
  | windowOutOfBounds (start stop calls : Nat)
  | indexOutOfBounds (index calls : Nat)
  | noRangeForIndex (index : Nat)
  | callIdNotNumeric (callId : String)
  | noRangeForCall (callId : String)
  | other (detail : String)
  deriving DecidableEq, Repr

/-- Why an operation failed. -/
inductive DispatchError where
  | invalidArgument (m : Misuse)
  | decode (f : Json.Flaw)
  | payload (p : PayloadFault)
  | http (status : Option Nat) (transient : Bool)
  | broker
  | storage (detail : String)
  | callFailed (call detail : String)
  | timeout (milliseconds : Nat)
  | cancelled (notDone : Nat)
  | shutdown
  | io (detail : String)
  deriving DecidableEq, Repr

/-- The message of a misuse. -/
def Misuse.message : Misuse → String
  | .zeroChunkSize => "chunk_size must be > 0"
  | .emptyCluster => "num_cpus_cluster must be > 0"
  | .malformedRange text => "malformed range " ++ Text.quoted text
  | .queueTaken queue => "queue " ++ queue ++ " already has a consumer"
  | .badMasterUrl url reason => "master url " ++ url ++ ": " ++ reason
  | .pathlessMasterUrl url => "master url " ++ url ++ " cannot have a path"
  | .other detail => detail

/-- The message of a payload fault. -/
def PayloadFault.message : PayloadFault → String
  | .invalidBase64 => "invalid base64"
  | .windowOutOfBounds start stop calls =>
    "range " ++ Text.Decimal.text start ++ "-" ++ Text.Decimal.text stop ++
      " out of bounds for " ++ Text.Decimal.text calls ++ " call ids"
  | .indexOutOfBounds index calls =>
    "call index " ++ Text.Decimal.text index ++ " out of bounds for " ++
      Text.Decimal.text calls ++ " call ids"
  | .noRangeForIndex index => "no data byte range for call index " ++ Text.Decimal.text index
  | .callIdNotNumeric callId => "call id " ++ Text.quoted callId ++ " is not numeric"
  | .noRangeForCall callId => "no data byte range for call " ++ callId
  | .other detail => detail

/-- The message of a flaw in a JSON text. -/
def Json.Flaw.message : Json.Flaw → String
  | .malformed => "malformed text"
  | .truncated => "text ends too early"
  | .mismatch m => m.message

namespace DispatchError

/-- The message of an error. A timeout is told in whole seconds. -/
def message : DispatchError → String
  | .invalidArgument m => "Invalid argument: " ++ m.message
  | .decode f => "Decode error: " ++ f.message
  | .payload p => "Invalid payload: " ++ p.message
  | .http (some status) _ => "HTTP error: status " ++ Text.Decimal.text status
  | .http none _ => "HTTP error: no answer"
  | .broker => "Broker error"
  | .storage detail => "Storage error: " ++ detail
  | .callFailed call detail => "Call " ++ call ++ " failed: " ++ detail
  | .timeout milliseconds =>
    "Timeout of " ++ Text.Decimal.text (milliseconds / 1000) ++
      " seconds exceeded waiting for function activations to finish"
  | .cancelled notDone =>
    "Cancelled - Total activations not done: " ++ Text.Decimal.text notDone
  | .shutdown => "Shutdown requested"
  | .io detail => "IO error: " ++ detail

/-- Whether a request for work that failed this way may simply be sent again. -/
def isTransient : DispatchError → Bool
  | .http _ transient => transient
  | .io _ => true
  | _ => false

end DispatchError

/-- The outcome of an operation that can fail. -/
abbrev Outcome (α : Type) := Except DispatchError α

/-- What was done before a step that returned has returned as well. -/
theorem of_bind_eq_ok {x : Except ε α} {k : α → Except ε β} {b : β} (ok : x >>= k = .ok b) :
    ∃ a, x = .ok a ∧ k a = .ok b := by
  cases x with
  | error e => cases ok
  | ok a => exact ⟨a, rfl, ok⟩

end CallDispatch
