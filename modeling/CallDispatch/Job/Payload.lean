import CallDispatch.DispatchError

/-!
# Job payloads

A payload describes a job: who submitted it, how many calls it has, the identifiers of those calls
and, if the job reads a data object, the bytes each call reads. Two ways of cutting a payload down
to some of its calls serve the two dispatch models: a *window* of consecutive positions, whose byte
ranges are looked up by the numeric value of each call identifier, and a *single call*, whose byte
range is looked up by position.
-/

namespace CallDispatch

/-- The first and last byte of one call's input inside the submitted data object. -/
structure ByteSpan where
  first : Nat
  last : Nat
  deriving DecidableEq, Repr

/-- A job as shipped to workers. Members the dispatch layer does not interpret are kept in `extra`,
sorted by key. -/
structure Payload where
  executorId : String
  jobId : String
  jobKeyField : String := ""
  totalCalls : Nat
  callIds : List String
  byteRanges : List ByteSpan := []
  chunkSize : Nat := 1
  workerProcesses : Nat := 1
  activationId : Option String := none
  logLevel : Option String := none
  extra : List (String × Json) := []
  deriving BEq, Repr

/-- The key that joins an executor and a job. -/
def joinedJobKey (executorId jobId : String) : String :=
  executorId ++ "-" ++ jobId

namespace Payload

/-- The identifier of the call at a position: at least five digits. -/
def callIdAt (index : Nat) : String :=
  String.ofList (Text.Decimal.padded 5 index)

/-- A payload of `calls` numbered calls without input data. -/
def numbered (executorId jobId : String) (calls : Nat) : Payload where
  executorId := executorId
  jobId := jobId
  jobKeyField := joinedJobKey executorId jobId
  totalCalls := calls
  callIds := (List.range calls).map callIdAt

/-- The job key: the one given, or the joined one if none is. -/
def jobKey (p : Payload) : String :=
  if p.jobKeyField.isEmpty then joinedJobKey p.executorId p.jobId else p.jobKeyField

/-- How many calls a worker asks for at once: enough to keep each of its processes busy. -/
def requestSize (p : Payload) : Nat :=
  max (max p.workerProcesses p.chunkSize) 1

/-- The byte range of a call, at the position its identifier writes. -/
def byteRangeOf (p : Payload) (callId : String) : Outcome ByteSpan :=
  match Text.Decimal.readWord callId.toList with
  | none => .error (.payload (.callIdNotNumeric callId))
  | some index =>
    match p.byteRanges[index]? with
    | some range => .ok range
    | none => .error (.payload (.noRangeForCall callId))

/-- The byte ranges of calls, each looked up by its identifier. -/
def byteRangesOf (p : Payload) : List String → Outcome (List ByteSpan)
  | [] => .ok []
  | callId :: rest => do
    let range ← p.byteRangeOf callId
    let ranges ← p.byteRangesOf rest
    pure (range :: ranges)

/-- The payload cut down to the calls at positions `start` up to but not including `stop`. -/
def window (p : Payload) (start stop : Nat) : Outcome Payload :=
  if start ≤ stop ∧ stop ≤ p.callIds.length then do
    let callIds := (p.callIds.drop start).take (stop - start)
    let byteRanges ← if p.byteRanges.isEmpty then pure [] else p.byteRangesOf callIds
    pure { p with callIds, byteRanges }
  else .error (.payload (.windowOutOfBounds start stop p.callIds.length))

/-- The payload cut down to the call at one position. -/
def single (p : Payload) (index : Nat) : Outcome Payload :=
  match p.callIds[index]? with
  | none => .error (.payload (.indexOutOfBounds index p.callIds.length))
  | some callId =>
    if p.byteRanges.isEmpty then .ok { p with callIds := [callId], byteRanges := [] }
    else match p.byteRanges[index]? with
      | some range => .ok { p with callIds := [callId], byteRanges := [range] }
      | none => .error (.payload (.noRangeForIndex index))

/-- The payload under an activation identifier. -/
def withActivation (p : Payload) (activationId : String) : Payload :=
  { p with activationId := some activationId }

/-- Set an uninterpreted member. -/
def setExtra (p : Payload) (key : String) (value : Json) : Payload :=
  { p with extra := Keyed.put key value p.extra }

end Payload

end CallDispatch
