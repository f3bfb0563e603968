import CallDispatch.Job.Payload

/-!
# What is known about a call

A call is named by its executor, its job and its own identifier. When it finishes it leaves a
status, and if it succeeds it may leave an output: a value, or the names of further calls it
dispatched.
-/

namespace CallDispatch

open Json (Decoded Document Record Row Origin fill optionalMember require)

/-- The name of a call. -/
structure CallName where
  executorId : String
  jobId : String
  callId : String
  deriving DecidableEq, Repr

/-- What a call leaves behind when it finishes. -/
structure StatusRecord where
  success : Bool
  error : Option String := none
  activationId : Option String := none
  deriving DecidableEq, Repr

/-- What a successful call produced. -/
inductive OutputRecord where
  | value (v : Json)
  | calls (keys : List CallName)
  deriving Repr

namespace CallName

/-- The joined key of the call's job. -/
def jobKey (k : CallName) : String := joinedJobKey k.executorId k.jobId

/-- The name as messages show it. -/
def text (k : CallName) : String := k.executorId ++ "/" ++ k.jobId ++ "/" ++ k.callId

/-- The JSON object of a name. -/
def json (k : CallName) : Json :=
  .object [("executor_id", .text k.executorId), ("job_id", .text k.jobId),
    ("call_id", .text k.callId)]

/-- A name while it is being read. -/
structure Draft where
  executorId : Option String := none
  jobId : Option String := none
  callId : Option String := none

/-- Read one member of a name. -/
def Draft.put (d : Draft) (key : String) (value : Document) : Decoded Draft :=
  match key with
  | "executor_id" => do pure { d with executorId := ← fill key d.executorId (·.string) value }
  | "job_id" => do pure { d with jobId := ← fill key d.jobId (·.string) value }
  | "call_id" => do pure { d with callId := ← fill key d.callId (·.string) value }
  | _ => do value.skip; pure d

/-- How a name is decoded. -/
def record : Record Draft CallName where
  name := "struct CallKey"
  draft := {}
  put := Draft.put
  close d := do
    let executorId ← require "executor_id" d.executorId
    let jobId ← require "job_id" d.jobId
    let callId ← require "call_id" d.callId
    pure { executorId, jobId, callId }
  row r := do
    let expected := "struct CallKey with 3 elements"
    let (executorId, r) ← r.next expected (·.string)
    let (jobId, r) ← r.next expected (·.string)
    let (callId, r) ← r.next expected (·.string)
    pure ({ executorId, jobId, callId }, r)

/-- Read a name. -/
def decode (origin : Origin) : Document → Decoded CallName :=
  Document.record origin record

end CallName

namespace StatusRecord

/-- The status of a call that succeeded. -/
def ok : StatusRecord := { success := true }

/-- The status of a call that failed. -/
def failure (error : String) : StatusRecord := { success := false, error := some error }

/-- The JSON object of a status. -/
def json (s : StatusRecord) : Json :=
  .object ([("success", .bool s.success)] ++ optionalMember "error" s.error ++
    optionalMember "activation_id" s.activationId)

/-- A status while it is being read. -/
structure Draft where
  success : Option Bool := none
  error : Option (Option String) := none
  activationId : Option (Option String) := none

/-- Read one member of a status. -/
def Draft.put (d : Draft) (key : String) (value : Document) : Decoded Draft :=
  match key with
  | "success" => do pure { d with success := ← fill key d.success (·.boolean) value }
  | "error" => do pure { d with error := ← fill key d.error (·.optional (·.string)) value }
  | "activation_id" => do
    pure { d with activationId := ← fill key d.activationId (·.optional (·.string)) value }
  | _ => do value.skip; pure d

/-- How a status is decoded. -/
def record : Record Draft StatusRecord where
  name := "struct CallStatus"
  draft := {}
  put := Draft.put
  close d := do
    let success ← require "success" d.success
    pure { success, error := d.error.getD none, activationId := d.activationId.getD none }
  row r := do
    let (success, r) ← r.next "struct CallStatus with 3 elements" (·.boolean)
    let (error, r) ← r.nextOr none (·.optional (·.string))
    let (activationId, r) ← r.nextOr none (·.optional (·.string))
    pure ({ success, error, activationId }, r)

/-- Read a status. -/
def decode (origin : Origin) : Document → Decoded StatusRecord :=
  Document.record origin record

end StatusRecord

namespace OutputRecord

/-- The two kinds of output. -/
inductive Kind where
  | value
  | futures
  deriving DecidableEq, Repr

/-- The JSON object of an output: its kind beside its data. -/
def json : OutputRecord → Json
  | .value v => .object [("kind", .text "value"), ("data", v)]
  | .calls keys => .object [("kind", .text "futures"), ("data", .array (keys.map CallName.json))]

/-- Read a kind. -/
def Kind.decode (origin : Origin) : Document → Decoded Kind :=
  Document.variant origin fun name contents =>
    match name with
    | "value" => Json.bareVariant .value contents
    | "futures" => Json.bareVariant .futures contents
    | _ => .error (.mismatch (.unknownVariant name "value" "futures"))

/-- Read data of a known kind. -/
def Kind.output (origin : Origin) (kind : Kind) (data : Document) : Decoded OutputRecord :=
  match kind with
  | .value => do pure (.value (← data.value (Json.maxDepth - 1)))
  | .futures => do pure (.calls (← data.list (CallName.decode origin)))

/-- An output while it is being read. Data that comes before its kind is set aside. -/
inductive Draft where
  | empty
  | kind (kind : Kind)
  | data (data : Document)
  | both (output : OutputRecord)

/-- Read one member of an output. -/
def Draft.put (origin : Origin) (d : Draft) (key : String) (value : Document) : Decoded Draft :=
  match key, d with
  | "kind", .empty => do pure (.kind (← Kind.decode origin value))
  | "kind", .data held => do
    let kind ← Kind.decode origin value
    pure (.both (← kind.output .setAside held))
  | "kind", _ => .error (.mismatch (.duplicateField "kind"))
  | "data", .empty => do
    let _ ← value.value (Json.maxDepth - 1)
    pure (.data value)
  | "data", .kind known => do pure (.both (← known.output origin value))
  | "data", _ => .error (.mismatch (.duplicateField "data"))
  | _, _ => do value.skip; pure d

/-- How an output is decoded. -/
def record (origin : Origin) : Record Draft OutputRecord where
  name := "adjacently tagged enum CallOutput"
  draft := .empty
  put := Draft.put origin
  close
    | .both output => .ok output
    | .kind _ => .error (.mismatch (.missingField "data"))
    | _ => .error (.mismatch (.missingField "kind"))
  row r := do
    let expected := "adjacently tagged enum CallOutput"
    let (kind, r) ← r.next expected (Kind.decode origin)
    r.next expected (kind.output origin)

/-- Read an output. -/
def decode (origin : Origin) : Document → Decoded OutputRecord :=
  Document.record origin (record origin)

end OutputRecord

end CallDispatch
