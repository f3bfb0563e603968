import CallDispatch.Job.Payload
import CallDispatch.Text.Base64
import CallDispatch.Text.Blank

/-!
# Payloads as text

A payload travels as a JSON object: the known fields in a fixed order, the optional ones only if
present, and then the uninterpreted members in the order of their keys. On a command line that text
is wrapped in base64.

Reading goes along with the text. A command line that first reads a value of any shape and then
looks at its members finds the same payload.
-/

namespace CallDispatch

open Json (Decoded Document Record Row fill optionalMember require)

/-- The JSON array of a byte range. -/
def ByteSpan.json (r : ByteSpan) : Json :=
  .array [.number (.nat r.first), .number (.nat r.last)]

/-- Take the two ends of a byte range from a row. -/
def ByteSpan.row (r : Row) : Decoded (ByteSpan × Row) := do
  let expected := "tuple struct ByteRange with 2 elements"
  let (first, r) ← r.next expected (·.word "u64")
  let (last, r) ← r.next expected (·.word "u64")
  pure (⟨first, last⟩, r)

/-- A byte range: an array of two numbers. -/
def ByteSpan.decode : Document → Decoded ByteSpan
  | .array items stop => do
    let (range, rest) ← ByteSpan.row { items, stop }
    rest.finish .direct
    pure range
  | d => .error (d.flaw "tuple struct ByteRange")

namespace Payload

/-- The members of the known fields, in order. -/
def knownMembers (p : Payload) : List (String × Json) :=
  [("executor_id", .text p.executorId),
    ("job_id", .text p.jobId),
    ("job_key", .text p.jobKeyField),
    ("total_calls", .number (.nat p.totalCalls)),
    ("call_ids", .array (p.callIds.map .text)),
    ("data_byte_ranges", .array (p.byteRanges.map ByteSpan.json)),
    ("chunksize", .number (.nat p.chunkSize)),
    ("worker_processes", .number (.nat p.workerProcesses))] ++
  optionalMember "activation_id" p.activationId ++
  optionalMember "log_level" p.logLevel

/-- The JSON object of a payload. -/
def json (p : Payload) : Json :=
  .object (p.knownMembers ++ p.extra)

/-- The names of the known fields. -/
def fieldNames : List String :=
  ["executor_id", "job_id", "job_key", "total_calls", "call_ids", "data_byte_ranges", "chunksize",
    "worker_processes", "activation_id", "log_level"]

/-- A payload while its members are being read. -/
structure Draft where
  executorId : Option String := none
  jobId : Option String := none
  jobKeyField : Option String := none
  totalCalls : Option Nat := none
  callIds : Option (List String) := none
  byteRanges : Option (List ByteSpan) := none
  chunkSize : Option Nat := none
  workerProcesses : Option Nat := none
  activationId : Option (Option String) := none
  logLevel : Option (Option String) := none
  extra : List (String × Json) := []

/-- Read one member. A known field may come once; of several others with one name the last counts.
-/
def Draft.put (d : Draft) (key : String) (value : Document) : Decoded Draft :=
  match key with
  | "executor_id" => do pure { d with executorId := ← fill key d.executorId (·.string) value }
  | "job_id" => do pure { d with jobId := ← fill key d.jobId (·.string) value }
  | "job_key" => do pure { d with jobKeyField := ← fill key d.jobKeyField (·.string) value }
  | "total_calls" => do pure { d with totalCalls := ← fill key d.totalCalls (·.word "usize") value }
  | "call_ids" => do
    pure { d with callIds := ← fill key d.callIds (·.list (·.string)) value }
  | "data_byte_ranges" => do
    pure { d with byteRanges := ← fill key d.byteRanges (·.list ByteSpan.decode) value }
  | "chunksize" => do pure { d with chunkSize := ← fill key d.chunkSize (·.word "usize") value }
  | "worker_processes" => do
    pure { d with workerProcesses := ← fill key d.workerProcesses (·.word "usize") value }
  | "activation_id" => do
    pure { d with activationId := ← fill key d.activationId (·.optional (·.string)) value }
  | "log_level" => do
    pure { d with logLevel := ← fill key d.logLevel (·.optional (·.string)) value }
  | _ => do
    let value ← value.value (Json.maxDepth - 1)
    pure { d with extra := Keyed.put key value d.extra }

/-- The payload of a draft, if no required field is missing. -/
def Draft.close (d : Draft) : Decoded Payload := do
  let executorId ← require "executor_id" d.executorId
  let jobId ← require "job_id" d.jobId
  let totalCalls ← require "total_calls" d.totalCalls
  let callIds ← require "call_ids" d.callIds
  pure {
    executorId, jobId, totalCalls, callIds
    jobKeyField := d.jobKeyField.getD ""
    byteRanges := d.byteRanges.getD []
    chunkSize := d.chunkSize.getD 1
    workerProcesses := d.workerProcesses.getD 1
    activationId := d.activationId.getD none
    logLevel := d.logLevel.getD none
    extra := d.extra }

/-- A payload: an object, as its uninterpreted members have no place in an array. -/
def decode : Document → Decoded Payload
  | .object members stop => do
    let draft ← Json.foldMembers Draft.put {} members
    stop.check
    draft.close
  | .oddObject _ => .error .malformed
  | d => .error (d.flaw "struct JobPayload")

/-- Read a payload from bytes of JSON text. -/
def ofBytes (bytes : List UInt8) : Decoded Payload :=
  Json.decodeBytes decode bytes

end Payload

/-- Unwrap base64 with blanks around it and decode the JSON text inside. -/
def decodeWrapped (decoder : Document → Decoded α) (encoded : String) : Outcome α :=
  match Text.Base64.decode (Text.trim encoded.toList) with
  | none => .error (.payload .invalidBase64)
  | some bytes => (Json.decodeBytes decoder bytes).mapError .decode

/-- The base64 of a value's JSON text. -/
def encodeWrapped (value : Json) : String :=
  String.ofList (Text.Base64.encode (Text.Utf8.encode value.render))

namespace Payload

/-- The payload of a wrapped text. -/
def unwrap (encoded : String) : Outcome Payload :=
  decodeWrapped decode encoded

/-- A payload as wrapped text. -/
def wrap (p : Payload) : String :=
  encodeWrapped p.json

/-- The payload found in a value of any shape. -/
def ofValue (value : Json) : Decoded Payload :=
  decode value.document

end Payload

end CallDispatch
