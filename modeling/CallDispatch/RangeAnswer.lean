import CallDispatch.DispatchError
import CallDispatch.Text.Blank

/-!
# Ranges of calls

The answer to a request for work is a half-open span of call positions, or the word that there is no
more. Its text is what the master sends and a worker reads back: `start-stop`, or `-1`. The text of
a span that runs backwards is never accepted.
-/

namespace CallDispatch

open Json (Decoded Document Record Row fill require)

/-- The answer to a request for work. -/
inductive RangeAnswer where
  | span (start stop : Nat)
  | exhausted
  deriving DecidableEq, Repr

namespace RangeAnswer

/-- How many calls the answer hands out. -/
def length : RangeAnswer → Nat
  | .span start stop => stop - start
  | .exhausted => 0

/-- Whether the answer hands out no call. -/
def isEmpty (r : RangeAnswer) : Bool := r.length == 0

/-- Whether the answer says that there is no more work. -/
def isExhausted : RangeAnswer → Bool
  | .exhausted => true
  | .span .. => false

/-- The characters of an answer. -/
def render : RangeAnswer → List Char
  | .span start stop => Text.Decimal.ofNat start ++ '-' :: Text.Decimal.ofNat stop
  | .exhausted => ['-', '1']

/-- The text of an answer. -/
def text (r : RangeAnswer) : String := String.ofList r.render

/-- The two sides of the first dash. -/
def splitDash : List Char → Option (List Char × List Char)
  | [] => none
  | '-' :: rest => some ([], rest)
  | c :: rest => (splitDash rest).map fun (before, after) => (c :: before, after)

/-- The answer a text without outer blanks stands for. -/
def parse? (s : List Char) : Option RangeAnswer :=
  if s = ['-', '1'] then some .exhausted
  else do
    let (before, after) ← splitDash s
    let start ← Text.Decimal.readWord before
    let stop ← Text.Decimal.readWord after
    if start ≤ stop then some (.span start stop) else none

/-- Read an answer, with blanks around it allowed. -/
def ofText (s : String) : Outcome RangeAnswer :=
  let trimmed := Text.trim s.toList
  match parse? trimmed with
  | some r => .ok r
  | none => .error (.invalidArgument (.malformedRange (String.ofList trimmed)))

/-! ## Record form -/

/-- The JSON form of an answer. -/
def json : RangeAnswer → Json
  | .span start stop =>
    .object [("Span", .object [("start", .number (.nat start)), ("end", .number (.nat stop))])]
  | .exhausted => .text "Exhausted"

end RangeAnswer

/-- Two numbers named `start` and `end`, while they are being read. -/
structure BoundsDraft where
  start : Option Nat := none
  stop : Option Nat := none

/-- Read one of the members `start` and `end`; `type` names their type. -/
def BoundsDraft.put (type : String) (d : BoundsDraft) (key : String) (value : Document) :
    Decoded BoundsDraft :=
  match key with
  | "start" => do pure { d with start := ← fill key d.start (·.word type) value }
  | "end" => do pure { d with stop := ← fill key d.stop (·.word type) value }
  | _ => do value.skip; pure d

/-- A record of two numbers named `start` and `end`. -/
def boundsRecord (name type : String) (make : Nat → Nat → α) : Record BoundsDraft α where
  name := name
  draft := {}
  put := BoundsDraft.put type
  close d := do
    let start ← require "start" d.start
    let stop ← require "end" d.stop
    pure (make start stop)
  row r := do
    let (start, r) ← r.next (name ++ " with 2 elements") (·.word type)
    let (stop, r) ← r.next (name ++ " with 2 elements") (·.word type)
    pure (make start stop, r)

namespace RangeAnswer

/-- Read an answer from its JSON form. -/
def decode : Document → Decoded RangeAnswer :=
  Document.variant .direct fun name contents =>
    match name with
    | "Span" =>
      match contents with
      | none => .error (.mismatch (.invalidType .unitVariant "struct variant"))
      | some d => d.record .direct (boundsRecord "struct variant RangeSpec::Span" "u64" .span)
    | "Exhausted" => Json.bareVariant .exhausted contents
    | _ => .error (.mismatch (.unknownVariant name "Span" "Exhausted"))

end RangeAnswer

end CallDispatch
