import CallDispatch.Master.Allocator
import CallDispatch.Text.Pieces
import CallDispatch.Web.Percent

/-!
# The service of a master

A master hands out ranges under `/get-range/job/total/chunk` and lists its cursors under
`/api/allocations`. A path is cut into segments before its escapes are resolved, so an escaped slash
stays inside a segment. Only a request that is answered with success moves a cursor.
-/

namespace CallDispatch

namespace Master

/-- Why the segments of a request are refused: one is no text, or no number. Positions count from
zero. -/
inductive SegmentFault where
  | notText (name : String)
  | notNumber (position : Nat) (value : String)
  deriving DecidableEq, Repr

/-- The message of a refusal. -/
def SegmentFault.message : SegmentFault → String
  | .notText name => "Invalid URL: Invalid UTF-8 in `" ++ name ++ "`"
  | .notNumber position value =>
    "Invalid URL: Cannot parse value at index " ++ Text.Decimal.text position ++ " with value `" ++
      Text.quoted value ++ "` to a `u64`"

/-- What a path leads to. -/
inductive Route where
  | range (jobKey total chunk : List Char)
  | listing
  deriving DecidableEq, Repr

/-- The body of an answer: a text, or the cursors. -/
inductive Body where
  | text (s : String)
  | listing (cursors : List (String × Nat))
  deriving DecidableEq, Repr

/-- An answer. -/
structure Response where
  status : Nat
  contentType : Option String := none
  body : Body := .text ""
  deriving DecidableEq, Repr

/-- A plain text as answer. -/
def plain (status : Nat) (s : String) : Response where
  status := status
  contentType := some "text/plain; charset=utf-8"
  body := .text s

/-- The path of a request target: no scheme and host, no query, no fragment. -/
def targetPath (target : List Char) : List Char :=
  let path := target.takeWhile fun c => c ≠ '?' ∧ c ≠ '#'
  match path.span (· ≠ ':') with
  | (_, ':' :: '/' :: '/' :: rest) =>
    if path.head? = some '/' then path else rest.dropWhile (· ≠ '/')
  | _ => path

/-- What a path leads to, by its pieces between slashes. Only the last must not be empty. -/
def route? (path : List Char) : Option Route :=
  match Text.splitAt '/' path with
  | [[], name, jobKey, total, chunk] =>
    if name = "get-range".toList ∧ chunk ≠ [] then some (.range jobKey total chunk) else none
  | [[], api, name] =>
    if api = "api".toList ∧ name = "allocations".toList then some .listing else none
  | _ => none

/-- The text of a segment. -/
def segmentText (name : String) (segment : List Char) : Except SegmentFault (List Char) :=
  match Text.Utf8.characters? (Text.Utf8.decode (Web.Percent.decode segment)) with
  | some s => .ok s
  | none => .error (.notText name)

/-- The number a segment writes. -/
def segmentNumber (position : Nat) (s : List Char) : Except SegmentFault Nat :=
  match Text.Decimal.readWord s with
  | some n => .ok n
  | none => .error (.notNumber position (String.ofList s))

/-- The job key, the number of calls and the chunk size a request names. -/
def readRange (jobKey total chunk : List Char) : Except SegmentFault (String × Nat × Nat) := do
  let jobKey ← segmentText "job_key" jobKey
  let total ← segmentText "total_calls" total
  let chunk ← segmentText "chunk_size" chunk
  pure (String.ofList jobKey, ← segmentNumber 1 total, ← segmentNumber 2 chunk)

/-- Answer a request for a range. -/
def answerRange (a : Allocator) (jobKey : String) (total chunk : Nat) : Response × Allocator :=
  match a.request jobKey total chunk with
  | (.ok range, a) => (plain 200 range.text, a)
  | (.error e, a) => (plain 400 e.message, a)

/-- Follow a route. -/
def follow (a : Allocator) : Route → Response × Allocator
  | .range jobKey total chunk =>
    match readRange jobKey total chunk with
    | .ok (jobKey, total, chunk) => answerRange a jobKey total chunk
    | .error fault => (plain 400 fault.message, a)
  | .listing =>
    ({ status := 200, contentType := some "application/json", body := .listing a.cursors }, a)

/-- Answer a request for a path. Only `GET` is served, and `HEAD` as a `GET` whose body is left out.
-/
def respond (a : Allocator) (method : String) (path : List Char) : Response × Allocator :=
  match route? path with
  | none => ({ status := 404 }, a)
  | some route =>
    if method = "GET" then follow a route
    else if method = "HEAD" then
      let (response, a) := follow a route
      ({ response with body := .text "" }, a)
    else ({ status := 405 }, a)

end Master

end CallDispatch
