import CallDispatch.Master.Service
import CallDispatch.Pull.Source
import CallDispatch.Web.UrlReader

/-!
# Links to a master

A worker on another host asks its master over the web: it appends its request to the master's
address and reads the text of the answer. An answer that says the fault lies with the master, or no
answer at all, is a transient failure.
-/

namespace CallDispatch

namespace Master

/-- A text without the slashes at its end. -/
def trimSlashes (s : String) : String :=
  String.ofList (s.toList.reverse.dropWhile (· = '/')).reverse

/-- The address of a request for a range, below the address of a master. -/
def requestUrl (base jobKey : String) (total chunk : Nat) : Outcome Web.Url :=
  match Web.Url.read base with
  | .error fault => .error (.invalidArgument (.badMasterUrl base fault.message))
  | .ok url =>
    match url.extend? ["get-range", jobKey, Text.Decimal.text total, Text.Decimal.text chunk] with
    | some url => .ok url
    | none => .error (.invalidArgument (.pathlessMasterUrl base))

/-- Whether an answer with a status never has a body. -/
def isBodiless (status : Nat) : Bool := status == 204 || status == 304

/-- What an answer with a status and a body says. -/
def readAnswer (status : Nat) (body : String) : Outcome RangeAnswer :=
  if 400 ≤ status ∧ status < 600 then .error (.http (some status) (500 ≤ status))
  else RangeAnswer.ofText (if isBodiless status then "" else body)

/-- A master at the other end of a link: answers laid out in advance, then its service; the paths it
was asked for; and whether it listens at all, or else how often it was asked in vain. -/
structure Link where
  base : String
  canned : List (Nat × String) := []
  allocator : Allocator := {}
  paths : List String := []
  listening : Bool := true
  refusals : Nat := 0

namespace Link

/-- A link to a master under an address. -/
def ofBase (base : String) : Link where
  base := trimSlashes base

/-- The master answers a request for a path. -/
def serve (l : Link) (path : List Char) : (Nat × String) × Link :=
  let paths := l.paths ++ [String.ofList path]
  match l.canned with
  | answer :: canned => (answer, { l with canned, paths })
  | [] =>
    let (response, allocator) := respond l.allocator "GET" path
    let body := match response.body with
      | .text s => s
      | .listing _ => ""
    ((response.status, body), { l with allocator, paths })

/-- Ask the master for a range. -/
def request (l : Link) (jobKey : String) (total chunk : Nat) : Outcome RangeAnswer × Link :=
  match requestUrl l.base jobKey total chunk with
  | .error e => (.error e, l)
  | .ok url =>
    if l.listening then
      let ((status, body), l) := l.serve url.pathText
      (readAnswer status body, l)
    else (.error (.http none true), { l with refusals := l.refusals + 1 })

/-- Ask for ranges in turn. -/
def requestAll (l : Link) : List RangeRequest → List (Outcome RangeAnswer) × Link
  | [] => ([], l)
  | r :: rest =>
    let (answer, l) := l.request r.jobKey r.total r.chunk
    let (answers, l) := l.requestAll rest
    (answer :: answers, l)

end Link

end Master

instance : WorkSource Master.Link where
  request := Master.Link.request

end CallDispatch
