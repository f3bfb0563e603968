import CallDispatch.Web.Host

/-!
# Web addresses

An address names a scheme, where to connect, a path, and perhaps a query and a fragment. An address
of a well-known scheme always has a host and a path that starts with a slash, and leaves out the
port that goes with its scheme. Other addresses may have an opaque path, which cannot be extended.

Dot segments are taken out of a path as it is read: one dot stands for the segment itself, two for
the segment above.
-/

namespace CallDispatch.Web

/-- Where to connect. -/
structure Authority where
  user : List Char := []
  password : List Char := []
  host : Host
  port : Option Nat := none
  deriving DecidableEq, Repr

/-- A path: one opaque text, or segments. -/
inductive UrlPath where
  | opaqueText (text : List Char)
  | segments (list : List (List Char))
  deriving DecidableEq, Repr

/-- A web address, its texts already escaped. -/
structure Url where
  scheme : List Char
  authority : Option Authority := none
  path : UrlPath
  query : Option (List Char) := none
  fragment : Option (List Char) := none
  deriving DecidableEq, Repr

/-! ## Schemes -/

/-- The port that goes with a scheme. -/
def defaultPort? (scheme : List Char) : Option Nat :=
  match String.ofList scheme with
  | "http" | "ws" => some 80
  | "https" | "wss" => some 443
  | "ftp" => some 21
  | _ => none

/-- Whether addresses of a scheme are local files. -/
def isFileScheme (scheme : List Char) : Bool := String.ofList scheme == "file"

/-- Whether addresses of a scheme are of a well-known kind. -/
def isWellKnown (scheme : List Char) : Bool :=
  (defaultPort? scheme).isSome || isFileScheme scheme

/-! ## Paths -/

/-- Whether a segment stands for itself: one dot, which may be escaped. -/
def isSingleDot (segment : List Char) : Bool :=
  ["." , "%2e"].contains (String.ofList (segment.map Char.toLower))

/-- Whether a segment stands for the one above: two dots, which may be escaped. -/
def isDoubleDot (segment : List Char) : Bool :=
  ["..", ".%2e", "%2e.", "%2e%2e"].contains (String.ofList (segment.map Char.toLower))

/-- Add an escaped segment to a path. A dot segment leaves an empty one behind if it is the last. -/
def addSegment (last : Bool) (path : List (List Char)) (segment : List Char) : List (List Char) :=
  let ending := if last then [[]] else []
  if isDoubleDot segment then path.dropLast ++ ending
  else if isSingleDot segment then path ++ ending
  else path ++ [segment]

/-- Add the segments of a path as it is read. -/
def addSegments (path : List (List Char)) : List (List Char) → List (List Char)
  | [] => path
  | [segment] => addSegment true path segment
  | segment :: rest => addSegments (addSegment false path segment) rest

/-- The text of segments, each after a slash. -/
def segmentsText (segments : List (List Char)) : List Char :=
  segments.flatMap ('/' :: ·)

namespace Url

/-! ## Text -/

/-- User name and password as they stand before the host. -/
def userInfo (a : Authority) : List Char :=
  if a.user.isEmpty && a.password.isEmpty then []
  else a.user ++ (if a.password.isEmpty then [] else ':' :: a.password) ++ ['@']

/-- The text of a place to connect. -/
def authorityText (a : Authority) : List Char :=
  userInfo a ++ a.host.text ++
    match a.port with
    | some port => ':' :: Text.Decimal.ofNat port
    | none => []

/-- The text of a path. -/
def pathText (u : Url) : List Char :=
  match u.path with
  | .opaqueText text => text
  | .segments list => segmentsText list

/-- What keeps a path that starts with an empty segment from being read as a place to connect. -/
def pathGuard (u : Url) : List Char :=
  match u.authority, u.path with
  | none, .segments ([] :: _ :: _) => ['/', '.']
  | _, _ => []

/-- A part behind its mark, if it is there. -/
def marked (mark : Char) : Option (List Char) → List Char
  | some s => mark :: s
  | none => []

/-- The text of an address. -/
def text (u : Url) : String :=
  String.ofList (u.scheme ++ ':' ::
    (match u.authority with
      | some a => '/' :: '/' :: authorityText a
      | none => []) ++
    pathGuard u ++ pathText u ++ marked '?' u.query ++ marked '#' u.fragment)

/-! ## Extending a path -/

/-- The segments of a path that can be extended, without an empty last one. -/
def base? (u : Url) : Option (List (List Char)) :=
  match u.path with
  | .opaqueText _ => none
  | .segments list =>
    if 2 ≤ list.length ∧ list.getLast? = some [] then some list.dropLast else some list

/-- Whether a character is dropped wherever it stands. -/
def isDropped (c : Char) : Bool := c == '\t' || c == '\n' || c == '\r'

/-- Append a text as one segment. A lone dot or two add nothing. -/
def appendSegment (wellKnown : Bool) (path : List (List Char)) (text : List Char) :
    List (List Char) :=
  if text = ['.'] ∨ text = ['.', '.'] then path
  else
    let escapes := if wellKnown then Percent.inWellKnownSegment else Percent.inSegment
    addSegment true (if path = [[]] then [] else path)
      (Percent.encode escapes (text.filter (!isDropped ·)))

/-- The address with texts appended to its path as segments, if it can be extended. -/
def extend? (u : Url) (texts : List String) : Option Url :=
  u.base?.map fun path =>
    { u with
      path := .segments
        ((texts.map String.toList).foldl (appendSegment (isWellKnown u.scheme)) path) }

end Url

end CallDispatch.Web
