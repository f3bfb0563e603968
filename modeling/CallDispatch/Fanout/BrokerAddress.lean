import CallDispatch.DispatchError
import CallDispatch.Web.UrlReader

/-!
# Addresses of brokers

A broker on another host is named by an address: a host with a port and the number of a database, or
the path of a local socket.
-/

namespace CallDispatch

/-- Where a broker is to be found. -/
inductive BrokerAddress where
  | host (name : String) (port : Nat) (database : Int)
  | socket (path : String) (database : Int)
  deriving DecidableEq, Repr

namespace BrokerAddress

/-- The port of a broker that names none. -/
def defaultPort : Nat := 6379

/-- A number of 64 bits with an optional sign. -/
def readDatabase (s : List Char) : Option Int :=
  let bound : Nat := 1 <<< 63
  match s with
  | '-' :: digits =>
    (Text.Decimal.readDigits digits).bind fun n => if n ≤ bound then some (-(n : Int)) else none
  | s =>
    (Text.Decimal.readDigits (Text.Decimal.unsigned s)).bind fun n =>
      if n < bound then some (n : Int) else none

/-- A text without the slashes at either end. -/
def inner (s : List Char) : List Char :=
  ((s.dropWhile (· = '/')).reverse.dropWhile (· = '/')).reverse

/-- Whether an escaped text stands for characters. -/
def isText (s : List Char) : Bool :=
  (Text.Utf8.characters? (Text.Utf8.decode (Web.Percent.decode s))).isSome

/-- The database a path names; the first if it names none. -/
def pathDatabase (path : List Char) : Option Int :=
  match inner path with
  | [] => some 0
  | s => readDatabase s

/-- The value of a member of a query, the last if there are several. -/
def queryValue? (key : String) (query : Option (List Char)) : Option (List Char) :=
  let pairs := (Text.splitAt '&' (query.getD [])).map fun s =>
    let (k, v) := s.span (· ≠ '=')
    (String.ofList k, v.drop 1)
  pairs.reverse.lookup key

/-- The broker an address of the web names. -/
def ofUrl? (url : Web.Url) : Option BrokerAddress :=
  match String.ofList url.scheme with
  | "redis" => do
    let authority ← url.authority
    let name := authority.host.text
    let database ← pathDatabase url.pathText
    if name.isEmpty || !isText authority.user || !isText authority.password then none
    else some (.host (String.ofList name) (authority.port.getD defaultPort) database)
  | "redis+unix" | "unix" =>
    match url.path with
    | .opaqueText _ => none
    | .segments list => do
      let isLocal (host : List Char) : Bool := ["", "localhost"].contains (String.ofList host)
      if url.authority.any fun a => !isLocal a.host.text then none
      let database ← match queryValue? "db" url.query with
        | some s => readDatabase s
        | none => some 0
      if list.isEmpty then none else some (.socket (String.ofList url.pathText) database)
  | _ => none

/-- The broker an address names. -/
def ofText (s : String) : Outcome BrokerAddress :=
  match Web.Url.read s with
  | .ok url =>
    match ofUrl? url with
    | some address => .ok address
    | none => .error .broker
  | .error _ => .error .broker

/-- What becomes of a connection to a broker that nobody serves. -/
def connectUnserved (_ : BrokerAddress) : Outcome Unit := .error .broker

end BrokerAddress

end CallDispatch
