import CallDispatch.Web.Url

/-!
# Reading web addresses

Blanks and control characters around an address do not count, nor do tabs and line ends inside it.
What comes before the first colon is the scheme, and the scheme decides how the rest is read. In
addresses of a well-known kind a backslash separates like a slash, and any number of slashes may
stand before the host.
-/

namespace CallDispatch.Web

/-- Whether a character may stand in a scheme. -/
def inScheme (c : Char) : Bool := c.isAlphanum || ['+', '-', '.'].contains c

/-- The scheme, in lower case, and what follows its colon. -/
def readScheme (s : List Char) : Option (List Char × List Char) :=
  match s with
  | c :: _ =>
    let (scheme, rest) := s.span inScheme
    match rest with
    | ':' :: rest => if c.isAlpha then some (scheme.map Char.toLower, rest) else none
    | _ => none
  | [] => none

/-- Whether a character separates segments. -/
def isSlash (wellKnown : Bool) (c : Char) : Bool := c == '/' || (wellKnown && c == '\\')

/-- Whether a character ends the place to connect. -/
def endsAuthority (wellKnown : Bool) (c : Char) : Bool :=
  isSlash wellKnown c || c == '?' || c == '#'

/-- What stands before and after the last occurrence of a character. -/
def splitLast (mark : Char) : List Char → Option (List Char × List Char)
  | [] => none
  | c :: rest =>
    match splitLast mark rest with
    | some (before, after) => some (c :: before, after)
    | none => if c = mark then some ([], rest) else none

/-- What stands before the colon that ends a host, and from there on. A colon in brackets does not.
-/
def splitPort (inBrackets : Bool) : List Char → List Char × List Char
  | [] => ([], [])
  | c :: rest =>
    if c = ':' ∧ !inBrackets then ([], c :: rest)
    else
      let inside := if c = '[' then true else if c = ']' then false else inBrackets
      let (host, port) := splitPort inside rest
      (c :: host, port)

/-- Read a port behind its colon; the one that goes with the scheme is left out. -/
def readPort (scheme : List Char) : List Char → Except UrlFault (Option Nat)
  | ':' :: digits =>
    if digits.isEmpty then .ok none
    else match Text.Decimal.readDigits digits with
      | none => .error .invalidPort
      | some port =>
        if 65535 < port then .error .invalidPort
        else .ok (if defaultPort? scheme = some port then none else some port)
  | _ => .ok none

/-- User name and password before the last `@`. -/
def readUserInfo (s : List Char) : List Char × List Char :=
  let (user, rest) := s.span (· ≠ ':')
  (Percent.encode Percent.inUserInfo user, Percent.encode Percent.inUserInfo (rest.drop 1))

/-- Read where to connect. -/
def readAuthority (scheme s : List Char) : Except UrlFault Authority := do
  let wellKnown := isWellKnown scheme
  let (info, place) := (splitLast '@' s).getD ([], s)
  let (hostText, portText) := splitPort false place
  if hostText.isEmpty && (wellKnown || !portText.isEmpty || !info.isEmpty) then
    throw .emptyHost
  let host ← if wellKnown then Host.read hostText else Host.readOpaque hostText
  let port ← readPort scheme portText
  let (user, password) := readUserInfo info
  pure { user, password, host, port }

/-- The segments of a path behind its first slash. -/
def readSegments (wellKnown : Bool) (s : List Char) : List (List Char) :=
  addSegments [] ((Text.splitWhere (isSlash wellKnown) s).map (Percent.encode Percent.inPath))

/-- The path that follows a place to connect. -/
def readPath (wellKnown : Bool) : List Char → List (List Char)
  | [] => if wellKnown then [[]] else []
  | c :: rest => readSegments wellKnown (if isSlash wellKnown c then rest else c :: rest)

/-- The parts before the query, in the query, and in the fragment. -/
def splitTail (s : List Char) : List Char × Option (List Char) × Option (List Char) :=
  let (body, fragment) := s.span (· ≠ '#')
  let (path, query) := body.span (· ≠ '?')
  let behind (s : List Char) : Option (List Char) := if s.isEmpty then none else some (s.drop 1)
  (path, behind query, behind fragment)

/-- Read what follows the scheme of a local file. -/
def readFile (s : List Char) : Except UrlFault (Authority × List (List Char)) := do
  let slashes := (s.takeWhile (isSlash true)).length
  let (hostText, rest) :=
    if slashes = 2 then (s.drop 2).span (!isSlash true ·) else ([], s.drop (slashes - 1))
  let host ← if hostText.isEmpty then pure (Host.name []) else Host.read hostText
  let host := if host = .name "localhost".toList then .name [] else host
  pure ({ host }, readPath true rest)

/-- Read what follows a scheme, up to the query. -/
def readBody (scheme s : List Char) : Except UrlFault (Option Authority × UrlPath) := do
  if isFileScheme scheme then
    let (authority, segments) ← readFile s
    pure (some authority, .segments segments)
  else if isWellKnown scheme then
    let (place, rest) := (s.dropWhile (isSlash true)).span (!endsAuthority true ·)
    pure (some (← readAuthority scheme place), .segments (readPath true rest))
  else match s with
    | '/' :: '/' :: s =>
      let (place, rest) := s.span (!endsAuthority false ·)
      pure (some (← readAuthority scheme place), .segments (readPath false rest))
    | '/' :: s => pure (none, .segments (readSegments false s))
    | s => pure (none, .opaqueText (Percent.encode Percent.isControl s))

/-- Whether a character is left out at the ends of an address. -/
def isOuter (c : Char) : Bool := c.toNat ≤ 0x20

/-- Read an address. -/
def Url.read (s : String) : Except UrlFault Url := do
  let inner := ((s.toList.dropWhile isOuter).reverse.dropWhile isOuter).reverse
  match readScheme (inner.filter (!Url.isDropped ·)) with
  | none => throw .relativeWithoutBase
  | some (scheme, rest) =>
    let (body, query, fragment) := splitTail rest
    let (authority, path) ← readBody scheme body
    let inQuery := if isWellKnown scheme then Percent.inWellKnownQuery else Percent.inQuery
    pure {
      scheme, authority, path
      query := query.map (Percent.encode inQuery)
      fragment := fragment.map (Percent.encode Percent.inFragment) }

end CallDispatch.Web
