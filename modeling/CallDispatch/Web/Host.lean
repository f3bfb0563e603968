import CallDispatch.Text.Decimal
import CallDispatch.Text.Pieces
import CallDispatch.Text.Quoted
import CallDispatch.Web.Percent
import CallDispatch.Web.Punycode

/-!
# Hosts

The host of a web address is a name or a numeric address. Names are written in lower case and in
ASCII; numeric addresses have one canonical form: four decimal bytes, or hexadecimal groups with the
longest run of zeros left out.
-/

namespace CallDispatch.Web

/-- Why a text is no web address. -/
inductive UrlFault where
  | relativeWithoutBase
  | emptyHost
  | invalidPort
  | invalidIpv4
  | invalidIpv6
  | invalidDomainCharacter
  | invalidInternationalName
  deriving DecidableEq, Repr

/-- The message of a fault. -/
def UrlFault.message : UrlFault → String
  | .relativeWithoutBase => "relative URL without a base"
  | .emptyHost => "empty host"
  | .invalidPort => "invalid port number"
  | .invalidIpv4 => "invalid IPv4 address"
  | .invalidIpv6 => "invalid IPv6 address"
  | .invalidDomainCharacter => "invalid domain character"
  | .invalidInternationalName => "invalid international domain name"

/-- A host: a name, an address of 32 bits, or the eight groups of an address of 128 bits. -/
inductive Host where
  | name (text : List Char)
  | ipv4 (address : Nat)
  | ipv6 (groups : List Nat)
  deriving DecidableEq, Repr

/-- The value of digits to a base, if all are digits to that base. -/
def readBase (base : Nat) (s : List Char) : Option Nat :=
  s.foldlM (fun value c => do
    let d ← Text.hexValue? c
    if d < base then some (value * base + d) else none) 0

namespace Host

/-! ## Addresses of 32 bits -/

/-- A part of such an address: hexadecimal after `0x`, octal after a zero, else decimal. -/
def readPart : List Char → Option Nat
  | [] => none
  | '0' :: 'x' :: digits | '0' :: 'X' :: digits => readBase 16 digits
  | '0' :: d :: digits => readBase 8 (d :: digits)
  | digits => readBase 10 digits

/-- The parts of a name between dots, without an empty last one. -/
def parts (name : List Char) : List (List Char) :=
  let pieces := Text.splitAt '.' name
  if pieces.getLast? = some [] then pieces.dropLast else pieces

/-- Whether a name ends like a numeric address. -/
def endsInNumber (name : List Char) : Bool :=
  match (parts name).getLast? with
  | some last => (!last.isEmpty && last.all Char.isDigit) || (readPart last).isSome
  | none => false

/-- Put the parts of an address together: the last fills all bytes the others leave. -/
def joinParts (numbers : List Nat) : Option Nat :=
  match numbers.getLast? with
  | none => none
  | some last =>
    let front := numbers.dropLast
    let room := 1 <<< (8 * (4 - front.length))
    if front.length ≤ 3 ∧ front.all (· < 256) ∧ last < room then
      some (front.foldl (fun value n => value * 256 + n) 0 * room + last)
    else none

/-- Read an address of 32 bits. -/
def readIpv4 (name : List Char) : Option Nat :=
  (parts name).mapM readPart >>= joinParts

/-- The text of an address of 32 bits. -/
def ipv4Text (address : Nat) : List Char :=
  Text.Decimal.ofNat (address >>> 24) ++ '.' :: Text.Decimal.ofNat ((address >>> 16) % 256) ++
    '.' :: Text.Decimal.ofNat ((address >>> 8) % 256) ++ '.' :: Text.Decimal.ofNat (address % 256)

/-! ## Addresses of 128 bits -/

/-- A group: one to four hexadecimal digits. -/
def readGroup (s : List Char) : Option Nat :=
  if s.isEmpty || 4 < s.length then none else readBase 16 s

/-- A decimal byte without leading zeros. -/
def readByte (s : List Char) : Option Nat :=
  if s.isEmpty || (s.length ≠ 1 && s.head? == some '0') then none
  else (readBase 10 s).filter (· < 256)

/-- The groups of the last piece: one group, or two written as four decimal bytes. -/
def readLastGroups (s : List Char) : Option (List Nat) :=
  if s.contains '.' then do
    match ← (Text.splitAt '.' s).mapM readByte with
    | [a, b, c, d] => some [a * 256 + b, c * 256 + d]
    | _ => none
  else do pure [← readGroup s]

/-- The groups of pieces between colons; only the last may be written in decimal. -/
def readGroups : List (List Char) → Option (List Nat)
  | [] => some []
  | [last] => readLastGroups last
  | piece :: rest => do
    let group ← readGroup piece
    let groups ← readGroups rest
    pure (group :: groups)

/-- The two sides of the first `::`, if there is one. -/
def splitGap : List Char → Option (List Char × List Char)
  | ':' :: ':' :: rest => some ([], rest)
  | c :: rest => (splitGap rest).map fun (before, after) => (c :: before, after)
  | [] => none

/-- The groups on one side of a gap, which may be empty. -/
def readSide (s : List Char) : Option (List Nat) :=
  if s.isEmpty then some [] else readGroups (Text.splitAt ':' s)

/-- Read the eight groups of an address; a gap stands for one or more groups of zeros. -/
def readIpv6 (s : List Char) : Option (List Nat) :=
  match splitGap s with
  | some (before, after) =>
    if before.contains '.' then none
    else do
      let front ← readSide before
      let back ← readSide after
      let known := front.length + back.length
      if known < 8 then some (front ++ List.replicate (8 - known) 0 ++ back) else none
  | none => (readGroups (Text.splitAt ':' s)).filter (·.length == 8)

/-- How many zeros a list starts with. -/
def zerosAhead : List Nat → Nat
  | 0 :: rest => zerosAhead rest + 1
  | _ => 0

/-- The length of the longest run of zeros. -/
def longestZeros : List Nat → Nat
  | [] => 0
  | g :: rest => max (zerosAhead (g :: rest)) (longestZeros rest)

/-- Where the first run of `length` zeros begins. -/
def zerosAt (length : Nat) : List Nat → Nat
  | [] => 0
  | g :: rest => if length ≤ zerosAhead (g :: rest) then 0 else zerosAt length rest + 1

/-- Groups with colons between them. -/
def groupsText (groups : List Nat) : List Char :=
  [':'].intercalate (groups.map Text.hex)

/-- The text of an address of 128 bits: the first longest run of two zeros or more is left out. -/
def ipv6Text (groups : List Nat) : List Char :=
  let length := longestZeros groups
  if length < 2 then groupsText groups
  else
    let start := zerosAt length groups
    groupsText (groups.take start) ++ [':', ':'] ++ groupsText (groups.drop (start + length))

/-! ## Hosts as text -/

/-- The text of a host. -/
def text : Host → List Char
  | .name s => s
  | .ipv4 address => ipv4Text address
  | .ipv6 groups => '[' :: ipv6Text groups ++ [']']

/-- A label of a name in ASCII. -/
def asciiLabel (label : List Char) : List Char :=
  if label.all (·.toNat < 0x80) then label else ['x', 'n', '-', '-'] ++ Punycode.encode label

/-- What no name may contain. -/
def forbiddenInName (c : Char) : Bool :=
  Percent.isControl c ||
    [' ', '#', '%', '/', ':', '<', '>', '?', '@', '[', '\\', ']', '^', '|'].contains c

/-- What no host of a kind that is not well known may contain. -/
def forbiddenInOpaque (c : Char) : Bool :=
  c.toNat == 0 || [' ', '#', '/', ':', '<', '>', '?', '@', '[', '\\', ']', '^', '|'].contains c

/-- Read the inside of brackets. -/
def readBracketed (s : List Char) : Except UrlFault Host :=
  match s.getLast?, readIpv6 s.dropLast with
  | some ']', some groups => .ok (.ipv6 groups)
  | _, _ => .error .invalidIpv6

/-- Read the host of an address of a well-known kind. -/
def read : List Char → Except UrlFault Host
  | '[' :: rest => readBracketed rest
  | s =>
    let decoded := Text.Utf8.shown (Text.Utf8.decode (Percent.decode s))
    let labels := (Text.splitAt '.' (decoded.map Char.toLower)).map asciiLabel
    let name := ['.'].intercalate labels
    if name.any forbiddenInName then .error .invalidInternationalName
    else if name.isEmpty then .error .emptyHost
    else if endsInNumber name then
      match readIpv4 name with
      | some address => .ok (.ipv4 address)
      | none => .error .invalidIpv4
    else .ok (.name name)

/-- Read the host of an address of any other kind. -/
def readOpaque : List Char → Except UrlFault Host
  | '[' :: rest => readBracketed rest
  | s =>
    if s.any forbiddenInOpaque then .error .invalidDomainCharacter
    else .ok (.name (Percent.encode Percent.isControl s))

end Host

end CallDispatch.Web
