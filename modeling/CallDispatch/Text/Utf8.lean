/-!
# UTF-8

Bytes are read as a sequence of symbols: the characters they encode and, for every maximal
ill-formed piece, one stray symbol. A strict reader asks for a text without stray symbols; a lenient
one shows each of them as the replacement character.
-/

namespace CallDispatch.Text

/-- A character, or a piece of input that is no character. -/
inductive Symbol where
  | char (c : Char)
  | stray
  deriving DecidableEq, Repr

namespace Utf8

/-- The bytes of one character. -/
def encodeChar (c : Char) : List UInt8 :=
  let n := c.toNat
  if n < 0x80 then [UInt8.ofNat n]
  else if n < 0x800 then [UInt8.ofNat (0xC0 + n / 64), UInt8.ofNat (0x80 + n % 64)]
  else if n < 0x10000 then
    [UInt8.ofNat (0xE0 + n / 4096), UInt8.ofNat (0x80 + n / 64 % 64), UInt8.ofNat (0x80 + n % 64)]
  else
    [UInt8.ofNat (0xF0 + n / 262144), UInt8.ofNat (0x80 + n / 4096 % 64),
      UInt8.ofNat (0x80 + n / 64 % 64), UInt8.ofNat (0x80 + n % 64)]

/-- The bytes of a text. -/
def encode (s : List Char) : List UInt8 :=
  s.flatMap encodeChar

/-- How many bytes a character takes. -/
def width (c : Char) : Nat :=
  (encodeChar c).length

/-- Between characters, or inside one: the value read so far, how many bytes are still owed, and the
least and greatest value the next of them may have. -/
inductive Progress where
  | between
  | inside (value owed least greatest : Nat)
  deriving DecidableEq, Repr

/-- What a byte in first position begins, or `none` if no character starts with it. -/
def lead (b : Nat) : Option Progress :=
  if 0xC2 ≤ b ∧ b ≤ 0xDF then some (.inside (b - 0xC0) 1 0x80 0xBF)
  else if b = 0xE0 then some (.inside 0 2 0xA0 0xBF)
  else if b = 0xED then some (.inside 0xD 2 0x80 0x9F)
  else if 0xE1 ≤ b ∧ b ≤ 0xEF then some (.inside (b - 0xE0) 2 0x80 0xBF)
  else if b = 0xF0 then some (.inside 0 3 0x90 0xBF)
  else if b = 0xF4 then some (.inside 4 3 0x80 0x8F)
  else if 0xF1 ≤ b ∧ b ≤ 0xF3 then some (.inside (b - 0xF0) 3 0x80 0xBF)
  else none

/-- Read one byte in first position: the symbols it completes and where that leaves the reader. -/
def start (b : Nat) : List Symbol × Progress :=
  if b < 0x80 then ([.char (Char.ofNat b)], .between)
  else match lead b with
    | some p => ([], p)
    | none => ([.stray], .between)

/-- Read one byte. A byte that cannot continue the character ends it as a stray piece and is read
again in first position. -/
def step (p : Progress) (b : Nat) : List Symbol × Progress :=
  match p with
  | .between => start b
  | .inside value owed least greatest =>
    if least ≤ b ∧ b ≤ greatest then
      let value := value * 64 + b % 64
      if owed ≤ 1 then ([.char (Char.ofNat value)], .between)
      else ([], .inside value (owed - 1) 0x80 0xBF)
    else
      let (symbols, p) := start b
      (.stray :: symbols, p)

/-- Read bytes from a position. Input that ends inside a character leaves a stray piece. -/
def decodeFrom : Progress → List UInt8 → List Symbol
  | .between, [] => []
  | .inside .., [] => [.stray]
  | p, b :: rest =>
    let (symbols, p) := step p b.toNat
    symbols ++ decodeFrom p rest

/-- The symbols of a byte sequence. -/
def decode (bytes : List UInt8) : List Symbol :=
  decodeFrom .between bytes

/-- The characters of a symbol sequence without stray pieces. -/
def characters? : List Symbol → Option (List Char)
  | [] => some []
  | .char c :: rest => (characters? rest).map (c :: ·)
  | .stray :: _ => none

/-- The characters of a symbol sequence, each stray piece shown as the replacement character. -/
def shown (symbols : List Symbol) : List Char :=
  symbols.map fun
    | .char c => c
    | .stray => Char.ofNat 0xFFFD

theorem characters?_map_char (s : List Char) : characters? (s.map .char) = some s := by
  induction s with
  | nil => rfl
  | cons c rest ih => simp [characters?, ih]

end CallDispatch.Text.Utf8
