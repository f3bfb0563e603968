/-!
# Decimal numerals

Numbers are written without leading zeros and read with an optional plus sign. A reader of machine
words refuses a value of `2 ^ 64` or more, so a word that was written can always be read back.
-/

namespace CallDispatch.Text.Decimal

/-- One more than the largest machine word. -/
def wordBound : Nat := 1 <<< 64

/-- The character of one decimal digit. -/
def digitChar (d : Nat) : Char :=
  match d with
  | 0 => '0' | 1 => '1' | 2 => '2' | 3 => '3' | 4 => '4'
  | 5 => '5' | 6 => '6' | 7 => '7' | 8 => '8' | _ => '9'

/-- The value of an ASCII digit. -/
def digit? (c : Char) : Option Nat :=
  if '0'.toNat ≤ c.toNat ∧ c.toNat ≤ '9'.toNat then some (c.toNat - '0'.toNat) else none

/-- The shortest decimal numeral of a number. -/
def ofNat (n : Nat) : List Char :=
  if n < 10 then [digitChar n] else ofNat (n / 10) ++ [digitChar (n % 10)]

/-- A numeral padded on the left with zeros up to a width. -/
def padded (width n : Nat) : List Char :=
  let digits := ofNat n
  List.replicate (width - digits.length) '0' ++ digits

/-- Read digits after a value already read. -/
def readFrom (value : Nat) : List Char → Option Nat
  | [] => some value
  | c :: rest =>
    match digit? c with
    | some d => readFrom (value * 10 + d) rest
    | none => none

/-- The value of a nonempty run of digits. -/
def readDigits : List Char → Option Nat
  | [] => none
  | cs => readFrom 0 cs

/-- The run of digits after an optional plus sign. -/
def unsigned : List Char → List Char
  | '+' :: cs => cs
  | cs => cs

/-- The machine word written by a text: digits after an optional plus sign, below `2 ^ 64`. -/
def readWord (s : List Char) : Option Nat :=
  match readDigits (unsigned s) with
  | some n => if n < wordBound then some n else none
  | none => none

/-- A number as text. -/
def text (n : Nat) : String := String.ofList (ofNat n)

theorem readFrom_append (value : Nat) (s t : List Char) :
    readFrom value (s ++ t) = (readFrom value s).bind (readFrom · t) := by
  induction s generalizing value with
  | nil => rfl
  | cons c rest ih =>
    simp only [List.cons_append, readFrom]
    cases digit? c with
    | none => rfl
    | some d => exact ih _

theorem digit?_digitChar {d : Nat} (h : d < 10) : digit? (digitChar d) = some d := by
  match d, h with
  | 0, _ | 1, _ | 2, _ | 3, _ | 4, _ | 5, _ | 6, _ | 7, _ | 8, _ | 9, _ => decide

theorem ofNat_ne_nil (n : Nat) : ofNat n ≠ [] := by
  rw [ofNat]
  split <;> simp

theorem readFrom_ofNat (n : Nat) : readFrom 0 (ofNat n) = some n := by
  induction n using Nat.strongRecOn with
  | _ n ih =>
    rw [ofNat]
    split
    case isTrue h => simp [readFrom, digit?_digitChar h]
    case isFalse h =>
      rw [readFrom_append, ih (n / 10) (by omega)]
      have hd : n % 10 < 10 := by omega
      simp only [Option.bind, readFrom, digit?_digitChar hd]
      congr 1
      omega

theorem readDigits_ofNat (n : Nat) : readDigits (ofNat n) = some n := by
  have h := readFrom_ofNat n
  have hne := ofNat_ne_nil n
  cases hs : ofNat n with
  | nil => exact absurd hs hne
  | cons c rest => rw [readDigits]; rw [hs] at h; exact h; simp

end CallDispatch.Text.Decimal
