import CallDispatch.Proofs.Text.Encodings
import Mathlib.Data.List.TakeWhile
import Mathlib.Data.Nat.Digits.Lemmas

/-!
# Which texts are trimmed to what, and which are numbers

Trimming leaves the middle of a text that has blanks only around it. A number is read from exactly
the texts that write one: digits, with or without a plus sign in front. Of all the texts that write
a number one is the shortest, and it is the one that is printed.
-/

namespace CallDispatch.Text

/-! ## Blanks around a text -/

/-- A text of nothing but blanks. -/
def Blank (s : List Char) : Prop := ∀ c ∈ s, isBlank c = true

/-- A text that neither begins nor ends with a blank. -/
def Trimmed (s : List Char) : Prop :=
  (∀ c ∈ s.head?, isBlank c = false) ∧ ∀ c ∈ s.getLast?, isBlank c = false

/-- A text is another one, with blanks around it. -/
def Surrounds (whole middle : List Char) : Prop :=
  ∃ before after, Blank before ∧ Blank after ∧ whole = before ++ middle ++ after

theorem Blank.of_cons {c : Char} {s : List Char} (blank : Blank (c :: s)) :
    isBlank c = true ∧ Blank s :=
  ⟨blank c List.mem_cons_self, fun d listed => blank d (List.mem_cons_of_mem c listed)⟩

theorem Blank.cons {c : Char} {s : List Char} (first : isBlank c = true) (rest : Blank s) :
    Blank (c :: s) := fun _ listed => (List.mem_cons.mp listed).elim (· ▸ first) (rest _)

/-- Blanks in front are dropped. -/
theorem Blank.dropWhile_append {before : List Char} (blank : Blank before) (s : List Char) :
    (before ++ s).dropWhile isBlank = s.dropWhile isBlank := by
  induction before with
  | nil => rfl
  | cons c rest ih =>
    obtain ⟨first, later⟩ := blank.of_cons
    rw [List.cons_append, List.dropWhile_cons_of_pos first, ih later]

/-- Blanks at the end are cut off. -/
theorem Blank.trimEnd_append {after : List Char} (blank : Blank after) (s : List Char) :
    trimEnd (s ++ after) = trimEnd s := by
  induction after generalizing s with
  | nil => rw [List.append_nil]
  | cons c rest ih =>
    obtain ⟨first, later⟩ := blank.of_cons
    rw [List.append_cons, ih later, trimEnd_append_blank s first]

/-- What does not end with a blank stays. -/
theorem trimEnd_eq_self {s : List Char} (last : ∀ c ∈ s.getLast?, isBlank c = false) :
    trimEnd s = s := by
  cases s using List.reverseRecOn with
  | nil => rfl
  | append_singleton front c => exact trimEnd_of_last front (last c (by simp))

/-- What is cut off at the end is blank, and no blank is left there. -/
theorem trimEnd_spec (s : List Char) :
    (∃ after, Blank after ∧ s = trimEnd s ++ after) ∧
      ∀ c ∈ (trimEnd s).getLast?, isBlank c = false := by
  induction s using List.reverseRecOn with
  | nil => exact ⟨⟨[], by simp [Blank], rfl⟩, by simp [trimEnd]⟩
  | append_singleton front c ih =>
    obtain ⟨⟨after, blank, whole⟩, last⟩ := ih
    cases kind : isBlank c with
    | true =>
      rw [trimEnd_append_blank front kind]
      refine ⟨⟨after ++ [c], fun d listed => ?_, ?_⟩, last⟩
      · rcases List.mem_append.mp listed with cut | same
        · exact blank d cut
        · exact List.mem_singleton.mp same ▸ kind
      · rw [← List.append_assoc, ← whole]
    | false =>
      rw [trimEnd_of_last front kind]
      exact ⟨⟨[], by simp [Blank], by simp⟩, by simpa using kind⟩

/-- No blank is left in front of what is left. -/
theorem isBlank_of_head_trim {s : List Char} {c : Char} (first : c ∈ (trim s).head?) :
    isBlank c = false := by
  obtain ⟨after, -, cut⟩ := (trimEnd_spec (s.dropWhile isBlank)).1
  have begins : (s.dropWhile isBlank).head? = some c := by
    rw [cut, List.head?_append, ← trim, first]
    rfl
  have stopped := List.head?_dropWhile_not isBlank s
  rwa [begins] at stopped

/-- Trimming leaves the one text without blanks at its ends that the whole surrounds. -/
theorem trim_eq_iff {s t : List Char} : trim s = t ↔ Surrounds s t ∧ Trimmed t := by
  constructor
  · rintro rfl
    have front : Blank (s.takeWhile isBlank) := fun c listed => List.mem_takeWhile_imp listed
    obtain ⟨⟨after, back, cut⟩, last⟩ := trimEnd_spec (s.dropWhile isBlank)
    have whole : s = s.takeWhile isBlank ++ trim s ++ after := by
      rw [List.append_assoc, trim, ← cut, List.takeWhile_append_dropWhile]
    exact ⟨⟨_, after, front, back, whole⟩, fun c => isBlank_of_head_trim, last⟩
  · rintro ⟨⟨before, after, front, back, rfl⟩, first, last⟩
    rw [trim, List.append_assoc, front.dropWhile_append]
    cases t with
    | nil =>
      have nothing := back.dropWhile_append []
      rw [List.append_nil] at nothing
      rw [List.nil_append, nothing]
      rfl
    | cons c rest =>
      have kept := first c rfl
      rw [List.cons_append, List.dropWhile_cons_of_neg (by simp [kept]), ← List.cons_append,
        back.trimEnd_append, trimEnd_eq_self last]

/-! ## Numbers -/

namespace Decimal

/-- The number that a run of digits stands for, the last digit counting ones. -/
def place (digits : List Char) : Nat :=
  Nat.ofDigits 10 (digits.reverse.map fun c => c.toNat - '0'.toNat)

/-- A run of ASCII digits. -/
def Digits (s : List Char) : Prop := s ≠ [] ∧ ∀ c ∈ s, c.isDigit = true

/-- A text writes a number: digits that stand for it, perhaps with a plus sign in front. -/
def Writes (s : List Char) (n : Nat) : Prop :=
  ∃ digits, (s = digits ∨ s = '+' :: digits) ∧ Digits digits ∧ place digits = n

/-- Digits without a sign and without zeros in front. -/
def Shortest (s : List Char) : Prop := Digits s ∧ (s.head? = some '0' → s = ['0'])

theorem isDigit_iff {c : Char} : c.isDigit = true ↔ 48 ≤ c.toNat ∧ c.toNat ≤ 57 := by
  simp only [Char.isDigit, Bool.and_eq_true, decide_eq_true_eq, ge_iff_le, UInt32.le_iff_toNat_le]
  rfl

theorem digit?_of_isDigit {c : Char} (digit : c.isDigit = true) :
    digit? c = some (c.toNat - '0'.toNat) := if_pos (isDigit_iff.mp digit)

theorem digit?_of_not_isDigit {c : Char} (other : c.isDigit = false) : digit? c = none := by
  refine if_neg fun digit => ?_
  rw [isDigit_iff.mpr digit] at other
  cases other

theorem place_singleton (c : Char) : place [c] = c.toNat - '0'.toNat := Nat.ofDigits_singleton

/-- What stands in front counts as often as the digits behind it say. -/
theorem place_append (front back : List Char) :
    place (front ++ back) = place front * 10 ^ back.length + place back := by
  rw [place, List.reverse_append, List.map_append, Nat.ofDigits_append, ← place, ← place,
    List.length_map, List.length_reverse, mul_comm, add_comm]

theorem place_cons (c : Char) (rest : List Char) :
    place (c :: rest) = (c.toNat - '0'.toNat) * 10 ^ rest.length + place rest := by
  rw [← place_singleton, ← place_append, List.singleton_append]

/-- Digits are read to the end, or not at all. -/
theorem readFrom_eq_some_iff {value n : Nat} {s : List Char} : readFrom value s = some n ↔
    (∀ c ∈ s, c.isDigit = true) ∧ value * 10 ^ s.length + place s = n := by
  induction s generalizing value with
  | nil => simp [readFrom, place]
  | cons c rest ih =>
    cases kind : c.isDigit with
    | false =>
      rw [readFrom, digit?_of_not_isDigit kind]
      simp [kind]
    | true =>
      have shifted : (value * 10 + (c.toNat - '0'.toNat)) * 10 ^ rest.length + place rest =
          value * 10 ^ (c :: rest).length + place (c :: rest) := by
        rw [place_cons, List.length_cons, pow_succ]
        ring
      rw [readFrom, digit?_of_isDigit kind]
      simp only [ih, shifted, List.mem_cons, forall_eq_or_imp, kind, true_and]

theorem readDigits_eq_some_iff {n : Nat} {s : List Char} :
    readDigits s = some n ↔ Digits s ∧ place s = n := by
  cases s with
  | nil => simp [readDigits, Digits]
  | cons c rest =>
    rw [readDigits, readFrom_eq_some_iff]
    · simp [Digits]
    · exact List.cons_ne_nil c rest

/-- A text is what it says behind the sign, or has a plus sign in front of it. -/
theorem eq_or_eq_unsigned (s : List Char) : s = unsigned s ∨ s = '+' :: unsigned s := by
  unfold unsigned
  split
  · exact .inr rfl
  · exact .inl rfl

theorem Digits.unsigned {s : List Char} (digits : Digits s) : unsigned s = s :=
  unsigned_of_not_mem fun listed => Bool.noConfusion (digits.2 _ listed)

theorem Writes.ne_nil {s : List Char} {n : Nat} (written : Writes s n) : s ≠ [] := by
  obtain ⟨digits, rfl | rfl, run, -⟩ := written
  · exact run.1
  · exact List.cons_ne_nil _ _

/-- Digits without a sign write the number they stand for, and no other. -/
theorem Writes.place_eq {s : List Char} {n : Nat} (written : Writes s n) (digits : Digits s) :
    place s = n := by
  obtain ⟨run, rfl | rfl, -, value⟩ := written
  · exact value
  · exact Bool.noConfusion (digits.2 '+' List.mem_cons_self)

/-- The machine words that are read are just those below the bound that are written. -/
theorem readWord_eq_some_iff {n : Nat} {s : List Char} :
    readWord s = some n ↔ Writes s n ∧ n < wordBound := by
  have behind : readDigits (unsigned s) = some n ↔ Writes s n := by
    rw [readDigits_eq_some_iff]
    constructor
    · rintro ⟨digits, value⟩
      exact ⟨unsigned s, eq_or_eq_unsigned s, digits, value⟩
    · rintro ⟨digits, rfl | rfl, run, value⟩
      · exact run.unsigned.symm ▸ ⟨run, value⟩
      · exact ⟨run, value⟩
  rw [← behind, readWord]
  cases readDigits (unsigned s) with
  | none => simp
  | some m =>
    by_cases word : m < wordBound
    · simp only [if_pos word, Option.some.injEq]
      exact ⟨fun same => ⟨same, same ▸ word⟩, And.left⟩
    · simp only [if_neg word, Option.some.injEq, reduceCtorEq, false_iff]
      rintro ⟨rfl, small⟩
      exact word small

/-! ## The shortest text of a number -/

theorem isDigit_digitChar {d : Nat} (small : d < 10) : (digitChar d).isDigit = true := by
  revert d
  decide

theorem digits_ofNat (n : Nat) : Digits (ofNat n) :=
  ⟨ofNat_ne_nil n, fun _ listed =>
    ofNat_all (p := fun c => c.isDigit = true) (fun _ small => isDigit_digitChar small) listed⟩

theorem ofNat_zero : ofNat 0 = ['0'] := by
  rw [ofNat]
  rfl

/-- The numeral of a number writes it. -/
theorem place_ofNat (n : Nat) : place (ofNat n) = n :=
  (readDigits_eq_some_iff.mp (readDigits_ofNat n)).2

/-- A numeral does not begin with a zero, except for that of zero. -/
theorem shortest_ofNat (n : Nat) : Shortest (ofNat n) := by
  refine ⟨digits_ofNat n, ?_⟩
  induction n using Nat.strongRecOn with
  | _ n ih =>
    rw [ofNat]
    split
    case isTrue small =>
      intro zero
      rw [List.head?_cons, Option.some.injEq] at zero
      rw [zero]
    case isFalse large =>
      intro zero
      have front : (ofNat (n / 10)).head? = some '0' := by
        rwa [List.head?_append_of_ne_nil _ (ofNat_ne_nil _)] at zero
      -- A numeral that begins with a zero is that of zero, and here the front stands for more.
      have nothing := place_ofNat (n / 10)
      rw [ih (n / 10) (by omega) front] at nothing
      have tens : n / 10 = 0 := nothing.symm
      omega

theorem digitChar_of_isDigit {c : Char} (digit : c.isDigit = true) :
    digitChar (c.toNat - '0'.toNat) = c := by
  have same : ∀ d < 10, digitChar d = Char.ofNat ('0'.toNat + d) := by decide
  obtain ⟨low, high⟩ := isDigit_iff.mp digit
  have zero : '0'.toNat = 48 := rfl
  rw [same _ (by omega), Nat.add_sub_cancel' (by omega), Char.ofNat_toNat]

theorem isBlank_of_isDigit {c : Char} (digit : c.isDigit = true) : isBlank c = false := by
  have none : ∀ d < 10, isBlank (digitChar d) = false := by decide
  have bounds := isDigit_iff.mp digit
  have zero : '0'.toNat = 48 := rfl
  exact digitChar_of_isDigit digit ▸ none _ (by omega)

/-- The shortest text that writes a number is its numeral. -/
theorem Shortest.eq_ofNat {s : List Char} (shortest : Shortest s) : s = ofNat (place s) := by
  induction s using List.reverseRecOn with
  | nil => exact absurd rfl shortest.1.1
  | append_singleton front c ih =>
    obtain ⟨⟨-, digits⟩, bare⟩ := shortest
    have digit := digits c (by simp)
    have small : c.toNat - '0'.toNat < 10 := by
      have bounds := isDigit_iff.mp digit
      have zero : '0'.toNat = 48 := rfl
      omega
    by_cases nothing : front = []
    · rw [nothing, List.nil_append, place_singleton, ofNat, if_pos small,
        digitChar_of_isDigit digit]
    · -- A digit follows, so what stands in front of it does not begin with a zero.
      have begins : front.head? ≠ some '0' := by
        intro zero
        have alone := bare (by rw [List.head?_append_of_ne_nil _ nothing, zero])
        have length := congrArg List.length alone
        rw [List.length_append] at length
        exact nothing (List.length_eq_zero_iff.mp (by simpa using length))
      have numeral := ih ⟨⟨nothing, fun d listed => digits d (by simp [listed])⟩,
        fun zero => absurd zero begins⟩
      have positive : place front ≠ 0 := by
        intro zero
        rw [zero] at numeral
        exact begins (by rw [numeral, ofNat_zero]; rfl)
      have value : place (front ++ [c]) = place front * 10 + (c.toNat - '0'.toNat) := by
        rw [place_append, place_singleton, List.length_singleton, pow_one]
      have tens : place (front ++ [c]) / 10 = place front := by omega
      have ones : place (front ++ [c]) % 10 = c.toNat - '0'.toNat := by omega
      rw [ofNat, if_neg (by omega), tens, ones, ← numeral, digitChar_of_isDigit digit]

end Decimal

end CallDispatch.Text
