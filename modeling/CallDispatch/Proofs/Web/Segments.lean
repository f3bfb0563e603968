import CallDispatch.Proofs.Text.Encodings
import CallDispatch.Web.Url

/-!
# Texts as path segments

A text that is appended to a path as a segment loses its tabs and line ends. What is left is escaped
so that it has no slash and its escapes stand for just its bytes. A text that is one dot or two
before or after that is not a segment of its own.
-/

namespace CallDispatch.Web

namespace Percent

variable {escapes : Char → Bool}

theorem hexValue?_upper : ∀ d < 16, Text.hexValue? (Text.hexDigit d 'A') = some d := by decide

/-- An escaped byte stands for itself. -/
theorem decode_escapeByte (b : UInt8) (rest : List Char) :
    decode (escapeByte b ++ rest) = b :: decode rest := by
  have bound := b.toNat_lt
  have high := hexValue?_upper (b.toNat / 16) (by omega)
  have low := hexValue?_upper (b.toNat % 16) (by omega)
  have whole : 16 * (b.toNat / 16) + b.toNat % 16 = b.toNat := Nat.div_add_mod _ _
  simp only [escapeByte, List.cons_append, List.nil_append, decode, high, low, whole]
  rw [UInt8.ofNat_toNat]

theorem decode_escapeBytes (bytes : List UInt8) (rest : List Char) :
    decode (bytes.flatMap escapeByte ++ rest) = bytes ++ decode rest := by
  induction bytes with
  | nil => rfl
  | cons b bytes ih =>
    rw [List.flatMap_cons, List.append_assoc, decode_escapeByte, ih, List.cons_append]

theorem decode_cons_of_ne {c : Char} (ne : c ≠ '%') (rest : List Char) :
    decode (c :: rest) = Text.Utf8.encodeChar c ++ decode rest := by
  rw [decode]
  rintro _ _ _ rfl
  exact absurd rfl ne

/-- An escaped text stands for its bytes. -/
theorem decode_encode (percent : escapes '%' = true) (s rest : List Char) :
    decode (encode escapes s ++ rest) = Text.Utf8.encode s ++ decode rest := by
  induction s with
  | nil => rfl
  | cons c s ih =>
    have char (tail : List Char) :
        decode (encodeChar escapes c ++ tail) = Text.Utf8.encodeChar c ++ decode tail := by
      rw [encodeChar]
      split
      · exact decode_escapeBytes _ _
      · next plain =>
        refine decode_cons_of_ne ?_ tail
        rintro rfl
        simp [percent] at plain
    rw [encode, List.flatMap_cons, List.append_assoc, char]
    exact (congrArg _ ih).trans (List.append_assoc _ _ _).symm

/-- Escaping keeps texts apart. -/
theorem decode_encode_self (percent : escapes '%' = true) (s : List Char) :
    decode (encode escapes s) = Text.Utf8.encode s := by
  have whole := decode_encode percent s []
  rwa [List.append_nil, decode, List.append_nil] at whole

/-- What is escaped does not stand in an escaped text, unless escapes are made of it. -/
theorem not_mem_encode {c : Char} (escaped : escapes c = true) (mark : c ≠ '%')
    (digits : ∀ d < 16, Text.hexDigit d 'A' ≠ c) (s : List Char) : c ∉ encode escapes s := by
  intro listed
  obtain ⟨x, -, own⟩ := List.mem_flatMap.mp listed
  rw [encodeChar] at own
  split at own
  · obtain ⟨b, -, inside⟩ := List.mem_flatMap.mp own
    have bound := b.toNat_lt
    simp only [escapeByte, List.mem_cons, List.not_mem_nil, or_false] at inside
    rcases inside with rfl | rfl | rfl
    · exact mark rfl
    · exact digits _ (by omega) rfl
    · exact digits _ (by omega) rfl
  · next plain =>
    rw [List.mem_singleton.mp own] at escaped
    simp [escaped] at plain

/-- A text that needs no escapes stays as it is. -/
theorem encode_of_plain {s : List Char}
    (plain : ∀ c ∈ s, (decide (0x80 ≤ c.toNat) || escapes c) = false) : encode escapes s = s := by
  induction s with
  | nil => rfl
  | cons c s ih =>
    rw [encode, List.flatMap_cons, encodeChar, plain c List.mem_cons_self]
    exact congrArg (c :: ·) (ih fun x listed => plain x (List.mem_cons_of_mem c listed))

end Percent

/-! ## Dots -/

/-- A capital letter is put in lower case by the distance between the two. -/
theorem toLower_cases (c : Char) : c.toLower = c ∨
    (0x41 ≤ c.toNat ∧ c.toNat ≤ 0x5A ∧ c.toLower.toNat = c.toNat + 0x20) := by
  by_cases upper : 'A' ≤ c ∧ c ≤ 'Z'
  · have lowered : c.toLower.val = c.val + ('a'.val - 'A'.val) := congrArg Char.val (dif_pos upper)
    obtain ⟨low, high⟩ := upper
    have low' : 0x41 ≤ c.val.toNat := UInt32.le_iff_toNat_le.mp low
    have high' : c.val.toNat ≤ 0x5A := UInt32.le_iff_toNat_le.mp high
    refine Or.inr ⟨low', high', ?_⟩
    change c.toLower.val.toNat = c.val.toNat + 0x20
    rw [lowered, UInt32.toNat_add]
    exact Nat.mod_eq_of_lt (by change c.val.toNat + 32 < _; omega)
  · exact Or.inl (dif_neg upper)

/-- A letter by its number. -/
theorem isAlpha_iff {c : Char} : c.isAlpha = true ↔
    (0x41 ≤ c.toNat ∧ c.toNat ≤ 0x5A) ∨ (0x61 ≤ c.toNat ∧ c.toNat ≤ 0x7A) := by
  have upper : c.isUpper = true ↔ 0x41 ≤ c.toNat ∧ c.toNat ≤ 0x5A := by
    change decide ('A'.val ≤ c.val ∧ c.val ≤ 'Z'.val) = true ↔ _
    rw [decide_eq_true_eq, UInt32.le_iff_toNat_le, UInt32.le_iff_toNat_le]
    rfl
  have lower : c.isLower = true ↔ 0x61 ≤ c.toNat ∧ c.toNat ≤ 0x7A := by
    change (decide ('a'.val ≤ c.val) && decide (c.val ≤ 'z'.val)) = true ↔ _
    rw [Bool.and_eq_true, decide_eq_true_eq, decide_eq_true_eq, UInt32.le_iff_toNat_le,
      UInt32.le_iff_toNat_le]
    rfl
  change (c.isUpper || c.isLower) = true ↔ _
  rw [Bool.or_eq_true, upper, lower]

/-- What is a letter in lower case was a letter before. -/
theorem isAlpha_of_toLower {c : Char}
    (lower : 0x61 ≤ c.toLower.toNat ∧ c.toLower.toNat ≤ 0x7A) : c.isAlpha = true := by
  rw [isAlpha_iff]
  rcases toLower_cases c with same | ⟨low, high, -⟩
  · rw [same] at lower
    exact Or.inr lower
  · exact Or.inl ⟨low, high⟩

/-- What is no lower-case letter in the end was none before. -/
theorem eq_of_toLower_eq {c d : Char} (lower : c.toLower = d)
    (other : ¬ (0x61 ≤ d.toNat ∧ d.toNat ≤ 0x7A)) : c = d := by
  rcases toLower_cases c with same | ⟨low, high, moved⟩
  · exact same.symm.trans lower
  · rw [lower] at moved
    omega

theorem hexValue?_of_toLower_e {c : Char} (lower : c.toLower = 'e') :
    Text.hexValue? c = some 14 := by
  rcases toLower_cases c with same | ⟨low, high, moved⟩
  · rw [← same, lower]
    decide
  · have number : c.toNat = 0x45 := by
      rw [lower] at moved
      change 0x65 = c.toNat + 0x20 at moved
      omega
    rw [Text.hexValue?, number]
    decide

variable {segment rest : List Char}

/-- A dot at the head of a segment, as such or escaped. -/
theorem decode_of_dot (lower : segment.map Char.toLower = '.' :: rest) : ∃ later,
    Percent.decode segment = 0x2E :: Percent.decode later ∧ later.map Char.toLower = rest := by
  obtain ⟨c, later, rfl, dot, rfl⟩ := List.map_eq_cons_iff.mp lower
  obtain rfl := eq_of_toLower_eq dot (by decide)
  exact ⟨later, Percent.decode_cons_of_ne (by decide) later, rfl⟩

theorem decode_of_escapedDot (lower : segment.map Char.toLower = '%' :: '2' :: 'e' :: rest) :
    ∃ later, Percent.decode segment = 0x2E :: Percent.decode later ∧
      later.map Char.toLower = rest := by
  obtain ⟨mark, tail, rfl, first, lower⟩ := List.map_eq_cons_iff.mp lower
  obtain ⟨high, tail, rfl, second, lower⟩ := List.map_eq_cons_iff.mp lower
  obtain ⟨low, later, rfl, third, rfl⟩ := List.map_eq_cons_iff.mp lower
  obtain rfl := eq_of_toLower_eq first (by decide)
  obtain rfl := eq_of_toLower_eq second (by decide)
  have two : Text.hexValue? '2' = some 2 := by decide
  refine ⟨later, ?_, rfl⟩
  simp only [Percent.decode, two, hexValue?_of_toLower_e third]
  rfl

theorem decode_of_end (lower : segment.map Char.toLower = []) : Percent.decode segment = [] := by
  rw [List.map_eq_nil_iff.mp lower]
  rfl

/-- A segment that stands for itself stands for one dot. -/
theorem decode_of_isSingleDot (single : isSingleDot segment = true) :
    Percent.decode segment = [0x2E] := by
  have cases : String.ofList (segment.map Char.toLower) = "." ∨
      String.ofList (segment.map Char.toLower) = "%2e" := by
    simpa [isSingleDot] using single
  rcases cases with plain | escaped
  · obtain ⟨later, first, last⟩ := decode_of_dot (String.ofList_inj.mp plain)
    rw [first, decode_of_end last]
  · obtain ⟨later, first, last⟩ := decode_of_escapedDot (String.ofList_inj.mp escaped)
    rw [first, decode_of_end last]

/-- A segment that stands for the one above stands for two dots. -/
theorem decode_of_isDoubleDot (double : isDoubleDot segment = true) :
    Percent.decode segment = [0x2E, 0x2E] := by
  have cases : String.ofList (segment.map Char.toLower) = ".." ∨
      String.ofList (segment.map Char.toLower) = ".%2e" ∨
      String.ofList (segment.map Char.toLower) = "%2e." ∨
      String.ofList (segment.map Char.toLower) = "%2e%2e" := by
    simpa [isDoubleDot] using double
  rcases cases with dots | later | first | both
  · obtain ⟨middle, first, lower⟩ := decode_of_dot (String.ofList_inj.mp dots)
    obtain ⟨last, second, lower⟩ := decode_of_dot lower
    rw [first, second, decode_of_end lower]
  · obtain ⟨middle, first, lower⟩ := decode_of_dot (String.ofList_inj.mp later)
    obtain ⟨last, second, lower⟩ := decode_of_escapedDot lower
    rw [first, second, decode_of_end lower]
  · obtain ⟨middle, first, lower⟩ := decode_of_escapedDot (String.ofList_inj.mp first)
    obtain ⟨last, second, lower⟩ := decode_of_dot lower
    rw [first, second, decode_of_end lower]
  · obtain ⟨middle, first, lower⟩ := decode_of_escapedDot (String.ofList_inj.mp both)
    obtain ⟨last, second, lower⟩ := decode_of_escapedDot lower
    rw [first, second, decode_of_end lower]

/-! ## Segments of addresses of a well-known kind -/

/-- The segment a text becomes. -/
def written (s : List Char) : List Char := Percent.encode Percent.inWellKnownSegment s

/-- What is left of a text without tabs and line ends. -/
def stripped (s : List Char) : List Char := s.filter (!Url.isDropped ·)

/-- A segment stands for the text it was made of. -/
theorem decode_written (s : List Char) : Percent.decode (written s) = Text.Utf8.encode s :=
  Percent.decode_encode_self (by decide) s

theorem slash_not_mem_written (s : List Char) : '/' ∉ written s :=
  Percent.not_mem_encode (by decide) (by decide) (by decide) s

/-- Only a lone dot becomes a segment that stands for itself. -/
theorem isSingleDot_written (s : List Char) : isSingleDot (written s) = decide (s = ['.']) := by
  by_cases dot : s = ['.']
  · rw [dot]
    decide
  · rw [decide_eq_false dot, Bool.eq_false_iff]
    intro single
    have bytes := decode_of_isSingleDot single
    rw [decode_written] at bytes
    exact dot (Text.Utf8.encode_inj bytes)

/-- Only two dots become a segment that stands for the one above. -/
theorem isDoubleDot_written (s : List Char) :
    isDoubleDot (written s) = decide (s = ['.', '.']) := by
  by_cases dots : s = ['.', '.']
  · rw [dots]
    decide
  · rw [decide_eq_false dots, Bool.eq_false_iff]
    intro double
    have bytes := decode_of_isDoubleDot double
    rw [decode_written] at bytes
    exact dots (Text.Utf8.encode_inj bytes)

/-- What becomes of a path to which a text is appended. -/
theorem appendSegment_eq (path : List (List Char)) (s : List Char) :
    Url.appendSegment true path s =
      if s = ['.'] ∨ s = ['.', '.'] then path
      else if stripped s = ['.', '.'] then (if path = [[]] then [] else path).dropLast ++ [[]]
      else if stripped s = ['.'] then (if path = [[]] then [] else path) ++ [[]]
      else (if path = [[]] then [] else path) ++ [written (stripped s)] := by
  have double := isDoubleDot_written (stripped s)
  have single := isSingleDot_written (stripped s)
  rw [written, stripped] at double single
  simp only [Url.appendSegment, if_true, addSegment, double, single, decide_eq_true_eq]
  rfl

/-- A numeral is its own segment. -/
theorem written_numeral (n : Nat) : written (Text.Decimal.ofNat n) = Text.Decimal.ofNat n :=
  Percent.encode_of_plain fun _ listed => Text.Decimal.ofNat_all
    (p := fun c => (decide (0x80 ≤ c.toNat) || Percent.inWellKnownSegment c) = false)
    (by decide) listed

theorem stripped_numeral (n : Nat) : stripped (Text.Decimal.ofNat n) = Text.Decimal.ofNat n :=
  List.filter_eq_self.mpr fun _ listed =>
    Text.Decimal.ofNat_all (p := fun c => (!Url.isDropped c) = true) (by decide) listed

/-- A numeral is appended as it is. -/
theorem appendSegment_numeral (path : List (List Char)) (n : Nat) :
    Url.appendSegment true path (Text.Decimal.ofNat n) =
      (if path = [[]] then [] else path) ++ [Text.Decimal.ofNat n] := by
  have noDot : '.' ∉ Text.Decimal.ofNat n := fun listed =>
    Text.Decimal.ofNat_all (p := (· ≠ '.')) (by decide) listed rfl
  have single : Text.Decimal.ofNat n ≠ ['.'] := fun same => noDot (by simp [same])
  have double : Text.Decimal.ofNat n ≠ ['.', '.'] := fun same => noDot (by simp [same])
  rw [appendSegment_eq, stripped_numeral, written_numeral]
  simp only [single, double, or_self, if_false]

end CallDispatch.Web
