import CallDispatch.Text.Base64
import CallDispatch.Text.Blank
import CallDispatch.Text.Decimal
import CallDispatch.Text.Utf8

/-!
# What is written can be read back

The bytes of a text are read as the characters of that text, and no other bytes are; bytes wrapped
in base64 are read as those bytes, and the numeral of a machine word as that word.
-/

namespace CallDispatch.Text

/-! ## Bytes -/

theorem ofNat_eq_of_toNat {n : Nat} {b : UInt8} (same : n = b.toNat) : UInt8.ofNat n = b := by
  rw [same, UInt8.ofNat_toNat]

namespace Utf8

variable {b : UInt8} {value owed least greatest : Nat}

/-- A byte that begins a longer character. -/
theorem decodeFrom_lead {p : Progress} (high : 0x80 ≤ b.toNat) (begins : lead b.toNat = some p)
    (rest : List UInt8) : decodeFrom .between (b :: rest) = decodeFrom p rest := by
  have above : ¬ b.toNat < 0x80 := by omega
  simp [decodeFrom, step, start, above, begins]

/-- A byte inside a character, and not its last. -/
theorem decodeFrom_inside (low : least ≤ b.toNat) (high : b.toNat ≤ greatest)
    (rest : List UInt8) :
    decodeFrom (.inside value (owed + 2) least greatest) (b :: rest) =
      decodeFrom (.inside (value * 64 + b.toNat % 64) (owed + 1) 0x80 0xBF) rest := by
  simp [decodeFrom, step, low, high]

/-- The last byte of a character. -/
theorem decodeFrom_last (low : least ≤ b.toNat) (high : b.toNat ≤ greatest)
    (rest : List UInt8) :
    decodeFrom (.inside value 1 least greatest) (b :: rest) =
      .char (Char.ofNat (value * 64 + b.toNat % 64)) :: decodeFrom .between rest := by
  simp [decodeFrom, step, low, high]

theorem toNat_ofNat_of_lt {n : Nat} (small : n < 256) : (UInt8.ofNat n).toNat = n := by
  rw [UInt8.toNat_ofNat']
  exact Nat.mod_eq_of_lt small

/-- What the first of three bytes begins allows for the second. -/
theorem lead_of_three {n : Nat} (least : 0x800 ≤ n) (below : n < 0x10000)
    (valid : n < 0xD800 ∨ 0xDFFF < n) : ∃ low high,
      lead (0xE0 + n / 4096) = some (.inside (n / 4096) 2 low high) ∧
      low ≤ 0x80 + n / 64 % 64 ∧ 0x80 + n / 64 % 64 ≤ high := by
  by_cases zero : n / 4096 = 0
  · refine ⟨0xA0, 0xBF, ?_, ?_, ?_⟩
    · rw [zero]
      decide
    · omega
    · omega
  · by_cases thirteen : n / 4096 = 13
    · refine ⟨0x80, 0x9F, ?_, ?_, ?_⟩
      · rw [thirteen]
        decide
      · omega
      · omega
    · refine ⟨0x80, 0xBF, ?_, ?_, ?_⟩
      · rw [lead, if_neg (by omega), if_neg (by omega), if_neg (by omega), if_pos (by omega),
          Nat.add_sub_cancel_left]
      · omega
      · omega

/-- What the first of four bytes begins allows for the second. -/
theorem lead_of_four {n : Nat} (least : 0x10000 ≤ n) (below : n < 0x110000) : ∃ low high,
    lead (0xF0 + n / 262144) = some (.inside (n / 262144) 3 low high) ∧
      low ≤ 0x80 + n / 4096 % 64 ∧ 0x80 + n / 4096 % 64 ≤ high := by
  by_cases zero : n / 262144 = 0
  · refine ⟨0x90, 0xBF, ?_, ?_, ?_⟩
    · rw [zero]
      decide
    · omega
    · omega
  · by_cases four : n / 262144 = 4
    · refine ⟨0x80, 0x8F, ?_, ?_, ?_⟩
      · rw [four]
        decide
      · omega
      · omega
    · refine ⟨0x80, 0xBF, ?_, ?_, ?_⟩
      · rw [lead, if_neg (by omega), if_neg (by omega), if_neg (by omega), if_neg (by omega),
          if_neg (by omega), if_neg (by omega), if_pos (by omega), Nat.add_sub_cancel_left]
      · omega
      · omega

/-- One character is read back. -/
theorem decodeFrom_encodeChar (c : Char) (rest : List UInt8) :
    decodeFrom .between (encodeChar c ++ rest) = .char c :: decodeFrom .between rest := by
  have valid : c.toNat < 0xD800 ∨ 0xDFFF < c.toNat ∧ c.toNat < 0x110000 := c.valid
  rw [encodeChar]
  generalize number : c.toNat = n at valid
  have back : Char.ofNat n = c := number ▸ Char.ofNat_toNat c
  have last := toNat_ofNat_of_lt (n := 0x80 + n % 64) (by omega)
  have middle := toNat_ofNat_of_lt (n := 0x80 + n / 64 % 64) (by omega)
  split
  · next below =>
    have byte := toNat_ofNat_of_lt (n := n) (by omega)
    simp [decodeFrom, step, start, byte, below, back]
  · next above =>
    split
    · next below =>
      have first := toNat_ofNat_of_lt (n := 0xC0 + n / 64) (by omega)
      have begins : lead (0xC0 + n / 64) = some (.inside (n / 64) 1 0x80 0xBF) := by
        rw [lead, if_pos (by omega), Nat.add_sub_cancel_left]
      have whole : n / 64 * 64 + (0x80 + n % 64) % 64 = n := by omega
      simp only [List.cons_append, List.nil_append]
      rw [decodeFrom_lead (by omega) (first.symm ▸ begins), decodeFrom_last (by omega) (by omega),
        last, whole, back]
    · next above' =>
      split
      · next below =>
        have first := toNat_ofNat_of_lt (n := 0xE0 + n / 4096) (by omega)
        obtain ⟨low, high, begins, above'', below''⟩ :=
          lead_of_three (by omega) below (by omega)
        have whole : (n / 4096 * 64 + (0x80 + n / 64 % 64) % 64) * 64 +
            (0x80 + n % 64) % 64 = n := by
          omega
        simp only [List.cons_append, List.nil_append]
        rw [decodeFrom_lead (by omega) (first.symm ▸ begins),
          decodeFrom_inside (by omega) (by omega), decodeFrom_last (by omega) (by omega), middle,
          last, whole, back]
      · next above'' =>
        have first := toNat_ofNat_of_lt (n := 0xF0 + n / 262144) (by omega)
        have second := toNat_ofNat_of_lt (n := 0x80 + n / 4096 % 64) (by omega)
        obtain ⟨low, high, begins, above''', below'''⟩ :=
          lead_of_four (n := n) (by omega) (by omega)
        have whole : ((n / 262144 * 64 + (0x80 + n / 4096 % 64) % 64) * 64 +
            (0x80 + n / 64 % 64) % 64) * 64 + (0x80 + n % 64) % 64 = n := by
          omega
        simp only [List.cons_append, List.nil_append]
        rw [decodeFrom_lead (by omega) (first.symm ▸ begins),
          decodeFrom_inside (by omega) (by omega), decodeFrom_inside (by omega) (by omega),
          decodeFrom_last (by omega) (by omega), second, middle, last, whole, back]

/-- A text is read back from its bytes. -/
theorem decode_encode (s : List Char) : decode (encode s) = s.map .char := by
  rw [decode, encode]
  induction s with
  | nil => rfl
  | cons c rest ih => rw [List.flatMap_cons, decodeFrom_encodeChar, ih, List.map_cons]

/-- Texts with the same bytes are the same. -/
theorem encode_inj {s t : List Char} (same : encode s = encode t) : s = t := by
  have read := congrArg (fun bytes => characters? (decode bytes)) same
  simp only [decode_encode, characters?_map_char] at read
  exact Option.some.inj read

/-- The number of the character with a number. -/
theorem toNat_ofNat_of_valid {n : Nat} (valid : n < 0xD800 ∨ 0xDFFF < n ∧ n < 0x110000) :
    (Char.ofNat n).toNat = n := by
  rw [Char.ofNat, dif_pos valid]
  rfl

/-- A reader inside a character that is left with no stray piece finds the byte it waits for, and
goes on behind it. -/
theorem decodeFrom_inside_sound {bytes : List UInt8} {s : List Char}
    (read : characters? (decodeFrom (.inside value (owed + 2) least greatest) bytes) = some s) :
    ∃ b rest, bytes = b :: rest ∧ (least ≤ b.toNat ∧ b.toNat ≤ greatest) ∧
      characters? (decodeFrom (.inside (value * 64 + b.toNat % 64) (owed + 1) 0x80 0xBF) rest) =
        some s := by
  cases bytes with
  | nil => cases read
  | cons b rest =>
    by_cases inside : least ≤ b.toNat ∧ b.toNat ≤ greatest
    · rw [decodeFrom_inside inside.1 inside.2] at read
      exact ⟨b, rest, rfl, inside, read⟩
    · simp [decodeFrom, step, inside, characters?] at read

/-- The same for the last byte of a character. -/
theorem decodeFrom_last_sound {bytes : List UInt8} {s : List Char}
    (read : characters? (decodeFrom (.inside value 1 least greatest) bytes) = some s) :
    ∃ b rest later, bytes = b :: rest ∧ (least ≤ b.toNat ∧ b.toNat ≤ greatest) ∧
      s = Char.ofNat (value * 64 + b.toNat % 64) :: later ∧
      characters? (decode rest) = some later := by
  cases bytes with
  | nil => cases read
  | cons b rest =>
    by_cases inside : least ≤ b.toNat ∧ b.toNat ≤ greatest
    · rw [decodeFrom_last inside.1 inside.2, characters?, Option.map_eq_some_iff] at read
      obtain ⟨later, read, rfl⟩ := read
      exact ⟨b, rest, later, rfl, inside, rfl, read⟩
    · simp [decodeFrom, step, inside, characters?] at read

/-- What a byte in first position begins, by the length of the character. -/
theorem lead_cases {n : Nat} {p : Progress} (begins : lead n = some p) :
    ((0xC2 ≤ n ∧ n ≤ 0xDF) ∧ p = .inside (n - 0xC0) 1 0x80 0xBF) ∨
    (∃ low high, ((0xE0 ≤ n ∧ n ≤ 0xEF) ∧ 0x80 ≤ low ∧ high ≤ 0xBF ∧ (n = 0xE0 → low = 0xA0) ∧
      (n = 0xED → high = 0x9F)) ∧ p = .inside (n - 0xE0) 2 low high) ∨
    ∃ low high, ((0xF0 ≤ n ∧ n ≤ 0xF4) ∧ 0x80 ≤ low ∧ high ≤ 0xBF ∧ (n = 0xF0 → low = 0x90) ∧
      (n = 0xF4 → high = 0x8F)) ∧ p = .inside (n - 0xF0) 3 low high := by
  rw [lead] at begins
  split at begins
  · next two => exact .inl ⟨two, (Option.some.inj begins).symm⟩
  split at begins
  · next first =>
    subst first
    exact .inr (.inl ⟨0xA0, 0xBF, by decide, (Option.some.inj begins).symm⟩)
  split at begins
  · next last =>
    subst last
    exact .inr (.inl ⟨0x80, 0x9F, by decide, (Option.some.inj begins).symm⟩)
  split at begins
  · next three => exact .inr (.inl ⟨0x80, 0xBF, by omega, (Option.some.inj begins).symm⟩)
  split at begins
  · next first =>
    subst first
    exact .inr (.inr ⟨0x90, 0xBF, by decide, (Option.some.inj begins).symm⟩)
  split at begins
  · next last =>
    subst last
    exact .inr (.inr ⟨0x80, 0x8F, by decide, (Option.some.inj begins).symm⟩)
  split at begins
  · next four => exact .inr (.inr ⟨0x80, 0xBF, by omega, (Option.some.inj begins).symm⟩)
  · cases begins

/-- Bytes that are read without a stray piece are those of the text that is read. -/
theorem encode_of_characters? {bytes : List UInt8} {s : List Char}
    (read : characters? (decode bytes) = some s) : encode s = bytes := by
  induction size : bytes.length using Nat.strongRecOn generalizing bytes s with
  | _ n ih =>
    cases bytes with
    | nil =>
      rw [← Option.some.inj read]
      rfl
    | cons b rest =>
      rw [List.length_cons] at size
      by_cases ascii : b.toNat < 0x80
      · have first : decode (b :: rest) = .char (Char.ofNat b.toNat) :: decode rest := by
          simp [decode, decodeFrom, step, start, ascii]
        rw [first, characters?, Option.map_eq_some_iff] at read
        obtain ⟨later, read, rfl⟩ := read
        have behind := ih rest.length (by omega) read rfl
        rw [encode, List.flatMap_cons, ← encode, behind, encodeChar,
          toNat_ofNat_of_valid (by omega)]
        simp [ascii]
      · cases begins : lead b.toNat with
        | none => simp [decode, decodeFrom, step, start, ascii, begins, characters?] at read
        | some p =>
          rw [decode, decodeFrom_lead (by omega) begins] at read
          -- The bytes that follow are those the lead asks for, and write the same number.
          rcases lead_cases begins with ⟨range, rfl⟩ | ⟨low, high, range, rfl⟩ |
            ⟨low, high, range, rfl⟩
          · obtain ⟨c, rest, later, rfl, inside, rfl, more⟩ := decodeFrom_last_sound read
            rw [List.length_cons] at size
            have behind := ih rest.length (by omega) more rfl
            rw [encode, List.flatMap_cons, ← encode, behind, encodeChar,
              toNat_ofNat_of_valid (by omega), if_neg (by omega), if_pos (by omega),
              ofNat_eq_of_toNat (b := b) (by omega), ofNat_eq_of_toNat (b := c) (by omega)]
            rfl
          · obtain ⟨c, rest, rfl, inside, read⟩ := decodeFrom_inside_sound read
            obtain ⟨d, rest, later, rfl, inside', rfl, more⟩ := decodeFrom_last_sound read
            rw [List.length_cons, List.length_cons] at size
            have behind := ih rest.length (by omega) more rfl
            rw [encode, List.flatMap_cons, ← encode, behind, encodeChar,
              toNat_ofNat_of_valid (by omega), if_neg (by omega), if_neg (by omega),
              if_pos (by omega), ofNat_eq_of_toNat (b := b) (by omega),
              ofNat_eq_of_toNat (b := c) (by omega), ofNat_eq_of_toNat (b := d) (by omega)]
            rfl
          · obtain ⟨c, rest, rfl, inside, read⟩ := decodeFrom_inside_sound read
            obtain ⟨d, rest, rfl, inside', read⟩ := decodeFrom_inside_sound read
            obtain ⟨e, rest, later, rfl, inside'', rfl, more⟩ := decodeFrom_last_sound read
            rw [List.length_cons, List.length_cons, List.length_cons] at size
            have behind := ih rest.length (by omega) more rfl
            rw [encode, List.flatMap_cons, ← encode, behind, encodeChar,
              toNat_ofNat_of_valid (by omega), if_neg (by omega), if_neg (by omega),
              if_neg (by omega), ofNat_eq_of_toNat (b := b) (by omega),
              ofNat_eq_of_toNat (b := c) (by omega), ofNat_eq_of_toNat (b := d) (by omega),
              ofNat_eq_of_toNat (b := e) (by omega)]
            rfl

/-- Bytes are read as a text exactly when they are its bytes. -/
theorem characters?_eq_some_iff {bytes : List UInt8} {s : List Char} :
    characters? (decode bytes) = some s ↔ bytes = encode s :=
  ⟨fun read => (encode_of_characters? read).symm,
    fun same => by rw [same, decode_encode, characters?_map_char]⟩

end Utf8

/-! ## Bytes in base64 -/

namespace Base64

theorem digit?_digitChar {d : Nat} (small : d < 64) : digit? (digitChar d) = some d := by
  revert d
  decide

theorem digitChar_ne_pad {d : Nat} (small : d < 64) : digitChar d ≠ '=' := by
  revert d
  decide

theorem isBlank_digitChar {d : Nat} (small : d < 64) : isBlank (digitChar d) = false := by
  revert d
  decide

/-- A group that is not padded. -/
theorem decode_group (a b c : Char) {d : Char} (whole : d ≠ '=') (rest : List Char) :
    decode (a :: b :: c :: d :: rest) = (do
      let n := (((← digit? a) * 64 + (← digit? b)) * 64 + (← digit? c)) * 64 + (← digit? d)
      let bytes ← decode rest
      some (UInt8.ofNat (n / 65536) :: UInt8.ofNat (n / 256 % 256) :: UInt8.ofNat (n % 256) ::
        bytes)) := by
  rw [decode]
  · exact fun _ pad _ => whole pad
  · exact fun pad _ => whole pad

/-- Bytes are read back from their base64. -/
theorem decode_encode (bytes : List UInt8) : decode (encode bytes) = some bytes := by
  induction bytes using encode.induct with
  | case1 => rfl
  | case2 a =>
    have byte := a.toNat_lt
    have first := digit?_digitChar (d := a.toNat / 4) (by omega)
    have second := digit?_digitChar (d := a.toNat % 4 * 16) (by omega)
    simp only [encode, decode, first, second, bind, Option.bind]
    rw [if_pos (by omega), ofNat_eq_of_toNat (b := a) (by omega)]
  | case3 a b =>
    have bytes := And.intro a.toNat_lt b.toNat_lt
    rw [encode]
    generalize number : a.toNat * 256 + b.toNat = n
    have first := digit?_digitChar (d := n / 1024) (by omega)
    have second := digit?_digitChar (d := n / 16 % 64) (by omega)
    have third := digit?_digitChar (d := n % 16 * 4) (by omega)
    rw [decode]
    · simp only [first, second, third, bind, Option.bind]
      rw [if_pos (by omega), ofNat_eq_of_toNat (b := a) (by omega),
        ofNat_eq_of_toNat (b := b) (by omega)]
    · exact digitChar_ne_pad (by omega)
  | case4 a b c rest ih =>
    have bytes := And.intro a.toNat_lt (And.intro b.toNat_lt c.toNat_lt)
    rw [encode]
    generalize number : (a.toNat * 256 + b.toNat) * 256 + c.toNat = n
    have first := digit?_digitChar (d := n / 262144) (by omega)
    have second := digit?_digitChar (d := n / 4096 % 64) (by omega)
    have third := digit?_digitChar (d := n / 64 % 64) (by omega)
    have fourth := digit?_digitChar (d := n % 64) (by omega)
    rw [decode_group _ _ _ (digitChar_ne_pad (by omega))]
    simp only [first, second, third, fourth, ih, bind, Option.bind]
    rw [ofNat_eq_of_toNat (b := a) (by omega), ofNat_eq_of_toNat (b := b) (by omega),
      ofNat_eq_of_toNat (b := c) (by omega)]

/-- Base64 has no blanks. -/
theorem isBlank_of_mem_encode {bytes : List UInt8} {c : Char} (listed : c ∈ encode bytes) :
    isBlank c = false := by
  have pad : isBlank '=' = false := by decide
  induction bytes using encode.induct with
  | case1 => cases listed
  | case2 a =>
    have byte := a.toNat_lt
    simp only [encode, List.mem_cons, List.not_mem_nil, or_false] at listed
    rcases listed with rfl | rfl | rfl | rfl <;>
      first | exact pad | exact isBlank_digitChar (by omega)
  | case3 a b =>
    have bytes := And.intro a.toNat_lt b.toNat_lt
    simp only [encode, List.mem_cons, List.not_mem_nil, or_false] at listed
    rcases listed with rfl | rfl | rfl | rfl <;>
      first | exact pad | exact isBlank_digitChar (by omega)
  | case4 a b c rest ih =>
    have bytes := And.intro a.toNat_lt (And.intro b.toNat_lt c.toNat_lt)
    simp only [encode, List.mem_cons] at listed
    rcases listed with rfl | rfl | rfl | rfl | later
    · exact isBlank_digitChar (by omega)
    · exact isBlank_digitChar (by omega)
    · exact isBlank_digitChar (by omega)
    · exact isBlank_digitChar (by omega)
    · exact ih later

end Base64

/-! ## Numerals -/

namespace Decimal

/-- A numeral consists of digits. -/
theorem mem_ofNat {n : Nat} {c : Char} (listed : c ∈ ofNat n) : ∃ d < 10, c = digitChar d := by
  induction n using Nat.strongRecOn with
  | _ n ih =>
    rw [ofNat] at listed
    split at listed
    · next small => exact ⟨n, small, List.mem_singleton.mp listed⟩
    · next large =>
      rcases List.mem_append.mp listed with front | last
      · exact ih (n / 10) (by omega) front
      · exact ⟨n % 10, Nat.mod_lt n (by omega), List.mem_singleton.mp last⟩

/-- What holds of every digit holds of the characters of a numeral. -/
theorem ofNat_all {p : Char → Prop} (digits : ∀ d < 10, p (digitChar d)) {n : Nat} {c : Char}
    (listed : c ∈ ofNat n) : p c := by
  obtain ⟨d, small, rfl⟩ := mem_ofNat listed
  exact digits d small

/-- What begins with no plus sign is read as it is. -/
theorem unsigned_of_not_mem {s : List Char} (none : '+' ∉ s) : unsigned s = s := by
  unfold unsigned
  split
  · exact absurd List.mem_cons_self none
  · rfl

theorem plus_not_mem_ofNat (n : Nat) : '+' ∉ ofNat n := fun listed =>
  ofNat_all (p := (· ≠ '+')) (by decide) listed rfl

/-- The numeral of a machine word is read back. -/
theorem readWord_ofNat {n : Nat} (word : n < wordBound) : readWord (ofNat n) = some n := by
  rw [readWord, unsigned_of_not_mem (plus_not_mem_ofNat n), readDigits_ofNat]
  exact if_pos word

/-- Zeros in front do not count. -/
theorem readFrom_zeros (count : Nat) (s : List Char) :
    readFrom 0 (List.replicate count '0' ++ s) = readFrom 0 s := by
  induction count with
  | zero => rfl
  | succ count ih => exact ih

/-- A machine word is read back from its numeral, however far that is padded. -/
theorem readWord_padded (width : Nat) {n : Nat} (word : n < wordBound) :
    readWord (padded width n) = some n := by
  have signless : '+' ∉ padded width n := by
    intro listed
    rcases List.mem_append.mp listed with zero | digit
    · cases List.eq_of_mem_replicate zero
    · exact plus_not_mem_ofNat n digit
  have digits : readDigits (padded width n) = some n := by
    cases numeral : padded width n with
    | nil => exact absurd (List.append_eq_nil_iff.mp numeral).2 (ofNat_ne_nil n)
    | cons c rest =>
      rw [readDigits, ← numeral, padded, readFrom_zeros, readFrom_ofNat]
      exact List.cons_ne_nil c rest
  rw [readWord, unsigned_of_not_mem signless, digits]
  exact if_pos word

end Decimal

end CallDispatch.Text
