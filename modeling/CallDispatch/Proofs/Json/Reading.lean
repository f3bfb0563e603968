import CallDispatch.Proofs.Json.Values
import CallDispatch.Proofs.Text.Encodings

/-!
# Reading what was written

The compact text of a value without floating-point numbers is read as the document of that value,
whatever separator or bracket follows it. The length of a text is fuel enough to read it.
-/

namespace CallDispatch

namespace Json

open Text (Symbol)

/-! ## Strings -/

/-- How the form of a character inside a string is read: a control character without a short form
by its number, and any other as itself. -/
def pieceOf (c : Char) : Piece :=
  if c.toNat < 0x20 ∧ c ≠ '\n' ∧ c ≠ '\r' ∧ c ≠ '\t' ∧ c.toNat ≠ 8 ∧ c.toNat ≠ 12 then
    .unit c.toNat
  else .char c

theorem pieceOf_of_ge {c : Char} (shown : ¬ c.toNat < 0x20) : pieceOf c = .char c :=
  if_neg fun control => shown control.1

theorem hexDigit?_hexDigit {d : Nat} (small : d < 16) :
    hexDigit? (.char (Text.hexDigit d)) = some d := by
  revert d
  decide

/-- A character that stands for itself. -/
theorem scanString_shown {c : Char} (noQuote : c ≠ '"') (noBackslash : c ≠ '\\')
    (shown : ¬ c.toNat < 0x20) (rest : List Symbol) :
    scanString (.char c :: rest) = (Piece.char c).before (scanString rest) := by
  rw [scanString]
  · exact if_neg shown
  all_goals simp [noQuote, noBackslash]

/-- A character given by its number. -/
theorem scanString_control {c : Char} (control : c.toNat < 0x20) (rest : List Symbol) :
    scanString (.char '\\' :: .char 'u' :: .char '0' :: .char '0' ::
        .char (Text.hexDigit (c.toNat / 16)) :: .char (Text.hexDigit (c.toNat % 16)) :: rest) =
      (Piece.unit c.toNat).before (scanString rest) := by
  have zero : hexDigit? (.char '0') = some 0 := rfl
  have high := hexDigit?_hexDigit (d := c.toNat / 16) (by omega)
  have low := hexDigit?_hexDigit (d := c.toNat % 16) (by omega)
  have number : ((0 * 16 + 0) * 16 + c.toNat / 16) * 16 + c.toNat % 16 = c.toNat := by omega
  rw [scanString]
  simp only [hexUnit?, zero, high, low, bind, Option.bind, number]

/-- A character inside a string is read back. -/
theorem scanString_renderChar (c : Char) (rest : List Symbol) :
    scanString ((renderChar c).map .char ++ rest) = (pieceOf c).before (scanString rest) := by
  unfold renderChar
  split
  · next quote =>
    subst quote
    rfl
  split
  · next backslash =>
    subst backslash
    rfl
  split
  · next newline =>
    subst newline
    rfl
  split
  · next carriage =>
    subst carriage
    rfl
  split
  · next tab =>
    subst tab
    rfl
  split
  · next backspace =>
    obtain rfl : c = Char.ofNat 8 := by rw [← backspace, Char.ofNat_toNat]
    rfl
  split
  · next feed =>
    obtain rfl : c = Char.ofNat 12 := by rw [← feed, Char.ofNat_toNat]
    rfl
  split
  · next n r t b f control =>
    have piece : pieceOf c = .unit c.toNat := if_pos ⟨control, n, r, t, b, f⟩
    rw [piece]
    exact scanString_control control rest
  · next quote backslash _ _ _ _ _ shown =>
    rw [pieceOf_of_ge shown]
    exact scanString_shown quote backslash shown rest

theorem assemble_pieceOf (c : Char) (pieces : List Piece) :
    assemble (pieceOf c :: pieces) = (assemble pieces).map (c :: ·) := by
  unfold pieceOf
  split
  · next control =>
    have low : isLeading c.toNat = false ∧ isTrailing c.toNat = false := by
      unfold isLeading isTrailing
      simp only [Bool.and_eq_false_iff, decide_eq_false_iff_not]
      omega
    have back : Char.ofNat c.toNat = c := Char.ofNat_toNat c
    cases pieces with
    | nil => simp [assemble, low, back]
    | cons p rest => cases p <;> simp [assemble, low, back]
  · rfl

/-- A string is read back. -/
theorem readString_render (s : String) (rest : List Symbol) :
    readString ((s.toList.flatMap renderChar).map .char ++ .char '"' :: rest) =
      .closed (some s) rest := by
  have scanned (cs : List Char) :
      scanString ((cs.flatMap renderChar).map .char ++ .char '"' :: rest) =
        (cs.map pieceOf, .closed rest) := by
    induction cs with
    | nil => rfl
    | cons c cs ih =>
      rw [List.flatMap_cons, List.map_append, List.append_assoc, scanString_renderChar, ih]
      rfl
  have assembled (cs : List Char) : assemble (cs.map pieceOf) = some cs := by
    induction cs with
    | nil => rfl
    | cons c cs ih => rw [List.map_cons, assemble_pieceOf, ih, Option.map_some]
  simp only [readString, scanned, assembled, Option.map_some, String.ofList_toList]

/-! ## Numbers -/

/-- What follows a value in a text: nothing, or what separates or closes. -/
inductive Ends : List Symbol → Prop where
  | nothing : Ends []
  | comma (tail : List Symbol) : Ends (.char ',' :: tail)
  | bracket (tail : List Symbol) : Ends (.char ']' :: tail)
  | brace (tail : List Symbol) : Ends (.char '\x7d' :: tail)

/-- The digits of a number. -/
def digitsOf (n : Nat) : List Nat :=
  if n < 10 then [n] else digitsOf (n / 10) ++ [n % 10]

theorem ofNat_eq_map (n : Nat) :
    Text.Decimal.ofNat n = (digitsOf n).map Text.Decimal.digitChar := by
  induction n using digitsOf.induct with
  | case1 n small => rw [Text.Decimal.ofNat, digitsOf, if_pos small, if_pos small]; rfl
  | case2 n large ih =>
    rw [Text.Decimal.ofNat, digitsOf, if_neg large, if_neg large, List.map_append, ih]
    rfl

theorem digitsOf_lt {n d : Nat} (listed : d ∈ digitsOf n) : d < 10 := by
  induction n using digitsOf.induct with
  | case1 n small =>
    rw [digitsOf, if_pos small, List.mem_singleton] at listed
    exact listed ▸ small
  | case2 n large ih =>
    rw [digitsOf, if_neg large] at listed
    rcases List.mem_append.mp listed with front | last
    · exact ih front
    · rw [List.mem_singleton.mp last]
      exact Nat.mod_lt n (by omega)

theorem digitsValue_digitsOf (n : Nat) : digitsValue (digitsOf n) = n := by
  induction n using digitsOf.induct with
  | case1 n small =>
    rw [digitsOf, if_pos small]
    simp [digitsValue]
  | case2 n large ih =>
    have parts : digitsValue (digitsOf (n / 10) ++ [n % 10]) =
        digitsValue (digitsOf (n / 10)) * 10 + n % 10 := by
      rw [digitsValue, List.foldl_append]
      rfl
    rw [digitsOf, if_neg large, parts, ih]
    omega

/-- No number but zero begins with the digit zero. -/
theorem digitsOf_eq_cons (n : Nat) : ∃ d rest, digitsOf n = d :: rest ∧ (d = 0 → n = 0) := by
  induction n using digitsOf.induct with
  | case1 n small => exact ⟨n, [], by rw [digitsOf, if_pos small], id⟩
  | case2 n large ih =>
    obtain ⟨d, rest, front, zero⟩ := ih
    refine ⟨d, rest ++ [n % 10], by rw [digitsOf, if_neg large, front]; rfl, fun none => ?_⟩
    have := zero none
    omega

theorem digitsOf_cases (n : Nat) :
    (∃ d, digitsOf n = [d]) ∨ ∃ d e rest, digitsOf n = (d + 1) :: e :: rest := by
  obtain ⟨d, rest, shape, zero⟩ := digitsOf_eq_cons n
  cases d with
  | zero =>
    obtain rfl := zero rfl
    exact Or.inl ⟨0, by rw [digitsOf, if_pos (by decide)]⟩
  | succ d =>
    cases rest with
    | nil => exact Or.inl ⟨_, shape⟩
    | cons e rest => exact Or.inr ⟨d, e, rest, shape⟩

theorem digit?_digitChar {d : Nat} (small : d < 10) :
    digit? (.char (Text.Decimal.digitChar d)) = some d :=
  Text.Decimal.digit?_digitChar small

theorem Ends.readDigits_eq {rest : List Symbol} (ends : Ends rest) :
    readDigits rest = ([], rest) := by
  cases ends <;> rfl

theorem readDigits_digits {ds : List Nat} (digits : ∀ d ∈ ds, d < 10) {rest : List Symbol}
    (ends : Ends rest) :
    readDigits ((ds.map Text.Decimal.digitChar).map .char ++ rest) = (ds, rest) := by
  induction ds with
  | nil => exact ends.readDigits_eq
  | cons d ds ih =>
    simp only [List.map_cons, List.cons_append, readDigits,
      digit?_digitChar (digits d List.mem_cons_self),
      ih fun d listed => digits d (.tail _ listed)]

/-- The numeral of a number is read back. -/
theorem readNumeral_ofNat (negative : Bool) (n : Nat) {rest : List Symbol} (ends : Ends rest) :
    readNumeral negative ((Text.Decimal.ofNat n).map .char ++ rest) =
      .read { negative, whole := digitsOf n } rest := by
  have read := readDigits_digits (fun d => digitsOf_lt (n := n) (d := d)) ends
  rw [readNumeral, ofNat_eq_map, read]
  rcases digitsOf_cases n with ⟨d, shape⟩ | ⟨d, e, ds, shape⟩
  · rw [shape]
    cases d <;> cases ends <;> rfl
  · rw [shape]
    cases ends <;> rfl

theorem readNumber_ofNat {n : Nat} (word : n < Text.Decimal.wordBound) {rest : List Symbol}
    (ends : Ends rest) :
    readNumber false ((Text.Decimal.ofNat n).map .char ++ rest) =
      (.number (.nat n), some rest) := by
  rw [readNumber, readNumeral_ofNat false n ends]
  simp [Numeral.document, digitsValue_digitsOf, word]

theorem readNumber_negative {n : Nat} (positive : 0 < n) (least : n ≤ 1 <<< 63)
    {rest : List Symbol} (ends : Ends rest) :
    readNumber true ((Text.Decimal.ofNat n).map .char ++ rest) = (.number (.neg n), some rest) := by
  have inRange : 0 < n ∧ n ≤ 1 <<< 63 := ⟨positive, least⟩
  rw [readNumber, readNumeral_ofNat true n ends]
  simp only [Numeral.document, digitsValue_digitsOf, if_true, if_pos inRange]

/-! ## Values -/

theorem skipSpace_cons {s : Symbol} (shown : isSpace s = false) (rest : List Symbol) :
    skipSpace (s :: rest) = s :: rest :=
  List.dropWhile_cons_of_neg (by simp [shown])

/-- A value that begins with a digit is a number. -/
theorem readValue_digit {d : Nat} (small : d < 10) (fuel : Nat) (rest : List Symbol) :
    readValue (fuel + 1) (.char (Text.Decimal.digitChar d) :: rest) =
      readNumber false (.char (Text.Decimal.digitChar d) :: rest) := by
  match d, small with
  | 0, _ | 1, _ | 2, _ | 3, _ | 4, _ | 5, _ | 6, _ | 7, _ | 8, _ | 9, _ => rfl

theorem readValue_text (s : String) (fuel : Nat) (rest : List Symbol) :
    readValue (fuel + 1) ((renderText s).map .char ++ rest) = (.text s, some rest) := by
  have shape : (renderText s).map Symbol.char ++ rest =
      .char '"' :: ((s.toList.flatMap renderChar).map .char ++ .char '"' :: rest) := by
    simp [renderText]
  have quote (tail : List Symbol) : skipSpace (.char '"' :: tail) = .char '"' :: tail :=
    skipSpace_cons rfl tail
  rw [shape, readValue]
  simp only [quote, readString_render]

section
variable {fuel : Nat} {c : Symbol} {s rest tail : List Symbol} {stop : Stop}
  {after : Option (List Symbol)}

/-- An array that is not closed at once has items. -/
theorem readValue_array {items : List Document} (shown : isSpace c = false)
    (more : c ≠ .char ']') (inside : readItems fuel (c :: rest) = (items, stop, after)) :
    readValue (fuel + 1) (.char '[' :: c :: rest) = (.array items stop, after) := by
  have bracket : skipSpace (.char '[' :: c :: rest) = .char '[' :: c :: rest := skipSpace_cons rfl _
  rw [readValue]
  simp only [bracket, skipSpace_cons shown]
  split
  · next none => cases none
  · next closed =>
    cases closed
    exact absurd rfl more
  · rw [inside]

/-- An object that is not closed at once has members. -/
theorem readValue_object {members : List (Option String × Document)}
    (inside : readMembers fuel false rest = (members, stop, after)) :
    readValue (fuel + 1) (.char '\x7b' :: .char '"' :: rest) = (.object members stop, after) := by
  show ((Document.object (readMembers fuel false rest).1 (readMembers fuel false rest).2.1),
    (readMembers fuel false rest).2.2) = _
  rw [inside]

/-- The last item of an array. -/
theorem readItems_last {item : Document}
    (read : readValue fuel s = (item, some (.char ']' :: tail))) :
    readItems (fuel + 1) s = ([item], .closed, some tail) := by
  rw [readItems, read]
  rfl

/-- An item followed by others. -/
theorem readItems_next {item : Document} {items : List Document}
    (read : readValue fuel s = (item, some (.char ',' :: c :: tail))) (shown : isSpace c = false)
    (more : c ≠ .char ']') (later : readItems fuel (c :: tail) = (items, stop, after)) :
    readItems (fuel + 1) s = (item :: items, stop, after) := by
  have comma : skipSpace (.char ',' :: c :: tail) = .char ',' :: c :: tail := skipSpace_cons rfl _
  rw [readItems, read]
  simp only [comma, skipSpace_cons shown]
  split
  · next none => cases none
  · next closed =>
    cases closed
    exact absurd rfl more
  · rw [later]

variable {key : Option String} {value : Document}

/-- The last member of an object. -/
theorem readMembers_last (named : readString s = .closed key (.char ':' :: rest))
    (read : readValue fuel rest = (value, some (.char '\x7d' :: tail))) (afterComma : Bool) :
    readMembers (fuel + 1) afterComma s = ([(key, value)], .closed, some tail) := by
  have colon : skipSpace (.char ':' :: rest) = .char ':' :: rest := skipSpace_cons rfl _
  rw [readMembers, named]
  simp only [colon, read]
  rfl

/-- A member followed by others. -/
theorem readMembers_next {members : List (Option String × Document)}
    (named : readString s = .closed key (.char ':' :: rest))
    (read : readValue fuel rest = (value, some (.char ',' :: .char '"' :: tail)))
    (later : readMembers fuel true tail = (members, stop, after)) (afterComma : Bool) :
    readMembers (fuel + 1) afterComma s = ((key, value) :: members, stop, after) := by
  have colon : skipSpace (.char ':' :: rest) = .char ':' :: rest := skipSpace_cons rfl _
  have comma : skipSpace (.char ',' :: .char '"' :: tail) = .char ',' :: .char '"' :: tail :=
    skipSpace_cons rfl _
  have quote : skipSpace (.char '"' :: tail) = .char '"' :: tail := skipSpace_cons rfl _
  rw [readMembers, named]
  simp only [colon, read, comma, quote, later]

end

/-- A value whose numbers are integers in range. -/
def Plain (j : Json) : Prop :=
  ∀ n, j.Holds (.number n) → n.InRange ∧ ∀ bits, n ≠ .binary64 bits

theorem Proper.plain {j : Json} (proper : j.Proper) (floatFree : j.FloatFree) : j.Plain :=
  fun n inside => ⟨proper.numbers n inside, fun bits same => floatFree bits (same ▸ inside)⟩

theorem Plain.item {items : List Json} (plain : (Json.array items).Plain) {item : Json}
    (listed : item ∈ items) : item.Plain :=
  fun n inside => plain n (.item listed inside)

theorem Plain.member {members : List (String × Json)} (plain : (Json.object members).Plain)
    {key : String} {value : Json} (listed : (key, value) ∈ members) : value.Plain :=
  fun n inside => plain n (.member listed inside)

theorem Plain.text (s : String) : (Json.text s).Plain := by
  intro n inside
  cases inside

theorem Plain.nat {n : Nat} (word : n < Text.Decimal.wordBound) : (Json.number (.nat n)).Plain := by
  intro k inside
  cases inside
  exact ⟨word, nofun⟩

theorem plain_optionalMember (name : String) (s? : Option String) :
    ∀ member ∈ optionalMember name s?, member.2.Plain := by
  cases s? with
  | none => nofun
  | some s => exact List.forall_mem_singleton.mpr (.text s)

theorem Plain.array {items : List Json} (each : ∀ item ∈ items, item.Plain) :
    (Json.array items).Plain := by
  intro n inside
  cases inside with
  | item listed inside => exact each _ listed n inside

theorem Plain.object {members : List (String × Json)} (each : ∀ member ∈ members, member.2.Plain) :
    (Json.object members).Plain := by
  intro n inside
  cases inside with
  | member listed inside => exact each _ listed n inside

/-- The text of a value begins with something that is neither a blank nor a closing bracket. -/
theorem Plain.render_eq_cons {j : Json} (plain : j.Plain) : ∃ c tail, j.render = c :: tail ∧
    isSpace (.char c) = false ∧ Symbol.char c ≠ .char ']' := by
  have digit : ∀ d < 10, isSpace (.char (Text.Decimal.digitChar d)) = false ∧
      Symbol.char (Text.Decimal.digitChar d) ≠ .char ']' := by
    decide
  cases j with
  | null => exact ⟨_, _, rfl, by decide, by decide⟩
  | bool b => cases b <;> exact ⟨_, _, rfl, by decide, by decide⟩
  | number n =>
    cases n with
    | nat n =>
      obtain ⟨d, ds, shape, -⟩ := digitsOf_eq_cons n
      refine ⟨_, _, (ofNat_eq_map n).trans (by rw [shape]; rfl), ?_⟩
      exact digit d (digitsOf_lt (n := n) (shape ▸ List.mem_cons_self))
    | neg n => exact ⟨_, _, rfl, by decide, by decide⟩
    | binary64 bits => exact absurd rfl ((plain _ (.self _)).2 bits)
  | text s => exact ⟨_, _, rfl, by decide, by decide⟩
  | array items => cases items <;> exact ⟨_, _, rfl, by decide, by decide⟩
  | object members =>
    cases members with
    | nil => exact ⟨_, _, rfl, by decide, by decide⟩
    | cons member rest => exact ⟨_, _, rfl, by decide, by decide⟩

/-- The number of a plain value is read back. -/
theorem readValue_number {n : Number} (plain : (Json.number n).Plain) {rest : List Symbol}
    (ends : Ends rest) (fuel : Nat) :
    readValue (fuel + 1) (n.render.map .char ++ rest) = (.number n, some rest) := by
  obtain ⟨inRange, noFloat⟩ := plain n (.self _)
  cases n with
  | nat n =>
    obtain ⟨d, ds, shape, -⟩ := digitsOf_eq_cons n
    have small := digitsOf_lt (n := n) (d := d) (shape ▸ List.mem_cons_self)
    have text : (Text.Decimal.ofNat n).map Symbol.char ++ rest =
        .char (Text.Decimal.digitChar d) ::
          ((ds.map Text.Decimal.digitChar).map Symbol.char ++ rest) := by
      rw [ofNat_eq_map, shape]
      rfl
    have read := readNumber_ofNat inRange ends
    show readValue (fuel + 1) ((Text.Decimal.ofNat n).map .char ++ rest) = _
    rw [text] at read ⊢
    rw [readValue_digit small, read]
  | neg n => exact readNumber_negative inRange.1 inRange.2 ends
  | binary64 bits => exact absurd rfl (noFloat bits)

mutual

/-- The text of a value is read as the document of the value. -/
theorem readValue_render (j : Json) (plain : j.Plain) {rest : List Symbol} (ends : Ends rest)
    {fuel : Nat} (enough : j.render.length ≤ fuel) :
    readValue fuel (j.render.map .char ++ rest) = (j.document, some rest) := by
  -- The recursion is on the value. Every reader takes a character off the text before it calls
  -- another, so fuel that covers the text to be read covers what is left of it.
  obtain ⟨c, tail, begins, -⟩ := plain.render_eq_cons
  obtain ⟨fuel, rfl⟩ : ∃ n, fuel = n + 1 := by
    rw [begins, List.length_cons] at enough
    exact ⟨fuel - 1, by omega⟩
  match j with
  | .null => rfl
  | .bool true => rfl
  | .bool false => rfl
  | .number n => exact readValue_number plain ends fuel
  | .text s => exact readValue_text s fuel rest
  | .array items =>
    have inside := readItems_render items fun item listed => plain.item listed
    cases items with
    | nil => rfl
    | cons item items =>
      obtain ⟨c, tail, begins, shown, more⟩ := (plain.item List.mem_cons_self).render_eq_cons
      have text : (Json.array (item :: items)).render = '[' :: (item.render ++ renderItems items) :=
        rfl
      rw [text] at enough
      have read := inside _ rfl rest fuel (Nat.le_of_succ_le_succ enough)
      rw [text]
      rw [begins] at read ⊢
      exact readValue_array shown more read
  | .object members =>
    have inside := readMembers_render members fun key value listed => plain.member listed
    cases members with
    | nil => rfl
    | cons member members =>
      obtain ⟨key, value⟩ := member
      have text : (Json.object ((key, value) :: members)).render = '\x7b' :: '"' ::
          (key.toList.flatMap renderChar ++ ['"'] ++
            ':' :: (value.render ++ renderMembers members)) := rfl
      rw [text] at enough
      have read := inside _ rfl rest fuel (Nat.le_of_succ_le (Nat.le_of_succ_le_succ enough)) false
      rw [text]
      exact readValue_object read

/-- The text of items after the comma before them is read as their documents. -/
theorem readItems_render (items : List Json) (plain : ∀ item ∈ items, item.Plain)
    (text : List Char) (listed : renderItems items = ',' :: text) (rest : List Symbol) (fuel : Nat)
    (enough : text.length ≤ fuel) :
    readItems fuel (text.map .char ++ rest) = (documents items, .closed, some rest) := by
  match items with
  | [] => cases listed
  | item :: items =>
    have inside := readItems_render items fun item listed => plain item (.tail _ listed)
    have first := plain item List.mem_cons_self
    cases listed
    obtain ⟨fuel, rfl⟩ : ∃ n, fuel = n + 1 := by
      obtain ⟨c, tail, begins, -⟩ := first.render_eq_cons
      rw [begins, List.cons_append, List.length_cons] at enough
      exact ⟨fuel - 1, by omega⟩
    rw [List.length_append] at enough
    rw [List.map_append, List.append_assoc]
    cases items with
    | nil =>
      have short : item.render.length ≤ fuel := by
        have closing : renderItems [] = [']'] := rfl
        rw [closing, List.length_singleton] at enough
        omega
      exact readItems_last (readValue_render item first (.bracket rest) short)
    | cons next items =>
      obtain ⟨c, tail, begins, shown, more⟩ := (plain next (by simp)).render_eq_cons
      have text : renderItems (next :: items) = ',' :: (next.render ++ renderItems items) := rfl
      rw [text, List.length_cons] at enough
      have short : item.render.length ≤ fuel := by omega
      have read := readValue_render item first
        (.comma ((next.render ++ renderItems items).map .char ++ rest)) short
      have later := inside _ rfl rest fuel (by omega)
      rw [text]
      rw [begins] at read later ⊢
      exact readItems_next read shown more later

/-- The text of members after the comma and the quote before them is read as their documents. -/
theorem readMembers_render (members : List (String × Json))
    (plain : ∀ key value, (key, value) ∈ members → value.Plain) (text : List Char)
    (listed : renderMembers members = ',' :: '"' :: text) (rest : List Symbol) (fuel : Nat)
    (enough : text.length ≤ fuel) (afterComma : Bool) :
    readMembers fuel afterComma (text.map .char ++ rest) =
      (memberDocuments members, .closed, some rest) := by
  match members with
  | [] => cases listed
  | (key, value) :: members =>
    have inside := readMembers_render members fun key value listed =>
      plain key value (.tail _ listed)
    have first := plain key value List.mem_cons_self
    obtain rfl : key.toList.flatMap renderChar ++
        '"' :: ':' :: (value.render ++ renderMembers members) = text := by
      rw [← (List.cons.inj (List.cons.inj listed).2).2]
      simp
    have named := readString_render key
      (.char ':' :: ((value.render ++ renderMembers members).map .char ++ rest))
    have shape : (key.toList.flatMap renderChar ++
          '"' :: ':' :: (value.render ++ renderMembers members)).map Symbol.char ++ rest =
        (key.toList.flatMap renderChar).map .char ++ .char '"' ::
          (.char ':' :: ((value.render ++ renderMembers members).map .char ++ rest)) := by
      simp
    simp only [List.length_append, List.length_cons] at enough
    obtain ⟨fuel, rfl⟩ : ∃ n, fuel = n + 1 := ⟨fuel - 1, by omega⟩
    rw [shape]
    rw [List.map_append, List.append_assoc] at named ⊢
    have short : value.render.length ≤ fuel := by omega
    cases members with
    | nil =>
      have read := readValue_render value first (.brace rest) short
      exact readMembers_last named read afterComma
    | cons next members =>
      obtain ⟨nextKey, nextValue⟩ := next
      have text : renderMembers ((nextKey, nextValue) :: members) = ',' :: '"' ::
          (nextKey.toList.flatMap renderChar ++ ['"'] ++
            ':' :: (nextValue.render ++ renderMembers members)) := rfl
      rw [text, List.length_cons, List.length_cons] at enough
      have read := readValue_render value first (.comma (.char '"' ::
        ((nextKey.toList.flatMap renderChar ++ ['"'] ++
          ':' :: (nextValue.render ++ renderMembers members)).map .char ++ rest))) short
      have later := inside _ text rest fuel (by omega) true
      rw [text] at named ⊢
      exact readMembers_next named read later afterComma

end

/-- The text of a value without floating-point numbers is read whole. -/
theorem read_render {j : Json} (plain : j.Plain) :
    read (j.render.map .char) = (j.document, some []) := by
  have enough : j.render.length ≤ 2 * (j.render.map Symbol.char).length + 2 := by
    rw [List.length_map]
    omega
  have whole := readValue_render j plain .nothing enough
  rw [List.append_nil] at whole
  exact whole

/-! ## Numbers that are read -/

/-- A document whose numbers are in range. -/
def Document.Ranged (d : Document) : Prop := ∀ n, d.HasNumber n → n.InRange

theorem Numeral.document_ranged (n : Numeral) : n.document.Ranged := by
  unfold Numeral.document
  extract_lets floating
  have ranged : floating.Ranged := by
    intro k inside
    unfold floating at inside
    split at inside
    · cases inside
      trivial
    · cases inside
  split
  · split
    · split
      · next inRange =>
        intro k inside
        cases inside
        exact inRange
      · exact ranged
    · split
      · next word =>
        intro k inside
        cases inside
        exact word
      · exact ranged
  · exact ranged

theorem readNumber_ranged (negative : Bool) (s : List Symbol) :
    (readNumber negative s).1.Ranged := by
  unfold readNumber
  split
  · next n rest _ => exact n.document_ranged
  · nofun

theorem readKeyword_ranged {value : Document} (none : value.Ranged) (cs : List Char)
    (s : List Symbol) : (readKeyword value cs s).1.Ranged := by
  induction cs generalizing s with
  | nil => exact none
  | cons c cs ih =>
    cases s with
    | nil => nofun
    | cons first rest =>
      rw [readKeyword]
      split
      · exact ih rest
      · nofun

theorem Document.Ranged.array {items : List Document} {stop : Stop}
    (each : ∀ item ∈ items, item.Ranged) : (Document.array items stop).Ranged := by
  intro n inside
  cases inside with
  | item listed inside => exact each _ listed n inside

theorem Document.Ranged.object {members : List (Option String × Document)} {stop : Stop}
    (each : ∀ member ∈ members, member.2.Ranged) : (Document.object members stop).Ranged := by
  intro n inside
  cases inside with
  | member listed inside => exact each _ listed n inside

/-- Whatever is read, its numbers are in range. -/
theorem reads_ranged (fuel : Nat) : (∀ s, (readValue fuel s).1.Ranged) ∧
    (∀ s, ∀ item ∈ (readItems fuel s).1, item.Ranged) ∧
    ∀ afterComma s, ∀ member ∈ (readMembers fuel afterComma s).1, member.2.Ranged := by
  induction fuel with
  | zero => exact ⟨nofun, nofun, nofun⟩
  | succ fuel ih =>
    obtain ⟨values, items, members⟩ := ih
    refine ⟨fun s => ?_, fun s => ?_, fun afterComma s => ?_⟩
    · have null : Document.null.Ranged := nofun
      have bool (b : Bool) : (Document.bool b).Ranged := nofun
      rw [readValue]
      split
      · nofun
      · split <;> nofun
      · split
        · exact .array nofun
        · exact .array nofun
        · exact .array (items _)
      · split
        · exact .object nofun
        · exact .object nofun
        · exact .object (members _ _)
        · nofun
      · exact readKeyword_ranged null _ _
      · exact readKeyword_ranged (bool true) _ _
      · exact readKeyword_ranged (bool false) _ _
      · exact readNumber_ranged _ _
      · split
        · exact readNumber_ranged _ _
        · nofun
    · have only : ∀ item ∈ [(readValue fuel s).1], item.Ranged := by simpa using values s
      rw [readItems]
      dsimp only
      split
      · exact only
      · split
        · exact only
        · exact only
        · split
          · exact only
          · exact only
          · exact List.forall_mem_cons.mpr ⟨values s, items _⟩
        · exact only
    · have only (key : Option String) (rest : List Symbol) :
          ∀ member ∈ [(key, (readValue fuel rest).1)], member.2.Ranged := by
        simpa using values rest
      rw [readMembers]
      split
      · nofun
      · next key rest _ =>
        split
        · exact List.forall_mem_singleton.mpr nofun
        · next rest _ =>
          dsimp only
          split
          · exact only key rest
          · split
            · exact only key rest
            · exact only key rest
            · split
              · exact only key rest
              · exact List.forall_mem_cons.mpr ⟨values rest, members _ _⟩
              · exact only key rest
            · exact only key rest
        · exact List.forall_mem_singleton.mpr nofun

theorem read_ranged (s : List Symbol) : (read s).1.Ranged :=
  (reads_ranged _).1 s

end Json

end CallDispatch
