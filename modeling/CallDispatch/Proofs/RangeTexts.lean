import CallDispatch.Proofs.Text.Grammar
import CallDispatch.RangeAnswer

/-!
# Answers as text

A worker reads in the text of an answer just that answer, provided that it runs forwards and its
bounds are machine words. The texts that are read at all are given by a grammar, blanks around them
apart; each stands for one answer, and each answer has one text without anything superfluous.
-/

namespace CallDispatch

namespace RangeAnswer

open Text (trim isBlank Surrounds Trimmed)
open Text.Decimal (ofNat readWord wordBound Writes Shortest)

/-- An answer that can be read back: a span that runs forwards, of machine words. -/
def IsWritable : RangeAnswer → Prop
  | .span start stop => start ≤ stop ∧ stop < wordBound
  | .exhausted => True

/-- The first dash separates what stands before it. -/
theorem splitDash_append {before : List Char} (none : '-' ∉ before) (after : List Char) :
    splitDash (before ++ '-' :: after) = some (before, after) := by
  induction before with
  | nil => rfl
  | cons c rest ih =>
    have ne : c ≠ '-' := fun same => none (by simp [same])
    have later := ih fun listed => none (List.mem_cons_of_mem c listed)
    rw [List.cons_append, splitDash, later]
    · rfl
    · exact ne

theorem dash_not_mem_ofNat (n : Nat) : '-' ∉ ofNat n := fun listed =>
  Text.Decimal.ofNat_all (p := (· ≠ '-')) (by decide) listed rfl

theorem isBlank_of_mem_ofNat {n : Nat} {c : Char} (listed : c ∈ ofNat n) : isBlank c = false :=
  Text.Decimal.ofNat_all (p := fun c => isBlank c = false) (by decide) listed

/-- Nothing is cut from the text of an answer. -/
theorem trim_render (r : RangeAnswer) : trim r.render = r.render := by
  refine Text.trim_of_none fun c listed => ?_
  cases r with
  | exhausted =>
    have mark : c = '-' ∨ c = '1' := by simpa [render] using listed
    rcases mark with rfl | rfl <;> decide
  | span start stop =>
    rcases List.mem_append.mp listed with before | after
    · exact isBlank_of_mem_ofNat before
    · rcases List.mem_cons.mp after with rfl | after
      · decide
      · exact isBlank_of_mem_ofNat after

/-- The text of an answer stands for it. -/
theorem parse?_render {r : RangeAnswer} (writable : r.IsWritable) : parse? r.render = some r := by
  cases r with
  | exhausted => rfl
  | span start stop =>
    obtain ⟨forwards, word⟩ := writable
    have other : (span start stop).render ≠ ['-', '1'] := by
      intro same
      cases numeral : ofNat start with
      | nil => exact Text.Decimal.ofNat_ne_nil start numeral
      | cons c rest =>
        have dash : c = '-' := by
          rw [render, numeral] at same
          exact (List.cons.inj same).1
        exact dash_not_mem_ofNat start (by simp [numeral, dash])
    rw [parse?, if_neg other, render, splitDash_append (dash_not_mem_ofNat start)]
    have first := Text.Decimal.readWord_ofNat (Nat.lt_of_le_of_lt forwards word)
    have second := Text.Decimal.readWord_ofNat word
    simp [first, second, forwards]

/-- An answer is read back from its text. -/
theorem ofText_text {r : RangeAnswer} (writable : r.IsWritable) : ofText r.text = .ok r := by
  simp only [ofText, text, String.toList_ofList, trim_render, parse?_render writable]

/-! ## The grammar -/

/-- The texts of answers: the word that there is no more, or two machine words with a dash between
them, the second no smaller than the first. -/
inductive Denotes : List Char → RangeAnswer → Prop where
  | exhausted : Denotes ['-', '1'] .exhausted
  | span {before after : List Char} {start stop : Nat} (first : Writes before start)
      (second : Writes after stop) (forwards : start ≤ stop) (word : stop < 2 ^ 64) :
      Denotes (before ++ '-' :: after) (.span start stop)

/-- A text of an answer with no sign and no zero that could be left out. -/
inductive Canonical : List Char → Prop where
  | exhausted : Canonical ['-', '1']
  | span {before after : List Char} (first : Shortest before) (second : Shortest after) :
      Canonical (before ++ '-' :: after)

/-- A text is split at its first dash. -/
theorem splitDash_eq_some_iff {s before after : List Char} :
    splitDash s = some (before, after) ↔ s = before ++ '-' :: after ∧ '-' ∉ before := by
  constructor
  · intro split
    induction s generalizing before with
    | nil => cases split
    | cons c rest ih =>
      by_cases dash : c = '-'
      · subst dash
        rw [splitDash, Option.some.injEq, Prod.mk.injEq] at split
        obtain ⟨rfl, rfl⟩ := split
        exact ⟨rfl, List.not_mem_nil⟩
      · rw [splitDash, Option.map_eq_some_iff] at split
        · obtain ⟨⟨front, back⟩, later, same⟩ := split
          obtain ⟨rfl, rfl⟩ := Prod.mk.inj same
          obtain ⟨rfl, none⟩ := ih later
          exact ⟨rfl, by simp [Ne.symm dash, none]⟩
        · exact dash
  · rintro ⟨rfl, none⟩
    exact splitDash_append none after

/-- No number is written with a dash. -/
theorem dash_not_mem_of_writes {s : List Char} {n : Nat} (number : Writes s n) : '-' ∉ s := by
  obtain ⟨digits, signed, run, -⟩ := number
  have bare : '-' ∉ digits := fun listed => Bool.noConfusion (run.2 _ listed)
  rcases signed with rfl | rfl
  · exact bare
  · simpa using bare

/-- The marker of exhaustion is no span: nothing stands before its dash. -/
theorem marker_ne {before : List Char} (some : before ≠ []) (none : '-' ∉ before)
    (after : List Char) : before ++ '-' :: after ≠ ['-', '1'] := by
  intro marker
  have first := splitDash_append none after
  rw [marker] at first
  exact some (Prod.mk.inj (Option.some.inj first)).1.symm

/-- The answer that is read from a text is the one it denotes. -/
theorem parse?_eq_some_iff {s : List Char} {r : RangeAnswer} : parse? s = some r ↔ Denotes s r := by
  constructor
  · intro parsed
    rw [parse?] at parsed
    split at parsed
    · next marker =>
      rw [marker, ← Option.some.inj parsed]
      exact .exhausted
    · simp only [bind, Option.bind_eq_some_iff] at parsed
      obtain ⟨⟨before, after⟩, split, start, first, stop, second, ordered⟩ := parsed
      obtain ⟨rfl, -⟩ := splitDash_eq_some_iff.mp split
      split at ordered
      · next forwards =>
        rw [← Option.some.inj ordered]
        obtain ⟨written, -⟩ := Text.Decimal.readWord_eq_some_iff.mp first
        obtain ⟨written', word⟩ := Text.Decimal.readWord_eq_some_iff.mp second
        exact .span written written' forwards word
      · cases ordered
  · intro denotes
    cases denotes with
    | exhausted => rfl
    | @span before after start stop first second forwards word =>
      have none := dash_not_mem_of_writes first
      have start_read := Text.Decimal.readWord_eq_some_iff.mpr
        ⟨first, Nat.lt_of_le_of_lt forwards word⟩
      have stop_read := Text.Decimal.readWord_eq_some_iff.mpr ⟨second, word⟩
      rw [parse?, if_neg (marker_ne first.ne_nil none after), splitDash_append none]
      simp [start_read, stop_read, forwards]

/-- What is read is what a text denotes once the blanks around it are gone. -/
theorem ofText_eq_ok_iff_parse? {s : String} {r : RangeAnswer} :
    ofText s = .ok r ↔ parse? (trim s.toList) = some r := by
  rw [ofText]
  cases parse? (trim s.toList) <;> simp

/-- A text that is not read is reported as it stands without the blanks around it. -/
theorem ofText_eq_error {s : String} (unread : ∀ r, ofText s ≠ .ok r) :
    ofText s = .error (.invalidArgument (.malformedRange (String.ofList (trim s.toList)))) := by
  rw [ofText]
  cases parsed : parse? (trim s.toList) with
  | none => rfl
  | some r => exact absurd (ofText_eq_ok_iff_parse?.mpr parsed) (unread r)

/-- What a text with a dash in it denotes is a span between the numbers on both sides. -/
theorem Denotes.of_dash {before after : List Char} {r : RangeAnswer} (some : before ≠ [])
    (none : '-' ∉ before) (denotes : Denotes (before ++ '-' :: after) r) :
    ∃ start stop, r = .span start stop ∧ Writes before start ∧ Writes after stop ∧
      start ≤ stop ∧ stop < 2 ^ 64 := by
  generalize whole : before ++ '-' :: after = t at denotes
  cases denotes with
  | exhausted => exact absurd whole (marker_ne some none after)
  | @span before' after' start stop first second forwards word =>
    have sides := splitDash_append none after
    rw [whole, splitDash_append (dash_not_mem_of_writes first), Option.some.injEq,
      Prod.mk.injEq] at sides
    obtain ⟨rfl, rfl⟩ := sides
    exact ⟨start, stop, rfl, first, second, forwards, word⟩

/-! ## Canonical texts -/

/-- The text of an answer denotes that answer or, if it cannot be written, nothing. -/
theorem denotes_render_iff {r r' : RangeAnswer} :
    Denotes r.render r' ↔ r' = r ∧ r.IsWritable := by
  constructor
  · intro denotes
    cases r with
    | exhausted =>
      have same := parse?_eq_some_iff.mpr denotes
      exact ⟨(Option.some.inj same).symm, trivial⟩
    | span start stop =>
      obtain ⟨start', stop', rfl, first, second, forwards, word⟩ :=
        denotes.of_dash (Text.Decimal.ofNat_ne_nil start) (dash_not_mem_ofNat start)
      have start_eq := first.place_eq (Text.Decimal.digits_ofNat start)
      have stop_eq := second.place_eq (Text.Decimal.digits_ofNat stop)
      rw [Text.Decimal.place_ofNat] at start_eq stop_eq
      subst start_eq stop_eq
      exact ⟨rfl, forwards, word⟩
  · rintro ⟨rfl, writable⟩
    exact parse?_eq_some_iff.mp (parse?_render writable)

theorem canonical_render (r : RangeAnswer) : Canonical r.render := by
  cases r with
  | exhausted => exact .exhausted
  | span start stop =>
    exact .span (Text.Decimal.shortest_ofNat start) (Text.Decimal.shortest_ofNat stop)

/-- Of the texts that denote an answer, the one that is printed is the only canonical one. -/
theorem Canonical.eq_render {t : List Char} {r : RangeAnswer} (canonical : Canonical t)
    (denotes : Denotes t r) : t = r.render := by
  cases canonical with
  | exhausted =>
    have same := parse?_eq_some_iff.mpr denotes
    rw [← Option.some.inj same]
    rfl
  | @span before after first second =>
    have dashless : '-' ∉ before := fun listed => Bool.noConfusion (first.1.2 _ listed)
    obtain ⟨start, stop, rfl, start_written, stop_written, -, -⟩ :=
      denotes.of_dash first.1.1 dashless
    rw [first.eq_ofNat, start_written.place_eq first.1, second.eq_ofNat,
      stop_written.place_eq second.1]
    rfl

/-- A canonical text has no blanks in it. -/
theorem Canonical.trim_eq {t : List Char} (canonical : Canonical t) : trim t = t := by
  refine Text.trim_of_none fun c listed => ?_
  cases canonical with
  | exhausted =>
    have mark : c = '-' ∨ c = '1' := by simpa using listed
    rcases mark with rfl | rfl <;> decide
  | @span before after first second =>
    rcases List.mem_append.mp listed with front | back
    · exact Text.Decimal.isBlank_of_isDigit (first.1.2 c front)
    · rcases List.mem_cons.mp back with rfl | back
      · decide
      · exact Text.Decimal.isBlank_of_isDigit (second.1.2 c back)

/-- What is read can be written. -/
theorem Denotes.isWritable {t : List Char} {r : RangeAnswer} (denotes : Denotes t r) :
    r.IsWritable := by
  cases denotes with
  | exhausted => trivial
  | span _ _ forwards word => exact ⟨forwards, word⟩

/-- The texts that are read are those of the grammar, with or without blanks around them, and each
is read as what it denotes. Every answer that runs forwards is read back from its text; whatever was
read has exactly one canonical text, the one that is printed. A span that runs backwards is not read
from any text, and its own is refused. -/
theorem texts_read_by_grammar (s : String) (r : RangeAnswer) :
    (ofText s = .ok r ↔ ∃ t, (Surrounds s.toList t ∧ Trimmed t) ∧ Denotes t r) ∧
    (r.IsWritable → ofText r.text = .ok r) ∧
    (ofText s = .ok r → ofText r.text = .ok r ∧ Canonical r.text.toList ∧
      ∀ t : String, Canonical t.toList → ofText t = .ok r → t = r.text) ∧
    (∀ start stop, stop < start → r = .span start stop → ofText s ≠ .ok r ∧
      ofText r.text = .error (.invalidArgument (.malformedRange r.text))) := by
  have read {s : String} {r : RangeAnswer} : ofText s = .ok r ↔ Denotes (trim s.toList) r :=
    ofText_eq_ok_iff_parse?.trans parse?_eq_some_iff
  refine ⟨?_, ofText_text, fun accepted => ⟨?_, ?_, fun t canonical same => ?_⟩, ?_⟩
  · rw [read]
    exact ⟨fun denotes => ⟨_, Text.trim_eq_iff.mp rfl, denotes⟩,
      fun ⟨t, trimmed, denotes⟩ => Text.trim_eq_iff.mpr trimmed ▸ denotes⟩
  · exact ofText_text (read.mp accepted).isWritable
  · rw [text, String.toList_ofList]
    exact canonical_render r
  · have denotes := read.mp same
    rw [canonical.trim_eq] at denotes
    rw [text, ← canonical.eq_render denotes, String.ofList_toList]
  · rintro start stop backwards rfl
    have unwritable : ¬ (span start stop).IsWritable := fun writable =>
      Nat.not_lt.mpr writable.1 backwards
    refine ⟨fun accepted => unwritable (read.mp accepted).isWritable, ?_⟩
    have unread : ∀ r, ofText (span start stop).text ≠ .ok r := by
      intro r accepted
      have denotes := read.mp accepted
      rw [text, String.toList_ofList, trim_render] at denotes
      exact unwritable (denotes_render_iff.mp denotes).2
    rw [ofText_eq_error unread, text, String.toList_ofList, trim_render]

/-- Zeros, a sign and blanks that could be left out are read over; without them the text is the only
one of its kind. The same numbers the other way round are refused. -/
theorem superfluous_signs_read :
    ofText " +007-9\n" = .ok (.span 7 9) ∧ ofText "7-9" = .ok (.span 7 9) ∧
      (∀ t : String, Canonical t.toList → ofText t = .ok (.span 7 9) → t = "7-9") ∧
      ofText " +007-9\n" ≠ .ok (.span 9 7) ∧
      ofText "9-7" = .error (.invalidArgument (.malformedRange "9-7")) := by
  have forwards := texts_read_by_grammar " +007-9\n" (.span 7 9)
  have backwards := texts_read_by_grammar " +007-9\n" (.span 9 7)
  have accepted : ofText " +007-9\n" = .ok (.span 7 9) := by decide +kernel
  have writable : (span 7 9).IsWritable := ⟨by decide, by decide⟩
  have read := forwards.2.1 writable
  have only := (forwards.2.2.1 accepted).2.2
  have refused := backwards.2.2.2 9 7 (by decide) rfl
  rw [show (span 7 9).text = "7-9" by decide +kernel] at read only
  rw [show (span 9 7).text = "9-7" by decide +kernel] at refused
  exact ⟨accepted, read, only, refused⟩

end RangeAnswer

end CallDispatch
