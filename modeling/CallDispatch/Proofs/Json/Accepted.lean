import CallDispatch.Proofs.Json.Reading

/-!
# What decoders accept

A decoder that answers with a value has found it in the document. What it has looked at is then
known as far as it matters: a word is a number, a row has had the items that were taken from it and
no others, and a list has been closed. Such a document is that of a value of any shape, and the
value nests no deeper than the type asked for.
-/

namespace CallDispatch.Json

open Text (Symbol)

/-! ## Fields, rows and ends -/

theorem eq_number_of_word {expected : String} {d : Document} {n : Nat}
    (read : d.word expected = .ok n) : d = .number (.nat n) := by
  unfold Document.word at read
  split at read
  · cases read
    rfl
  · cases read
  · cases read

/-- A machine word that is read is one. -/
theorem word_lt {expected : String} {d : Document} (ranged : d.Ranged) {n : Nat}
    (read : d.word expected = .ok n) : n < Text.Decimal.wordBound := by
  obtain rfl := eq_number_of_word read
  exact ranged _ (.self _)

/-- A field that has been filled was empty, and has been read from the value. -/
theorem fill_bind_eq_ok_iff {α β : Type} {name : String} {slot : Option α}
    {decode : Document → Decoded α} {value : Document} {k : Option α → β} {b : β} :
    (do pure (k (← fill name slot decode value)) : Decoded β) = .ok b ↔
      slot = none ∧ ∃ a, decode value = .ok a ∧ b = k (some a) := by
  cases slot with
  | some a =>
    constructor
    · intro put
      cases put
    · rintro ⟨empty, -⟩
      cases empty
  | none =>
    cases decoded : decode value with
    | error e =>
      constructor
      · intro put
        rw [fill, decoded] at put
        cases put
      · rintro ⟨-, a, read, -⟩
        cases read
    | ok a =>
      rw [fill, decoded]
      constructor
      · intro put
        cases put
        exact ⟨rfl, a, rfl, rfl⟩
      · rintro ⟨-, b, read, rfl⟩
        cases read
        rfl

theorem Stop.eq_closed {stop : Stop} (checked : stop.check = .ok ()) : stop = .closed := by
  cases stop with
  | closed => rfl
  | fault _ _ _ => cases checked

theorem require_eq_ok {α : Type} {name : String} {slot : Option α} {a : α}
    (found : require name slot = .ok a) : slot = some a := by
  unfold require at found
  split at found
  · cases found
    rfl
  · cases found

/-- Members are put one after the other. -/
theorem foldMembers_append_iff {σ : Type} {put : σ → String → Document → Decoded σ} {d e : σ}
    {members more : List (Option String × Document)} :
    foldMembers put d (members ++ more) = .ok e ↔
      ∃ middle, foldMembers put d members = .ok middle ∧ foldMembers put middle more = .ok e := by
  induction members generalizing d with
  | nil =>
    constructor
    · exact fun folded => ⟨d, rfl, folded⟩
    · rintro ⟨_, ⟨⟩, folded⟩
      exact folded
  | cons member rest ih =>
    obtain ⟨key | key, value⟩ := member
    · constructor
      · intro folded
        cases folded
      · rintro ⟨_, none, -⟩
        cases none
    · rw [List.cons_append, foldMembers, foldMembers]
      cases put d key value with
      | ok next => exact ih
      | error flaw =>
        constructor
        · intro folded
          cases folded
        · rintro ⟨_, none, -⟩
          cases none

/-- An item that is taken from a row stood first in it. -/
theorem Row.next_eq_ok {α : Type} {expected : String} {decode : Document → Decoded α}
    {r after : Row} {a : α} (next : r.next expected decode = .ok (a, after)) :
    ∃ item, r.items = item :: after.items ∧ after.stop = r.stop ∧ decode item = .ok a := by
  unfold Row.next at next
  obtain ⟨⟨found, rest⟩, next?, next⟩ := of_bind_eq_ok next
  unfold Row.next? at next?
  split at next?
  · next item items shape =>
    obtain ⟨b, decoded, next?⟩ := of_bind_eq_ok next?
    cases next?
    cases next
    exact ⟨item, shape, rfl, decoded⟩
  · obtain ⟨_, -, next?⟩ := of_bind_eq_ok next?
    cases next?
    cases next

/-- A row that is at its end has no items left and has been closed. -/
theorem Row.finish_eq_ok {origin : Origin} {r : Row} (finished : r.finish origin = .ok ()) :
    r.items = [] ∧ r.stop = .closed := by
  unfold Row.finish at finished
  split at finished
  · next items stop => exact ⟨items, stop⟩
  · cases finished
  · cases finished
  · cases finished

/-- A decoder that accepts all that another accepts does so item by item. -/
theorem decodeItems_imp {α : Type} {decode decode' : Document → Decoded α}
    (imp : ∀ d a, decode d = .ok a → decode' d = .ok a) {items : List Document} {as : List α}
    (read : decodeItems decode items = .ok as) : decodeItems decode' items = .ok as := by
  induction items generalizing as with
  | nil => exact read
  | cons item rest ih =>
    obtain ⟨first, here, read⟩ := of_bind_eq_ok read
    obtain ⟨later, there, read⟩ := of_bind_eq_ok read
    rw [decodeItems, imp item first here, ih there]
    exact read

theorem list_imp {α : Type} {decode decode' : Document → Decoded α}
    (imp : ∀ d a, decode d = .ok a → decode' d = .ok a) {d : Document} {as : List α}
    (read : d.list decode = .ok as) : d.list decode' = .ok as := by
  unfold Document.list at read ⊢
  split at read
  · obtain ⟨values, inside, read⟩ := of_bind_eq_ok read
    rw [decodeItems_imp imp inside]
    exact read
  · cases read

theorem decodeItems_forall {α : Type} {decode : Document → Decoded α} {items : List Document}
    {as : List α} (read : decodeItems decode items = .ok as) :
    ∀ item ∈ items, ∃ a, decode item = .ok a := by
  induction items generalizing as with
  | nil => nofun
  | cons item rest ih =>
    obtain ⟨first, here, read⟩ := of_bind_eq_ok read
    obtain ⟨later, there, -⟩ := of_bind_eq_ok read
    exact List.forall_mem_cons.mpr ⟨⟨first, here⟩, ih there⟩

/-- A text is decoded if its document is and nothing but blanks comes after it. -/
theorem decode_eq_ok_iff {α : Type} {decoder : Document → Decoded α}
    {text : List Symbol} {a : α} : decode decoder text = .ok a ↔
      decoder (read text).1 = .ok a ∧
        ∃ rest, (read text).2 = some rest ∧ (skipSpace rest).isEmpty = true := by
  rw [decode]
  obtain ⟨d, rest | rest⟩ := read text
  · constructor
    · intro decoded
      obtain ⟨_, -, ended⟩ := of_bind_eq_ok decoded
      cases ended
    · rintro ⟨-, _, none, -⟩
      cases none
  · constructor
    · intro decoded
      obtain ⟨b, read, ended⟩ := of_bind_eq_ok decoded
      dsimp only at ended
      split at ended
      · next blank =>
        cases ended
        exact ⟨read, rest, rfl, blank⟩
      · cases ended
    · rintro ⟨read, _, ⟨⟩, blank⟩
      dsimp only at read ⊢
      rw [read]
      exact if_pos blank

/-! ## Documents that stand for values -/

/-- A document is that of a value, and has the value back from a reader that goes so deep. -/
def Document.Whole (depth : Nat) (d : Document) : Prop :=
  ∃ j : Json, d = j.document ∧ d.value depth = .ok j

theorem whole_of_string {depth : Nat} {d : Document} {s : String} (read : d.string = .ok s) :
    d.Whole depth := by
  unfold Document.string at read
  split at read
  · next s => exact ⟨.text s, rfl, rfl⟩
  · cases read

theorem whole_of_word {depth : Nat} {expected : String} {d : Document} {n : Nat}
    (read : d.word expected = .ok n) : d.Whole depth :=
  ⟨.number (.nat n), eq_number_of_word read, by rw [eq_number_of_word read]; rfl⟩

theorem whole_of_optional {α : Type} {depth : Nat} {decode : Document → Decoded α} {d : Document}
    {a? : Option α} (each : ∀ a, decode d = .ok a → d.Whole depth)
    (read : d.optional decode = .ok a?) : d.Whole depth := by
  unfold Document.optional at read
  split at read
  · exact ⟨.null, rfl, rfl⟩
  · cases decoded : decode d with
    | ok a => exact each a decoded
    | error e =>
      rw [decoded] at read
      cases read

theorem wholeItems {depth : Nat} {items : List Document} (each : ∀ item ∈ items, item.Whole depth) :
    ∃ values, items = documents values ∧ valueItems depth items = .ok values := by
  induction items with
  | nil => exact ⟨[], rfl, rfl⟩
  | cons item rest ih =>
    obtain ⟨⟨value, same, read⟩, later⟩ := List.forall_mem_cons.mp each
    obtain ⟨values, sames, reads⟩ := ih later
    refine ⟨value :: values, by rw [documents, ← same, ← sames], ?_⟩
    rw [valueItems, read, reads]
    rfl

theorem whole_of_items {depth : Nat} {items : List Document}
    (each : ∀ item ∈ items, item.Whole depth) :
    (Document.array items .closed).Whole (depth + 1) := by
  obtain ⟨values, same, read⟩ := wholeItems each
  refine ⟨.array values, by rw [document, same], ?_⟩
  rw [Document.value, read]
  rfl

theorem whole_of_list {α : Type} {depth : Nat} {decode : Document → Decoded α} {d : Document}
    {as : List α} (each : ∀ item a, decode item = .ok a → item.Whole depth)
    (read : d.list decode = .ok as) : d.Whole (depth + 1) := by
  unfold Document.list at read
  split at read
  · next items stop =>
    obtain ⟨_, inside, read⟩ := of_bind_eq_ok read
    obtain ⟨_, checked, -⟩ := of_bind_eq_ok read
    obtain rfl := Stop.eq_closed checked
    refine whole_of_items fun item listed => ?_
    obtain ⟨a, decoded⟩ := decodeItems_forall inside item listed
    exact each item a decoded
  · cases read

end CallDispatch.Json
