import CallDispatch.Proofs.Json.Members

/-!
# Records as text

A kind of record is written as a value and read from a document. What a record loses or keeps when
it is written and read again, and what the order of its members matters, is settled between values
and documents: the text of a value without floating-point numbers stands for the document of that
value, and whatever document a text stands for, its numbers are in range.
-/

namespace CallDispatch.Json

open Text (Symbol)

/-! ## Records of slots -/

section Records

variable {σ α : Type} {origin : Origin} {r : Record σ α}

/-- A record is read from the members of an object or from the items of an array. -/
theorem record_cases {d : Document} {a : α} (read : d.record origin r = .ok a) :
    (∃ members draft, d = .object members .closed ∧
      foldMembers r.put r.draft members = .ok draft ∧ r.close draft = .ok a) ∨
    ∃ items stop after, d = .array items stop ∧ r.row { items, stop } = .ok (a, after) := by
  unfold Document.record at read
  split at read
  · next members stop =>
    obtain ⟨draft, folded, read⟩ := of_bind_eq_ok read
    obtain ⟨_, checked, closes⟩ := of_bind_eq_ok read
    exact .inl ⟨members, draft, by rw [Stop.eq_closed checked], folded, closes⟩
  · next items stop =>
    obtain ⟨⟨b, after⟩, taken, read⟩ := of_bind_eq_ok read
    obtain ⟨_, -, read⟩ := of_bind_eq_ok read
    cases read
    exact .inr ⟨items, stop, after, rfl, taken⟩
  · cases read
  · cases read

/-- What a record is made of does not depend on where its document comes from. -/
theorem record_origin {origin' : Origin} {d : Document} {a : α} (read : d.record origin r = .ok a) :
    d.record origin' r = .ok a := by
  unfold Document.record at read ⊢
  split at read
  · exact read
  · next items stop =>
    obtain ⟨⟨b, after⟩, taken, read⟩ := of_bind_eq_ok read
    obtain ⟨_, finished, read⟩ := of_bind_eq_ok read
    obtain ⟨items, stop⟩ := Row.finish_eq_ok finished
    have finished' : after.finish origin' = .ok () := by
      rw [Row.finish, items, stop]
    dsimp only
    rw [taken]
    change (do after.finish origin'; pure b) = .ok a
    rw [finished']
    exact read
  · cases read
  · cases read

/-- A variant is its name alone, or the only member of an object. -/
theorem variant_cases {decode : String → Option Document → Decoded α} {d : Document} {a : α}
    (read : d.variant .direct decode = .ok a) :
    (∃ name, d = .text name ∧ decode name none = .ok a) ∨
      ∃ name contents, d = .object [(some name, contents)] .closed ∧
        decode name (some contents) = .ok a := by
  unfold Document.variant at read
  split at read
  · next name => exact .inl ⟨name, rfl, read⟩
  · next name contents rest stop =>
    rw [if_neg (by simp)] at read
    obtain ⟨b, decoded, read⟩ := of_bind_eq_ok read
    split at read
    · cases read
      exact .inr ⟨name, contents, rfl, decoded⟩
    · cases read
    · cases read
  · cases read

/-- What is read from the members of a record is a matter of what they leave in its draft. -/
theorem record_members_imp {members more : List (Option String × Document)}
    (imp : ∀ {draft}, foldMembers r.put r.draft members = .ok draft →
      foldMembers r.put r.draft more = .ok draft) {stop : Stop} {a : α}
    (read : (Document.object members stop).record origin r = .ok a) :
    (Document.object more stop).record origin r = .ok a := by
  rw [Document.record] at read ⊢
  obtain ⟨draft, folded, read⟩ := of_bind_eq_ok read
  rw [imp folded]
  exact read

/-- A row whose items have numbers in range. -/
def Row.Ranged (r : Row) : Prop := ∀ item ∈ r.items, item.Ranged

/-- An item that is taken from such a row is one of them, and they are left. -/
theorem Row.Ranged.next {expected : String} {decode : Document → Decoded α} {r after : Row} {a : α}
    (ranged : r.Ranged) (next : r.next expected decode = .ok (a, after)) :
    after.Ranged ∧ ∃ item : Document, item.Ranged ∧ decode item = .ok a := by
  obtain ⟨item, shape, -, decoded⟩ := Row.next_eq_ok next
  unfold Row.Ranged at ranged
  rw [shape, List.forall_mem_cons] at ranged
  exact ⟨ranged.2, item, ranged.1, decoded⟩

theorem Row.Ranged.nextOr {default : α} {decode : Document → Decoded α} {r after : Row} {a : α}
    (ranged : r.Ranged) (next : r.nextOr default decode = .ok (a, after)) : after.Ranged := by
  unfold Row.nextOr at next
  obtain ⟨⟨found, rest⟩, next?, next⟩ := of_bind_eq_ok next
  unfold Row.next? at next?
  split at next?
  · next item items shape =>
    obtain ⟨b, -, next?⟩ := of_bind_eq_ok next?
    cases next?
    cases next
    unfold Row.Ranged at ranged
    rw [shape, List.forall_mem_cons] at ranged
    exact ranged.2
  · obtain ⟨_, -, next?⟩ := of_bind_eq_ok next?
    cases next?
    cases next
    exact ranged

end Records

/-! ## Codecs -/

/-- How a kind of record is written and read, and where in its documents its own members stand. -/
structure Codec (α : Type) where
  json : α → Json
  decode : Document → Decoded α
  frame : List (Option String × Document) → Document := fun members => .object members .closed

/-- A text is that of a document, with nothing but blanks after it. -/
def Stands (text : List Symbol) (d : Document) : Prop :=
  ∃ rest, read text = (d, some rest) ∧ (skipSpace rest).isEmpty = true

theorem Stands.decode_eq_ok_iff {text : List Symbol} {d : Document} (stands : Stands text d)
    {α : Type} {decoder : Document → Decoded α} {a : α} :
    decode decoder text = .ok a ↔ decoder d = .ok a := by
  obtain ⟨rest, whole, blank⟩ := stands
  rw [Json.decode_eq_ok_iff, whole]
  exact ⟨fun both => both.1, fun read => ⟨read, rest, rfl, blank⟩⟩

namespace Codec

variable {α : Type} (c : Codec α)

/-- The text of a record. -/
def text (a : α) : List Symbol := (c.json a).render.map .char

/-- Reading a record from a text. -/
def parse (text : List Symbol) : Decoded α := Json.decode c.decode text

variable {c}

theorem stands_text {a : α} (plain : (c.json a).Plain) : Stands (c.text a) (c.json a).document :=
  ⟨[], read_render plain, rfl⟩

end Codec

/-- What becomes of records of one kind between values and documents: which of them fit into their
type, and which of their members can be moved. -/
structure Codec.Lawful {α : Type} (c : Codec α) (Fits : α → Prop)
    (Movable : Option String × Document → Prop) : Prop where
  plain : ∀ {a}, Fits a → (c.json a).Plain
  back : ∀ {a}, Fits a → c.decode (c.json a).document = .ok a
  perm : ∀ {a members more}, List.Perm members more → (∀ member ∈ members, Movable member) →
    c.decode (c.frame members) = .ok a → c.decode (c.frame more) = .ok a
  movable : ∀ {a members}, Fits a → (c.json a).document = c.frame members →
    ∀ member ∈ members, Movable member
  fits : ∀ {d a}, d.Ranged → c.decode d = .ok a → (c.json a).FloatFree → Fits a

/-- What becomes of records of one kind between values and texts: a value that fits is read back
from its text, and from any text that has its members in another order; the order of the members
matters to no text; and a record read from any text survives being written again. -/
structure Codec.RoundTrips {α : Type} (c : Codec α) (Fits : α → Prop)
    (Movable : Option String × Document → Prop) : Prop where
  back : ∀ a, Fits a → c.parse (c.text a) = .ok a
  anyOrder : ∀ a members more text, Fits a → (c.json a).document = c.frame members →
    List.Perm members more → Stands text (c.frame more) → c.parse text = .ok a
  unordered : ∀ a members more text text', Stands text (c.frame members) →
    Stands text' (c.frame more) → List.Perm members more → (∀ member ∈ members, Movable member) →
    (c.parse text = .ok a ↔ c.parse text' = .ok a)
  kept : ∀ text a, c.parse text = .ok a → (c.json a).FloatFree → c.parse (c.text a) = .ok a

theorem Codec.Lawful.roundTrips {α : Type} {c : Codec α} {Fits : α → Prop}
    {Movable : Option String × Document → Prop} (lawful : c.Lawful Fits Movable) :
    c.RoundTrips Fits Movable where
  back a fits := (stands_text (lawful.plain fits)).decode_eq_ok_iff.mpr (lawful.back fits)
  anyOrder a members more text fits own perm stands := by
    refine stands.decode_eq_ok_iff.mpr (lawful.perm perm (lawful.movable fits own) ?_)
    rw [← own]
    exact lawful.back fits
  unordered a members more text text' stands stands' perm movable := by
    rw [parse, parse, stands.decode_eq_ok_iff, stands'.decode_eq_ok_iff]
    exact ⟨lawful.perm perm movable, lawful.perm perm.symm fun member listed =>
      movable member (perm.mem_iff.mpr listed)⟩
  kept text a read floatFree := by
    have fits := lawful.fits (read_ranged text) (Json.decode_eq_ok_iff.mp read).1 floatFree
    exact (stands_text (lawful.plain fits)).decode_eq_ok_iff.mpr (lawful.back fits)

end CallDispatch.Json
