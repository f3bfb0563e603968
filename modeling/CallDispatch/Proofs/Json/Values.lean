import CallDispatch.DispatchError

/-!
# Values and their documents

A value read from a text holds only numbers that JSON text can tell apart, has its objects sorted by
key, and nests no deeper than a reader of texts goes. The document of such a value has the value
back, and whatever has a value gives one of this kind.
-/

namespace CallDispatch

open Text.Decimal (wordBound)

namespace Json

/-! ## What stands in a value -/

/-- A value stands in another, at any depth. -/
inductive Holds : Json → Json → Prop where
  | self (j : Json) : Holds j j
  | item {items : List Json} {item inner : Json} : item ∈ items → Holds item inner →
      Holds (.array items) inner
  | member {members : List (String × Json)} {key : String} {value inner : Json} :
      (key, value) ∈ members → Holds value inner → Holds (.object members) inner

mutual

/-- How deep containers nest in a value. -/
def nesting : Json → Nat
  | .array items => nestingItems items + 1
  | .object members => nestingMembers members + 1
  | _ => 0

/-- How deep containers nest in any of some items. -/
def nestingItems : List Json → Nat
  | [] => 0
  | item :: rest => max item.nesting (nestingItems rest)

/-- How deep containers nest in any of some members. -/
def nestingMembers : List (String × Json) → Nat
  | [] => 0
  | (_, value) :: rest => max value.nesting (nestingMembers rest)

end

end Json

/-- A number that JSON text can tell apart. -/
def Number.InRange : Number → Prop
  | .nat n => n < wordBound
  | .neg n => 0 < n ∧ n ≤ 1 <<< 63
  | .binary64 _ => True

namespace Json

/-- A value as its type has it: all its numbers are in range, and the members of each object are in
ascending order of their keys. -/
structure Proper (j : Json) : Prop where
  numbers : ∀ n, j.Holds (.number n) → n.InRange
  objects : ∀ members, j.Holds (.object members) → Keyed.Ascending members

/-- A value without floating-point numbers. -/
def FloatFree (j : Json) : Prop := ∀ bits, ¬ j.Holds (.number (.binary64 bits))

theorem Proper.item {items : List Json} (proper : (Json.array items).Proper) {item : Json}
    (listed : item ∈ items) : item.Proper :=
  ⟨fun n inside => proper.numbers n (.item listed inside),
    fun members inside => proper.objects members (.item listed inside)⟩

theorem Proper.member {members : List (String × Json)} (proper : (Json.object members).Proper)
    {key : String} {value : Json} (listed : (key, value) ∈ members) : value.Proper :=
  ⟨fun n inside => proper.numbers n (.member listed inside),
    fun inner inside => proper.objects inner (.member listed inside)⟩

theorem Proper.array {items : List Json} (each : ∀ item ∈ items, item.Proper) :
    (Json.array items).Proper := by
  constructor
  · intro n inside
    cases inside with
    | item listed inside => exact (each _ listed).numbers n inside
  · intro members inside
    cases inside with
    | item listed inside => exact (each _ listed).objects members inside

theorem Proper.object {members : List (String × Json)} (ascending : Keyed.Ascending members)
    (each : ∀ member ∈ members, member.2.Proper) : (Json.object members).Proper := by
  constructor
  · intro n inside
    cases inside with
    | member listed inside => exact (each _ listed).numbers n inside
  · intro inner inside
    cases inside with
    | self => exact ascending
    | member listed inside => exact (each _ listed).objects inner inside

theorem Proper.null : Json.null.Proper := by
  constructor <;> intro _ inside <;> cases inside

theorem Proper.bool (b : Bool) : (Json.bool b).Proper := by
  constructor <;> intro _ inside <;> cases inside

theorem Proper.text (s : String) : (Json.text s).Proper := by
  constructor <;> intro _ inside <;> cases inside

theorem Proper.number {n : Number} (inRange : n.InRange) : (Json.number n).Proper := by
  constructor <;> intro _ inside <;> cases inside
  exact inRange

theorem FloatFree.text (s : String) : (Json.text s).FloatFree := by
  intro bits inside
  cases inside

theorem FloatFree.array {items : List Json} (each : ∀ item ∈ items, item.FloatFree) :
    (Json.array items).FloatFree := by
  intro bits inside
  cases inside with
  | item listed inside => exact each _ listed bits inside

theorem nestingItems_le_iff {depth : Nat} {items : List Json} :
    nestingItems items ≤ depth ↔ ∀ item ∈ items, item.nesting ≤ depth := by
  induction items with
  | nil => simp [nestingItems]
  | cons item rest ih => rw [nestingItems, Nat.max_le, ih, List.forall_mem_cons]

theorem nestingMembers_le_iff {depth : Nat} {members : List (String × Json)} :
    nestingMembers members ≤ depth ↔ ∀ member ∈ members, member.2.nesting ≤ depth := by
  induction members with
  | nil => simp [nestingMembers]
  | cons member rest ih =>
    obtain ⟨key, value⟩ := member
    rw [nestingMembers, Nat.max_le, ih, List.forall_mem_cons]

/-! ## Documents of values -/

mutual

/-- A value that nests no deeper than a reader goes is what its document stands for. -/
theorem value_document {depth : Nat} (j : Json) (proper : j.Proper)
    (shallow : j.nesting ≤ depth) : j.document.value depth = .ok j := by
  match j with
  | .null => rfl
  | .bool b => rfl
  | .number n => rfl
  | .text s => rfl
  | .array items =>
    match depth with
    | 0 => cases shallow
    | depth + 1 =>
      have inside := valueItems_documents items (fun _ listed => proper.item listed)
        (Nat.le_of_succ_le_succ shallow)
      simp only [document, Document.value, inside]
      rfl
  | .object members =>
    match depth with
    | 0 => cases shallow
    | depth + 1 =>
      have inside := valueMembers_memberDocuments members (fun _ listed => proper.member listed)
        (Nat.le_of_succ_le_succ shallow)
      simp only [document, Document.value, inside]
      exact congrArg (Except.ok ∘ object)
        (Keyed.ofPairs_of_ascending (proper.objects members (.self _)))

theorem valueItems_documents {depth : Nat} (items : List Json)
    (proper : ∀ item ∈ items, item.Proper) (shallow : nestingItems items ≤ depth) :
    valueItems depth (documents items) = .ok items := by
  match items with
  | [] => rfl
  | item :: rest =>
    obtain ⟨here, there⟩ := Nat.max_le.mp shallow
    simp only [documents, valueItems, value_document item (proper item List.mem_cons_self) here,
      valueItems_documents rest (fun item listed => proper item (.tail _ listed)) there]
    rfl

theorem valueMembers_memberDocuments {depth : Nat} (members : List (String × Json))
    (proper : ∀ member ∈ members, member.2.Proper) (shallow : nestingMembers members ≤ depth) :
    valueMembers depth (memberDocuments members) = .ok members := by
  match members with
  | [] => rfl
  | (key, value) :: rest =>
    obtain ⟨here, there⟩ := Nat.max_le.mp shallow
    simp only [memberDocuments, valueMembers,
      value_document value (proper (key, value) List.mem_cons_self) here,
      valueMembers_memberDocuments rest
        (fun member listed => proper member (.tail _ listed)) there]
    rfl

end

/-- A number stands in a document, at any depth. -/
inductive Document.HasNumber : Document → Number → Prop where
  | self (n : Number) : HasNumber (.number n) n
  | item {items : List Document} {item : Document} {stop : Stop} {n : Number} : item ∈ items →
      HasNumber item n → HasNumber (.array items stop) n
  | member {members : List (Option String × Document)} {key : Option String} {value : Document}
      {stop : Stop} {n : Number} : (key, value) ∈ members → HasNumber value n →
      HasNumber (.object members stop) n

mutual

/-- The value of a document has no numbers but those of the document, is sorted by key, and nests no
deeper than the reader goes. -/
theorem value_sound {depth : Nat} {d : Document} {j : Json} (read : d.value depth = .ok j)
    (ranged : ∀ n, d.HasNumber n → n.InRange) : j.Proper ∧ j.nesting ≤ depth := by
  match d with
  | .null =>
    cases read
    exact ⟨.null, Nat.zero_le _⟩
  | .bool b =>
    cases read
    exact ⟨.bool b, Nat.zero_le _⟩
  | .number n =>
    cases read
    exact ⟨.number (ranged n (.self n)), Nat.zero_le _⟩
  | .text s =>
    cases read
    exact ⟨.text s, Nat.zero_le _⟩
  | .array items stop =>
    match depth with
    | 0 => cases read
    | depth + 1 =>
      rw [Document.value] at read
      obtain ⟨values, inside, read⟩ := of_bind_eq_ok read
      obtain ⟨-, -, read⟩ := of_bind_eq_ok read
      cases read
      have each := valueItems_sound inside fun item listed n has => ranged n (.item listed has)
      exact ⟨.array fun item listed => (each item listed).1,
        Nat.succ_le_succ (nestingItems_le_iff.mpr fun item listed => (each item listed).2)⟩
  | .object members stop =>
    match depth with
    | 0 => cases read
    | depth + 1 =>
      rw [Document.value] at read
      obtain ⟨values, inside, read⟩ := of_bind_eq_ok read
      obtain ⟨-, -, read⟩ := of_bind_eq_ok read
      cases read
      have each := valueMembers_sound inside fun key value listed n has =>
        ranged n (.member listed has)
      obtain ⟨ascending, among⟩ := Keyed.ofPairs_spec values
      exact ⟨.object ascending fun member listed => (each member (among member listed)).1,
        Nat.succ_le_succ (nestingMembers_le_iff.mpr fun member listed =>
          (each member (among member listed)).2)⟩
  | .beyond => cases read
  | .garbled => cases read
  | .oddObject key => cases read
  | .brokenText strict lenient => cases read
  | .broken strict lenient => cases read
  | .missing => cases read

theorem valueItems_sound {depth : Nat} {items : List Document} {values : List Json}
    (read : valueItems depth items = .ok values)
    (ranged : ∀ item ∈ items, ∀ n, item.HasNumber n → n.InRange) :
    ∀ value ∈ values, value.Proper ∧ value.nesting ≤ depth := by
  match items with
  | [] =>
    cases read
    exact List.forall_mem_nil _
  | item :: rest =>
    rw [valueItems] at read
    obtain ⟨value, here, read⟩ := of_bind_eq_ok read
    obtain ⟨later, there, read⟩ := of_bind_eq_ok read
    cases read
    intro v listed
    rcases List.mem_cons.mp listed with rfl | listed
    · exact value_sound here (ranged item List.mem_cons_self)
    · exact valueItems_sound there (fun item listed => ranged item (.tail _ listed)) v listed

theorem valueMembers_sound {depth : Nat} {members : List (Option String × Document)}
    {values : List (String × Json)} (read : valueMembers depth members = .ok values)
    (ranged : ∀ key value, (key, value) ∈ members → ∀ n, value.HasNumber n → n.InRange) :
    ∀ member ∈ values, member.2.Proper ∧ member.2.nesting ≤ depth := by
  match members with
  | [] =>
    cases read
    exact List.forall_mem_nil _
  | (none, _) :: rest => cases read
  | (some key, item) :: rest =>
    rw [valueMembers] at read
    obtain ⟨value, here, read⟩ := of_bind_eq_ok read
    obtain ⟨later, there, read⟩ := of_bind_eq_ok read
    cases read
    intro member listed
    rcases List.mem_cons.mp listed with rfl | listed
    · exact value_sound here (ranged (some key) item List.mem_cons_self)
    · exact valueMembers_sound there
        (fun key value listed => ranged key value (.tail _ listed)) member listed

end

end Json

end CallDispatch
