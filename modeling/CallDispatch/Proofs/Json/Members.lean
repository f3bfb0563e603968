import CallDispatch.Proofs.Json.Accepted

/-!
# Members in any order

A record is read member by member into a draft that has a slot for each field. A member with a name
of a field fills the slot of that field, if the slot is empty, and any other member goes into the
rest of the draft. So what the slots hold in the end is a matter of which members there are with
each name, and the order of the members only matters to the rest, if there is one.
-/

namespace CallDispatch.Json

variable {σ τ : Type}

/-! ## Slots -/

/-- A slot of a draft: the names of the members that fill it, how their values are decoded, and what
it holds. -/
structure Slot (σ : Type) where
  {α : Type}
  names : List String
  decode : Document → Decoded α
  held : σ → Option α

/-- Whether a member fills a slot. -/
def Slot.picks (s : Slot σ) (member : Option String × Document) : Bool :=
  member.1.any fun key => key ∈ s.names

/-- Whether a member fills none of some slots. -/
def isSpare (slots : List (Slot σ)) (member : Option String × Document) : Bool :=
  !slots.any (·.picks member)

/-- A draft that is filled slot by slot: it is made up of slots and a rest, a member with a name of
a slot fills that slot and nothing else, and any other member goes into the rest. -/
structure Slotted (put : σ → String → Document → Decoded σ) (slots : List (Slot σ))
    (rest : σ → τ) (other : τ → String → Document → Decoded τ) : Prop where
  ext : ∀ {d e}, (∀ s ∈ slots, s.held d = s.held e) → rest d = rest e → d = e
  fills : ∀ {d e key value}, put d key value = .ok e →
    (∀ s ∈ slots, if key ∈ s.names then
      s.held d = none ∧ ∃ a, s.decode value = .ok a ∧ s.held e = some a
      else s.held e = s.held d) ∧
    if ∀ s ∈ slots, key ∉ s.names then other (rest d) key value = .ok (rest e)
    else rest e = rest d
  goes : ∀ {d key value},
    (∀ s ∈ slots, key ∈ s.names → s.held d = none ∧ ∃ a, s.decode value = .ok a) →
    ((∀ s ∈ slots, key ∉ s.names) → ∃ t, other (rest d) key value = .ok t) →
    ∃ e, put d key value = .ok e

/-- What a slot holds after some members: what it has held before, if none of them fills it, and
otherwise the value of the only one that does. -/
def Slot.Takes (s : Slot σ) (members : List (Option String × Document))
    (before after : Option s.α) : Prop :=
  (members.filter s.picks = [] ∧ after = before) ∨
    ∃ member a, members.filter s.picks = [member] ∧ before = none ∧
      s.decode member.2 = .ok a ∧ after = some a

namespace Slot

variable {s : Slot σ} {members more : List (Option String × Document)} {before after : Option s.α}

/-- The first member either fills the slot, and then no later one does, or leaves it as it is. -/
theorem takes_cons_iff {key : String} {value : Document} :
    s.Takes ((some key, value) :: members) before after ↔
      if key ∈ s.names then
        members.filter s.picks = [] ∧ before = none ∧ ∃ a, s.decode value = .ok a ∧ after = some a
      else s.Takes members before after := by
  unfold Takes
  by_cases mine : key ∈ s.names
  · have picked : s.picks (some key, value) = true := decide_eq_true mine
    rw [if_pos mine, List.filter_cons_of_pos picked]
    constructor
    · rintro (⟨none, -⟩ | ⟨member, a, one, empty, read, holds⟩)
      · cases none
      · obtain ⟨rfl, none⟩ := List.cons.inj one
        exact ⟨none, empty, a, read, holds⟩
    · rintro ⟨none, empty, a, read, holds⟩
      exact .inr ⟨(some key, value), a, by rw [none], empty, read, holds⟩
  · have passed : ¬ s.picks (some key, value) = true :=
      fun picked => mine (of_decide_eq_true picked)
    rw [if_neg mine, List.filter_cons_of_neg passed]

theorem Takes.perm (takes : s.Takes members before after) (perm : members.Perm more) :
    s.Takes more before after := by
  have picked := perm.filter s.picks
  rcases takes with ⟨none, same⟩ | ⟨member, a, one, empty, read, holds⟩
  · rw [none] at picked
    exact .inl ⟨picked.symm.eq_nil, same⟩
  · rw [one] at picked
    exact .inr ⟨member, a, List.perm_singleton.mp picked.symm, empty, read, holds⟩

/-- What a slot holds has been read from one of the members. -/
theorem Takes.decoded (takes : s.Takes members none after) {a : s.α} (holds : after = some a) :
    ∃ member ∈ members, s.decode member.2 = .ok a := by
  rcases takes with ⟨-, rfl⟩ | ⟨member, b, one, -, read, rfl⟩
  · cases holds
  · cases holds
    have picked : member ∈ members.filter s.picks := by simp [one]
    exact ⟨member, (List.mem_filter.mp picked).1, read⟩

end Slot

namespace Slotted

variable {put : σ → String → Document → Decoded σ} {slots : List (Slot σ)} {rest : σ → τ}
  {other : τ → String → Document → Decoded τ}

variable {members later : List (Option String × Document)} {d e m : σ} {key : String}
  {value : Document}

theorem isSpare_iff : isSpare slots (some key, value) = true ↔ ∀ s ∈ slots, key ∉ s.names := by
  simp [isSpare, Slot.picks]

/-- Once a member has been put, what a slot is to hold in the end is a matter of the later ones. -/
theorem takes_step (slotted : Slotted put slots rest other) (first : put d key value = .ok m)
    {s : Slot σ} (listed : s ∈ slots) {after : Option s.α} :
    s.Takes ((some key, value) :: later) (s.held d) after ↔ s.Takes later (s.held m) after := by
  have filled := (slotted.fills first).1 s listed
  rw [Slot.takes_cons_iff]
  by_cases mine : key ∈ s.names
  · rw [if_pos mine] at filled ⊢
    obtain ⟨empty, a, read, holds⟩ := filled
    rw [holds]
    constructor
    · rintro ⟨none, -, b, read', rfl⟩
      exact .inl ⟨none, congrArg some (Except.ok.inj (read'.symm.trans read))⟩
    · rintro (⟨none, rfl⟩ | ⟨_, _, _, unfilled, -⟩)
      · exact ⟨none, empty, a, read, rfl⟩
      · cases unfilled
  · rw [if_neg mine] at filled ⊢
    rw [filled]

/-- Once a member has been put, what becomes of the rest is a matter of the later ones. -/
theorem spare_step (slotted : Slotted put slots rest other) (first : put d key value = .ok m) :
    foldMembers other (rest d) (((some key, value) :: later).filter (isSpare slots)) =
      foldMembers other (rest m) (later.filter (isSpare slots)) := by
  have passed := (slotted.fills first).2
  by_cases unknown : ∀ s ∈ slots, key ∉ s.names
  · rw [if_pos unknown] at passed
    rw [List.filter_cons_of_pos (isSpare_iff.mpr unknown), foldMembers, passed]
    rfl
  · rw [if_neg unknown] at passed
    rw [List.filter_cons_of_neg (mt isSpare_iff.mp unknown), passed]

/-- A member can be put if the slot it fills takes it, or if the rest takes it. -/
theorem exists_put (slotted : Slotted put slots rest other)
    (takes : ∀ s ∈ slots, s.Takes ((some key, value) :: later) (s.held d) (s.held e))
    (spare : foldMembers other (rest d) (((some key, value) :: later).filter (isSpare slots)) =
      .ok (rest e)) : ∃ m, put d key value = .ok m := by
  refine slotted.goes (fun s listed mine => ?_) fun unknown => ?_
  · have now := Slot.takes_cons_iff.mp (takes s listed)
    rw [if_pos mine] at now
    obtain ⟨-, empty, a, read, -⟩ := now
    exact ⟨empty, a, read⟩
  · rw [List.filter_cons_of_pos (isSpare_iff.mpr unknown), foldMembers] at spare
    obtain ⟨t, passed, -⟩ := of_bind_eq_ok spare
    exact ⟨t, passed⟩

/-- What a fold over members leaves: each slot holds what the members with its names leave there,
and all others go into the rest in their order. -/
theorem foldMembers_iff (slotted : Slotted put slots rest other) :
    foldMembers put d members = .ok e ↔
      (∀ member ∈ members, member.1.isSome) ∧
      (∀ s ∈ slots, s.Takes members (s.held d) (s.held e)) ∧
      foldMembers other (rest d) (members.filter (isSpare slots)) = .ok (rest e) := by
  induction members generalizing d with
  | nil =>
    constructor
    · intro folded
      cases folded
      exact ⟨nofun, fun s _ => .inl ⟨rfl, rfl⟩, rfl⟩
    · rintro ⟨-, takes, same⟩
      have held : ∀ s ∈ slots, s.held d = s.held e := by
        intro s listed
        rcases takes s listed with ⟨-, same⟩ | ⟨_, _, one, -⟩
        · exact same.symm
        · cases one
      exact congrArg Except.ok (slotted.ext held (Except.ok.inj same))
  | cons member later ih =>
    obtain ⟨key | key, value⟩ := member
    · constructor
      · intro folded
        cases folded
      · rintro ⟨named, -⟩
        cases named _ List.mem_cons_self
    · rw [foldMembers]
      constructor
      · intro folded
        obtain ⟨m, first, folded⟩ := of_bind_eq_ok folded
        obtain ⟨named, takes, spare⟩ := ih.mp folded
        exact ⟨List.forall_mem_cons.mpr ⟨rfl, named⟩,
          fun s listed => (slotted.takes_step first listed).mpr (takes s listed),
          (slotted.spare_step first).trans spare⟩
      · rintro ⟨named, takes, spare⟩
        obtain ⟨m, first⟩ := slotted.exists_put takes spare
        rw [first]
        exact ih.mpr ⟨(List.forall_mem_cons.mp named).2,
          fun s listed => (slotted.takes_step first listed).mp (takes s listed),
          (slotted.spare_step first).symm.trans spare⟩

end Slotted

/-- What a slot has been filled with has been read from one of the members. -/
theorem Slotted.read_of_held {put : σ → String → Document → Decoded σ} {slots : List (Slot σ)}
    {rest : σ → τ} {other : τ → String → Document → Decoded τ}
    (slotted : Slotted put slots rest other) {members : List (Option String × Document)}
    (ranged : ∀ member ∈ members, member.2.Ranged) {d e : σ}
    (folded : foldMembers put d members = .ok e) {s : Slot σ} (listed : s ∈ slots)
    (empty : s.held d = none) {a : s.α} (holds : s.held e = some a) :
    ∃ value : Document, value.Ranged ∧ s.decode value = .ok a := by
  have takes := (slotted.foldMembers_iff.mp folded).2.1 s listed
  rw [empty] at takes
  obtain ⟨member, inside, read⟩ := takes.decoded holds
  exact ⟨member.2, ranged member inside, read⟩

/-! ## Drafts without a rest -/

/-- A draft without a rest skips members that fill no slot. -/
def skipping (_ : Unit) (_ : String) (value : Document) : Decoded Unit := value.skip

theorem foldMembers_skipping_iff {members : List (Option String × Document)} :
    foldMembers skipping () members = .ok () ↔
      ∀ member ∈ members, member.1.isSome ∧ member.2.skip = .ok () := by
  induction members with
  | nil => exact ⟨fun _ => nofun, fun _ => rfl⟩
  | cons member later ih =>
    obtain ⟨key | key, value⟩ := member
    · constructor
      · intro folded
        cases folded
      · intro each
        cases (each _ List.mem_cons_self).1
    · rw [foldMembers, List.forall_mem_cons, ← ih, skipping]
      cases skipped : value.skip with
      | ok _ => exact ⟨fun folded => ⟨⟨rfl, rfl⟩, folded⟩, fun both => both.2⟩
      | error e =>
        constructor
        · intro folded
          cases folded
        · rintro ⟨⟨-, skipped⟩, -⟩
          cases skipped

/-- Where nothing is left of the draft, the members may come in any order. -/
theorem Slotted.foldMembers_perm {put : σ → String → Document → Decoded σ} {slots : List (Slot σ)}
    (slotted : Slotted put slots (fun _ => ()) skipping)
    {members more : List (Option String × Document)} (perm : members.Perm more) {d e : σ}
    (folded : foldMembers put d members = .ok e) : foldMembers put d more = .ok e := by
  obtain ⟨named, takes, spare⟩ := slotted.foldMembers_iff.mp folded
  have skipped := foldMembers_skipping_iff.mp spare
  refine slotted.foldMembers_iff.mpr ⟨fun member listed => named member (perm.mem_iff.mpr listed),
    fun s listed => (takes s listed).perm perm,
    foldMembers_skipping_iff.mpr fun member listed => ?_⟩
  exact skipped member ((perm.filter _).mem_iff.mpr listed)

/-- Where two members that can be moved may change places, any number of them may. -/
theorem foldMembers_perm_of_swap {put : σ → String → Document → Decoded σ}
    {Movable : Option String × Document → Prop}
    (swap : ∀ {d e first second}, Movable first → Movable second →
      foldMembers put d [first, second] = .ok e → foldMembers put d [second, first] = .ok e)
    {members more : List (Option String × Document)} (perm : members.Perm more)
    (movable : ∀ member ∈ members, Movable member) {d e : σ}
    (folded : foldMembers put d members = .ok e) : foldMembers put d more = .ok e := by
  induction perm generalizing d e with
  | nil => exact folded
  | @cons member before after perm ih =>
    have later := (List.forall_mem_cons.mp movable).2
    replace folded : foldMembers put d ([member] ++ before) = .ok e := folded
    obtain ⟨m, first, folded⟩ := foldMembers_append_iff.mp folded
    show foldMembers put d ([member] ++ after) = .ok e
    exact foldMembers_append_iff.mpr ⟨m, first, ih later folded⟩
  | swap second first rest =>
    obtain ⟨here, there, -⟩ := by simpa only [List.forall_mem_cons] using movable
    replace folded : foldMembers put d ([first, second] ++ rest) = .ok e := folded
    obtain ⟨m, both, folded⟩ := foldMembers_append_iff.mp folded
    show foldMembers put d ([second, first] ++ rest) = .ok e
    exact foldMembers_append_iff.mpr ⟨m, swap here there both, folded⟩
  | trans perm _ ih ih' =>
    exact ih' (fun member listed => movable member (perm.mem_iff.mpr listed)) (ih movable folded)

end CallDispatch.Json
