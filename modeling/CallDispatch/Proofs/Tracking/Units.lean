import CallDispatch.Proofs.Lists
import CallDispatch.Proofs.Tracking.Records
import Mathlib.Data.List.Nodup

/-!
# Calls grouped into units

The calls of a wait set are grouped by their joined job key, and a unit has the job and the backend
of the first call of its key. Placing one more call adds it to the unit of its key, or makes a new
unit at the end; no unit is ever moved, and none changes its job or its backend.
-/

namespace CallDispatch

/-- The first call of a joined job key. -/
def firstOf (jobKey : String) (names : List (CallName × String)) : Option (CallName × String) :=
  names.find? (·.1.jobKey = jobKey)

theorem firstOf_append_of_some {jobKey : String} {names : List (CallName × String)}
    {first : CallName × String} (found : firstOf jobKey names = some first)
    (more : List (CallName × String)) : firstOf jobKey (names ++ more) = some first := by
  rw [firstOf, List.find?_append, ← firstOf, found, Option.some_or]

theorem firstOf_cons_of_eq {jobKey : String} {name : CallName × String}
    (same : name.1.jobKey = jobKey) (rest : List (CallName × String)) :
    firstOf jobKey (name :: rest) = some name :=
  List.find?_cons_of_pos (decide_eq_true same)

theorem firstOf_cons_of_ne {jobKey : String} {name : CallName × String}
    (ne : name.1.jobKey ≠ jobKey) (rest : List (CallName × String)) :
    firstOf jobKey (name :: rest) = firstOf jobKey rest :=
  List.find?_cons_of_neg (by simpa using ne)

theorem jobKey_of_firstOf {jobKey : String} {names : List (CallName × String)}
    {first : CallName × String} (found : firstOf jobKey names = some first) :
    first ∈ names ∧ first.1.jobKey = jobKey :=
  ⟨List.mem_of_find?_eq_some found, by simpa using List.find?_some found⟩

theorem firstOf_of_mem {names : List (CallName × String)} {name : CallName × String}
    (member : name ∈ names) : ∃ first, firstOf name.1.jobKey names = some first := by
  rw [← Option.isSome_iff_exists, firstOf, List.find?_isSome]
  exact ⟨name, member, by simp⟩

namespace WaitUnit

/-- The job and the backend of a unit. -/
def heading (u : WaitUnit) : String × String × String := (u.executorId, u.jobId, u.backend)

/-- A unit with a member added, if it has the joined job key. -/
def enroll (jobKey : String) (index : Nat) (u : WaitUnit) : WaitUnit :=
  if u.jobKey = jobKey then { u with members := u.members ++ [index] } else u

@[simp] theorem heading_enroll (jobKey : String) (index : Nat) (u : WaitUnit) :
    (u.enroll jobKey index).heading = u.heading := by
  unfold enroll
  split <;> rfl

theorem jobKey_of_heading {u v : WaitUnit} (same : u.heading = v.heading) :
    u.jobKey = v.jobKey := by
  injection same with executor rest
  injection rest with job _
  rw [jobKey, jobKey, executor, job]

@[simp] theorem jobKey_enroll (jobKey : String) (index : Nat) (u : WaitUnit) :
    (u.enroll jobKey index).jobKey = u.jobKey :=
  jobKey_of_heading (heading_enroll jobKey index u)

theorem enroll_self (u : WaitUnit) (index : Nat) :
    u.enroll u.jobKey index = { u with members := u.members ++ [index] } :=
  if_pos rfl

theorem enroll_of_ne {u : WaitUnit} {jobKey : String} (ne : u.jobKey ≠ jobKey) (index : Nat) :
    u.enroll jobKey index = u :=
  if_neg ne

end WaitUnit

theorem addMember_eq_none {jobKey : String} {index : Nat} {units : List WaitUnit}
    (none : addMember jobKey index units = none) : ∀ u ∈ units, u.jobKey ≠ jobKey := by
  induction units with
  | nil => simp
  | cons u rest ih =>
    rw [addMember] at none
    split at none
    · cases none
    · next ne =>
      intro v member
      rcases List.mem_cons.mp member with rfl | later
      · exact ne
      · exact ih (Option.map_eq_none_iff.mp none) v later

theorem addMember_eq_some {jobKey : String} {index : Nat} {units after : List WaitUnit}
    (distinct : (units.map WaitUnit.jobKey).Nodup)
    (added : addMember jobKey index units = some after) :
    after = units.map (WaitUnit.enroll jobKey index) ∧ ∃ u ∈ units, u.jobKey = jobKey := by
  induction units generalizing after with
  | nil => cases added
  | cons u rest ih =>
    rw [List.map_cons, List.nodup_cons] at distinct
    rw [addMember] at added
    split at added
    · next same =>
      subst same
      cases added
      refine ⟨?_, u, List.mem_cons_self, rfl⟩
      have others : rest.map (WaitUnit.enroll u.jobKey index) = rest := by
        refine (List.map_congr_left fun v member => ?_).trans (List.map_id rest)
        have ne : v.jobKey ≠ u.jobKey := fun same =>
          distinct.1 (same ▸ List.mem_map_of_mem member)
        exact WaitUnit.enroll_of_ne ne index
      rw [List.map_cons, WaitUnit.enroll_self, others]
    · next ne =>
      obtain ⟨tail, found, rfl⟩ := Option.map_eq_some_iff.mp added
      obtain ⟨rfl, v, member, same⟩ := ih distinct.2 found
      refine ⟨?_, v, List.mem_cons_of_mem u member, same⟩
      rw [List.map_cons, WaitUnit.enroll_of_ne ne]

/-- Calls by position, sorted into units by their joined job keys. -/
structure Grouped (names : List (CallName × String)) (units : List WaitUnit) : Prop where
  distinct : (units.map WaitUnit.jobKey).Nodup
  member : ∀ u ∈ units, ∀ i, i ∈ u.members ↔
    ∃ name, names[i]? = some name ∧ name.1.jobKey = u.jobKey
  nodup : ∀ u ∈ units, u.members.Nodup
  first : ∀ u ∈ units, ∃ name, firstOf u.jobKey names = some name ∧
    u.heading = (name.1.executorId, name.1.jobId, name.2)
  every : ∀ name ∈ names, ∃ u ∈ units, u.jobKey = name.1.jobKey

namespace Grouped

variable {names : List (CallName × String)} {units : List WaitUnit}

theorem empty : Grouped [] [] where
  distinct := List.nodup_nil
  member := by simp
  nodup := by simp
  first := by simp
  every := by simp

/-- No position is in two units. -/
theorem unit_unique (grouped : Grouped names units) {i j p : Nat} {u v : WaitUnit}
    (hu : units[i]? = some u) (hv : units[j]? = some v) (inU : p ∈ u.members)
    (inV : p ∈ v.members) : i = j := by
  obtain ⟨x, found, ofU⟩ := (grouped.member u (List.mem_of_getElem? hu) p).mp inU
  obtain ⟨y, found', ofV⟩ := (grouped.member v (List.mem_of_getElem? hv) p).mp inV
  rw [found] at found'
  cases found'
  have below : i < (units.map WaitUnit.jobKey).length := by
    rw [List.length_map]
    exact (List.getElem?_eq_some_iff.mp hu).1
  refine (List.getElem?_inj below grouped.distinct).mp ?_
  rw [List.getElem?_map, List.getElem?_map, hu, hv, Option.map_some, Option.map_some, ← ofU, ofV]

/-- The calls grouped after one more, by position. -/
theorem concat_iff (name : CallName × String) (jobKey : String) (i : Nat) :
    (∃ x, (names ++ [name])[i]? = some x ∧ x.1.jobKey = jobKey) ↔
      (∃ x, names[i]? = some x ∧ x.1.jobKey = jobKey) ∨
        (i = names.length ∧ name.1.jobKey = jobKey) := by
  constructor
  · rintro ⟨x, found, same⟩
    rcases getElem?_concat_cases found with old | ⟨last, rfl⟩
    · exact Or.inl ⟨x, old, same⟩
    · exact Or.inr ⟨last, same⟩
  · rintro (⟨x, found, same⟩ | ⟨rfl, same⟩)
    · have below := (List.getElem?_eq_some_iff.mp found).1
      exact ⟨x, by rw [List.getElem?_append_left below, found], same⟩
    · exact ⟨name, by simp, same⟩

/-- A call whose key has a unit becomes a member of it. -/
theorem enrolled (grouped : Grouped names units) (name : CallName × String)
    (known : ∃ u ∈ units, u.jobKey = name.1.jobKey) :
    Grouped (names ++ [name]) (units.map (WaitUnit.enroll name.1.jobKey names.length)) where
  distinct := by
    have same : (units.map (WaitUnit.enroll name.1.jobKey names.length)).map WaitUnit.jobKey =
        units.map WaitUnit.jobKey := by simp
    rw [same]
    exact grouped.distinct
  member := by
    intro v listed i
    obtain ⟨u, member, rfl⟩ := List.mem_map.mp listed
    rw [concat_iff, WaitUnit.jobKey_enroll, ← grouped.member u member]
    by_cases same : u.jobKey = name.1.jobKey
    · rw [← same, WaitUnit.enroll_self, List.mem_append, List.mem_singleton]
      simp
    · rw [WaitUnit.enroll_of_ne same]
      simp [Ne.symm same]
  nodup := by
    intro v listed
    obtain ⟨u, member, rfl⟩ := List.mem_map.mp listed
    by_cases same : u.jobKey = name.1.jobKey
    · rw [← same, WaitUnit.enroll_self]
      refine List.nodup_append.mpr ⟨grouped.nodup u member, List.nodup_singleton _, ?_⟩
      intro i old j last
      obtain ⟨x, found, -⟩ := (grouped.member u member i).mp old
      have below := (List.getElem?_eq_some_iff.mp found).1
      rw [List.mem_singleton.mp last]
      omega
    · rw [WaitUnit.enroll_of_ne same]
      exact grouped.nodup u member
  first := by
    intro v listed
    obtain ⟨u, member, rfl⟩ := List.mem_map.mp listed
    obtain ⟨x, found, heading⟩ := grouped.first u member
    rw [WaitUnit.jobKey_enroll, WaitUnit.heading_enroll]
    exact ⟨x, firstOf_append_of_some found _, heading⟩
  every := by
    intro x listed
    have inside : ∃ u ∈ units, u.jobKey = x.1.jobKey := by
      rcases List.mem_append.mp listed with old | last
      · exact grouped.every x old
      · rw [List.mem_singleton.mp last]
        exact known
    obtain ⟨u, member, same⟩ := inside
    exact ⟨_, List.mem_map_of_mem member, by rw [WaitUnit.jobKey_enroll, same]⟩

/-- The unit of a call whose key has none yet. -/
def unitOf (name : CallName × String) (index : Nat) : WaitUnit where
  executorId := name.1.executorId
  jobId := name.1.jobId
  backend := name.2
  members := [index]

/-- A call whose key has no unit gets one of its own. -/
theorem founded (grouped : Grouped names units) (name : CallName × String)
    (unknown : ∀ u ∈ units, u.jobKey ≠ name.1.jobKey) :
    Grouped (names ++ [name]) (units ++ [unitOf name names.length]) where
  distinct := by
    rw [List.map_append]
    refine List.nodup_append.mpr ⟨grouped.distinct, List.nodup_singleton _, ?_⟩
    intro key old key' last
    obtain ⟨u, member, rfl⟩ := List.mem_map.mp old
    rw [List.mem_singleton.mp last]
    exact unknown u member
  member := by
    intro u listed i
    rw [concat_iff]
    rcases List.mem_append.mp listed with old | last
    · rw [grouped.member u old]
      simp [Ne.symm (unknown u old)]
    · rw [List.mem_singleton.mp last]
      have none : ¬ ∃ x, names[i]? = some x ∧ x.1.jobKey = name.1.jobKey := by
        rintro ⟨x, found, same⟩
        obtain ⟨u, member, same'⟩ := grouped.every x (List.mem_of_getElem? found)
        exact unknown u member (same'.trans same)
      have own : (unitOf name names.length).jobKey = name.1.jobKey := rfl
      rw [own]
      simp [none, unitOf]
  nodup := by
    intro u listed
    rcases List.mem_append.mp listed with old | last
    · exact grouped.nodup u old
    · rw [List.mem_singleton.mp last]
      exact List.nodup_singleton _
  first := by
    intro u listed
    rcases List.mem_append.mp listed with old | last
    · obtain ⟨x, found, heading⟩ := grouped.first u old
      exact ⟨x, firstOf_append_of_some found _, heading⟩
    · rw [List.mem_singleton.mp last]
      refine ⟨name, ?_, rfl⟩
      have none : names.find? (·.1.jobKey = name.1.jobKey) = none := by
        rw [List.find?_eq_none]
        intro x member
        obtain ⟨u, inside, same⟩ := grouped.every x member
        simpa [same] using unknown u inside
      have own : (unitOf name names.length).jobKey = name.1.jobKey := rfl
      rw [own, firstOf, List.find?_append, none]
      simp
  every := by
    intro x listed
    rcases List.mem_append.mp listed with old | last
    · obtain ⟨u, member, same⟩ := grouped.every x old
      exact ⟨u, List.mem_append_left _ member, same⟩
    · rw [List.mem_singleton.mp last]
      exact ⟨_, List.mem_append_right _ List.mem_cons_self, rfl⟩

end Grouped

/-! ## Opening backends -/

namespace Provider

variable {provider : Provider} {backend : String} {e : DispatchError}

/-- An opening of a backend that does not come through. -/
def Denies (provider : Provider) (backend : String) (e : DispatchError) : Prop :=
  ∃ before, provider.openBackend before backend = .error e

theorem not_denies (opens : ∀ before backend, provider.openBackend before backend = .ok ()) :
    ¬ provider.Denies backend e := by
  rintro ⟨before, closed⟩
  cases (opens before backend).symm.trans closed

end Provider

namespace WaitState

variable {μ : Type} {provider : Provider} {names : List (CallName × String)} {s : WaitState μ}

/-- Placing a call groups it with the others, and nothing else changes but what was opened, unless
the backend of a new unit fails to open. -/
theorem place_cases (provider : Provider) (grouped : Grouped names s.units)
    (name : CallName × String) :
    (∃ units opened, s.place provider name.1 name.2 names.length =
        ({ s with units, opened }, none) ∧
      Grouped (names ++ [name]) units ∧
      s.units.map WaitUnit.heading <+: units.map WaitUnit.heading) ∨
    ∃ opened e, s.place provider name.1 name.2 names.length = ({ s with opened }, some e) ∧
      provider.Denies name.2 e := by
  unfold place
  cases added : addMember name.1.jobKey names.length s.units with
  | some units =>
    obtain ⟨rfl, known⟩ := addMember_eq_some grouped.distinct added
    have same : (s.units.map (WaitUnit.enroll name.1.jobKey names.length)).map WaitUnit.heading =
        s.units.map WaitUnit.heading := by
      rw [List.map_map]
      exact List.map_congr_left fun u _ => WaitUnit.heading_enroll _ _ u
    exact Or.inl ⟨_, s.opened, rfl, grouped.enrolled name known, same ▸ List.prefix_refl _⟩
  | none =>
    have unknown := addMember_eq_none added
    have longer : s.units.map WaitUnit.heading <+:
        (s.units ++ [Grouped.unitOf name names.length]).map WaitUnit.heading := by
      rw [List.map_append]
      exact List.prefix_append _ _
    by_cases near : provider.atHand = some name.2
    · refine Or.inl ⟨_, s.opened, ?_, grouped.founded name unknown, longer⟩
      rw [if_pos near]
      rfl
    · rw [if_neg near]
      cases opened : provider.openBackend s.opened.length name.2 with
      | ok _ =>
        refine Or.inl ⟨_, s.opened ++ [name.2], ?_, grouped.founded name unknown, longer⟩
        dsimp only
        rw [opened]
        rfl
      | error e =>
        refine Or.inr ⟨s.opened ++ [name.2], e, ?_, s.opened.length, opened⟩
        dsimp only
        rw [opened]

/-- Placing the calls of futures one after the other. -/
theorem placeAll_cases (provider : Provider) (grouped : Grouped names s.units)
    (futures : List Future) :
    (∃ units opened, placeAll provider names.length futures s =
        ({ s with units, opened }, none) ∧
      Grouped (names ++ futures.map Future.name) units) ∨
    ∃ units opened backend e, placeAll provider names.length futures s =
        ({ s with units, opened }, some e) ∧ provider.Denies backend e := by
  induction futures generalizing names s with
  | nil => exact Or.inl ⟨s.units, s.opened, rfl, by simpa using grouped⟩
  | cons f rest ih =>
    rw [placeAll]
    rcases place_cases provider grouped f.name with ⟨units, opened, placed, grouped', -⟩ |
        ⟨opened, e, failed, closed⟩
    · have first : s.place provider f.key f.backend names.length =
          ({ s with units, opened }, none) := placed
      have position : names.length + 1 = (names ++ [f.name]).length := by simp
      rw [first]
      dsimp only
      rw [position]
      rcases ih (s := { s with units, opened }) grouped' with
        ⟨units', opened', placed', grouped''⟩ | ⟨units', opened', backend, e, failed, closed⟩
      · exact Or.inl ⟨units', opened', placed', by simpa using grouped''⟩
      · exact Or.inr ⟨units', opened', backend, e, failed, closed⟩
    · have first : s.place provider f.key f.backend names.length =
          ({ s with opened }, some e) := failed
      rw [first]
      exact Or.inr ⟨s.units, opened, f.backend, e, rfl, closed⟩

end WaitState

end CallDispatch
