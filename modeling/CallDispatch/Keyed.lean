/-!
# Values by key

A keyed list holds values under texts, in ascending order of the texts. Putting a value under a key
replaces the one that was there and leaves all others alone.
-/

namespace CallDispatch.Keyed

/-- The value under a key. -/
def find? (key : String) : List (String × α) → Option α
  | [] => none
  | (k, value) :: rest => if k = key then some value else find? key rest

/-- Put a value under a key. -/
def put (key : String) (value : α) : List (String × α) → List (String × α)
  | [] => [(key, value)]
  | (k, v) :: rest =>
    if key < k then (key, value) :: (k, v) :: rest
    else if key = k then (key, value) :: rest
    else (k, v) :: put key value rest

/-- The keyed list of some pairs, the last of several with one key winning. -/
def ofPairs (pairs : List (String × α)) : List (String × α) :=
  pairs.foldl (fun sorted (key, value) => put key value sorted) []

theorem find?_put_self (key : String) (value : α) (l : List (String × α)) :
    find? key (put key value l) = some value := by
  induction l with
  | nil => simp [put, find?]
  | cons head rest ih =>
    obtain ⟨k, v⟩ := head
    rw [put]
    split
    · simp [find?]
    · split
      · simp [find?]
      · next h => simp [find?, Ne.symm h, ih]

theorem find?_put_of_ne {key other : String} (h : other ≠ key) (value : α)
    (l : List (String × α)) : find? other (put key value l) = find? other l := by
  induction l with
  | nil => simp [put, find?, Ne.symm h]
  | cons head rest ih =>
    obtain ⟨k, v⟩ := head
    rw [put]
    split
    · simp [find?, Ne.symm h]
    · split
      · next hk => subst hk; simp [find?, Ne.symm h]
      · simp [find?, ih]

/-- The keys of a keyed list ascend. -/
def Ascending (l : List (String × α)) : Prop :=
  l.Pairwise fun a b => a.1 < b.1

theorem mem_put {key : String} {value : α} {l : List (String × α)} {pair : String × α}
    (member : pair ∈ put key value l) : pair = (key, value) ∨ pair ∈ l := by
  induction l with
  | nil => simpa [put] using member
  | cons head rest ih =>
    obtain ⟨k, v⟩ := head
    rw [put] at member
    split at member
    · simpa using member
    · split at member
      · rcases List.mem_cons.mp member with eq | tail
        · exact Or.inl eq
        · exact Or.inr (List.mem_cons_of_mem _ tail)
      · rcases List.mem_cons.mp member with eq | tail
        · exact Or.inr (eq ▸ List.mem_cons_self)
        · exact (ih tail).imp_right (List.mem_cons_of_mem _)

theorem ascending_put {l : List (String × α)} (ascending : Ascending l) (key : String)
    (value : α) : Ascending (put key value l) := by
  induction l with
  | nil => simp [put, Ascending]
  | cons head rest ih =>
    obtain ⟨k, v⟩ := head
    obtain ⟨above, tail⟩ := List.pairwise_cons.mp ascending
    rw [put]
    split
    · next lt =>
      refine List.pairwise_cons.mpr ⟨fun pair member => ?_, ascending⟩
      rcases List.mem_cons.mp member with rfl | later
      · exact lt
      · exact String.lt_trans lt (above pair later)
    · next notLt =>
      split
      · next eq => exact List.pairwise_cons.mpr ⟨fun pair member => eq ▸ above pair member, tail⟩
      · next ne =>
        refine List.pairwise_cons.mpr ⟨fun pair member => ?_, ih tail⟩
        rcases mem_put member with rfl | old
        · have ge : k ≤ key := String.not_lt.mp notLt
          exact Std.lt_of_le_of_ne ge (Ne.symm ne)
        · exact above pair old

/-- A value with a key above all others is put last. -/
theorem put_of_last {key : String} {l : List (String × α)} (last : ∀ pair ∈ l, pair.1 < key)
    (value : α) : put key value l = l ++ [(key, value)] := by
  induction l with
  | nil => rfl
  | cons head rest ih =>
    obtain ⟨k, v⟩ := head
    have above : k < key := last (k, v) List.mem_cons_self
    have notBelow : ¬ key < k := String.lt_asymm above
    have ne : key ≠ k := fun same => String.lt_irrefl k (same ▸ above)
    rw [put, if_neg notBelow, if_neg ne, ih fun pair listed => last pair (.tail _ listed)]
    rfl

/-- Values put one by one in ascending order of their keys stay in the order given. -/
theorem foldl_put_of_ascending {l pairs : List (String × α)} (ascending : Ascending (l ++ pairs)) :
    pairs.foldl (fun sorted (key, value) => put key value sorted) l = l ++ pairs := by
  induction pairs generalizing l with
  | nil => simp
  | cons pair rest ih =>
    obtain ⟨key, value⟩ := pair
    have last : ∀ earlier ∈ l, earlier.1 < key := fun earlier listed =>
      (List.pairwise_append.mp ascending).2.2 earlier listed (key, value) List.mem_cons_self
    rw [List.foldl_cons]
    dsimp only
    rw [put_of_last last, ih (by simpa using ascending)]
    simp

theorem ofPairs_of_ascending {pairs : List (String × α)} (ascending : Ascending pairs) :
    ofPairs pairs = pairs :=
  foldl_put_of_ascending (l := []) ascending

/-- However pairs come, they are put in ascending order, and no pair is made up. -/
theorem ofPairs_spec (pairs : List (String × α)) :
    Ascending (ofPairs pairs) ∧ ∀ pair ∈ ofPairs pairs, pair ∈ pairs := by
  have each (rest l : List (String × α)) (ascending : Ascending l) :
      Ascending (rest.foldl (fun sorted (key, value) => put key value sorted) l) ∧
        ∀ pair ∈ rest.foldl (fun sorted (key, value) => put key value sorted) l,
          pair ∈ l ∨ pair ∈ rest := by
    induction rest generalizing l with
    | nil => exact ⟨ascending, fun pair listed => Or.inl listed⟩
    | cons first rest ih =>
      obtain ⟨ascending', among⟩ := ih _ (ascending_put ascending first.1 first.2)
      refine ⟨ascending', fun pair listed => ?_⟩
      rcases among pair listed with old | later
      · rcases mem_put old with rfl | old
        · exact Or.inr List.mem_cons_self
        · exact Or.inl old
      · exact Or.inr (List.mem_cons_of_mem _ later)
  obtain ⟨ascending, among⟩ := each pairs [] List.Pairwise.nil
  exact ⟨ascending, fun pair listed => (among pair listed).resolve_left List.not_mem_nil⟩

theorem mem_iff_find? {l : List (String × α)} (ascending : Ascending l) {key : String}
    {value : α} : (key, value) ∈ l ↔ find? key l = some value := by
  induction l with
  | nil => simp [find?]
  | cons head rest ih =>
    obtain ⟨k, v⟩ := head
    obtain ⟨above, tail⟩ := List.pairwise_cons.mp ascending
    rw [find?, List.mem_cons, ih tail]
    by_cases same : k = key
    · subst same
      have absent : ¬ (k, value) ∈ rest := fun member => String.lt_irrefl k (above _ member)
      rw [ih tail] at absent
      simp [absent, eq_comm]
    · simp [same, Ne.symm same]

/-- A value with a key below all others is put first. -/
theorem put_of_first {key : String} {l : List (String × α)} (first : ∀ pair ∈ l, key < pair.1)
    (value : α) : put key value l = (key, value) :: l := by
  cases l with
  | nil => rfl
  | cons head rest =>
    obtain ⟨k, v⟩ := head
    have below : key < k := first (k, v) List.mem_cons_self
    rw [put, if_pos below]

/-- A value whose key is left out may as well not be put. -/
theorem filter_put_of_dropped {keeps : String → Bool} {key : String} (dropped : keeps key = false)
    (value : α) (l : List (String × α)) :
    (put key value l).filter (keeps ·.1) = l.filter (keeps ·.1) := by
  induction l with
  | nil => simp [put, dropped]
  | cons head rest ih =>
    obtain ⟨k, v⟩ := head
    rw [put]
    split
    · simp [dropped]
    · split
      · next same => simp [← same, dropped]
      · rw [List.filter_cons, List.filter_cons, ih]

/-- A value whose key is kept may be put before or after others are left out. -/
theorem filter_put_of_kept {keeps : String → Bool} {key : String} (kept : keeps key = true)
    (value : α) {l : List (String × α)} (ascending : Ascending l) :
    (put key value l).filter (keeps ·.1) = put key value (l.filter (keeps ·.1)) := by
  induction l with
  | nil => simp [put, kept]
  | cons head rest ih =>
    obtain ⟨k, v⟩ := head
    obtain ⟨above, tail⟩ := List.pairwise_cons.mp ascending
    by_cases keepsHead : keeps k = true
    · rw [List.filter_cons, if_pos keepsHead, put, put]
      split
      · rw [List.filter_cons, if_pos kept, List.filter_cons, if_pos keepsHead]
      · split
        · rw [List.filter_cons, if_pos kept]
        · rw [List.filter_cons, if_pos keepsHead, ih tail]
    · have ne : key ≠ k := fun same => keepsHead (same ▸ kept)
      rw [List.filter_cons, if_neg keepsHead, put]
      split
      · next below =>
        rw [List.filter_cons, if_pos kept, List.filter_cons, if_neg keepsHead, put_of_first]
        intro pair listed
        exact String.lt_trans below (above pair (List.mem_filter.mp listed).1)
      · rw [List.filter_cons, if_neg keepsHead, ih tail]

/-- Pairs may be left out by their keys before or after they are put in order. -/
theorem filter_ofPairs (keeps : String → Bool) (pairs : List (String × α)) :
    (ofPairs pairs).filter (keeps ·.1) = ofPairs (pairs.filter (keeps ·.1)) := by
  have each (l : List (String × α)) (ascending : Ascending l) :
      (pairs.foldl (fun sorted (key, value) => put key value sorted) l).filter (keeps ·.1) =
        (pairs.filter (keeps ·.1)).foldl (fun sorted (key, value) => put key value sorted)
          (l.filter (keeps ·.1)) := by
    induction pairs generalizing l with
    | nil => rfl
    | cons pair rest ih =>
      obtain ⟨key, value⟩ := pair
      rw [List.foldl_cons, ih _ (ascending_put ascending key value)]
      by_cases kept : keeps key = true
      · rw [filter_put_of_kept kept value ascending, List.filter_cons, if_pos kept, List.foldl_cons]
      · rw [filter_put_of_dropped (Bool.eq_false_iff.mpr kept), List.filter_cons, if_neg kept]
  exact each [] List.Pairwise.nil

end CallDispatch.Keyed
