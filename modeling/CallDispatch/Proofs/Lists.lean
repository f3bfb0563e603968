import Mathlib.Algebra.Order.BigOperators.Group.List
import Mathlib.Algebra.Order.Group.Nat
import Mathlib.Algebra.Ring.Nat
import Mathlib.Data.List.Forall2
import Mathlib.Data.List.Permutation

/-!
# Lists of parts

A state often is a list of parts of which an event changes one or adds one. What the parts add up to
then changes by what that part adds, and two lists that correspond part by part keep doing so.
-/

namespace CallDispatch

theorem flatMap_set_perm {l : List α} {i : Nat} {x : α} (found : l[i]? = some x) (y : α)
    (f : α → List β) : (f x ++ (l.set i y).flatMap f).Perm (f y ++ l.flatMap f) := by
  induction l generalizing i with
  | nil => cases found
  | cons head rest ih =>
    cases i with
    | zero =>
      cases found
      exact List.perm_append_comm_assoc _ _ _
    | succ i =>
      calc
        _ = f x ++ (f head ++ (rest.set i y).flatMap f) := rfl
        _ |>.Perm (f head ++ (f x ++ (rest.set i y).flatMap f)) :=
          List.perm_append_comm_assoc _ _ _
        _ |>.Perm (f head ++ (f y ++ rest.flatMap f)) := (ih found).append_left _
        _ |>.Perm (f y ++ (f head ++ rest.flatMap f)) := List.perm_append_comm_assoc _ _ _

theorem flatMap_perm_range {l : List α} {f : α → List β} {g : Nat → List β}
    (each : ∀ (i : Nat) (x : α), l[i]? = some x → (f x).Perm (g i)) :
    (l.flatMap f).Perm ((List.range l.length).flatMap g) := by
  induction l generalizing g with
  | nil => exact .refl _
  | cons head rest ih =>
    have later := ih fun i x found => each (i + 1) x found
    rw [List.length_cons, List.range_succ_eq_map, List.flatMap_cons, List.flatMap_cons,
      List.flatMap_map]
    exact (each 0 head rfl).append later

theorem getElem?_set_cases {l : List α} {i j : Nat} {x y : α}
    (found : (l.set i y)[j]? = some x) : (j = i ∧ x = y) ∨ (j ≠ i ∧ l[j]? = some x) := by
  rw [List.getElem?_set] at found
  split at found
  · next same =>
    split at found
    · cases found
      exact Or.inl ⟨same.symm, rfl⟩
    · cases found
  · next ne => exact Or.inr ⟨Ne.symm ne, found⟩

theorem getElem?_concat_cases {l : List α} {j : Nat} {x y : α}
    (found : (l ++ [y])[j]? = some x) : l[j]? = some x ∨ (j = l.length ∧ x = y) := by
  rw [List.getElem?_append] at found
  split at found
  · exact Or.inl found
  · next past =>
    obtain ⟨last, same⟩ := List.getElem?_eq_some_iff.mp found
    rw [List.length_singleton] at last
    rw [List.getElem_singleton] at same
    exact Or.inr ⟨by omega, same.symm⟩

theorem map_set_self {l : List α} {i : Nat} {x y : α} {f : α → β} (found : l[i]? = some x)
    (same : f y = f x) : (l.set i y).map f = l.map f := by
  obtain ⟨lt, rfl⟩ := List.getElem?_eq_some_iff.mp found
  rw [List.map_set, same, ← List.map_set, List.set_getElem_self]

theorem sum_map_set {l : List α} {i : Nat} {x : α} (found : l[i]? = some x) (y : α)
    (f : α → Nat) : ((l.set i y).map f).sum + f x = (l.map f).sum + f y := by
  induction l generalizing i with
  | nil => cases found
  | cons head rest ih =>
    cases i with
    | zero =>
      cases found
      simp only [List.set_cons_zero, List.map_cons, List.sum_cons]
      omega
    | succ i =>
      have later := ih found
      simp only [List.set_cons_succ, List.map_cons, List.sum_cons]
      omega

/-- One entry adds less by an amount, and none adds more. -/
theorem sum_map_add_le {l : List α} {f g : α → Nat} (le : ∀ x ∈ l, g x ≤ f x) {x : α}
    (member : x ∈ l) {amount : Nat} (less : g x + amount ≤ f x) :
    (l.map g).sum + amount ≤ (l.map f).sum := by
  induction l with
  | nil => cases member
  | cons head rest ih =>
    have others := fun y listed => le y (List.mem_cons_of_mem head listed)
    simp only [List.map_cons, List.sum_cons]
    rcases List.mem_cons.mp member with rfl | later
    · have := List.sum_le_sum others
      omega
    · have := ih others later
      have := le head List.mem_cons_self
      omega

theorem perm_flatMap_filter [DecidableEq β] {keys : List β} (nodup : keys.Nodup) {l : List α}
    {key : α → β} (keyed : ∀ x ∈ l, key x ∈ keys) :
    l.Perm (keys.flatMap fun k => l.filter fun x => key x = k) := by
  induction keys generalizing l with
  | nil =>
    have none : l = [] := List.eq_nil_iff_forall_not_mem.mpr fun x member => by
      cases keyed x member
    rw [none]
    rfl
  | cons k rest ih =>
    obtain ⟨fresh, nodup⟩ := List.nodup_cons.mp nodup
    have others : ∀ x ∈ l.filter (fun x => ¬ key x = k), key x ∈ rest := by
      intro x member
      obtain ⟨listed, ne⟩ := List.mem_filter.mp member
      exact (List.mem_cons.mp (keyed x listed)).resolve_left (by simpa using ne)
    have later := ih nodup others
    have same : ∀ k' ∈ rest, (l.filter fun x => ¬ key x = k).filter (fun x => key x = k') =
        l.filter fun x => key x = k' := by
      intro k' member
      rw [List.filter_filter]
      refine List.filter_congr fun x _ => ?_
      by_cases at_ : key x = k'
      · have ne : k' ≠ k := by
          rintro rfl
          exact fresh member
        simp [at_, ne]
      · simp [at_]
    rw [List.flatMap_congr same] at later
    calc
      l.Perm (l.filter (fun x => key x = k) ++ l.filter fun x => ¬ key x = k) := by
        simpa using (List.filter_append_perm (fun x => decide (key x = k)) l).symm
      _ |>.Perm (l.filter (fun x => key x = k) ++
          rest.flatMap fun k' => l.filter fun x => key x = k') := later.append_left _

theorem forall₂_getElem? {R : α → β → Prop} {l : List α} {k : List β} (all : List.Forall₂ R l k)
    {i : Nat} {x : α} (found : l[i]? = some x) : ∃ y, k[i]? = some y ∧ R x y := by
  induction all generalizing i with
  | nil => cases found
  | cons related _ ih =>
    cases i with
    | zero =>
      cases found
      exact ⟨_, rfl, related⟩
    | succ i => exact ih found

theorem forall₂_set {R : α → β → Prop} {l : List α} {k : List β} (all : List.Forall₂ R l k)
    (i : Nat) {x : α} {y : β} (related : R x y) : List.Forall₂ R (l.set i x) (k.set i y) := by
  induction all generalizing i with
  | nil => exact .nil
  | cons first rest ih =>
    cases i with
    | zero => exact .cons related rest
    | succ i => exact .cons first (ih i)

theorem map_eq_of_forall₂ {f : α → γ} {g : β → γ} {l : List α} {k : List β}
    (all : List.Forall₂ (fun x y => g y = f x) l k) : k.map g = l.map f := by
  induction all with
  | nil => rfl
  | cons same _ ih => rw [List.map_cons, List.map_cons, same, ih]

/-- What is looked up by its own place stays in place. -/
theorem map_filterMap_sublist {f : α → Option β} {g : β → α}
    (placed : ∀ x y, f x = some y → g y = x) (l : List α) :
    ((l.filterMap f).map g).Sublist l := by
  induction l with
  | nil => exact .slnil
  | cons x rest ih =>
    cases found : f x with
    | none =>
      rw [List.filterMap_cons_none found]
      exact ih.cons x
    | some y =>
      rw [List.filterMap_cons_some found, List.map_cons, placed x y found]
      exact ih.cons_cons x

theorem drop_take_eq_filterMap (l : List α) (start count : Nat) :
    (l.drop start).take count = (List.range' start count).filterMap (l[·]?) := by
  induction count generalizing start with
  | zero => rfl
  | succ count ih =>
    rw [List.range'_succ]
    by_cases inside : start < l.length
    · rw [List.drop_eq_getElem_cons inside, List.take_succ_cons, ih,
        List.filterMap_cons_some (List.getElem?_eq_getElem inside)]
    · have past : l[start]? = none := List.getElem?_eq_none (by omega)
      rw [List.filterMap_cons_none past, ← ih, List.drop_eq_nil_of_le (by omega),
        List.drop_eq_nil_of_le (by omega), List.take_nil, List.take_nil]

/-! ## Some of the parts -/

/-- A part that is kept comes after the kept ones before it. -/
theorem getElem?_filter {p : α → Bool} {l : List α} {i : Nat} {x : α} (found : l[i]? = some x)
    (kept : p x = true) : (l.filter p)[(l.take i).countP p]? = some x := by
  induction l generalizing i with
  | nil => cases found
  | cons head rest ih =>
    cases i with
    | zero =>
      cases found
      simp [kept]
    | succ i =>
      have later := ih (i := i) found
      by_cases first : p head = true
      · simpa [first] using later
      · simpa [first] using later

theorem filter_set_of_kept {p : α → Bool} {l : List α} {i : Nat} {x y : α}
    (found : l[i]? = some x) (kept : p x = true) (stays : p y = true) :
    (l.set i y).filter p = (l.filter p).set ((l.take i).countP p) y := by
  induction l generalizing i with
  | nil => cases found
  | cons head rest ih =>
    cases i with
    | zero =>
      cases found
      simp [kept, stays]
    | succ i =>
      have later := ih (i := i) found
      by_cases first : p head = true
      · simpa [first] using later
      · simpa [first] using later

theorem filter_set_of_dropped {p : α → Bool} {l : List α} {i : Nat} {x y : α}
    (found : l[i]? = some x) (dropped : p x = false) (stays : p y = false) :
    (l.set i y).filter p = l.filter p := by
  induction l generalizing i with
  | nil => cases found
  | cons head rest ih =>
    cases i with
    | zero =>
      cases found
      simp [dropped, stays]
    | succ i =>
      have later := ih (i := i) found
      by_cases first : p head = true
      · simpa [first] using later
      · simpa [first] using later

end CallDispatch
