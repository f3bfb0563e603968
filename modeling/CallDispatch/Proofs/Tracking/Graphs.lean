import CallDispatch.Proofs.Tracking.Stages
import Mathlib.Data.Fintype.Card
import Mathlib.Data.Nat.Find
import Mathlib.Data.Set.Finite.Lattice

/-!
# Graphs of calls

Stores list finitely many calls, so only finitely many can be reached from a wait set. If none of
them leads back to itself, the chains of calls below each are bounded in length, and those below the
futures of a wait set have a longest one.
-/

namespace CallDispatch

/-- The calls that an output lists. -/
def OutputRecord.keys : OutputRecord → List CallName
  | .value _ => []
  | .calls keys => keys

namespace Stores

variable {stores : Stores} {set : List Future} {f g : Future} {n : Nat}

/-- All calls that some output lists. -/
def listed (stores : Stores) : List CallName :=
  stores.entries.flatMap fun entry => entry.2.outputs.flatMap fun left => left.2.keys

theorem mem_listed_of_find {backend : String} {entries : List (String × Store)}
    {left : CallName × OutputRecord} (inside : left ∈ (find backend entries).outputs)
    {key : CallName} (member : key ∈ left.2.keys) :
    key ∈ entries.flatMap fun entry => entry.2.outputs.flatMap fun left => left.2.keys := by
  induction entries with
  | nil => cases inside
  | cons entry rest ih =>
    rw [List.flatMap_cons, List.mem_append]
    rw [find] at inside
    by_cases here : entry.1 = backend
    · rw [if_pos here] at inside
      exact Or.inl (List.mem_flatMap.mpr ⟨left, inside, member⟩)
    · rw [if_neg here] at inside
      exact Or.inr (ih inside)

theorem mem_listed_of_child (child : g ∈ stores.childrenOf f) :
    ∃ key ∈ stores.listed, g = .ofName (key, f.backend) := by
  unfold childrenOf at child
  split at child
  · obtain ⟨key, member, rfl⟩ := List.mem_map.mp child
    refine ⟨key, ?_, rfl⟩
    unfold callsOf at member
    split at member
    · next s keys _ replied =>
      have found : Store.lookup f.key (stores.store f.backend).outputs = some (.calls keys) := by
        unfold output? at replied
        cases checked : (stores.store f.backend).check f.backend with
        | error e =>
          rw [checked] at replied
          cases replied
        | ok _ =>
          rw [checked] at replied
          exact Except.ok.inj replied
      have inside : key ∈ keys := by
        split at member
        · exact member
        · cases member
      exact mem_listed_of_find (Store.mem_of_lookup found) inside
    · cases member
  · cases child

theorem reaches_of_mem {set : List Future} (member : f ∈ set) : stores.Reaches set f.bare :=
  ⟨f, member, .refl⟩

/-- Only finitely many calls can be reached from a wait set. -/
theorem reaches_finite (stores : Stores) (set : List Future) :
    {g | stores.Reaches set g}.Finite := by
  have among : ∀ g, stores.Reaches set g → g ∈ set.flatMap fun f =>
      f.bare :: stores.listed.map fun key => .ofName (key, f.backend) := by
    rintro g ⟨f, member, path⟩
    refine List.mem_flatMap.mpr ⟨f, member, ?_⟩
    have home : g.backend = f.backend := by
      induction path with
      | refl => rfl
      | tail _ step ih => exact (bare_of_child step).2.trans ih
    cases path with
    | refl => exact List.mem_cons_self
    | tail _ step =>
      obtain ⟨key, inside, rfl⟩ := mem_listed_of_child step
      refine List.mem_cons_of_mem _ (List.mem_map.mpr ⟨key, inside, ?_⟩)
      exact congrArg (fun backend => Future.ofName (key, backend)) home.symm
  exact (List.finite_toSet _).subset among

/-! ## Depths -/

theorem Chain.mono {m : Nat} (chain : stores.Chain n f) (le : m ≤ n) : stores.Chain m f := by
  induction le with
  | refl => exact chain
  | step _ ih => exact ih (chain_of_succ chain)

/-- If the chains below each of some calls are bounded, one bound does for all. -/
theorem bounded_of_each (calls : List Future) (each : ∀ g ∈ calls, ∃ n, ¬ stores.Chain n g) :
    ∃ n, ∀ g ∈ calls, ¬ stores.Chain n g := by
  induction calls with
  | nil => exact ⟨0, fun g none => absurd none List.not_mem_nil⟩
  | cons f rest ih =>
    obtain ⟨n, first⟩ := each f List.mem_cons_self
    obtain ⟨m, later⟩ := ih fun g member => each g (List.mem_cons_of_mem f member)
    refine ⟨max n m, ?_⟩
    intro g member chain
    rcases List.mem_cons.mp member with rfl | inside
    · exact first (chain.mono (Nat.le_max_left n m))
    · exact later g inside (chain.mono (Nat.le_max_right n m))

/-- Where no call leads back to itself, the chains below each are bounded. -/
theorem bounded_of_acyclic
    (acyclic : ∀ g, stores.Reaches set g → ¬ Relation.TransGen stores.Dispatches g g)
    (reached : stores.Reaches set g) : ∃ n, ¬ stores.Chain n g := by
  have finite : Finite {g // stores.Reaches set g} := (reaches_finite stores set).to_subtype
  let below (h g : {g // stores.Reaches set g}) : Prop :=
    Relation.TransGen stores.Dispatches g.1 h.1
  have transitive : IsTrans {g // stores.Reaches set g} below :=
    ⟨fun _ _ _ lower higher => higher.trans lower⟩
  have irreflexive : Std.Irrefl below := ⟨fun g => acyclic g.1 g.2⟩
  have founded : WellFounded below := Finite.wellFounded_of_trans_of_irrefl below
  refine founded.induction (C := fun g => ∃ n, ¬ stores.Chain n g.1) ⟨g, reached⟩ ?_
  rintro ⟨g, reached⟩ ih
  obtain ⟨n, bounded⟩ := bounded_of_each (stores.childrenOf g) fun h child =>
    ih ⟨h, reached.tail child⟩ (.single child)
  refine ⟨n + 1, ?_⟩
  rintro ⟨h, child, chain⟩
  exact bounded h child chain

/-- How long the longest chain of calls is below the open futures of a wait set. -/
structure IsDepth (stores : Stores) (futures : List Future) (depth : Nat) : Prop where
  bound : ∀ f ∈ futures, f.done = false → ∀ n, stores.Chain n f → n ≤ depth
  attained : (∃ f ∈ futures, f.done = false) →
    ∃ f ∈ futures, f.done = false ∧ stores.Chain depth f

theorem exists_depth
    (acyclic : ∀ g, stores.Reaches set g → ¬ Relation.TransGen stores.Dispatches g g) :
    ∃ depth, stores.IsDepth set depth := by
  classical
  have exists_ : ∃ n, ∀ f ∈ set, ¬ (f.done = false ∧ stores.Chain n f) := by
    obtain ⟨n, bounded⟩ := bounded_of_each set fun f member => by
      obtain ⟨n, none⟩ := bounded_of_acyclic acyclic (reaches_of_mem member)
      exact ⟨n, by rwa [← chain_iff_of_bare (f := f) (g := f.bare) rfl]⟩
    exact ⟨n, fun f member long => bounded f member long.2⟩
  have least := Nat.find_spec exists_
  cases size : Nat.find exists_ with
  | zero =>
    rw [size] at least
    have none : ∀ f ∈ set, f.done ≠ false := fun f member open_ => least f member ⟨open_, trivial⟩
    refine ⟨0, fun f member open_ => absurd open_ (none f member), ?_⟩
    rintro ⟨f, member, open_⟩
    exact absurd open_ (none f member)
  | succ depth =>
    rw [size] at least
    have shorter := Nat.find_min exists_ (m := depth) (by omega)
    refine ⟨depth, ?_, ?_⟩
    · intro f member open_ n chain
      by_contra longer
      exact least f member ⟨open_, chain.mono (by omega)⟩
    · intro _
      by_contra none
      exact shorter fun f member long => none ⟨f, member, long⟩

/-! ## Complete stores -/

/-- Stores that hold the outcomes of all calls that can be reached from a wait set. Among these no
call leads back to itself, the joined keys of jobs tell them apart, and each job has one backend. -/
structure IsComplete (stores : Stores) (set : List Future) : Prop where
  status : ∀ g, stores.Reaches set g → ∃ s, stores.status? g.backend g.key = .ok (some s)
  output : ∀ g s, stores.Reaches set g → stores.status? g.backend g.key = .ok (some s) →
    s.success = true → g.produceOutput = true →
    ∃ o, stores.output? g.backend g.key = .ok (some o)
  keys : ∀ g h, stores.Reaches set g → stores.Reaches set h → g.jobKey = h.jobKey →
    g.key.executorId = h.key.executorId ∧ g.key.jobId = h.key.jobId
  homes : ∀ g h, stores.Reaches set g → stores.Reaches set h →
    g.key.executorId = h.key.executorId → g.key.jobId = h.key.jobId → g.backend = h.backend
  acyclic : ∀ g, stores.Reaches set g → ¬ Relation.TransGen stores.Dispatches g g

namespace IsComplete

variable {futures : List Future} {units : List WaitUnit}

theorem mono (complete : stores.IsComplete set)
    (inside : ∀ g, stores.Reaches futures g → stores.Reaches set g) :
    stores.IsComplete futures where
  status g reached := complete.status g (inside g reached)
  output g s reached := complete.output g s (inside g reached)
  keys g h reached reached' := complete.keys g h (inside g reached) (inside h reached')
  homes g h reached reached' := complete.homes g h (inside g reached) (inside h reached')
  acyclic g reached := complete.acyclic g (inside g reached)

theorem homesAgree (complete : stores.IsComplete set)
    (inside : ∀ f ∈ futures, stores.Reaches set f.bare) : HomesAgree futures := by
  intro f member g member' same
  obtain ⟨executor, job⟩ := complete.keys g.bare f.bare (inside g member') (inside f member) same
  exact complete.homes g.bare f.bare (inside g member') (inside f member) executor job

/-- The calls of a unit are of its job and its backend, and listed there as finished. -/
theorem member_finished (complete : stores.IsComplete set)
    (inside : ∀ f ∈ futures, stores.Reaches set f.bare)
    (grouped : Grouped (futures.map Future.name) units) {u : WaitUnit} (unit : u ∈ units) {p : Nat}
    (member : p ∈ u.members) (found : futures[p]? = some f) :
    f.backend = u.backend ∧ f.key.callId ∈ u.finishedCalls stores := by
  have listed := List.mem_of_getElem? found
  obtain ⟨name, named, key⟩ := (grouped.member u unit p).mp member
  rw [List.getElem?_map, found] at named
  cases named
  obtain ⟨first, atHead, heading⟩ := grouped.first u unit
  obtain ⟨inNames, sameKey⟩ := jobKey_of_firstOf atHead
  obtain ⟨h, hListed, rfl⟩ := List.mem_map.mp inNames
  injection heading with executor rest
  injection rest with job home
  have same : f.jobKey = h.jobKey := key.trans sameKey.symm
  obtain ⟨sameExecutor, sameJob⟩ :=
    complete.keys f.bare h.bare (inside f listed) (inside h hListed) same
  have sameHome := complete.homes f.bare h.bare (inside f listed) (inside h hListed) sameExecutor
    sameJob
  have backend : f.backend = u.backend := sameHome.trans home.symm
  refine ⟨backend, ?_⟩
  obtain ⟨s, replied⟩ := complete.status f.bare (inside f listed)
  have own : (⟨u.executorId, u.jobId, f.key.callId⟩ : CallName) = f.key := by
    rw [executor, job]
    show (⟨h.key.executorId, h.key.jobId, f.key.callId⟩ : CallName) = f.key
    rw [← show f.key.executorId = h.key.executorId from sameExecutor,
      ← show f.key.jobId = h.key.jobId from sameJob]
  refine Store.mem_finishedCalls.mpr ⟨s, ?_⟩
  rw [own, ← backend]
  exact (available_of_status replied).2

/-- So a monitor is asked to watch only calls that have finished. -/
theorem watched_finished (complete : stores.IsComplete set)
    (inside : ∀ f ∈ futures, stores.Reaches set f.bare)
    (grouped : Grouped (futures.map Future.name) units) :
    ∀ u ∈ units, ∀ id ∈ (u.watchedJob futures).callIds, id ∈ u.finishedCalls stores := by
  intro u unit id listed
  obtain ⟨p, member, at_⟩ := List.mem_filterMap.mp listed
  obtain ⟨f, found, rfl⟩ := Option.map_eq_some_iff.mp at_
  exact (complete.member_finished inside grouped unit member found).2

/-- The store of every unit is available. -/
theorem unit_available (complete : stores.IsComplete set)
    (inside : ∀ f ∈ futures, stores.Reaches set f.bare)
    (grouped : Grouped (futures.map Future.name) units) {u : WaitUnit} (unit : u ∈ units) :
    (stores.store u.backend).unavailable = false := by
  obtain ⟨first, atHead, heading⟩ := grouped.first u unit
  obtain ⟨h, listed, rfl⟩ := List.mem_map.mp (jobKey_of_firstOf atHead).1
  have home : u.backend = h.backend := congrArg (·.2.2) heading
  obtain ⟨s, replied⟩ := complete.status h.bare (inside h listed)
  rw [home]
  exact (available_of_status replied).1

end IsComplete

end Stores

end CallDispatch
