import CallDispatch.Proofs.Tracking.Beginning
import CallDispatch.Proofs.Tracking.Collecting

/-!
# Calls that are lost

A future is done once its answer is recorded, and only then are the calls it dispatched appended,
one by one. Where one of them would begin a unit whose backend cannot be had, the wait fails: the
calls before it have been appended, but it and those after it have not. The futures that dispatched
them are done and are not asked again, so these calls are lost to every later wait as well.

The calls dispatched by the finished futures of a wait set are therefore accounted for in two parts,
those appended and those lost. A step moves calls into one of them, and none ever leaves the other.
-/

namespace CallDispatch

/-! ## Appended or lost -/

/-- The calls that the finished futures of a wait set dispatched are those appended since it began
with a number of futures and those lost, each as often as it was dispatched. -/
def Accounts (begun : Nat) (lost : List (CallName × String)) (futures : List Future) : Prop :=
  ((futures.drop begun).map Future.name ++ lost).Perm
    ((futures.filter (·.done)).flatMap Future.dispatched)

/-- Fresh futures have dispatched nothing yet. -/
theorem accounts_fresh {futures : List Future} (fresh : ∀ f ∈ futures, f.IsFresh) :
    Accounts futures.length [] futures := by
  have coherent : ∀ f ∈ futures, f.Coherent := fun f member => (fresh f member).coherent
  have none : futures.flatMap Future.dispatched = [] := by
    refine List.flatMap_eq_nil_iff.mpr fun f member => ?_
    exact Future.dispatched_eq_nil (coherent f member).done_of_children (fresh f member).done
  unfold Accounts
  rw [flatMap_dispatched_done coherent, none, List.drop_length]
  exact .refl []

namespace Recorded

variable {terms : WaitTerms}

/-- One answer makes its future dispatch what is adopted for it. -/
theorem dispatched_add {r : Recorded} {x : Nat × Outcome FetchAnswer} {f : Future}
    (found : r.futures[x.1]? = some f) (open_ : f.done = false) (coherent : f.Coherent)
    (coherent' : (f.recorded terms.throwing x.2).Coherent) :
    ((r.add terms x).futures.flatMap Future.dispatched).Perm
      (r.futures.flatMap Future.dispatched ++ adoptedAt terms r.futures x) := by
  have changed := flatMap_set_perm found (f.recorded terms.throwing x.2) Future.dispatched
  rw [Future.dispatched_eq_nil coherent.done_of_children open_, List.nil_append] at changed
  rw [(add_of_some found).1, adoptedAt, found]
  dsimp only
  rw [Future.adopted_of_open open_ coherent'.done_of_children]
  exact changed.trans List.perm_append_comm

/-- Answers for distinct open futures make these dispatch what is adopted for them. -/
theorem dispatched_foldl {answers : List (Nat × Outcome FetchAnswer)}
    (distinct : (answers.map (·.1)).Nodup) (r : Recorded)
    (asked : ∀ x ∈ answers, ∃ f, r.futures[x.1]? = some f ∧ f.done = false ∧ f.Coherent ∧
      (f.recorded terms.throwing x.2).Coherent) :
    ((answers.foldl (add terms) r).futures.flatMap Future.dispatched).Perm
      (r.futures.flatMap Future.dispatched ++ answers.flatMap (adoptedAt terms r.futures)) := by
  induction answers generalizing r with
  | nil => simp
  | cons x rest ih =>
    obtain ⟨absent, distinct'⟩ := List.nodup_cons.mp distinct
    have ne : ∀ y ∈ rest, y.1 ≠ x.1 := fun y member same =>
      absent (List.mem_map.mpr ⟨y, member, same⟩)
    have later : ∀ y ∈ rest, ∃ f, (r.add terms x).futures[y.1]? = some f ∧ f.done = false ∧
        f.Coherent ∧ (f.recorded terms.throwing y.2).Coherent := by
      intro y member
      obtain ⟨f, found, open_⟩ := asked y (List.mem_cons_of_mem x member)
      refine ⟨f, ?_, open_⟩
      rw [getElem?_add, found, Option.map_some, Future.answered_cons_of_ne (ne y member)]
      rfl
    have others : rest.flatMap (adoptedAt terms (r.add terms x).futures) =
        rest.flatMap (adoptedAt terms r.futures) :=
      List.flatMap_congr fun y member => adoptedAt_add_of_ne (ne y member)
    obtain ⟨f, found, open_, coherent, coherent'⟩ := asked x List.mem_cons_self
    rw [List.foldl_cons, List.flatMap_cons, ← List.append_assoc, ← others]
    exact (ih distinct' _ later).trans
      ((dispatched_add found open_ coherent coherent').append_right _)

end Recorded

section
variable {replies : Replies} {terms : WaitTerms} {answers : List (Nat × Outcome FetchAnswer)}
  {kept lost more : List (CallName × String)} {earlier later : List Future} {begun : Nat}

/-- By taking in answers, futures come to have dispatched the calls that are to be appended. -/
theorem Absorbs.dispatched (absorbs : Absorbs replies terms answers kept earlier later)
    (coherent : ∀ f ∈ earlier, f.Coherent) :
    (later.flatMap Future.dispatched).Perm
      (earlier.flatMap Future.dispatched ++ (recordAll terms answers earlier).children) := by
  have asked : ∀ x ∈ sortAnswers answers, ∃ f, earlier[x.1]? = some f ∧ f.done = false ∧
      f.Coherent ∧ (f.recorded terms.throwing x.2).Coherent := by
    intro x sorted
    obtain ⟨f, first, found, open_, -, comes⟩ :=
      absorbs.asked x ((sortAnswers_perm answers).mem_iff.mp sorted)
    have before := coherent f (List.mem_of_getElem? found)
    exact ⟨f, found, Future.done_of_open open_, before,
      (Future.recorded_keeps terms.throwing before open_ comes).2⟩
  have none : (kept.map Future.ofName).flatMap Future.dispatched = [] := by
    refine List.flatMap_eq_nil_iff.mpr fun f member => ?_
    obtain ⟨name, -, rfl⟩ := List.mem_map.mp member
    rfl
  rw [absorbs.eq, List.flatMap_append, none, List.append_nil, children_recordAll absorbs.distinct]
  exact Recorded.dispatched_foldl (distinct_sorted absorbs.distinct) { futures := earlier } asked

/-- Each call to be appended is afterwards recorded by a future that is done. -/
theorem Absorbs.dispatcher (absorbs : Absorbs replies terms answers kept earlier later)
    (coherent : ∀ f ∈ earlier, f.Coherent) {c : CallName × String}
    (adopted : c ∈ (recordAll terms answers earlier).children) :
    ∃ g ∈ later, g.done = true ∧ c ∈ g.dispatched := by
  have listed := (absorbs.dispatched coherent).mem_iff.mpr (List.mem_append_right _ adopted)
  rw [← flatMap_dispatched_done (absorbs.keeps coherent).2] at listed
  obtain ⟨g, member, dispatched⟩ := List.mem_flatMap.mp listed
  obtain ⟨inside, done⟩ := List.mem_filter.mp member
  exact ⟨g, inside, done, dispatched⟩

/-- Of the calls to be appended, those that are not are lost. -/
theorem Absorbs.accounts (absorbs : Absorbs replies terms answers kept earlier later)
    (coherent : ∀ f ∈ earlier, f.Coherent) (inside : begun ≤ earlier.length)
    (accounts : Accounts begun lost earlier)
    (split : (recordAll terms answers earlier).children = kept ++ more) :
    Accounts begun (lost ++ more) later := by
  have coherent' := (absorbs.keeps coherent).2
  have names : (later.drop begun).map Future.name =
      (earlier.drop begun).map Future.name ++ kept := by
    rw [List.map_drop, absorbs.names, List.drop_append_of_le_length (by simpa using inside),
      List.map_drop]
  have dispatched := absorbs.dispatched coherent
  unfold Accounts at accounts ⊢
  rw [flatMap_dispatched_done coherent] at accounts
  rw [flatMap_dispatched_done coherent', names]
  calc
    List.Perm _ ((earlier.drop begun).map Future.name ++ lost ++ (kept ++ more)) := by
      simp only [List.append_assoc]
      exact (List.perm_append_comm_assoc kept lost more).append_left _
    _ |>.Perm (earlier.flatMap Future.dispatched ++ (kept ++ more)) := accounts.append_right _
    _ |>.Perm (later.flatMap Future.dispatched) := (split ▸ dispatched).symm

theorem Absorbed.length_le (absorbed : Absorbed replies earlier later) :
    earlier.length ≤ later.length := by
  simpa using absorbed.names_prefix.length_le

/-- Over a history what is lost stays lost, and more is lost only where a backend fails to open. -/
theorem Absorbed.accounts (absorbed : Absorbed replies earlier later)
    (coherent : ∀ f ∈ earlier, f.Coherent) (inside : begun ≤ earlier.length)
    (accounts : Accounts begun lost earlier) :
    ∃ more, Accounts begun (lost ++ more) later ∧ (replies.Opens → more = []) := by
  induction absorbed with
  | refl => exact ⟨[], by simpa using accounts, fun _ => rfl⟩
  | tail before step ih =>
    obtain ⟨terms, answers, kept, absorbs⟩ := step
    obtain ⟨more, accounts', none⟩ := ih
    obtain ⟨further, split⟩ := absorbs.appended
    have coherent' := (Absorbed.keeps before coherent).2
    have inside' := inside.trans (Absorbed.length_le before)
    refine ⟨more ++ further, ?_, fun opens => ?_⟩
    · rw [← List.append_assoc]
      exact absorbs.accounts coherent' inside' accounts' split.symm
    · have all := absorbs.all opens
      have nothing : further = [] := List.append_right_eq_self.mp (all ▸ split)
      rw [none opens, nothing, List.append_nil]

end

/-! ## Where growing stops -/

/-- A provider refuses a call that would begin a unit: its backend is not at hand and fails to open.
-/
structure Provider.Refuses (provider : Provider) (names : List (CallName × String))
    (c : CallName × String) (e : DispatchError) : Prop where
  first : ∀ n ∈ names, n.1.jobKey ≠ c.1.jobKey
  away : provider.atHand ≠ some c.2
  closed : provider.Denies c.2 e

namespace WaitState

variable {μ : Type} {s : WaitState μ}

/-- A call is placed among the others or refused. -/
theorem place_refused (provider : Provider) {names : List (CallName × String)}
    (grouped : Grouped names s.units) (c : CallName × String) :
    (∃ units opened, s.place provider c.1 c.2 names.length = ({ s with units, opened }, none) ∧
      Grouped (names ++ [c]) units) ∨
    ∃ opened e, s.place provider c.1 c.2 names.length = ({ s with opened }, some e) ∧
      provider.Refuses names c e := by
  have placing := place_ok_iff provider grouped c names.length
  rcases place_cases provider grouped c with ⟨units, opened, placed, grouped', -⟩ |
      ⟨opened, e, failed, closed⟩
  · exact Or.inl ⟨units, opened, placed, grouped'⟩
  · rw [failed] at placing
    have refused := mt placing.mpr (Option.some_ne_none e)
    refine Or.inr ⟨opened, e, failed, ⟨fun n listed same => ?_, fun near => ?_, closed⟩⟩
    · exact refused (Or.inl ⟨n, listed, same⟩)
    · exact refused (Or.inr (Or.inl near))

/-- Calls are appended up to the first that is refused. -/
theorem append_refused (provider : Provider) (grouped : Grouped (s.futures.map Future.name) s.units)
    (children : List (CallName × String)) (grown : List String) :
    (∃ after grown', append provider children grown s = (after, grown', none) ∧
      after.futures = s.futures ++ children.map Future.ofName) ∨
    ∃ after grown' kept c rest e, append provider children grown s = (after, grown', some e) ∧
      after.futures = s.futures ++ kept.map Future.ofName ∧ children = kept ++ c :: rest ∧
      provider.Refuses (s.futures.map Future.name ++ kept) c e := by
  induction children generalizing s grown with
  | nil => exact Or.inl ⟨s, grown, rfl, by simp⟩
  | cons c rest ih =>
    have placing := place_refused provider grouped c
    rw [List.length_map] at placing
    rcases placing with ⟨units, opened, placed, grouped'⟩ | ⟨opened, e, failed, refused⟩
    · let one : WaitState μ := { s with futures := s.futures ++ [.ofName c], units, opened }
      have names : one.futures.map Future.name = s.futures.map Future.name ++ [c] := by
        rw [List.map_append]
        rfl
      have goesOn : append provider (c :: rest) grown s =
          append provider rest (extend grown [c.1.jobKey]) one := by
        rw [append, placed]
        rfl
      rw [goesOn]
      rcases ih (s := one) (names ▸ grouped') (extend grown [c.1.jobKey]) with
        ⟨after, grown', appended, futures⟩ |
        ⟨after, grown', kept, c', rest', e, failed, futures, rfl, refused⟩
      · exact Or.inl ⟨after, grown', appended, by rw [futures]; simp [one]⟩
      · refine Or.inr ⟨after, grown', c :: kept, c', rest', e, failed, ?_, rfl, ?_⟩
        · rw [futures]
          simp [one]
        · rw [names, List.append_assoc] at refused
          exact refused
    · refine Or.inr ⟨{ s with opened }, grown, [], c, rest, e, ?_, by simp, rfl, ?_⟩
      · rw [append, failed]
      · rwa [List.append_nil]

/-- Taking in the answers of a unit appends all calls that are to be appended, or those before the
first that is refused. -/
theorem settle_refused [Watcher μ] (provider : Provider)
    (grouped : Grouped (s.futures.map Future.name) s.units) (terms : WaitTerms)
    {answers : List (Nat × Outcome FetchAnswer)} (distinct : (answers.map (·.1)).Nodup) :
    (s.settle provider terms answers).1.futures = absorbed terms answers s.futures ∨
    ∃ after kept c rest e, s.settle provider terms answers = (after, some e) ∧
      after.futures = (recordAll terms answers s.futures).futures ++ kept.map Future.ofName ∧
      (recordAll terms answers s.futures).children = kept ++ c :: rest ∧
      provider.Refuses (s.futures.map Future.name ++ kept) c e := by
  have names : (recordAll terms answers s.futures).futures.map Future.name =
      s.futures.map Future.name := names_recordAll distinct
  have record : (sortAnswers answers).foldl (Recorded.add terms) { futures := s.futures } =
      recordAll terms answers s.futures := rfl
  unfold settle
  rw [record]
  dsimp only
  split
  · next empty =>
    refine Or.inl ?_
    rw [absorbed, List.isEmpty_iff.mp empty, List.map_nil, List.append_nil]
    rfl
  · let middle : WaitState μ :=
      { s with futures := (recordAll terms answers s.futures).futures }.tell
        (.inc (recordAll terms answers s.futures).newlyComplete)
    have grouped' : Grouped (middle.futures.map Future.name) middle.units := by
      show Grouped ((recordAll terms answers s.futures).futures.map Future.name) s.units
      rwa [names]
    rcases append_refused provider grouped' (recordAll terms answers s.futures).children [] with
      ⟨after, grown, appended, futures⟩ |
      ⟨after, grown, kept, c, rest, e, failed, futures, split, refused⟩
    · have grows : grow provider (recordAll terms answers s.futures).children middle =
          (grown.foldl watch (after.tell (.total after.futures.length)), Option.none) := by
        rw [grow, appended]
      refine Or.inl ?_
      rw [grows]
      dsimp only
      rw [foldl_watch]
      exact futures
    · have grows : grow provider (recordAll terms answers s.futures).children middle =
          (after, some e) := by
        rw [grow, failed]
      refine Or.inr ⟨after, kept, c, rest, e, ?_, futures, split, names ▸ refused⟩
      rw [grows]

end WaitState

namespace Wait

variable {μ : Type} [Watcher μ] {replies : Replies} {terms : WaitTerms} {w : Wait μ}

/-- A wait that fails in growing. The first of the calls lost is refused, and all of them have been
recorded by futures that are done. -/
structure CutShort (w : Wait μ) (answers : List (Nat × Outcome FetchAnswer))
    (lost : List (CallName × String)) (e : DispatchError) : Prop where
  grown : ∃ kept, (recordAll w.terms answers w.state.futures).children = kept ++ lost ∧
    (w.answer answers).state.futures =
      (recordAll w.terms answers w.state.futures).futures ++ kept.map Future.ofName
  refused : ∃ c rest, lost = c :: rest ∧
    w.provider.Refuses ((w.answer answers).state.futures.map Future.name) c e
  orphaned : ∀ c ∈ lost, ∃ g ∈ (w.answer answers).state.futures, g.done = true ∧ c ∈ g.dispatched
  failed : (w.answer answers).phase = .finished (.error e)

/-- Answers are taken in whole unless growing fails. -/
theorem Sound.answered {i : Nat} {targets : List Target} {u : WaitUnit}
    {answers : List (Nat × Outcome FetchAnswer)} (sound : w.Sound replies terms)
    (coherent : ∀ f ∈ w.state.futures, f.Coherent) (phase : w.phase = .fetching i targets)
    (found : w.state.units[i]? = some u)
    (fetched : Answers replies u.backend terms.download targets answers) :
    ∃ kept lost,
      Absorbs replies terms answers kept w.state.futures (w.answer answers).state.futures ∧
      (recordAll terms answers w.state.futures).children = kept ++ lost ∧
      (lost = [] ∨ ∃ e, w.CutShort answers lost e) := by
  obtain ⟨-, kept, absorbs⟩ := sound.answer phase found fetched
  obtain rfl := sound.terms_eq
  have grouped := sound.grouped (.of_fetching phase)
  have names := absorbs.names
  rcases WaitState.settle_refused w.provider grouped w.terms absorbs.distinct with
    all | ⟨after, kept', c, rest, e, settled, futures, split, refused⟩
  · have same : (w.answer answers).state.futures = absorbed w.terms answers w.state.futures := by
      rw [← all]
      cases settled : w.state.settle w.provider w.terms answers with
      | mk after error =>
        cases error with
        | none => rw [answer_of_none phase settled]
        | some e => rw [answer_of_some phase settled]
    rw [same, names_absorbed absorbs.distinct] at names
    exact ⟨kept, [], absorbs, by rw [List.append_cancel_left names, List.append_nil], Or.inl rfl⟩
  · have isAfter := answer_of_some phase settled
    have made : Future.name ∘ Future.ofName = id := rfl
    have own : (w.answer answers).state.futures.map Future.name =
        w.state.futures.map Future.name ++ kept' := by
      rw [isAfter, futures, List.map_append, names_recordAll absorbs.distinct, List.map_map, made,
        List.map_id]
    -- What is kept can be read off the names, so it is what was appended before the refusal.
    obtain rfl : kept = kept' := List.append_cancel_left (names.symm.trans own)
    refine ⟨kept, c :: rest, absorbs, split, Or.inr ⟨e, ⟨kept, split, absorbs.eq⟩,
      ⟨c, rest, rfl, own ▸ refused⟩, fun n listed => ?_, by rw [isAfter]⟩⟩
    exact absorbs.dispatcher coherent (split ▸ List.mem_append_right kept listed)

/-- A wait that goes on has lost nothing. -/
theorem Reached.accounts {futures : List Future} {begun : Nat} {lost : List (CallName × String)}
    (reached : w.Reached replies terms futures) (running : w.IsRunning)
    (coherent : ∀ f ∈ futures, f.Coherent) (inside : begun ≤ futures.length)
    (accounts : Accounts begun lost futures) : Accounts begun lost w.state.futures := by
  induction reached with
  | prepared monitor progress opening =>
    rw [(sound_prepare monitor progress opening terms futures).2]
    exact accounts
  | watched monitor _ ih => exact ih running
  | provided _ opening ih => exact ih running
  | unwatched e _ _ => exact absurd rfl (running (.error e))
  | @entered w cancelled _ ih =>
    have turns := enter_turns cancelled w
    exact turns.futures ▸ ih (turns.running running)
  | @polled w cancelled _ ih =>
    rcases pollNext_cases cancelled w with turns | ⟨_, _, polling, -, polled⟩
    · exact turns.futures ▸ ih (turns.running running)
    · rw [polled]
      exact ih (.of_polling polling)
  | @answered w i targets u answers before phase found fetched ih =>
    obtain ⟨sound, absorbed⟩ := before.sound
    obtain ⟨kept, more, absorbs, split, none | ⟨e, cut⟩⟩ :=
      sound.answered (absorbed.keeps coherent).2 phase found fetched
    · subst none
      have same := absorbs.accounts (absorbed.keeps coherent).2 (inside.trans absorbed.length_le)
        (ih (.of_fetching phase)) split
      rwa [List.append_nil] at same
    · exact absurd cut.failed (running _)
  | @woken w cancelled _ ih =>
    have turns := wake_turns cancelled w
    exact turns.futures ▸ ih (turns.running running)
  | @cancelled w _ ih =>
    have turns := cancel_turns w
    exact turns.futures ▸ ih (turns.running running)
  | @expired w _ ih =>
    have turns := expire_turns w
    exact turns.futures ▸ ih (turns.running running)

end Wait

/-! ## What later waits collect -/

section
variable {stores : Stores} {set futures later : List Future} {begun : Nat}
  {lost : List (CallName × String)}

/-- What becomes of a wait set that has lost calls once all is done: the calls that can be reached
from it have futures, except that none need have one that is reached from a call lost. -/
structure Stores.Recovers (stores : Stores) (begun : Nat) (lost : List (CallName × String))
    (futures later : List Future) : Prop where
  kept : Kept futures later
  done : ∀ g ∈ later, g.done = true
  accounts : Accounts begun lost later
  covers : ∀ g, stores.Reaches futures g →
    (∃ h ∈ later, h.bare = g) ∨ stores.Reaches (lost.map Future.ofName) g

/-- A call that a future has recorded and that was not lost has been appended. -/
theorem Accounts.covers (accounts : Accounts begun lost later) (kept : Kept futures later)
    (done : ∀ g ∈ later, g.done = true) (staged : ∀ g ∈ later, g.Stage stores)
    (produces : ∀ g ∈ later.drop begun, g.produceOutput = true) {g : Future}
    (reached : stores.Reaches futures g) :
    (∃ h ∈ later, h.bare = g) ∨ stores.Reaches (lost.map Future.ofName) g := by
  obtain ⟨f, member, path⟩ := reached
  induction path with
  | refl => exact Or.inl (kept.covers member)
  | @tail g c _ child ih =>
    rcases ih with ⟨h, inside, rfl⟩ | away
    · have child' : c ∈ stores.childrenOf h := by
        rw [Stores.childrenOf_eq_of_bare (f := h.bare) (g := h) rfl]
        exact child
      have listed : c.name ∈ (later.filter (·.done)).flatMap Future.dispatched :=
        List.mem_flatMap.mpr ⟨h, List.mem_filter.mpr ⟨inside, done h inside⟩,
          (staged h inside).dispatched_of_child (done h inside) child'⟩
      rcases List.mem_append.mp (accounts.mem_iff.mpr listed) with appended | gone
      · obtain ⟨c', member', same⟩ := List.mem_map.mp appended
        exact Or.inl ⟨c', List.mem_of_mem_drop member',
          Stores.bare_of_name child' (produces c' member') same⟩
      · refine Or.inr ⟨c, List.mem_map.mpr ⟨c.name, gone, Stores.ofName_of_child child'⟩, ?_⟩
        rw [(Stores.bare_of_child child').1]
    · exact Or.inr (away.tail child)

end

namespace Session

variable {s : Session} {terms : WaitTerms}

/-- A session that can wait for all values: its stores hold the outcomes of all calls, backends open
and fetches are answered, it has a monitor of its own and as much time as it needs; and if failures
are raised, no call has failed. -/
structure CanCollect (s : Session) (terms : WaitTerms) : Prop where
  complete : s.sur.stores.IsComplete s.futures
  noneClosed : s.sur.faults.closedBackends = []
  noneFailing : s.sur.faults.failing = []
  own : s.choice = .own
  keyed : s.storage.Keyed
  interval : 0 < s.storage.interval
  timeout : terms.timeout = none
  cancellable : terms.cancellable = false
  passed : terms.throwing = true → ∀ g, s.sur.stores.Reaches s.futures g → ¬ s.sur.stores.Fails g

theorem failure?_eq_none {stores : Stores} {set : List Future} {f : Future}
    (passed : ∀ g, stores.Reaches set g → ¬ stores.Fails g) (staged : f.Stage stores)
    (inside : stores.Reaches set f.bare) : f.failure? = none := by
  cases failure : f.failure? with
  | none => rfl
  | some e => exact absurd (staged.failed_of_failure? failure) (passed f.bare inside)

/-- Its wait for all values goes on until all is done. -/
theorem CanCollect.leads (can : s.CanCollect terms)
    (staged : ∀ f ∈ s.futures, f.Stage s.sur.stores)
    (open_ : s.futures.all (·.isComplete true) = false) :
    ∃ r, WaitRun.Leads (s.startRun (forValues terms) []) r ∧ r.wait.phase = .finished (.ok ()) ∧
      Absorbed (.fixed s.sur.stores.status? s.sur.stores.output?) s.futures r.wait.state.futures ∧
      ∀ g ∈ r.wait.state.futures, g.done = true := by
  have within := Surroundings.within_fixed can.noneClosed can.noneFailing
  have patient : (forValuesQuietly terms).IsPatient :=
    ⟨rfl, rfl, rfl, can.timeout, can.cancellable⟩
  have inside : ∀ f ∈ s.futures, s.sur.stores.Reaches s.futures f.bare :=
    fun f => Stores.reaches_of_mem
  obtain ⟨depth, isDepth⟩ := Stores.exists_depth can.complete.acyclic
  obtain ⟨r, m, leads, follows, finished, -, done, begun⟩ := startRun_completes can.complete patient
    within can.own can.keyed can.interval staged open_ isDepth
  have absorbed := follows.reached.sound.2
  cases throws : terms.throwing with
  | false => exact ⟨r, forValuesQuietly_of_quiet throws ▸ leads, finished, absorbed, done⟩
  | true =>
    have begins := startRun_raising s (forValuesQuietly terms) []
    rw [raising_forValuesQuietly throws] at begins
    have unfailed : ∀ f ∈ s.futures, f.failure? = none := fun f member =>
      failure?_eq_none (can.passed throws) (staged f member) (inside f member)
    have fits : (s.startRun (forValuesQuietly terms) []).Fits
        (.fixed s.sur.stores.status? s.sur.stores.output?) (forValuesQuietly terms) s.futures :=
      startRun_fits within nofun .none
    rcases leads.raising finished fits (begun ▸ unfailed) with
      ⟨leads', -⟩ | ⟨last, -, quiet, e, fits', -, f, member, failure⟩
    · exact ⟨r.raising, begins ▸ leads', finished, absorbed, done⟩
    · -- A failure raised would be one that a call that can be reached has come to.
      obtain ⟨staged', inside'⟩ := fits'.reached.sound.2.inside can.complete staged inside
      rw [failure?_eq_none (can.passed throws) (staged' f member) (inside' f member)] at failure
      cases failure

/-- The values collected are those that the stores tell of. -/
theorem CanCollect.collects (can : s.CanCollect terms)
    (staged : ∀ f ∈ s.futures, f.Stage s.sur.stores) :
    ∃ later enough,
      Absorbed (.fixed s.sur.stores.status? s.sur.stores.output?) s.futures later ∧
      (∀ g ∈ later, g.Stage s.sur.stores) ∧ (∀ g ∈ later, g.done = true) ∧
      ∀ limit, enough ≤ limit → ({ s with limit }.waitValues terms []).1.futures = later ∧
        ({ s with limit }.waitValues terms []).2.result =
          .ok (.values ((s.sur.stores.leaves later).map s.sur.stores.valueOf)) := by
  have inside : ∀ f ∈ s.futures, s.sur.stores.Reaches s.futures f.bare :=
    fun f => Stores.reaches_of_mem
  -- Whatever the wait set comes to, its values are those of the stores once all is done.
  have values {later : List Future}
      (absorbed : Absorbed (.fixed s.sur.stores.status? s.sur.stores.output?) s.futures later)
      (done : ∀ g ∈ later, g.done = true) : (∀ g ∈ later, g.Stage s.sur.stores) ∧
        Session.values terms.throwing later =
          .ok (.values ((s.sur.stores.leaves later).map s.sur.stores.valueOf)) := by
    obtain ⟨staged', inside'⟩ := absorbed.inside can.complete staged inside
    exact ⟨staged', values_eq staged' done fun throws f member =>
      failure?_eq_none (can.passed throws) (staged' f member) (inside' f member)⟩
  cases allDone : s.futures.all (·.isComplete true) with
  | true =>
    have done : ∀ g ∈ s.futures, g.done = true := List.all_eq_true.mp allDone
    obtain ⟨-, collected⟩ := values .refl done
    refine ⟨s.futures, 0, .refl, staged, done, fun limit _ => ?_⟩
    obtain ⟨same, outcome, -⟩ :=
      @wait_of_complete (forValues terms) { s with limit } [] allDone {} Option.none
    refine ⟨?_, ?_⟩
    · show ({ s with limit }.wait (forValues terms) []).1.futures = s.futures
      rw [same]
    · rw [waitValues_result, outcome, same]
      exact collected
  | false =>
    obtain ⟨r, leads, finished, absorbed, done⟩ := can.leads staged allDone
    obtain ⟨staged', collected⟩ := values absorbed done
    obtain ⟨enough, ends⟩ := waitValues_of_leads terms allDone leads finished
    exact ⟨r.wait.state.futures, enough, absorbed, staged', done, fun limit fits =>
      ⟨(ends limit fits).1, (ends limit fits).2.trans collected⟩⟩

end Session

/-- A pass that takes in the answers of a unit loses calls exactly where growing fails: the call
that was refused and those after it, which futures that are done have recorded. They are lost to
every later history too. A later wait that can wait for all values completes, and what it returns
are the values of the calls appended: all that can be reached, but for those lost and what only they
lead to. -/
theorem failed_growth_loses_calls {μ : Type} [Watcher μ] {w : Wait μ} {replies : Replies}
    {terms : WaitTerms} {initial futures : List Future} {lost : List (CallName × String)} {i : Nat}
    {targets : List Target} {u : WaitUnit} {answers : List (Nat × Outcome FetchAnswer)}
    (fresh : ∀ f ∈ initial, f.IsFresh) (tracked : Tracked replies initial futures)
    (accounts : Accounts initial.length lost futures) (reached : w.Reached replies terms futures)
    (fetching : w.phase = .fetching i targets) (unit : w.state.units[i]? = some u)
    (fetched : Answers replies u.backend terms.download targets answers) :
    ∃ more, (more = [] ∨ ∃ e, w.CutShort answers more e) ∧
      Accounts initial.length (lost ++ more) (w.answer answers).state.futures ∧
      (∀ replies' later, Absorbed replies' (w.answer answers).state.futures later →
        ∃ further, Accounts initial.length (lost ++ more ++ further) later ∧
          (replies'.Opens → further = [])) ∧
      ∀ (s : Session) (terms' : WaitTerms), s.futures = (w.answer answers).state.futures →
        replies.IsTrueTo s.sur.stores → s.CanCollect terms' →
        ∃ later enough,
          s.sur.stores.Recovers initial.length (lost ++ more) s.futures later ∧
          ∀ limit, enough ≤ limit → ({ s with limit }.waitValues terms' []).1.futures = later ∧
            ({ s with limit }.waitValues terms' []).2.result =
              .ok (.values ((s.sur.stores.leaves later).map s.sur.stores.valueOf)) := by
  have start : ∀ f ∈ initial, f.Coherent := fun f member => (fresh f member).coherent
  have before := tracked.absorbed
  obtain ⟨sound, grown⟩ := reached.sound
  have soFar : Absorbed replies initial w.state.futures := before.trans grown
  have coherent := (soFar.keeps start).2
  have accounts' := reached.accounts (.of_fetching fetching) (before.keeps start).2
    before.length_le accounts
  obtain ⟨kept, more, absorbs, split, cut⟩ := sound.answered coherent fetching unit fetched
  have ledger := absorbs.accounts coherent soFar.length_le accounts' split
  have whole : Absorbed replies initial (w.answer answers).state.futures :=
    soFar.tail ⟨_, _, kept, absorbs⟩
  have coherent' := (whole.keeps start).2
  refine ⟨more, cut, ledger, fun replies' later absorbed =>
    absorbed.accounts coherent' whole.length_le ledger, ?_⟩
  intro s terms' same isTrue can
  have staged := whole.staged isTrue
    (same ▸ can.complete.homesAgree fun f => Stores.reaches_of_mem)
    fun f member => (fresh f member).stage
  have produces : ∀ g ∈ (w.answer answers).state.futures.drop initial.length,
      g.produceOutput = true := whole.produces start (by simp)
  rw [← same] at staged produces coherent' ledger
  obtain ⟨later, enough, absorbed, staged', done, collects⟩ := can.collects staged
  obtain ⟨further, ledger', none⟩ :=
    absorbed.accounts coherent' (same ▸ whole.length_le) ledger
  rw [none (Replies.opens_fixed _ _), List.append_nil] at ledger'
  have after := (absorbed.keeps coherent').1
  refine ⟨later, enough, ⟨after, done, ledger', fun g => ?_⟩, collects⟩
  exact ledger'.covers after done staged' (absorbed.produces coherent' produces)

/-! ### A call whose backend stops opening -/

namespace Orphan

open Chained

/-- The first call once its output is known, without the call it dispatched. -/
def left : List Future :=
  [{ key := parent, backend := "b", ready := true, done := true, status := some .ok
     captured := some (.value .null), children := [child] }]

/-- A session in which a fetch takes a while, and the backend stops opening in that time. -/
def session : Session :=
  { begun with sur := { begun.sur with faults := { statusLatency := 50 } } }

def ended : Session × Outcome Unit × WaitReport :=
  session.wait patiently [(10, .closeBackend "b")]

/-- The session afterwards, with the backend open again. -/
def mended : Session := { ended.1 with sur := { ended.1.sur with faults := {} } }

theorem futures_ended : ended.1.futures = left := by cbv

theorem collected_mended : (mended.waitValues patiently []).2.result = .ok (.values []) := by cbv

/-- The wait fails and leaves the first call done without the second, whose value no later wait
finds, though it is stored. -/
theorem second_call_lost : ended.2.1 = .error (.storage "cannot open b") ∧
    (∃ f ∈ ended.1.futures, f.done = true ∧ (child, "b") ∈ f.dispatched) ∧
    (child, "b") ∉ ended.1.futures.map Future.name ∧
    mended.sur.stores.valueOf (.ofName (child, "b")) = .text "x" ∧
    (mended.waitValues patiently []).2.result = .ok (.values []) := by
  rw [futures_ended]
  refine ⟨by cbv, ?_, by decide, by cbv, collected_mended⟩
  exact ⟨_, List.mem_cons_self, rfl, List.mem_singleton_self _⟩

/-- A wait that gets an answer after the backend has stopped opening. -/
def wait : Wait ManualMonitor :=
  let polled := ((Wait.prepare patiently { openBackend := fun _ _ => .ok () }
    { seen := [("e-j", ["0"])] } {} begun.futures).enter false).pollNext false
  { polled with provider :=
      { polled.provider with openBackend := fun _ _ => .error (.storage "cannot open b") } }

def answers : List (Nat × Outcome FetchAnswer) :=
  [(0, .ok (.result (some .ok) (some (.calls [child]))))]

/-- The replies of the stores, though backends need not open. -/
def replies : Replies :=
  { Replies.fixed stores.status? stores.output? with opening := fun _ _ => True }

theorem answers_fetched : Answers replies "b" true [⟨0, parent, true, true⟩] answers := by
  refine ⟨.refl _, ?_⟩
  intro x member
  obtain rfl := List.mem_singleton.mp member
  have asked : (⟨0, parent, true, true⟩ : Target).Comes replies "b" true .askStatus := .first
  have status : replies.status "b" parent (.ok (some .ok)) := rfl
  have output : replies.output "b" parent (.ok (some (.calls [child]))) := rfl
  have next : (⟨0, parent, true, true⟩ : Target).Comes replies "b" true (.askOutput (some .ok)) :=
    asked.status status
  exact ⟨_, List.mem_singleton_self _, rfl, next.output output⟩

theorem complete_left : stores.IsComplete left := by
  refine complete.mono fun g reached => ?_
  obtain ⟨f, member, path⟩ := reached
  obtain rfl := List.mem_singleton.mp member
  exact ⟨_, List.mem_singleton_self _, path⟩

/-- It is cut short, and a later wait with the backend open collects nothing. -/
theorem failed_growth_loses_second_call :
    (∃ e, wait.CutShort answers [(child, "b")] e) ∧ ∃ enough, ∀ limit, enough ≤ limit →
      ({ begun with futures := left, limit }.waitValues patiently []).2.result =
        .ok (.values []) := by
  have fresh : ∀ f ∈ begun.futures, f.IsFresh := by
    intro f member
    obtain rfl := List.mem_singleton.mp member
    exact Future.isFresh_new _ _
  have reached : wait.Reached replies patiently begun.futures :=
    .provided (.polled false (.entered false (.prepared _ _ fun _ _ => trivial))) fun _ _ => trivial
  have fetching : wait.phase = .fetching 0 [⟨0, parent, true, true⟩] := rfl
  have isLeft : (wait.answer answers).state.futures = left := by
    simp only [Wait.answer, fetching, WaitState.settle, answers, sortAnswers,
      List.mergeSort_singleton]
    rfl
  obtain ⟨more, cut, ledger, -, recovers⟩ := failed_growth_loses_calls fresh .begun
    (accounts_fresh fresh) reached fetching rfl answers_fetched
  rw [isLeft] at ledger
  obtain rfl : more = [(child, "b")] := List.perm_singleton.mp ledger
  have can : ({ begun with futures := left } : Session).CanCollect patiently :=
    ⟨complete_left, rfl, rfl, rfl, List.nodup_nil, by decide, rfl, rfl,
      fun throws => absurd throws Bool.false_ne_true⟩
  obtain ⟨later, enough, -, collects⟩ := recovers { begun with futures := left } patiently
    isLeft.symm ⟨fun _ _ _ => Eq.symm, fun _ _ _ => Eq.symm⟩ can
  have same : left = later := (collects enough le_rfl).1
  refine ⟨cut.resolve_left (List.cons_ne_nil _ _), enough, fun limit fits => ?_⟩
  rw [(collects limit fits).2, ← same]
  rfl

end Orphan

end CallDispatch
