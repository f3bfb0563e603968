import CallDispatch.Proofs.Tracking.Histories

/-!
# How a wait set grows

Whatever happens to a wait set, nothing is taken from it and nothing recorded is lost. It grows only
by the calls that its calls dispatched: every call appended has one parent, which stands before it,
and the calls appended for a future are those it has recorded, each as often as it is listed.
-/

namespace CallDispatch

variable {replies : Replies} {terms : WaitTerms} {answers : List (Nat × Outcome FetchAnswer)}
  {kept : List (CallName × String)} {earlier later : List Future}

/-- Every future is still in its place and keeps what it had recorded. -/
def Kept (earlier later : List Future) : Prop :=
  ∀ (i : Nat) (f : Future), earlier[i]? = some f → ∃ g : Future, later[i]? = some g ∧ g.Keeps f

theorem Kept.refl (futures : List Future) : Kept futures futures :=
  fun _ f found => ⟨f, found, .refl f⟩

theorem Kept.trans {middle : List Future} (before : Kept earlier middle)
    (after : Kept middle later) : Kept earlier later := by
  intro i f found
  obtain ⟨g, at_, keeps⟩ := before i f found
  obtain ⟨h, at_', keeps'⟩ := after i g at_
  exact ⟨h, at_', keeps'.trans keeps⟩

/-! ## One step -/

namespace Absorbs

theorem getElem?_old (absorbs : Absorbs replies terms answers kept earlier later) {i : Nat}
    {f : Future} (found : earlier[i]? = some f) :
    later[i]? = some (f.answered terms.throwing (sortAnswers answers) i) := by
  have below : i < (recordAll terms answers earlier).futures.length := by
    rw [length_recordAll absorbs.distinct]
    exact (List.getElem?_eq_some_iff.mp found).1
  rw [absorbs.eq, List.getElem?_append_left below, getElem?_recordAll absorbs.distinct, found,
    Option.map_some]

theorem names (absorbs : Absorbs replies terms answers kept earlier later) :
    later.map Future.name = earlier.map Future.name ++ kept := by
  have made : Future.name ∘ Future.ofName = id := rfl
  rw [absorbs.eq, List.map_append, names_recordAll absorbs.distinct, List.map_map, made,
    List.map_id]

/-- A future in the wait set later was there before, or was made for a call appended. -/
theorem getElem?_cases (absorbs : Absorbs replies terms answers kept earlier later) {i : Nat}
    {g : Future} (found : later[i]? = some g) :
    (∃ f, earlier[i]? = some f ∧ g = f.answered terms.throwing (sortAnswers answers) i) ∨
      (earlier.length ≤ i ∧ ∃ name ∈ kept, g = .ofName name) := by
  rcases Nat.lt_or_ge i earlier.length with below | past
  · have before := List.getElem?_eq_getElem below
    have same := (absorbs.getElem?_old before).symm.trans found
    exact Or.inl ⟨earlier[i], before, (Option.some.inj same).symm⟩
  · refine Or.inr ⟨past, ?_⟩
    rw [absorbs.eq, List.getElem?_append_right (by rwa [length_recordAll absorbs.distinct]),
      List.getElem?_map] at found
    obtain ⟨name, listed, rfl⟩ := Option.map_eq_some_iff.mp found
    exact ⟨name, List.mem_of_getElem? listed, rfl⟩

/-- A future stays as it is, or records the answer to its own fetch. -/
theorem answered_cases (absorbs : Absorbs replies terms answers kept earlier later) {i : Nat}
    {f : Future} (found : earlier[i]? = some f) :
    (f.answered terms.throwing (sortAnswers answers) i = f ∧ i ∉ answers.map (·.1)) ∨
      ∃ x ∈ answers, x.1 = i ∧
        f.answered terms.throwing (sortAnswers answers) i = f.recorded terms.throwing x.2 ∧
        f.isComplete terms.download = false ∧
        ∃ first, firstOf f.jobKey (earlier.map Future.name) = some first ∧
          (f.target i).Comes replies first.2 terms.download (.finished x.2) := by
  by_cases asked : i ∈ answers.map (·.1)
  · obtain ⟨x, member, rfl⟩ := List.mem_map.mp asked
    obtain ⟨f', first, found', open_, atHead, comes⟩ := absorbs.asked x member
    rw [found] at found'
    cases found'
    exact Or.inr ⟨x, member, rfl, Future.answered_sorted_of_mem absorbs.distinct member _ f, open_,
      first, atHead, comes⟩
  · exact Or.inl ⟨Future.answered_sorted_of_not_mem asked _ f, asked⟩

/-- Taking in answers loses nothing that was recorded. -/
theorem keeps (absorbs : Absorbs replies terms answers kept earlier later)
    (coherent : ∀ f ∈ earlier, f.Coherent) : Kept earlier later ∧ ∀ g ∈ later, g.Coherent := by
  have each (i : Nat) (f : Future) (found : earlier[i]? = some f) :
      (f.answered terms.throwing (sortAnswers answers) i).Keeps f ∧
        (f.answered terms.throwing (sortAnswers answers) i).Coherent := by
    have before := coherent f (List.mem_of_getElem? found)
    rcases absorbs.answered_cases found with ⟨same, -⟩ | ⟨x, -, -, same, open_, first, -, comes⟩
    · rw [same]
      exact ⟨.refl f, before⟩
    · rw [same]
      exact Future.recorded_keeps terms.throwing before open_ comes
  constructor
  · intro i f found
    exact ⟨_, absorbs.getElem?_old found, (each i f found).1⟩
  · intro g member
    obtain ⟨i, found⟩ := List.getElem?_of_mem member
    rcases absorbs.getElem?_cases found with ⟨f, before, rfl⟩ | ⟨-, name, -, rfl⟩
    · exact (each i f before).2
    · exact (Future.isFresh_new name.1 name.2).coherent

/-- After answers have been taken in, too, only a future that is done has calls. -/
theorem bears (absorbs : Absorbs replies terms answers kept earlier later)
    (bears : ∀ f ∈ earlier, f.BearsWhenDone) : ∀ g ∈ later, g.BearsWhenDone := by
  intro g member
  obtain ⟨i, found⟩ := List.getElem?_of_mem member
  rcases absorbs.getElem?_cases found with ⟨f, before, rfl⟩ | ⟨-, name, -, rfl⟩
  · have bears' := bears f (List.mem_of_getElem? before)
    rcases absorbs.answered_cases before with ⟨same, -⟩ | ⟨x, -, -, same, -, first, -, comes⟩
    · rw [same]
      exact bears'
    · rw [same]
      exact bears'.recorded terms.throwing comes
  · exact (Future.isFresh_new name.1 name.2).coherent.done_of_children

end Absorbs

theorem Absorbed.bears (absorbed : Absorbed replies earlier later)
    (bears : ∀ f ∈ earlier, f.BearsWhenDone) : ∀ g ∈ later, g.BearsWhenDone := by
  induction absorbed with
  | refl => exact bears
  | tail _ step ih =>
    obtain ⟨terms, answers, kept, absorbs⟩ := step
    exact absorbs.bears ih

/-- What one wait set has recorded, a later one has too. -/
theorem Absorbed.keeps (absorbed : Absorbed replies earlier later)
    (coherent : ∀ f ∈ earlier, f.Coherent) : Kept earlier later ∧ ∀ g ∈ later, g.Coherent := by
  induction absorbed with
  | refl => exact ⟨.refl earlier, coherent⟩
  | tail _ step ih =>
    obtain ⟨terms, answers, kept, absorbs⟩ := step
    obtain ⟨after, coherent'⟩ := absorbs.keeps ih.2
    exact ⟨ih.1.trans after, coherent'⟩

theorem Absorbed.names_prefix (absorbed : Absorbed replies earlier later) :
    earlier.map Future.name <+: later.map Future.name := by
  induction absorbed with
  | refl => exact List.prefix_refl _
  | tail _ step ih =>
    obtain ⟨terms, answers, kept, absorbs⟩ := step
    rw [absorbs.names]
    exact ih.trans (List.prefix_append _ kept)

/-! ## Parents and heirs -/

/-- Of a future that was open all is adopted that it has dispatched since. -/
theorem Future.adopted_of_open {f g : Future} (open_ : f.done = false) (bears : g.BearsWhenDone) :
    f.adopted g = g.dispatched := by
  rw [adopted, open_]
  cases done : g.done with
  | true => rfl
  | false =>
    rw [dispatched_eq_nil bears done]
    rfl

/-- Only futures that are done have dispatched calls. -/
theorem flatMap_dispatched_done {futures : List Future} (coherent : ∀ f ∈ futures, f.Coherent) :
    (futures.filter (·.done)).flatMap Future.dispatched = futures.flatMap Future.dispatched := by
  induction futures with
  | nil => rfl
  | cons f rest ih =>
    have later := ih fun g member => coherent g (List.mem_cons_of_mem f member)
    rw [List.flatMap_cons, List.filter_cons]
    cases done : f.done with
    | true => rw [if_pos rfl, List.flatMap_cons, later]
    | false =>
      rw [if_neg (by simp), later,
        Future.dispatched_eq_nil (coherent f List.mem_cons_self).done_of_children done,
        List.nil_append]

/-- The calls appended to a wait set that began with a number of futures, each with the position of
its parent. -/
structure Lineage (begun : Nat) (futures : List Future)
    (heirs : List (Nat × CallName × String)) : Prop where
  appended : (futures.drop begun).map Future.name = heirs.map (·.2)
  length : futures.length = begun + heirs.length
  later : ∀ k h, heirs[k]? = some h → h.1 < begun + k
  each : ∀ i f, futures[i]? = some f → (heirs.filter (·.1 = i)).map (·.2) = f.dispatched

/-- The calls to append for answers, each with the position of its parent. -/
def heirsOf (terms : WaitTerms) (futures : List Future)
    (answers : List (Nat × Outcome FetchAnswer)) : List (Nat × CallName × String) :=
  answers.flatMap fun x => (Recorded.adoptedAt terms futures x).map (x.1, ·)

theorem map_heirsOf (terms : WaitTerms) (futures : List Future)
    (answers : List (Nat × Outcome FetchAnswer)) :
    (heirsOf terms futures answers).map (·.2) =
      answers.flatMap (Recorded.adoptedAt terms futures) := by
  unfold heirsOf
  rw [List.map_flatMap]
  refine List.flatMap_congr fun x _ => ?_
  rw [List.map_map]
  exact List.map_id _

theorem parent_of_mem_heirsOf {futures : List Future} {h : Nat × CallName × String}
    (member : h ∈ heirsOf terms futures answers) : h.1 < futures.length := by
  obtain ⟨x, -, inside⟩ := List.mem_flatMap.mp member
  obtain ⟨name, listed, rfl⟩ := List.mem_map.mp inside
  unfold Recorded.adoptedAt at listed
  split at listed
  · next f found => exact (List.getElem?_eq_some_iff.mp found).1
  · cases listed

/-- The calls to append for one position are those of its own answer. -/
theorem filter_heirsOf (terms : WaitTerms) (futures : List Future)
    {answers : List (Nat × Outcome FetchAnswer)} (distinct : (answers.map (·.1)).Nodup) (i : Nat) :
    ((heirsOf terms futures answers).filter (·.1 = i)).map (·.2) =
      ((answers.find? (·.1 = i)).map (Recorded.adoptedAt terms futures)).getD [] := by
  induction answers with
  | nil => rfl
  | cons x rest ih =>
    rw [List.map_cons, List.nodup_cons] at distinct
    have split : heirsOf terms futures (x :: rest) =
        (Recorded.adoptedAt terms futures x).map (x.1, ·) ++ heirsOf terms futures rest := rfl
    rw [split, List.filter_append, List.map_append, ih distinct.2]
    by_cases same : x.1 = i
    · subst same
      rw [find?_no_answer distinct.1, List.find?_cons_of_pos (by simp)]
      simp [List.filter_map, Function.comp_def]
    · rw [List.find?_cons_of_neg (by simpa using same)]
      simp [List.filter_map, Function.comp_def, same]

namespace Lineage

variable {begun : Nat} {futures : List Future} {heirs : List (Nat × CallName × String)}

/-- A wait set of which nothing is known yet has no heirs. -/
theorem of_fresh (fresh : ∀ f ∈ futures, f.IsFresh) : Lineage futures.length futures [] where
  appended := by simp
  length := by simp
  later := by simp
  each := by
    intro i f found
    have none := (fresh f (List.mem_of_getElem? found)).children
    rw [Future.dispatched, none]
    rfl

/-- Taking in answers appends the heirs of the futures that became done, and no others. -/
theorem absorbs (lineage : Lineage begun earlier heirs) (opens : replies.Opens)
    (coherent : ∀ f ∈ earlier, f.Coherent)
    (absorbs : Absorbs replies terms answers kept earlier later) :
    Lineage begun later (heirs ++ heirsOf terms earlier (sortAnswers answers)) := by
  have distinct := distinct_sorted absorbs.distinct
  have all : kept = (heirsOf terms earlier (sortAnswers answers)).map (·.2) := by
    rw [absorbs.all opens, children_recordAll absorbs.distinct, map_heirsOf]
  have made : Future.name ∘ Future.ofName = id := rfl
  have same : (recordAll terms answers earlier).futures.length = earlier.length :=
    length_recordAll absorbs.distinct
  have coherent' := (absorbs.keeps coherent).2
  refine ⟨?_, ?_, ?_, ?_⟩
  · have names : ((recordAll terms answers earlier).futures.drop begun).map Future.name =
        heirs.map (·.2) := by
      rw [List.map_drop, names_recordAll absorbs.distinct, ← List.map_drop, lineage.appended]
    have inside : begun ≤ (recordAll terms answers earlier).futures.length := by
      rw [same, lineage.length]
      omega
    rw [absorbs.eq, List.drop_append_of_le_length inside, List.map_append, names, List.map_map,
      made, List.map_id, all, List.map_append]
  · have size := congrArg List.length all
    rw [List.length_map] at size
    rw [absorbs.eq, List.length_append, List.length_map, same, lineage.length, size,
      List.length_append]
    omega
  · intro k h found
    rw [List.getElem?_append] at found
    split at found
    · exact lineage.later k h found
    · have parent := parent_of_mem_heirsOf (List.mem_of_getElem? found)
      have size := lineage.length
      omega
  · intro i g found
    rw [List.filter_append, List.map_append, filter_heirsOf terms earlier distinct]
    rcases absorbs.getElem?_cases found with ⟨f, before, rfl⟩ | ⟨past, name, -, rfl⟩
    · rw [lineage.each i f before]
      have after := coherent' _ (List.mem_of_getElem? found)
      rcases absorbs.answered_cases before with ⟨unchanged, absent⟩ |
          ⟨x, member, rfl, became, open_, -⟩
      · rw [unchanged, find?_no_answer (by rwa [((sortAnswers_perm answers).map _).mem_iff])]
        simp
      · have notDone := Future.done_of_open open_
        have sorted := (sortAnswers_perm answers).mem_iff.mpr member
        have own : Recorded.adoptedAt terms earlier x =
            f.adopted (f.recorded terms.throwing x.2) := by
          rw [Recorded.adoptedAt, before]
        rw [became] at after ⊢
        rw [find?_answer distinct sorted, Option.map_some, Option.getD_some, own,
          Future.dispatched_eq_nil (coherent f (List.mem_of_getElem? before)).done_of_children
            notDone,
          List.nil_append, Future.adopted_of_open notDone after.done_of_children]
    · have none : heirs.filter (·.1 = i) = [] := by
        rw [List.filter_eq_nil_iff]
        intro h member
        obtain ⟨k, found⟩ := List.getElem?_of_mem member
        have parent := lineage.later k h found
        have inside := (List.getElem?_eq_some_iff.mp found).1
        have size := lineage.length
        have ne : h.1 ≠ i := by omega
        simpa using ne
      have absent : i ∉ (sortAnswers answers).map (·.1) := by
        rw [((sortAnswers_perm answers).map _).mem_iff]
        intro member
        obtain ⟨x, listed, rfl⟩ := List.mem_map.mp member
        obtain ⟨f, -, at_, -⟩ := absorbs.asked x listed
        have below := (List.getElem?_eq_some_iff.mp at_).1
        omega
      rw [none, find?_no_answer absent]
      rfl

/-- The calls appended are, as a multiset, those that the futures that are done have recorded. -/
theorem perm (lineage : Lineage begun futures heirs) (coherent : ∀ f ∈ futures, f.Coherent) :
    ((futures.drop begun).map Future.name).Perm
      ((futures.filter (·.done)).flatMap Future.dispatched) := by
  have parents : ∀ h ∈ heirs, h.1 ∈ List.range futures.length := by
    intro h member
    obtain ⟨k, found⟩ := List.getElem?_of_mem member
    have parent := lineage.later k h found
    have inside := (List.getElem?_eq_some_iff.mp found).1
    have size := lineage.length
    rw [List.mem_range]
    omega
  have byParent := (perm_flatMap_filter List.nodup_range parents).map (·.2)
  rw [List.map_flatMap] at byParent
  have byFuture : (futures.flatMap Future.dispatched).Perm ((List.range futures.length).flatMap
      fun i => (heirs.filter (·.1 = i)).map (·.2)) := by
    refine flatMap_perm_range fun i f found => ?_
    rw [lineage.each i f found]
  rw [lineage.appended, flatMap_dispatched_done coherent]
  exact byParent.trans byFuture.symm

end Lineage

/-- A history goes on with the lineage of a wait set. -/
theorem Lineage.absorbed {begun : Nat} {heirs : List (Nat × CallName × String)}
    (lineage : Lineage begun earlier heirs) (absorbed : Absorbed replies earlier later)
    (opens : replies.Opens) (coherent : ∀ f ∈ earlier, f.Coherent) :
    ∃ heirs, Lineage begun later heirs := by
  induction absorbed with
  | refl => exact ⟨heirs, lineage⟩
  | tail before step ih =>
    obtain ⟨terms, answers, kept, absorbs⟩ := step
    obtain ⟨heirs, lineage⟩ := ih
    exact ⟨_, lineage.absorbs opens (Absorbed.keeps before coherent).2 absorbs⟩

/-- A history gives a wait set that began with fresh futures its lineage. -/
theorem Absorbed.lineage {initial futures : List Future}
    (absorbed : Absorbed replies initial futures) (opens : replies.Opens)
    (fresh : ∀ f ∈ initial, f.IsFresh) :
    ∃ heirs, Lineage initial.length futures heirs :=
  (Lineage.of_fresh fresh).absorbed absorbed opens fun f member => (fresh f member).coherent

/-- Over any history of waits, whatever becomes of them, a wait set that began with fresh futures
keeps its futures in their places with all they have recorded, and what is appended to it are the
calls its finished calls dispatched: each once, after its parent and with its parent's backend. -/
theorem waits_keep_and_append {initial : List Future} (fresh : ∀ f ∈ initial, f.IsFresh)
    (opens : replies.Opens) (before : Tracked replies initial earlier)
    (after : Tracked replies earlier later) :
    Kept earlier later ∧ (∀ f ∈ later, f.Coherent) ∧
      (∃ heirs, Lineage initial.length later heirs) ∧
      ((later.drop initial.length).map Future.name).Perm
        ((later.filter (·.done)).flatMap Future.dispatched) := by
  have coherent := (before.absorbed.keeps fun f member => (fresh f member).coherent).2
  obtain ⟨kept, coherent'⟩ := after.absorbed.keeps coherent
  obtain ⟨heirs, lineage⟩ :=
    Absorbed.lineage (before.absorbed.trans after.absorbed) opens fresh
  exact ⟨kept, coherent', ⟨heirs, lineage⟩, lineage.perm coherent'⟩

/-! ### A call that dispatches another -/

namespace Pair

def parent : CallName := ⟨"e", "j", "0"⟩

def child : CallName := ⟨"e", "k", "0"⟩

/-- The call before anything is known, once its status is known, and with the call it dispatched. -/
def fresh : List Future := [{ key := parent, backend := "b" }]

def seen : List Future := [{ key := parent, backend := "b", ready := true, status := some .ok }]

def grown : List Future :=
  [{ key := parent, backend := "b", ready := true, done := true, status := some .ok
     captured := some (.value .null), children := [child] }, { key := child, backend := "b" }]

/-- A wait for statuses or outputs with a monitor that has seen the call, at the fetches of its
first unit. -/
def polled (download : Bool) (futures : List Future) : Wait ManualMonitor :=
  ((Wait.prepare { download, timeout := some 5 } { openBackend := fun _ _ => .ok () }
    { seen := [("e-j", ["0"])] } {} futures).enter false).pollNext false

theorem tracked_seen : Tracked .arbitrary fresh seen := by
  have reached : (polled false fresh).Reached .arbitrary { timeout := some 5 } fresh :=
    .polled false (.entered false (.prepared _ _ fun _ _ => rfl))
  have fetching : (polled false fresh).phase = .fetching 0 [⟨0, parent, true, true⟩] := rfl
  have answers : Answers .arbitrary "b" false [⟨0, parent, true, true⟩]
      [(0, .ok (.status (some .ok)))] := by
    refine ⟨.refl _, ?_⟩
    intro x member
    obtain rfl := List.mem_singleton.mp member
    have asked : (⟨0, parent, true, true⟩ : Target).Comes .arbitrary "b" false .askStatus := .first
    have status : Replies.arbitrary.status "b" parent (.ok (some .ok)) := trivial
    exact ⟨_, List.mem_singleton_self _, rfl, asked.status status⟩
  have expired := Wait.Reached.expired (.answered reached fetching rfl answers)
  have same : ((polled false fresh).answer [(0, .ok (.status (some .ok)))]).expire.state.futures =
      seen := by
    simp only [Wait.answer, fetching, WaitState.settle, sortAnswers, List.mergeSort_singleton]
    rfl
  exact same ▸ .waited .begun expired

theorem tracked_grown : Tracked .arbitrary seen grown := by
  have reached : (polled true seen).Reached .arbitrary { download := true, timeout := some 5 }
      seen :=
    .polled false (.entered false (.prepared _ _ fun _ _ => rfl))
  have fetching : (polled true seen).phase = .fetching 0 [⟨0, parent, false, true⟩] := rfl
  have answers : Answers .arbitrary "b" true [⟨0, parent, false, true⟩]
      [(0, .ok (.result none (some (.calls [child]))))] := by
    refine ⟨.refl _, ?_⟩
    intro x member
    obtain rfl := List.mem_singleton.mp member
    have asked : (⟨0, parent, false, true⟩ : Target).Comes .arbitrary "b" true (.askOutput none) :=
      .first
    have output : Replies.arbitrary.output "b" parent (.ok (some (.calls [child]))) := trivial
    exact ⟨_, List.mem_singleton_self _, rfl, asked.output output⟩
  have expired := Wait.Reached.expired (.answered reached fetching rfl answers)
  have same : ((polled true seen).answer
      [(0, .ok (.result none (some (.calls [child]))))]).expire.state.futures = grown := by
    simp only [Wait.answer, fetching, WaitState.settle, sortAnswers, List.mergeSort_singleton]
    rfl
  exact same ▸ .waited .begun expired

/-- Two waits that ran out of time, one for the status of a call and one for its output, keep what
they saw, and the call it dispatched is appended after it. -/
theorem waits_keep_and_append_pair :
    Kept seen grown ∧ (∀ f ∈ grown, f.Coherent) ∧
      (∃ heirs, Lineage 1 grown heirs) ∧ [(child, "b")].Perm [(child, "b")] :=
  waits_keep_and_append
    (by
      intro f member
      obtain rfl := List.mem_singleton.mp member
      exact Future.isFresh_new _ _)
    Replies.opens_arbitrary tracked_seen tracked_grown

end Pair

end CallDispatch
