import CallDispatch.Proofs.Tracking.Units
import CallDispatch.Proofs.Tracking.Watching

/-!
# Taking in answers

When the fetches of a unit have been answered, the answers are recorded in order of position, and
the calls that finished calls dispatched are appended. No two answers are for one position, so each
future changes by its own answer alone, and the appended calls are those of the answers in turn.
-/

namespace CallDispatch

/-! ## Recording the answers of a unit -/

section
variable {answers : List (Nat × Outcome FetchAnswer)}

theorem find?_answer (distinct : (answers.map (·.1)).Nodup) {x : Nat × Outcome FetchAnswer}
    (member : x ∈ answers) : answers.find? (·.1 = x.1) = some x := by
  have found : ∃ y, answers.find? (·.1 = x.1) = some y := by
    rw [← Option.isSome_iff_exists, List.find?_isSome]
    exact ⟨x, member, by simp⟩
  obtain ⟨y, found⟩ := found
  have same : y = x := List.inj_on_of_nodup_map distinct (List.mem_of_find?_eq_some found) member
    (by simpa using List.find?_some found)
  rw [found, same]

theorem find?_no_answer {index : Nat} (absent : index ∉ answers.map (·.1)) :
    answers.find? (·.1 = index) = none := by
  rw [List.find?_eq_none]
  intro x member
  have ne : x.1 ≠ index := fun same => absent (same ▸ List.mem_map_of_mem member)
  simpa using ne

end

namespace Future

/-- The calls to append when a future has gone from one state to the next: all it dispatched, if it
has become done. -/
def adopted (f g : Future) : List (CallName × String) :=
  if !f.done && g.done then g.dispatched else []

theorem recorded_name (throwing : Bool) (f : Future) (answer : Outcome FetchAnswer) :
    (f.recorded throwing answer).name = f.name := by
  have output (g : Future) (o : OutputRecord) : (g.withOutput o).name = g.name := by
    cases o <;> rfl
  cases answer with
  | error e => rfl
  | ok found =>
    cases found with
    | status status =>
      cases status with
      | none => rfl
      | some s => exact f.withStatus_name s
    | result status o =>
      simp only [recorded, record]
      cases status with
      | none =>
        cases o with
        | none => rfl
        | some o =>
          dsimp only
          split
          · rfl
          · exact output f o
      | some s =>
        dsimp only
        split
        · split
          · exact f.withStatus_name s
          · exact (output _ _).trans (f.withStatus_name s)
        · exact f.withStatus_name s

/-- The state of the future at a position after some answers. -/
def answered (throwing : Bool) (answers : List (Nat × Outcome FetchAnswer)) (index : Nat)
    (f : Future) : Future :=
  match answers.find? (·.1 = index) with
  | some x => f.recorded throwing x.2
  | none => f

theorem answered_name (throwing : Bool) (answers : List (Nat × Outcome FetchAnswer)) (index : Nat)
    (f : Future) : (f.answered throwing answers index).name = f.name := by
  unfold answered
  split
  · exact recorded_name _ _ _
  · rfl

theorem answered_of_mem {throwing : Bool} {answers : List (Nat × Outcome FetchAnswer)}
    (distinct : (answers.map (·.1)).Nodup) {x : Nat × Outcome FetchAnswer} (member : x ∈ answers)
    (f : Future) : f.answered throwing answers x.1 = f.recorded throwing x.2 := by
  rw [answered, find?_answer distinct member]

theorem answered_singleton (throwing : Bool) (x : Nat × Outcome FetchAnswer) (f : Future) :
    f.answered throwing [x] x.1 = f.recorded throwing x.2 :=
  answered_of_mem (by simp) List.mem_cons_self f

theorem answered_of_not_mem {throwing : Bool} {answers : List (Nat × Outcome FetchAnswer)}
    {index : Nat} (absent : index ∉ answers.map (·.1)) (f : Future) :
    f.answered throwing answers index = f := by
  rw [answered, find?_no_answer absent]

/-- An answer for one position leaves the others as they are. -/
theorem answered_cons_of_ne {throwing : Bool} {x : Nat × Outcome FetchAnswer} {index : Nat}
    (ne : index ≠ x.1) (rest : List (Nat × Outcome FetchAnswer)) (f : Future) :
    f.answered throwing (x :: rest) index = f.answered throwing rest index := by
  have skip : (x :: rest).find? (·.1 = index) = rest.find? (·.1 = index) :=
    List.find?_cons_of_neg (by simpa using Ne.symm ne)
  rw [answered, answered, skip]

end Future

namespace Recorded

variable {terms : WaitTerms}

theorem add_of_some {r : Recorded} {x : Nat × Outcome FetchAnswer} {f : Future}
    (found : r.futures[x.1]? = some f) :
    (r.add terms x).futures = r.futures.set x.1 (f.recorded terms.throwing x.2) ∧
      (r.add terms x).children =
        r.children ++ f.adopted (f.recorded terms.throwing x.2) := by
  unfold add
  rw [found]
  cases answer : x.2 with
  | error e => cases done : f.done <;> simp [Future.recorded, Future.adopted, done]
  | ok a =>
    refine ⟨rfl, ?_⟩
    by_cases became : (!f.done && (f.recorded terms.throwing (.ok a)).done) = true
    · rw [Future.adopted, if_pos became]
      exact if_pos became
    · rw [Future.adopted, if_neg became, List.append_nil]
      exact if_neg became

theorem add_of_none {r : Recorded} {x : Nat × Outcome FetchAnswer}
    (missing : r.futures[x.1]? = none) : r.add terms x = r := by
  unfold add
  rw [missing]

/-- The calls to append for an answer. -/
def adoptedAt (terms : WaitTerms) (futures : List Future) (x : Nat × Outcome FetchAnswer) :
    List (CallName × String) :=
  match futures[x.1]? with
  | some f => f.adopted (f.recorded terms.throwing x.2)
  | none => []

theorem getElem?_add (r : Recorded) (x : Nat × Outcome FetchAnswer) (i : Nat) :
    (r.add terms x).futures[i]? =
      (r.futures[i]?).map (Future.answered terms.throwing [x] i) := by
  cases found : r.futures[x.1]? with
  | none =>
    rw [add_of_none found]
    cases at_ : r.futures[i]? with
    | none => rfl
    | some f =>
      have ne : i ≠ x.1 := by
        rintro rfl
        rw [found] at at_
        cases at_
      rw [Option.map_some, Future.answered_cons_of_ne ne]
      rfl
  | some f =>
    rw [(add_of_some found).1, List.getElem?_set]
    by_cases same : x.1 = i
    · subst same
      rw [if_pos rfl, if_pos (List.getElem?_eq_some_iff.mp found).1, found, Option.map_some,
        Future.answered_singleton]
    · rw [if_neg same]
      cases r.futures[i]? with
      | none => rfl
      | some g =>
        rw [Option.map_some, Future.answered_cons_of_ne (Ne.symm same)]
        rfl

theorem children_add (r : Recorded) (x : Nat × Outcome FetchAnswer) :
    (r.add terms x).children = r.children ++ adoptedAt terms r.futures x := by
  unfold adoptedAt
  cases found : r.futures[x.1]? with
  | none => rw [add_of_none found, List.append_nil]
  | some f => exact (add_of_some found).2

/-- Answers for distinct positions act each on its own future. -/
theorem getElem?_foldl {answers : List (Nat × Outcome FetchAnswer)}
    (distinct : (answers.map (·.1)).Nodup) (r : Recorded) (i : Nat) :
    (answers.foldl (add terms) r).futures[i]? =
      (r.futures[i]?).map (Future.answered terms.throwing answers i) := by
  induction answers generalizing r with
  | nil =>
    rw [List.foldl_nil]
    cases r.futures[i]? <;> rfl
  | cons x rest ih =>
    obtain ⟨absent, later⟩ := List.nodup_cons.mp distinct
    rw [List.foldl_cons, ih later, getElem?_add, Option.map_map]
    congr 1
    funext f
    by_cases same : i = x.1
    · subst same
      rw [Function.comp_apply, Future.answered_of_not_mem absent,
        Future.answered_singleton, Future.answered_of_mem distinct List.mem_cons_self]
    · rw [Function.comp_apply, Future.answered_cons_of_ne same, Future.answered_cons_of_ne same]
      rfl

/-- An answer for another position adopts the same calls. -/
theorem adoptedAt_add_of_ne {r : Recorded} {x y : Nat × Outcome FetchAnswer} (ne : y.1 ≠ x.1) :
    adoptedAt terms (r.add terms x).futures y = adoptedAt terms r.futures y := by
  unfold adoptedAt
  rw [getElem?_add]
  cases r.futures[y.1]? with
  | none => rfl
  | some f =>
    rw [Option.map_some, Future.answered_cons_of_ne ne]
    rfl

/-- The calls appended for answers for distinct positions are those of the answers in turn. -/
theorem children_foldl {answers : List (Nat × Outcome FetchAnswer)}
    (distinct : (answers.map (·.1)).Nodup) (r : Recorded) :
    (answers.foldl (add terms) r).children =
      r.children ++ answers.flatMap (adoptedAt terms r.futures) := by
  induction answers generalizing r with
  | nil => simp
  | cons x rest ih =>
    rw [List.map_cons, List.nodup_cons] at distinct
    have others : rest.flatMap (adoptedAt terms (r.add terms x).futures) =
        rest.flatMap (adoptedAt terms r.futures) :=
      List.flatMap_congr fun y member =>
        adoptedAt_add_of_ne fun same => distinct.1 (same ▸ List.mem_map_of_mem member)
    rw [List.foldl_cons, ih distinct.2, children_add, others, List.flatMap_cons, List.append_assoc]

/-- If failures are not raised and every fetch was answered, nothing is raised. -/
theorem firstError_foldl {answers : List (Nat × Outcome FetchAnswer)}
    (quiet : terms.throwing = false) (fine : ∀ x ∈ answers, ∃ a, x.2 = .ok a) {r : Recorded}
    (clean : r.firstError = none) : (answers.foldl (add terms) r).firstError = none := by
  induction answers generalizing r with
  | nil => exact clean
  | cons x rest ih =>
    refine ih (fun y member => fine y (List.mem_cons_of_mem x member)) ?_
    obtain ⟨a, answer⟩ := fine x List.mem_cons_self
    unfold add
    cases r.futures[x.1]? with
    | none => exact clean
    | some f =>
      have silent (s : StatusRecord) : f.statusError? false s = none := by
        unfold Future.statusError?
        split <;> rfl
      simp only [answer, clean, quiet, Option.none_or, Future.record]
      cases a with
      | status status => cases status <;> simp [silent]
      | result status output =>
        cases status <;> cases output <;> simp only [silent] <;> split <;> rfl

end Recorded

/-- What recording the answers of a unit leads to. -/
def recordAll (terms : WaitTerms) (answers : List (Nat × Outcome FetchAnswer))
    (futures : List Future) : Recorded :=
  (sortAnswers answers).foldl (Recorded.add terms) { futures }

/-- A future made for a call that was dispatched. -/
def Future.ofName (name : CallName × String) : Future := { key := name.1, backend := name.2 }

/-- The wait set after the answers of a unit. -/
def absorbed (terms : WaitTerms) (answers : List (Nat × Outcome FetchAnswer))
    (futures : List Future) : List Future :=
  (recordAll terms answers futures).futures ++
    (recordAll terms answers futures).children.map Future.ofName

theorem sortAnswers_perm (answers : List (Nat × Outcome FetchAnswer)) :
    (sortAnswers answers).Perm answers :=
  List.mergeSort_perm answers _

section
variable {terms : WaitTerms} {answers : List (Nat × Outcome FetchAnswer)} {futures : List Future}

theorem distinct_sorted (distinct : (answers.map (·.1)).Nodup) :
    ((sortAnswers answers).map (·.1)).Nodup :=
  ((sortAnswers_perm answers).map _).nodup_iff.mpr distinct

theorem Future.answered_sorted_of_mem (distinct : (answers.map (·.1)).Nodup)
    {x : Nat × Outcome FetchAnswer} (member : x ∈ answers) (throwing : Bool) (f : Future) :
    f.answered throwing (sortAnswers answers) x.1 = f.recorded throwing x.2 :=
  answered_of_mem (distinct_sorted distinct) ((sortAnswers_perm answers).mem_iff.mpr member) f

theorem Future.answered_sorted_of_not_mem {index : Nat} (absent : index ∉ answers.map (·.1))
    (throwing : Bool) (f : Future) : f.answered throwing (sortAnswers answers) index = f :=
  answered_of_not_mem (by rwa [((sortAnswers_perm answers).map _).mem_iff]) f

theorem getElem?_recordAll (distinct : (answers.map (·.1)).Nodup) (i : Nat) :
    (recordAll terms answers futures).futures[i]? =
      (futures[i]?).map (Future.answered terms.throwing (sortAnswers answers) i) :=
  Recorded.getElem?_foldl (distinct_sorted distinct) _ i

theorem length_recordAll (distinct : (answers.map (·.1)).Nodup) :
    (recordAll terms answers futures).futures.length = futures.length := by
  have same (i : Nat) : i < (recordAll terms answers futures).futures.length ↔
      i < futures.length := by
    have at_ : (recordAll terms answers futures).futures[i]? =
        (futures[i]?).map (Future.answered terms.throwing (sortAnswers answers) i) :=
      getElem?_recordAll distinct i
    have none := congrArg (· = none) at_
    simp only [Option.map_eq_none_iff, List.getElem?_eq_none_iff, eq_iff_iff] at none
    omega
  have below := same futures.length
  have above := same (recordAll terms answers futures).futures.length
  omega

theorem children_recordAll (distinct : (answers.map (·.1)).Nodup) :
    (recordAll terms answers futures).children =
      (sortAnswers answers).flatMap (Recorded.adoptedAt terms futures) :=
  Recorded.children_foldl (distinct_sorted distinct) _

theorem names_recordAll (distinct : (answers.map (·.1)).Nodup) :
    (recordAll terms answers futures).futures.map Future.name = futures.map Future.name := by
  refine List.ext_getElem? fun i => ?_
  rw [List.getElem?_map, List.getElem?_map, getElem?_recordAll distinct, Option.map_map]
  congr 1
  funext f
  exact f.answered_name _ _ i

theorem names_absorbed (distinct : (answers.map (·.1)).Nodup) :
    (absorbed terms answers futures).map Future.name =
      futures.map Future.name ++ (recordAll terms answers futures).children := by
  have made : Future.name ∘ Future.ofName = id := rfl
  rw [absorbed, List.map_append, names_recordAll distinct, List.map_map, made, List.map_id]

end

/-! ## Growing -/

/-- A monitor after it has been asked to watch the units of some joined keys as they are now. -/
def restarted {μ : Type} [Watcher μ] (units : List WaitUnit) (futures : List Future)
    (jobKeys : List String) (m : μ) : μ :=
  jobKeys.foldl (fun m key =>
    match units.find? (·.jobKey = key) with
    | some u => Watcher.start m (u.watchedJob futures) u.backend
    | none => m) m

namespace WaitState

variable {μ : Type} [Watcher μ] {provider : Provider} {s : WaitState μ}

omit [Watcher μ] in
/-- Appending calls groups them with the others, up to one whose backend fails to open. -/
theorem append_cases (provider : Provider) (grouped : Grouped (s.futures.map Future.name) s.units)
    (children : List (CallName × String)) (grown : List String) :
    (∃ units opened grown', append provider children grown s =
        ({ s with futures := s.futures ++ children.map Future.ofName, units, opened }, grown',
          none) ∧
      Grouped (s.futures.map Future.name ++ children) units ∧
      s.units.map WaitUnit.heading <+: units.map WaitUnit.heading ∧
      ∀ key, key ∈ grown' ↔ key ∈ grown ∨ ∃ c ∈ children, c.1.jobKey = key) ∨
    ∃ kept units opened grown' backend e, append provider children grown s =
        ({ s with futures := s.futures ++ kept.map Future.ofName, units, opened }, grown',
          some e) ∧
      kept <+: children ∧ provider.Denies backend e := by
  induction children generalizing s grown with
  | nil =>
    refine Or.inl ⟨s.units, s.opened, grown, ?_, by simpa using grouped, List.prefix_refl _, ?_⟩
    · simp [append]
    · simp
  | cons c rest ih =>
    have placing := place_cases provider grouped c
    rw [List.length_map] at placing
    rcases placing with ⟨units, opened, placed, grouped', longer⟩ | ⟨opened, e, failed, closed⟩
    · have names : (s.futures ++ [Future.ofName c]).map Future.name =
          s.futures.map Future.name ++ [c] := by
        rw [List.map_append]
        rfl
      have goesOn : append provider (c :: rest) grown s =
          append provider rest (extend grown [c.1.jobKey])
            { s with futures := s.futures ++ [Future.ofName c], units, opened } := by
        rw [append, placed]
        rfl
      rw [goesOn]
      rcases ih (s := { s with futures := s.futures ++ [Future.ofName c], units, opened })
          (by simpa only [names] using grouped') (extend grown [c.1.jobKey]) with
        ⟨units', opened', grown', appended, grouped'', longer', grew⟩ |
        ⟨kept, units', opened', grown', backend, e, failed, listed, closed⟩
      · refine Or.inl ⟨units', opened', grown', ?_, ?_, longer.trans longer', ?_⟩
        · rw [appended]
          simp
        · simpa [names] using grouped''
        · intro key
          rw [grew, mem_extend, List.mem_singleton, or_assoc]
          simp [eq_comm]
      · refine Or.inr ⟨c :: kept, units', opened', grown', backend, e, ?_, ?_, closed⟩
        · rw [failed]
          simp
        · exact (List.prefix_cons_inj c).mpr listed
    · refine Or.inr ⟨[], s.units, opened, grown, c.2, e, ?_, List.nil_prefix, closed⟩
      rw [append, failed]
      simp

theorem foldl_watch (jobKeys : List String) :
    jobKeys.foldl watch s =
      { s with monitor := restarted s.units s.futures jobKeys s.monitor } := by
  induction jobKeys generalizing s with
  | nil => rfl
  | cons key rest ih =>
    rw [List.foldl_cons, ih]
    unfold watch restarted
    rw [List.foldl_cons]
    cases s.units.find? (·.jobKey = key) <;> rfl

/-- If no calls are to be appended, answers are only recorded. -/
theorem settle_of_no_children (provider : Provider) {terms : WaitTerms}
    {answers : List (Nat × Outcome FetchAnswer)}
    (none : (recordAll terms answers s.futures).children = []) :
    ∃ progress, s.settle provider terms answers =
      ({ s with futures := (recordAll terms answers s.futures).futures, progress },
        (recordAll terms answers s.futures).firstError) := by
  have empty : (recordAll terms answers s.futures).children.isEmpty = true := by rw [none]; rfl
  unfold settle
  exact ⟨_, if_pos empty⟩

/-- What taking in the answers of a unit comes to: the wait set takes them in and is watched, unless
a backend fails to open. -/
theorem settle_cases (provider : Provider) (grouped : Grouped (s.futures.map Future.name) s.units)
    (terms : WaitTerms) {answers : List (Nat × Outcome FetchAnswer)}
    (distinct : (answers.map (·.1)).Nodup) :
    (∃ units opened progress grown, s.settle provider terms answers =
        ({ futures := absorbed terms answers s.futures, units, opened, progress
           monitor := restarted units (absorbed terms answers s.futures) grown s.monitor },
          (recordAll terms answers s.futures).firstError) ∧
      Grouped ((absorbed terms answers s.futures).map Future.name) units ∧
      s.units.map WaitUnit.heading <+: units.map WaitUnit.heading ∧
      ∀ key, key ∈ grown ↔
        ∃ c ∈ (recordAll terms answers s.futures).children, c.1.jobKey = key) ∨
    ∃ after kept backend e, s.settle provider terms answers = (after, some e) ∧
      after.futures = (recordAll terms answers s.futures).futures ++ kept.map Future.ofName ∧
      kept <+: (recordAll terms answers s.futures).children ∧
      provider.Denies backend e := by
  have names : (recordAll terms answers s.futures).futures.map Future.name =
      s.futures.map Future.name := names_recordAll distinct
  have record : (sortAnswers answers).foldl (Recorded.add terms) { futures := s.futures } =
      recordAll terms answers s.futures := rfl
  by_cases noChildren : (recordAll terms answers s.futures).children = []
  · have same : absorbed terms answers s.futures = (recordAll terms answers s.futures).futures := by
      rw [absorbed, noChildren, List.map_nil, List.append_nil]
    obtain ⟨progress, settled⟩ := settle_of_no_children provider noChildren
    rw [same]
    refine Or.inl ⟨s.units, s.opened, progress, [], settled, ?_, List.prefix_refl _, ?_⟩
    · rwa [names]
    · simp [noChildren]
  · have none : ¬ (recordAll terms answers s.futures).children.isEmpty = true := by
      simpa using noChildren
    unfold settle
    rw [record]
    let middle : WaitState μ :=
      { s with futures := (recordAll terms answers s.futures).futures }.tell
        (.inc (recordAll terms answers s.futures).newlyComplete)
    have grouped' : Grouped (middle.futures.map Future.name) middle.units := by
      show Grouped ((recordAll terms answers s.futures).futures.map Future.name) s.units
      rwa [names]
    rcases append_cases provider grouped' (recordAll terms answers s.futures).children [] with
      ⟨units, opened, grown, appended, grouped'', longer, grew⟩ |
      ⟨kept, units, opened, grown, backend, e, failed, listed, closed⟩
    · have grows : grow provider (recordAll terms answers s.futures).children middle =
          ({ futures := absorbed terms answers s.futures, units, opened
             progress := middle.progress.tell (.total (absorbed terms answers s.futures).length)
             monitor := restarted units (absorbed terms answers s.futures) grown s.monitor },
            Option.none) := by
        rw [grow, appended]
        exact congrArg (·, Option.none) (foldl_watch grown)
      refine Or.inl ⟨units, opened,
        middle.progress.tell (.total (absorbed terms answers s.futures).length), grown, ?_, ?_,
        longer, by simpa using grew⟩
      · refine (if_neg none).trans ?_
        rw [grows]
      · rw [names_absorbed distinct, ← names]
        exact grouped''
    · have grows : grow provider (recordAll terms answers s.futures).children middle =
          ({ middle with futures := middle.futures ++ kept.map Future.ofName, units, opened },
            some e) := by
        rw [grow, failed]
      refine Or.inr
        ⟨{ middle with futures := middle.futures ++ kept.map Future.ofName, units, opened }, kept,
          backend, e, (if_neg none).trans ?_, rfl, listed, closed⟩
      rw [grows]

end WaitState

end CallDispatch
