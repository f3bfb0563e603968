import CallDispatch.Proofs.Tracking.Pools
import CallDispatch.Proofs.Tracking.Raising

/-!
# Polling in any order

While a unit is polled, its fetches run side by side, as many as the pool has room for, and are
answered in some order. If each question has one reply all the while, neither the order nor the room
matters: the wait set, its units, what the monitor is asked to watch, the progress told and the
error raised are always the same.
-/

namespace CallDispatch

/-! ## Recording an answer again -/

namespace Future

theorem withStatus_withStatus (f : Future) (s : StatusRecord) :
    (f.withStatus s).withStatus s = f.withStatus s := by
  cases failed : s.failureMessage? with
  | some message => simp [withStatus, failed]
  | none => cases produces : f.produceOutput <;> simp [withStatus, failed, produces]

/-- A status that left the output to be recorded changes nothing after it. -/
theorem withStatus_withOutput {f : Future} {s : StatusRecord}
    (open_ : (f.withStatus s).done = false) (o : OutputRecord) :
    ((f.withStatus s).withOutput o).withStatus s = (f.withStatus s).withOutput o := by
  obtain ⟨⟨-, success⟩, produces⟩ : (f.done = false ∧ s.success = true) ∧
      f.produceOutput = true := by simpa using open_
  have passed := failureMessage?_eq_none success
  cases o <;> simp [withOutput, withStatus, passed, produces]

/-- An output is recorded after a status that raises nothing and leaves the outcome open. -/
theorem recorded_status_output (throwing : Bool) (f : Future) (s : StatusRecord)
    (output : Option OutputRecord) : f.recorded throwing (.ok (.result (some s) output)) =
      if f.statusError? throwing s = none ∧ (f.withStatus s).done = false then
        output.elim (f.withStatus s) (f.withStatus s).withOutput
      else f.withStatus s := by
  simp only [recorded, record]
  cases f.statusError? throwing s <;> cases output <;> cases (f.withStatus s).done <;> rfl

/-- Recording an answer once more changes nothing. -/
theorem recorded_recorded (throwing : Bool) (f : Future) (answer : Outcome FetchAnswer) :
    (f.recorded throwing answer).recorded throwing answer = f.recorded throwing answer := by
  match answer with
  | .error e => rfl
  | .ok (.status none) => rfl
  | .ok (.status (some s)) => exact f.withStatus_withStatus s
  | .ok (.result none none) => rfl
  | .ok (.result none (some o)) =>
    cases done : f.done with
    | true => simp [recorded, record, done]
    | false => simp [recorded, record, done, withOutput_done]
  | .ok (.result (some s) output) =>
    have again := statusError?_eq_of_name (f.withStatus_name s) throwing
    rw [recorded_status_output throwing f]
    by_cases open_ : f.statusError? throwing s = none ∧ (f.withStatus s).done = false
    · rw [if_pos open_, recorded_status_output]
      cases output with
      | none => simp [withStatus_withStatus]
      | some o => simp [withStatus_withOutput open_.2, withOutput_done]
    · rw [if_neg open_, recorded_status_output, again, withStatus_withStatus, if_neg open_]

end Future

namespace Recorded

variable {terms : WaitTerms} {answers : List (Nat × Outcome FetchAnswer)}

/-- Answers for others leave a future as it is. -/
theorem getElem?_foldl_of_absent {i : Nat} (absent : i ∉ answers.map (·.1)) (r : Recorded) :
    (answers.foldl (add terms) r).futures[i]? = r.futures[i]? := by
  induction answers generalizing r with
  | nil => rfl
  | cons y rest ih =>
    rw [List.map_cons, List.mem_cons, not_or] at absent
    rw [List.foldl_cons, ih absent.2, getElem?_add]
    cases r.futures[i]? with
    | none => rfl
    | some f =>
      rw [Option.map_some, Future.answered_cons_of_ne absent.1]
      rfl

/-- An answer is recorded, however often it comes, if none for the same position says otherwise. -/
theorem getElem?_foldl_of_agree {x : Nat × Outcome FetchAnswer} (member : x ∈ answers)
    (agree : ∀ y ∈ answers, y.1 = x.1 → y = x) (r : Recorded) :
    (answers.foldl (add terms) r).futures[x.1]? =
      (r.futures[x.1]?).map (·.recorded terms.throwing x.2) := by
  induction answers generalizing r with
  | nil => cases member
  | cons y rest ih =>
    have agree' : ∀ z ∈ rest, z.1 = x.1 → z = x := fun z later =>
      agree z (List.mem_cons_of_mem y later)
    have first : (r.add terms y).futures[x.1]? = (r.futures[x.1]?).map fun f =>
        if y.1 = x.1 then f.recorded terms.throwing x.2 else f := by
      rw [getElem?_add]
      congr 1
      funext f
      split
      · next same =>
        rw [agree y List.mem_cons_self same, Future.answered_singleton]
      · next ne =>
        rw [Future.answered_cons_of_ne (Ne.symm ne)]
        rfl
    rw [List.foldl_cons]
    by_cases later : x ∈ rest
    · rw [ih later agree', first, Option.map_map]
      congr 1
      funext f
      rw [Function.comp_apply]
      split
      · exact f.recorded_recorded _ _
      · rfl
    · obtain rfl := (List.mem_cons.mp member).resolve_right later
      have absent : x.1 ∉ rest.map (·.1) := by
        intro listed
        obtain ⟨z, inside, same⟩ := List.mem_map.mp listed
        exact later (agree' z inside same ▸ inside)
      rw [getElem?_foldl_of_absent absent, first]
      simp only [if_true]

end Recorded

/-! ## Answers in any order -/

/-- Answers of which no two differ about one position. -/
def Consistent (answers : List (Nat × Outcome FetchAnswer)) : Prop :=
  ∀ x ∈ answers, ∀ y ∈ answers, y.1 = x.1 → y = x

theorem Consistent.of_perm {answers answers' : List (Nat × Outcome FetchAnswer)}
    (perm : answers.Perm answers') (consistent : Consistent answers') : Consistent answers :=
  fun x listed y listed' => consistent x (perm.mem_iff.mp listed) y (perm.mem_iff.mp listed')

/-- The answer to the fetch of a member with its position, from stores with one reply to each
question. -/
def Target.reply (download : Bool) (status? : CallName → Outcome (Option StatusRecord))
    (output? : CallName → Outcome (Option OutputRecord)) (t : Target) :
    Nat × Outcome FetchAnswer :=
  (t.index, t.fetch download status? output?)

/-- Members at one position are one member. -/
theorem WaitState.eq_of_index {μ : Type} [Watcher μ] {s : WaitState μ} {download : Bool}
    {u : WaitUnit} {t t' : Target} (member : t ∈ s.targets download u)
    (member' : t' ∈ s.targets download u) (same : t.index = t'.index) : t = t' := by
  obtain ⟨i, -, f, found, -, -, rfl⟩ := mem_targets.mp member
  obtain ⟨j, -, g, found', -, -, rfl⟩ := mem_targets.mp member'
  obtain rfl : i = j := same
  rw [Option.some.inj (found.symm.trans found')]

section
variable {status? : String → CallName → Outcome (Option StatusRecord)}
  {output? : String → CallName → Outcome (Option OutputRecord)} {backend : String}
  {download : Bool} {targets : List Target} {answers : List (Nat × Outcome FetchAnswer)}

/-- The answers are the replies about the targets, in some order. -/
theorem Answers.perm_replies
    (fetched : Answers (.fixed status? output?) backend download targets answers)
    (determined : ∀ t ∈ targets, ∀ t' ∈ targets, t.index = t'.index → t = t') :
    answers.Perm (targets.map (·.reply download (status? backend) (output? backend))) := by
  let replyAt (i : Nat) : Nat × Outcome FetchAnswer :=
    ((targets.find? (·.index = i)).map (·.reply download (status? backend)
      (output? backend))).getD (i, .ok (.status none))
  have replies : ∀ t ∈ targets,
      replyAt t.index = t.reply download (status? backend) (output? backend) := by
    intro t member
    obtain ⟨t', found⟩ : ∃ t', targets.find? (·.index = t.index) = some t' := by
      rw [← Option.isSome_iff_exists, List.find?_isSome]
      exact ⟨t, member, decide_eq_true rfl⟩
    have same : t'.index = t.index := by simpa using List.find?_some found
    obtain rfl := determined t' (List.mem_of_find?_eq_some found) t member same
    simp only [replyAt, found, Option.map_some, Option.getD_some]
  have known : ∀ x ∈ answers, replyAt x.1 = x := by
    intro x listed
    obtain ⟨t, member, index, comes⟩ := fetched.each x listed
    rw [index, replies t member, Target.reply, ← comes.eq_fetch, ← index]
  have ordered := fetched.indexes.map replyAt
  rw [List.map_map, List.map_map] at ordered
  have left : answers.map (replyAt ∘ (·.1)) = answers :=
    (List.map_congr_left known).trans (List.map_id _)
  have right : targets.map (replyAt ∘ (·.index)) =
      targets.map (·.reply download (status? backend) (output? backend)) :=
    List.map_congr_left replies
  rwa [left, right] at ordered

theorem pairwise_sortAnswers (answers : List (Nat × Outcome FetchAnswer)) :
    (sortAnswers answers).Pairwise fun x y => x.1 ≤ y.1 := by
  refine (List.pairwise_mergeSort ?_ ?_ answers).imp of_decide_eq_true
  · intro x y z below below'
    exact decide_eq_true ((of_decide_eq_true below).trans (of_decide_eq_true below'))
  · intro x y
    simpa using Nat.le_total x.1 y.1

/-- Sorted by position, consistent answers come in one order. -/
theorem sortAnswers_eq_of_perm {answers' : List (Nat × Outcome FetchAnswer)}
    (perm : answers.Perm answers') (consistent : Consistent answers) :
    sortAnswers answers = sortAnswers answers' := by
  refine List.Perm.eq_of_pairwise (fun x y listed listed' below above => ?_)
    (pairwise_sortAnswers answers) (pairwise_sortAnswers answers')
    ((sortAnswers_perm answers).trans (perm.trans (sortAnswers_perm answers').symm))
  have inside := (sortAnswers_perm answers).mem_iff.mp listed
  have inside' := perm.mem_iff.mpr ((sortAnswers_perm answers').mem_iff.mp listed')
  exact consistent y inside' x inside (Nat.le_antisymm below above)

variable {raises : Nat × Outcome FetchAnswer → Option DispatchError} {e : DispatchError}

/-- Before the first in order of position to raise an error, none does. -/
theorem lowest_of_findSome? (first : (sortAnswers answers).findSome? raises = some e) :
    ∃ x ∈ answers, raises x = some e ∧ ∀ y ∈ answers, y.1 < x.1 → raises y = none := by
  obtain ⟨before, x, after, split, raised, quiet⟩ := List.findSome?_eq_some_iff.mp first
  have sorted := pairwise_sortAnswers answers
  have member (y : Nat × Outcome FetchAnswer) : y ∈ answers ↔ y ∈ before ++ x :: after := by
    rw [← split, (sortAnswers_perm answers).mem_iff]
  refine ⟨x, (member x).mpr (by simp), raised, fun y listed below => ?_⟩
  rcases List.mem_append.mp ((member y).mp listed) with early | late
  · exact quiet y early
  · rw [split] at sorted
    have above := List.pairwise_cons.mp (List.pairwise_append.mp sorted).2.1
    rcases List.mem_cons.mp late with rfl | later
    · exact absurd below (Nat.lt_irrefl _)
    · exact absurd below (Nat.not_lt.mpr (above.1 y later))

/-- Of consistent answers, the first in order of position to raise an error is the one that raises
one while none at a lower position does. -/
theorem findSome?_sortAnswers_eq_some_iff (consistent : Consistent answers) :
    (sortAnswers answers).findSome? raises = some e ↔
      ∃ x ∈ answers, raises x = some e ∧ ∀ y ∈ answers, y.1 < x.1 → raises y = none := by
  refine ⟨lowest_of_findSome?, ?_⟩
  rintro ⟨x, listed, raised, quiet⟩
  have sorted := (sortAnswers_perm answers).mem_iff.mpr listed
  cases first : (sortAnswers answers).findSome? raises with
  | none =>
    rw [List.findSome?_eq_none_iff.mp first x sorted] at raised
    cases raised
  | some e' =>
    obtain ⟨y, listed', raised', quiet'⟩ := lowest_of_findSome? first
    rcases Nat.lt_trichotomy y.1 x.1 with below | same | above
    · rw [quiet y listed' below] at raised'
      cases raised'
    · rw [consistent x listed y listed' same, raised] at raised'
      exact raised'.symm
    · rw [quiet' x listed above] at raised
      cases raised

end

/-! ## Taking in the answers -/

namespace WaitState

variable {μ : Type} [Watcher μ] {provider : Provider} {s : WaitState μ}

omit [Watcher μ] in
/-- Where every backend opens, calls are appended, all of them. -/
theorem append_of_opens (opens : ∀ before backend, provider.openBackend before backend = .ok ())
    (children : List (CallName × String)) (grown : List String) (s : WaitState μ) :
    ∃ units opened grown', append provider children grown s =
      ({ s with futures := s.futures ++ children.map Future.ofName, units, opened }, grown',
        none) := by
  induction children generalizing grown s with
  | nil => exact ⟨s.units, s.opened, grown, by simp [append]⟩
  | cons c rest ih =>
    obtain ⟨units, opened, placed⟩ : ∃ units opened,
        s.place provider c.1 c.2 s.futures.length = ({ s with units, opened }, none) := by
      unfold place
      split
      · exact ⟨_, _, rfl⟩
      · split
        · exact ⟨_, _, rfl⟩
        · simp only [opens]
          exact ⟨_, _, rfl⟩
    obtain ⟨units', opened', grown', appended⟩ := ih (extend grown [c.1.jobKey])
      { s with futures := s.futures ++ [Future.ofName c], units, opened }
    refine ⟨units', opened', grown', ?_⟩
    rw [append, placed]
    refine appended.trans ?_
    simp

/-- Where every backend opens, the answers are taken in, and the first error recorded is raised. -/
theorem settle_of_opens (opens : ∀ before backend, provider.openBackend before backend = .ok ())
    (terms : WaitTerms) (answers : List (Nat × Outcome FetchAnswer)) (s : WaitState μ) :
    ∃ after, s.settle provider terms answers =
        (after, (recordAll terms answers s.futures).firstError) ∧
      after.futures = absorbed terms answers s.futures := by
  by_cases none : (recordAll terms answers s.futures).children = []
  · obtain ⟨progress, settled⟩ := settle_of_no_children provider none
    refine ⟨_, settled, ?_⟩
    rw [absorbed, none, List.map_nil, List.append_nil]
  · have some : ¬ (recordAll terms answers s.futures).children.isEmpty = true := by simpa using none
    let middle : WaitState μ :=
      { s with futures := (recordAll terms answers s.futures).futures }.tell
        (.inc (recordAll terms answers s.futures).newlyComplete)
    obtain ⟨units, opened, grown, appended⟩ :=
      append_of_opens opens (recordAll terms answers s.futures).children [] middle
    let after : WaitState μ :=
      { futures := absorbed terms answers s.futures, units, opened
        progress := middle.progress.tell (.total (absorbed terms answers s.futures).length)
        monitor := restarted units (absorbed terms answers s.futures) grown s.monitor }
    have grows : grow provider (recordAll terms answers s.futures).children middle =
        (after, Option.none) := by
      rw [grow, appended]
      exact congrArg (·, Option.none) (foldl_watch grown)
    unfold settle
    refine ⟨after, (if_neg some).trans ?_, rfl⟩
    rw [show (sortAnswers answers).foldl (Recorded.add terms) { futures := s.futures } =
      recordAll terms answers s.futures from rfl, grows]

/-- What has been fetched of a member of a unit is recorded in its place, whatever the others
raise, and the others' places are left alone. -/
theorem getElem?_absorbed {terms : WaitTerms} {answers : List (Nat × Outcome FetchAnswer)}
    (consistent : Consistent answers) (futures : List Future) {i : Nat}
    (below : i < futures.length) :
    (∀ x ∈ answers, x.1 = i → (absorbed terms answers futures)[i]? =
      (futures[i]?).map (·.recorded terms.throwing x.2)) ∧
    (i ∉ answers.map (·.1) → (absorbed terms answers futures)[i]? = futures[i]?) := by
  have found := List.getElem?_eq_getElem below
  have kept {g : Future} (now : (recordAll terms answers futures).futures[i]? = some g) :
      (absorbed terms answers futures)[i]? = some g := by
    rw [absorbed, List.getElem?_append_left (List.getElem?_eq_some_iff.mp now).1, now]
  constructor
  · rintro x listed rfl
    have sorted := (sortAnswers_perm answers).mem_iff.mpr listed
    have now : (recordAll terms answers futures).futures[x.1]? = _ :=
      Recorded.getElem?_foldl_of_agree sorted (fun y member =>
        consistent x listed y ((sortAnswers_perm answers).mem_iff.mp member)) { futures }
    rw [found] at now ⊢
    exact kept now
  · intro absent
    have now : (recordAll terms answers futures).futures[i]? = _ :=
      Recorded.getElem?_foldl_of_absent
        (fun listed => absent (((sortAnswers_perm answers).map _).mem_iff.mp listed)) { futures }
    rw [found] at now ⊢
    exact kept now

end WaitState

/-! ## Fetches in any order -/

/-- What can happen to the fetches of a pool: the next one that waits is started, or the question of
one that is under way is answered. -/
inductive FetchMove where
  | start
  | reply (position : Nat)

namespace FetchPool

/-- A fetch comes to a step: it is answered, or goes on its way with a question. -/
def arrive (p : FetchPool) (t : Target) : FetchStep → FetchPool
  | .finished answer => { p with answers := p.answers ++ [(t.index, answer)] }
  | step => { p with pending := p.pending ++ [{ target := t, step, due := 0 }] }

/-- The step after the reply to a question. -/
def stepAfter (status? : String → CallName → Outcome (Option StatusRecord))
    (output? : String → CallName → Outcome (Option OutputRecord)) (p : FetchPool) (t : Target) :
    FetchStep → FetchStep
  | .askStatus => t.afterStatus p.download (status? p.backend t.key)
  | .askOutput known => Target.afterOutput known (output? p.backend t.key)
  | .finished answer => .finished answer

/-- A move, if it is possible. A fetch is started only if there is room. -/
def move (status? : String → CallName → Outcome (Option StatusRecord))
    (output? : String → CallName → Outcome (Option OutputRecord)) (p : FetchPool) :
    FetchMove → Option FetchPool
  | .start =>
    match p.waiting with
    | [] => none
    | t :: rest =>
      if p.pending.length < p.capacity then
        some ({ p with waiting := rest }.arrive t (t.first p.download))
      else none
  | .reply k => (p.pending[k]?).map fun f =>
    { p with pending := p.pending.eraseIdx k }.arrive f.target
      (p.stepAfter status? output? f.target f.step)

/-- Moves one after the other, if all of them are possible. -/
def run (status? : String → CallName → Outcome (Option StatusRecord))
    (output? : String → CallName → Outcome (Option OutputRecord)) (p : FetchPool) :
    List FetchMove → Option FetchPool
  | [] => some p
  | m :: rest => (p.move status? output? m).bind (·.run status? output? rest)

/-- The pool in which the members of a unit are fetched. However small it is, there is room for one
of them. -/
def ofTargets (backend : String) (download : Bool) (poolSize : Nat) (targets : List Target) :
    FetchPool :=
  { backend, download, capacity := max poolSize 1, waiting := targets }

variable {replies : Replies} {targets : List Target} {p q : FetchPool}

/-- Whatever a fetch comes to, it is not lost. -/
theorem Serving.arrive {f : RunnableFetch} (serving : p.Serving replies targets [f])
    {step : FetchStep} (comes : f.target.Comes replies p.backend p.download step) :
    (p.arrive f.target step).Serving replies targets [] := by
  have member := (serving.runnable f (List.mem_singleton_self f)).1
  by_cases left : 0 < step.rank
  · have goesOn : p.arrive f.target step =
        { p with pending := p.pending ++ [{ target := f.target, step, due := 0 }] } := by
      cases step with
      | finished answer => cases left
      | _ => rfl
    rw [goesOn]
    refine ⟨?_, serving.waiting, ?_, fun _ none => absurd none List.not_mem_nil, serving.answers⟩
    · refine List.Perm.trans (.append_left _ ?_) serving.indexes
      simp only [List.map_append, List.map_cons, List.map_nil, List.nil_append, List.append_assoc,
        List.singleton_append]
      exact List.perm_middle
    · intro g listed
      rcases List.mem_append.mp listed with old | last
      · exact serving.pending g old
      · rw [List.mem_singleton.mp last]
        exact ⟨member, left, comes⟩
  · obtain ⟨answer, rfl⟩ : ∃ answer, step = .finished answer := by
      cases step with
      | finished answer => exact ⟨answer, rfl⟩
      | askOutput known => exact absurd Nat.one_pos left
      | askStatus => exact absurd Nat.two_pos left
    refine ⟨?_, serving.waiting, serving.pending, fun _ none => absurd none List.not_mem_nil, ?_⟩
    · refine List.Perm.trans ?_ serving.indexes
      simp only [FetchPool.arrive, List.map_append, List.map_cons, List.map_nil, List.append_assoc,
        List.nil_append]
      exact List.Perm.refl _
    · intro x listed
      rcases List.mem_append.mp listed with old | last
      · exact serving.answers x old
      · rw [List.mem_singleton.mp last]
        exact ⟨f.target, member, rfl, comes⟩

theorem effort_arrive (p : FetchPool) (t : Target) (step : FetchStep) :
    (p.arrive t step).effort = p.effort + step.rank := by
  cases step <;> simp [arrive, effort, FetchStep.rank, Nat.add_assoc]

theorem SameKind.arrive (kind : p.SameKind q) (t : Target) (step : FetchStep) :
    p.SameKind (q.arrive t step) := by
  cases step <;> exact ⟨kind.backend, kind.download, kind.capacity⟩

section
variable {status? : String → CallName → Outcome (Option StatusRecord)}
  {output? : String → CallName → Outcome (Option OutputRecord)}

/-- The reply to a question brings a fetch closer to its answer. -/
theorem stepAfter_comes {t : Target} {step : FetchStep} (left : 0 < step.rank)
    (comes : t.Comes (.fixed status? output?) p.backend p.download step) :
    t.Comes (.fixed status? output?) p.backend p.download (p.stepAfter status? output? t step) ∧
      (p.stepAfter status? output? t step).rank < step.rank := by
  cases step with
  | askStatus => exact ⟨comes.status rfl, Nat.lt_succ_of_le (t.rank_afterStatus _ _)⟩
  | askOutput known => exact ⟨comes.output rfl, Nat.one_pos⟩
  | finished answer => cases left

/-- A move loses no fetch and leaves less to do. -/
theorem Serving.move (serving : p.Serving (.fixed status? output?) targets []) {m : FetchMove}
    (moves : p.move status? output? m = some q) :
    q.Serving (.fixed status? output?) targets [] ∧ p.SameKind q ∧ q.effort < p.effort := by
  cases m with
  | start =>
    simp only [FetchPool.move] at moves
    split at moves
    · cases moves
    · next t rest waiting =>
      split at moves
      · cases moves
        let f : RunnableFetch := { target := t, step := t.first p.download, asked := false }
        have some : ({ p with waiting := rest } : FetchPool).Serving (.fixed status? output?)
            targets [f] := by
          refine ⟨?_, fun t' later => serving.waiting t' (waiting ▸ .tail t later),
            serving.pending, ?_, serving.answers⟩
          · refine List.Perm.trans (.append_left _ ?_) serving.indexes
            rw [waiting]
            show (t.index :: (p.pending.map _ ++ rest.map _)).Perm (_ ++ t.index :: rest.map _)
            exact List.perm_middle.symm
          · intro g listed
            rw [List.mem_singleton.mp listed]
            exact ⟨serving.waiting t (waiting ▸ List.mem_cons_self), nofun, .first⟩
        have kind : p.SameKind { p with waiting := rest } := ⟨rfl, rfl, rfl⟩
        refine ⟨some.arrive .first, kind.arrive t _, ?_⟩
        have few := t.rank_first p.download
        rw [effort_arrive, effort, effort, waiting, List.length_cons]
        show 3 * rest.length + (p.pending.map (·.step.rank)).sum + _ < _
        omega
      · cases moves
  | reply k =>
    obtain ⟨f, found, rfl⟩ := Option.map_eq_some_iff.mp moves
    obtain ⟨below, rfl⟩ := List.getElem?_eq_some_iff.mp found
    have listed := List.getElem_mem below
    obtain ⟨member, left, comes⟩ := serving.pending _ listed
    obtain ⟨comes', less⟩ := stepAfter_comes left comes
    have others := List.getElem_cons_eraseIdx_perm below
    let f : RunnableFetch :=
      { target := p.pending[k].target, step := p.pending[k].step, asked := true }
    have some : ({ p with pending := p.pending.eraseIdx k } : FetchPool).Serving
        (.fixed status? output?) targets [f] := by
      refine ⟨?_, serving.waiting, fun g rest => serving.pending g (List.mem_of_mem_eraseIdx rest),
        ?_, serving.answers⟩
      · refine List.Perm.trans (.append_left _ ?_) serving.indexes
        exact (others.map (·.target.index)).append_right _
      · intro g last
        rw [List.mem_singleton.mp last]
        exact ⟨member, fun _ => left, comes⟩
    have kind : p.SameKind { p with pending := p.pending.eraseIdx k } := ⟨rfl, rfl, rfl⟩
    refine ⟨some.arrive comes', kind.arrive _ _, ?_⟩
    have sum := (others.map (·.step.rank)).sum_eq
    rw [List.map_cons, List.sum_cons] at sum
    rw [effort_arrive, effort, effort]
    show 3 * p.waiting.length + ((p.pending.eraseIdx k).map (·.step.rank)).sum + _ < _
    omega

/-- As long as a fetch is unanswered, there is a move. -/
theorem exists_move (room : 0 < p.capacity) (left : p.isDone = false) :
    ∃ m q, p.move status? output? m = some q := by
  cases pending : p.pending with
  | cons f rest =>
    have goesOn : (p.move status? output? (.reply 0)).isSome = true := by
      rw [move, pending]
      rfl
    exact ⟨_, Option.isSome_iff_exists.mp goesOn⟩
  | nil =>
    cases waiting : p.waiting with
    | nil =>
      rw [isDone, pending, waiting] at left
      cases left
    | cons t rest =>
      have starts : (p.move status? output? .start).isSome = true := by
        simp only [move, waiting, pending, List.length_nil, if_pos room, Option.isSome_some]
      exact ⟨_, Option.isSome_iff_exists.mp starts⟩

theorem Serving.run {moves : List FetchMove}
    (serving : p.Serving (.fixed status? output?) targets [])
    (runs : p.run status? output? moves = some q) :
    q.Serving (.fixed status? output?) targets [] ∧ p.SameKind q ∧
      moves.length + q.effort ≤ p.effort := by
  induction moves generalizing p with
  | nil =>
    cases runs
    exact ⟨serving, ⟨rfl, rfl, rfl⟩, Nat.le_of_eq (Nat.zero_add _)⟩
  | cons m rest ih =>
    obtain ⟨middle, first, later⟩ := Option.bind_eq_some_iff.mp runs
    obtain ⟨serving', kind, less⟩ := serving.move first
    obtain ⟨serving'', kind', fewer⟩ := ih serving' later
    refine ⟨serving'', kind.trans kind', ?_⟩
    rw [List.length_cons]
    omega

end

/-- A pool whose fetches go on at some moments. What surrounds it may change between them. -/
def wakes : List (Surroundings × Nat) → FetchPool × FetchLog → FetchPool × FetchLog
  | [], s => s
  | (sur, now) :: rest, s => wakes rest (s.1.wake sur now s.2)

theorem Serving.wakes {moments : List (Surroundings × Nat)}
    (within : ∀ m ∈ moments, m.1.Within replies) {s : FetchPool × FetchLog}
    (serving : s.1.Serving replies targets []) :
    (FetchPool.wakes moments s).1.Serving replies targets [] ∧
      s.1.SameKind (FetchPool.wakes moments s).1 := by
  induction moments generalizing s with
  | nil => exact ⟨serving, rfl, rfl, rfl⟩
  | cons m rest ih =>
    have driven := wake_driven (within m List.mem_cons_self) m.2 serving s.2
    obtain ⟨serving', kind⟩ := ih (fun m' later => within m' (List.mem_cons_of_mem m later))
      driven.serving
    exact ⟨serving', driven.kind.trans kind⟩

section
variable {status? : String → CallName → Outcome (Option StatusRecord)}
  {output? : String → CallName → Outcome (Option OutputRecord)}

/-- A pool of any size comes to the answers to its fetches, after three moves for each at most. -/
theorem run_ofTargets {backend : String} {download : Bool} {poolSize : Nat} {moves : List FetchMove}
    (runs : (ofTargets backend download poolSize targets).run status? output? moves = some p) :
    moves.length ≤ 3 * targets.length ∧
      (p.isDone = false → ∃ m q, p.move status? output? m = some q) ∧
      (p.isDone = true →
        Answers (.fixed status? output?) backend download targets p.answers) := by
  have fresh := serving_new (.fixed status? output?) backend download (max poolSize 1) targets
  obtain ⟨serving, kind, fewer⟩ := fresh.run runs
  refine ⟨Nat.le_trans (Nat.le_add_right _ _) fewer, exists_move ?_, fun done => ?_⟩
  · rw [kind.capacity]
    exact Nat.lt_of_lt_of_le Nat.one_pos (Nat.le_max_right poolSize 1)
  · have fetched := serving.done done
    rwa [kind.backend, kind.download] at fetched

end

/-- So does a pool whose fetches take time. -/
theorem wakes_ofTargets {backend : String} {download : Bool} {poolSize : Nat} {sur : Surroundings}
    {moments : List (Surroundings × Nat)} (within : sur.Within replies)
    (all : ∀ m ∈ moments, m.1.Within replies) (now : Nat) (log : FetchLog) :
    let q := (FetchPool.wakes moments
      ((ofTargets backend download poolSize targets).start sur now log)).1
    q.isDone = true → Answers replies backend download targets q.answers := by
  intro q done
  have fresh := serving_new replies backend download (max poolSize 1) targets
  have started := start_driven within now fresh log
  obtain ⟨serving, kind⟩ := started.serving.wakes all
  have fetched := serving.done done
  rwa [kind.backend, kind.download, started.kind.backend, started.kind.download] at fetched

end FetchPool

/-! ## Polling a unit -/

namespace Wait

variable {μ : Type} [Watcher μ] {w : Wait μ} {i : Nat} {u : WaitUnit}

/-- A wait that has polled its next unit with a pool of some size, after the fetches of the unit
have been answered. -/
def polled (w : Wait μ) (cancelled : Bool) (poolSize : Nat)
    (answers : List (Nat × Outcome FetchAnswer)) : Wait μ :=
  ({ w with terms := { w.terms with poolSize } }.pollNext cancelled).answer answers

/-- What a wait does after a unit has been polled: it turns to the next, or ends with an error. -/
def phaseAfter (unit : Nat) : Option DispatchError → Phase
  | none => .polling (unit + 1)
  | some e => .finished (.error e)

theorem polled_of_no_targets (polling : w.phase = .polling i)
    (unit : w.state.units[i]? = some u) (none : w.state.targets w.terms.download u = [])
    (cancelled : Bool) (poolSize : Nat) (answers : List (Nat × Outcome FetchAnswer)) :
    (w.polled cancelled poolSize answers).state = w.state ∧
      (w.polled cancelled poolSize answers).phase = .polling (i + 1) := by
  unfold polled pollNext
  simp only [polling, unit, none, answer, and_self]

theorem polled_of_targets (polling : w.phase = .polling i)
    (unit : w.state.units[i]? = some u) (some : w.state.targets w.terms.download u ≠ [])
    (cancelled : Bool) (poolSize : Nat) (answers : List (Nat × Outcome FetchAnswer)) :
    (w.polled cancelled poolSize answers).state =
        (w.state.settle w.provider w.terms answers).1 ∧
      (w.polled cancelled poolSize answers).phase =
        phaseAfter i (w.state.settle w.provider w.terms answers).2 := by
  obtain ⟨t, rest, targets⟩ := List.exists_cons_of_ne_nil some
  have same : w.state.settle w.provider { w.terms with poolSize } answers =
      w.state.settle w.provider w.terms answers := rfl
  unfold polled pollNext
  simp only [polling, unit, targets, answer, same]
  generalize w.state.settle w.provider w.terms answers = settled
  obtain ⟨state, _ | e⟩ := settled
  · exact ⟨rfl, rfl⟩
  · exact ⟨rfl, rfl⟩

/-- The answers to the fetches of a unit, one member after the other, from stores with one reply to
each question. -/
def replies (w : Wait μ) (u : WaitUnit)
    (status? : String → CallName → Outcome (Option StatusRecord))
    (output? : String → CallName → Outcome (Option OutputRecord)) :
    List (Nat × Outcome FetchAnswer) :=
  (w.state.targets w.terms.download u).map
    (·.reply w.terms.download (status? u.backend) (output? u.backend))

/-- A wait that has polled its next unit, one member after the other. -/
def polledInTurn (w : Wait μ) (u : WaitUnit)
    (status? : String → CallName → Outcome (Option StatusRecord))
    (output? : String → CallName → Outcome (Option OutputRecord)) : Wait μ :=
  w.polled false w.terms.poolSize (w.replies u status? output?)

variable {status? : String → CallName → Outcome (Option StatusRecord)}
  {output? : String → CallName → Outcome (Option OutputRecord)}

theorem consistent_replies : Consistent (w.replies u status? output?) := by
  intro x listed y listed' same
  obtain ⟨t, member, rfl⟩ := List.mem_map.mp listed
  obtain ⟨t', member', rfl⟩ := List.mem_map.mp listed'
  rw [WaitState.eq_of_index member' member same]

/-- In whatever order the answers come, polling a unit comes to what fetching its members one after
the other comes to. -/
theorem polled_of_answers (polling : w.phase = .polling i) (unit : w.state.units[i]? = some u)
    {answers : List (Nat × Outcome FetchAnswer)}
    (fetched : Answers (.fixed status? output?) u.backend w.terms.download
      (w.state.targets w.terms.download u) answers) (cancelled : Bool) (poolSize : Nat) :
    (w.polled cancelled poolSize answers).state = (w.polledInTurn u status? output?).state ∧
      (w.polled cancelled poolSize answers).phase = (w.polledInTurn u status? output?).phase := by
  by_cases none : w.state.targets w.terms.download u = []
  · obtain ⟨state, phase⟩ := polled_of_no_targets polling unit none cancelled poolSize answers
    obtain ⟨state', phase'⟩ := polled_of_no_targets polling unit none false w.terms.poolSize
      (w.replies u status? output?)
    exact ⟨state.trans state'.symm, phase.trans phase'.symm⟩
  · have perm : answers.Perm (w.replies u status? output?) :=
      fetched.perm_replies fun t member t' member' => WaitState.eq_of_index member member'
    have sorted := sortAnswers_eq_of_perm perm (.of_perm perm consistent_replies)
    have settled : w.state.settle w.provider w.terms answers =
        w.state.settle w.provider w.terms (w.replies u status? output?) := by
      unfold WaitState.settle
      rw [sorted]
    obtain ⟨state, phase⟩ := polled_of_targets polling unit none cancelled poolSize answers
    obtain ⟨state', phase'⟩ := polled_of_targets polling unit none false w.terms.poolSize
      (w.replies u status? output?)
    rw [settled] at state phase
    exact ⟨state.trans state'.symm, phase.trans phase'.symm⟩

/-- The first error recorded is raised, and all replies are taken in. -/
theorem polledInTurn_eq (polling : w.phase = .polling i) (unit : w.state.units[i]? = some u)
    (opens : ∀ before backend, w.provider.openBackend before backend = .ok ()) :
    (w.polledInTurn u status? output?).phase =
        phaseAfter i ((sortAnswers (w.replies u status? output?)).findSome?
          (raisedAt w.terms w.state.futures)) ∧
      (w.polledInTurn u status? output?).state.futures =
        absorbed w.terms (w.replies u status? output?) w.state.futures := by
  by_cases none : w.state.targets w.terms.download u = []
  · obtain ⟨state, phase⟩ := polled_of_no_targets polling unit none false w.terms.poolSize
      (w.replies u status? output?)
    have empty : w.replies u status? output? = [] := List.map_eq_nil_iff.mpr none
    have unsorted : sortAnswers [] = [] := (sortAnswers_perm []).eq_nil
    constructor
    · rw [empty, unsorted]
      exact phase
    · refine (congrArg WaitState.futures state).trans ?_
      rw [empty, absorbed, recordAll, unsorted, List.foldl_nil, List.map_nil, List.append_nil]
  · obtain ⟨state, phase⟩ := polled_of_targets polling unit none false w.terms.poolSize
      (w.replies u status? output?)
    obtain ⟨after, settled, futures⟩ :=
      WaitState.settle_of_opens opens w.terms (w.replies u status? output?) w.state
    rw [settled] at state phase
    rw [firstError_recordAll] at phase
    exact ⟨phase, (congrArg WaitState.futures state).trans futures⟩

theorem phaseAfter_eq_finished_iff {error? : Option DispatchError} {e : DispatchError} :
    phaseAfter i error? = .finished (.error e) ↔ error? = some e := by
  cases error? with
  | none => simp [phaseAfter]
  | some e' => simp [phaseAfter]

/-- The error raised is that of the member at the lowest position to raise one. -/
theorem polledInTurn_raises_iff (polling : w.phase = .polling i)
    (unit : w.state.units[i]? = some u)
    (opens : ∀ before backend, w.provider.openBackend before backend = .ok ()) (e : DispatchError) :
    let targets := w.state.targets w.terms.download u
    let raises (t : Target) := raisedAt w.terms w.state.futures
      (t.reply w.terms.download (status? u.backend) (output? u.backend))
    (w.polledInTurn u status? output?).phase = .finished (.error e) ↔
      ∃ t ∈ targets, raises t = some e ∧
        ∀ t' ∈ targets, t'.index < t.index → raises t' = none := by
  intro targets raises
  rw [(polledInTurn_eq polling unit opens).1, phaseAfter_eq_finished_iff,
    findSome?_sortAnswers_eq_some_iff consistent_replies]
  constructor
  · rintro ⟨x, listed, raised, quiet⟩
    obtain ⟨t, member, rfl⟩ := List.mem_map.mp listed
    exact ⟨t, member, raised, fun t' member' => quiet _ (List.mem_map_of_mem member')⟩
  · rintro ⟨t, member, raised, quiet⟩
    refine ⟨_, List.mem_map_of_mem member, raised, fun y listed below => ?_⟩
    obtain ⟨t', member', rfl⟩ := List.mem_map.mp listed
    exact quiet t' member' below

/-- Polling a unit does not depend on how its fetches are scheduled, as long as each question has
one reply and backends open. Whatever the size of the pool, and in whatever order its fetches go on,
they all end, and the wait is left as if the members had been fetched one after the other; so it is
where fetches take time, however long each does. The error raised is that of the member at the
lowest position to raise one, and all that was fetched is recorded regardless of it. -/
theorem polling_is_confluent (polling : w.phase = .polling i)
    (unit : w.state.units[i]? = some u)
    (opens : ∀ before backend, w.provider.openBackend before backend = .ok ())
    (status? : String → CallName → Outcome (Option StatusRecord))
    (output? : String → CallName → Outcome (Option OutputRecord)) :
    let targets := w.state.targets w.terms.download u
    let reply := Target.reply w.terms.download (status? u.backend) (output? u.backend)
    let raises (t : Target) := raisedAt w.terms w.state.futures (reply t)
    let inTurn := w.polledInTurn u status? output?
    let pool (poolSize : Nat) := FetchPool.ofTargets u.backend w.terms.download poolSize targets
    (∀ poolSize moves p, (pool poolSize).run status? output? moves = some p →
      moves.length ≤ 3 * targets.length ∧
      (p.isDone = false → ∃ m next, p.move status? output? m = some next) ∧
      (p.isDone = true → ∀ cancelled,
        (w.polled cancelled poolSize p.answers).state = inTurn.state ∧
        (w.polled cancelled poolSize p.answers).phase = inTurn.phase)) ∧
    (∀ (poolSize : Nat) (sur : Surroundings) (now : Nat) (moments : List (Surroundings × Nat))
        (log : FetchLog), sur.Within (.fixed status? output?) →
      (∀ m ∈ moments, m.1.Within (.fixed status? output?)) →
      let p := (FetchPool.wakes moments ((pool poolSize).start sur now log)).1
      p.isDone = true → ∀ cancelled,
        (w.polled cancelled poolSize p.answers).state = inTurn.state ∧
        (w.polled cancelled poolSize p.answers).phase = inTurn.phase) ∧
    ((∀ t ∈ targets, raises t = none) → inTurn.phase = .polling (i + 1)) ∧
    (∀ e, inTurn.phase = .finished (.error e) ↔ ∃ t ∈ targets, raises t = some e ∧
      ∀ t' ∈ targets, t'.index < t.index → raises t' = none) ∧
    (∀ t ∈ targets, inTurn.state.futures[t.index]? =
      (w.state.futures[t.index]?).map (·.recorded w.terms.throwing (reply t).2)) ∧
    ∀ j < w.state.futures.length, (∀ t ∈ targets, t.index ≠ j) →
      inTurn.state.futures[j]? = w.state.futures[j]? := by
  intro targets reply raises inTurn pool
  obtain ⟨phase, futures⟩ := polledInTurn_eq polling unit opens
  refine ⟨fun poolSize moves p runs => ?_,
    fun poolSize sur now moments log within all done cancelled => ?_, fun quiet => ?_,
    polledInTurn_raises_iff polling unit opens, ?_, ?_⟩
  · obtain ⟨bounded, goesOn, fetched⟩ := FetchPool.run_ofTargets runs
    exact ⟨bounded, goesOn, fun done cancelled =>
      polled_of_answers polling unit (fetched done) cancelled poolSize⟩
  · have fetched := FetchPool.wakes_ofTargets within all now log done
    exact polled_of_answers polling unit fetched cancelled poolSize
  · rw [phase, List.findSome?_eq_none_iff.mpr, phaseAfter]
    intro x sorted
    obtain ⟨t, member, rfl⟩ := List.mem_map.mp ((sortAnswers_perm _).mem_iff.mp sorted)
    exact quiet t member
  · intro t member
    obtain ⟨_, _, f, found, -, -, rfl⟩ := WaitState.mem_targets.mp member
    have below := (List.getElem?_eq_some_iff.mp found).1
    rw [futures]
    exact (WaitState.getElem?_absorbed consistent_replies w.state.futures below).1 _
      (List.mem_map_of_mem member) rfl
  · intro j below absent
    rw [futures]
    refine (WaitState.getElem?_absorbed consistent_replies w.state.futures below).2 fun listed => ?_
    obtain ⟨x, inside, rfl⟩ := List.mem_map.mp listed
    obtain ⟨t, member, rfl⟩ := List.mem_map.mp inside
    exact absent t member rfl

end Wait

namespace Mingled

/-- The calls of a job that are waited for. -/
def call (id : String) : CallName := ⟨"e", "j", id⟩

/-- The first call has dispatched another, the second cannot be asked about, and the third has
failed. -/
def status? (_ : String) (key : CallName) : Outcome (Option StatusRecord) :=
  if key = call "0" then .ok (some .ok)
  else if key = call "1" then .error (.storage "down")
  else .ok (some (.failure "bad"))

def output? (_ : String) (_ : CallName) : Outcome (Option OutputRecord) :=
  .ok (some (.calls [call "3"]))

/-- The unit of the calls. -/
def unit : WaitUnit where
  executorId := "e"
  jobId := "j"
  backend := "b"
  members := [0, 1, 2]

/-- A wait about to poll the unit, all members of which have been seen. -/
def wait : Wait ManualMonitor where
  terms := { download := true }
  provider := { openBackend := fun _ _ => .ok () }
  state :=
    { futures := ["0", "1", "2"].map fun id => { key := call id, backend := "b" }
      units := [unit]
      monitor := { seen := [("e-j", ["0", "1", "2"])] } }
  phase := .polling 0

def targets : List Target :=
  [⟨0, call "0", true, true⟩, ⟨1, call "1", true, true⟩, ⟨2, call "2", true, true⟩]

/-- One fetch after the other. -/
def inTurn : List FetchMove :=
  [.start, .reply 0, .reply 0, .start, .reply 0, .start, .reply 0]

/-- All fetches at once, the last of them answered first. -/
def backwards : List FetchMove :=
  [.start, .start, .start, .reply 2, .reply 1, .reply 0, .reply 0]

theorem polling_is_confluent_mingled : ∃ one many : FetchPool,
    (FetchPool.ofTargets "b" true 0 targets).run status? output? inTurn = some one ∧
    (FetchPool.ofTargets "b" true 3 targets).run status? output? backwards = some many ∧
    one.answers.map (·.1) = [0, 1, 2] ∧ many.answers.map (·.1) = [2, 1, 0] ∧
    (wait.polled false 3 many.answers).state = (wait.polled false 0 one.answers).state ∧
    (wait.polled false 3 many.answers).phase = .finished (.error (.storage "down")) ∧
    ((wait.polled false 3 many.answers).state.futures[0]?).map (·.children) =
      some [call "3"] ∧
    ((wait.polled false 3 many.answers).state.futures[2]?).map (·.done) = some true := by
  have ends : ((FetchPool.ofTargets "b" true 0 targets).run status? output? inTurn).any
      (fun p => p.isDone && p.answers.map (·.1) = [0, 1, 2]) = true := by decide +kernel
  have ends' : ((FetchPool.ofTargets "b" true 3 targets).run status? output? backwards).any
      (fun p => p.isDone && p.answers.map (·.1) = [2, 1, 0]) = true := by decide +kernel
  obtain ⟨one, runs, at_⟩ := (Option.any_eq_true _ _).mp ends
  obtain ⟨many, runs', at'⟩ := (Option.any_eq_true _ _).mp ends'
  obtain ⟨done, order⟩ := Bool.and_eq_true_iff.mp at_
  obtain ⟨done', order'⟩ := Bool.and_eq_true_iff.mp at'
  have asked : wait.state.targets true unit = targets := by decide +kernel
  have confluent := wait.polling_is_confluent rfl (rfl : wait.state.units[0]? = some unit)
    (fun _ _ => rfl) status? output?
  simp only [show wait.terms.download = true from rfl, asked] at confluent
  obtain ⟨schedules, -, -, raised, recorded, -⟩ := confluent
  obtain ⟨state, -⟩ := (schedules 0 inTurn one runs).2.2 done false
  obtain ⟨state', phase'⟩ := (schedules 3 backwards many runs').2.2 done' false
  refine ⟨one, many, runs, runs', of_decide_eq_true order, of_decide_eq_true order',
    state'.trans state.symm, phase'.trans ((raised _).mpr ?_), ?_, ?_⟩
  · refine ⟨⟨1, call "1", true, true⟩, by decide, rfl, fun t member below => ?_⟩
    rcases List.mem_cons.mp member with rfl | later
    · rfl
    · have above : ∀ t ∈ targets.tail, 1 ≤ t.index := by decide
      exact absurd below (Nat.not_lt.mpr (above t later))
  · rw [state', recorded ⟨0, call "0", true, true⟩ (by decide)]
    rfl
  · rw [state', recorded ⟨2, call "2", true, true⟩ (by decide)]
    rfl

end Mingled

end CallDispatch
