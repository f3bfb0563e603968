import CallDispatch.Proofs.Tracking.Lineage

/-!
# Wait sets over fixed stores

Over stores that do not change, a future goes through few stages: nothing is known of it, its status
is known, or its output has been recorded too. What is appended to a wait set then are calls that
the stores list as dispatched, so that a wait set never leaves the graph of calls that can be
reached from it.
-/

namespace CallDispatch

/-- Replies that are true to some stores: whatever they find is what these hold. -/
structure Replies.IsTrueTo (replies : Replies) (stores : Stores) : Prop where
  status : ∀ backend key found, replies.status backend key (.ok found) →
    stores.status? backend key = .ok found
  output : ∀ backend key found, replies.output backend key (.ok found) →
    stores.output? backend key = .ok found

theorem Replies.fixed_isTrueTo (stores : Stores) :
    (fixed stores.status? stores.output?).IsTrueTo stores where
  status _ _ _ replied := replied.symm
  output _ _ _ replied := replied.symm

/-! ## The stages of a future -/

/-- The future of a call before anything is known of it. -/
def Future.bare (f : Future) : Future where
  key := f.key
  backend := f.backend
  produceOutput := f.produceOutput

/-- What the stores hold of the call of a future, recorded. -/
def Stores.outcome (stores : Stores) (f : Future) : Future :=
  match stores.status? f.backend f.key with
  | .ok (some s) =>
    if s.success && f.produceOutput then
      match stores.output? f.backend f.key with
      | .ok (some o) => (f.bare.withStatus s).withOutput o
      | _ => f.bare.withStatus s
    else f.bare.withStatus s
  | _ => f.bare

namespace Future

variable {stores : Stores} {f g : Future}

/-- How far the recording of what the stores hold has come. -/
inductive Stage (stores : Stores) (f : Future) : Prop where
  | unknown : f = f.bare → Stage stores f
  | seen (s : StatusRecord) : stores.status? f.backend f.key = .ok (some s) →
      f = f.bare.withStatus s → Stage stores f
  | settled (s : StatusRecord) (o : OutputRecord) :
      stores.status? f.backend f.key = .ok (some s) →
      stores.output? f.backend f.key = .ok (some o) → s.success = true → f.produceOutput = true →
      f = (f.bare.withStatus s).withOutput o → Stage stores f

theorem withStatus_bare (s : StatusRecord) : (f.withStatus s).bare = f.bare := by
  unfold withStatus
  split
  · rfl
  · split <;> rfl

/-- Of a call whose status leaves its outcome open, the output is still to come. -/
theorem open_withStatus_bare {s : StatusRecord} :
    (f.bare.withStatus s).done = false ↔ s.success = true ∧ f.produceOutput = true := by
  rw [withStatus_done]
  simp [bare]

theorem withOutput_bare (o : OutputRecord) : (f.withOutput o).bare = f.bare := by
  cases o <;> rfl

theorem key_of_bare (same : g.bare = f.bare) : g.key = f.key :=
  (congrArg Future.key same : g.bare.key = f.bare.key)

theorem backend_of_bare (same : g.bare = f.bare) : g.backend = f.backend :=
  (congrArg Future.backend same : g.bare.backend = f.bare.backend)

theorem produceOutput_of_bare (same : g.bare = f.bare) : g.produceOutput = f.produceOutput :=
  (congrArg Future.produceOutput same : g.bare.produceOutput = f.bare.produceOutput)

/-- A fresh future is at its first stage. -/
theorem IsFresh.stage (fresh : f.IsFresh) : f.Stage stores := by
  refine .unknown ?_
  obtain ⟨ready, done, status, captured, children⟩ := fresh
  cases f
  simp_all [bare]

theorem Stage.status_of_unknown (same : f = f.bare) : f.status = none := by
  rw [same]
  rfl

/-- Where no status is known, nothing is. -/
theorem Stage.isBare (staged : f.Stage stores) (unknown : f.status = none) : f = f.bare := by
  cases staged with
  | unknown isBare => exact isBare
  | seen s _ isSeen =>
    rw [isSeen, withStatus_status] at unknown
    cases unknown
  | settled s o _ _ _ _ isSettled =>
    rw [isSettled, withOutput_status, withStatus_status] at unknown
    cases unknown

/-- Recording the answer of the own store leads from stage to stage. -/
theorem Stage.recorded {replies : Replies} {download : Bool} {index : Nat}
    {answer : Outcome FetchAnswer} (staged : f.Stage stores) (isTrue : replies.IsTrueTo stores)
    (throwing : Bool) (open_ : f.isComplete download = false)
    (comes : (f.target index).Comes replies f.backend download (.finished answer)) :
    (f.recorded throwing answer).Stage stores ∧ (f.recorded throwing answer).bare = f.bare := by
  have notDone := done_of_open open_
  -- Where the status is known, the future is ready, and a wait for statuses passes it over.
  have downloads (s : StatusRecord) (same : f = f.bare.withStatus s) : download = true := by
    cases download with
    | true => rfl
    | false =>
      rw [same, isComplete, withStatus_ready] at open_
      cases open_
  rcases recorded_cases throwing comes with same | ⟨s, same, replied, fetched⟩ |
      ⟨o, same, known, replied, -⟩ | ⟨s, o, same, success, produces, unknown, replied, replied', -⟩
  · rw [same]
    exact ⟨staged, rfl⟩
  · rw [same]
    have kept := f.withStatus_bare s
    refine ⟨?_, kept⟩
    have status := isTrue.status _ _ _ replied
    have unknown : f.status = none := by
      cases staged with
      | unknown isBare => exact Stage.status_of_unknown isBare
      | seen s' _ isSeen => exact fetched (downloads s' isSeen)
      | settled s' o' _ _ _ _ isSettled =>
        rw [isSettled, withOutput_done] at notDone
        cases notDone
    have isBare := staged.isBare unknown
    refine .seen s ?_ ?_
    · rw [backend_of_bare kept, key_of_bare kept]
      exact status
    · rw [kept, ← isBare]
  · rw [same]
    have kept := f.withOutput_bare o
    refine ⟨?_, kept⟩
    have output := isTrue.output _ _ _ replied
    cases staged with
    | unknown isBare => exact absurd (Stage.status_of_unknown isBare) known
    | seen s status isSeen =>
      obtain ⟨success, produces⟩ := open_withStatus_bare.mp (isSeen ▸ notDone)
      refine .settled s o ?_ ?_ success ?_ ?_
      · rw [backend_of_bare kept, key_of_bare kept]
        exact status
      · rw [backend_of_bare kept, key_of_bare kept]
        exact output
      · rw [produceOutput_of_bare kept]
        exact produces
      · rw [kept, ← isSeen]
    | settled s' o' _ _ _ _ isSettled =>
      rw [isSettled, withOutput_done] at notDone
      cases notDone
  · rw [same]
    have kept : ((f.withStatus s).withOutput o).bare = f.bare :=
      (withOutput_bare o).trans (withStatus_bare s)
    refine ⟨?_, kept⟩
    have isBare := staged.isBare unknown
    refine .settled s o ?_ ?_ success ?_ ?_
    · rw [backend_of_bare kept, key_of_bare kept]
      exact isTrue.status _ _ _ replied
    · rw [backend_of_bare kept, key_of_bare kept]
      exact isTrue.output _ _ _ replied'
    · rw [produceOutput_of_bare kept]
      exact produces
    · rw [kept, ← isBare]

/-- Where the stores hold the outcome of its call, an open future that is fetched becomes done. -/
theorem Stage.fetched {index : Nat} {answer : Outcome FetchAnswer} (staged : f.Stage stores)
    (open_ : f.done = false) (status : ∃ s, stores.status? f.backend f.key = .ok (some s))
    (output : ∀ s, stores.status? f.backend f.key = .ok (some s) → s.success = true →
      f.produceOutput = true → ∃ o, stores.output? f.backend f.key = .ok (some o))
    (comes : (f.target index).Comes (.fixed stores.status? stores.output?) f.backend true
      (.finished answer)) :
    (∃ a, answer = .ok a) ∧ (f.recorded false answer).done = true := by
  have same := comes.eq_fetch
  subst same
  obtain ⟨s, replied⟩ := status
  cases staged with
  | unknown isBare =>
    have none := Stage.status_of_unknown isBare
    cases success : s.success with
    | false =>
      have answers : (f.target index).fetch true (stores.status? f.backend)
          (stores.output? f.backend) = .ok (.result (some s) Option.none) := by
        simp [Target.fetch, Target.first, Target.afterStatus, target, none, replied, success]
      rw [answers]
      refine ⟨⟨_, rfl⟩, ?_⟩
      simp [Future.recorded, record, statusError?, failureMessage?_eq_some success, success]
    | true =>
      cases produces : f.produceOutput with
      | false =>
        have answers : (f.target index).fetch true (stores.status? f.backend)
            (stores.output? f.backend) = .ok (.result (some s) Option.none) := by
          simp [Target.fetch, Target.first, Target.afterStatus, target, none, replied, produces]
        rw [answers]
        refine ⟨⟨_, rfl⟩, ?_⟩
        simp [Future.recorded, record, statusError?, failureMessage?_eq_none success, produces]
      | true =>
        obtain ⟨o, found⟩ := output s replied success produces
        have answers : (f.target index).fetch true (stores.status? f.backend)
            (stores.output? f.backend) = .ok (.result (some s) (some o)) := by
          simp [Target.fetch, Target.first, Target.afterStatus, target, none, replied, produces,
            success, found, Except.map]
        rw [answers]
        refine ⟨⟨_, rfl⟩, ?_⟩
        simp [Future.recorded, record, statusError?, failureMessage?_eq_none success, open_,
          success, produces, withOutput_done]
  | seen s' status isSeen =>
    obtain ⟨success, produces⟩ := open_withStatus_bare.mp (isSeen ▸ open_)
    have known : f.status = some s' := by rw [isSeen, withStatus_status]
    obtain ⟨o, found⟩ := output s' status success produces
    have answers : (f.target index).fetch true (stores.status? f.backend)
        (stores.output? f.backend) = .ok (.result none (some o)) := by
      simp [Target.fetch, Target.first, target, known, produces, found, Except.map]
    rw [answers]
    refine ⟨⟨_, rfl⟩, ?_⟩
    simp [Future.recorded, record, open_, withOutput_done]
  | settled s' o _ _ _ _ isSettled =>
    rw [isSettled, withOutput_done] at open_
    cases open_

/-- A future that is done has recorded all that the stores hold of its call. -/
theorem Stage.eq_outcome (staged : f.Stage stores) (done : f.done = true) :
    f = stores.outcome f := by
  unfold Stores.outcome
  cases staged with
  | unknown isBare =>
    rw [isBare] at done
    cases done
  | seen s status isSeen =>
    have final : ¬ (s.success && f.produceOutput) = true := by
      intro passed
      have open_ := open_withStatus_bare.mpr (Bool.and_eq_true_iff.mp passed)
      rw [← isSeen, done] at open_
      cases open_
    rw [status]
    dsimp only
    rw [if_neg final]
    exact isSeen
  | settled s o status output success produces isSettled =>
    rw [status]
    dsimp only
    rw [if_pos (by rw [success, produces]; rfl), output]
    exact isSettled

/-- It then has the status that the stores hold. -/
theorem Stage.recorded_of_done (staged : f.Stage stores) (done : f.done = true) :
    f.done = true ∧ f = stores.outcome f ∧
      ∃ s, stores.status? f.backend f.key = .ok (some s) ∧ f.status = some s := by
  refine ⟨done, staged.eq_outcome done, ?_⟩
  cases staged with
  | unknown isBare =>
    rw [isBare] at done
    cases done
  | seen s status isSeen => exact ⟨s, status, by rw [isSeen, withStatus_status]⟩
  | settled s o status _ _ _ isSettled =>
    exact ⟨s, status, by rw [isSettled, withOutput_status, withStatus_status]⟩

end Future

/-! ## The graph of calls -/

namespace Stores

/-- The calls that a call dispatched, if it succeeded. -/
def callsOf (stores : Stores) (backend : String) (key : CallName) : List CallName :=
  match stores.status? backend key, stores.output? backend key with
  | .ok (some s), .ok (some (.calls keys)) => if s.success then keys else []
  | _, _ => []

/-- The futures of the calls that the call of a future dispatched, if it produces output. -/
def childrenOf (stores : Stores) (f : Future) : List Future :=
  if f.produceOutput then
    (stores.callsOf f.backend f.key).map fun key => .ofName (key, f.backend)
  else []

/-- One call dispatched another. -/
def Dispatches (stores : Stores) (f g : Future) : Prop := g ∈ stores.childrenOf f

/-- There is a chain of calls, each dispatched by the one before, of some length below a call. -/
def Chain (stores : Stores) : Nat → Future → Prop
  | 0, _ => True
  | n + 1, f => ∃ g ∈ stores.childrenOf f, Chain stores n g

/-- The calls that can be reached from a wait set. -/
def Reaches (stores : Stores) (set : List Future) (g : Future) : Prop :=
  ∃ f ∈ set, Relation.ReflTransGen stores.Dispatches f.bare g

variable {stores : Stores} {f g : Future}

theorem childrenOf_eq_of_bare (same : g.bare = f.bare) :
    stores.childrenOf g = stores.childrenOf f := by
  unfold childrenOf
  rw [Future.key_of_bare same, Future.backend_of_bare same, Future.produceOutput_of_bare same]

theorem chain_iff_of_bare (same : g.bare = f.bare) (n : Nat) :
    stores.Chain n g ↔ stores.Chain n f := by
  cases n with
  | zero => exact Iff.rfl
  | succ n => rw [Chain, Chain, childrenOf_eq_of_bare same]

theorem chain_of_succ {n : Nat} (chain : stores.Chain (n + 1) f) : stores.Chain n f := by
  induction n generalizing f with
  | zero => trivial
  | succ n ih =>
    obtain ⟨g, child, longer⟩ := chain
    exact ⟨g, child, ih longer⟩

theorem bare_of_child (child : g ∈ stores.childrenOf f) :
    g.bare = g ∧ g.backend = f.backend := by
  unfold childrenOf at child
  split at child
  · obtain ⟨key, -, rfl⟩ := List.mem_map.mp child
    exact ⟨rfl, rfl⟩
  · cases child

theorem Reaches.tail {set : List Future} (reached : stores.Reaches set f)
    (child : g ∈ stores.childrenOf f) : stores.Reaches set g := by
  obtain ⟨root, member, path⟩ := reached
  exact ⟨root, member, path.tail child⟩

end Stores

/-- What a future has recorded as dispatched is what the stores list. -/
theorem Future.Stage.child_of_dispatched {stores : Stores} {f : Future} (staged : f.Stage stores)
    {name : CallName × String} (listed : name ∈ f.dispatched) :
    Future.ofName name ∈ stores.childrenOf f := by
  cases staged with
  | unknown isBare =>
    rw [isBare] at listed
    cases listed
  | seen s _ isSeen =>
    rw [isSeen, dispatched, withStatus_children] at listed
    cases listed
  | settled s o status output success produces isSettled =>
    cases o with
    | value v =>
      rw [isSettled, dispatched] at listed
      have none : ((f.bare.withStatus s).withOutput (.value v)).children = [] :=
        f.bare.withStatus_children s
      rw [none] at listed
      cases listed
    | calls keys =>
      have children : f.children = keys := by rw [isSettled]; rfl
      rw [dispatched, children] at listed
      unfold Stores.childrenOf Stores.callsOf
      rw [if_pos produces, status, output]
      obtain ⟨key, member, rfl⟩ := List.mem_map.mp listed
      exact List.mem_map.mpr ⟨key, by simpa [success] using member, rfl⟩

/-- A future that is done has recorded all that the stores list as dispatched. -/
theorem Future.Stage.dispatched_of_child {stores : Stores} {f c : Future} (staged : f.Stage stores)
    (done : f.done = true) (child : c ∈ stores.childrenOf f) : c.name ∈ f.dispatched := by
  unfold Stores.childrenOf at child
  split at child
  · next produces =>
    obtain ⟨key, listed, rfl⟩ := List.mem_map.mp child
    unfold Stores.callsOf at listed
    split at listed
    · next s keys replied replied' =>
      split at listed
      · next success =>
        cases staged with
        | unknown isBare =>
          rw [isBare] at done
          cases done
        | seen s' status isSeen =>
          rw [isSeen, withStatus_done] at done
          rw [replied] at status
          cases status
          simp [bare, success, produces] at done
        | settled s' o _ output _ _ isSettled =>
          rw [replied'] at output
          cases output
          have children : f.children = keys := by
            rw [isSettled]
            rfl
          rw [dispatched, children]
          exact List.mem_map_of_mem listed
      · cases listed
    · cases listed
  · cases child

/-! ## Histories over fixed stores -/

section
variable {replies : Replies} {stores : Stores} {terms : WaitTerms}
  {answers : List (Nat × Outcome FetchAnswer)} {kept : List (CallName × String)}
  {earlier later : List Future}

/-- All futures with one joined key name one backend. -/
def HomesAgree (futures : List Future) : Prop :=
  ∀ f ∈ futures, ∀ g ∈ futures, g.jobKey = f.jobKey → g.backend = f.backend

theorem HomesAgree.of_names_prefix {futures longer : List Future} (homes : HomesAgree longer)
    (names : futures.map Future.name <+: longer.map Future.name) : HomesAgree futures := by
  have named (f : Future) (member : f ∈ futures) : ∃ f' ∈ longer, f'.name = f.name :=
    List.mem_map.mp (names.subset (List.mem_map_of_mem member))
  intro f member g member' same
  obtain ⟨f', inside, isF⟩ := named f member
  obtain ⟨g', inside', isG⟩ := named g member'
  have key : g'.jobKey = f'.jobKey :=
    (congrArg CallName.jobKey (Future.key_eq_of_name isG)).trans
      (same.trans (congrArg CallName.jobKey (Future.key_eq_of_name isF)).symm)
  have backend := homes f' inside g' inside' key
  rwa [Future.backend_eq_of_name isF, Future.backend_eq_of_name isG] at backend

/-- In such a wait set each future is asked about in its own backend. -/
theorem HomesAgree.first {futures : List Future} (homes : HomesAgree futures) {f : Future}
    (member : f ∈ futures) {first : CallName × String}
    (atHead : firstOf f.jobKey (futures.map Future.name) = some first) :
    first.2 = f.backend := by
  obtain ⟨listed, key⟩ := jobKey_of_firstOf atHead
  obtain ⟨g, inside, rfl⟩ := List.mem_map.mp listed
  exact homes f member g inside key

/-- Taking in answers leads each future from stage to stage; and what is appended are calls that,
as the stores tell, an open future dispatched. -/
theorem Absorbs.staged (absorbs : Absorbs replies terms answers kept earlier later)
    (isTrue : replies.IsTrueTo stores) (homes : HomesAgree earlier)
    (staged : ∀ f ∈ earlier, f.Stage stores) :
    (∀ g ∈ later, g.Stage stores) ∧
      ∀ (i : Nat) (g : Future), later[i]? = some g →
        (∃ f, earlier[i]? = some f ∧ g.bare = f.bare) ∨
          ∃ (p : Nat) (f : Future), earlier[p]? = some f ∧ f.done = false ∧
            g ∈ stores.childrenOf f := by
  have each (i : Nat) (f : Future) (found : earlier[i]? = some f) :
      (f.answered terms.throwing (sortAnswers answers) i).Stage stores ∧
        (f.answered terms.throwing (sortAnswers answers) i).bare = f.bare := by
    have member := List.mem_of_getElem? found
    rcases absorbs.answered_cases found with ⟨same, -⟩ |
        ⟨x, -, -, same, open_, first, atHead, comes⟩
    · rw [same]
      exact ⟨staged f member, rfl⟩
    · rw [homes.first member atHead] at comes
      rw [same]
      exact (staged f member).recorded isTrue terms.throwing open_ comes
  have origin (c : CallName × String) (appended : c ∈ kept) :
      ∃ (p : Nat) (f : Future), earlier[p]? = some f ∧ f.done = false ∧
        Future.ofName c ∈ stores.childrenOf f := by
    have listed := absorbs.appended.subset appended
    rw [children_recordAll absorbs.distinct] at listed
    obtain ⟨x, sorted, adopted⟩ := List.mem_flatMap.mp listed
    obtain ⟨f, first, found, open_, -⟩ :=
      absorbs.asked x ((sortAnswers_perm answers).mem_iff.mp sorted)
    have same := Future.answered_sorted_of_mem absorbs.distinct
      ((sortAnswers_perm answers).mem_iff.mp sorted) terms.throwing f
    obtain ⟨after, bare⟩ := each x.1 f found
    rw [same] at after bare
    rw [Recorded.adoptedAt, found] at adopted
    have dispatched : c ∈ (f.recorded terms.throwing x.2).dispatched := by
      dsimp only at adopted
      unfold Future.adopted at adopted
      split at adopted
      · exact adopted
      · cases adopted
    refine ⟨x.1, f, found, Future.done_of_open open_, ?_⟩
    rw [← Stores.childrenOf_eq_of_bare bare]
    exact after.child_of_dispatched dispatched
  constructor
  · intro g member
    obtain ⟨i, found⟩ := List.getElem?_of_mem member
    rcases absorbs.getElem?_cases found with ⟨f, before, rfl⟩ | ⟨-, c, -, rfl⟩
    · exact (each i f before).1
    · exact .unknown rfl
  · intro i g found
    rcases absorbs.getElem?_cases found with ⟨f, before, rfl⟩ | ⟨-, c, appended, rfl⟩
    · exact Or.inl ⟨f, before, (each i f before).2⟩
    · exact Or.inr (origin c appended)

/-- Over a history each future of a wait set stays at some stage. -/
theorem Absorbed.staged (absorbed : Absorbed replies earlier later)
    (isTrue : replies.IsTrueTo stores) (homes : HomesAgree later)
    (staged : ∀ f ∈ earlier, f.Stage stores) : ∀ g ∈ later, g.Stage stores := by
  induction absorbed with
  | refl => exact staged
  | @tail middle later _ step ih =>
    obtain ⟨terms, answers, kept, absorbs⟩ := step
    have longer : middle.map Future.name <+: later.map Future.name := by
      rw [absorbs.names]
      exact List.prefix_append _ kept
    have homes' := homes.of_names_prefix longer
    exact (absorbs.staged isTrue homes' (ih homes')).1

end

end CallDispatch
