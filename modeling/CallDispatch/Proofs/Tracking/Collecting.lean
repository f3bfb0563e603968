import CallDispatch.Proofs.Tracking.Completion
import CallDispatch.Proofs.Tracking.Lockstep

/-!
# Collecting values

Over stores that hold the outcomes of all calls that can be reached, what is collected from a wait
set can be read off the stores: once all is done, each future holds the outcome of its own call, and
each call that can be reached has a future. If failures are raised and one of these calls failed, a
failure is raised instead.
-/

namespace CallDispatch

section
variable {stores : Stores} {f g : Future} {futures later : List Future}

namespace Stores

/-- Whether a call failed, as far as its status in the stores tells. -/
def Fails (stores : Stores) (f : Future) : Prop :=
  ∃ s, stores.status? f.backend f.key = .ok (some s) ∧ s.success = false

/-- What a call comes to: the value stored for it, if it succeeded and has one, or else null. -/
def valueOf (stores : Stores) (f : Future) : Json :=
  match stores.status? f.backend f.key, stores.output? f.backend f.key with
  | .ok (some s), .ok (some (.value v)) => if s.success then v else .null
  | _, _ => .null

/-- The futures of the calls that produce output and dispatched no others. -/
def leaves (stores : Stores) (futures : List Future) : List Future :=
  futures.filter fun f => f.produceOutput && (stores.childrenOf f).isEmpty

/-- A wait set that began with some futures and in which all is done: each future holds the outcome
of its call and the calls it dispatched, and those are, as a multiset, the calls appended. -/
structure Settles (stores : Stores) (initial later : List Future) : Prop where
  kept : Kept initial later
  done : ∀ g ∈ later, g.done = true
  outcome : ∀ g ∈ later, g = stores.outcome g
  dispatched : ∀ g ∈ later, g.dispatched = (stores.childrenOf g).map Future.name
  appended : ((later.drop initial.length).map Future.name).Perm
    (later.flatMap fun g => (stores.childrenOf g).map Future.name)

theorem ofName_of_child (child : g ∈ stores.childrenOf f) : Future.ofName g.name = g := by
  unfold childrenOf at child
  split at child
  · obtain ⟨key, -, rfl⟩ := List.mem_map.mp child
    rfl
  · cases child

theorem callsOf_of_failed (fails : stores.Fails f) : stores.callsOf f.backend f.key = [] := by
  obtain ⟨s, status, failed⟩ := fails
  unfold callsOf
  rw [status]
  split
  · next same _ =>
    cases same
    rw [failed]
    rfl
  · rfl

theorem valueOf_of_failed (fails : stores.Fails f) : stores.valueOf f = .null := by
  obtain ⟨s, status, failed⟩ := fails
  unfold valueOf
  rw [status]
  split
  · next same _ =>
    cases same
    rw [failed]
    rfl
  · rfl

end Stores

theorem mapM_eq_map {h : α → Except ε β} {value : α → β} {l : List α}
    (each : ∀ x ∈ l, h x = .ok (value x)) : l.mapM h = .ok (l.map value) := by
  induction l with
  | nil => rfl
  | cons x rest ih =>
    rw [List.mapM_cons, each x List.mem_cons_self,
      ih fun y member => each y (List.mem_cons_of_mem x member)]
    rfl

/-! ## What a future tells of the stores -/

namespace Future.Stage

/-- A status recorded is the one that the stores hold. -/
theorem replied (staged : f.Stage stores) {s : StatusRecord} (known : f.status = some s) :
    stores.status? f.backend f.key = .ok (some s) := by
  cases staged with
  | unknown isBare =>
    rw [isBare] at known
    cases known
  | seen s' status isSeen =>
    rw [isSeen, withStatus_status] at known
    cases known
    exact status
  | settled s' o status _ _ _ isSettled =>
    rw [isSettled, withOutput_status, withStatus_status] at known
    cases known
    exact status

/-- Where a status alone makes a future done that is to produce output, the call failed. -/
theorem failed_of_seen {s : StatusRecord} (isSeen : f = f.bare.withStatus s) (done : f.done = true)
    (produces : f.produceOutput = true) : s.success = false := by
  by_contra passed
  have open_ : (f.bare.withStatus s).done = false :=
    open_withStatus_bare.mpr ⟨by simpa using passed, produces⟩
  rw [← isSeen, done] at open_
  cases open_

/-- A future that is done has recorded as dispatched what the stores list. -/
theorem dispatched_eq (staged : f.Stage stores) (done : f.done = true) :
    f.dispatched = (stores.childrenOf f).map Future.name := by
  cases staged with
  | unknown isBare =>
    rw [isBare] at done
    cases done
  | seen s status isSeen =>
    have none : stores.childrenOf f = [] := by
      unfold Stores.childrenOf
      split
      · next produces =>
        rw [Stores.callsOf_of_failed ⟨s, status, failed_of_seen isSeen done produces⟩]
        rfl
      · rfl
    rw [none, isSeen, dispatched, withStatus_children]
    rfl
  | settled s o status output success produces isSettled =>
    unfold Stores.childrenOf Stores.callsOf
    rw [if_pos produces, status, output]
    cases o with
    | value v =>
      rw [isSettled, dispatched]
      show (f.bare.withStatus s).children.map _ = []
      rw [withStatus_children]
      rfl
    | calls keys =>
      have children : f.children = keys := by rw [isSettled]; rfl
      dsimp only
      rw [dispatched, children, if_pos success, List.map_map]
      rfl

theorem isEmpty_children (staged : f.Stage stores) (done : f.done = true) :
    f.children.isEmpty = (stores.childrenOf f).isEmpty := by
  have same := congrArg List.isEmpty (staged.dispatched_eq done)
  rwa [dispatched, List.isEmpty_map, List.isEmpty_map] at same

/-- The result of a future that is done is what its call comes to, unless a failure is raised. -/
theorem result_eq (staged : f.Stage stores) (done : f.done = true)
    (produces : f.produceOutput = true) {throwing : Bool}
    (passed : throwing = true → f.failure? = none) :
    f.result throwing = .ok (stores.valueOf f) := by
  cases staged with
  | unknown isBare =>
    rw [isBare] at done
    cases done
  | seen s status isSeen =>
    have failed := failed_of_seen isSeen done produces
    have message := failureMessage?_eq_some failed
    have captured := congrArg Future.captured isSeen
    rw [withStatus_captured, message] at captured
    have quiet : throwing = false := by
      by_contra raises
      have none := passed (by simpa using raises)
      rw [isSeen, failure?_withStatus, message] at none
      cases none
    unfold result
    rw [captured, quiet, Stores.valueOf_of_failed ⟨s, status, failed⟩]
    rfl
  | settled s o status output success _ isSettled =>
    have captured := congrArg Future.captured isSettled
    unfold result Stores.valueOf
    rw [captured, status, output]
    cases o with
    | value v =>
      dsimp only [withOutput]
      rw [if_pos success]
    | calls keys => rfl

/-- A failure that a future has recorded is that of its call. -/
theorem fails (staged : f.Stage stores) {e : DispatchError} (failure : f.failure? = some e) :
    ∃ s message, stores.status? f.backend f.key = .ok (some s) ∧
      s.failureMessage? = some message ∧ e = .callFailed f.key.text message := by
  obtain ⟨s, known, told⟩ := Option.bind_eq_some_iff.mp failure
  obtain ⟨message, failed, rfl⟩ := Option.map_eq_some_iff.mp told
  exact ⟨s, message, staged.replied known, failed, rfl⟩

theorem failed_of_failure? (staged : f.Stage stores) {e : DispatchError}
    (failure : f.failure? = some e) : stores.Fails f := by
  obtain ⟨s, message, status, failed, -⟩ := staged.fails failure
  refine ⟨s, status, ?_⟩
  by_contra passed
  rw [failureMessage?_eq_none (by simpa using passed)] at failed
  cases failed

/-- If its call failed, a future that is done has recorded a failure. -/
theorem failure?_ne_none (staged : f.Stage stores) (done : f.done = true) (fails : stores.Fails f) :
    f.failure? ≠ none := by
  obtain ⟨s, status, failed⟩ := fails
  obtain ⟨-, -, s', status', known⟩ := staged.recorded_of_done done
  rw [status] at status'
  cases status'
  rw [failure?, known, Option.bind_some, failureMessage?_eq_some failed]
  exact Option.some_ne_none _

end Future.Stage

/-- What is collected from a wait set in which all is done. -/
theorem Session.values_eq (staged : ∀ f ∈ futures, f.Stage stores)
    (done : ∀ f ∈ futures, f.done = true) {throwing : Bool}
    (passed : throwing = true → ∀ f ∈ futures, f.failure? = none) :
    Session.values throwing futures =
      .ok (.values ((stores.leaves futures).map stores.valueOf)) := by
  have leaves : (futures.filter fun f => f.done && f.produceOutput && f.children.isEmpty) =
      stores.leaves futures := by
    refine List.filter_congr fun f member => ?_
    rw [done f member, Bool.true_and, (staged f member).isEmpty_children (done f member)]
  have each : ∀ f ∈ stores.leaves futures, f.result throwing = .ok (stores.valueOf f) := by
    intro f leaf
    obtain ⟨member, isLeaf⟩ := List.mem_filter.mp leaf
    exact (staged f member).result_eq (done f member) (Bool.and_eq_true_iff.mp isLeaf).1
      fun throws => passed throws f member
  simp only [Session.values]
  rw [leaves, mapM_eq_map each]
  rfl

/-! ## What is appended -/

variable {set : List Future} {replies : Replies}

/-- Over a history too, a wait set never leaves the graph of calls that can be reached from it. -/
theorem Absorbed.inside (absorbed : Absorbed (.fixed stores.status? stores.output?) futures later)
    (complete : stores.IsComplete set) (staged : ∀ f ∈ futures, f.Stage stores)
    (inside : ∀ f ∈ futures, stores.Reaches set f.bare) :
    (∀ g ∈ later, g.Stage stores) ∧ ∀ g ∈ later, stores.Reaches set g.bare := by
  induction absorbed with
  | refl => exact ⟨staged, inside⟩
  | tail _ step ih =>
    obtain ⟨terms, answers, kept, absorbs⟩ := step
    have isTrue := Replies.fixed_isTrueTo stores
    have homes := complete.homesAgree ih.2
    exact ⟨(absorbs.staged isTrue homes ih.1).1, absorbs.inside isTrue homes ih.1 ih.2⟩

/-- Calls that were dispatched are appended as calls that produce output. -/
theorem Absorbed.produces {begun : Nat} (absorbed : Absorbed replies futures later)
    (coherent : ∀ f ∈ futures, f.Coherent)
    (produces : ∀ g ∈ futures.drop begun, g.produceOutput = true) :
    ∀ g ∈ later.drop begun, g.produceOutput = true := by
  induction absorbed with
  | refl => exact produces
  | @tail middle later before step ih =>
    obtain ⟨terms, answers, kept, absorbs⟩ := step
    have keeps := (absorbs.keeps (Absorbed.keeps before coherent).2).1
    intro g member
    obtain ⟨i, found⟩ := List.getElem?_of_mem member
    rw [List.getElem?_drop] at found
    rcases absorbs.getElem?_cases found with ⟨f, old, rfl⟩ | ⟨-, c, -, rfl⟩
    · obtain ⟨g', found', keeps⟩ := keeps _ f old
      obtain rfl := Option.some.inj (found'.symm.trans found)
      rw [keeps.produceOutput]
      refine ih f (List.mem_of_getElem? (i := i) ?_)
      rw [List.getElem?_drop]
      exact old
    · rfl

/-- A call of a wait set has a future in each later one. -/
theorem Kept.covers (kept : Kept futures later) (member : f ∈ futures) :
    ∃ h ∈ later, h.bare = f.bare := by
  obtain ⟨i, found⟩ := List.getElem?_of_mem member
  obtain ⟨h, found', keeps⟩ := kept i f found
  refine ⟨h, List.mem_of_getElem? found', ?_⟩
  unfold Future.bare
  rw [keeps.key, keeps.backend, keeps.produceOutput]

/-- A future that was appended for a call dispatched is the future of that call. -/
theorem Stores.bare_of_name {c : Future} (child : c ∈ stores.childrenOf f)
    (produces : g.produceOutput = true) (same : g.name = c.name) : g.bare = c := by
  unfold Future.bare
  rw [produces, ← Stores.ofName_of_child child, ← same]
  rfl

/-- A wait set in which all is done has a future for each call that can be reached from it. -/
theorem Stores.Settles.covers (settles : stores.Settles futures later)
    (produces : ∀ g ∈ later.drop futures.length, g.produceOutput = true)
    (reached : stores.Reaches futures g) : ∃ h ∈ later, h.bare = g := by
  obtain ⟨f, member, path⟩ := reached
  induction path with
  | refl => exact settles.kept.covers member
  | @tail g c _ child ih =>
    obtain ⟨h, inside, rfl⟩ := ih
    have child' : c ∈ stores.childrenOf h := by
      rw [Stores.childrenOf_eq_of_bare (f := h.bare) (g := h) rfl]
      exact child
    have listed := settles.appended.mem_iff.mpr
      (List.mem_flatMap.mpr ⟨h, inside, List.mem_map_of_mem child'⟩)
    obtain ⟨c', appended, same⟩ := List.mem_map.mp listed
    exact ⟨c', List.mem_of_mem_drop appended,
      Stores.bare_of_name child' (produces c' appended) same⟩

end

/-! ## The waits of a session -/

namespace Session

variable {s : Session} {terms : WaitTerms}

/-- The terms of a wait for all values. -/
def forValues (terms : WaitTerms) : WaitTerms := { terms with download := true, goal := .all }

/-- The same terms, but failures are passed over. -/
def forValuesQuietly (terms : WaitTerms) : WaitTerms := { forValues terms with throwing := false }

theorem forValuesQuietly_of_quiet (quiet : terms.throwing = false) :
    forValuesQuietly terms = forValues terms := by
  unfold forValuesQuietly
  rw [← quiet]
  rfl

theorem raising_forValuesQuietly (throws : terms.throwing = true) :
    (forValuesQuietly terms).raising = forValues terms := by
  unfold WaitTerms.raising
  rw [← throws]
  rfl

/-- A patient wait with a monitor of its own returns once all is done. -/
theorem startRun_returns (complete : s.sur.stores.IsComplete s.futures) (patient : terms.IsPatient)
    (within : s.sur.Within (.fixed s.sur.stores.status? s.sur.stores.output?))
    (own : s.choice = .own) (keyed : s.storage.Keyed) (interval : 0 < s.storage.interval)
    (fresh : ∀ f ∈ s.futures, f.IsFresh)
    (open_ : s.futures.all (·.isComplete terms.download) = false) :
    ∃ r m, WaitRun.Leads (s.startRun terms []) r ∧ r.Follows s.sur terms s.futures m ∧
      r.wait.phase = .finished (.ok ()) ∧
      s.sur.stores.Settles s.futures r.wait.state.futures ∧
      (s.startRun terms []).wait.state.futures = s.futures := by
  obtain ⟨depth, isDepth⟩ := Stores.exists_depth complete.acyclic
  obtain ⟨r, m', leads, follows', finished, -, done, futures⟩ := startRun_completes complete patient
    within own keyed interval (fun f member => (fresh f member).stage) open_ isDepth
  refine ⟨r, m', leads, follows', finished, ?_⟩
  have absorbed := follows'.reached.sound.2
  obtain ⟨kept, coherent⟩ := absorbed.keeps fun f member => (fresh f member).coherent
  obtain ⟨heirs, lineage⟩ := absorbed.lineage (Replies.opens_fixed _ _) fresh
  have outcome (g : Future) (member : g ∈ r.wait.state.futures) :=
    (follows'.staged g member).eq_outcome (done g member)
  have dispatched (g : Future) (member : g ∈ r.wait.state.futures) :=
    (follows'.staged g member).dispatched_eq (done g member)
  refine ⟨⟨kept, done, outcome, dispatched, ?_⟩, futures⟩
  have all : r.wait.state.futures.filter (·.done) = r.wait.state.futures :=
    List.filter_eq_self.mpr done
  have appended := lineage.perm coherent
  rwa [all, List.flatMap_congr dispatched] at appended

/-- Values are collected once the wait for them has returned. -/
theorem waitValues_result (s : Session) (terms : WaitTerms) :
    (s.waitValues terms []).2.result = (s.wait (forValues terms) []).2.1.bind fun () =>
      values terms.throwing (s.wait (forValues terms) []).1.futures :=
  rfl

/-- Where a run leads, the values of its wait set are collected if it returns. -/
theorem waitValues_of_leads (terms : WaitTerms) {r : WaitRun} {result : Outcome Unit}
    (open_ : s.futures.all (·.isComplete true) = false)
    (leads : WaitRun.Leads (s.startRun (forValues terms) []) r)
    (finished : r.wait.phase = .finished result) :
    ∃ enough, ∀ limit, enough ≤ limit →
      ({ s with limit }.waitValues terms []).1.futures = r.wait.state.futures ∧
      ({ s with limit }.waitValues terms []).2.result =
        result.bind fun () => values terms.throwing r.wait.state.futures := by
  obtain ⟨enough, ends⟩ := leads.run_eq finished
  refine ⟨enough, fun limit fits => ?_⟩
  have ran : ({ s with limit }.startRun (forValues terms) []).run limit limit = r :=
    (ends limit fits).symm
  obtain ⟨same, outcome, -⟩ := wait_of_incomplete (s := { s with limit }) [] open_ ran
  refine ⟨same, ?_⟩
  rw [waitValues_result, same, outcome, finished]
  rfl

/-- What waiting for all values ends with, if the final wait set of a wait that passes failures over
is given: the values that the stores tell of, or, if failures are raised and one of the calls that
can be reached failed, such a failure. -/
structure Collects (s : Session) (throwing : Bool) (later : List Future)
    (ended : Session × WaitReport) : Prop where
  values : (throwing = true → ∀ g, s.sur.stores.Reaches s.futures g → ¬ s.sur.stores.Fails g) →
    ended.1.futures = later ∧
      ended.2.result = .ok (.values ((s.sur.stores.leaves later).map s.sur.stores.valueOf))
  failure : throwing = true →
    (∃ g, s.sur.stores.Reaches s.futures g ∧ s.sur.stores.Fails g) →
    ∃ g ∈ ended.1.futures, ∃ st message, s.sur.stores.status? g.backend g.key = .ok (some st) ∧
      st.failureMessage? = some message ∧
      ended.2.result = .error (.callFailed g.key.text message)

section
variable {throwing : Bool} {later : List Future} {ended : Session × WaitReport}

theorem Collects.of_settled (settles : s.sur.stores.Settles s.futures later)
    (produces : ∀ g ∈ later.drop s.futures.length, g.produceOutput = true)
    (staged : ∀ g ∈ later, g.Stage s.sur.stores)
    (passed : throwing = true → ∀ g ∈ later, g.failure? = none)
    (same : ended.1.futures = later)
    (collected : ended.2.result = Session.values throwing later) :
    s.Collects throwing later ended where
  values _ := ⟨same, by rw [collected, values_eq staged settles.done passed]⟩
  failure := by
    rintro throws ⟨g, reached, fails⟩
    obtain ⟨h, inside, rfl⟩ := settles.covers produces reached
    exact absurd (passed throws h inside)
      ((staged h inside).failure?_ne_none (settles.done h inside) fails)

theorem Collects.of_raised {f : Future} {e : DispatchError} (member : f ∈ ended.1.futures)
    (staged : f.Stage s.sur.stores) (reached : s.sur.stores.Reaches s.futures f.bare)
    (failure : f.failure? = some e) (raised : ended.2.result = .error e)
    (throws : throwing = true) : s.Collects throwing later ended := by
  obtain ⟨st, message, status, failed, rfl⟩ := staged.fails failure
  exact ⟨fun none => absurd (staged.failed_of_failure? failure) (none throws f.bare reached),
    fun _ _ => ⟨f, member, st, message, status, failed, raised⟩⟩

end

/-- A wait set without calls is complete from the start. -/
theorem collects_of_complete (terms : WaitTerms) (fresh : ∀ f ∈ s.futures, f.IsFresh)
    (allDone : s.futures.all (·.isComplete true) = true) :
    s.sur.stores.Settles s.futures [] ∧ ∀ limit,
      s.Collects terms.throwing [] ({ s with limit }.waitValues terms []) := by
  have none : s.futures = [] := by
    refine List.eq_nil_iff_forall_not_mem.mpr fun f member => ?_
    have done : f.done = true := List.all_eq_true.mp allDone f member
    rw [(fresh f member).done] at done
    cases done
  have settles : s.sur.stores.Settles s.futures [] := by
    rw [none]
    exact ⟨.refl [], nofun, nofun, nofun, .refl _⟩
  refine ⟨settles, fun limit => ?_⟩
  obtain ⟨same, outcome, -⟩ :=
    @wait_of_complete (forValues terms) { s with limit } [] allDone {} Option.none
  refine .of_settled settles (by simp) nofun (fun _ => nofun)
    ((congrArg futures same).trans none) ?_
  rw [waitValues_result, outcome, same, none]
  rfl

section
variable (terms) {r : WaitRun} {m : ListingMonitor} (fresh : ∀ f ∈ s.futures, f.IsFresh)
  (open_ : s.futures.all (·.isComplete true) = false)
  (leads : WaitRun.Leads (s.startRun (forValuesQuietly terms) []) r)
  (finished : r.wait.phase = .finished (.ok ()))
  (settles : s.sur.stores.Settles s.futures r.wait.state.futures)
  (follows : r.Follows s.sur (forValuesQuietly terms) s.futures m)
include fresh open_ leads finished settles follows

/-- If failures are passed over, a wait for all values collects them. -/
theorem collects_of_quiet (quiet : terms.throwing = false) : ∃ enough, ∀ limit, enough ≤ limit →
    s.Collects terms.throwing r.wait.state.futures ({ s with limit }.waitValues terms []) := by
  have same := forValuesQuietly_of_quiet quiet
  have produces : ∀ g ∈ r.wait.state.futures.drop s.futures.length, g.produceOutput = true :=
    follows.reached.sound.2.produces (fun f member => (fresh f member).coherent) (by simp)
  obtain ⟨enough, ends⟩ := waitValues_of_leads terms open_ (same ▸ leads) finished
  refine ⟨enough, fun limit fits => ?_⟩
  refine .of_settled settles produces follows.staged ?_ (ends limit fits).1 (ends limit fits).2
  rw [quiet]
  nofun

/-- If failures are raised, it goes in lockstep with one that passes them over. -/
theorem collects_of_throwing (complete : s.sur.stores.IsComplete s.futures)
    (within : s.sur.Within (.fixed s.sur.stores.status? s.sur.stores.output?))
    (begun : (s.startRun (forValuesQuietly terms) []).wait.state.futures = s.futures)
    (throws : terms.throwing = true) : ∃ enough, ∀ limit, enough ≤ limit →
    s.Collects terms.throwing r.wait.state.futures ({ s with limit }.waitValues terms []) := by
  have begins := startRun_raising s (forValuesQuietly terms) []
  rw [raising_forValuesQuietly throws] at begins
  have fits : (s.startRun (forValuesQuietly terms) []).Fits
      (.fixed s.sur.stores.status? s.sur.stores.output?) (forValuesQuietly terms) s.futures :=
    startRun_fits within nofun .none
  have unfailed : ∀ f ∈ s.futures, f.failure? = none := by
    intro f member
    rw [Future.failure?, (fresh f member).status]
    rfl
  rcases leads.raising finished fits (begun ▸ unfailed) with
    ⟨leads', passed⟩ | ⟨last, leads', quiet, e, fits', isWait, f, member, failure⟩
  · have produces : ∀ g ∈ r.wait.state.futures.drop s.futures.length, g.produceOutput = true :=
      follows.reached.sound.2.produces (fun f member => (fresh f member).coherent) (by simp)
    obtain ⟨enough, ends⟩ :=
      waitValues_of_leads terms (r := r.raising) open_ (begins ▸ leads') finished
    exact ⟨enough, fun limit fits => .of_settled settles produces follows.staged
      (fun _ => passed) (ends limit fits).1 (ends limit fits).2⟩
  · have failed : last.wait.phase = .finished (.error e) := by
      rw [isWait]
      rfl
    obtain ⟨enough, ends⟩ := waitValues_of_leads terms open_ (begins ▸ leads') failed
    obtain ⟨staged, inside⟩ := fits'.reached.sound.2.inside complete
      (fun f member => (fresh f member).stage) fun f => Stores.reaches_of_mem
    refine ⟨enough, fun limit fits => ?_⟩
    refine .of_raised ?_ (staged f member) (inside f member) failure (ends limit fits).2 throws
    rw [(ends limit fits).1, isWait]
    exact member

end

/-- Waiting for the values of fresh futures, with a monitor of its own and on stores that hold the
outcomes of all calls that can be reached, comes to one final wait set if failures are passed over,
and returns what the stores tell of those of its calls that come to a value, in order. If failures
are raised, that of a call of the wait set is raised if and only if a call that can be reached
failed, and otherwise the same is returned. -/
theorem values_collected {s : Session} {terms : WaitTerms} (fresh : ∀ f ∈ s.futures, f.IsFresh)
    (complete : s.sur.stores.IsComplete s.futures) (noneClosed : s.sur.faults.closedBackends = [])
    (noneFailing : s.sur.faults.failing = []) (own : s.choice = .own) (keyed : s.storage.Keyed)
    (interval : 0 < s.storage.interval) (timeout : terms.timeout = none)
    (cancellable : terms.cancellable = false) :
    ∃ later enough, s.sur.stores.Settles s.futures later ∧ ∀ limit, enough ≤ limit →
      ∀ throwing, s.Collects throwing later
        ({ s with limit }.waitValues { terms with throwing } []) := by
  cases allDone : s.futures.all (·.isComplete true) with
  | true =>
    have collects (throwing : Bool) :=
      collects_of_complete { terms with throwing } fresh allDone
    exact ⟨[], 0, (collects false).1, fun limit _ throwing => (collects throwing).2 limit⟩
  | false =>
    have within := Surroundings.within_fixed noneClosed noneFailing
    have patient : (forValuesQuietly terms).IsPatient := ⟨rfl, rfl, rfl, timeout, cancellable⟩
    obtain ⟨r, m, leads, follows, finished, settles, begun⟩ :=
      startRun_returns complete patient within own keyed interval fresh allDone
    obtain ⟨enough, quiet⟩ := collects_of_quiet { terms with throwing := false } fresh allDone
      leads finished settles follows rfl
    obtain ⟨enough', raising⟩ := collects_of_throwing { terms with throwing := true } fresh allDone
      leads finished settles follows complete within begun rfl
    refine ⟨r.wait.state.futures, max enough enough', settles, fun limit fits throwing => ?_⟩
    cases throwing with
    | false => exact quiet limit (by omega)
    | true => exact raising limit (by omega)

end Session

/-! ### A call that succeeded beside one that failed -/

namespace OneFailed

def good : CallName := ⟨"e", "j", "0"⟩

def bad : CallName := ⟨"e", "j", "1"⟩

def stores : Stores where
  entries :=
    [("b", (({} : Store).complete good (.text "x")).leaveStatus bad (.failure "gone"))]

def session : Session where
  futures := [{ key := good, backend := "b" }, { key := bad, backend := "b" }]
  sur := { stores }
  monitorInterval := 10
  storage := { interval := 10 }

theorem childrenOf_eq_nil (f : Future) : stores.childrenOf f = [] := by
  refine List.eq_nil_iff_forall_not_mem.mpr fun g child => ?_
  obtain ⟨key, listed, -⟩ := Stores.mem_listed_of_child child
  cases listed

theorem reached_cases {g : Future} (reached : stores.Reaches session.futures g) :
    g = .ofName (good, "b") ∨ g = .ofName (bad, "b") := by
  obtain ⟨f, member, path⟩ := reached
  rcases path.cases_tail with same | ⟨h, -, child⟩
  · subst same
    rcases List.mem_cons.mp member with rfl | rest
    · exact Or.inl rfl
    · obtain rfl := List.mem_singleton.mp rest
      exact Or.inr rfl
  · rw [Stores.Dispatches, childrenOf_eq_nil] at child
    cases child

theorem complete : stores.IsComplete session.futures where
  status g reached := by
    rcases reached_cases reached with rfl | rfl
    · exact ⟨.ok, rfl⟩
    · exact ⟨.failure "gone", rfl⟩
  output g s reached status success _ := by
    rcases reached_cases reached with rfl | rfl
    · exact ⟨.value (.text "x"), rfl⟩
    · cases status
      cases success
  keys g h reached reached' _ := by
    rcases reached_cases reached with rfl | rfl <;> rcases reached_cases reached' with rfl | rfl <;>
      exact ⟨rfl, rfl⟩
  homes g h reached reached' _ _ := by
    rcases reached_cases reached with rfl | rfl <;> rcases reached_cases reached' with rfl | rfl <;>
      rfl
  acyclic g _ circle := by
    obtain ⟨h, child, -⟩ := Relation.TransGen.head'_iff.mp circle
    rw [Stores.Dispatches, childrenOf_eq_nil] at child
    cases child

/-- If failures are passed over, the value of one call and null for the other are collected; if
failures are raised, one is. -/
theorem values_collected_one_failed : ∃ enough, ∀ limit, enough ≤ limit →
    ({ session with limit }.waitValues { throwing := false } []).2.result =
      .ok (.values [.text "x", .null]) ∧
    ∃ name message, ({ session with limit }.waitValues { throwing := true } []).2.result =
      .error (.callFailed name message) := by
  have fresh : ∀ f ∈ session.futures, f.IsFresh := by
    intro f member
    rcases List.mem_cons.mp member with rfl | rest
    · exact Future.isFresh_new _ _
    · obtain rfl := List.mem_singleton.mp rest
      exact Future.isFresh_new _ _
  obtain ⟨later, enough, settles, collects⟩ := @Session.values_collected session {} fresh complete
    rfl rfl rfl List.nodup_nil (by decide) rfl rfl
  obtain ⟨f, first, keeps⟩ := settles.kept 0 _ rfl
  obtain ⟨g, second, keeps'⟩ := settles.kept 1 _ rfl
  have none : later.flatMap (fun g => (stores.childrenOf g).map Future.name) = [] := by
    simp [childrenOf_eq_nil]
  have appended : ((later.drop 2).map Future.name).Perm [] := none ▸ settles.appended
  have noMore : later.drop 2 = [] := List.map_eq_nil_iff.mp appended.eq_nil
  have pair : later = [f, g] := by
    rcases later with _ | ⟨a, _ | ⟨b, rest⟩⟩
    · cases first
    · cases second
    · cases first
      cases second
      cases noMore
      rfl
  have leaves : stores.leaves [f, g] = [f, g] := by
    simp [Stores.leaves, childrenOf_eq_nil, keeps.produceOutput, keeps'.produceOutput]
  have value : stores.valueOf f = .text "x" := by
    unfold Stores.valueOf
    rw [keeps.backend, keeps.key]
    rfl
  have null : stores.valueOf g = .null := by
    unfold Stores.valueOf
    rw [keeps'.backend, keeps'.key]
    rfl
  refine ⟨enough, fun limit fits => ⟨?_, ?_⟩⟩
  · obtain ⟨-, collected⟩ := (collects limit fits false).values nofun
    have same : (stores.leaves later).map stores.valueOf = [.text "x", .null] := by
      rw [pair, leaves, List.map_cons, List.map_cons, List.map_nil, value, null]
    exact same ▸ collected
  · have fails : stores.Fails (.ofName (bad, "b")) := ⟨.failure "gone", rfl, rfl⟩
    obtain ⟨h, -, -, message, -, -, raised⟩ := (collects limit fits true).failure rfl
      ⟨_, Stores.reaches_of_mem (f := { key := bad, backend := "b" }) (by simp [session]), fails⟩
    exact ⟨_, message, raised⟩

end OneFailed

end CallDispatch
