import CallDispatch.Proofs.Tracking.Passing

/-!
# Waits that complete

A patient wait for calls whose outcomes the stores hold goes from pass to pass until all is done.
With each pass the chains of calls below what is open get shorter, so there are no more passes than
the longest of them had calls.
-/

namespace CallDispatch

variable {sur : Surroundings} {terms : WaitTerms} {set : List Future} {n : Nat}

/-- A patient wait is met when all is done. -/
theorem WaitTerms.IsPatient.isMet_iff (patient : terms.IsPatient) {futures : List Future} :
    Wait.isMet terms futures = true ↔ ∀ f ∈ futures, f.done = true := by
  unfold Wait.isMet
  rw [patient.goal, patient.download]
  exact List.all_eq_true

/-- It is not cancelled between passes. -/
theorem WaitTerms.IsPatient.passed (patient : terms.IsPatient) {w : Wait SessionMonitor}
    (isTerms : w.terms = terms) (cancelled : Bool) : w.passed cancelled =
      if Wait.isMet terms w.state.futures then w.finish (.ok ())
      else { w with phase := .sleeping } := by
  obtain rfl := isTerms
  unfold Wait.passed
  rw [patient.cancellable]
  rfl

theorem WaitTerms.IsPatient.decide (patient : terms.IsPatient) {w : Wait SessionMonitor}
    (isTerms : w.terms = terms) (cancelled : Bool) : w.decide cancelled =
      if Wait.isMet terms w.state.futures then w.finish (.ok ()) else w.beginPass := by
  obtain rfl := isTerms
  unfold Wait.decide
  rw [patient.cancellable]
  rfl

/-- At the beginning of a pass all units are yet to be polled. -/
theorem Remains.of_seen {stores : Stores} {m : ListingMonitor} {s : WaitState SessionMonitor}
    (grouped : Grouped (s.futures.map Future.name) s.units)
    (sees : ∀ u ∈ s.units, (m.watched u.jobKey).Sees stores u)
    (short : ∀ f ∈ s.futures, f.done = false → ¬ stores.Chain (n + 1) f) :
    Remains stores n 0 m s := by
  intro p f found open_
  have member := List.mem_of_getElem? found
  obtain ⟨u, unit, key⟩ := grouped.every f.name (List.mem_map_of_mem member)
  obtain ⟨j, at_⟩ := List.getElem?_of_mem unit
  refine Or.inr ⟨short f member open_, j, u, at_, Nat.zero_le j, ?_, sees u unit⟩
  refine (grouped.member u unit p).mpr ⟨f.name, ?_, key.symm⟩
  rw [List.getElem?_map, found]
  rfl

namespace WaitRun

variable (complete : sur.stores.IsComplete set) (patient : terms.IsPatient)
  (within : sur.Within (.fixed sur.stores.status? sur.stores.output?))
include complete patient within

/-- A pass to its end: all is done, or the wait goes to sleep and what is open has only shorter
chains of calls below it. -/
theorem Follows.round {m : ListingMonitor} {r : WaitRun} {i : Nat}
    (follows : r.Follows sur terms set m) (phase : r.wait.phase = .polling i)
    (remains : Remains sur.stores n i m r.wait.state) :
    ∃ r' m', Leads r r' ∧ r'.Follows sur terms set m' ∧ r'.wait.passes = r.wait.passes ∧
      (∀ f ∈ r'.wait.state.futures, f.done = false → ¬ sur.stores.Chain n f) ∧
      ((r'.wait.phase = .finished (.ok ()) ∧ ∀ f ∈ r'.wait.state.futures, f.done = true) ∨
        (r'.wait.phase = .sleeping ∧ ∃ f ∈ r'.wait.state.futures, f.done = false)) := by
  obtain ⟨r', m', j, leads, follows', phase', none, passes, short⟩ :=
    follows.pass complete patient within phase remains
  obtain ⟨wakeAt, turns⟩ := turn_of_passed phase' none
  have isTerms := follows'.reached.sound.1.terms_eq
  have reached := follows'.reached.polled r'.sur.cancelled
  rw [Wait.pollNext_of_passed phase' none] at reached
  have leads' := leads.trans (.turn turns (.stays _))
  rw [patient.passed isTerms] at leads' reached
  by_cases met : Wait.isMet terms r'.wait.state.futures = true
  · rw [if_pos met] at leads' reached
    exact ⟨_, m', leads', follows'.turned reached rfl wakeAt, passes, short,
      Or.inl ⟨rfl, patient.isMet_iff.mp met⟩⟩
  · rw [if_neg met] at leads' reached
    have open_ : ∃ f ∈ r'.wait.state.futures, f.done = false := by
      by_contra none
      refine met (patient.isMet_iff.mpr fun f member => ?_)
      by_contra notDone
      exact none ⟨f, member, by simpa using notDone⟩
    exact ⟨_, m', leads', follows'.turned reached rfl wakeAt, passes, short,
      Or.inr ⟨rfl, open_⟩⟩

omit within in
/-- Sleep ends with the beginning of another pass, for which all has been seen. -/
theorem Follows.woken {m : ListingMonitor} {r : WaitRun} (follows : r.Follows sur terms set m)
    (phase : r.wait.phase = .sleeping) (open_ : ∃ f ∈ r.wait.state.futures, f.done = false) :
    ∃ r' m', Leads r r' ∧ r'.Follows sur terms set m' ∧ r'.wait.phase = .polling 0 ∧
      r'.wait.passes = r.wait.passes + 1 ∧ r'.wait.state.futures = r.wait.state.futures ∧
      ∀ u ∈ r'.wait.state.units, (m'.watched u.jobKey).Sees sur.stores u := by
  have running : r.wait.IsRunning := .of_sleeping phase
  have grouped := follows.grouped running
  have available : ∀ u ∈ r.wait.state.units, (sur.stores.store u.backend).unavailable = false :=
    fun u unit => complete.unit_available follows.inside grouped unit
  obtain ⟨now, m', beside, leads, passes⟩ :=
    slept available follows.undisturbed follows.monitor follows.guards phase
  have isTerms : (r.later now m' beside).wait.terms = terms := follows.reached.sound.1.terms_eq
  have notMet : ¬ Wait.isMet terms r.wait.state.futures = true := by
    obtain ⟨f, member, notDone⟩ := open_
    intro met
    rw [patient.isMet_iff.mp met f member] at notDone
    cases notDone
  have reached : (r.later now m' beside).wait.Reached
      (.fixed sur.stores.status? sur.stores.output?) terms set :=
    follows.reached.watched (SessionMonitor.storage m')
  have reached' := reached.woken sur.cancelled
  have wakes : (r.later now m' beside).wait.wake sur.cancelled =
      (r.later now m' beside).wait.beginPass := by
    unfold Wait.wake
    have phase' : (r.later now m' beside).wait.phase = .sleeping := phase
    rw [phase']
    exact (patient.decide isTerms sur.cancelled).trans (if_neg notMet)
  rw [wakes] at leads reached'
  exact ⟨_, m', leads, ⟨passes.undisturbed.turned _ _ _ _, reached', rfl, passes.calm.guards,
    follows.staged, follows.inside⟩, rfl, rfl, rfl, passes.calm.sees⟩

/-- A patient wait goes on until all is done, for one more pass at most than the longest chain below
what is open has calls. -/
theorem Follows.completes {m : ListingMonitor} {r : WaitRun} (follows : r.Follows sur terms set m)
    (phase : r.wait.phase = .polling 0) (remains : Remains sur.stores n 0 m r.wait.state) :
    ∃ r' m', Leads r r' ∧ r'.Follows sur terms set m' ∧ r'.wait.phase = .finished (.ok ()) ∧
      r'.wait.passes ≤ r.wait.passes + n ∧ ∀ f ∈ r'.wait.state.futures, f.done = true := by
  induction n generalizing r m with
  | zero =>
    obtain ⟨r', m', leads, follows', passes, short, ends⟩ :=
      follows.round complete patient within phase remains
    rcases ends with ⟨finished, done⟩ | ⟨-, f, member, open_⟩
    · exact ⟨r', m', leads, follows', finished, passes.le, done⟩
    · exact absurd trivial (short f member open_)
  | succ n ih =>
    obtain ⟨r', m', leads, follows', passes, short, ends⟩ :=
      follows.round complete patient within phase remains
    rcases ends with ⟨finished, done⟩ | ⟨sleeping, open_⟩
    · exact ⟨r', m', leads, follows', finished, by omega, done⟩
    · obtain ⟨r'', m'', leads', follows'', phase', passes', same, sees⟩ :=
        follows'.woken complete patient sleeping open_
      have grouped := follows''.grouped (.of_polling phase')
      have remains' := Remains.of_seen grouped sees (same.symm ▸ short)
      obtain ⟨last, m₁, leads'', follows₁, finished, few, done⟩ := ih follows'' phase' remains'
      exact ⟨last, m₁, leads.trans (leads'.trans leads''), follows₁, finished, by omega, done⟩

end WaitRun

/-! ## The waits of a session -/

variable {s : Session}

/-- A patient wait with a monitor of its own, at its start. -/
theorem Session.startRun_follows (complete : s.sur.stores.IsComplete s.futures)
    (patient : terms.IsPatient)
    (within : s.sur.Within (.fixed s.sur.stores.status? s.sur.stores.output?))
    (own : s.choice = .own) (keyed : s.storage.Keyed) (interval : 0 < s.storage.interval)
    (staged : ∀ f ∈ s.futures, f.Stage s.sur.stores)
    (open_ : s.futures.all (·.isComplete terms.download) = false) :
    ∃ m, (s.startRun terms []).Follows s.sur terms s.futures m ∧
      (s.startRun terms []).wait.phase = .polling 0 ∧ (s.startRun terms []).wait.passes = 1 ∧
      (s.startRun terms []).wait.state.futures = s.futures ∧
      ∀ u ∈ (s.startRun terms []).wait.state.units,
        (m.watched u.jobKey).Sees s.sur.stores u := by
  have inside : ∀ f ∈ s.futures, s.sur.stores.Reaches s.futures f.bare :=
    fun f => Stores.reaches_of_mem
  have available : ∀ f ∈ s.futures, (s.sur.stores.store f.backend).unavailable = false := by
    intro f member
    obtain ⟨st, replied⟩ := complete.status f.bare (inside f member)
    exact (Stores.available_of_status replied).1
  obtain ⟨w, m, begins, isTerms, sleeping, passes, futures, monitor, grouped, keyed', watched,
    idle⟩ :=
    s.beginWait_own own (fun backend => within.opening backend) available terms
      ((({} : Progress).tell (.total s.futures.length)).tell
        (.inc (s.futures.filter (·.isComplete terms.download)).length))
  have fits : (s.startRun terms []).Fits (.fixed s.sur.stores.status? s.sur.stores.output?) terms
      s.futures := Session.startRun_fits within nofun .none
  have notMet : ¬ Wait.isMet terms w.state.futures = true := by
    unfold Wait.isMet
    rw [patient.goal, futures, open_]
    nofun
  have entered : (s.startRun terms []).wait = w.beginPass := by
    unfold startRun
    rw [cutBy_none, begins]
    unfold Wait.enter
    rw [sleeping, isTerms, patient.goal]
    exact (patient.decide isTerms s.sur.cancelled).trans (if_neg notMet)
  obtain ⟨guards, sees⟩ := Guards.of_started keyed' watched idle
    (complete.watched_finished inside grouped)
  have undisturbed : (s.startRun terms []).Undisturbed s.sur := by
    have beside : (s.startRun terms []).beside = s.storage := by
      unfold startRun
      rw [own]
      rfl
    refine ⟨rfl, rfl, ?_, beside.symm ▸ keyed, beside.symm ▸ interval⟩
    unfold startRun
    rw [patient.timeout]
    rfl
  refine ⟨m, ⟨undisturbed, fits.reached, ?_, ?_, ?_, ?_⟩, ?_, ?_, ?_, ?_⟩
  · rw [entered]
    exact monitor
  · rw [entered]
    exact guards
  · rw [entered]
    exact futures.symm ▸ staged
  · rw [entered]
    exact futures.symm ▸ inside
  · rw [entered]
    rfl
  · rw [entered]
    exact congrArg (· + 1) passes
  · rw [entered]
    exact futures
  · rw [entered]
    exact sees

/-- It goes on until all is done, for one more pass at most than the longest chain below what is
open has calls. -/
theorem Session.startRun_completes (complete : s.sur.stores.IsComplete s.futures)
    (patient : terms.IsPatient)
    (within : s.sur.Within (.fixed s.sur.stores.status? s.sur.stores.output?))
    (own : s.choice = .own) (keyed : s.storage.Keyed) (interval : 0 < s.storage.interval)
    (staged : ∀ f ∈ s.futures, f.Stage s.sur.stores)
    (open_ : s.futures.all (·.isComplete terms.download) = false)
    (isDepth : s.sur.stores.IsDepth s.futures n) :
    ∃ r m, WaitRun.Leads (s.startRun terms []) r ∧ r.Follows s.sur terms s.futures m ∧
      r.wait.phase = .finished (.ok ()) ∧ r.wait.passes ≤ n + 1 ∧
      (∀ f ∈ r.wait.state.futures, f.done = true) ∧
      (s.startRun terms []).wait.state.futures = s.futures := by
  obtain ⟨m, follows, phase, passes, futures, sees⟩ :=
    Session.startRun_follows complete patient within own keyed interval staged open_
  have grouped := follows.grouped (.of_polling phase)
  have remains : Remains s.sur.stores n 0 m (s.startRun terms []).wait.state := by
    refine Remains.of_seen grouped sees ?_
    intro f member open_ chain
    have bounded := isDepth.bound f (futures ▸ member) open_ (n + 1) chain
    omega
  obtain ⟨r, m', leads, follows', finished, few, done⟩ :=
    follows.completes complete patient within phase remains
  exact ⟨r, m', leads, follows', finished, by omega, done, futures⟩

/-- Where no backend ever failed to open, all calls that were dispatched have been appended to a
wait set of which all is done. -/
theorem dispatched_appended {replies replies' : Replies} {stores : Stores}
    {initial earlier later : List Future} (fresh : ∀ f ∈ initial, f.IsFresh)
    (opens : replies.Opens) (before : Absorbed replies initial earlier) (opens' : replies'.Opens)
    (after : Absorbed replies' earlier later) (staged : ∀ g ∈ later, g.Stage stores)
    (done : ∀ g ∈ later, g.done = true) :
    ∀ g ∈ later, ∀ c ∈ stores.childrenOf g,
      c.name ∈ (later.drop initial.length).map Future.name := by
  intro g member c child
  have coherent := (before.keeps fun f member => (fresh f member).coherent).2
  obtain ⟨heirs, lineage⟩ := before.lineage opens fresh
  obtain ⟨heirs', lineage'⟩ := lineage.absorbed after opens' coherent
  have listed : c.name ∈ (later.filter (·.done)).flatMap Future.dispatched :=
    List.mem_flatMap.mpr ⟨g, List.mem_filter.mpr ⟨member, done g member⟩,
      (staged g member).dispatched_of_child (done g member) child⟩
  exact (lineage'.perm (after.keeps coherent).2).mem_iff.mpr listed

/-- A patient wait with a monitor of its own, for a wait set that began with fresh futures and over
any earlier waits, on stores that hold the outcomes of all calls it leads to: it returns after no
more passes than the longest chain of calls below an open future has calls, and one more. Every
future is then in its place and has recorded what the stores hold of its call; and where no backend
ever failed to open, all calls that were dispatched have been appended. -/
theorem wait_completes {replies : Replies} {initial : List Future}
    (fresh : ∀ f ∈ initial, f.IsFresh) (isTrue : replies.IsTrueTo s.sur.stores)
    (tracked : Tracked replies initial s.futures) (complete : s.sur.stores.IsComplete s.futures)
    (noneClosed : s.sur.faults.closedBackends = []) (noneFailing : s.sur.faults.failing = [])
    (own : s.choice = .own) (keyed : s.storage.Keyed) (interval : 0 < s.storage.interval)
    (patient : terms.IsPatient) :
    ∃ depth, s.sur.stores.IsDepth s.futures depth ∧ ∃ enough, ∀ limit, enough ≤ limit →
      ({ s with limit }.wait terms []).2.1 = .ok () ∧
      ({ s with limit }.wait terms []).2.2.passes ≤ depth + 1 ∧
      Kept s.futures ({ s with limit }.wait terms []).1.futures ∧
      (∀ g ∈ ({ s with limit }.wait terms []).1.futures, g.done = true ∧
        g = s.sur.stores.outcome g ∧
        ∃ st, s.sur.stores.status? g.backend g.key = .ok (some st) ∧ g.status = some st) ∧
      (replies.Opens → ∀ g ∈ ({ s with limit }.wait terms []).1.futures,
        ∀ c ∈ s.sur.stores.childrenOf g,
          c.name ∈ (({ s with limit }.wait terms []).1.futures.drop initial.length).map
            Future.name) := by
  obtain ⟨depth, isDepth⟩ := Stores.exists_depth complete.acyclic
  refine ⟨depth, isDepth, ?_⟩
  have within := Surroundings.within_fixed noneClosed noneFailing
  have inside : ∀ f ∈ s.futures, s.sur.stores.Reaches s.futures f.bare :=
    fun f => Stores.reaches_of_mem
  have coherent := (tracked.absorbed.keeps fun f member => (fresh f member).coherent).2
  have staged := tracked.absorbed.staged isTrue (complete.homesAgree inside)
    fun f member => (fresh f member).stage
  cases allDone : s.futures.all (·.isComplete terms.download) with
  | true =>
    refine ⟨0, fun limit _ => ?_⟩
    obtain ⟨same, outcome, passes⟩ := Session.wait_of_complete (s := { s with limit }) [] allDone
    rw [same]
    have done : ∀ g ∈ s.futures, g.done = true := by
      intro g member
      have complete := List.all_eq_true.mp allDone g member
      rwa [patient.download] at complete
    refine ⟨outcome, by omega, .refl s.futures, fun g member =>
      (staged g member).recorded_of_done (done g member), fun opens => ?_⟩
    exact dispatched_appended fresh opens tracked.absorbed opens .refl staged done
  | false =>
    obtain ⟨r, m', leads, follows', finished, few, done, -⟩ :=
      Session.startRun_completes complete patient within own keyed interval staged allDone isDepth
    obtain ⟨enough, ends⟩ := leads.run_eq finished
    refine ⟨enough, fun limit fits => ?_⟩
    obtain ⟨same, outcome, passes'⟩ := Session.wait_of_incomplete (s := { s with limit }) [] allDone
      (ends limit fits).symm
    rw [same, outcome, passes', finished]
    have kept := (follows'.reached.sound.2.keeps coherent).1
    refine ⟨rfl, by omega, kept, fun g member =>
      (follows'.staged g member).recorded_of_done (done g member), fun opens => ?_⟩
    exact dispatched_appended fresh opens tracked.absorbed (Replies.opens_fixed _ _)
      follows'.reached.sound.2 follows'.staged done

/-! ### A call that dispatched another, after a wait for statuses -/

namespace Chained

def parent : CallName := ⟨"e", "j", "0"⟩

def child : CallName := ⟨"e", "k", "0"⟩

/-- The outcomes of both calls. -/
def stores : Stores where
  entries :=
    [("b", (({} : Store).leaveOutput parent (.calls [child])).leaveStatus parent .ok
      |>.complete child (.text "x"))]

/-- A session that begins with the first call. -/
def begun : Session where
  futures := [{ key := parent, backend := "b" }]
  sur := { stores }
  monitorInterval := 10
  storage := { interval := 10 }
  limit := 20

/-- The session once the status of the first call is known. -/
def session : Session :=
  { begun with futures :=
      [{ key := parent, backend := "b", ready := true, status := some .ok }] }

def patiently : WaitTerms := { download := true, throwing := false }

theorem tracked_session :
    Tracked (.fixed stores.status? stores.output?) begun.futures session.futures := by
  let w : Wait ManualMonitor := ((Wait.prepare { goal := .always, throwing := false }
    { openBackend := fun _ _ => .ok () } { seen := [("e-j", ["0"])] } {} begun.futures).enter
      false).pollNext false
  have reached : w.Reached (.fixed stores.status? stores.output?)
      { goal := .always, throwing := false } begun.futures :=
    .polled false (.entered false (.prepared _ _ fun _ _ => rfl))
  have fetching : w.phase = .fetching 0 [⟨0, parent, true, true⟩] := rfl
  have answers : Answers (.fixed stores.status? stores.output?) "b" false
      [⟨0, parent, true, true⟩] [(0, .ok (.status (some .ok)))] := by
    refine ⟨.refl _, ?_⟩
    intro x member
    obtain rfl := List.mem_singleton.mp member
    have asked : (⟨0, parent, true, true⟩ : Target).Comes
        (.fixed stores.status? stores.output?) "b" false .askStatus := .first
    have status : (Replies.fixed stores.status? stores.output?).status "b" parent
        (.ok (some .ok)) := rfl
    exact ⟨_, List.mem_singleton_self _, rfl, asked.status status⟩
  have same : (w.answer [(0, .ok (.status (some .ok)))]).state.futures = session.futures := by
    simp only [Wait.answer, fetching, WaitState.settle, sortAnswers, List.mergeSort_singleton]
    rfl
  exact same ▸ .waited .begun (.answered reached fetching rfl answers)

/-- Only the two calls can be reached. -/
theorem reached_cases {g : Future} (reached : stores.Reaches session.futures g) :
    g = .ofName (parent, "b") ∨ g = .ofName (child, "b") := by
  obtain ⟨f, member, path⟩ := reached
  obtain rfl := List.mem_singleton.mp member
  induction path with
  | refl => exact Or.inl rfl
  | tail _ step ih =>
    rcases ih with rfl | rfl
    · exact Or.inr (List.mem_singleton.mp step)
    · cases step

theorem complete : stores.IsComplete session.futures where
  status g reached := by
    rcases reached_cases reached with rfl | rfl
    · exact ⟨.ok, rfl⟩
    · exact ⟨.ok, rfl⟩
  output g s reached _ _ _ := by
    rcases reached_cases reached with rfl | rfl
    · exact ⟨.calls [child], rfl⟩
    · exact ⟨.value (.text "x"), rfl⟩
  keys g h reached reached' same := by
    rcases reached_cases reached with rfl | rfl <;> rcases reached_cases reached' with rfl | rfl
    · exact ⟨rfl, rfl⟩
    · exact absurd same (by decide)
    · exact absurd same (by decide)
    · exact ⟨rfl, rfl⟩
  homes g h reached reached' _ _ := by
    rcases reached_cases reached with rfl | rfl <;> rcases reached_cases reached' with rfl | rfl <;>
      rfl
  acyclic g reached := by
    have last {h : Future} : ¬ stores.Dispatches (.ofName (child, "b")) h := nofun
    intro circle
    obtain ⟨h, first, back⟩ := Relation.TransGen.head'_iff.mp circle
    rcases reached_cases reached with rfl | rfl
    · obtain rfl := List.mem_singleton.mp first
      rcases back.cases_head with same | ⟨h', next, -⟩
      · exact absurd (congrArg (fun f : Future => f.key.jobId) same) (by decide)
      · exact last next
    · exact last first

theorem not_chain_child : ¬ stores.Chain 1 (.ofName (child, "b")) := by
  rintro ⟨g, dispatched, -⟩
  exact List.not_mem_nil dispatched

/-- A patient wait finds the second call, and all is done after two passes at most. -/
theorem wait_completes_chained :
    ∃ enough, ∀ limit, enough ≤ limit →
      ({ session with limit }.wait patiently []).2.1 = .ok () ∧
      ({ session with limit }.wait patiently []).2.2.passes ≤ 2 ∧
      (∀ g ∈ ({ session with limit }.wait patiently []).1.futures, g.done = true) ∧
      (child, "b") ∈ (({ session with limit }.wait patiently []).1.futures.drop 1).map
        Future.name := by
  have fresh : ∀ f ∈ begun.futures, f.IsFresh := by
    intro f member
    obtain rfl := List.mem_singleton.mp member
    exact Future.isFresh_new _ _
  obtain ⟨depth, isDepth, enough, waits⟩ := wait_completes (s := session) fresh
    (Replies.fixed_isTrueTo stores) tracked_session complete rfl rfl rfl List.nodup_nil (by decide)
    (show patiently.IsPatient from ⟨rfl, rfl, rfl, rfl, rfl⟩)
  have shallow : depth ≤ 1 := by
    obtain ⟨f, member, -, chain⟩ := isDepth.attained ⟨_, List.mem_cons_self, rfl⟩
    obtain rfl := List.mem_singleton.mp member
    by_contra deep
    obtain ⟨g, dispatched, below⟩ := chain.mono (show 2 ≤ depth by omega)
    obtain rfl := List.mem_singleton.mp dispatched
    exact not_chain_child below
  refine ⟨enough, fun limit fits => ?_⟩
  obtain ⟨outcome, few, kept, each, appended⟩ := waits limit fits
  obtain ⟨g, found, keeps⟩ := kept 0 _ rfl
  have dispatched : Future.ofName (child, "b") ∈ stores.childrenOf g := by
    have bare : g.bare = .ofName (parent, "b") := by
      unfold Future.bare
      rw [keeps.key, keeps.backend, keeps.produceOutput]
      rfl
    rw [Stores.childrenOf_eq_of_bare (f := .ofName (parent, "b")) bare]
    exact List.mem_singleton_self _
  exact ⟨outcome, few.trans (Nat.succ_le_succ shallow), fun g member => (each g member).1,
    appended (Replies.opens_fixed _ _) g (List.mem_of_getElem? found) _ dispatched⟩

end Chained

end CallDispatch
