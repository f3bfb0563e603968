import CallDispatch.Proofs.Tracking.Runs

/-!
# Jobs that share a wait

One pass for statuses alone asks, for the calls of each joined job key, which of them the store
lists as finished calls of the job that comes first with this key. A call so listed that has a
status becomes ready; any other stays as it is. Jobs whose joined keys differ make no difference to
each other, but two jobs whose joined keys agree are taken for one.
-/

namespace CallDispatch

/-- A fetch for a status alone comes to what the store has. -/
theorem Target.fetch_status {status? : CallName → Outcome (Option StatusRecord)}
    {output? : CallName → Outcome (Option OutputRecord)} {t : Target}
    {found : Option StatusRecord} (replied : status? t.key = .ok found) :
    t.fetch false status? output? = .ok (.status found) := by
  simp [fetch, first, afterStatus, replied]

/-! ## One unit at once -/

/-- Fetches that take no time. -/
def Surroundings.IsQuick (sur : Surroundings) : Prop :=
  ∀ t step, (FetchPool.question sur t step).2 = 0

theorem Surroundings.isQuick {sur : Surroundings} (faults : sur.faults = {}) : sur.IsQuick := by
  intro t step
  cases step <;> simp [FetchPool.question, Faults.latency, faults]

/-- Where fetches take no time, a pool that is started is done. -/
theorem FetchPool.Driven.done_of_quick {replies : Replies} {sur : Surroundings} {now cost : Nat}
    {targets : List Target} {p q : FetchPool} (driven : Driven replies sur now targets cost p q)
    (quick : sur.IsQuick) (room : 0 < p.capacity) (unasked : p.pending = []) :
    q.isDone = true := by
  have nothingDue : q.pending = [] := by
    refine List.eq_nil_iff_forall_not_mem.mpr fun g member => ?_
    rcases driven.due g member with old | ⟨-, takes⟩
    · rw [unasked] at old
      cases old
    · rw [quick] at takes
      cases takes
  cases isDone : q.isDone with
  | true => rfl
  | false => exact absurd nothingDue (driven.pending_ne_nil room isDone)

namespace WaitRun

variable {replies : Replies} {terms : WaitTerms} {futures : List Future} {r : WaitRun}

/-- Where fetches take no time, a unit is polled at once: it has nothing to fetch, or takes all its
answers. -/
theorem unit_at_once (reached : r.wait.Reached replies terms futures)
    (within : r.sur.Within replies) (quick : r.sur.IsQuick) {i : Nat} {u : WaitUnit}
    (phase : r.wait.phase = .polling i) (found : r.wait.state.units[i]? = some u) :
    ∃ r', Leads r r' ∧ r'.sur = r.sur ∧ r'.wait.Reached replies terms futures ∧
      ((r.wait.state.targets terms.download u = [] ∧
          r'.wait = { r.wait with phase := .polling (i + 1) }) ∨
        ∃ answers, Answers replies u.backend terms.download
            (r.wait.state.targets terms.download u) answers ∧
          r'.wait = ({ r.wait with
            phase := .fetching i (r.wait.state.targets terms.download u) }).answer answers) := by
  rcases turn_of_polling reached within phase found with ⟨none, skipped, wakeAt, turns⟩ |
      ⟨p, q, log, turns, fetching, backend, download, room, unasked, driven⟩
  · exact ⟨_, .turn turns (.stays _), rfl, skipped, Or.inl ⟨none, rfl⟩⟩
  · have done := driven.done_of_quick quick room unasked
    have answers := driven.serving.done done
    rw [driven.kind.backend, backend, driven.kind.download, download] at answers
    exact ⟨_, .turn turns (.turn (turn_of_fetched rfl rfl done) (.stays _)), rfl,
      fetching.answered rfl found answers, Or.inr ⟨q.answers, answers, rfl⟩⟩

end WaitRun

/-! ## One pass for statuses -/

/-- What a pass for statuses alone makes of a member of a unit: it becomes ready if the store lists
its call among the finished calls of the unit's job and has a status of it. -/
def Future.noticed (stores : Stores) (u : WaitUnit) (f : Future) : Future :=
  if f.isComplete false then f
  else if f.key.callId ∈ u.finishedCalls stores then
    match Store.lookup f.key (stores.store u.backend).statuses with
    | some s => f.withStatus s
    | none => f
  else f

/-- A pass for statuses alone, with the units below an index polled. -/
structure Noticing (stores : Stores) (futures : List Future) (units : List WaitUnit) (i : Nat)
    (w : Wait SessionMonitor) : Prop where
  phase : w.phase = .polling i
  units_eq : w.state.units = units
  sees : ∀ u ∈ units, ∀ id, id ∈ Watcher.observed w.state.monitor u.jobKey ↔
    id ∈ u.finishedCalls stores
  names : w.state.futures.map Future.name = futures.map Future.name
  polled : ∀ j u, units[j]? = some u → j < i → ∀ p ∈ u.members, ∀ f, futures[p]? = some f →
    w.state.futures[p]? = some (f.noticed stores u)
  left : ∀ j u, units[j]? = some u → i ≤ j → ∀ p ∈ u.members, ∀ f, futures[p]? = some f →
    w.state.futures[p]? = some f

/-- What the answer to the fetch of a member makes of it. -/
theorem Future.recorded_status {stores : Stores} {u : WaitUnit} {f : Future} {p : Nat}
    {answer : Outcome FetchAnswer} (throwing : Bool)
    (available : (stores.store u.backend).unavailable = false)
    (open_ : f.isComplete false = false) (listed : f.key.callId ∈ u.finishedCalls stores)
    (comes : (f.target p).Comes (.fixed stores.status? stores.output?) u.backend false
      (.finished answer)) :
    (∃ a, answer = .ok a) ∧ f.recorded throwing answer = f.noticed stores u ∧
      (f.noticed stores u).children = f.children := by
  have same := comes.eq_fetch
  rw [Target.fetch_status (Stores.status?_ok available f.key)] at same
  subst same
  refine ⟨⟨_, rfl⟩, ?_⟩
  rw [noticed, if_neg (by simp [open_]), if_pos listed]
  cases Store.lookup f.key (stores.store u.backend).statuses with
  | none => exact ⟨rfl, rfl⟩
  | some s => exact ⟨rfl, f.withStatus_children s⟩

theorem Future.noticed_of_not_listed {stores : Stores} {u : WaitUnit} {f : Future}
    (still : f.isComplete false = true ∨ f.key.callId ∉ u.finishedCalls stores) :
    f.noticed stores u = f := by
  unfold noticed
  rcases still with complete | absent
  · rw [if_pos complete]
  · rw [if_neg absent, ite_self]

namespace Noticing

variable {stores : Stores} {futures : List Future} {units : List WaitUnit} {i : Nat}
  {w : Wait SessionMonitor} {terms : WaitTerms} {u : WaitUnit}

/-- The members of the unit that is polled next are as they were. -/
theorem member (noticing : Noticing stores futures units i w)
    (grouped : Grouped (futures.map Future.name) units) (found : units[i]? = some u) {p : Nat}
    (inside : p ∈ u.members) :
    ∃ f, futures[p]? = some f ∧ w.state.futures[p]? = some f ∧ f.jobKey = u.jobKey := by
  obtain ⟨name, named, key⟩ := (grouped.member u (List.mem_of_getElem? found) p).mp inside
  rw [List.getElem?_map] at named
  obtain ⟨f, at_, rfl⟩ := Option.map_eq_some_iff.mp named
  exact ⟨f, at_, noticing.left i u found (Nat.le_refl i) p inside f at_, key⟩

/-- A member that is not fetched is complete, or not listed as finished. -/
theorem still (noticing : Noticing stores futures units i w)
    (grouped : Grouped (futures.map Future.name) units) (found : units[i]? = some u) {p : Nat}
    (inside : p ∈ u.members) {f : Future} (known : futures[p]? = some f)
    (unasked : p ∉ (w.state.targets false u).map (·.index)) :
    f.isComplete false = true ∨ f.key.callId ∉ u.finishedCalls stores := by
  obtain ⟨f', known', now, -⟩ := noticing.member grouped found inside
  rw [known] at known'
  cases known'
  by_cases complete : f.isComplete false = true
  · exact Or.inl complete
  · refine Or.inr fun listed => ?_
    have seen := (noticing.sees u (List.mem_of_getElem? found) f.key.callId).mpr listed
    have target : f.target p ∈ w.state.targets false u :=
      WaitState.mem_targets.mpr ⟨p, inside, f, now, by simpa using complete, seen, rfl⟩
    exact unasked (List.mem_map_of_mem target)

/-- A unit with nothing to fetch. -/
theorem skip (noticing : Noticing stores futures units i w)
    (grouped : Grouped (futures.map Future.name) units) (found : units[i]? = some u)
    (none : w.state.targets false u = []) :
    Noticing stores futures units (i + 1) { w with phase := .polling (i + 1) } := by
  refine ⟨rfl, noticing.units_eq, noticing.sees, noticing.names, ?_, ?_⟩
  · intro j v at_ below p inside f known
    rcases Nat.lt_or_ge j i with before | here
    · exact noticing.polled j v at_ before p inside f known
    · obtain rfl : i = j := by omega
      rw [found] at at_
      cases at_
      have unasked : p ∉ (w.state.targets false u).map (·.index) := by
        rw [none]
        simp
      rw [Future.noticed_of_not_listed (noticing.still grouped found inside known unasked)]
      exact noticing.left i u found (Nat.le_refl i) p inside f known
  · intro j v at_ above
    exact noticing.left j v at_ (by omega)

/-- What an answer to the fetch of a member says: the future it is about was open, and becomes what
a pass makes of it. -/
structure Told (stores : Stores) (futures : List Future) (u : WaitUnit) (w : Wait SessionMonitor)
    (throwing : Bool) (x : Nat × Outcome FetchAnswer) (f : Future) : Prop where
  inside : x.1 ∈ u.members
  known : futures[x.1]? = some f
  now : w.state.futures[x.1]? = some f
  unfinished : f.isComplete false = false
  fine : ∃ a, x.2 = .ok a
  recorded : f.recorded throwing x.2 = f.noticed stores u
  children : (f.noticed stores u).children = f.children

theorem each_told (noticing : Noticing stores futures units i w)
    (grouped : Grouped (futures.map Future.name) units) (found : units[i]? = some u)
    (throwing : Bool) (available : (stores.store u.backend).unavailable = false)
    {answers : List (Nat × Outcome FetchAnswer)}
    (fetched : Answers (.fixed stores.status? stores.output?) u.backend false
      (w.state.targets false u) answers) :
    ∀ x ∈ answers, ∃ f, Told stores futures u w throwing x f := by
  intro x listed
  obtain ⟨t, target, same, comes⟩ := fetched.each x listed
  obtain ⟨p, inside, f, now, open_, seen, rfl⟩ := WaitState.mem_targets.mp target
  obtain ⟨f', known, now', -⟩ := noticing.member grouped found inside
  rw [now] at now'
  cases now'
  obtain rfl : x.1 = p := same
  have listed := (noticing.sees u (List.mem_of_getElem? found) f.key.callId).mp seen
  obtain ⟨fine, recorded, children⟩ :=
    Future.recorded_status throwing available open_ listed comes
  exact ⟨f, inside, known, now, open_, fine, recorded, children⟩

/-- Answers about statuses bring no calls that have been dispatched. -/
theorem children_of_told (coherent : ∀ f ∈ futures, f.Coherent)
    {answers : List (Nat × Outcome FetchAnswer)} (distinct : (answers.map (·.1)).Nodup)
    (each : ∀ x ∈ answers, ∃ f, Told stores futures u w terms.throwing x f) :
    (recordAll terms answers w.state.futures).children = [] := by
  rw [children_recordAll distinct, List.flatMap_eq_nil_iff]
  intro x sorted
  obtain ⟨f, told⟩ := each x ((sortAnswers_perm answers).mem_iff.mp sorted)
  have notDone := Future.done_of_open told.unfinished
  have none : f.children = [] := by
    by_contra some
    have done := (coherent f (List.mem_of_getElem? told.known)).done_of_children some
    rw [notDone] at done
    cases done
  rw [Recorded.adoptedAt, told.now]
  dsimp only
  rw [told.recorded, Future.adopted, Future.dispatched, told.children, none, List.map_nil,
    ite_self]

/-- A unit whose members have been asked about. -/
theorem take (noticing : Noticing stores futures units i w)
    (grouped : Grouped (futures.map Future.name) units) (found : units[i]? = some u)
    (isTerms : w.terms = terms) (statusOnly : terms.download = false)
    (quiet : terms.throwing = false) (coherent : ∀ f ∈ futures, f.Coherent)
    (available : (stores.store u.backend).unavailable = false)
    {answers : List (Nat × Outcome FetchAnswer)}
    (fetched : Answers (.fixed stores.status? stores.output?) u.backend terms.download
      (w.state.targets terms.download u) answers) :
    Noticing stores futures units (i + 1) (({ w with
      phase := .fetching i (w.state.targets terms.download u) } : Wait _).answer answers) := by
  rw [statusOnly] at fetched ⊢
  have distinct : (answers.map (·.1)).Nodup :=
    fetched.indexes.nodup_iff.mpr
      (WaitState.nodup_targets (grouped.nodup u (List.mem_of_getElem? found)))
  have each := noticing.each_told grouped found terms.throwing available fetched
  have asks (p : Nat) (asked : p ∈ answers.map (·.1)) : p ∈ u.members := by
    obtain ⟨x, listed, rfl⟩ := List.mem_map.mp asked
    obtain ⟨_, told⟩ := each x listed
    exact told.inside
  have silent : (recordAll terms answers w.state.futures).firstError = none := by
    refine Recorded.firstError_foldl quiet ?_ rfl
    intro x sorted
    obtain ⟨_, told⟩ := each x ((sortAnswers_perm answers).mem_iff.mp sorted)
    exact told.fine
  have childless := children_of_told coherent distinct each
  obtain ⟨progress, settled⟩ := WaitState.settle_of_no_children (s := w.state) w.provider childless
  rw [silent] at settled
  rw [Wait.answer_of_none rfl (by rw [isTerms]; exact settled)]
  refine ⟨rfl, noticing.units_eq, noticing.sees, ?_, ?_, ?_⟩
  · exact (names_recordAll distinct).trans noticing.names
  · intro j v at_ below p inside f known
    rw [getElem?_recordAll distinct]
    rcases Nat.lt_or_ge j i with before | here
    · have elsewhere : p ∉ answers.map (·.1) := fun asked => by
        have same := grouped.unit_unique at_ found inside (asks p asked)
        omega
      rw [noticing.polled j v at_ before p inside f known, Option.map_some,
        Future.answered_sorted_of_not_mem elsewhere]
    · obtain rfl : i = j := by omega
      rw [found] at at_
      cases at_
      rw [noticing.left i u found (Nat.le_refl i) p inside f known, Option.map_some]
      by_cases asked : p ∈ answers.map (·.1)
      · obtain ⟨x, listed, rfl⟩ := List.mem_map.mp asked
        obtain ⟨f', told⟩ := each x listed
        have same := told.known
        rw [known] at same
        cases same
        rw [Future.answered_sorted_of_mem distinct listed, told.recorded]
      · have unasked : f.isComplete false = true ∨ f.key.callId ∉ u.finishedCalls stores := by
          rw [fetched.indexes.mem_iff] at asked
          exact noticing.still grouped found inside known asked
        rw [Future.answered_sorted_of_not_mem asked, Future.noticed_of_not_listed unasked]
  · intro j v at_ above p inside f known
    have elsewhere : p ∉ answers.map (·.1) := fun asked => by
      have same := grouped.unit_unique at_ found inside (asks p asked)
      omega
    rw [getElem?_recordAll distinct, noticing.left j v at_ (by omega) p inside f known,
      Option.map_some, Future.answered_sorted_of_not_mem elsewhere]

end Noticing

/-- Where fetches take no time, a pass polls all units. -/
theorem WaitRun.pass_notices {stores : Stores} {futures : List Future} {units : List WaitUnit}
    {terms : WaitTerms} (grouped : Grouped (futures.map Future.name) units)
    (available : ∀ u ∈ units, (stores.store u.backend).unavailable = false)
    (coherent : ∀ f ∈ futures, f.Coherent) (statusOnly : terms.download = false)
    (quiet : terms.throwing = false) {i : Nat} {r : WaitRun}
    (noticing : Noticing stores futures units i r.wait)
    (reached : r.wait.Reached (.fixed stores.status? stores.output?) terms futures)
    (within : r.sur.Within (.fixed stores.status? stores.output?)) (quick : r.sur.IsQuick)
    (inside : i ≤ units.length) :
    ∃ r', Leads r r' ∧ Noticing stores futures units units.length r'.wait ∧
      r'.wait.Reached (.fixed stores.status? stores.output?) terms futures := by
  rcases Nat.lt_or_ge i units.length with below | past
  · have found := List.getElem?_eq_getElem below
    have isTerms := reached.sound.1.terms_eq
    have unit := List.getElem_mem below
    obtain ⟨r', leads, same, reached', went⟩ :=
      unit_at_once reached within quick noticing.phase (by rw [noticing.units_eq, found])
    have noticing' : Noticing stores futures units (i + 1) r'.wait := by
      rcases went with ⟨none, isWait⟩ | ⟨answers, fetched, isWait⟩
      · rw [statusOnly] at none
        rw [isWait]
        exact noticing.skip grouped found none
      · rw [isWait]
        exact noticing.take grouped found isTerms statusOnly quiet coherent (available _ unit)
          fetched
    obtain ⟨r'', leads', noticing'', reached''⟩ := pass_notices grouped available coherent
      statusOnly quiet noticing' reached' (same ▸ within) (same ▸ quick) below
    exact ⟨r'', leads.trans leads', noticing'', reached''⟩
  · obtain rfl : i = units.length := by omega
    exact ⟨r, .stays r, noticing, reached⟩
termination_by units.length - i

/-- When a pass for statuses makes a future ready. -/
theorem Future.ready_noticed {stores : Stores} {u : WaitUnit} {f : Future}
    (coherent : f.Coherent) (available : (stores.store u.backend).unavailable = false) :
    (f.noticed stores u).ready = true ↔ f.isComplete false = true ∨
      (∃ s, stores.status? u.backend f.key = .ok (some s)) ∧
        ∃ s, stores.status? u.backend ⟨u.executorId, u.jobId, f.key.callId⟩ = .ok (some s) := by
  have status (key : CallName) (s : StatusRecord) : stores.status? u.backend key = .ok (some s) ↔
      Store.lookup key (stores.store u.backend).statuses = some s := by
    rw [Stores.status?_ok available]
    simp
  simp only [status]
  have listed : f.key.callId ∈ u.finishedCalls stores ↔
      ∃ s, Store.lookup ⟨u.executorId, u.jobId, f.key.callId⟩ (stores.store u.backend).statuses =
        some s := Store.mem_finishedCalls
  rw [← listed]
  by_cases complete : f.isComplete false = true
  · have ready : f.ready = true := by
      rcases Bool.or_eq_true_iff.mp (show (f.ready || f.done) = true from complete) with
        ready | done
      · exact ready
      · exact coherent.ready_of_done done
    rw [Future.noticed, if_pos complete]
    exact ⟨fun _ => Or.inl complete, fun _ => ready⟩
  · have notReady : f.ready = false := by
      have neither : (f.ready || f.done) = false := Bool.eq_false_iff.mpr complete
      exact (Bool.or_eq_false_iff.mp neither).1
    rw [Future.noticed, if_neg complete]
    by_cases seen : f.key.callId ∈ u.finishedCalls stores
    · rw [if_pos seen]
      cases found : Store.lookup f.key (stores.store u.backend).statuses with
      | none => simp [notReady, complete]
      | some s => simp [complete, seen]
    · rw [if_neg seen]
      simp [notReady, complete, seen]

variable {s : Session} {terms : WaitTerms} {backend : String}

/-- What a wait set is entered with: its units, each listed at its store if that is available. -/
theorem Session.beginWait_noticing (own : s.choice = .own) (faults : s.sur.faults = {})
    (available : ∀ f ∈ s.futures, (s.sur.stores.store f.backend).unavailable = false)
    (always : terms.goal = .always) (timeline : List (Nat × Change)) :
    ∃ units, Grouped (s.futures.map Future.name) units ∧
      (∀ u ∈ units, (s.sur.stores.store u.backend).unavailable = false) ∧
      Noticing s.sur.stores s.futures units 0 (s.startRun terms timeline).wait := by
  have opens (backend : String) : s.sur.faults.openBackend backend = .ok () := by
    rw [faults]
    rfl
  obtain ⟨w, m, begins, isTerms, sleeping, -, futures, monitor, grouped, -, watched, -⟩ :=
    s.beginWait_own own opens available terms ((({} : Progress).tell
      (.total s.futures.length)).tell
        (.inc (s.futures.filter (·.isComplete terms.download)).length))
  have entered : (s.startRun terms timeline).wait = w.beginPass := by
    unfold startRun
    rw [cutBy_none, begins]
    unfold Wait.enter
    simp only [sleeping, isTerms, always, if_true]
  refine ⟨w.state.units, grouped, ?_, ?_⟩
  · intro u member
    obtain ⟨name, atHead, heading⟩ := grouped.first u member
    obtain ⟨f, listed, rfl⟩ := List.mem_map.mp (jobKey_of_firstOf atHead).1
    have backend : u.backend = f.backend := congrArg (·.2.2) heading
    rw [backend]
    exact available f listed
  · rw [entered]
    refine ⟨rfl, rfl, ?_, congrArg (List.map Future.name) futures, nofun, ?_⟩
    · intro u member id
      show id ∈ Watcher.observed w.state.monitor u.jobKey ↔ _
      rw [monitor]
      show id ∈ (m.watched u.jobKey).observed ↔ _
      rw [watched u member]
      show id ∈ extend [] (u.finishedCalls s.sur.stores) ↔ _
      rw [mem_extend]
      simp
    · intro j u _ _ p _ f known
      show w.state.futures[p]? = some f
      rw [futures, known]

/-- What a wait for statuses that always returns after one pass makes of a wait set. -/
theorem Session.always_wait_notices (own : s.choice = .own) (faults : s.sur.faults = {})
    (available : ∀ f ∈ s.futures, (s.sur.stores.store f.backend).unavailable = false)
    (coherent : ∀ f ∈ s.futures, f.Coherent) (statusOnly : terms.download = false)
    (always : terms.goal = .always) (quiet : terms.throwing = false)
    (timeline : List (Nat × Change)) :
    ∃ (units : List WaitUnit) (later : List Future) (enough : Nat),
      Grouped (s.futures.map Future.name) units ∧
      (∀ limit, enough ≤ limit → ({ s with limit }.wait terms timeline).2.1 = .ok () ∧
        ({ s with limit }.wait terms timeline).1.futures = later) ∧
      later.map Future.name = s.futures.map Future.name ∧
      ∀ u ∈ units, ∀ p ∈ u.members, ∀ f, s.futures[p]? = some f →
        later[p]? = some (f.noticed s.sur.stores u) := by
  obtain ⟨units, grouped, stores, noticing⟩ :=
    s.beginWait_noticing own faults available always timeline
  cases complete : s.futures.all (·.isComplete terms.download) with
  | true =>
    refine ⟨units, s.futures, 0, grouped, ?_, rfl, ?_⟩
    · intro limit _
      obtain ⟨same, outcome, -⟩ :=
        Session.wait_of_complete (s := { s with limit }) timeline complete
      rw [same]
      exact ⟨outcome, rfl⟩
    · intro u _ p _ f found
      have done := List.all_eq_true.mp complete f (List.mem_of_getElem? found)
      rw [statusOnly] at done
      rw [Future.noticed_of_not_listed (Or.inl done)]
      exact found
  | false =>
    have within : s.sur.Within (.fixed s.sur.stores.status? s.sur.stores.output?) :=
      Surroundings.within_fixed (by rw [faults]) (by rw [faults])
    have reached : (s.startRun terms timeline).wait.Reached
        (.fixed s.sur.stores.status? s.sur.stores.output?) terms s.futures := by
      obtain ⟨w', begins', reached', -⟩ := s.beginWait_entered within terms
        ((({} : Progress).tell (.total s.futures.length)).tell
          (.inc (s.futures.filter (·.isComplete terms.download)).length)) .none
      unfold startRun
      rw [cutBy_none, begins']
      exact reached'.entered _
    obtain ⟨r, leads, noticed, reached'⟩ := WaitRun.pass_notices grouped stores coherent statusOnly
      quiet noticing reached within (Surroundings.isQuick faults) (Nat.zero_le _)
    have none : r.wait.state.units[units.length]? = none := by
      rw [noticed.units_eq, List.getElem?_eq_none_iff]
    obtain ⟨wakeAt, turns⟩ := WaitRun.turn_of_passed noticed.phase none
    have met : r.wait.passed r.sur.cancelled = r.wait.finish (.ok ()) := by
      unfold Wait.passed
      rw [reached'.sound.1.terms_eq]
      exact if_pos (by rw [Wait.isMet, always])
    rw [met] at turns
    obtain ⟨enough, ends⟩ := (leads.trans (.turn turns (.stays _))).run_eq rfl
    refine ⟨units, r.wait.state.futures, enough, grouped, ?_, noticed.names, ?_⟩
    · intro limit fits
      obtain ⟨same, outcome, -⟩ := Session.wait_of_incomplete (s := { s with limit })
        timeline complete (ends limit fits).symm
      exact ⟨outcome, same⟩
    · intro u member p inside f known
      obtain ⟨j, at_⟩ := List.getElem?_of_mem member
      exact noticed.polled j u at_ (List.getElem?_eq_some_iff.mp at_).1 p inside f known

/-- A wait for statuses that always returns after one pass makes exactly those futures ready whose
call has a status, so long as the job that comes first with their joined key has finished a call of
the same identifier. So a future whose joined key no other job shares becomes ready exactly when its
own call has a status, whatever else is tracked. -/
theorem always_wait_ready (own : s.choice = .own) (faults : s.sur.faults = {})
    (available : (s.sur.stores.store backend).unavailable = false)
    (one : ∀ f ∈ s.futures, f.backend = backend) (coherent : ∀ f ∈ s.futures, f.Coherent)
    (statusOnly : terms.download = false) (always : terms.goal = .always)
    (quiet : terms.throwing = false) (timeline : List (Nat × Change)) :
    ∃ enough, ∀ limit, enough ≤ limit →
      ({ s with limit }.wait terms timeline).2.1 = .ok () ∧
      ({ s with limit }.wait terms timeline).1.futures.map Future.name =
        s.futures.map Future.name ∧
      ∀ (i : Nat) (f : Future), s.futures[i]? = some f → ∃ (g : Future) (first : CallName × String),
        ({ s with limit }.wait terms timeline).1.futures[i]? = some g ∧
        firstOf f.jobKey (s.futures.map Future.name) = some first ∧
        (g.ready = true ↔ f.isComplete false = true ∨
          (∃ st, s.sur.stores.status? backend f.key = .ok (some st)) ∧
            ∃ st, s.sur.stores.status? backend
              ⟨first.1.executorId, first.1.jobId, f.key.callId⟩ = .ok (some st)) ∧
        ((∀ h ∈ s.futures, h.jobKey = f.jobKey →
            h.key.executorId = f.key.executorId ∧ h.key.jobId = f.key.jobId) →
          (g.ready = true ↔ f.isComplete false = true ∨
            ∃ st, s.sur.stores.status? backend f.key = .ok (some st))) := by
  obtain ⟨units, later, enough, grouped, waits, names, noticed⟩ := Session.always_wait_notices own
    faults (fun f member => by rw [one f member]; exact available) coherent statusOnly always quiet
    timeline
  refine ⟨enough, fun limit fits => ?_⟩
  obtain ⟨outcome, same⟩ := waits limit fits
  rw [same]
  refine ⟨outcome, names, ?_⟩
  intro i f found
  have listed := List.mem_of_getElem? found
  obtain ⟨u, member, key⟩ := grouped.every f.name (List.mem_map_of_mem listed)
  have inside : i ∈ u.members :=
    (grouped.member u member i).mpr ⟨f.name, by rw [List.getElem?_map, found]; rfl, key.symm⟩
  obtain ⟨first, atHead, heading⟩ := grouped.first u member
  have own : u.jobKey = f.jobKey := key
  rw [own] at atHead
  obtain ⟨inNames, sameKey⟩ := jobKey_of_firstOf atHead
  obtain ⟨h, hListed, rfl⟩ := List.mem_map.mp inNames
  injection heading with executor rest
  injection rest with job home
  have isBackend : u.backend = backend := home.trans (one h hListed)
  have open_ : (s.sur.stores.store u.backend).unavailable = false := by rwa [isBackend]
  have ready := Future.ready_noticed (u := u) (coherent f listed) open_
  rw [isBackend, executor, job] at ready
  refine ⟨_, h.name, noticed u member i inside f found, atHead, ready, ?_⟩
  intro alone
  obtain ⟨sameExecutor, sameJob⟩ := alone h hListed sameKey
  rw [ready]
  have itself : (⟨h.name.1.executorId, h.name.1.jobId, f.key.callId⟩ : CallName) = f.key := by
    show (⟨h.key.executorId, h.key.jobId, f.key.callId⟩ : CallName) = f.key
    rw [sameExecutor, sameJob]
  rw [itself, and_self]

/-! ### Two jobs with one joined key -/

namespace Collision

def one : CallName := ⟨"a-b", "c", "0"⟩

def other : CallName := ⟨"a", "b-c", "1"⟩

/-- Two calls of different jobs, both with the joined key `a-b-c`, the second of which has a
status. -/
def session : Session where
  futures := [{ key := one, backend := "memory" }, { key := other, backend := "memory" }]
  sur := { stores := ({} : Stores).update "memory" (·.leaveStatus other .ok) }
  monitorInterval := 10
  storage := { interval := 10 }

def oncePast : WaitTerms := { goal := .always, throwing := false }

/-- The wait leaves the second future as it was, though its call has a status. -/
theorem status_of_second_job_overlooked :
    ({ session with limit := 20 }.wait oncePast []).2.1 = .ok () ∧
    (({ session with limit := 20 }.wait oncePast []).1.futures[1]?).map
      (fun g => (g.key, g.ready)) = some (other, false) ∧
    session.sur.stores.status? "memory" other = .ok (some .ok) := by
  refine ⟨?_, ?_, rfl⟩
  · cbv
  · cbv

/-- With any limit that is large enough it does. -/
theorem always_wait_ready_collision :
    ∃ enough, ∀ limit, enough ≤ limit → ∃ g : Future,
      ({ session with limit }.wait oncePast []).1.futures[1]? = some g ∧ ¬ g.ready = true := by
  have fresh : ∀ f ∈ session.futures, f.backend = "memory" ∧ f.Coherent := by
    intro f member
    rcases List.mem_cons.mp member with rfl | rest
    · exact ⟨rfl, (Future.isFresh_new _ _).coherent⟩
    · obtain rfl := List.mem_singleton.mp rest
      exact ⟨rfl, (Future.isFresh_new _ _).coherent⟩
  obtain ⟨enough, waits⟩ := always_wait_ready (s := session) rfl rfl rfl
    (fun f member => (fresh f member).1) (fun f member => (fresh f member).2)
    (show oncePast.download = false from rfl) rfl rfl []
  refine ⟨enough, fun limit fits => ?_⟩
  obtain ⟨-, -, each⟩ := waits limit fits
  obtain ⟨g, first, found, atHead, ready, -⟩ := each 1 _ rfl
  have isFirst : firstOf "a-b-c" (session.futures.map Future.name) = some (one, "memory") := rfl
  obtain rfl : first = (one, "memory") := Option.some.inj (atHead.symm.trans isFirst)
  have none : session.sur.stores.status? "memory" ⟨"a-b", "c", "1"⟩ = .ok Option.none := rfl
  refine ⟨g, found, fun isReady => ?_⟩
  rcases ready.mp isReady with complete | ⟨-, st, status⟩
  · cases complete
  · have same := none.symm.trans status
    cases same

end Collision

end CallDispatch
