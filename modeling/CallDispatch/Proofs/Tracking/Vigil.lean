import CallDispatch.Proofs.Tracking.Stretches

/-!
# Pending calls are watched

A polling task ends once all it was asked for has been seen, while a wait set goes on growing, by
calls of jobs old and new. What carries over from point to point of a run is that no entry of the
monitor is left without a task before it has seen all it was asked for, and that the entry of each
unit on watch was asked for all members of the unit. A task looks and, if it has seen all, ends in
one step, so that nothing is asked of it in between. Units are on watch from the beginning if the
monitor is the wait's own, and from when they first grow if it is not.
-/

namespace CallDispatch

open ListingMonitor

/-! ## One entry -/

namespace JobWatch

/-- The task has not ended before all that was asked for was seen. -/
def Attends (w : JobWatch) : Prop := w.task = none → ∀ id ∈ w.wanted, id ∈ w.observed

/-- An entry that is asked for no less than another, and attends if that does. -/
structure NoWorse (w w' : JobWatch) : Prop where
  wanted : ∀ id ∈ w.wanted, id ∈ w'.wanted
  attends : w.Attends → w'.Attends

variable {w w' : JobWatch}

theorem NoWorse.refl (w : JobWatch) : w.NoWorse w := ⟨fun _ => id, id⟩

theorem NoWorse.trans {w'' : JobWatch} (first : w.NoWorse w') (second : w'.NoWorse w'') :
    w.NoWorse w'' :=
  ⟨fun id listed => second.wanted id (first.wanted id listed),
    fun attends => second.attends (first.attends attends)⟩

/-- What a sweep finds is added to what was seen. -/
theorem noWorse_swept (w : JobWatch) (ids : List String) :
    w.NoWorse { w with observed := extend w.observed ids } :=
  ⟨fun _ => id, fun attends ended id listed => mem_extend.mpr (Or.inl (attends ended id listed))⟩

/-- Once asked to watch a job, an entry has a task. -/
theorem started_attends (job : WatchedJob) (backend : String) (w : JobWatch) :
    (JobWatch.started job backend w).Attends := by
  intro ended
  unfold ListingMonitor.JobWatch.started at ended
  cases alive : w.task <;> simp [alive] at ended

theorem noWorse_started (job : WatchedJob) (backend : String) (w : JobWatch) :
    w.NoWorse (JobWatch.started job backend w) :=
  ⟨fun _ listed => mem_extend.mpr (Or.inl listed), fun _ => started_attends job backend w⟩

/-- A task that looks ends only if all that was asked for has been seen. -/
theorem noWorse_look (w : JobWatch) (task : PollTask) (again : Nat)
    (reply : Outcome (List String)) :
    w.NoWorse (ListingMonitor.JobWatch.look w task again reply) := by
  unfold ListingMonitor.JobWatch.look
  cases reply with
  | error e => exact ⟨fun _ => id, fun _ ended => nomatch ended⟩
  | ok ready =>
    dsimp only
    split
    · next all =>
      refine ⟨fun _ => id, fun _ _ id listed => ?_⟩
      simpa using List.all_eq_true.mp all id listed
    · exact ⟨fun _ => id, fun _ ended => nomatch ended⟩

end JobWatch

/-! ## Monitors -/

namespace ListingMonitor

/-- A monitor each entry of which is no worse than that of another. -/
def NoWorse (m m' : ListingMonitor) : Prop := ∀ key, (m.watched key).NoWorse (m'.watched key)

variable {m m' : ListingMonitor}

theorem NoWorse.refl (m : ListingMonitor) : m.NoWorse m := fun _ => .refl _

theorem NoWorse.trans {m'' : ListingMonitor} (first : m.NoWorse m') (second : m'.NoWorse m'') :
    m.NoWorse m'' :=
  fun key => (first key).trans (second key)

theorem noWorse_update (m : ListingMonitor) (jobKey : String) {f : JobWatch → JobWatch}
    (better : ∀ w : JobWatch, w.NoWorse (f w)) : m.NoWorse (m.update jobKey f) := by
  intro key
  rw [watched_update]
  split
  · next same =>
    rw [same]
    exact better _
  · exact .refl _

theorem noWorse_start (m : ListingMonitor) (job : WatchedJob) (backend : String) :
    m.NoWorse (m.start job backend) := by
  intro key
  rw [watched_start]
  split
  · exact JobWatch.noWorse_started job backend _
  · exact .refl _

theorem noWorse_runDue (m : ListingMonitor) (sur : Surroundings) (now : Nat) :
    m.NoWorse (m.runDue sur now) := by
  have looks (m : ListingMonitor) (key : String) :
      m.NoWorse (m.poll key now sur.stores.finishedCalls) := by
    refine noWorse_update m key fun w => ?_
    split
    · exact w.noWorse_look _ _ _
    · exact .refl w
  unfold runDue
  generalize m.dueJobs now = keys
  induction keys generalizing m with
  | nil => exact .refl m
  | cons key rest ih => exact (looks m key).trans (ih _)

/-- A unit whose entry attends, and was asked for all its members. -/
structure Minding (m : ListingMonitor) (futures : List Future) (u : WaitUnit) : Prop where
  attends : (m.watched u.jobKey).Attends
  asked : ∀ id ∈ (u.watchedJob futures).callIds, id ∈ (m.watched u.jobKey).wanted

theorem Minding.noWorse {futures : List Future} {u : WaitUnit} (minding : m.Minding futures u)
    (better : m.NoWorse m') : m'.Minding futures u :=
  ⟨(better u.jobKey).attends minding.attends,
    fun id listed => (better u.jobKey).wanted id (minding.asked id listed)⟩

theorem minding_start (m : ListingMonitor) (futures : List Future) (u : WaitUnit) :
    (m.start (u.watchedJob futures) u.backend).Minding futures u := by
  have entry : (m.start (u.watchedJob futures) u.backend).watched u.jobKey =
      JobWatch.started (u.watchedJob futures) u.backend (m.watched u.jobKey) := by
    rw [watched_start]
    exact if_pos rfl
  refine ⟨?_, ?_⟩
  · rw [entry]
    exact JobWatch.started_attends _ _ _
  · intro id listed
    rw [entry]
    exact mem_extend.mpr (Or.inr listed)

/-- A monitor asked to watch some units again minds each of them. -/
theorem minding_restarted (units : List WaitUnit) (futures : List Future) (grown : List String)
    (m : ListingMonitor) : ∃ m', restarted units futures grown (SessionMonitor.storage m) =
        .storage m' ∧ m.NoWorse m' ∧
      ∀ key ∈ grown, ∀ u, units.find? (·.jobKey = key) = some u → m'.Minding futures u := by
  induction grown generalizing m with
  | nil => exact ⟨m, rfl, .refl m, nofun⟩
  | cons key rest ih =>
    cases found : units.find? (·.jobKey = key) with
    | none =>
      obtain ⟨m', isMonitor, better, minds⟩ := ih m
      refine ⟨m', ?_, better, ?_⟩
      · rw [← isMonitor]
        unfold restarted
        rw [List.foldl_cons, found]
      · intro key' listed u unit
        rcases List.mem_cons.mp listed with rfl | later
        · rw [found] at unit
          cases unit
        · exact minds key' later u unit
    | some v =>
      obtain ⟨m', isMonitor, better, minds⟩ := ih (m.start (v.watchedJob futures) v.backend)
      refine ⟨m', ?_, (m.noWorse_start _ _).trans better, ?_⟩
      · rw [← isMonitor]
        unfold restarted
        rw [List.foldl_cons, found]
        rfl
      · intro key' listed u unit
        rcases List.mem_cons.mp listed with rfl | later
        · rw [found] at unit
          cases unit
          exact (minding_start m futures v).noWorse better
        · exact minds key' later u unit

/-- A monitor that has swept and watched units minds each of them. -/
theorem minding_watchUnits {stores : Stores} {futures : List Future} {units : List WaitUnit}
    {m m' : ListingMonitor}
    (watched : Wait.watchUnits stores.finishedCalls futures units m = (m', none)) :
    m.NoWorse m' ∧ ∀ u ∈ units, m'.Minding futures u := by
  induction units generalizing m with
  | nil =>
    cases watched
    exact ⟨.refl _, nofun⟩
  | cons u rest ih =>
    rw [Wait.watchUnits] at watched
    cases answer : stores.finishedCalls u.backend u.executorId u.jobId with
    | error e =>
      rw [answer] at watched
      cases watched
    | ok ids =>
      rw [answer] at watched
      let swept := m.update (u.watchedJob futures).jobKey fun w =>
        { w with observed := extend w.observed ids }
      have sweeps : m.NoWorse swept := m.noWorse_update _ fun w => w.noWorse_swept ids
      obtain ⟨better, minds⟩ := ih (m := swept.start (u.watchedJob futures) u.backend) watched
      refine ⟨sweeps.trans ((swept.noWorse_start _ _).trans better), ?_⟩
      intro v member
      rcases List.mem_cons.mp member with rfl | later
      · exact (minding_start swept futures v).noWorse better
      · exact minds v later

end ListingMonitor

/-! ## Waits -/

/-- A wait whose monitor minds each unit with a member at or after a position. -/
def WaitState.Watchful (begun : Nat) (s : WaitState SessionMonitor) : Prop :=
  ∃ m, s.monitor = .storage m ∧
    ∀ u ∈ s.units, (∃ i ∈ u.members, begun ≤ i) → m.Minding s.futures u

namespace WaitState

variable {begun : Nat} {s : WaitState SessionMonitor}

/-- A unit that has not grown is minded as it was. -/
theorem minding_of_not_grown {futures futures' : List Future} {u u' : WaitUnit}
    {m : ListingMonitor} (sameKey : u.jobKey = u'.jobKey)
    (same : ∀ i ∈ u'.members, i ∈ u.members ∧
      (futures'.map Future.name)[i]? = (futures.map Future.name)[i]?)
    (minding : m.Minding futures u) : m.Minding futures' u' := by
  have entry : m.watched u.jobKey = m.watched u'.jobKey := congrArg m.watched sameKey
  refine ⟨entry ▸ minding.attends, ?_⟩
  intro id listed
  obtain ⟨i, member, found⟩ := List.mem_filterMap.mp listed
  obtain ⟨inside, name⟩ := same i member
  have callId (set : List Future) : (set[i]?).map (·.key.callId) =
      ((set.map Future.name)[i]?).map (·.1.callId) := by
    rw [List.getElem?_map, Option.map_map]
    rfl
  rw [← entry]
  refine minding.asked id (List.mem_filterMap.mpr ⟨i, inside, ?_⟩)
  rw [callId, ← name, ← callId]
  exact found

/-- Having taken in the answers of a unit, a wait has every unit watched that has grown. -/
theorem Watchful.settle (watchful : s.Watchful begun)
    (grouped : Grouped (s.futures.map Future.name) s.units) {provider : Provider}
    {terms : WaitTerms} {answers : List (Nat × Outcome FetchAnswer)}
    (distinct : (answers.map (·.1)).Nodup) {state : WaitState SessionMonitor}
    (settled : s.settle provider terms answers = (state, none)) : state.Watchful begun := by
  obtain ⟨m, isMonitor, minds⟩ := watchful
  rcases settle_cases provider grouped terms distinct with
    ⟨units, opened, progress, grown, settled', grouped', -, grew⟩ |
    ⟨after, kept, backend, e, settled', -, -, -⟩
  · rw [settled, Prod.mk.injEq] at settled'
    obtain ⟨rfl, -⟩ := settled'
    obtain ⟨m', restarts, better, minds'⟩ :=
      ListingMonitor.minding_restarted units (absorbed terms answers s.futures) grown m
    refine ⟨m', by rw [isMonitor, restarts], ?_⟩
    intro u' unit' late
    have names : (absorbed terms answers s.futures).map Future.name =
        s.futures.map Future.name ++ (recordAll terms answers s.futures).children :=
      names_absorbed distinct
    by_cases again : u'.jobKey ∈ grown
    · refine minds' u'.jobKey again u' ?_
      have found : ∃ v, units.find? (·.jobKey = u'.jobKey) = some v := by
        rw [← Option.isSome_iff_exists, List.find?_isSome]
        exact ⟨u', unit', by simp⟩
      obtain ⟨v, found⟩ := found
      have own : v.jobKey = u'.jobKey := by simpa using List.find?_some found
      rw [found, List.inj_on_of_nodup_map grouped'.distinct (List.mem_of_find?_eq_some found)
        unit' own]
    · -- All members of a unit that has not grown were there before.
      have old (i : Nat) (member : i ∈ u'.members) : ∃ n, (s.futures.map Future.name)[i]? = some n ∧
          ((absorbed terms answers s.futures).map Future.name)[i]? = some n ∧
          n.1.jobKey = u'.jobKey := by
        obtain ⟨n, named, key⟩ := (grouped'.member u' unit' i).mp member
        refine ⟨n, ?_, named, key⟩
        rw [names, List.getElem?_append] at named
        split at named
        · exact named
        · exact absurd ((grew u'.jobKey).mpr ⟨n, List.mem_of_getElem? named, key⟩) again
      obtain ⟨i, member, after⟩ := late
      obtain ⟨n, named, -, key⟩ := old i member
      obtain ⟨u, unit, same⟩ := grouped.every n (List.mem_of_getElem? named)
      have sameKey : u.jobKey = u'.jobKey := same.trans key
      have stays (j : Nat) (member' : j ∈ u'.members) : j ∈ u.members ∧
          ((absorbed terms answers s.futures).map Future.name)[j]? =
            (s.futures.map Future.name)[j]? := by
        obtain ⟨n', before, now, key'⟩ := old j member'
        exact ⟨(grouped.member u unit j).mpr ⟨n', before, key'.trans sameKey.symm⟩,
          now.trans before.symm⟩
      have minding := minds u unit ⟨i, (stays i member).1, after⟩
      exact (minding_of_not_grown sameKey stays minding).noWorse better
  · rw [settled] at settled'
    cases settled'

end WaitState

namespace WaitRun

variable {calls : List CallName} {terms : WaitTerms} {futures : List Future}
  {limit : Option Nat} {r r' : WaitRun} {begun : Nat}

/-- Whatever happens to the run of a wait that goes on, the wait stays watchful. -/
theorem Happens.watchful (happens : r.Happens r')
    (contained : r.Contained calls terms futures limit)
    (before : r.wait.IsRunning → r.wait.state.Watchful begun) (running : r'.wait.IsRunning) :
    r'.wait.state.Watchful begun := by
  have turned (turns : r.wait.Turns r'.wait) : r'.wait.state.Watchful begun := by
    rw [turns.state]
    exact before (turns.running running)
  cases happens with
  | turn turns =>
    rcases (turn_cases turns).2 with ⟨i, -, isWait⟩ | ⟨i, targets, p, phase, isPool, done, isWait⟩
    · rcases Wait.pollNext_cases r.sur.cancelled r.wait with turns' | ⟨j, u, polling, -, polled⟩
      · exact turned (isWait ▸ turns')
      · rw [isWait, polled]
        exact before (.of_polling polling)
    · have sound := contained.reached.sound.1
      have going : r.wait.IsRunning := .of_fetching phase
      obtain ⟨u, found, fetched⟩ := contained.answers phase isPool done
      obtain ⟨-, kept, absorbs⟩ := sound.answer phase found fetched
      rw [isWait] at running ⊢
      rcases settled : r.wait.state.settle r.wait.provider r.wait.terms p.answers with
        ⟨state, none | e⟩
      · rw [Wait.answer_of_none phase settled]
        exact (before going).settle (sound.grouped going) absorbs.distinct settled
      · rw [Wait.answer_of_some phase settled] at running
        exact absurd rfl (running (.error e))
  | overdue _ => exact turned r.checkDeadline_turns
  | @changed time c rest ahead =>
    let r₁ : WaitRun := { r with timeline := rest }
    have turns : (r₁.heard c).Turns (r₁.change c).wait := r₁.change_turns c
    obtain ⟨m, isMonitor, minds⟩ := before (turns.running running)
    refine ⟨m, ?_, ?_⟩
    · rw [turns.state]
      show r.wait.state.monitor.hear c = _
      rw [isMonitor]
      rfl
    · rw [turns.state]
      exact minds
  | looked =>
    obtain ⟨m, isMonitor, minds⟩ := before running
    refine ⟨m.runDue r.sur r.now, ?_, ?_⟩
    · show r.wait.state.monitor.runDue r.sur r.now = _
      rw [isMonitor]
      rfl
    · exact fun u unit late => (minds u unit late).noWorse (m.noWorse_runDue r.sur r.now)
  | clock now _ => exact before running
  | resumed => exact turned r.resume_turns

theorem Contained.watchful (contained : r.Contained calls terms futures limit)
    (visits : r.Visits r')
    (before : r.wait.IsRunning → r.wait.state.Watchful begun) (running : r'.wait.IsRunning) :
    r'.wait.state.Watchful begun := by
  induction visits with
  | refl => exact before running
  | tail visits happens ih => exact happens.watchful (contained.visits visits) ih running

end WaitRun

namespace Session

variable {s : Session} {terms : WaitTerms} {timeline : List (Nat × Change)}

/-- A wait is watchful when it begins: of all its units if the monitor is its own. -/
theorem startRun_watchful {begun : Nat} (terms : WaitTerms) (timeline : List (Nat × Change))
    (cutIn : Option CutPoint)
    (onWatch : s.choice = .own ∨ s.choice = .storage ∧ begun = s.futures.length)
    (running : (s.startRun terms timeline {} cutIn).wait.IsRunning) :
    (s.startRun terms timeline {} cutIn).wait.state.Watchful begun := by
  have turns := s.startRun_turns terms timeline {} cutIn
  have sleeping := (s.readied_begins terms (s.sinkOf terms {}) (cutBy terms cutIn)).phase
    |>.resolve_right fun ⟨e, ended, _⟩ => turns.running running _ ended
  obtain ⟨m, placed, enters⟩ := ready_of_sleeping sleeping
  rw [turns.state]
  rcases onWatch with own | ⟨supplied, rfl⟩
  · rw [Enters, own] at enters
    obtain ⟨watching, rfl, watched⟩ := enters
    refine ⟨watching, placed.monitor, fun u unit _ => ?_⟩
    rw [placed.futures]
    exact (ListingMonitor.minding_watchUnits watched).2 u unit
  · rw [Enters, supplied] at enters
    refine ⟨s.storage, placed.monitor.trans enters, ?_⟩
    rintro u unit ⟨i, member, late⟩
    -- No unit has grown yet.
    obtain ⟨n, named, -⟩ := (placed.grouped.member u unit i).mp member
    have below := (List.getElem?_eq_some_iff.mp named).1
    rw [List.length_map] at below
    omega

end Session

/-- At every point of a wait that goes on, each call of a unit on watch has been seen, or a polling
task that is asked for it is alive. -/
theorem WaitState.Watchful.observed_or_wanted {begun : Nat} {s : WaitState SessionMonitor}
    (watchful : s.Watchful begun) (grouped : Grouped (s.futures.map Future.name) s.units) :
    ∃ m, s.monitor = .storage m ∧ ∀ f ∈ s.futures,
      (∃ (i : Nat) (g : Future), begun ≤ i ∧ s.futures[i]? = some g ∧ g.jobKey = f.jobKey) →
      f.key.callId ∈ m.observed f.jobKey ∨
        m.isAlive f.jobKey = true ∧ f.key.callId ∈ (m.watched f.jobKey).wanted := by
  obtain ⟨m, isMonitor, minds⟩ := watchful
  refine ⟨m, isMonitor, ?_⟩
  rintro f listed ⟨i, g, late, at_, sameKey⟩
  obtain ⟨u, unit, key⟩ := grouped.every f.name (List.mem_map_of_mem listed)
  have own : u.jobKey = f.jobKey := key
  have member (j : Nat) (h : Future) (found : s.futures[j]? = some h)
      (same : h.jobKey = f.jobKey) : j ∈ u.members :=
    (grouped.member u unit j).mpr
      ⟨h.name, by rw [List.getElem?_map, found]; rfl, same.trans own.symm⟩
  have minding := minds u unit ⟨i, member i g at_ sameKey, late⟩
  obtain ⟨j, found⟩ := List.getElem?_of_mem listed
  have asked : f.key.callId ∈ (m.watched f.jobKey).wanted := by
    rw [← own]
    refine minding.asked _ (List.mem_filterMap.mpr ⟨j, member j f found rfl, ?_⟩)
    rw [found]
    rfl
  have attends : (m.watched f.jobKey).Attends := own ▸ minding.attends
  cases alive : (m.watched f.jobKey).task with
  | none => exact Or.inl (attends alive _ asked)
  | some task =>
    refine Or.inr ⟨?_, asked⟩
    rw [isAlive, alive]
    rfl

/-- At every point of the run of a wait that goes on, and so whenever it is blocked, every call
tracked has been seen by the wait's own monitor, or a polling task that is asked for it is alive.
With a listing monitor the wait was given, it is so for the calls of every unit that has grown
during the wait. Where time may run out later makes no difference. -/
theorem pending_calls_watched (s : Session) (terms : WaitTerms) (timeline : List (Nat × Change))
    (cutIn : Option CutPoint) :
    let start := s.startRun terms timeline {} cutIn
    (∃ enough, ∀ turns, enough ≤ turns → ∀ events,
      start.Visits ((start.run turns events).untilBlocked turns)) ∧
    ∀ r, start.Visits r → r.wait.IsRunning →
      (s.choice = .own → ∃ m, r.wait.state.monitor = .storage m ∧
        ∀ f ∈ r.wait.state.futures, f.key.callId ∈ m.observed f.jobKey ∨
          m.isAlive f.jobKey = true ∧ f.key.callId ∈ (m.watched f.jobKey).wanted) ∧
      (s.choice = .storage → ∃ m, r.wait.state.monitor = .storage m ∧
        ∀ f ∈ r.wait.state.futures, (∃ (i : Nat) (g : Future), s.futures.length ≤ i ∧
            r.wait.state.futures[i]? = some g ∧ g.jobKey = f.jobKey) →
          f.key.callId ∈ m.observed f.jobKey ∨
            m.isAlive f.jobKey = true ∧ f.key.callId ∈ (m.watched f.jobKey).wanted) := by
  intro start
  constructor
  · obtain ⟨enough, visits⟩ := s.run_visits terms timeline {} cutIn
    refine ⟨enough, fun turns fits events => ?_⟩
    exact (visits turns fits events).trans (WaitRun.visits_untilBlocked _ turns)
  · intro r visits running
    have begins := s.startRun_contained terms timeline {} cutIn
    have grouped := (begins.visits visits).reached.sound.1.grouped running
    constructor
    · intro own
      have watchful : r.wait.state.Watchful 0 := begins.watchful visits
        (Session.startRun_watchful terms timeline cutIn (Or.inl own)) running
      obtain ⟨m, isMonitor, each⟩ := watchful.observed_or_wanted grouped
      refine ⟨m, isMonitor, fun f listed => each f listed ?_⟩
      obtain ⟨i, found⟩ := List.getElem?_of_mem listed
      exact ⟨i, f, Nat.zero_le i, found, rfl⟩
    · intro supplied
      exact (begins.watchful visits
        (Session.startRun_watchful terms timeline cutIn (Or.inr ⟨supplied, rfl⟩))
        running).observed_or_wanted grouped

/-! ### A call whose status is still to come -/

namespace Awaited

def parent : CallName := ⟨"e", "j", "0"⟩

def child : CallName := ⟨"e", "k", "0"⟩

/-- A call that has finished and dispatched another, which has not. -/
def session : Session where
  futures := [{ key := parent, backend := "memory" }]
  sur := { stores := ({} : Stores).update "memory" fun store =>
    (store.leaveOutput parent (.calls [child])).leaveStatus parent .ok }
  monitorInterval := 10
  storage := { interval := 10 }

def forOutputs : WaitTerms := { download := true }

def asleep : WaitRun := (session.startRun forOutputs []).untilBlocked 10

/-- Whether a wait sleeps. -/
def isSleeping : Phase → Bool
  | .sleeping => true
  | _ => false

theorem eq_of_isSleeping {phase : Phase} (sleeps : isSleeping phase = true) :
    phase = .sleeping := by
  cases phase with
  | sleeping => rfl
  | polling | fetching | finished => cases sleeps

/-- Asleep after its first pass, the wait has appended the call dispatched and is watching it. -/
theorem pending_calls_watched_child :
    asleep.wait.phase = .sleeping ∧ ∃ m, asleep.wait.state.monitor = .storage m ∧
      ("0" ∈ m.observed "e-k" ∨ m.isAlive "e-k" = true ∧ "0" ∈ (m.watched "e-k").wanted) := by
  have sleeping : asleep.wait.phase = .sleeping := eq_of_isSleeping (by decide +kernel)
  have names : asleep.wait.state.futures.map Future.name =
      [(parent, "memory"), (child, "memory")] := by decide +kernel
  obtain ⟨-, points⟩ := pending_calls_watched session forOutputs [] none
  obtain ⟨m, isMonitor, each⟩ :=
    (points asleep (WaitRun.visits_untilBlocked _ 10) (.of_sleeping sleeping)).1 rfl
  have listed : (child, "memory") ∈ asleep.wait.state.futures.map Future.name := by
    rw [names]
    exact List.mem_cons_of_mem _ List.mem_cons_self
  obtain ⟨f, member, name⟩ := List.mem_map.mp listed
  have key : f.key = child := congrArg Prod.fst name
  have watched := each f member
  rw [Future.jobKey, key] at watched
  exact ⟨sleeping, m, isMonitor, watched⟩

end Awaited

end CallDispatch
