import CallDispatch.Proofs.Tracking.Pauses

/-!
# Passes over complete stores

Where the stores hold the outcome of every call, a pass makes all futures done whose calls have been
seen, and appends only calls that one of these dispatched. So what is open after a pass has shorter
chains of calls below it than what was open before.
-/

namespace CallDispatch

variable {stores : Stores} {terms : WaitTerms} {set : List Future} {i n : Nat}

/-- A wait for all outputs that raises no failures and goes on until it is met. -/
structure WaitTerms.IsPatient (terms : WaitTerms) : Prop where
  download : terms.download = true
  goal : terms.goal = .all
  throwing : terms.throwing = false
  timeout : terms.timeout = none
  cancellable : terms.cancellable = false

/-! ## Taking in the outcomes of calls -/

section
variable {answers : List (Nat × Outcome FetchAnswer)} {kept : List (CallName × String)}
  {earlier later : List Future}

/-- A wait set never leaves the graph of calls that can be reached from it. -/
theorem Absorbs.inside {replies : Replies}
    (absorbs : Absorbs replies terms answers kept earlier later)
    (isTrue : replies.IsTrueTo stores) (homes : HomesAgree earlier)
    (staged : ∀ f ∈ earlier, f.Stage stores) (inside : ∀ f ∈ earlier, stores.Reaches set f.bare) :
    ∀ g ∈ later, stores.Reaches set g.bare := by
  intro g member
  obtain ⟨p, at_⟩ := List.getElem?_of_mem member
  rcases (absorbs.staged isTrue homes staged).2 p g at_ with
    ⟨f, before, same⟩ | ⟨q, f, before, -, child⟩
  · rw [same]
    exact inside f (List.mem_of_getElem? before)
  · have parent := inside f (List.mem_of_getElem? before)
    have child' : g ∈ stores.childrenOf f.bare :=
      Stores.childrenOf_eq_of_bare (f := f) (g := f.bare) rfl ▸ child
    rw [(Stores.bare_of_child child).1]
    exact parent.tail child'

variable (complete : stores.IsComplete set) (patient : terms.IsPatient)
  (absorbs : Absorbs (.fixed stores.status? stores.output?) terms answers kept earlier later)
  (staged : ∀ f ∈ earlier, f.Stage stores) (inside : ∀ f ∈ earlier, stores.Reaches set f.bare)
include complete patient absorbs staged inside

/-- Every future that is asked about becomes done. -/
theorem Absorbs.fetched {x : Nat × Outcome FetchAnswer} (listed : x ∈ answers) {f : Future}
    (found : earlier[x.1]? = some f) :
    (∃ a, x.2 = .ok a) ∧ (f.recorded terms.throwing x.2).done = true := by
  obtain ⟨f', first, found', open_, atHead, comes⟩ := absorbs.asked x listed
  obtain rfl : f = f' := Option.some.inj (found.symm.trans found')
  have member := List.mem_of_getElem? found
  have reach := inside f member
  rw [(complete.homesAgree inside).first member atHead, patient.download] at comes
  rw [patient.throwing]
  exact (staged f member).fetched (Future.done_of_open open_) (complete.status f.bare reach)
    (fun s replied success produces => complete.output f.bare s reach replied success produces)
    comes

/-- So nothing is raised. -/
theorem Absorbs.firstError_eq_none : (recordAll terms answers earlier).firstError = none := by
  refine Recorded.firstError_foldl patient.throwing ?_ rfl
  intro x sorted
  have listed := (sortAnswers_perm answers).mem_iff.mp sorted
  obtain ⟨f, -, found, -⟩ := absorbs.asked x listed
  exact (absorbs.fetched complete patient staged inside listed found).1

/-- What is open afterwards was open before and not asked about, or is a call that an open one
dispatched. -/
theorem Absorbs.still_open {p : Nat} {g : Future} (found : later[p]? = some g)
    (open_ : g.done = false) :
    (earlier[p]? = some g ∧ p ∉ answers.map (·.1)) ∨
      ∃ f ∈ earlier, f.done = false ∧ g ∈ stores.childrenOf f := by
  have homes := complete.homesAgree inside
  rcases (absorbs.staged (Replies.fixed_isTrueTo stores) homes staged).2 p g found with
    ⟨f, before, -⟩ | ⟨q, f, before, notDone, child⟩
  · obtain rfl := Option.some.inj (found.symm.trans (absorbs.getElem?_old before))
    rcases absorbs.answered_cases before with ⟨same, absent⟩ | ⟨x, listed, rfl, same, -⟩
    · refine Or.inl ⟨?_, absent⟩
      rw [same]
      exact before
    · rw [same, (absorbs.fetched complete patient staged inside listed before).2] at open_
      cases open_
  · exact Or.inr ⟨f, List.mem_of_getElem? before, notDone, child⟩

end

/-! ## One unit -/

/-- What taking the answers for a unit makes of a wait: what is open after it was open before and
not asked about, or was dispatched by a call that was open. -/
structure Takes (stores : Stores) (set : List Future) (i : Nat) (targets : List Target)
    (m : ListingMonitor) (w w' : Wait SessionMonitor) (m' : ListingMonitor) : Prop where
  phase : w'.phase = .polling (i + 1)
  passes : w'.passes = w.passes
  monitor : w'.state.monitor = .storage m'
  guards : Guards stores w'.state.units m'
  observed : ∀ key, (m'.watched key).observed = (m.watched key).observed
  headings : w.state.units.map WaitUnit.heading <+: w'.state.units.map WaitUnit.heading
  staged : ∀ f ∈ w'.state.futures, f.Stage stores
  inside : ∀ f ∈ w'.state.futures, stores.Reaches set f.bare
  still : ∀ (p : Nat) (g : Future), w'.state.futures[p]? = some g → g.done = false →
    (w.state.futures[p]? = some g ∧ p ∉ targets.map (·.index)) ∨
      ∃ f ∈ w.state.futures, f.done = false ∧ g ∈ stores.childrenOf f

theorem Wait.takes {w : Wait SessionMonitor} {m : ListingMonitor} {targets : List Target}
    {u : WaitUnit} {answers : List (Nat × Outcome FetchAnswer)}
    (complete : stores.IsComplete set) (patient : terms.IsPatient)
    (reached : w.Reached (.fixed stores.status? stores.output?) terms set)
    (phase : w.phase = .fetching i targets) (found : w.state.units[i]? = some u)
    (monitor : w.state.monitor = .storage m) (guards : Guards stores w.state.units m)
    (staged : ∀ f ∈ w.state.futures, f.Stage stores)
    (inside : ∀ f ∈ w.state.futures, stores.Reaches set f.bare)
    (fetched : Answers (.fixed stores.status? stores.output?) u.backend terms.download targets
      answers) :
    ∃ m', Takes stores set i targets m w (w.answer answers) m' := by
  have sound := reached.sound.1
  obtain rfl := sound.terms_eq
  have grouped := sound.grouped (.of_fetching phase)
  obtain ⟨-, kept, absorbs⟩ := sound.answer phase found fetched
  have homes := complete.homesAgree inside
  have isTrue := Replies.fixed_isTrueTo stores
  have staged' := (absorbs.staged isTrue homes staged).1
  have inside' := absorbs.inside isTrue homes staged inside
  have still : ∀ (p : Nat) (g : Future), (w.answer answers).state.futures[p]? = some g →
      g.done = false → (w.state.futures[p]? = some g ∧ p ∉ targets.map (·.index)) ∨
        ∃ f ∈ w.state.futures, f.done = false ∧ g ∈ stores.childrenOf f := by
    intro p g at_ open_
    rw [← fetched.indexes.mem_iff]
    exact absorbs.still_open complete patient staged inside at_ open_
  have silent := absorbs.firstError_eq_none complete patient staged inside
  rcases WaitState.settle_cases w.provider grouped w.terms absorbs.distinct with
    ⟨units, opened, progress, grown, settled, grouped', longer, grew⟩ |
    ⟨after, _, backend, e, settled, -, -, closed⟩
  · rw [silent] at settled
    have answer := Wait.answer_of_none phase settled
    rw [answer] at staged' inside' still
    rw [monitor] at answer
    have stays : ∀ v ∈ w.state.units, ∃ u ∈ units, v.heading = u.heading := by
      intro v unit
      obtain ⟨u, member, same⟩ := List.mem_map.mp (longer.subset (List.mem_map_of_mem unit))
      exact ⟨u, member, same.symm⟩
    have regrouped : ∀ v ∈ units, v.jobKey ∈ grown ∨
        ∃ v' ∈ w.state.units, v'.jobKey = v.jobKey := by
      intro v unit
      obtain ⟨first, atHead, -⟩ := grouped'.first v unit
      obtain ⟨listed, key⟩ := jobKey_of_firstOf atHead
      rw [names_absorbed absorbs.distinct] at listed
      rcases List.mem_append.mp listed with old | new
      · obtain ⟨v', unit', key'⟩ := grouped.every first old
        exact Or.inr ⟨v', unit', key'.trans key⟩
      · exact Or.inl ((grew v.jobKey).mpr ⟨first, new, key⟩)
    obtain ⟨m', isMonitor, guards', observed⟩ := guards.restarted grouped'.distinct stays
      regrouped (complete.watched_finished inside' grouped')
    rw [isMonitor] at answer
    rw [answer]
    exact ⟨m', rfl, rfl, rfl, guards', observed, longer, staged', inside', still⟩
  · cases show Except.error e = .ok () from sound.refused closed

/-- How much is left of a pass that is to poll a unit next: every future that is open has only
shorter chains of calls below it, or is a member of a unit that is yet to be polled and has been
seen. -/
def Remains (stores : Stores) (n i : Nat) (m : ListingMonitor) (s : WaitState SessionMonitor) :
    Prop :=
  ∀ (p : Nat) (f : Future), s.futures[p]? = some f → f.done = false →
    ¬ stores.Chain n f ∨ ¬ stores.Chain (n + 1) f ∧ ∃ j u, s.units[j]? = some u ∧ i ≤ j ∧
      p ∈ u.members ∧ (m.watched u.jobKey).Sees stores u

namespace Remains

variable {m : ListingMonitor} {s : WaitState SessionMonitor} {u : WaitUnit}

theorem not_chain (remains : Remains stores n i m s) {f : Future} (member : f ∈ s.futures)
    (open_ : f.done = false) : ¬ stores.Chain (n + 1) f := by
  obtain ⟨p, found⟩ := List.getElem?_of_mem member
  rcases remains p f found open_ with short | ⟨short, -⟩
  · exact fun chain => short (Stores.chain_of_succ chain)
  · exact short

/-- A future that is open and not asked about with the unit polled next is left for a later one. -/
theorem unasked (remains : Remains stores n i m s) (monitor : s.monitor = .storage m)
    (found : s.units[i]? = some u)
    (finished : ∀ p ∈ u.members, ∀ f, s.futures[p]? = some f →
      f.key.callId ∈ u.finishedCalls stores) {p : Nat} {f : Future} (known : s.futures[p]? = some f)
    (open_ : f.done = false) (absent : p ∉ (s.targets true u).map (·.index)) :
    ¬ stores.Chain n f ∨ ¬ stores.Chain (n + 1) f ∧ ∃ j v, s.units[j]? = some v ∧ i + 1 ≤ j ∧
      p ∈ v.members ∧ (m.watched v.jobKey).Sees stores v := by
  rcases remains p f known open_ with short | ⟨short, j, v, at_, above, inside, sees⟩
  · exact Or.inl short
  · refine Or.inr ⟨short, j, v, at_, ?_, inside, sees⟩
    rcases Nat.lt_or_ge i j with later | here
    · exact later
    · obtain rfl : i = j := by omega
      obtain rfl : u = v := Option.some.inj (found.symm.trans at_)
      have seen : f.key.callId ∈ Watcher.observed s.monitor u.jobKey := by
        rw [monitor]
        exact sees _ (finished p inside f known)
      have target : f.target p ∈ s.targets true u :=
        WaitState.mem_targets.mpr ⟨p, inside, f, known, open_, seen, rfl⟩
      exact absurd (List.mem_map_of_mem target) absent

end Remains

/-- What is left of a pass once the answers for a unit have been taken. -/
theorem Takes.remains {w w' : Wait SessionMonitor} {m m₁ m' : ListingMonitor}
    {targets : List Target} {u : WaitUnit} (takes : Takes stores set i targets m₁ w w' m')
    {s : WaitState SessionMonitor} (state : w.state = { s with monitor := .storage m₁ })
    (remains : Remains stores n i m s) (monitor : s.monitor = .storage m)
    (found : s.units[i]? = some u) (isTargets : targets = s.targets true u)
    (finished : ∀ p ∈ u.members, ∀ f, s.futures[p]? = some f →
      f.key.callId ∈ u.finishedCalls stores)
    (grouped : Grouped (s.futures.map Future.name) s.units)
    (grouped' : Grouped (w'.state.futures.map Future.name) w'.state.units)
    (sees : ∀ u ∈ s.units, (m.watched u.jobKey).Sees stores u →
      (m₁.watched u.jobKey).Sees stores u) : Remains stores n (i + 1) m' w'.state := by
  intro p g at_ open_
  rcases takes.still p g at_ open_ with ⟨before, absent⟩ | ⟨f, before, notDone, child⟩
  · rw [state] at before
    rw [isTargets] at absent
    rcases remains.unasked monitor found finished before open_ absent with
      short | ⟨short, j, v, at_', above, inside, seen⟩
    · exact Or.inl short
    · refine Or.inr ⟨short, j, ?_⟩
      have heading : (w'.state.units.map WaitUnit.heading)[j]? = some v.heading := by
        have known : (w.state.units.map WaitUnit.heading)[j]? = some v.heading := by
          rw [state, List.getElem?_map, at_', Option.map_some]
        obtain ⟨below, same⟩ := List.getElem?_eq_some_iff.mp known
        rw [List.prefix_iff_getElem?.mp takes.headings j below, same]
      rw [List.getElem?_map] at heading
      obtain ⟨v', at_'', same⟩ := Option.map_eq_some_iff.mp heading
      have key := WaitUnit.jobKey_of_heading same
      have unit := List.mem_of_getElem? at_'
      refine ⟨v', at_'', above, ?_, ?_⟩
      · obtain ⟨name, named, own⟩ := (grouped.member v unit p).mp inside
        refine (grouped'.member v' (List.mem_of_getElem? at_'') p).mpr
          ⟨name, ?_, own.trans key.symm⟩
        rw [List.getElem?_map, before] at named
        rw [List.getElem?_map, at_]
        exact named
      · have seen' : (m'.watched v.jobKey).Sees stores v := by
          unfold JobWatch.Sees
          rw [takes.observed]
          exact sees v unit seen
        rw [key]
        exact seen'.of_heading same.symm
  · rw [state] at before
    have short := remains.not_chain before notDone
    exact Or.inl fun chain => short ⟨g, child, chain⟩

/-! ## A pass -/

namespace WaitRun

variable {sur : Surroundings} {m : ListingMonitor} {r : WaitRun}

/-- A run of a wait whose futures are calls that can be reached from a wait set. -/
structure Follows (sur : Surroundings) (terms : WaitTerms) (set : List Future) (m : ListingMonitor)
    (r : WaitRun) : Prop where
  undisturbed : r.Undisturbed sur
  reached : r.wait.Reached (.fixed sur.stores.status? sur.stores.output?) terms set
  monitor : r.wait.state.monitor = .storage m
  guards : Guards sur.stores r.wait.state.units m
  staged : ∀ f ∈ r.wait.state.futures, f.Stage sur.stores
  inside : ∀ f ∈ r.wait.state.futures, sur.stores.Reaches set f.bare

theorem Follows.grouped (follows : r.Follows sur terms set m) (running : r.wait.IsRunning) :
    Grouped (r.wait.state.futures.map Future.name) r.wait.state.units :=
  follows.reached.sound.1.grouped running

/-- Turns that leave the state of the wait as it is. -/
theorem Follows.turned (follows : r.Follows sur terms set m) {wait : Wait SessionMonitor}
    (reached : wait.Reached (.fixed sur.stores.status? sur.stores.output?) terms set)
    (same : wait.state = r.wait.state) (wakeAt : Nat) :
    ({ r with wait, wakeAt } : WaitRun).Follows sur terms set m :=
  ⟨follows.undisturbed.turned wait r.pool wakeAt r.log, reached, same ▸ follows.monitor,
    same ▸ follows.guards, same ▸ follows.staged, same ▸ follows.inside⟩

/-- There are no more units than joined keys of calls that can be reached. -/
theorem Follows.length_units_le (follows : r.Follows sur terms set m)
    (running : r.wait.IsRunning) : r.wait.state.units.length ≤
      ((sur.stores.reaches_finite set).toFinset.image Future.jobKey).card := by
  have grouped := follows.grouped running
  have among : (r.wait.state.units.map WaitUnit.jobKey).toFinset ⊆
      (sur.stores.reaches_finite set).toFinset.image Future.jobKey := by
    intro key listed
    obtain ⟨u, unit, rfl⟩ := List.mem_map.mp (List.mem_toFinset.mp listed)
    obtain ⟨first, atHead, -⟩ := grouped.first u unit
    obtain ⟨inNames, same⟩ := jobKey_of_firstOf atHead
    obtain ⟨f, member, rfl⟩ := List.mem_map.mp inNames
    refine Finset.mem_image.mpr ⟨f.bare, ?_, same⟩
    exact (Set.Finite.mem_toFinset _).mpr (follows.inside f member)
  have size := Finset.card_le_card among
  rwa [List.toFinset_card_of_nodup grouped.distinct, List.length_map] at size

variable (complete : sur.stores.IsComplete set) (patient : terms.IsPatient)
  (within : sur.Within (.fixed sur.stores.status? sur.stores.output?))
include complete patient within

/-- Polling one unit. -/
theorem Follows.unit (follows : r.Follows sur terms set m) {u : WaitUnit}
    (phase : r.wait.phase = .polling i) (found : r.wait.state.units[i]? = some u)
    (remains : Remains sur.stores n i m r.wait.state) :
    ∃ r' m', Leads r r' ∧ r'.Follows sur terms set m' ∧ r'.wait.phase = .polling (i + 1) ∧
      r'.wait.passes = r.wait.passes ∧ Remains sur.stores n (i + 1) m' r'.wait.state := by
  have running : r.wait.IsRunning := .of_polling phase
  have grouped := follows.grouped running
  have unit := List.mem_of_getElem? found
  have available : ∀ u ∈ r.wait.state.units, (sur.stores.store u.backend).unavailable = false :=
    fun u unit => complete.unit_available follows.inside grouped unit
  have finished : ∀ p ∈ u.members, ∀ f, r.wait.state.futures[p]? = some f →
      f.key.callId ∈ u.finishedCalls sur.stores := fun p member f known =>
    (complete.member_finished follows.inside grouped unit member known).2
  have within' : r.sur.Within (.fixed sur.stores.status? sur.stores.output?) :=
    follows.undisturbed.sur_eq.symm ▸ within
  rcases turn_of_polling follows.reached within' phase found with ⟨none, skipped, wakeAt, turns⟩ |
      ⟨p, q, log, turns, fetching, backend, download, room, unasked, driven⟩
  · rw [patient.download] at none
    refine ⟨_, m, .turn turns (.stays _), follows.turned skipped rfl _, rfl, rfl, ?_⟩
    intro p f known open_
    exact remains.unasked follows.monitor found finished known open_ (by rw [none]; simp)
  · obtain ⟨now, m₁, beside, q', log', leads, done, serving, kind, guards, undisturbed, sees⟩ :=
      fetched available within (r := { r with
          wait := { r.wait with phase := .fetching i (r.wait.state.targets terms.download u) }
          pool := some q, log })
        (follows.undisturbed.turned _ _ _ _) follows.monitor follows.guards rfl rfl driven.serving
        (driven.kind.capacity ▸ room) (driven.kind.capacity ▸ driven.full)
    have answers := serving.done done
    rw [kind.backend, driven.kind.backend, backend, kind.download, driven.kind.download, download]
      at answers
    have reached := fetching.watched (.storage m₁)
    obtain ⟨m', takes⟩ := Wait.takes complete patient reached rfl found rfl guards follows.staged
      follows.inside answers
    have reached' := reached.answered rfl found answers
    have grouped' := reached'.sound.1.grouped (.of_polling takes.phase)
    refine ⟨_, m', (Leads.turn turns leads).trans (.turn (turn_of_fetched rfl rfl done) (.stays _)),
      ⟨undisturbed.turned _ _ _ _, reached', takes.monitor, takes.guards, takes.staged,
        takes.inside⟩, takes.phase, takes.passes, ?_⟩
    exact takes.remains rfl remains follows.monitor found (by rw [patient.download]) finished
      grouped grouped' sees

/-- Polling all units that are left of a pass. -/
theorem Follows.pass {i : Nat} {m : ListingMonitor} {r : WaitRun}
    (follows : r.Follows sur terms set m) (phase : r.wait.phase = .polling i)
    (remains : Remains sur.stores n i m r.wait.state) :
    ∃ r' m' j, Leads r r' ∧ r'.Follows sur terms set m' ∧ r'.wait.phase = .polling j ∧
      r'.wait.state.units[j]? = none ∧ r'.wait.passes = r.wait.passes ∧
      ∀ f ∈ r'.wait.state.futures, f.done = false → ¬ sur.stores.Chain n f := by
  cases found : r.wait.state.units[i]? with
  | none =>
    refine ⟨r, m, i, .stays r, follows, phase, found, rfl, ?_⟩
    intro f member open_
    obtain ⟨p, known⟩ := List.getElem?_of_mem member
    rcases remains p f known open_ with short | ⟨-, j, u, at_, above, -⟩
    · exact short
    · have past := List.getElem?_eq_none_iff.mp found
      have below := (List.getElem?_eq_some_iff.mp at_).1
      omega
  | some u =>
    have running : r.wait.IsRunning := .of_polling phase
    have few := follows.length_units_le running
    have below := (List.getElem?_eq_some_iff.mp found).1
    obtain ⟨r', m', leads, follows', phase', passes, remains'⟩ :=
      follows.unit complete patient within phase found remains
    obtain ⟨r'', m'', j, leads', follows'', phase'', none, passes', open_⟩ :=
      pass follows' phase' remains'
    exact ⟨r'', m'', j, leads.trans leads', follows'', phase'', none, passes'.trans passes, open_⟩
termination_by ((sur.stores.reaches_finite set).toFinset.image Future.jobKey).card - i

end WaitRun

end CallDispatch
