import CallDispatch.Proofs.Tracking.Enrolment
import CallDispatch.Proofs.Tracking.Headway

/-!
# A single pass

A pass polls its units in turn while the answers it takes append units behind them, so the bound of
its loop grows as it goes. It comes to its end because a joined job key has one unit for good: calls
that a polled unit is given are not looked at again, and every other key is one of the wait set or
of a call that some output lists, however these lists refer to each other.
-/

namespace CallDispatch

/-! ## Calls that are appended -/

theorem Future.mem_children_recorded {calls : List CallName} {f : Future} {backend : String}
    {download : Bool} {index : Nat} {answer : Outcome FetchAnswer} (throwing : Bool)
    (comes : (f.target index).Comes (.listing calls) backend download (.finished answer))
    (none : f.children = []) {key : CallName}
    (child : key ∈ (f.recorded throwing answer).children) :
    key ∈ calls := by
  have output {g : Future} (none : g.children = []) {o : OutputRecord}
      (inside : ∀ key ∈ o.keys, key ∈ calls) (child : key ∈ (g.withOutput o).children) :
      key ∈ calls := by
    cases o with
    | value v =>
      have child' : key ∈ g.children := child
      rw [none] at child'
      cases child'
    | calls keys => exact inside key child
  rcases recorded_cases throwing comes with same | ⟨s, same, -, -⟩ |
      ⟨o, same, -, replied, -⟩ | ⟨s, o, same, -, -, -, -, replied, -⟩
  · rw [same, none] at child
    cases child
  · rw [same, withStatus_children, none] at child
    cases child
  · rw [same] at child
    exact output none (replied.2 o rfl) child
  · rw [same] at child
    exact output ((f.withStatus_children s).trans none) (replied.2 o rfl) child

/-- Only calls that outputs list are appended to a wait set. -/
theorem Absorbs.mem_calls {calls : List CallName} {terms : WaitTerms}
    {answers : List (Nat × Outcome FetchAnswer)} {kept : List (CallName × String)}
    {earlier later : List Future}
    (absorbs : Absorbs (.listing calls) terms answers kept earlier later)
    (bears : ∀ f ∈ earlier, f.BearsWhenDone) : ∀ c ∈ kept, c.1 ∈ calls := by
  intro c listed
  have adopted := absorbs.appended.subset listed
  rw [children_recordAll absorbs.distinct] at adopted
  obtain ⟨x, sorted, inside⟩ := List.mem_flatMap.mp adopted
  obtain ⟨f, first, at_, open_, -, comes⟩ :=
    absorbs.asked x ((sortAnswers_perm answers).mem_iff.mp sorted)
  have before := bears f (List.mem_of_getElem? at_)
  have notDone := Future.done_of_open open_
  have after := before.recorded terms.throwing comes
  have none : f.children = [] := by
    by_contra some
    rw [before some] at notDone
    cases notDone
  rw [Recorded.adoptedAt, at_] at inside
  dsimp only at inside
  rw [Future.adopted_of_open notDone after] at inside
  obtain ⟨key, child, rfl⟩ := List.mem_map.mp inside
  exact Future.mem_children_recorded terms.throwing comes none child

/-! ## Units that are made -/

/-- The distinct joined keys of the calls of a wait set and of those that outputs list. -/
def jobKeysOf (futures : List Future) (stores : Stores) : List String :=
  (futures.map Future.jobKey ++ stores.listed.map CallName.jobKey).dedup

theorem mem_jobKeysOf_of_name {futures : List Future} {stores : Stores} {n : CallName × String}
    (listed : n ∈ futures.map Future.name) : n.1.jobKey ∈ jobKeysOf futures stores := by
  obtain ⟨f, member, rfl⟩ := List.mem_map.mp listed
  exact List.mem_dedup.mpr (List.mem_append_left _ (List.mem_map_of_mem member))

theorem mem_jobKeysOf_of_listed {stores : Stores} {key : CallName} (listed : key ∈ stores.listed)
    (futures : List Future) : key.jobKey ∈ jobKeysOf futures stores :=
  List.mem_dedup.mpr (List.mem_append_right _ (List.mem_map_of_mem listed))

namespace WaitState

variable {μ : Type} [Watcher μ] {s : WaitState μ}

/-- What is fetched for a unit are futures of its job. -/
theorem jobKey_of_targets {download : Bool} {u : WaitUnit}
    (grouped : Grouped (s.futures.map Future.name) s.units) (member : u ∈ s.units) :
    ∀ j ∈ (s.targets download u).map (·.index),
      ∃ f, s.futures[j]? = some f ∧ f.jobKey = u.jobKey := by
  intro j listed
  obtain ⟨t, asked, rfl⟩ := List.mem_map.mp listed
  obtain ⟨j, inside, f, at_, -, -, rfl⟩ := WaitState.mem_targets.mp asked
  obtain ⟨name, named, key⟩ := (grouped.member u member j).mp inside
  rw [List.getElem?_map, at_] at named
  cases named
  exact ⟨f, at_, key⟩

theorem jobKeys_prefix {before after : List WaitUnit}
    (longer : before.map WaitUnit.heading <+: after.map WaitUnit.heading) :
    before.map WaitUnit.jobKey <+: after.map WaitUnit.jobKey := by
  have same (units : List WaitUnit) : units.map WaitUnit.jobKey =
      (units.map WaitUnit.heading).map fun h => joinedJobKey h.1 h.2.1 := by
    rw [List.map_map]
    rfl
  rw [same, same]
  exact longer.map _

end WaitState

/-- A wait around which the monitor has gone on and backends have come to open in other ways. -/
def Wait.amid {μ : Type} (w : Wait μ) (monitor : μ) (openBackend : Nat → String → Outcome Unit) :
    Wait μ :=
  { w with state := { w.state with monitor }, provider := { w.provider with openBackend } }

/-! ## Passes under way -/

/-- A pass under way: its wait, and in order the joined keys of the units it has polled and the
positions of the futures it has fetched. -/
structure PassRun (μ : Type) where
  wait : Wait μ
  polled : List String := []
  fetched : List Nat := []

namespace PassRun

variable {μ : Type}

/-- How a pass came out, once it is over: no unit is left to poll, or an error has ended it. -/
def result? (p : PassRun μ) : Option (Outcome Unit) :=
  match p.wait.phase with
  | .polling i => if p.wait.state.units.length ≤ i then some (.ok ()) else none
  | .finished result => some result
  | _ => none

variable [Watcher μ]

/-- The steps of a pass: it polls its next unit, or takes the answers to the fetches of one. Before
each step the monitor may have seen anything more, and backends may open in other ways. -/
inductive Step (replies : Replies) : PassRun μ → PassRun μ → Prop where
  | polled {p : PassRun μ} {i : Nat} {u : WaitUnit} (monitor : μ)
      {openBackend : Nat → String → Outcome Unit} (cancelled : Bool) :
      (∀ before backend, replies.opening backend (openBackend before backend)) →
      p.wait.phase = .polling i → p.wait.state.units[i]? = some u →
      Step replies p
        { wait := (p.wait.amid monitor openBackend).pollNext cancelled
          polled := p.polled ++ [u.jobKey]
          fetched := p.fetched ++ (((p.wait.amid monitor openBackend).state.targets
            p.wait.terms.download u).map (·.index)) }
  | answered {p : PassRun μ} {i : Nat} {targets : List Target} {u : WaitUnit} (monitor : μ)
      {openBackend : Nat → String → Outcome Unit} {answers : List (Nat × Outcome FetchAnswer)} :
      (∀ before backend, replies.opening backend (openBackend before backend)) →
      p.wait.phase = .fetching i targets → p.wait.state.units[i]? = some u →
      Answers replies u.backend p.wait.terms.download targets answers →
      Step replies p { p with wait := (p.wait.amid monitor openBackend).answer answers }

/-- A number of steps, one after the other. -/
inductive Steps (replies : Replies) (p : PassRun μ) : Nat → PassRun μ → Prop where
  | none : Steps replies p 0 p
  | more {n : Nat} {q r : PassRun μ} : Steps replies p n q → q.Step replies r →
      Steps replies p (n + 1) r

end PassRun

/-- The phases of a pass that has taken so many steps and polled so many units: every unit takes one
step, or two if it has something to fetch. -/
def Phase.IsAfter (steps polled : Nat) : Phase → Prop
  | .polling i => i = polled ∧ steps ≤ 2 * polled
  | .fetching i _ => i + 1 = polled ∧ steps + 1 ≤ 2 * polled
  | .sleeping => False
  | .finished result => (∃ e, result = .error e) ∧ steps ≤ 2 * polled

namespace Wait

variable {μ : Type} [Watcher μ] {w : Wait μ} {i : Nat} {u : WaitUnit}

theorem pollNext_of_unit (phase : w.phase = .polling i) (found : w.state.units[i]? = some u)
    (cancelled : Bool) :
    w.pollNext cancelled = { w with phase := .polling (i + 1) } ∨
      w.pollNext cancelled =
        { w with phase := .fetching i (w.state.targets w.terms.download u) } := by
  unfold pollNext
  simp only [phase, found]
  split
  · exact Or.inl rfl
  · exact Or.inr rfl

/-- Once answers are taken the next unit is polled, unless there is an error. -/
theorem answer_cases {targets : List Target} (phase : w.phase = .fetching i targets)
    (answers : List (Nat × Outcome FetchAnswer)) :
    (w.answer answers).state = (w.state.settle w.provider w.terms answers).1 ∧
      ((w.answer answers).phase = .polling (i + 1) ∨
        ∃ e, (w.state.settle w.provider w.terms answers).2 = some e ∧
          (w.answer answers).phase = .finished (.error e)) := by
  rcases settled : w.state.settle w.provider w.terms answers with ⟨state, none | e⟩
  · rw [answer_of_none phase settled]
    exact ⟨rfl, Or.inl rfl⟩
  · rw [answer_of_some phase settled]
    exact ⟨rfl, Or.inr ⟨e, rfl, rfl⟩⟩

/-- Where no sleep is needed, a wait whose units have all been polled is at its end. -/
theorem pollNext_of_always (always : w.terms.goal = .always) (phase : w.phase = .polling i)
    (passed : w.state.units[i]? = none) (cancelled : Bool) :
    w.pollNext cancelled = w.finish (.ok ()) := by
  have met : isMet w.terms w.state.futures = true := by
    rw [isMet, always]
  rw [pollNext_of_passed phase passed, Wait.passed, if_pos met]

end Wait

/-- The errors that stop a pass: those of stores, and if failures are raised those of calls. -/
inductive StopsPass (terms : WaitTerms) : DispatchError → Prop where
  | storage (detail : String) : StopsPass terms (.storage detail)
  | failed (call message : String) : terms.throwing = true →
      StopsPass terms (.callFailed call message)

/-- The error that the answers to the fetches of a unit end a pass with. -/
theorem Wait.Sound.stopsPass {μ : Type} [Watcher μ] {calls : List CallName} {terms : WaitTerms}
    {w : Wait μ} {i : Nat} {targets : List Target} {u : WaitUnit}
    {answers : List (Nat × Outcome FetchAnswer)} {e : DispatchError}
    (sound : w.Sound (.listing calls) terms) (phase : w.phase = .fetching i targets)
    (found : w.state.units[i]? = some u)
    (fetched : Answers (.listing calls) u.backend terms.download targets answers)
    (stops : (w.state.settle w.provider w.terms answers).2 = some e) : StopsPass terms e := by
  rcases sound.fails phase found fetched (Prod.ext rfl stops) with
    ⟨detail, rfl⟩ | ⟨_, none, -⟩ | ⟨throws, f, -, message, -, -, rfl⟩
  · exact .storage detail
  · cases none
  · exact .failed _ message throws

namespace PassRun

variable {μ : Type} [Watcher μ]

/-- What holds of a pass after so many steps from its start. -/
structure Underway (stores : Stores) (terms : WaitTerms) (futures : List Future) (start : Wait μ)
    (steps : Nat) (p : PassRun μ) : Prop where
  reached : p.wait.Reached (.listing stores.listed) terms futures
  grouped : Grouped (p.wait.state.futures.map Future.name) p.wait.state.units
  kept : start.state.units.map WaitUnit.heading <+: p.wait.state.units.map WaitUnit.heading
  inside : ∀ c ∈ p.wait.state.futures.map Future.name,
    c.1.jobKey ∈ jobKeysOf start.state.futures stores
  phase : p.wait.phase.IsAfter steps p.polled.length
  stopped : ∀ e, p.wait.phase = .finished (.error e) → StopsPass terms e
  inTurn : p.polled <+: p.wait.state.units.map WaitUnit.jobKey
  once : p.fetched.Nodup
  fetched : ∀ i ∈ p.fetched, ∃ f, p.wait.state.futures[i]? = some f ∧ f.jobKey ∈ p.polled

namespace Underway

variable {stores : Stores} {terms : WaitTerms} {futures : List Future} {start : Wait μ} {n : Nat}
  {p q : PassRun μ}

theorem begun (reached : start.Reached (.listing stores.listed) terms futures)
    (begins : start.phase = .polling 0) :
    Underway stores terms futures start 0 { wait := start } where
  reached := reached
  grouped := reached.sound.1.grouped (.of_polling begins)
  kept := List.prefix_refl _
  inside _ listed := mem_jobKeysOf_of_name listed
  phase := by
    show start.phase.IsAfter 0 0
    rw [begins]
    exact ⟨rfl, Nat.le_refl 0⟩
  stopped e finished := by cases begins.symm.trans finished
  inTurn := List.nil_prefix
  once := List.nodup_nil
  fetched _ none := absurd none List.not_mem_nil

/-- The keys of the units polled so far with that of the next. -/
theorem next {i : Nat} {u : WaitUnit} (underway : Underway stores terms futures start n p)
    (polling : p.wait.phase = .polling i) (found : p.wait.state.units[i]? = some u) :
    i = p.polled.length ∧ n ≤ 2 * i ∧
      p.polled ++ [u.jobKey] <+: p.wait.state.units.map WaitUnit.jobKey ∧
      u.jobKey ∉ p.polled := by
  have phase := underway.phase
  rw [polling] at phase
  obtain ⟨rfl, few⟩ := phase
  have longer : p.polled ++ [u.jobKey] <+: p.wait.state.units.map WaitUnit.jobKey := by
    obtain ⟨rest, split⟩ := underway.inTurn
    have head : rest[0]? = some u.jobKey := by
      have at_ := congrArg (·[p.polled.length]?) split
      rw [List.getElem?_append_right (Nat.le_refl _), Nat.sub_self, List.getElem?_map, found] at at_
      exact at_
    cases rest with
    | nil => cases head
    | cons key rest =>
      cases head
      exact ⟨rest, by rw [← split, List.append_assoc]; rfl⟩
  have nodup := longer.sublist.nodup underway.grouped.distinct
  refine ⟨rfl, few, longer, fun old => ?_⟩
  exact (List.nodup_append.mp nodup).2.2 _ old _ (List.mem_singleton_self _) rfl

/-- A unit that was not polled before is polled, and members of it are fetched. -/
theorem polls {i : Nat} {u : WaitUnit} (underway : Underway stores terms futures start n p)
    (monitor : μ) {openBackend : Nat → String → Outcome Unit} (cancelled : Bool)
    (opening : ∀ before backend,
      (Replies.listing stores.listed).opening backend (openBackend before backend))
    (phase : p.wait.phase = .polling i) (found : p.wait.state.units[i]? = some u) :
    Underway stores terms futures start (n + 1)
      { wait := (p.wait.amid monitor openBackend).pollNext cancelled
        polled := p.polled ++ [u.jobKey]
        fetched := p.fetched ++ (((p.wait.amid monitor openBackend).state.targets
          p.wait.terms.download u).map (·.index)) } := by
  obtain ⟨rfl, few, longer, unpolled⟩ := underway.next phase found
  let w := p.wait.amid monitor openBackend
  have reached : w.Reached (.listing stores.listed) terms futures :=
    .provided (.watched monitor underway.reached) opening
  have member := List.mem_of_getElem? found
  have own : ∀ j ∈ (w.state.targets p.wait.terms.download u).map (·.index),
      ∃ f, p.wait.state.futures[j]? = some f ∧ f.jobKey = u.jobKey :=
    WaitState.jobKey_of_targets (s := w.state) underway.grouped member
  have state : (w.pollNext cancelled).state = w.state := w.state_pollNext cancelled
  have goesOn : (w.pollNext cancelled).phase.IsAfter (n + 1) (p.polled ++ [u.jobKey]).length ∧
      ∀ e, (w.pollNext cancelled).phase ≠ .finished (.error e) := by
    rw [List.length_append, List.length_singleton]
    rcases Wait.pollNext_of_unit (w := w) phase found cancelled with skips | fetches
    · rw [skips]
      exact ⟨⟨rfl, by omega⟩, nofun⟩
    · rw [fetches]
      exact ⟨⟨rfl, by omega⟩, nofun⟩
  refine ⟨reached.polled cancelled, ?_, ?_, ?_, goesOn.1,
    fun e failed => absurd failed (goesOn.2 e), ?_, ?_, ?_⟩
  · show Grouped ((w.pollNext cancelled).state.futures.map _) (w.pollNext cancelled).state.units
    rw [state]
    exact underway.grouped
  · show _ <+: (w.pollNext cancelled).state.units.map _
    rw [state]
    exact underway.kept
  · show ∀ c ∈ (w.pollNext cancelled).state.futures.map _, _
    rw [state]
    exact underway.inside
  · show _ <+: (w.pollNext cancelled).state.units.map _
    rw [state]
    exact longer
  · have asked : ((w.state.targets p.wait.terms.download u).map (·.index)).Nodup :=
      WaitState.nodup_targets (underway.grouped.nodup u member)
    refine List.nodup_append.mpr ⟨underway.once, asked, ?_⟩
    rintro j old _ new rfl
    obtain ⟨f, at_, known⟩ := underway.fetched j old
    obtain ⟨f', at', key⟩ := own j new
    rw [at_] at at'
    cases at'
    exact unpolled (key ▸ known)
  · show ∀ j ∈ _, ∃ f, (w.pollNext cancelled).state.futures[j]? = some f ∧ _
    rw [state]
    intro j listed
    rcases List.mem_append.mp listed with old | new
    · obtain ⟨f, at_, known⟩ := underway.fetched j old
      exact ⟨f, at_, List.mem_append_left _ known⟩
    · obtain ⟨f, at_, key⟩ := own j new
      exact ⟨f, at_, List.mem_append_right _ (key ▸ List.mem_singleton_self _)⟩

/-- Answers are taken, units for their calls appended, and an error may stop the pass. -/
theorem answers {i : Nat} {targets : List Target} {u : WaitUnit}
    (underway : Underway stores terms futures start n p) (bears : ∀ f ∈ futures, f.BearsWhenDone)
    (monitor : μ) {openBackend : Nat → String → Outcome Unit}
    {answers : List (Nat × Outcome FetchAnswer)}
    (opening : ∀ before backend,
      (Replies.listing stores.listed).opening backend (openBackend before backend))
    (phase : p.wait.phase = .fetching i targets) (found : p.wait.state.units[i]? = some u)
    (fetched : Answers (.listing stores.listed) u.backend p.wait.terms.download targets answers) :
    Underway stores terms futures start (n + 1)
      { p with wait := (p.wait.amid monitor openBackend).answer answers } := by
  have after := underway.phase
  rw [phase] at after
  let w := p.wait.amid monitor openBackend
  have reached : w.Reached (.listing stores.listed) terms futures :=
    .provided (.watched monitor underway.reached) opening
  obtain ⟨sound, history⟩ := reached.sound
  have fetched' : Answers (.listing stores.listed) u.backend terms.download targets answers :=
    sound.terms_eq ▸ fetched
  obtain ⟨-, kept, absorbs⟩ := sound.answer (w := w) phase found fetched'
  have bears' := history.bears bears
  obtain ⟨state, goesOn⟩ := Wait.answer_cases (w := w) phase answers
  have filed : Filed (w.state.futures.map Future.name) w.state.units :=
    reached.filed (Or.inr (Or.inl (.of_fetching (w := w) phase)))
  obtain ⟨filed', longer⟩ := WaitState.settle_filed w.provider w.terms filed absorbs.distinct
  rw [← state] at filed' longer
  refine ⟨reached.answered phase found fetched', filed'.toGrouped, underway.kept.trans longer,
    ?_, ?_, ?_, underway.inTurn.trans (WaitState.jobKeys_prefix longer), underway.once, ?_⟩
  · intro c listed
    rw [absorbs.names] at listed
    rcases List.mem_append.mp listed with old | new
    · exact underway.inside c old
    · exact mem_jobKeysOf_of_listed (absorbs.mem_calls bears' c new) _
  · show (w.answer answers).phase.IsAfter (n + 1) p.polled.length
    rcases goesOn with polls | ⟨e, -, fails⟩
    · rw [polls]
      exact ⟨after.1, after.2⟩
    · rw [fails]
      exact ⟨⟨e, rfl⟩, after.2⟩
  · intro e failed
    rcases goesOn with polls | ⟨e', stops, fails⟩
    · cases polls.symm.trans failed
    · cases fails.symm.trans failed
      exact sound.stopsPass (w := w) phase found fetched' stops
  · intro j listed
    obtain ⟨f, at_, known⟩ := underway.fetched j listed
    refine ⟨_, absorbs.getElem?_old at_, ?_⟩
    have same : (f.answered terms.throwing (sortAnswers answers) j).jobKey = f.jobKey :=
      congrArg CallName.jobKey (Future.key_eq_of_name (f.answered_name _ _ j))
    rwa [same]

theorem step (underway : Underway stores terms futures start n p)
    (bears : ∀ f ∈ futures, f.BearsWhenDone) (step : p.Step (.listing stores.listed) q) :
    Underway stores terms futures start (n + 1) q := by
  cases step with
  | polled monitor cancelled opening phase found =>
    exact underway.polls monitor cancelled opening phase found
  | answered monitor opening phase found fetched =>
    exact underway.answers bears monitor opening phase found fetched

theorem steps (reached : start.Reached (.listing stores.listed) terms futures)
    (begins : start.phase = .polling 0) (bears : ∀ f ∈ futures, f.BearsWhenDone)
    (steps : Steps (.listing stores.listed) { wait := start } n p) :
    Underway stores terms futures start n p := by
  induction steps with
  | none => exact begun reached begins
  | more _ last ih => exact ih.step bears last

/-- A pass meets no more units than there are keys. -/
theorem units_le (underway : Underway stores terms futures start n p) :
    p.wait.state.units.length ≤ (jobKeysOf start.state.futures stores).length :=
  underway.grouped.length_le_keys underway.inside

/-- No more units have been polled than there are. -/
theorem polled_le (underway : Underway stores terms futures start n p) :
    p.polled.length ≤ p.wait.state.units.length := by
  simpa using underway.inTurn.length_le

theorem steps_le (underway : Underway stores terms futures start n p) :
    n ≤ 2 * p.polled.length := by
  have phase := underway.phase
  cases now : p.wait.phase with
  | polling i =>
    rw [now] at phase
    exact phase.2
  | fetching i targets =>
    rw [now] at phase
    exact Nat.le_of_succ_le phase.2
  | sleeping =>
    rw [now] at phase
    cases phase
  | finished result =>
    rw [now] at phase
    exact phase.2

/-- A pass that is not over takes another step, whatever the stores hold. -/
theorem goes_on (underway : Underway stores terms futures start n p) (goesOn : p.result? = none) :
    ∃ q, p.Step (.listing stores.listed) q := by
  have sound := underway.reached.sound.1
  cases now : p.wait.phase with
  | polling i =>
    cases found : p.wait.state.units[i]? with
    | some u => exact ⟨_, .polled p.wait.state.monitor false sound.opening now found⟩
    | none =>
      have past := List.getElem?_eq_none_iff.mp found
      unfold result? at goesOn
      rw [now] at goesOn
      simp [past] at goesOn
  | fetching i targets =>
    obtain ⟨u, found, -⟩ := sound.fetching i targets now
    let quick : Surroundings := { stores }
    let pool : FetchPool :=
      { backend := u.backend, download := p.wait.terms.download, capacity := 1, waiting := targets }
    have within : quick.Within (.listing stores.listed) := Surroundings.within_listing fun _ => id
    have driven := FetchPool.start_driven within 0
      (FetchPool.serving_new (.listing stores.listed) u.backend p.wait.terms.download 1 targets) {}
    have done := driven.done_of_quick (Surroundings.isQuick rfl) Nat.one_pos rfl
    have answers := driven.serving.done done
    rw [driven.kind.backend, driven.kind.download] at answers
    exact ⟨_, .answered p.wait.state.monitor sound.opening now found answers⟩
  | sleeping =>
    have phase := underway.phase
    rw [now] at phase
    cases phase
  | finished result =>
    unfold result? at goesOn
    rw [now] at goesOn
    cases goesOn

/-- A pass that is over has polled all units, or an error has stopped it. -/
theorem result_cases (underway : Underway stores terms futures start n p) {outcome : Outcome Unit}
    (ended : p.result? = some outcome) :
    (outcome = .ok () ∧ p.polled = p.wait.state.units.map WaitUnit.jobKey ∧
      ∃ i, p.wait.phase = .polling i ∧ p.wait.state.units[i]? = none) ∨
      ∃ e, outcome = .error e ∧ StopsPass terms e := by
  have phase := underway.phase
  unfold result? at ended
  cases now : p.wait.phase with
  | polling i =>
    rw [now] at phase ended
    obtain ⟨rfl, -⟩ := phase
    dsimp only at ended
    split at ended
    · next past =>
      cases ended
      refine Or.inl ⟨rfl, underway.inTurn.eq_of_length_le ?_, _, rfl,
        List.getElem?_eq_none_iff.mpr past⟩
      rwa [List.length_map]
    · cases ended
  | fetching i targets =>
    rw [now] at ended
    cases ended
  | sleeping =>
    rw [now] at ended
    cases ended
  | finished result =>
    rw [now] at phase ended
    obtain ⟨⟨e, rfl⟩, -⟩ := phase
    cases ended
    exact Or.inr ⟨e, rfl, underway.stopped e now⟩

end Underway

/-- How a pass goes, seen after some of its steps, where there are so many joined keys. It takes at
most two steps for each, and another until it is over. There are never more units than keys, and
those there were stay what they are. Units are polled in turn, each once, and futures fetched once:
all units, unless an error stops the pass. A wait that is to make one pass is then at its end. -/
structure Goes (replies : Replies) (terms : WaitTerms) (keys : List String) (start : Wait μ)
    (steps : Nat) (p : PassRun μ) : Prop where
  short : steps ≤ 2 * keys.length
  goesOn : p.result? = none → ∃ q, p.Step replies q
  few : p.wait.state.units.length ≤ keys.length
  kept : start.state.units.map WaitUnit.heading <+: p.wait.state.units.map WaitUnit.heading
  distinct : (p.wait.state.units.map WaitUnit.jobKey).Nodup
  inTurn : p.polled <+: p.wait.state.units.map WaitUnit.jobKey
  once : p.polled.Nodup ∧ p.fetched.Nodup
  result : ∀ outcome, p.result? = some outcome →
    (outcome = .ok () ∧ p.polled = p.wait.state.units.map WaitUnit.jobKey) ∨
      ∃ e, outcome = .error e ∧ StopsPass terms e
  returns : p.result? = some (.ok ()) → terms.goal = .always →
    ∀ cancelled, (p.wait.pollNext cancelled).phase = .finished (.ok ())

theorem Underway.goes {stores : Stores} {terms : WaitTerms} {futures : List Future}
    {start : Wait μ} {n : Nat} {p : PassRun μ}
    (underway : Underway stores terms futures start n p) :
    p.Goes (.listing stores.listed) terms (jobKeysOf start.state.futures stores) start n := by
  have few := underway.units_le
  have polled := underway.polled_le
  have steps := underway.steps_le
  refine ⟨by omega, underway.goes_on, few, underway.kept, underway.grouped.distinct,
    underway.inTurn, ⟨underway.inTurn.sublist.nodup underway.grouped.distinct, underway.once⟩,
    ?_, ?_⟩
  · intro outcome ended
    rcases underway.result_cases ended with ⟨ok, all, -⟩ | stopped
    · exact Or.inl ⟨ok, all⟩
    · exact Or.inr stopped
  · intro ended always cancelled
    have always' : p.wait.terms.goal = .always := underway.reached.sound.1.terms_eq ▸ always
    rcases underway.result_cases ended with ⟨-, -, i, phase, passed⟩ | ⟨e, failed, -⟩
    · rw [Wait.pollNext_of_always always' phase passed]
      rfl
    · cases failed

end PassRun

/-! ## Waits for one pass -/

/-- The outcomes of a wait that makes one pass: that of the pass, or that time was up. -/
inductive EndsPass (terms : WaitTerms) : Outcome Unit → Prop where
  | ok : EndsPass terms (.ok ())
  | stopped {e : DispatchError} : StopsPass terms e → EndsPass terms (.error e)
  | timeout {ms : Nat} : terms.timeout = some ms → EndsPass terms (.error (.timeout ms))

/-- The phases of a wait that makes one pass. It never sleeps. -/
def Phase.OfPass (terms : WaitTerms) : Phase → Prop
  | .sleeping => False
  | .finished outcome => EndsPass terms outcome
  | _ => True

namespace WaitRun

variable {calls : List CallName} {terms : WaitTerms} {futures : List Future} {r r' : WaitRun}

/-- Whatever happens, a wait that always returns after a pass makes one. -/
theorem Happens.ofPass (happens : r.Happens r') (always : terms.goal = .always)
    (contained : r.Contained calls terms futures) (before : r.wait.phase.OfPass terms) :
    r'.wait.phase.OfPass terms := by
  have sound := contained.reached.sound.1
  have awake : r.wait.phase ≠ .sleeping := by
    intro sleeping
    rw [sleeping] at before
    exact before
  cases happens with
  | turn turns =>
    obtain ⟨-, ⟨i, phase, isWait⟩ | ⟨i, targets, p, phase, isPool, done, isWait⟩⟩ :=
      turn_cases turns
    · rw [isWait]
      cases found : r.wait.state.units[i]? with
      | none =>
        have always' : r.wait.terms.goal = .always := sound.terms_eq ▸ always
        rw [Wait.pollNext_of_always always' phase found]
        exact .ok
      | some u =>
        rcases Wait.pollNext_of_unit phase found r.sur.cancelled with skips | fetches
        · rw [skips]
          trivial
        · rw [fetches]
          trivial
    · obtain ⟨u, found, fetched⟩ := contained.answers phase isPool done
      rw [isWait]
      rcases (Wait.answer_cases phase p.answers).2 with polls | ⟨e, stops, fails⟩
      · rw [polls]
        trivial
      · rw [fails]
        exact .stopped (sound.stopsPass phase found fetched stops)
  | overdue _ =>
    unfold checkDeadline Wait.expire
    split
    · split
      · split
        · exact before
        · next limit _ => exact .timeout (sound.terms_eq ▸ limit)
        · exact before
      · exact before
    · exact before
  | @changed time c rest ahead =>
    rw [change_wait]
    split
    · unfold Wait.cancel
      split
      · next sleeping => exact absurd sleeping awake
      · exact before
    · exact before
  | looked => exact before
  | clock now _ => exact before
  | resumed =>
    unfold resume
    split
    · next sleeping => exact absurd sleeping awake
    · split <;> exact before
    · exact before

theorem Contained.ofPass (contained : r.Contained calls terms futures) (visits : r.Visits r')
    (always : terms.goal = .always) (before : r.wait.phase.OfPass terms) :
    r'.wait.phase.OfPass terms := by
  induction visits with
  | refl => exact before
  | tail visits happens ih => exact happens.ofPass always (contained.visits visits) ih

end WaitRun

namespace Session

variable {s : Session} {terms : WaitTerms} {timeline : List (Nat × Change)}

/-- A wait that always returns after a pass begins it when it is entered. -/
theorem startRun_ofPass (s : Session) (timeline : List (Nat × Change))
    (always : terms.goal = .always) : (s.startRun terms timeline).wait.phase.OfPass terms := by
  obtain ⟨w, -, isWait | ⟨isWait, e, failed, ⟨detail, rfl⟩ | ⟨c, none, -⟩⟩⟩ :=
    s.startRun_cases terms timeline {} none
  · rw [isWait, if_pos always]
    trivial
  · rw [isWait, failed]
    exact .stopped (.storage detail)
  · cases none

/-- A wait that always returns after a pass does return. -/
theorem always_returns (always : terms.goal = .always) (goesOn : s.IsQuick timeline ∨ s.IsPaced) :
    ∃ enough, ∀ limit, enough ≤ limit →
      EndsPass terms ({ s with limit }.wait terms timeline).2.1 ∧
        ({ s with limit }.wait terms timeline).2.2.passes ≤ 1 := by
  have contained := s.startRun_contained terms timeline
  obtain ⟨honest, -⟩ := s.startRun_honest terms timeline none
  have ofPass {r : WaitRun} (visits : (s.startRun terms timeline).Visits r) :
      r.wait.phase.OfPass terms :=
    contained.ofPass visits always (s.startRun_ofPass timeline always)
  cases complete : s.futures.all (·.isComplete terms.download) with
  | true =>
    refine ⟨0, fun limit _ => ?_⟩
    obtain ⟨-, outcome, passes⟩ :=
      Session.wait_of_complete (s := { s with limit }) timeline complete
    rw [outcome, passes]
    exact ⟨.ok, Nat.zero_le 1⟩
  | false =>
    obtain ⟨enough, visits⟩ := s.run_visits terms timeline
    have awake (r : WaitRun) (visits : (s.startRun terms timeline).Visits r)
        (sleeping : r.wait.phase = .sleeping) : False := by
      have phase := ofPass visits
      rw [sleeping] at phase
      exact phase
    obtain ⟨enough', ends⟩ := contained.ends (s.known_calls timeline)
      (goesOn.imp (startRun_prompt · terms) fun paced => s.startRun_paced paced terms timeline)
      awake
    refine ⟨max enough (enough' + 1), fun limit fits => ?_⟩
    obtain ⟨events, rfl⟩ : ∃ n, limit = n + 1 := ⟨limit - 1, by omega⟩
    have visited := visits (events + 1) (by omega) (events + 1)
    have finished :
        ((s.startRun terms timeline).run (events + 1) (events + 1)).isFinished = true := by
      rw [WaitRun.run_succ]
      exact ends (events + 1) events (events + 1) (by omega) (by omega) (by omega)
    obtain ⟨-, outcome, passes⟩ :=
      Session.wait_of_incomplete (s := { s with limit := events + 1 }) timeline complete rfl
    rw [outcome, passes]
    refine ⟨?_, (contained.honest nofun honest visited).once always⟩
    have phase := ofPass visited
    show EndsPass terms (outcomeOf ((s.startRun terms timeline).run _ _).wait.phase)
    unfold WaitRun.isFinished at finished
    split at finished
    · next result ended =>
      rw [ended] at phase ⊢
      exact phase
    · cases finished

end Session

/-- A pass always ends. Whatever wait set it is over, whatever the stores hold, whatever the monitor
has seen whenever it is asked and whichever answers are waited for, it takes at most two steps for
each joined key of the wait set and of the calls that outputs list, polls all its units once each
unless an error stops it, and fetches no future twice. So a wait that always returns after a pass
returns, even where outputs list each other's calls. All that is asked of the wait set is what holds
of every future made and recorded: it has calls only once it is done. -/
theorem every_pass_ends {stores : Stores} {futures : List Future}
    (bears : ∀ f ∈ futures, f.BearsWhenDone) (terms : WaitTerms) :
    (∀ {μ : Type} [Watcher μ] {start : Wait μ},
      start.Reached (.listing stores.listed) terms futures → start.phase = .polling 0 →
      ∀ {steps : Nat} {p : PassRun μ},
        PassRun.Steps (.listing stores.listed) { wait := start } steps p →
        p.Goes (.listing stores.listed) terms (jobKeysOf start.state.futures stores) start steps) ∧
    (terms.goal = .always → ∀ {s : Session} {timeline : List (Nat × Change)},
      s.futures = futures → s.sur.stores = stores → s.IsQuick timeline ∨ s.IsPaced →
      ∃ enough, ∀ limit, enough ≤ limit →
        EndsPass terms ({ s with limit }.wait terms timeline).2.1 ∧
          ({ s with limit }.wait terms timeline).2.2.passes ≤ 1) :=
  ⟨fun reached begins _ _ steps => (PassRun.Underway.steps reached begins bears steps).goes,
    fun always _ _ _ _ goesOn => Session.always_returns always goesOn⟩

/-! ### Outputs that list each other's calls -/

namespace Cyclic

def one : CallName := ⟨"e", "j", "0"⟩

def other : CallName := ⟨"e", "k", "0"⟩

def missing : CallName := ⟨"e", "m", "0"⟩

/-- Two calls whose outputs list each other, the first itself too, the second a call of a job that
does not exist. -/
def stores : Stores where
  entries := [("memory",
    { statuses := [(one, .ok), (other, .ok)]
      outputs := [(one, .calls [one, other]), (other, .calls [one, missing])] })]

/-- A wait for the first of them, with a monitor that has seen both. -/
def session : Session where
  futures := [{ key := one, backend := "memory" }]
  sur := { stores }
  choice := .manual
  monitorInterval := 10
  storage := { interval := 10 }
  manual := { seen := [("e-j", ["0"]), ("e-k", ["0"])] }

def oneForAll : WaitTerms := { download := true, goal := .always }

def start : Wait SessionMonitor := (session.startRun oneForAll []).wait

/-- A poll of the only unit there is fetches the only call. The pass goes on to two units that it
makes itself, one for each other job, and the wait for it ends with five calls in three units. -/
theorem every_pass_ends_cyclic :
    (∃ p, PassRun.Steps (.listing stores.listed) { wait := start } 1 p ∧ p.polled = ["e-j"] ∧
      p.fetched = [0] ∧
      p.Goes (.listing stores.listed) oneForAll (jobKeysOf start.state.futures stores) start 1) ∧
    (jobKeysOf start.state.futures stores).length = 3 ∧
    ({ session with limit := 20 }.wait oneForAll []).2.1 = .ok () ∧
    ({ session with limit := 20 }.wait oneForAll []).1.futures.map Future.key =
      [one, one, other, one, missing] ∧
    ∃ enough, ∀ limit, enough ≤ limit →
      EndsPass oneForAll ({ session with limit }.wait oneForAll []).2.1 ∧
        ({ session with limit }.wait oneForAll []).2.2.passes ≤ 1 := by
  have bears : ∀ f ∈ session.futures, f.BearsWhenDone := by
    intro f listed
    rw [List.mem_singleton.mp listed]
    exact (Future.isFresh_new one "memory").coherent.done_of_children
  have fits : (session.startRun oneForAll []).Fits (.listing stores.listed) oneForAll
      session.futures := Session.startRun_fits (Surroundings.within_listing fun _ => id) nofun .none
  have reached : start.Reached (.listing stores.listed) oneForAll session.futures := fits.reached
  have opening := reached.sound.1.opening
  have begins : start.phase = .polling 0 := by cbv
  have first : PassRun.Steps (.listing stores.listed) { wait := start } 1 _ :=
    .more .none
      (.polled (u := { executorId := "e", jobId := "j", backend := "memory", members := [0] })
        start.state.monitor false opening begins (by cbv))
  refine ⟨⟨_, first, by cbv, by cbv, ?_⟩, by cbv, by cbv, by cbv, ?_⟩
  · exact (every_pass_ends bears oneForAll).1 reached begins first
  · exact (every_pass_ends bears oneForAll).2 rfl rfl rfl
      (Or.inr ⟨by decide, by decide, List.nodup_nil⟩)

end Cyclic

end CallDispatch
