import CallDispatch.Proofs.Tracking.Runs

/-!
# How waits begin

A wait makes its units before anything else, and with a monitor of its own it sweeps each of them
and has it watched. So it fails at once where a backend does not open, or where a store to be swept
is unavailable. A wait whose condition holds when it begins ends before its first pass and leaves
the wait set as it was; but only if all futures are complete does it do so without making units.
-/

namespace CallDispatch

namespace Provider

/-- A provider whose openings end the same, however many came before. -/
def IsSteady (provider : Provider) : Prop :=
  ∀ before backend, provider.openBackend before backend = provider.openBackend 0 backend

/-- A backend that is at hand or opens. -/
def Gives (provider : Provider) (backend : String) : Prop :=
  provider.atHand = some backend ∨ provider.openBackend 0 backend = .ok ()

end Provider

namespace WaitState

variable {μ : Type} {provider : Provider} {names : List (CallName × String)} {s : WaitState μ}

/-- A call is placed if its joined key has a unit or its backend can be had. -/
theorem place_ok_iff (provider : Provider) (grouped : Grouped names s.units)
    (name : CallName × String) (index : Nat) :
    (s.place provider name.1 name.2 index).2 = none ↔
      (∃ n ∈ names, n.1.jobKey = name.1.jobKey) ∨ provider.atHand = some name.2 ∨
        provider.openBackend s.opened.length name.2 = .ok () := by
  unfold place
  cases added : addMember name.1.jobKey index s.units with
  | some units =>
    obtain ⟨-, u, member, same⟩ := addMember_eq_some grouped.distinct added
    obtain ⟨n, atHead, -⟩ := grouped.first u member
    have known := jobKey_of_firstOf atHead
    exact ⟨fun _ => Or.inl ⟨n, known.1, known.2.trans same⟩, fun _ => rfl⟩
  | none =>
    have unknown : ¬ ∃ n ∈ names, n.1.jobKey = name.1.jobKey := by
      rintro ⟨n, listed, same⟩
      obtain ⟨u, member, key⟩ := grouped.every n listed
      exact addMember_eq_none added u member (key.trans same)
    by_cases near : provider.atHand = some name.2
    · simp [near]
    · cases opened : provider.openBackend s.opened.length name.2 <;> simp [near, unknown, opened]

/-- Calls are placed if the backend of each that comes first with its joined key can be had. -/
theorem placeAll_ok_iff (steady : provider.IsSteady) (grouped : Grouped names s.units)
    (futures : List Future) :
    (placeAll provider names.length futures s).2 = none ↔
      ∀ f ∈ futures, (∀ n ∈ names, n.1.jobKey ≠ f.jobKey) →
        firstOf f.jobKey (futures.map Future.name) = some f.name → provider.Gives f.backend := by
  induction futures generalizing names s with
  | nil => simp [placeAll]
  | cons f rest ih =>
    have placing : (s.place provider f.name.1 f.name.2 names.length).2 = none ↔
        (∃ n ∈ names, n.1.jobKey = f.name.1.jobKey) ∨ provider.Gives f.name.2 := by
      rw [Provider.Gives, ← steady s.opened.length]
      exact place_ok_iff provider grouped f.name names.length
    have atHead : firstOf f.jobKey ((f :: rest).map Future.name) = some f.name :=
      firstOf_cons_of_eq rfl _
    rw [placeAll]
    rcases place_cases provider grouped f.name with ⟨units, opened, placed, grouped', -⟩ |
        ⟨opened, e, failed, closed⟩
    · have first : s.place provider f.key f.backend names.length =
          ({ s with units, opened }, none) := placed
      have position : names.length + 1 = (names ++ [f.name]).length := by simp
      rw [placed] at placing
      have had := placing.mp rfl
      rw [first]
      dsimp only
      rw [position, ih (s := { s with units, opened }) grouped']
      constructor
      · intro each g member unknown isFirst
        -- If `f` comes before `g` with the same joined key, `g` is first only if it is `f` again.
        by_cases same : f.jobKey = g.jobKey
        · rw [← same, atHead] at isFirst
          have backend : f.backend = g.backend := congrArg Prod.snd (Option.some.inj isFirst)
          rcases had with ⟨n, listed, same'⟩ | gives
          · exact absurd (same'.trans same) (unknown n listed)
          · exact backend ▸ gives
        · have later : g ∈ rest := by
            rcases List.mem_cons.mp member with rfl | later
            · exact absurd rfl same
            · exact later
          have ne : f.name.1.jobKey ≠ g.jobKey := same
          refine each g later ?_ ((firstOf_cons_of_ne ne _).symm.trans isFirst)
          intro n listed
          rcases List.mem_append.mp listed with old | last
          · exact unknown n old
          · rw [List.mem_singleton.mp last]
            exact same
      · intro each g member unknown isFirst
        refine each g (List.mem_cons_of_mem f member) ?_ ?_
        · exact fun n listed => unknown n (List.mem_append_left _ listed)
        · have ne := unknown f.name (List.mem_append_right _ List.mem_cons_self)
          exact (firstOf_cons_of_ne ne _).trans isFirst
    · have first : s.place provider f.key f.backend names.length =
          ({ s with opened }, some e) := failed
      rw [failed] at placing
      rw [first]
      have fails : some e ≠ none := Option.some_ne_none e
      refine ⟨fun placed => absurd placed fails, fun each => absurd (placing.mpr ?_) fails⟩
      by_cases known : ∃ n ∈ names, n.1.jobKey = f.jobKey
      · exact Or.inl known
      · refine Or.inr (each f List.mem_cons_self ?_ atHead)
        exact fun n listed same => known ⟨n, listed, same⟩

end WaitState

/-- Units are swept and watched if the store of each is available. -/
theorem Wait.watchUnits_ok_iff (stores : Stores) (futures : List Future) (units : List WaitUnit)
    (m : ListingMonitor) :
    ((Wait.watchUnits stores.finishedCalls futures units m).2 = none ↔
      ∀ u ∈ units, (stores.store u.backend).unavailable = false) ∧
    ∀ e, (Wait.watchUnits stores.finishedCalls futures units m).2 = some e →
      ∃ detail, e = .storage detail := by
  induction units generalizing m with
  | nil =>
    refine ⟨⟨fun _ u listed => absurd listed List.not_mem_nil, fun _ => rfl⟩, ?_⟩
    rintro e ⟨⟩
  | cons u rest ih =>
    cases available : (stores.store u.backend).unavailable with
    | false =>
      obtain ⟨swept, sweeps, -⟩ :=
        ListingMonitor.watched_sweep m (u.watchedJob futures) (u.finishedCalls stores)
      rw [Wait.watchUnits, Stores.finishedCalls_ok available, sweeps]
      have later := ih (swept.start (u.watchedJob futures) u.backend)
      refine ⟨later.1.trans ?_, later.2⟩
      simp [available]
    | true =>
      have fails : stores.finishedCalls u.backend u.executorId u.jobId =
          .error (.storage (u.backend ++ " backend unavailable")) := by
        unfold Stores.finishedCalls Store.check
        rw [available]
        rfl
      have unswept (answer : DispatchError) :
          m.sweep (u.watchedJob futures) (.error answer) = .error answer := rfl
      rw [Wait.watchUnits, fails, unswept]
      refine ⟨⟨fun watched => absurd watched (Option.some_ne_none _), fun each => ?_⟩, ?_⟩
      · rw [each u List.mem_cons_self] at available
        cases available
      · intro e failed
        cases failed
        exact ⟨_, rfl⟩

theorem Faults.openBackend_error {faults : Faults} {backend : String} {e : DispatchError}
    (closed : faults.openBackend backend = .error e) : ∃ detail, e = .storage detail := by
  unfold openBackend at closed
  split at closed
  · cases closed
    exact ⟨_, rfl⟩
  · cases closed

/-- An opening fails as stores do, or time runs out in it. -/
theorem Faults.opens_error {faults : Faults} {cut : Option Cut} {before : Nat} {backend : String}
    {e : DispatchError} (closed : faults.opens cut before backend = .error e) :
    (∃ detail, e = .storage detail) ∨ ∃ c, cut = some c ∧ e = .timeout c.limit := by
  unfold opens at closed
  split at closed
  · next c =>
    split at closed
    · cases closed
      exact Or.inr ⟨c, rfl, rfl⟩
    · exact Or.inl (openBackend_error closed)
  · exact Or.inl (openBackend_error closed)

namespace Session

variable {s : Session} {terms : WaitTerms}

/-- The monitor a wait enters with, once its units are made. -/
def Enters (s : Session) (units : List WaitUnit) (m : SessionMonitor) : Prop :=
  match s.choice with
  | .storage => m = .storage s.storage
  | .manual => m = .manual { s.manual with starts := [] }
  | .own => ∃ watching, m = .storage watching ∧
      Wait.watchUnits s.sur.stores.finishedCalls s.futures units
        { interval := s.monitorInterval } = (watching, none)

/-- The wait of a session before it is entered. -/
def readied (s : Session) (terms : WaitTerms) (progress : Progress) (cut : Option Cut := none) :
    Wait SessionMonitor :=
  match s.choice with
  | .storage => s.prepared terms progress (.storage s.storage) cut
  | .manual => s.prepared terms progress (.manual { s.manual with starts := [] }) cut
  | .own =>
    let w := s.prepared terms progress (.storage { interval := s.monitorInterval }) cut
    match w.phase with
    | .finished _ => w
    | _ =>
      let (m, e) := s.watchAll w.state.units cut
      let w := { w with state := { w.state with monitor := .storage m } }
      match e with
      | some e => w.finish (.error e)
      | none => w

theorem beginWait_eq (s : Session) (terms : WaitTerms) (progress : Progress)
    (cut : Option Cut := none) :
    s.beginWait terms progress cut = (s.readied terms progress cut).enter s.sur.cancelled := by
  unfold beginWait readied
  cases s.choice <;> rfl

/-- A sweep fails as stores do, or time runs out in it. -/
theorem watchAll_error (s : Session) {units : List WaitUnit} {cut : Option Cut} {e : DispatchError}
    (failed : (s.watchAll units cut).2 = some e) :
    (∃ detail, e = .storage detail) ∨ ∃ c, cut = some c ∧ e = .timeout c.limit := by
  have fails (units : List WaitUnit) :=
    (Wait.watchUnits_ok_iff s.sur.stores s.futures units { interval := s.monitorInterval }).2
  unfold watchAll at failed
  dsimp only at failed
  split at failed
  · next before limit =>
    split at failed
    · dsimp only at failed
      cases swept : (Wait.watchUnits s.sur.stores.finishedCalls s.futures (units.take before)
        { interval := s.monitorInterval }).2 with
      | none =>
        rw [swept] at failed
        cases failed
        exact Or.inr ⟨_, rfl, rfl⟩
      | some e' =>
        rw [swept] at failed
        cases failed
        exact Or.inl (fails _ e' swept)
    · exact Or.inl (fails units e failed)
  · exact Or.inl (fails units e failed)

/-- A wait before it is entered: it is about to be, or has failed, since a store could not be had or
time ran out as one was opened or swept. -/
structure Begins (s : Session) (terms : WaitTerms) (progress : Progress) (cut : Option Cut)
    (w : Wait SessionMonitor) : Prop where
  terms_eq : w.terms = terms
  passes : w.passes = 0
  futures : w.state.futures = s.futures
  told : w.state.progress = progress
  phase : w.phase = .sleeping ∨ ∃ e, w.phase = .finished (.error e) ∧
    ((∃ detail, e = .storage detail) ∨ ∃ c, cut = some c ∧ e = .timeout c.limit)

theorem prepared_begins (s : Session) (terms : WaitTerms) (progress : Progress)
    (m : SessionMonitor) (cut : Option Cut) :
    s.Begins terms progress cut (s.prepared terms progress m cut) := by
  unfold prepared Wait.prepare
  rcases WaitState.placeAll_cases (s := { futures := s.futures, monitor := m, progress })
    (s.provider cut) Grouped.empty s.futures with
    ⟨units, opened, placed, -⟩ | ⟨units, opened, backend, e, failed, before, closed⟩
  · rw [List.length_nil] at placed
    rw [placed]
    exact ⟨rfl, rfl, rfl, rfl, Or.inl rfl⟩
  · rw [List.length_nil] at failed
    rw [failed]
    exact ⟨rfl, rfl, rfl, rfl, Or.inr ⟨e, rfl, Faults.opens_error closed⟩⟩

theorem readied_begins (s : Session) (terms : WaitTerms) (progress : Progress)
    (cut : Option Cut) : s.Begins terms progress cut (s.readied terms progress cut) := by
  unfold readied
  cases s.choice with
  | storage => exact s.prepared_begins terms progress _ cut
  | manual => exact s.prepared_begins terms progress _ cut
  | own =>
    have begins := s.prepared_begins terms progress (.storage { interval := s.monitorInterval }) cut
    revert begins
    generalize s.prepared terms progress (.storage { interval := s.monitorInterval }) cut = w
    intro begins
    dsimp only
    split
    · exact begins
    · next goesOn =>
      have sleeping : w.phase = .sleeping :=
        begins.phase.resolve_right fun ⟨e, finished, _⟩ => goesOn _ finished
      rcases watched : s.watchAll w.state.units cut with ⟨m, none | e⟩
      · exact ⟨begins.terms_eq, begins.passes, begins.futures, begins.told, Or.inl sleeping⟩
      · exact ⟨begins.terms_eq, begins.passes, begins.futures, begins.told,
          Or.inr ⟨e, rfl, s.watchAll_error (congrArg Prod.snd watched)⟩⟩

/-- What a sink has been told of a wait that polls when it begins. -/
def sinkOf (s : Session) (terms : WaitTerms) (sink : Progress) : Progress :=
  (sink.tell (.total s.futures.length)).tell
    (.inc (s.futures.filter (·.isComplete terms.download)).length)

theorem startRun_wait (s : Session) (terms : WaitTerms) (timeline : List (Nat × Change))
    (sink : Progress) (cutIn : Option CutPoint) :
    (s.startRun terms timeline sink cutIn).wait =
      (s.readied terms (s.sinkOf terms sink) (cutBy terms cutIn)).enter s.sur.cancelled :=
  s.beginWait_eq terms (s.sinkOf terms sink) (cutBy terms cutIn)

theorem startRun_turns (s : Session) (terms : WaitTerms) (timeline : List (Nat × Change))
    (sink : Progress) (cutIn : Option CutPoint) :
    (s.readied terms (s.sinkOf terms sink) (cutBy terms cutIn)).Turns
      (s.startRun terms timeline sink cutIn).wait := by
  rw [startRun_wait]
  exact Wait.enter_turns _ _

/-- A wait begins with a look at its condition, or with a pass if it always makes one; or it has
failed before. -/
theorem startRun_cases (s : Session) (terms : WaitTerms) (timeline : List (Nat × Change))
    (sink : Progress) (cutIn : Option CutPoint) :
    ∃ w, s.Begins terms (s.sinkOf terms sink) (cutBy terms cutIn) w ∧
      ((s.startRun terms timeline sink cutIn).wait =
          (if terms.goal = .always then w.beginPass else w.decide s.sur.cancelled) ∨
        (s.startRun terms timeline sink cutIn).wait = w ∧
          ∃ e, w.phase = .finished (.error e) ∧ ((∃ detail, e = .storage detail) ∨
            ∃ c, cutBy terms cutIn = some c ∧ e = .timeout c.limit)) := by
  have begins := s.readied_begins terms (s.sinkOf terms sink) (cutBy terms cutIn)
  refine ⟨_, begins, ?_⟩
  rw [startRun_wait, Wait.enter]
  rcases begins.phase with sleeping | ⟨e, failed, why⟩
  · rw [sleeping, begins.terms_eq]
    exact Or.inl rfl
  · rw [failed]
    exact Or.inr ⟨rfl, e, rfl, why⟩

/-- Whether the backend of each call that comes first with its joined key can be had. -/
def CanPlace (s : Session) : Prop :=
  ∀ f ∈ s.futures, firstOf f.jobKey (s.futures.map Future.name) = some f.name →
    s.provider.Gives f.backend

/-- A wait that has made its units, and is given a monitor. -/
structure Placed (s : Session) (terms : WaitTerms) (m : SessionMonitor)
    (w : Wait SessionMonitor) : Prop where
  terms_eq : w.terms = terms
  phase : w.phase = .sleeping
  passes : w.passes = 0
  futures : w.state.futures = s.futures
  monitor : w.state.monitor = m
  grouped : Grouped (s.futures.map Future.name) w.state.units

/-- A wait that has failed before it could be entered. -/
structure Foiled (s : Session) (terms : WaitTerms) (w : Wait SessionMonitor) : Prop where
  terms_eq : w.terms = terms
  phase : ∃ detail, w.phase = .finished (.error (.storage detail))
  passes : w.passes = 0
  futures : w.state.futures = s.futures

/-- A wait that can be entered: its units are made, and watched if the monitor is its own. -/
def Ready (s : Session) (terms : WaitTerms) (w : Wait SessionMonitor) : Prop :=
  ∃ m, s.Placed terms m w ∧ s.Enters w.state.units m

theorem prepared_cases (s : Session) (terms : WaitTerms) (progress : Progress)
    (m : SessionMonitor) :
    (s.CanPlace ∧ s.Placed terms m (s.prepared terms progress m)) ∨
      ¬ s.CanPlace ∧ s.Foiled terms (s.prepared terms progress m) := by
  let start : WaitState SessionMonitor := { futures := s.futures, monitor := m, progress }
  have placing : (WaitState.placeAll s.provider 0 s.futures start).2 = none ↔ s.CanPlace := by
    have steady : s.provider.IsSteady := fun _ _ => rfl
    refine (WaitState.placeAll_ok_iff (s := start) steady Grouped.empty s.futures).trans ?_
    simp [CanPlace]
  have prepares : s.prepared terms progress m = .prepare terms s.provider m progress s.futures :=
    rfl
  rw [prepares]
  unfold Wait.prepare
  rcases WaitState.placeAll_cases (s := start) s.provider Grouped.empty s.futures with
    ⟨units, opened, placed, grouped⟩ | ⟨units, opened, backend, e, failed, before, closed⟩
  · rw [List.length_nil] at placed
    rw [placed] at placing ⊢
    exact Or.inl ⟨placing.mp rfl, rfl, rfl, rfl, rfl, rfl, by simpa using grouped⟩
  · obtain ⟨detail, rfl⟩ := Faults.openBackend_error closed
    rw [List.length_nil] at failed
    rw [failed] at placing ⊢
    exact Or.inr ⟨fun can => absurd (placing.mpr can) nofun, rfl, ⟨detail, rfl⟩, rfl, rfl⟩

/-- A wait that has made its units and not failed has one for each joined key. -/
theorem placed_of_sleeping {progress : Progress} {m : SessionMonitor} {cut : Option Cut}
    (sleeping : (s.prepared terms progress m cut).phase = .sleeping) :
    s.Placed terms m (s.prepared terms progress m cut) := by
  unfold prepared Wait.prepare at sleeping ⊢
  rcases WaitState.placeAll_cases (s := { futures := s.futures, monitor := m, progress })
    (s.provider cut) Grouped.empty s.futures with
    ⟨units, opened, placed, grouped⟩ | ⟨units, opened, backend, e, failed, -, -⟩
  · rw [List.length_nil] at placed
    rw [placed]
    exact ⟨rfl, rfl, rfl, rfl, rfl, by simpa using grouped⟩
  · rw [List.length_nil] at failed
    rw [failed] at sleeping
    cases sleeping

/-- Sweeps of which none fails or is cut short are all there are. -/
theorem watchUnits_of_watchAll {units : List WaitUnit} {cut : Option Cut} {m : ListingMonitor}
    (watched : s.watchAll units cut = (m, none)) :
    Wait.watchUnits s.sur.stores.finishedCalls s.futures units { interval := s.monitorInterval } =
      (m, none) := by
  unfold watchAll at watched
  dsimp only at watched
  split at watched
  · split at watched
    · cases watched
    · exact watched
  · exact watched

/-- A wait that is about to be entered is ready for it, wherever time may run out later. -/
theorem ready_of_sleeping {progress : Progress} {cut : Option Cut}
    (sleeping : (s.readied terms progress cut).phase = .sleeping) :
    s.Ready terms (s.readied terms progress cut) := by
  unfold readied at sleeping ⊢
  unfold Ready Enters
  cases own : s.choice with
  | storage =>
    rw [own] at sleeping
    exact ⟨_, placed_of_sleeping sleeping, rfl⟩
  | manual =>
    rw [own] at sleeping
    exact ⟨_, placed_of_sleeping sleeping, rfl⟩
  | own =>
    rw [own] at sleeping
    have placed := @placed_of_sleeping s terms progress
      (.storage { interval := s.monitorInterval }) cut
    revert placed sleeping
    generalize s.prepared terms progress (.storage { interval := s.monitorInterval }) cut = w
    intro sleeping placed
    dsimp only at sleeping ⊢
    rcases watched : s.watchAll w.state.units cut with ⟨m, none | e⟩
    · rw [watched] at sleeping
      have made := placed (by split at sleeping <;> exact sleeping)
      rw [made.phase]
      exact ⟨.storage m, ⟨made.terms_eq, rfl, made.passes, made.futures, rfl, made.grouped⟩,
        m, rfl, watchUnits_of_watchAll watched⟩
    · rw [watched] at sleeping
      split at sleeping
      · next ended => cases ended.symm.trans sleeping
      · cases sleeping

/-- The stores of the units are those of the calls that come first with their joined keys. -/
theorem available_units_iff {names : List (CallName × String)} {units : List WaitUnit}
    (grouped : Grouped names units) (stores : Stores) :
    (∀ u ∈ units, (stores.store u.backend).unavailable = false) ↔
      ∀ n ∈ names, firstOf n.1.jobKey names = some n →
        (stores.store n.2).unavailable = false := by
  constructor
  · intro each n listed atHead
    obtain ⟨u, member, same⟩ := grouped.every n listed
    obtain ⟨n', atHead', heading⟩ := grouped.first u member
    rw [same, atHead] at atHead'
    cases atHead'
    have backend : u.backend = n.2 := congrArg (·.2.2) heading
    exact backend ▸ each u member
  · intro each u member
    obtain ⟨n, atHead, heading⟩ := grouped.first u member
    obtain ⟨listed, same⟩ := jobKey_of_firstOf atHead
    have backend : u.backend = n.2 := congrArg (·.2.2) heading
    rw [backend]
    exact each n listed (same ▸ atHead)

/-- Whether the units of a wait can be made and, with a monitor of the wait's own, be swept: for
each call that comes first with its joined key, the backend can be had and its store is available.
-/
def CanBegin (s : Session) : Prop :=
  ∀ f ∈ s.futures, firstOf f.jobKey (s.futures.map Future.name) = some f.name →
    s.provider.Gives f.backend ∧
    (s.choice = .own → (s.sur.stores.store f.backend).unavailable = false)

theorem canBegin_of_not_own (given : s.choice ≠ .own) : s.CanBegin ↔ s.CanPlace :=
  ⟨fun can f member atHead => (can f member atHead).1,
    fun can f member atHead => ⟨can f member atHead, fun own => absurd own given⟩⟩

theorem canBegin_of_own (own : s.choice = .own) {units : List WaitUnit}
    (grouped : Grouped (s.futures.map Future.name) units) :
    s.CanBegin ↔ s.CanPlace ∧
      ∀ u ∈ units, (s.sur.stores.store u.backend).unavailable = false := by
  rw [available_units_iff grouped]
  constructor
  · intro can
    refine ⟨fun f member atHead => (can f member atHead).1, ?_⟩
    intro n listed atHead
    obtain ⟨f, member, rfl⟩ := List.mem_map.mp listed
    exact (can f member atHead).2 own
  · intro can f member atHead
    exact ⟨can.1 f member atHead, fun _ => can.2 f.name (List.mem_map_of_mem member) atHead⟩

/-- A wait is ready to be entered if its units can be made and swept, and has failed if not. -/
theorem readied_cases (s : Session) (terms : WaitTerms) (progress : Progress) :
    (s.CanBegin ∧ s.Ready terms (s.readied terms progress)) ∨
      ¬ s.CanBegin ∧ s.Foiled terms (s.readied terms progress) := by
  have given (m : SessionMonitor) (notOwn : s.choice ≠ .own)
      (enters : ∀ units, s.Enters units m) :
      (s.CanBegin ∧ s.Ready terms (s.prepared terms progress m)) ∨
        ¬ s.CanBegin ∧ s.Foiled terms (s.prepared terms progress m) := by
    rw [canBegin_of_not_own notOwn]
    rcases s.prepared_cases terms progress m with ⟨can, placed⟩ | ⟨cannot, foiled⟩
    · exact Or.inl ⟨can, m, placed, enters _⟩
    · exact Or.inr ⟨cannot, foiled⟩
  cases own : s.choice with
  | storage =>
    simp only [readied, own]
    exact given (.storage s.storage) (by rw [own]; nofun) (fun units => by rw [Enters, own])
  | manual =>
    simp only [readied, own]
    exact given (.manual { s.manual with starts := [] }) (by rw [own]; nofun)
      (fun units => by rw [Enters, own])
  | own =>
    simp only [readied, own]
    rcases s.prepared_cases terms progress (.storage { interval := s.monitorInterval }) with
      ⟨can, placed⟩ | ⟨cannot, foiled⟩
    · revert placed
      generalize s.prepared terms progress (.storage { interval := s.monitorInterval }) = w
      intro placed
      have watching := Wait.watchUnits_ok_iff s.sur.stores s.futures w.state.units
        { interval := s.monitorInterval }
      rw [canBegin_of_own own placed.grouped, placed.phase, watchAll_none]
      rcases watched : Wait.watchUnits s.sur.stores.finishedCalls s.futures w.state.units
        { interval := s.monitorInterval } with ⟨m, none | e⟩
      · rw [watched] at watching
        refine Or.inl ⟨⟨can, watching.1.mp rfl⟩, .storage m,
          ⟨placed.terms_eq, rfl, placed.passes, placed.futures, rfl, placed.grouped⟩, ?_⟩
        rw [Enters, own]
        exact ⟨m, rfl, watched⟩
      · rw [watched] at watching
        obtain ⟨detail, rfl⟩ := watching.2 e rfl
        exact Or.inr ⟨fun can => absurd (watching.1.mpr can.2) nofun, placed.terms_eq,
          ⟨detail, rfl⟩, placed.passes, placed.futures⟩
    · obtain ⟨detail, phase⟩ := foiled.phase
      rw [phase]
      exact Or.inr ⟨fun can => cannot fun f member atHead => (can f member atHead).1, foiled⟩

theorem Placed.enter {m : SessionMonitor} {w : Wait SessionMonitor} (placed : s.Placed terms m w)
    (cancelled : Bool) :
    w.enter cancelled = if terms.goal = .always then w.beginPass else w.decide cancelled := by
  unfold Wait.enter
  rw [placed.phase, placed.terms_eq]

theorem Foiled.enter {w : Wait SessionMonitor} (foiled : s.Foiled terms w) (cancelled : Bool) :
    w.enter cancelled = w := by
  obtain ⟨detail, phase⟩ := foiled.phase
  unfold Wait.enter
  rw [phase]

/-! ## Conditions that hold at the beginning -/

/-- A wait whose condition holds when it is entered ends at once. -/
theorem beginWait_of_met (goal : terms.goal ≠ .always)
    (met : Wait.isMet terms s.futures = true) (progress : Progress) :
    (s.beginWait terms progress).passes = 0 ∧
      (s.beginWait terms progress).state.futures = s.futures ∧
      ((s.CanBegin ∧ (s.beginWait terms progress).phase = .finished (.ok ())) ∨
        ¬ s.CanBegin ∧
          ∃ detail, (s.beginWait terms progress).phase = .finished (.error (.storage detail))) := by
  rw [beginWait_eq]
  rcases s.readied_cases terms progress with ⟨can, m, placed, -⟩ | ⟨cannot, foiled⟩
  · have ends : (s.readied terms progress).enter s.sur.cancelled =
        (s.readied terms progress).finish (.ok ()) := by
      rw [placed.enter, if_neg goal]
      unfold Wait.decide
      rw [placed.terms_eq, placed.futures]
      exact if_pos met
    rw [ends]
    exact ⟨placed.passes, placed.futures, Or.inl ⟨can, rfl⟩⟩
  · rw [foiled.enter]
    exact ⟨foiled.passes, foiled.futures, Or.inr ⟨cannot, foiled.phase⟩⟩

end Session

/-- A wait that is finished is at the end of its run. -/
theorem WaitRun.run_of_finished {r : WaitRun} {result : Outcome Unit}
    (finished : r.wait.phase = .finished result) (turns events : Nat) :
    r.run turns events = r := by
  cases events with
  | zero => rfl
  | succ events =>
    rw [run_succ, untilBlocked_of_blocked (turn_of_finished finished),
      fromBlocked_of_finished finished]

/-- A wait whose condition holds at entry makes no pass, asks for nothing, takes no time and leaves
the wait set as it was, and it gives that set split in two if all of it is complete or the units can
be made and, by a monitor of the wait's own, swept. If not, it fails. -/
theorem met_at_entry {s : Session} {terms : WaitTerms} (goal : terms.goal ≠ .always)
    (met : Wait.isMet terms s.futures = true) (timeline : List (Nat × Change)) :
    (s.waitSplit terms timeline).1.futures = s.futures ∧
      (s.waitSplit terms timeline).2.passes = 0 ∧
      (s.waitSplit terms timeline).2.log = {} ∧
      (s.waitSplit terms timeline).2.elapsed = 0 ∧
      (s.futures.all (·.isComplete terms.download) = true ∨ s.CanBegin →
        (s.waitSplit terms timeline).2.result = .ok (Session.split terms.download s.futures)) ∧
      (¬ (s.futures.all (·.isComplete terms.download) = true ∨ s.CanBegin) →
        ∃ detail, (s.waitSplit terms timeline).2.result = .error (.storage detail)) := by
  have splits : (s.waitSplit terms timeline).2.result = (s.wait terms timeline).2.1.map fun () =>
      Session.split terms.download (s.wait terms timeline).1.futures := rfl
  rw [splits]
  show (s.wait terms timeline).1.futures = _ ∧ (s.wait terms timeline).2.2.passes = _ ∧
    (s.wait terms timeline).2.2.log = _ ∧ (s.wait terms timeline).2.2.elapsed = _ ∧ _
  cases complete : s.futures.all (·.isComplete terms.download) with
  | true =>
    unfold Session.wait
    rw [if_pos complete]
    exact ⟨rfl, rfl, rfl, rfl, fun _ => rfl, fun open_ => absurd (Or.inl rfl) open_⟩
  | false =>
    obtain ⟨passes, futures, ends⟩ := Session.beginWait_of_met goal met
      ((({} : Progress).tell (.total s.futures.length)).tell
        (.inc (s.futures.filter (·.isComplete terms.download)).length))
    obtain ⟨result, phase⟩ : ∃ result, (s.startRun terms timeline).wait.phase =
        .finished result := by
      rcases ends with ⟨-, phase⟩ | ⟨-, detail, phase⟩
      · exact ⟨_, phase⟩
      · exact ⟨_, phase⟩
    have ran := WaitRun.run_of_finished phase s.limit s.limit
    obtain ⟨same, outcome, noPass⟩ := Session.wait_of_incomplete timeline complete ran
    obtain ⟨-, log, elapsed⟩ := Session.report_of_incomplete timeline complete ran
    rw [same, outcome, noPass, log, elapsed]
    refine ⟨futures, passes, rfl, Nat.sub_self s.now, ?_, ?_⟩
    · rintro (⟨⟨⟩⟩ | can)
      rcases ends with ⟨-, ok⟩ | ⟨cannot, -⟩
      · rw [show (s.startRun terms timeline).wait.phase = .finished (.ok ()) from ok,
          show (s.startRun terms timeline).wait.state.futures = s.futures from futures]
        rfl
      · exact absurd can cannot
    · intro fails
      rcases ends with ⟨can, -⟩ | ⟨-, detail, failed⟩
      · exact absurd (Or.inr can) fails
      · rw [show (s.startRun terms timeline).wait.phase = .finished (.error (.storage detail))
          from failed]
        exact ⟨detail, rfl⟩

/-! ### A store that is not needed -/

namespace Outage

/-- Two calls, of the first of which a status is known, and a store that is unavailable. -/
def session : Session where
  futures := [({ key := ⟨"e", "j", "0"⟩, backend := "memory" } : Future).withStatus .ok,
    { key := ⟨"e", "j", "1"⟩, backend := "memory" }]
  sur := { stores := ({} : Stores).update "memory" ({ · with unavailable := true }) }
  monitorInterval := 10
  storage := { interval := 10 }

def forAny : WaitTerms := { goal := .any }

theorem not_canBegin : ¬ session.CanBegin := by
  intro can
  have available := (can _ List.mem_cons_self rfl).2 rfl
  cases available

/-- The wait fails, though its condition holds when it begins. -/
theorem wait_fails_when_met :
    Wait.isMet forAny session.futures = true ∧
    (session.waitSplit forAny []).2.result =
      .error (.storage "memory backend unavailable") := by
  exact ⟨rfl, rfl⟩

/-- With a monitor that is not the wait's own it ends at once, though the store is unavailable, and
with its own it fails. -/
theorem met_at_entry_unavailable :
    ({ session with choice := .storage }.waitSplit forAny []).2.result =
      .ok (Session.split false session.futures) ∧
    ∃ detail, (session.waitSplit forAny []).2.result = .error (.storage detail) := by
  constructor
  · have ends := @met_at_entry { session with choice := .storage } forAny nofun rfl []
    refine ends.2.2.2.2.1 (Or.inr ?_)
    intro f member _
    refine ⟨Or.inr ?_, nofun⟩
    rfl
  · have ends := @met_at_entry session forAny nofun rfl []
    refine ends.2.2.2.2.2 ?_
    rintro (⟨⟨⟩⟩ | can)
    exact not_canBegin can

end Outage

end CallDispatch
