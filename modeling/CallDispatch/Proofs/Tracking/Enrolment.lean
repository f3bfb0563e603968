import CallDispatch.Proofs.Tracking.Stretches

/-!
# Every call in one unit

The members of units are positions in a wait set that grows while its units are polled. A call is
entered under its position as it is appended, in the unit of its joined key or in a new one, so
positions are entered in ascending order and each of them once. It follows that the units of a wait
divide its positions among them at every point, and that a pass that polls each of them once fetches
no call twice and leaves none out.
-/

namespace CallDispatch

/-- Calls grouped into units whose members stand in ascending order. -/
structure Filed (names : List (CallName × String)) (units : List WaitUnit) : Prop extends
    Grouped names units where
  ascending : ∀ u ∈ units, u.members.Pairwise (· < ·)

namespace Filed

variable {names : List (CallName × String)} {units : List WaitUnit}

theorem empty : Filed [] [] where
  toGrouped := .empty
  ascending := by simp

/-- A position that is entered last stands above all members there are. -/
theorem below (filed : Filed names units) {u : WaitUnit} (unit : u ∈ units) :
    ∀ i ∈ u.members, i < names.length := by
  intro i member
  obtain ⟨name, found, -⟩ := (filed.member u unit i).mp member
  exact (List.getElem?_eq_some_iff.mp found).1

theorem enrolled (filed : Filed names units) (name : CallName × String)
    (known : ∃ u ∈ units, u.jobKey = name.1.jobKey) :
    Filed (names ++ [name]) (units.map (WaitUnit.enroll name.1.jobKey names.length)) where
  toGrouped := filed.toGrouped.enrolled name known
  ascending := by
    intro v listed
    obtain ⟨u, unit, rfl⟩ := List.mem_map.mp listed
    by_cases same : u.jobKey = name.1.jobKey
    · rw [← same, WaitUnit.enroll_self]
      refine List.pairwise_append.mpr ⟨filed.ascending u unit, List.pairwise_singleton _ _, ?_⟩
      intro i member last isLast
      rw [List.mem_singleton.mp isLast]
      exact filed.below unit i member
    · rw [WaitUnit.enroll_of_ne same]
      exact filed.ascending u unit

theorem founded (filed : Filed names units) (name : CallName × String)
    (unknown : ∀ u ∈ units, u.jobKey ≠ name.1.jobKey) :
    Filed (names ++ [name]) (units ++ [Grouped.unitOf name names.length]) where
  toGrouped := filed.toGrouped.founded name unknown
  ascending := by
    intro u listed
    rcases List.mem_append.mp listed with old | last
    · exact filed.ascending u old
    · rw [List.mem_singleton.mp last]
      exact List.pairwise_singleton _ _

end Filed

/-! ## Units of a wait -/

namespace WaitState

variable {μ : Type} {provider : Provider} {names : List (CallName × String)} {s : WaitState μ}

/-- A call that is placed is filed with the others. -/
theorem place_filed (filed : Filed names s.units) (name : CallName × String) {after : WaitState μ}
    (placed : s.place provider name.1 name.2 names.length = (after, none)) :
    Filed (names ++ [name]) after.units := by
  unfold place at placed
  cases added : addMember name.1.jobKey names.length s.units with
  | some units =>
    obtain ⟨rfl, known⟩ := addMember_eq_some filed.distinct added
    rw [added] at placed
    cases placed
    exact filed.enrolled name known
  | none =>
    have founded := filed.founded name (addMember_eq_none added)
    rw [added] at placed
    dsimp only at placed
    split at placed
    · cases placed
      exact founded
    · split at placed
      · cases placed
        exact founded
      · cases placed

theorem placeAll_filed (filed : Filed names s.units) {futures : List Future} {after : WaitState μ}
    (placed : placeAll provider names.length futures s = (after, none)) :
    Filed (names ++ futures.map Future.name) after.units := by
  induction futures generalizing names s with
  | nil =>
    cases placed
    simpa using filed
  | cons f rest ih =>
    rw [placeAll] at placed
    split at placed
    · cases placed
    · next state first =>
      have filed' := place_filed filed f.name first
      have longer := ih filed' (by rwa [List.length_append])
      simpa using longer

/-- Appended calls are filed behind those there are, as far as backends open. -/
theorem append_filed (provider : Provider) (children : List (CallName × String))
    (grown : List String) (filed : Filed (s.futures.map Future.name) s.units) :
    Filed ((append provider children grown s).1.futures.map Future.name)
        (append provider children grown s).1.units ∧
      s.units.map WaitUnit.heading <+:
        (append provider children grown s).1.units.map WaitUnit.heading := by
  induction children generalizing s grown with
  | nil => exact ⟨filed, List.prefix_refl _⟩
  | cons c rest ih =>
    have placing := place_cases provider filed.toGrouped c
    have files {units : List WaitUnit} {opened : List String} (placed : s.place provider c.1 c.2
        (s.futures.map Future.name).length = ({ s with units, opened }, none)) :=
      place_filed filed c placed
    rw [List.length_map] at placing files
    rw [append]
    rcases placing with ⟨units, opened, placed, -, longer⟩ | ⟨opened, e, failed, -⟩
    · have names : (s.futures ++ [Future.ofName c]).map Future.name =
          s.futures.map Future.name ++ [c] := by
        rw [List.map_append]
        rfl
      rw [placed]
      obtain ⟨after, longer'⟩ := ih (extend grown [c.1.jobKey])
        (s := { s with futures := s.futures ++ [Future.ofName c], units, opened })
        (by simpa only [names] using files placed)
      exact ⟨after, longer.trans longer'⟩
    · rw [failed]
      exact ⟨filed, List.prefix_refl _⟩

variable [Watcher μ]

theorem grow_filed (provider : Provider) (children : List (CallName × String))
    (filed : Filed (s.futures.map Future.name) s.units) :
    Filed ((s.grow provider children).1.futures.map Future.name)
        (s.grow provider children).1.units ∧
      s.units.map WaitUnit.heading <+:
        (s.grow provider children).1.units.map WaitUnit.heading := by
  have appended := append_filed provider children [] filed
  unfold grow
  split
  · next failed =>
    rw [failed] at appended
    exact appended
  · next succeeded =>
    rw [succeeded] at appended
    dsimp only
    rw [foldl_watch]
    exact appended

/-- Taking in answers keeps the wait set filed, with new units at the end, even where it fails. -/
theorem settle_filed (provider : Provider) (terms : WaitTerms)
    {answers : List (Nat × Outcome FetchAnswer)}
    (filed : Filed (s.futures.map Future.name) s.units) (distinct : (answers.map (·.1)).Nodup) :
    Filed ((s.settle provider terms answers).1.futures.map Future.name)
        (s.settle provider terms answers).1.units ∧
      s.units.map WaitUnit.heading <+:
        (s.settle provider terms answers).1.units.map WaitUnit.heading := by
  let recorded : WaitState μ :=
    { s with futures := (recordAll terms answers s.futures).futures }.tell
      (.inc (recordAll terms answers s.futures).newlyComplete)
  have filed' : Filed (recorded.futures.map Future.name) recorded.units := by
    show Filed ((recordAll terms answers s.futures).futures.map Future.name) s.units
    rwa [names_recordAll distinct]
  have grows := grow_filed provider (recordAll terms answers s.futures).children filed'
  unfold settle
  dsimp only
  split
  · exact ⟨filed', List.prefix_refl _⟩
  · split
    · next failed =>
      have failed' : recorded.grow provider (recordAll terms answers s.futures).children = _ :=
        failed
      rw [failed'] at grows
      exact grows
    · next succeeded =>
      have succeeded' : recorded.grow provider (recordAll terms answers s.futures).children = _ :=
        succeeded
      rw [succeeded'] at grows
      exact grows

end WaitState

namespace Wait

variable {μ : Type} {w w' : Wait μ}

/-- A wait that has made its units: it goes on, or has begun a pass. -/
def HasUnits (w : Wait μ) : Prop := w.IsRunning ∨ 0 < w.passes

/-- Operations that take no answers make no units. -/
theorem Turns.hasUnits (turns : w.Turns w') (made : w'.HasUnits) : w.HasUnits := by
  cases turns with
  | same => exact made
  | finished result =>
    rcases made with running | begun
    · exact absurd rfl (running result)
    · exact Or.inr begun
  | began running => exact Or.inl running
  | skipped i running => exact Or.inl running
  | slept running => exact Or.inl running

variable [Watcher μ] {replies : Replies} {terms : WaitTerms} {futures : List Future}

omit [Watcher μ] in
theorem prepare_filed {provider : Provider} (monitor : μ) (progress : Progress)
    (made : (∀ before backend, provider.openBackend before backend = .ok ()) ∨
      (prepare terms provider monitor progress futures).HasUnits) :
    Filed ((prepare terms provider monitor progress futures).state.futures.map Future.name)
      (prepare terms provider monitor progress futures).state.units := by
  let bare : WaitState μ := { futures, monitor, progress }
  rcases WaitState.placeAll_cases (s := bare) provider Grouped.empty futures with
    ⟨units, opened, placed, -⟩ | ⟨units, opened, backend, e, failed, closed⟩
  · have filed := WaitState.placeAll_filed (s := bare) Filed.empty placed
    have placed' : WaitState.placeAll provider 0 futures bare = _ := placed
    unfold prepare
    rw [placed']
    simpa using filed
  · rcases made with opens | made
    · exact absurd closed (Provider.not_denies opens)
    · -- Without units there is no pass.
      have failed' : WaitState.placeAll provider 0 futures bare = _ := failed
      unfold prepare at made
      rw [failed'] at made
      rcases made with running | begun
      · exact absurd rfl (running (.error e))
      · exact absurd begun (Nat.lt_irrefl 0)

/-- At every point that a wait can come to once it has made its units, they are filed. -/
theorem Reached.filed (reached : w.Reached replies terms futures)
    (made : replies.Opens ∨ w.HasUnits) :
    Filed (w.state.futures.map Future.name) w.state.units := by
  have turned {w w' : Wait μ} (turns : w.Turns w')
      (before : replies.Opens ∨ w.HasUnits → Filed (w.state.futures.map Future.name) w.state.units)
      (made : replies.Opens ∨ w'.HasUnits) :
      Filed (w'.state.futures.map Future.name) w'.state.units := by
    rw [turns.state]
    exact before (made.imp_right turns.hasUnits)
  -- Units are made as a wait is prepared and as it takes answers, and in no other way.
  induction reached with
  | prepared monitor progress opening =>
    exact prepare_filed monitor progress
      (made.imp_left fun opens before backend => opens backend _ (opening before backend))
  | watched _ _ ih => exact ih made
  | provided _ _ ih => exact ih made
  | unwatched e _ ih => exact turned (.finished (.error e)) ih made
  | entered cancelled _ ih => exact turned (enter_turns cancelled _) ih made
  | @polled w cancelled _ ih =>
    rcases pollNext_cases cancelled w with turns | ⟨i, u, polling, -, polled⟩
    · exact turned turns ih made
    · rw [polled]
      exact ih (Or.inr (Or.inl (.of_polling polling)))
  | @answered w i targets u answers before phase found fetched ih =>
    have filed := ih (Or.inr (Or.inl (.of_fetching phase)))
    obtain ⟨-, kept, absorbs⟩ := before.sound.1.answer phase found fetched
    have after := (WaitState.settle_filed w.provider w.terms filed absorbs.distinct).1
    rcases settled : w.state.settle w.provider w.terms answers with ⟨state, none | e⟩
    · rw [answer_of_none phase settled]
      rwa [settled] at after
    · rw [answer_of_some phase settled]
      rwa [settled] at after
  | woken cancelled _ ih => exact turned (wake_turns cancelled _) ih made
  | cancelled _ ih => exact turned (cancel_turns _) ih made
  | expired _ ih => exact turned (expire_turns _) ih made

end Wait

/-! ## Positions divided among units -/

/-- The positions of a wait set divided among units by joined key. -/
structure Divides (futures : List Future) (units : List WaitUnit) : Prop where
  /-- Every position is in one unit, and once in it; no unit has other members. -/
  once : (units.flatMap (·.members)).Perm (List.range futures.length)
  ascending : ∀ u ∈ units, u.members.Pairwise (· < ·)
  own : ∀ u ∈ units, ∀ i ∈ u.members, ∃ f, futures[i]? = some f ∧ f.jobKey = u.jobKey
  distinct : (units.map WaitUnit.jobKey).Nodup

namespace Divides

variable {futures : List Future} {units : List WaitUnit}

/-- Units that have a member in common have one key. -/
theorem jobKey_eq {u v : WaitUnit} {i : Nat}
    (own : ∀ u ∈ units, ∀ i ∈ u.members, ∃ f, futures[i]? = some f ∧ f.jobKey = u.jobKey)
    (unit : u ∈ units) (unit' : v ∈ units) (member : i ∈ u.members) (member' : i ∈ v.members) :
    u.jobKey = v.jobKey := by
  obtain ⟨f, at_, same⟩ := own u unit i member
  obtain ⟨g, at_', same'⟩ := own v unit' i member'
  obtain rfl := Option.some.inj (at_.symm.trans at_')
  exact same.symm.trans same'

theorem of_filed (filed : Filed (futures.map Future.name) units) : Divides futures units := by
  have own (u : WaitUnit) (unit : u ∈ units) (i : Nat) (member : i ∈ u.members) :
      ∃ f, futures[i]? = some f ∧ f.jobKey = u.jobKey := by
    obtain ⟨name, found, same⟩ := (filed.member u unit i).mp member
    rw [List.getElem?_map] at found
    obtain ⟨f, at_, rfl⟩ := Option.map_eq_some_iff.mp found
    exact ⟨f, at_, same⟩
  have apart : units.Pairwise (Function.onFun List.Disjoint (·.members)) := by
    refine (List.pairwise_map.mp filed.distinct).imp_of_mem ?_
    intro u v unit unit' differ i member member'
    exact differ (jobKey_eq own unit unit' member member')
  refine ⟨?_, filed.ascending, own, filed.distinct⟩
  apply (List.perm_ext_iff_of_nodup
    (List.nodup_flatMap.mpr ⟨filed.nodup, apart⟩) List.nodup_range).mpr
  intro i
  rw [List.mem_flatMap, List.mem_range]
  constructor
  · rintro ⟨u, unit, member⟩
    simpa using filed.below unit i member
  · intro within
    have named : (futures.map Future.name)[i]? = some futures[i].name := by simp [within]
    obtain ⟨u, unit, same⟩ := filed.every _ (List.mem_of_getElem? named)
    exact ⟨u, unit, (filed.member u unit i).mpr ⟨_, named, same.symm⟩⟩

/-- Every position is in the unit of its call's job and in no other. -/
theorem unit_of (divides : Divides futures units) {i : Nat} (within : i < futures.length) :
    ∃ u ∈ units, i ∈ u.members ∧ ∀ v ∈ units, i ∈ v.members → v = u := by
  have listed := divides.once.mem_iff.mpr (List.mem_range.mpr within)
  obtain ⟨u, unit, member⟩ := List.mem_flatMap.mp listed
  refine ⟨u, unit, member, ?_⟩
  intro v unit' member'
  exact List.inj_on_of_nodup_map divides.distinct unit' unit
    (jobKey_eq divides.own unit' unit member' member)

end Divides

/-! ## What a pass fetches -/

namespace WaitState

variable {μ : Type} [Watcher μ] {s : WaitState μ} {download : Bool}

/-- Whether the call at a position has been seen and is not complete. -/
def isSought (s : WaitState μ) (download : Bool) (i : Nat) : Bool :=
  match s.futures[i]? with
  | some f =>
    !f.isComplete download && (Watcher.observed s.monitor f.jobKey).contains f.key.callId
  | none => false

/-- Of a unit, the members sought are fetched. -/
theorem targets_eq_sought {u : WaitUnit}
    (own : ∀ i ∈ u.members, ∃ f, s.futures[i]? = some f ∧ f.jobKey = u.jobKey) :
    (s.targets download u).map (·.index) = u.members.filter (s.isSought download) := by
  unfold targets
  rw [List.map_filterMap, ← List.filterMap_eq_filter]
  apply List.filterMap_congr
  intro i member
  obtain ⟨f, at_, same⟩ := own i member
  have sought : s.isSought download i = (!f.isComplete download &&
      (Watcher.observed s.monitor u.jobKey).contains f.key.callId) := by
    unfold isSought
    rw [at_, ← same]
  simp only [Option.guard, at_, sought]
  split <;> rfl

/-- Polled as they are, the units would fetch every call that is sought, once, and no other. -/
theorem fetches_sought (divides : Divides s.futures s.units) (download : Bool) :
    ((s.units.flatMap (s.targets download)).map (·.index)).Perm
      ((List.range s.futures.length).filter (s.isSought download)) := by
  have each : (s.units.flatMap (s.targets download)).map (·.index) =
      (s.units.flatMap (·.members)).filter (s.isSought download) := by
    rw [List.map_flatMap, List.filter_flatMap]
    exact List.flatMap_congr fun u unit => targets_eq_sought (divides.own u unit)
  rw [each]
  exact divides.once.filter _

end WaitState

/-! ## Every wait, at every point -/

/-- At every point that a wait can come to, whatever its wait set, its monitor and the replies of
its stores, its units divide the positions of the wait set among them: every position is in one
unit, once, the members of a unit ascend and have its joined key, and no two units share a key. If
backends may fail to open it is so once the wait has made its units. The points of a run that is
given turns enough are such points, wherever time runs out. -/
theorem every_call_in_one_unit :
    (∀ {μ : Type} [Watcher μ] {replies : Replies} {terms : WaitTerms} {futures : List Future}
      {w : Wait μ}, w.Reached replies terms futures → replies.Opens ∨ w.HasUnits →
      Divides w.state.futures w.state.units) ∧
    ∀ (s : Session) (terms : WaitTerms) (timeline : List (Nat × Change))
      (cutIn : Option CutPoint),
      let start := s.startRun terms timeline {} cutIn
      (∃ enough, ∀ turns, enough ≤ turns → ∀ events,
        start.Visits ((start.run turns events).untilBlocked turns)) ∧
      ∀ r, start.Visits r → r.wait.HasUnits → Divides r.wait.state.futures r.wait.state.units := by
  refine ⟨fun reached made => .of_filed (reached.filed made), ?_⟩
  intro s terms timeline cutIn start
  constructor
  · obtain ⟨enough, visits⟩ := s.run_visits terms timeline {} cutIn
    refine ⟨enough, ?_⟩
    intro turns fits events
    exact (visits turns fits events).trans (WaitRun.visits_untilBlocked _ turns)
  · intro r visits made
    have contained := (s.startRun_contained terms timeline {} cutIn).visits visits
    exact .of_filed (contained.reached.filed (Or.inr made))

/-! ### Calls that join a unit there is and a new one in turn -/

namespace Scattered

def parent : CallName := ⟨"e", "j", "0"⟩

def sibling : CallName := ⟨"e", "j", "1"⟩

def pending : CallName := ⟨"e", "m", "0"⟩

/-- A call has finished whose output lists a call of another job, one of its own and again one of
the other. -/
def stores : Stores where
  entries := [("memory",
    { statuses := [(parent, .ok)]
      outputs := [(parent, .calls [⟨"e", "k", "0"⟩, sibling, ⟨"e", "k", "1"⟩])] })]

/-- A wait set of that call and one that has not finished. -/
def session : Session where
  futures := [{ key := parent, backend := "memory" }, { key := pending, backend := "memory" }]
  sur := { stores }
  monitorInterval := 10
  storage := { interval := 10 }

def forOutputs : WaitTerms := { download := true }

/-- The wait when the first of its units has been polled. -/
def midway : WaitRun := (session.startRun forOutputs []).untilBlocked 2

/-- Between the polls of the first unit and the second, three calls have been appended. The second
of them has joined the unit just polled, and the others a unit that the pass is still to come to. -/
theorem every_call_in_one_unit_scattered :
    midway.wait.phase = .polling 1 ∧
    midway.wait.state.units.map (fun u => (u.jobKey, u.members)) =
      [("e-j", [0, 3]), ("e-m", [1]), ("e-k", [2, 4])] ∧
    Divides midway.wait.state.futures midway.wait.state.units := by
  have phase : midway.wait.phase = .polling 1 := by cbv
  refine ⟨phase, by decide +kernel, ?_⟩
  exact (every_call_in_one_unit.2 session forOutputs [] none).2 midway
    (WaitRun.visits_untilBlocked _ 2) (Or.inl (.of_polling phase))

end Scattered

end CallDispatch
