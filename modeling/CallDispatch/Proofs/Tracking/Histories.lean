import CallDispatch.Proofs.Tracking.Absorbing
import Mathlib.Logic.Relation

/-!
# Histories of wait sets

A wait set goes from one wait to the next, and a wait can be left at any point: when it returns or
fails, when time is up, or when it is cancelled. Between two of its steps anything may happen around
it, to the stores, to the monitor and to the token. All that a history does to a wait set is to take
in answers, one unit at a time.
-/

namespace CallDispatch

/-- The answers to the fetches of a unit, one for each, in any order. -/
structure Answers (replies : Replies) (backend : String) (download : Bool)
    (targets : List Target) (answers : List (Nat × Outcome FetchAnswer)) : Prop where
  indexes : (answers.map (·.1)).Perm (targets.map (·.index))
  each : ∀ x ∈ answers, ∃ t ∈ targets, x.1 = t.index ∧
    t.Comes replies backend download (.finished x.2)

/-- A wait set takes in the answers to fetches of open futures, each of which was asked of the store
of the first call with its joined job key. The calls they dispatched are appended, all of them
unless a backend fails to open. -/
structure Absorbs (replies : Replies) (terms : WaitTerms)
    (answers : List (Nat × Outcome FetchAnswer)) (kept : List (CallName × String))
    (earlier later : List Future) : Prop where
  distinct : (answers.map (·.1)).Nodup
  asked : ∀ x ∈ answers, ∃ f first, earlier[x.1]? = some f ∧
    f.isComplete terms.download = false ∧
    firstOf f.jobKey (earlier.map Future.name) = some first ∧
    (f.target x.1).Comes replies first.2 terms.download (.finished x.2)
  appended : kept <+: (recordAll terms answers earlier).children
  all : replies.Opens → kept = (recordAll terms answers earlier).children
  eq : later = (recordAll terms answers earlier).futures ++ kept.map Future.ofName

/-- The wait sets a history comes to from one. -/
abbrev Absorbed (replies : Replies) : List Future → List Future → Prop :=
  Relation.ReflTransGen fun earlier later =>
    ∃ terms answers kept, Absorbs replies terms answers kept earlier later

/-! ## Targets -/

namespace WaitState

variable {μ : Type} [Watcher μ] {s : WaitState μ} {download : Bool} {u : WaitUnit}

theorem mem_targets {t : Target} : t ∈ s.targets download u ↔
    ∃ i ∈ u.members, ∃ f, s.futures[i]? = some f ∧ f.isComplete download = false ∧
      f.key.callId ∈ Watcher.observed s.monitor u.jobKey ∧ t = f.target i := by
  unfold targets
  rw [List.mem_filterMap]
  constructor
  · rintro ⟨i, member, found⟩
    cases at_ : s.futures[i]? with
    | none => simp [at_] at found
    | some f =>
      simp only [at_] at found
      split at found
      · next wanted =>
        obtain ⟨open_, seen⟩ := Bool.and_eq_true_iff.mp wanted
        cases found
        exact ⟨i, member, f, at_, by simpa using open_, by simpa using seen, rfl⟩
      · cases found
  · rintro ⟨i, member, f, at_, open_, seen, rfl⟩
    have wanted : (!f.isComplete download &&
        (Watcher.observed s.monitor u.jobKey).contains f.key.callId) = true := by
      simp [open_, seen]
    exact ⟨i, member, by simp only [at_]; rw [if_pos wanted]; rfl⟩

/-- No position is fetched twice. -/
theorem nodup_targets (nodup : u.members.Nodup) :
    ((s.targets download u).map (·.index)).Nodup := by
  refine List.Nodup.sublist (map_filterMap_sublist ?_ u.members) nodup
  intro i t found
  split at found
  · split at found
    · cases found
      rfl
    · cases found
  · cases found

end WaitState

/-! ## Waits and histories -/

namespace Wait

variable {μ : Type} [Watcher μ]

/-- The points a wait on a wait set can come to. It is prepared, watched over and entered; it polls,
takes answers, wakes, is cancelled or runs out of time; and around it the monitor goes on and
backends may open in other ways. -/
inductive Reached (replies : Replies) (terms : WaitTerms) (futures : List Future) :
    Wait μ → Prop where
  | prepared {provider : Provider} (monitor : μ) (progress : Progress) :
      (∀ before backend, replies.opening backend (provider.openBackend before backend)) →
      Reached replies terms futures (prepare terms provider monitor progress futures)
  | watched {w : Wait μ} (monitor : μ) : Reached replies terms futures w →
      Reached replies terms futures { w with state := { w.state with monitor } }
  | provided {w : Wait μ} {openBackend : Nat → String → Outcome Unit} :
      Reached replies terms futures w →
      (∀ before backend, replies.opening backend (openBackend before backend)) →
      Reached replies terms futures { w with provider := { w.provider with openBackend } }
  | unwatched {w : Wait μ} (e : DispatchError) : Reached replies terms futures w →
      Reached replies terms futures (w.finish (.error e))
  | entered {w : Wait μ} (cancelled : Bool) : Reached replies terms futures w →
      Reached replies terms futures (w.enter cancelled)
  | polled {w : Wait μ} (cancelled : Bool) : Reached replies terms futures w →
      Reached replies terms futures (w.pollNext cancelled)
  | answered {w : Wait μ} {i : Nat} {targets : List Target} {u : WaitUnit}
      {answers : List (Nat × Outcome FetchAnswer)} : Reached replies terms futures w →
      w.phase = .fetching i targets → w.state.units[i]? = some u →
      Answers replies u.backend terms.download targets answers →
      Reached replies terms futures (w.answer answers)
  | woken {w : Wait μ} (cancelled : Bool) : Reached replies terms futures w →
      Reached replies terms futures (w.wake cancelled)
  | cancelled {w : Wait μ} : Reached replies terms futures w →
      Reached replies terms futures w.cancel
  | expired {w : Wait μ} : Reached replies terms futures w →
      Reached replies terms futures w.expire

/-- A wait that goes on. -/
def IsRunning (w : Wait μ) : Prop := ∀ result, w.phase ≠ .finished result

section
omit [Watcher μ]
variable {w : Wait μ} {i : Nat} {targets : List Target}

theorem IsRunning.of_sleeping (sleeping : w.phase = .sleeping) : w.IsRunning := by
  intro result finished
  cases sleeping.symm.trans finished

theorem IsRunning.of_polling (polling : w.phase = .polling i) : w.IsRunning := by
  intro result finished
  cases polling.symm.trans finished

theorem IsRunning.of_fetching (fetching : w.phase = .fetching i targets) : w.IsRunning := by
  intro result finished
  cases fetching.symm.trans finished

end

/-- What an operation that takes no answers comes to: the wait is as it was, or is finished, or, if
it goes on, begins a pass, turns to another unit, or sleeps. -/
inductive Turns (w : Wait μ) : Wait μ → Prop where
  | same : Turns w w
  | finished (result : Outcome Unit) : Turns w (w.finish result)
  | began : w.IsRunning → Turns w w.beginPass
  | skipped (i : Nat) : w.IsRunning → Turns w { w with phase := .polling i }
  | slept : w.IsRunning → Turns w { w with phase := .sleeping }

omit [Watcher μ] in
/-- None of them starts fetches. -/
theorem Turns.eq_of_fetching {w w' : Wait μ} {i : Nat} {targets : List Target} (turns : w.Turns w')
    (phase : w'.phase = .fetching i targets) : w' = w := by
  cases turns with
  | same => rfl
  | finished result => cases phase
  | began _ => cases phase
  | skipped j _ => cases phase
  | slept _ => cases phase

omit [Watcher μ] in
theorem decide_turns (cancelled : Bool) {w : Wait μ} (running : w.IsRunning) :
    w.Turns (w.decide cancelled) := by
  unfold decide
  split
  · exact .finished _
  · split
    · exact .finished _
    · exact .began running

omit [Watcher μ] in
theorem passed_turns (cancelled : Bool) {w : Wait μ} (running : w.IsRunning) :
    w.Turns (w.passed cancelled) := by
  unfold passed
  split
  · exact .finished _
  · split
    · exact .finished _
    · exact .slept running

omit [Watcher μ] in
theorem enter_turns (cancelled : Bool) (w : Wait μ) : w.Turns (w.enter cancelled) := by
  unfold enter
  split
  · exact .same
  · next running =>
    split
    · exact .began running
    · exact decide_turns cancelled running

omit [Watcher μ] in
theorem wake_turns (cancelled : Bool) (w : Wait μ) : w.Turns (w.wake cancelled) := by
  unfold wake
  split
  · next sleeping =>
    have running : w.IsRunning := .of_sleeping sleeping
    exact decide_turns cancelled running
  · exact .same

omit [Watcher μ] in
theorem cancel_turns (w : Wait μ) : w.Turns w.cancel := by
  unfold cancel
  split
  · split
    · exact .finished _
    · exact .same
  · exact .same

omit [Watcher μ] in
theorem expire_turns (w : Wait μ) : w.Turns w.expire := by
  unfold expire
  split
  · exact .same
  · exact .finished _
  · exact .same

theorem pollNext_of_passed {w : Wait μ} {i : Nat} (phase : w.phase = .polling i)
    (none : w.state.units[i]? = none) (cancelled : Bool) :
    w.pollNext cancelled = w.passed cancelled := by
  unfold pollNext
  simp only [phase, none]

/-- Polling starts the fetches of a unit or is one more turn. -/
theorem pollNext_cases (cancelled : Bool) (w : Wait μ) : w.Turns (w.pollNext cancelled) ∨
    ∃ i u, w.phase = .polling i ∧ w.state.units[i]? = some u ∧
      w.pollNext cancelled =
        { w with phase := .fetching i (w.state.targets w.terms.download u) } := by
  unfold pollNext
  split
  · next i polling =>
    have running : w.IsRunning := .of_polling polling
    cases found : w.state.units[i]? with
    | none => exact Or.inl (passed_turns cancelled running)
    | some u =>
      cases targets : w.state.targets w.terms.download u with
      | nil =>
        simp only [targets]
        exact Or.inl (.skipped (i + 1) running)
      | cons t rest =>
        refine Or.inr ⟨i, u, polling, found, ?_⟩
        simp only [targets]
  · exact Or.inl .same

/-- What holds of a wait at every point. -/
structure Sound (replies : Replies) (terms : WaitTerms) (w : Wait μ) : Prop where
  terms_eq : w.terms = terms
  opening : ∀ before backend, replies.opening backend (w.provider.openBackend before backend)
  grouped : w.IsRunning → Grouped (w.state.futures.map Future.name) w.state.units
  fetching : ∀ i targets, w.phase = .fetching i targets →
    ∃ u, w.state.units[i]? = some u ∧ (targets.map (·.index)).Nodup ∧
      ∀ t ∈ targets, ∃ f, w.state.futures[t.index]? = some f ∧ t = f.target t.index ∧
        f.isComplete terms.download = false ∧ t.index ∈ u.members

variable {replies : Replies} {terms : WaitTerms} {w : Wait μ}

omit [Watcher μ] in
theorem Sound.refused {backend : String} {e : DispatchError} (sound : w.Sound replies terms)
    (closed : w.provider.Denies backend e) : replies.opening backend (.error e) := by
  obtain ⟨before, closed⟩ := closed
  exact closed ▸ sound.opening before backend

omit [Watcher μ] in
theorem Turns.state {w' : Wait μ} (turns : w.Turns w') : w'.state = w.state := by
  cases turns <;> rfl

omit [Watcher μ] in
theorem Turns.futures {w' : Wait μ} (turns : w.Turns w') : w'.state.futures = w.state.futures :=
  congrArg WaitState.futures turns.state

theorem state_pollNext (cancelled : Bool) (w : Wait μ) :
    (w.pollNext cancelled).state = w.state := by
  rcases pollNext_cases cancelled w with turns | ⟨_, _, -, -, polled⟩
  · exact turns.state
  · rw [polled]

omit [Watcher μ] in
theorem Sound.turns {w' : Wait μ} (sound : w.Sound replies terms) (turns : w.Turns w') :
    w'.Sound replies terms := by
  cases turns with
  | same => exact sound
  | finished result =>
    exact ⟨sound.terms_eq, sound.opening, fun running => absurd rfl (running result), nofun⟩
  | began running =>
    exact ⟨sound.terms_eq, sound.opening, fun _ => sound.grouped running, nofun⟩
  | skipped i running =>
    exact ⟨sound.terms_eq, sound.opening, fun _ => sound.grouped running, nofun⟩
  | slept running =>
    exact ⟨sound.terms_eq, sound.opening, fun _ => sound.grouped running, nofun⟩

omit [Watcher μ] in
theorem sound_prepare {provider : Provider} (monitor : μ) (progress : Progress)
    (opening : ∀ before backend, replies.opening backend (provider.openBackend before backend))
    (terms : WaitTerms) (futures : List Future) :
    (prepare terms provider monitor progress futures).Sound replies terms ∧
      (prepare terms provider monitor progress futures).state.futures = futures := by
  unfold prepare
  rcases WaitState.placeAll_cases (s := { futures, monitor, progress : WaitState μ }) provider
    Grouped.empty futures with
    ⟨units, opened, placed, grouped⟩ | ⟨units, opened, backend, e, failed, -⟩
  · rw [List.length_nil] at placed
    rw [placed]
    exact ⟨⟨rfl, opening, fun _ => by simpa using grouped, nofun⟩, rfl⟩
  · rw [List.length_nil] at failed
    rw [failed]
    exact ⟨⟨rfl, opening, fun running => absurd rfl (running (.error e)), nofun⟩, rfl⟩

theorem Sound.pollNext (sound : w.Sound replies terms) (cancelled : Bool) :
    (w.pollNext cancelled).Sound replies terms := by
  rcases pollNext_cases cancelled w with turns | ⟨i, u, polling, found, polled⟩
  · exact sound.turns turns
  · have grouped := sound.grouped (.of_polling polling)
    rw [polled]
    refine ⟨sound.terms_eq, sound.opening, fun _ => grouped, ?_⟩
    intro j targets phase
    cases phase
    have member := List.mem_of_getElem? found
    refine ⟨u, found, WaitState.nodup_targets (grouped.nodup u member), ?_⟩
    intro t listed
    obtain ⟨k, inside, f, at_, open_, -, rfl⟩ := WaitState.mem_targets.mp listed
    exact ⟨f, at_, rfl, sound.terms_eq ▸ open_, inside⟩

theorem answer_of_none {i : Nat} {targets : List Target} {state : WaitState μ}
    {answers : List (Nat × Outcome FetchAnswer)} (phase : w.phase = .fetching i targets)
    (settled : w.state.settle w.provider w.terms answers = (state, none)) :
    w.answer answers = { w with state, phase := .polling (i + 1) } := by
  unfold answer
  rw [phase]
  simp only [settled]

theorem answer_of_some {i : Nat} {targets : List Target} {state : WaitState μ}
    {e : DispatchError} {answers : List (Nat × Outcome FetchAnswer)}
    (phase : w.phase = .fetching i targets)
    (settled : w.state.settle w.provider w.terms answers = (state, some e)) :
    w.answer answers = { w with state, phase := .finished (.error e) } := by
  unfold answer
  rw [phase]
  simp only [settled]

/-- Taking the answers to the fetches of a unit. -/
theorem Sound.answer {i : Nat} {targets : List Target} {u : WaitUnit}
    {answers : List (Nat × Outcome FetchAnswer)} (sound : w.Sound replies terms)
    (phase : w.phase = .fetching i targets) (found : w.state.units[i]? = some u)
    (fetched : Answers replies u.backend terms.download targets answers) :
    (w.answer answers).Sound replies terms ∧ ∃ kept,
      Absorbs replies terms answers kept w.state.futures (w.answer answers).state.futures := by
  obtain ⟨u', found', nodup, each⟩ := sound.fetching i targets phase
  rw [found] at found'
  cases found'
  obtain rfl := sound.terms_eq
  have grouped := sound.grouped (.of_fetching phase)
  have distinct : (answers.map (·.1)).Nodup := fetched.indexes.nodup_iff.mpr nodup
  have asked : ∀ x ∈ answers, ∃ f first, w.state.futures[x.1]? = some f ∧
      f.isComplete w.terms.download = false ∧
      firstOf f.jobKey (w.state.futures.map Future.name) = some first ∧
      (f.target x.1).Comes replies first.2 w.terms.download (.finished x.2) := by
    intro x listed
    obtain ⟨t, member, same, comes⟩ := fetched.each x listed
    obtain ⟨f, at_, target, open_, inside⟩ := each t member
    have unit := List.mem_of_getElem? found
    obtain ⟨first, atHead, heading⟩ := grouped.first u unit
    obtain ⟨name, named, key⟩ := (grouped.member u unit t.index).mp inside
    rw [List.getElem?_map, at_] at named
    cases named
    have backend : u.backend = first.2 := congrArg (·.2.2) heading
    refine ⟨f, first, same ▸ at_, open_, ?_, ?_⟩
    · have own : f.jobKey = u.jobKey := key
      rwa [own]
    · rw [same, ← target, ← backend]
      exact comes
  rcases WaitState.settle_cases w.provider grouped w.terms distinct with
    ⟨units, opened, progress, grown, settled, grouped', -, -⟩ |
    ⟨after, kept, backend, e, settled, futures, listed, closed⟩
  · have absorbs : Absorbs replies w.terms answers
        (recordAll w.terms answers w.state.futures).children
        w.state.futures (absorbed w.terms answers w.state.futures) :=
      ⟨distinct, asked, List.prefix_refl _, fun _ => rfl, rfl⟩
    cases raised : (recordAll w.terms answers w.state.futures).firstError with
    | none =>
      rw [raised] at settled
      rw [answer_of_none phase settled]
      exact ⟨⟨rfl, sound.opening, fun _ => grouped', nofun⟩, _, absorbs⟩
    | some e =>
      rw [raised] at settled
      rw [answer_of_some phase settled]
      exact ⟨⟨rfl, sound.opening, fun _ => grouped', nofun⟩, _, absorbs⟩
  · have vain : ¬ replies.Opens := by
      intro opens
      cases opens backend _ (sound.refused closed)
    rw [answer_of_some phase settled]
    refine ⟨⟨rfl, sound.opening, fun running => absurd rfl (running (.error e)), nofun⟩,
      kept, distinct, asked, listed, fun opens => absurd opens vain, futures⟩

/-- A wait is sound at every point, and what it has done to its wait set is a history. -/
theorem Reached.sound {futures : List Future} (reached : w.Reached replies terms futures) :
    w.Sound replies terms ∧ Absorbed replies futures w.state.futures := by
  induction reached with
  | prepared monitor progress opening =>
    obtain ⟨sound, same⟩ := sound_prepare monitor progress opening terms futures
    refine ⟨sound, ?_⟩
    rw [same]
  | watched monitor _ ih =>
    exact ⟨⟨ih.1.terms_eq, ih.1.opening, ih.1.grouped, ih.1.fetching⟩, ih.2⟩
  | provided _ opening ih =>
    exact ⟨⟨ih.1.terms_eq, opening, ih.1.grouped, ih.1.fetching⟩, ih.2⟩
  | unwatched e _ ih => exact ⟨ih.1.turns (.finished _), ih.2⟩
  | @entered w cancelled _ ih =>
    have turns := enter_turns cancelled w
    exact ⟨ih.1.turns turns, turns.futures ▸ ih.2⟩
  | @polled w cancelled _ ih =>
    refine ⟨ih.1.pollNext cancelled, ?_⟩
    rcases pollNext_cases cancelled w with turns | ⟨_, _, -, -, polled⟩
    · exact turns.futures ▸ ih.2
    · rw [polled]
      exact ih.2
  | answered _ phase found fetched ih =>
    obtain ⟨sound, kept, absorbs⟩ := ih.1.answer phase found fetched
    exact ⟨sound, ih.2.tail ⟨_, _, kept, absorbs⟩⟩
  | @woken w cancelled _ ih =>
    have turns := wake_turns cancelled w
    exact ⟨ih.1.turns turns, turns.futures ▸ ih.2⟩
  | @cancelled w _ ih =>
    have turns := cancel_turns w
    exact ⟨ih.1.turns turns, turns.futures ▸ ih.2⟩
  | @expired w _ ih =>
    have turns := expire_turns w
    exact ⟨ih.1.turns turns, turns.futures ▸ ih.2⟩

end Wait

/-- The wait sets that waits one after the other, each left at some point, make of one. -/
inductive Tracked (replies : Replies) (futures : List Future) : List Future → Prop where
  | begun : Tracked replies futures futures
  | waited {earlier : List Future} {terms : WaitTerms} {μ : Type} [Watcher μ] {w : Wait μ} :
      Tracked replies futures earlier → w.Reached replies terms earlier →
      Tracked replies futures w.state.futures

theorem Tracked.absorbed {replies : Replies} {futures later : List Future}
    (tracked : Tracked replies futures later) : Absorbed replies futures later := by
  induction tracked with
  | begun => exact .refl
  | waited _ reached ih => exact ih.trans reached.sound.2

end CallDispatch
