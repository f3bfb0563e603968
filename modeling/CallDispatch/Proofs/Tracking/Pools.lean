import CallDispatch.Proofs.Tracking.Histories
import CallDispatch.Tracking.Fetching

/-!
# Pools of fetches

A pool asks about every target it was given and loses none: each is waiting, on its way or answered,
and answered as its store replied. Whenever its fetches have gone on as far as they can, either all
have been answered or some answer is still due; and each time one that is due comes in, there is
less left to ask.
-/

namespace CallDispatch

/-- How many questions a fetch may still ask. -/
def FetchStep.rank : FetchStep → Nat
  | .askStatus => 2
  | .askOutput _ => 1
  | .finished _ => 0

/-- How many answers a fetch that can go on may still have to wait for. -/
def RunnableFetch.effort (f : RunnableFetch) : Nat :=
  if f.asked then f.step.rank - 1 else f.step.rank

/-- All that the surroundings reply is among given replies. -/
structure Surroundings.Within (sur : Surroundings) (replies : Replies) : Prop where
  opening : ∀ backend, replies.opening backend (sur.faults.openBackend backend)
  status : ∀ backend key, replies.status backend key
    (sur.faults.guard (statusFetch key) (sur.stores.status? backend key))
  output : ∀ backend key, replies.output backend key
    (sur.faults.guard (outputFetch key) (sur.stores.output? backend key))

/-- Surroundings without faults reply what their stores hold. -/
theorem Surroundings.within_fixed {sur : Surroundings} (noneClosed : sur.faults.closedBackends = [])
    (noneFailing : sur.faults.failing = []) :
    sur.Within (.fixed sur.stores.status? sur.stores.output?) := by
  refine ⟨?_, ?_, ?_⟩
  · intro backend
    show sur.faults.openBackend backend = .ok ()
    rw [Faults.openBackend, noneClosed]
    rfl
  · intro backend key
    show sur.faults.guard _ _ = _
    rw [Faults.guard, noneFailing]
    rfl
  · intro backend key
    show sur.faults.guard _ _ = _
    rw [Faults.guard, noneFailing]
    rfl

theorem Target.rank_afterStatus (download : Bool) (t : Target)
    (reply : Outcome (Option StatusRecord)) : (t.afterStatus download reply).rank ≤ 1 := by
  unfold Target.afterStatus
  split
  · exact Nat.zero_le 1
  · split
    · exact Nat.zero_le 1
    · split
      · exact Nat.zero_le 1
      · split
        · exact Nat.le_refl 1
        · exact Nat.zero_le 1

theorem Target.rank_first (download : Bool) (t : Target) : (t.first download).rank ≤ 2 := by
  unfold Target.first
  split
  · exact Nat.le_refl 2
  · split
    · exact Nat.le_succ 1
    · exact Nat.zero_le 2

namespace FetchPool

variable {replies : Replies} {sur : Surroundings} {targets : List Target}

theorem rank_resolve (sur : Surroundings) (p : FetchPool) (t : Target) (step : FetchStep) :
    (p.resolve sur t step).rank ≤ step.rank - 1 := by
  cases step with
  | askStatus => exact t.rank_afterStatus _ _
  | askOutput known => exact Nat.le_refl 0
  | finished answer => exact Nat.le_refl 0

theorem resolve_comes (within : sur.Within replies) {p : FetchPool} {t : Target} {step : FetchStep}
    (comes : t.Comes replies p.backend p.download step) :
    t.Comes replies p.backend p.download (p.resolve sur t step) := by
  cases step with
  | askStatus => exact comes.status (within.status p.backend t.key)
  | askOutput known => exact comes.output (within.output p.backend t.key)
  | finished answer => exact comes

/-- A fetch with something to ask asks it, and goes on if the answer comes at once. -/
theorem proceed_asks (sur : Surroundings) (now beside : Nat) (t : Target) (questions : Nat)
    {step : FetchStep} (left : 0 < step.rank) (p : FetchPool) (log : FetchLog) :
    proceed sur now beside t (questions + 1) step p log =
      if (question sur t step).2 = 0 then
        proceed sur now beside t questions (p.resolve sur t step) p
          (log.start (question sur t step).1 beside)
      else
        ({ p with pending := p.pending ++
            [{ target := t, step, due := now + (question sur t step).2 }] },
          log.start (question sur t step).1 beside) := by
  cases step with
  | askStatus => rfl
  | askOutput known => rfl
  | finished answer => cases left

/-- A fetch that goes on is answered in the end, or asks a question that takes time. -/
theorem proceed_cases (within : sur.Within replies) (now beside : Nat) {t : Target} {p : FetchPool}
    {questions : Nat} {step : FetchStep} (few : step.rank ≤ questions)
    (comes : t.Comes replies p.backend p.download step) (log : FetchLog) :
    (∃ answer log', proceed sur now beside t questions step p log =
        ({ p with answers := p.answers ++ [(t.index, answer)] }, log') ∧
      t.Comes replies p.backend p.download (.finished answer)) ∨
    ∃ next log', proceed sur now beside t questions step p log =
        ({ p with pending := p.pending ++
            [{ target := t, step := next, due := now + (question sur t next).2 }] }, log') ∧
      t.Comes replies p.backend p.download next ∧ 0 < next.rank ∧ next.rank ≤ step.rank ∧
      0 < (question sur t next).2 := by
  induction questions generalizing step log with
  | zero =>
    cases step with
    | finished answer => exact Or.inl ⟨answer, log, rfl, comes⟩
    | askOutput known => cases few
    | askStatus => cases few
  | succ questions ih =>
    by_cases left : 0 < step.rank
    · have fewer := rank_resolve sur p t step
      rw [proceed_asks sur now beside t questions left]
      by_cases atOnce : (question sur t step).2 = 0
      · rw [if_pos atOnce]
        rcases ih (by omega) (resolve_comes within comes) _ with answered |
            ⟨next, log', proceeds, comes', left', less, takes⟩
        · exact Or.inl answered
        · exact Or.inr ⟨next, log', proceeds, comes', left', by omega, takes⟩
      · rw [if_neg atOnce]
        exact Or.inr ⟨step, _, rfl, comes, left, Nat.le_refl _, Nat.pos_of_ne_zero atOnce⟩
    · cases step with
      | finished answer => exact Or.inl ⟨answer, log, rfl, comes⟩
      | askOutput known => exact absurd Nat.one_pos left
      | askStatus => exact absurd Nat.two_pos left

/-- The targets of a pool, each waiting, able to go on, on its way or answered. -/
structure Serving (replies : Replies) (targets : List Target) (runnable : List RunnableFetch)
    (p : FetchPool) : Prop where
  indexes : (p.answers.map (·.1) ++ (runnable.map (·.target.index) ++
    (p.pending.map (·.target.index) ++ p.waiting.map (·.index)))).Perm (targets.map (·.index))
  waiting : ∀ t ∈ p.waiting, t ∈ targets
  pending : ∀ f ∈ p.pending, f.target ∈ targets ∧ 0 < f.step.rank ∧
    f.target.Comes replies p.backend p.download f.step
  runnable : ∀ f ∈ runnable, f.target ∈ targets ∧ (f.asked = true → 0 < f.step.rank) ∧
    f.target.Comes replies p.backend p.download f.step
  answers : ∀ x ∈ p.answers, ∃ t ∈ targets, x.1 = t.index ∧
    t.Comes replies p.backend p.download (.finished x.2)

/-- A pool that has not started asks about each of its targets. -/
theorem serving_new (replies : Replies) (backend : String) (download : Bool) (capacity : Nat)
    (targets : List Target) :
    Serving replies targets [] { backend, download, capacity, waiting := targets } where
  indexes := .refl _
  waiting _ := id
  pending _ none := absurd none List.not_mem_nil
  runnable _ none := absurd none List.not_mem_nil
  answers _ none := absurd none List.not_mem_nil

/-- A pool that is done has an answer for each of its targets. -/
theorem Serving.done {p : FetchPool} (serving : p.Serving replies targets [])
    (done : p.isDone = true) : Answers replies p.backend p.download targets p.answers := by
  obtain ⟨noneWaiting, nonePending⟩ := Bool.and_eq_true_iff.mp done
  have indexes := serving.indexes
  rw [List.isEmpty_iff.mp noneWaiting, List.isEmpty_iff.mp nonePending] at indexes
  exact ⟨by simpa using indexes, serving.answers⟩

/-- How many answers a pool may still have to wait for. -/
def effort (p : FetchPool) : Nat := 3 * p.waiting.length + (p.pending.map (·.step.rank)).sum

/-- What driving a pool does not change. -/
structure SameKind (p q : FetchPool) : Prop where
  backend : q.backend = p.backend
  download : q.download = p.download
  capacity : q.capacity = p.capacity

theorem SameKind.trans {p q r : FetchPool} (first : p.SameKind q) (second : q.SameKind r) :
    p.SameKind r where
  backend := second.backend.trans first.backend
  download := second.download.trans first.download
  capacity := second.capacity.trans first.capacity

/-- Starting waiting fetches: as many as there is room for. -/
theorem fill_cases {runnable : List RunnableFetch} {p : FetchPool}
    (serving : p.Serving replies targets runnable) :
    ∃ ready waiting, p.fill runnable = (ready, { p with waiting }) ∧
      ({ p with waiting } : FetchPool).Serving replies targets ready ∧
      ({ p with waiting } : FetchPool).effort + (ready.map RunnableFetch.effort).sum ≤
        p.effort + (runnable.map RunnableFetch.effort).sum ∧
      ready.length + waiting.length = runnable.length + p.waiting.length ∧
      (ready = [] → waiting = [] ∨ p.capacity ≤ p.pending.length) := by
  let room := p.capacity - (p.pending.length + runnable.length)
  let start (t : Target) : RunnableFetch :=
    { target := t, step := t.first p.download, asked := false }
  have cost (l : List Target) : ((l.map start).map RunnableFetch.effort).sum ≤ 3 * l.length := by
    induction l with
    | nil => exact Nat.le_refl 0
    | cons t rest ih =>
      have few : (start t).effort ≤ 2 := t.rank_first p.download
      simp only [List.map_cons, List.sum_cons, List.length_cons] at ih ⊢
      omega
  refine ⟨runnable ++ (p.waiting.take room).map start, p.waiting.drop room, rfl,
    ⟨?_, ?_, serving.pending, ?_, serving.answers⟩, ?_, ?_, ?_⟩
  · have halves : (p.waiting.take room).map (·.index) ++ (p.waiting.drop room).map (·.index) =
        p.waiting.map (·.index) := by
      rw [← List.map_append, List.take_append_drop]
    have started : ((p.waiting.take room).map start).map (·.target.index) =
        (p.waiting.take room).map (·.index) := by
      rw [List.map_map]
      rfl
    refine List.Perm.trans ?_ serving.indexes
    rw [← halves, List.map_append, started, List.append_assoc]
    exact .append_left _ (.append_left _ (List.perm_append_comm_assoc _ _ _))
  · intro t member
    exact serving.waiting t (List.mem_of_mem_drop member)
  · intro f member
    rcases List.mem_append.mp member with old | started
    · exact serving.runnable f old
    · obtain ⟨t, listed, rfl⟩ := List.mem_map.mp started
      exact ⟨serving.waiting t (List.mem_of_mem_take listed), nofun, .first⟩
  · have started := cost (p.waiting.take room)
    rw [List.length_take] at started
    simp only [effort, List.map_append, List.sum_append, List.length_drop]
    omega
  · simp only [List.length_append, List.length_map, List.length_take, List.length_drop]
    omega
  · intro none
    obtain ⟨noneReady, noneStarted⟩ := List.append_eq_nil_iff.mp none
    have taken := congrArg List.length noneStarted
    rw [List.length_map, List.length_take, List.length_nil] at taken
    have isRoom : room = p.capacity - p.pending.length := by
      show p.capacity - (p.pending.length + runnable.length) = _
      rw [noneReady, List.length_nil, Nat.add_zero]
    rcases Nat.lt_or_ge p.pending.length p.capacity with space | noSpace
    · have empty : p.waiting = [] := List.eq_nil_of_length_eq_zero (by omega)
      rw [empty, List.drop_nil]
      exact Or.inl rfl
    · exact Or.inr noSpace

/-- One fetch goes on: it is answered, or its answer is due later. -/
theorem serving_proceed (within : sur.Within replies) (now beside : Nat) {f : RunnableFetch}
    {rest : List RunnableFetch} {p : FetchPool} (serving : p.Serving replies targets (f :: rest))
    (log : FetchLog) :
    ∃ p' log', proceed sur now beside f.target 2
        (if f.asked then p.resolve sur f.target f.step else f.step) p log = (p', log') ∧
      p'.Serving replies targets rest ∧ p.SameKind p' ∧ p'.waiting = p.waiting ∧
      p'.effort ≤ p.effort + f.effort ∧
      ∀ g ∈ p'.pending, g ∈ p.pending ∨
        now < g.due ∧ 0 < (question sur g.target g.step).2 := by
  obtain ⟨member, asks, comes⟩ := serving.runnable f List.mem_cons_self
  have later : ∀ g ∈ rest, g.target ∈ targets ∧ (g.asked = true → 0 < g.step.rank) ∧
      g.target.Comes replies p.backend p.download g.step := fun g listed =>
    serving.runnable g (List.mem_cons_of_mem f listed)
  obtain ⟨step, same, comes', cost, few⟩ : ∃ step,
      (if f.asked then p.resolve sur f.target f.step else f.step) = step ∧
      f.target.Comes replies p.backend p.download step ∧ step.rank ≤ f.effort ∧ step.rank ≤ 2 := by
    have top : ∀ step : FetchStep, step.rank ≤ 2 := by
      intro step
      cases step <;> simp [FetchStep.rank]
    by_cases asked : f.asked = true
    · refine ⟨_, if_pos asked, resolve_comes within comes, ?_, top _⟩
      rw [RunnableFetch.effort, if_pos asked]
      exact rank_resolve sur p f.target f.step
    · refine ⟨_, if_neg asked, comes, ?_, top _⟩
      rw [RunnableFetch.effort, if_neg asked]
  rw [same]
  rcases proceed_cases within now beside few comes' log with ⟨answer, log', proceeds, answered⟩ |
      ⟨next, log', proceeds, comes'', left, less, takes⟩
  · refine ⟨_, log', proceeds, ⟨?_, serving.waiting, serving.pending, later, ?_⟩, ⟨rfl, rfl, rfl⟩,
      rfl, Nat.le_add_right _ _, fun g listed => Or.inl listed⟩
    · refine List.Perm.trans ?_ serving.indexes
      simp only [List.map_append, List.map_cons, List.map_nil, List.append_assoc]
      exact List.Perm.refl _
    · intro x listed
      rcases List.mem_append.mp listed with old | last
      · exact serving.answers x old
      · rw [List.mem_singleton.mp last]
        exact ⟨f.target, member, rfl, answered⟩
  · refine ⟨_, log', proceeds, ⟨?_, serving.waiting, ?_, later, serving.answers⟩,
      ⟨rfl, rfl, rfl⟩, rfl, ?_, ?_⟩
    · refine List.Perm.trans ?_ serving.indexes
      refine .append_left _ ?_
      simp only [List.map_append, List.map_cons, List.map_nil, List.append_assoc,
        List.cons_append, List.nil_append]
      rw [← List.append_assoc, ← List.append_assoc]
      exact List.perm_middle
    · intro g listed
      rcases List.mem_append.mp listed with old | last
      · exact serving.pending g old
      · rw [List.mem_singleton.mp last]
        exact ⟨member, left, comes''⟩
    · simp only [effort, List.map_append, List.sum_append, List.map_cons, List.map_nil,
        List.sum_cons, List.sum_nil]
      omega
    · intro g listed
      rcases List.mem_append.mp listed with old | last
      · exact Or.inl old
      · rw [List.mem_singleton.mp last]
        exact Or.inr ⟨Nat.lt_add_of_pos_right takes, takes⟩

/-- What becomes of a pool whose fetches go on as far as they can at a moment: they wait for answers
that are due later, and none waits for room unless the pool is full. -/
structure Driven (replies : Replies) (sur : Surroundings) (now : Nat) (targets : List Target)
    (cost : Nat) (p q : FetchPool) : Prop where
  serving : q.Serving replies targets []
  kind : p.SameKind q
  full : q.waiting = [] ∨ p.capacity ≤ q.pending.length
  effort : q.effort ≤ cost
  due : ∀ g ∈ q.pending, g ∈ p.pending ∨ now < g.due ∧ 0 < (question sur g.target g.step).2

theorem drive_driven (within : sur.Within replies) (now : Nat) {fuel : Nat}
    {runnable : List RunnableFetch} {p : FetchPool} (serving : p.Serving replies targets runnable)
    (enough : runnable.length + p.waiting.length < fuel) (log : FetchLog) :
    Driven replies sur now targets (p.effort + (runnable.map RunnableFetch.effort).sum) p
      (drive sur now fuel runnable p log).1 := by
  induction fuel generalizing runnable p log with
  | zero => cases enough
  | succ fuel ih =>
    obtain ⟨ready, waiting, fills, filled, cost, size, stop⟩ := fill_cases serving
    rw [drive, fills]
    cases ready with
    | nil =>
      exact ⟨filled, ⟨rfl, rfl, rfl⟩, stop rfl, by simpa using cost, fun g => Or.inl⟩
    | cons f rest =>
      obtain ⟨p', log', proceeds, serving', kind, same, cost', due⟩ := serving_proceed within now
        (p.pending.length + (rest.filter (·.asked)).length) filled log
      have fewer : rest.length + p'.waiting.length < fuel := by
        rw [same]
        simp only [List.length_cons] at size
        show rest.length + waiting.length < fuel
        omega
      have go := ih serving' fewer log'
      dsimp only
      rw [proceeds]
      refine ⟨go.serving, SameKind.trans ⟨kind.backend, kind.download, kind.capacity⟩ go.kind,
        kind.capacity ▸ go.full, ?_, ?_⟩
      · refine go.effort.trans ?_
        simp only [List.map_cons, List.sum_cons] at cost
        omega
      · intro g listed
        rcases go.due g listed with old | new
        · exact due g old
        · exact Or.inr new

theorem length_le_turns (p : FetchPool) : p.waiting.length + p.pending.length < p.turns := by
  unfold turns
  omega

/-- Starting the fetches of a pool. -/
theorem start_driven (within : sur.Within replies) (now : Nat) {p : FetchPool}
    (serving : p.Serving replies targets []) (log : FetchLog) :
    Driven replies sur now targets p.effort p (p.start sur now log).1 := by
  have enough := p.length_le_turns
  exact drive_driven within now serving (by rw [List.length_nil]; omega) log

/-- The answers that come in are no longer waited for. -/
theorem sum_rank_partition (now : Nat) {pending : List PendingFetch}
    (left : ∀ f ∈ pending, 0 < f.step.rank) :
    ((pending.filter fun f => ¬ f.due ≤ now).map (·.step.rank)).sum +
        (((pending.filter fun f => f.due ≤ now).map (·.step.rank - 1)).sum +
          (pending.filter fun f => f.due ≤ now).length) =
      (pending.map (·.step.rank)).sum := by
  induction pending with
  | nil => rfl
  | cons f rest ih =>
    have later := ih fun g member => left g (List.mem_cons_of_mem f member)
    have own := left f List.mem_cons_self
    by_cases due : f.due ≤ now
    · simp only [List.filter_cons, due, not_true_eq_false, decide_false, decide_true,
        Bool.false_eq_true, if_false, if_true, List.map_cons, List.sum_cons, List.length_cons]
      omega
    · simp only [List.filter_cons, due, not_false_eq_true, decide_false, decide_true,
        Bool.false_eq_true, if_false, if_true, List.map_cons, List.sum_cons]
      omega

/-- Letting the fetches of a pool go on that are due: each leaves less to wait for. -/
theorem wake_driven (within : sur.Within replies) (now : Nat) {p : FetchPool}
    (serving : p.Serving replies targets []) (log : FetchLog) :
    Driven replies sur now targets
      (p.effort - (p.pending.filter fun f => f.due ≤ now).length) p
      (p.wake sur now log).1 := by
  let later : FetchPool := { p with pending := p.pending.filter fun f => ¬ f.due ≤ now }
  let runnable : List RunnableFetch := (p.pending.filter fun f => f.due ≤ now).map fun f =>
    { target := f.target, step := f.step, asked := true }
  have wakes : p.wake sur now log = drive sur now p.turns runnable later log := by
    unfold wake
    rw [List.partition_eq_filter_filter]
    simp only [runnable, later, Function.comp_def, decide_not]
  have parts : (p.pending.filter fun f => f.due ≤ now) ++
      (p.pending.filter fun f => ¬ f.due ≤ now) |>.Perm p.pending := by
    simpa only [decide_not] using
      List.filter_append_perm (fun f : PendingFetch => decide (f.due ≤ now)) p.pending
  have serving' : later.Serving replies targets runnable := by
    refine ⟨?_, serving.waiting, ?_, ?_, serving.answers⟩
    · have indexes : runnable.map (·.target.index) ++ later.pending.map (·.target.index) |>.Perm
          (p.pending.map (·.target.index)) := by
        have mapped := parts.map (·.target.index)
        rw [List.map_append] at mapped
        simpa only [runnable, later, List.map_map, Function.comp_def] using mapped
      refine List.Perm.trans (.append_left _ ?_) serving.indexes
      rw [List.map_nil, List.nil_append, ← List.append_assoc]
      exact indexes.append_right _
    · intro f member
      exact serving.pending f (List.mem_filter.mp member).1
    · intro f member
      obtain ⟨g, listed, rfl⟩ := List.mem_map.mp member
      obtain ⟨inside, left, comes⟩ := serving.pending g (List.mem_filter.mp listed).1
      exact ⟨inside, fun _ => left, comes⟩
  have less := sum_rank_partition now fun f member => (serving.pending f member).2.1
  have size := (List.length_filter_le (fun f : PendingFetch => decide (f.due ≤ now)) p.pending)
  have enough := p.length_le_turns
  have cost : (runnable.map RunnableFetch.effort).sum =
      ((p.pending.filter fun f => f.due ≤ now).map (·.step.rank - 1)).sum := by
    simp only [runnable, List.map_map]
    rfl
  have fits : runnable.length + later.waiting.length < p.turns := by
    simp only [runnable, later, List.length_map]
    omega
  have driven := drive_driven within now serving' fits log
  rw [wakes]
  refine ⟨driven.serving, ⟨driven.kind.backend, driven.kind.download, driven.kind.capacity⟩,
    driven.full, driven.effort.trans ?_, ?_⟩
  · rw [cost]
    simp only [effort, later]
    omega
  · intro g listed
    rcases driven.due g listed with old | new
    · exact Or.inl (List.mem_filter.mp old).1
    · exact Or.inr new

/-- Once an answer has come in, there is less left to wait for. -/
theorem Serving.effort_wake_lt {p : FetchPool} (serving : p.Serving replies targets [])
    (within : sur.Within replies) {now : Nat} {g : PendingFetch} (pending : g ∈ p.pending)
    (due : g.due ≤ now) (log : FetchLog) : (p.wake sur now log).1.effort < p.effort := by
  have some_ : 0 < (p.pending.filter fun f => f.due ≤ now).length :=
    List.length_pos_of_mem (List.mem_filter.mpr ⟨pending, decide_eq_true due⟩)
  have partition := sum_rank_partition now fun f member => (serving.pending f member).2.1
  have less := (wake_driven within now serving log).effort
  unfold effort at less ⊢
  omega

/-- Where nothing is due, and none waits that has room, nothing happens. -/
theorem wake_of_none_due {now : Nat} {p : FetchPool} (later : ∀ g ∈ p.pending, now < g.due)
    (full : p.waiting = [] ∨ p.capacity ≤ p.pending.length) (log : FetchLog) :
    p.wake sur now log = (p, log) := by
  have none : p.pending.partition (fun f => decide (f.due ≤ now)) = ([], p.pending) := by
    rw [List.partition_eq_filter_filter]
    refine Prod.ext ?_ ?_
    · refine List.filter_eq_nil_iff.mpr fun g member => ?_
      simpa using later g member
    · refine List.filter_eq_self.mpr fun g member => ?_
      simpa using later g member
  have stays : p.fill [] = ([], p) := by
    have started : p.waiting.take (p.capacity - p.pending.length) = [] ∧
        p.waiting.drop (p.capacity - p.pending.length) = p.waiting := by
      rcases full with empty | full
      · rw [empty, List.take_nil, List.drop_nil]
        exact ⟨rfl, rfl⟩
      · rw [Nat.sub_eq_zero_of_le full]
        exact ⟨rfl, rfl⟩
    unfold fill
    simp only [List.length_nil, Nat.add_zero, started.1, started.2, List.map_nil, List.append_nil]
  unfold wake
  rw [none]
  show drive sur now (3 * (p.waiting.length + p.pending.length) + 2 + 1) [] p log = _
  rw [drive, stays]

/-- A pool with room whose fetches have gone on as far as they can has an answer coming, unless it
is done. -/
theorem pending_ne_nil {p : FetchPool} (room : 0 < p.capacity)
    (full : p.waiting = [] ∨ p.capacity ≤ p.pending.length) (left : p.isDone = false) :
    p.pending ≠ [] := by
  intro none
  rcases full with empty | full
  · rw [isDone, none, empty] at left
    cases left
  · rw [none, List.length_nil] at full
    omega

theorem Driven.pending_ne_nil {now cost : Nat} {p q : FetchPool}
    (driven : Driven replies sur now targets cost p q) (room : 0 < p.capacity)
    (left : q.isDone = false) : q.pending ≠ [] :=
  CallDispatch.FetchPool.pending_ne_nil (driven.kind.capacity ▸ room)
    (driven.kind.capacity ▸ driven.full) left

end FetchPool

end CallDispatch
