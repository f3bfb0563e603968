import CallDispatch.Proofs.Fanout.Moments
import CallDispatch.Proofs.Fanout.Occupancy

/-!
# Pods in time are schedulers

Whatever a pod with a clock does with the messages it is handed one after the other is a run of
events of a scheduler, which has the same slots and the same calls all the time. What holds of all
schedulers thus holds of it: it never has more calls running than processors.

A handling that waits while the clock goes on is not looked after until a slot is free or its token
has been cancelled, so that it need not stand in line.
-/

namespace CallDispatch

/-- A call's slot and what its handler gets, if it has come so far. -/
def ScheduledCall.taskAt (c : ScheduledCall) (stage : CallStage) : List (Nat × Payload) :=
  if c.stage = stage then [(c.guard, c.window)] else []

theorem ScheduledCall.taskAt_self (c : ScheduledCall) :
    c.taskAt c.stage = [(c.guard, c.window)] := if_pos rfl

theorem ScheduledCall.taskAt_of_ne {c : ScheduledCall} {stage : CallStage}
    (ne : c.stage ≠ stage) : c.taskAt stage = [] := if_neg ne

namespace Scheduler

variable {s : Scheduler} {n : Nat} {c : ScheduledCall} {later : CallStage}

/-- The calls that have come so far. -/
def tasks (s : Scheduler) (stage : CallStage) : List (Nat × Payload) :=
  s.calls.flatMap (·.taskAt stage)

theorem mem_tasks {stage : CallStage} {guard : Nat} {window : Payload}
    (listed : (guard, window) ∈ s.tasks stage) : ∃ (n : Nat) (c : ScheduledCall),
      s.calls[n]? = some c ∧ c.stage = stage ∧ c.guard = guard ∧ c.window = window := by
  obtain ⟨c, member, own⟩ := List.mem_flatMap.mp listed
  obtain ⟨n, found⟩ := List.getElem?_of_mem member
  rw [ScheduledCall.taskAt] at own
  split at own
  · next at_ =>
    cases List.mem_singleton.mp own
    exact ⟨n, c, found, at_, rfl, rfl⟩
  · cases own

theorem tasks_setCall (found : s.calls[n]? = some c) (c' : ScheduledCall) (stage : CallStage) :
    (c.taskAt stage ++ (s.setCall n c').tasks stage).Perm (c'.taskAt stage ++ s.tasks stage) :=
  flatMap_set_perm found c' (·.taskAt stage)

/-- A call that goes on is no longer where it was. -/
theorem tasks_leave (found : s.calls[n]? = some c) (ne : later ≠ c.stage) :
    (s.tasks c.stage).Perm
      ((c.guard, c.window) :: (s.setCall n { c with stage := later }).tasks c.stage) := by
  have perm := tasks_setCall found { c with stage := later } c.stage
  rw [c.taskAt_self, ScheduledCall.taskAt_of_ne ne] at perm
  exact perm.symm

theorem tasks_enter (found : s.calls[n]? = some c) (ne : later ≠ c.stage) :
    ((s.setCall n { c with stage := later }).tasks later).Perm
      ((c.guard, c.window) :: s.tasks later) := by
  have perm := tasks_setCall found { c with stage := later } later
  rw [ScheduledCall.taskAt_of_ne ne.symm] at perm
  have own := ScheduledCall.taskAt_self { c with stage := later }
  exact perm.trans (.of_eq (congrArg (· ++ _) own))

/-- Other stages do not notice that a call goes on. -/
theorem tasks_aside (found : s.calls[n]? = some c) {stage : CallStage} (before : c.stage ≠ stage)
    (after : later ≠ stage) :
    ((s.setCall n { c with stage := later }).tasks stage).Perm (s.tasks stage) := by
  have perm := tasks_setCall found { c with stage := later } stage
  rwa [ScheduledCall.taskAt_of_ne before, ScheduledCall.taskAt_of_ne after] at perm

theorem tasks_launch (s : Scheduler) (i : Nat) (h : Handling) (guard : Nat) (call : Payload)
    (rest : Dispatch) : (s.launch i h guard call rest).tasks .launched =
      s.tasks .launched ++ [(guard, call.withActivation (s.ids s.calls.length))] :=
  List.flatMap_append

theorem tasks_launch_of_ne (s : Scheduler) (i : Nat) (h : Handling) (guard : Nat) (call : Payload)
    (rest : Dispatch) {stage : CallStage} (ne : stage ≠ .launched) :
    (s.launch i h guard call rest).tasks stage = s.tasks stage := by
  have none : ScheduledCall.taskAt ⟨i, call.withActivation (s.ids s.calls.length), guard,
      .launched⟩ stage = [] := ScheduledCall.taskAt_of_ne ne.symm
  rw [tasks, launch]
  refine List.flatMap_append.trans ?_
  rw [List.flatMap_singleton, none, List.append_nil]
  rfl

theorem unfinished_eq (s : Scheduler) :
    s.unfinished = (s.tasks .launched).length + (s.tasks .running).length := by
  rw [unfinished, tasks, tasks]
  induction s.calls with
  | nil => rfl
  | cons c rest ih =>
    rw [List.flatMap_cons, List.flatMap_cons, List.length_append, List.length_append]
    cases stage : c.stage <;> simp [ScheduledCall.taskAt, stage] at ih ⊢ <;> omega

theorem run_append (s : Scheduler) (first rest : List SchedulerEvent) :
    s.run (first ++ rest) = (s.run first).bind (·.run rest) := by
  induction first generalizing s with
  | nil => rfl
  | cons e first ih =>
    rw [List.cons_append, run, run]
    cases s.step e with
    | none => rfl
    | some s' => exact ih s'

theorem run_one {s' : Scheduler} {e : SchedulerEvent} (happens : s.step e = some s') :
    s.run [e] = some s' := by
  rw [run, happens]
  rfl

end Scheduler

/-! ## A pod and its scheduler -/

namespace Pod

/-- A scheduler that shows the same as a pod when nobody stands in line. -/
structure Image (p : Pod) (next : Nat) (s : Scheduler) : Prop where
  cluster : s.cluster = p.cluster
  range : s.range = p.range
  ids : s.ids = p.ids
  slots : s.slots = p.slots
  kept : s.Kept []
  line : s.line = []
  next : s.calls.length = next
  launched : (s.tasks .launched).Perm (p.launched.map fun c => (c.guard, c.call))
  running : ((s.tasks .running).map Prod.fst).Perm (p.running.map (·.guard))
  log : ((s.tasks .running ++ s.tasks .finished).map Prod.snd).Perm
    (p.log.calls.map (·.window))
  count : p.log.running = p.running.length
  peak : p.log.peak ≤ p.slots.capacity

/-- A scheduler goes on to one that is what the pod has become, with these handlings. -/
def Follows (s : Scheduler) (handlings : List Handling) (p : Pod) (next : Nat) : Prop :=
  ∃ events s', s.run events = some s' ∧ s'.handlings = handlings ∧ p.Image next s'

variable {p p' : Pod} {next next' : Nat} {s s' : Scheduler} {handlings : List Handling}

theorem Image.follows (image : p.Image next s) : Follows s s.handlings p next :=
  ⟨[], s, rfl, rfl, image⟩

theorem Follows.of_run {events : List SchedulerEvent} (runs : s.run events = some s')
    (follows : Follows s' handlings p next) : Follows s handlings p next := by
  obtain ⟨later, last, goesOn, same, image⟩ := follows
  refine ⟨events ++ later, last, ?_, same, image⟩
  rw [Scheduler.run_append, runs]
  exact goesOn

theorem Follows.trans {handlings' : List Handling} (follows : Follows s handlings p next)
    (goesOn : ∀ s', s'.handlings = handlings → p.Image next s' → Follows s' handlings' p' next') :
    Follows s handlings' p' next' := by
  obtain ⟨events, s', runs, same, image⟩ := follows
  exact .of_run runs (goesOn s' same image)

/-- Where the calls are as they were, only the handlings have changed. -/
theorem Image.of_handlings (image : p.Image next s) {e : SchedulerEvent}
    (happens : s.step e = some s') (cluster : s'.cluster = s.cluster)
    (ids : s'.ids = s.ids) (slots : s'.slots = s.slots) (line : s'.line = [])
    (calls : s'.calls = s.calls) : p.Image next s' := by
  have moves := Scheduler.moves_of_step happens
  have tasks : ∀ stage, s'.tasks stage = s.tasks stage := fun stage => by
    rw [Scheduler.tasks, Scheduler.tasks, calls]
  exact { image with
    cluster := cluster.trans image.cluster
    range := moves.range_eq.trans image.range
    ids := ids.trans image.ids
    slots := slots.trans image.slots
    kept := image.kept.moves moves
    line := line
    next := calls ▸ image.next
    launched := (tasks _).symm ▸ image.launched
    running := (tasks _).symm ▸ image.running
    log := by
      rw [tasks, tasks]
      exact image.log }

theorem Image.idle (cluster : Nat) (range : ProcessorRun) (handler : TimedHandler) :
    (Pod.idle cluster range handler).Image 0 (Scheduler.idle cluster range Activation.id) where
  cluster := rfl
  range := rfl
  ids := rfl
  slots := rfl
  kept := .idle cluster range _
  line := rfl
  next := rfl
  launched := .refl _
  running := .refl _
  log := .refl _
  count := rfl
  peak := Nat.zero_le _

/-- It does not matter in which order running calls are listed. -/
theorem Image.perm {running running' : List RunningCall}
    (image : { p with running }.Image next s) (perm : running.Perm running') :
    { p with running := running' }.Image next s :=
  { image with
    running := image.running.trans (perm.map _)
    count := image.count.trans perm.length_eq }

/-- A call finishes and gives its slot back. -/
theorem Image.finishCall {c : RunningCall} {rest : List RunningCall}
    (image : { p with running := c :: rest }.Image next s) :
    Follows s s.handlings { p.giveBack c.guard with running := rest } next := by
  obtain ⟨⟨guard, window⟩, listed, guarded⟩ : ∃ task ∈ s.tasks .running, task.1 = c.guard :=
    List.mem_map.mp (image.running.mem_iff.mpr List.mem_cons_self)
  obtain ⟨n, r, found, stage, rfl, rfl⟩ := Scheduler.mem_tasks listed
  have ne : CallStage.finished ≠ r.stage := by
    rw [stage]
    decide
  have happens : s.step (.call n .finish) =
      some { s.setCall n { r with stage := .finished } with slots := s.slots.release r.guard } := by
    have given := Scheduler.giveBack_of_nil (s := s.setCall n { r with stage := .finished })
      image.line r.guard
    rw [Scheduler.step, found, Option.bind_some, Scheduler.onCall, if_pos stage, given]
    rfl
  have leaves := Scheduler.tasks_leave found ne
  have enters := Scheduler.tasks_enter found ne
  have aside : ((s.setCall n { r with stage := .finished }).tasks .launched).Perm
      (s.tasks .launched) := Scheduler.tasks_aside found (by rw [stage]; decide) (by decide)
  rw [stage] at leaves
  refine .of_run (Scheduler.run_one happens) (Image.follows ?_)
  exact { image with
    slots := by
      change s.slots.release r.guard = p.slots.release c.guard
      rw [← guarded, image.slots]
    kept := image.kept.moves (Scheduler.moves_of_step happens)
    next := (List.length_set ..).trans image.next
    launched := aside.trans image.launched
    running := by
      have perm := (leaves.map Prod.fst).symm.trans image.running
      rw [List.map_cons, List.map_cons, guarded] at perm
      exact perm.cons_inv
    log := by
      refine List.Perm.trans (List.Perm.map _ ?_) image.log
      exact (enters.append_left _).trans (List.perm_middle.trans (leaves.symm.append_right _))
    count := by
      have count := image.count
      rw [List.length_cons] at count
      change p.log.running - 1 = rest.length
      change p.log.running = rest.length + 1 at count
      omega }

/-- The handler gets a call. -/
theorem Image.startCall {c : LaunchedCall} {rest : List LaunchedCall}
    (image : { p with launched := c :: rest }.Image next s) (now : Nat) :
    Follows s s.handlings ({ p with launched := rest }.start now c) next := by
  have listed : (c.guard, c.call) ∈ s.tasks .launched :=
    image.launched.mem_iff.mpr List.mem_cons_self
  obtain ⟨n, r, found, stage, guarded, handed⟩ := Scheduler.mem_tasks listed
  have ne : CallStage.running ≠ r.stage := by
    rw [stage]
    decide
  have happens : s.step (.call n .start) = some (s.setCall n { r with stage := .running }) := by
    rw [Scheduler.step, found, Option.bind_some, Scheduler.onCall, if_pos stage]
  have leaves := Scheduler.tasks_leave found ne
  have enters := Scheduler.tasks_enter found ne
  have aside : ((s.setCall n { r with stage := .running }).tasks .finished).Perm
      (s.tasks .finished) := Scheduler.tasks_aside found (by rw [stage]; decide) (by decide)
  rw [stage] at leaves
  have shown : (r.guard, r.window) = (c.guard, c.call) := by rw [guarded, handed]
  rw [shown] at leaves enters
  have room : p.running.length + 1 ≤ p.slots.capacity := by
    have taken := image.kept.taken_eq
    have bounded := image.kept.bounded
    have running := image.running.length_eq
    have launched := image.launched.length_eq
    have slots : s.slots = p.slots := image.slots
    rw [Scheduler.unfinished_eq] at taken
    rw [slots] at taken bounded
    simp only [List.length_map, List.length_cons] at running launched
    omega
  have started (finishAt : Nat) : { p with
      launched := rest
      running := ⟨c.guard, finishAt⟩ :: p.running
      log := p.log.start now c.call }.Image next (s.setCall n { r with stage := .running }) := {
    image with
    kept := image.kept.moves (Scheduler.moves_of_step happens)
    next := (List.length_set ..).trans image.next
    launched := (leaves.symm.trans image.launched).cons_inv
    running := (enters.map _).trans (image.running.cons _)
    log := by
      refine (((enters.append aside).map _).trans (image.log.cons _)).trans ?_
      rw [HandlerLog.start]
      simp only [List.map_append, List.map_singleton]
      exact (List.perm_append_singleton _ _).symm
    count := congrArg (· + 1) image.count
    peak := by
      have count : p.log.running = p.running.length := image.count
      have peak : p.log.peak ≤ p.slots.capacity := image.peak
      exact max_le peak (count ▸ room) }
  refine .of_run (Scheduler.run_one happens) ?_
  rw [Pod.start]
  split
  · exact Image.finishCall (p := { p with launched := rest, log := p.log.start now c.call })
      (started 0)
  · exact ((started _).perm (List.perm_append_singleton _ _).symm).follows

theorem Image.startCalls {calls : List LaunchedCall}
    (image : { p with launched := calls }.Image next s) (now : Nat) :
    Follows s s.handlings (calls.foldl (fun p c => p.start now c) { p with launched := [] })
      next := by
  induction calls generalizing p s with
  | nil => exact image.follows
  | cons c rest ih =>
    refine (image.startCall now).trans fun s' same image' => ?_
    rw [Pod.start_launched] at image'
    have later := ih image'
    rwa [same, ← Pod.start_launched] at later

/-- All launched calls are handed over. -/
theorem Image.startLaunched (image : p.Image next s) (now : Nat) :
    Follows s s.handlings (p.startLaunched now) next := image.startCalls now

theorem Image.finishCalls {due rest : List RunningCall}
    (image : { p with running := due ++ rest }.Image next s) :
    Follows s s.handlings (due.foldl (fun p c => p.giveBack c.guard) { p with running := rest })
      next := by
  induction due generalizing p s with
  | nil => exact image.follows
  | cons c due ih =>
    refine image.finishCall.trans fun s' same image' => ?_
    exact same ▸ ih image'

/-- The calls that are due finish. -/
theorem Image.finishDue (image : p.Image next s) (now : Nat) :
    Follows s s.handlings (p.finishDue now) next := by
  rw [Pod.finishDue, List.partition_eq_filter_filter]
  have listed := (List.filter_append_perm (fun c : RunningCall => decide (c.finishAt ≤ now))
    p.running).symm
  exact Image.finishCalls (Image.perm (p := p) image listed)

/-! ## The handling of a message -/

variable {i : Nat} {d : Dispatch}

/-- A handling that has not been told to stop launches a call. -/
theorem Image.launchCall {rest : Dispatch} {told : Bool} {call : Payload} {guard : Nat}
    {slots : Slots} (image : p.Image next s)
    (found : s.handlings[i]? = some { stage := .launching d })
    (launches : d.step told p.slots.hasFree = .launch call rest)
    (took : p.slots.take = (some guard, slots)) :
    Follows s (s.handlings.set i { stage := .launching rest })
      { p with
        slots
        launched := p.launched ++ [⟨guard, call.withActivation (p.ids next)⟩] }
      (next + 1) := by
  obtain ⟨_, _, _, _, rfl, free, -⟩ := Fleet.step_eq_launch launches
  have capacity : slots.capacity = p.slots.capacity := by
    have taken := Slots.take_of_hasFree free
    rw [took] at taken
    cases taken
    rfl
  have happens : s.step (.handling i .proceed) =
      some (({ s with slots } : Scheduler).launch i { stage := .launching d } guard call rest) := by
    rw [Scheduler.step, found, Option.bind_some, Scheduler.onHandling, Scheduler.proceed]
    simp only [image.slots, launches, took]
  have aside (stage : CallStage) (ne : stage ≠ .launched) :=
    Scheduler.tasks_launch_of_ne { s with slots } i { stage := .launching d } guard call rest ne
  have running := aside .running (by decide)
  have finished := aside .finished (by decide)
  refine .of_run (Scheduler.run_one happens) ⟨[], _, rfl, rfl, ?_⟩
  exact { image with
    slots := rfl
    kept := image.kept.moves (Scheduler.moves_of_step happens)
    next := List.length_append.trans (congrArg (· + 1) image.next)
    launched := by
      rw [Scheduler.tasks_launch, List.map_append]
      exact image.next ▸ image.ids ▸ image.launched.append_right _
    running := running ▸ image.running
    log := by
      rw [running, finished]
      exact image.log
    peak := capacity.symm ▸ image.peak }

theorem set_handling_self {h : Handling} (found : s.handlings[i]? = some h) :
    s.handlings.set i h = s.handlings := by
  obtain ⟨below, same⟩ := List.getElem?_eq_some_iff.mp found
  rw [← same, List.set_getElem_self]

/-- A pod gets on with a job as far as possible at one moment. -/
theorem Image.pushSteps (image : p.Image next s)
    (found : s.handlings[i]? = some { stage := .launching d }) (told : Bool) (now limit : Nat) :
    ∃ rest, Follows s (s.handlings.set i { stage := .launching rest })
        (p.pushSteps told now limit d next).1 (p.pushSteps told now limit d next).2.2 ∧
      ((p.pushSteps told now limit d next).2.1 = .blocked rest ∨
        ∃ result, (p.pushSteps told now limit d next).2.1 = .finished result ∧
          ∀ free, rest.step told free = .finished result) := by
  induction limit generalizing p d next s with
  | zero => exact ⟨d, (set_handling_self found).symm ▸ image.follows, .inl rfl⟩
  | succ limit ih =>
    rw [Pod.pushSteps]
    split
    · next result ends =>
      exact ⟨d, (set_handling_self found).symm ▸ image.startLaunched now,
        .inr ⟨result, rfl, fun free => Dispatch.step_finished ends (.inl rfl) free⟩⟩
    · next call rest launches =>
      split
      · next guard slots took =>
        obtain ⟨events, s', runs, same, image'⟩ := image.launchCall found launches took
        obtain ⟨below, -⟩ := List.getElem?_eq_some_iff.mp found
        have found' : s'.handlings[i]? = some { stage := .launching rest } := by
          rw [same, List.getElem?_set_self below]
        obtain ⟨rest', follows, ends⟩ := ih image' found'
        rw [same, List.set_set] at follows
        exact ⟨rest', .of_run runs follows, ends⟩
      · exact ⟨d, (set_handling_self found).symm ▸ image.follows, .inl rfl⟩
    · split
      · exact ⟨d, (set_handling_self found).symm ▸ image.follows, .inl rfl⟩
      · obtain ⟨events, s', runs, same, image'⟩ := image.startLaunched now
        obtain ⟨rest', follows, ends⟩ := ih image' (same ▸ found)
        rw [same] at follows
        exact ⟨rest', .of_run runs follows, ends⟩

/-- A handling ends. That its token has been cancelled is noted only now. -/
theorem Image.conclude {told : Bool} {result : Outcome Dispatched} (image : p.Image next s)
    (found : s.handlings[i]? = some { stage := .launching d })
    (ends : ∀ free, d.step told free = .finished result) :
    Follows s (s.handlings.set i { stage := .closed (some result), told }) p next := by
  obtain ⟨below, -⟩ := List.getElem?_eq_some_iff.mp found
  have retires (s' : Scheduler) (line : s'.line = []) :
      s'.retire i { stage := .launching d, told } (some result) =
        { s' with handlings := s'.handlings.set i { stage := .closed (some result), told } } := by
    simp [Scheduler.retire, Scheduler.setHandling, line]
  cases told with
  | false =>
    have happens : s.step (.handling i .proceed) =
        some { s with handlings := s.handlings.set i { stage := .closed (some result) } } := by
      rw [Scheduler.step, found, Option.bind_some, Scheduler.onHandling, Scheduler.proceed,
        ← retires s image.line]
      simp only [ends]
    exact ⟨_, _, Scheduler.run_one happens, rfl,
      image.of_handlings happens rfl rfl rfl image.line rfl⟩
  | true =>
    have tells : s.step (.handling i .tell) =
        some (s.setHandling i { stage := .launching d, told := true }) := by
      rw [Scheduler.step, found]
      rfl
    have told := image.of_handlings tells rfl rfl rfl image.line rfl
    have found' : (s.setHandling i { stage := .launching d, told := true }).handlings[i]? =
        some { stage := .launching d, told := true } := List.getElem?_set_self below
    have happens : (s.setHandling i { stage := .launching d, told := true }).step
        (.handling i .proceed) = some { s with
          handlings := s.handlings.set i { stage := .closed (some result), told := true } } := by
      rw [Scheduler.step, found', Option.bind_some, Scheduler.onHandling, Scheduler.proceed]
      simp only [ends, retires _ told.line]
      simp [Scheduler.setHandling]
    exact .of_run (Scheduler.run_one tells) ⟨_, _, Scheduler.run_one happens, rfl,
      told.of_handlings happens rfl rfl rfl image.line rfl⟩

/-- A handling is given up. -/
theorem Image.abandon (image : p.Image next s)
    (found : s.handlings[i]? = some { stage := .launching d }) :
    Follows s (s.handlings.set i { stage := .closed none }) p next := by
  have happens : s.step (.handling i .drop) =
      some { s with handlings := s.handlings.set i { stage := .closed none } } := by
    rw [Scheduler.step, found]
    simp [Scheduler.onHandling, Handling.isOver, Scheduler.retire, Scheduler.setHandling,
      image.line]
  exact ⟨_, _, Scheduler.run_one happens, rfl,
    image.of_handlings happens rfl rfl rfl image.line rfl⟩

end Pod

namespace PodRun

open Pod (Follows)

variable {r : PodRun} {s : Scheduler} {i : Nat} {d : Dispatch}

/-- A job is launched to its end. -/
theorem follows_launch (image : r.pod.Image r.nextActivation s)
    (found : s.handlings[i]? = some { stage := .launching d }) (limit : Nat) :
    ∃ h : Handling, h.stage = .closed (r.launch limit d).1 ∧
      Follows s (s.handlings.set i h) (r.launch limit d).2.pod
        (r.launch limit d).2.nextActivation := by
  induction limit generalizing r s d with
  | zero => exact ⟨_, rfl, image.abandon found⟩
  | succ limit ih =>
    obtain ⟨below, -⟩ := List.getElem?_eq_some_iff.mp found
    obtain ⟨rest, follows, ends⟩ := image.pushSteps found r.isTold r.now
      (2 * d.remaining.length + 3)
    rcases pushed : r.pod.push r.isTold r.now d r.nextActivation with ⟨pod, progress, next⟩
    simp only [launch, pushed]
    rw [Pod.push] at pushed
    rw [pushed] at follows ends
    have at_ {s' : Scheduler}
        (same : s'.handlings = s.handlings.set i { stage := .launching rest }) :
        s'.handlings[i]? = some { stage := .launching rest } ∧
          ∀ h, s'.handlings.set i h = s.handlings.set i h := by
      rw [same]
      exact ⟨List.getElem?_set_self below, fun h => by rw [List.set_set]⟩
    rcases ends with blocked | ⟨result, finished, ends⟩
    · cases blocked
      dsimp only
      split
      · next moment due =>
        obtain ⟨events, s', runs, same, image'⟩ := follows
        obtain ⟨events', s'', runs', same', image''⟩ := image'.finishDue moment
        obtain ⟨found', sets⟩ := at_ (same'.trans same)
        obtain ⟨h, stage, later⟩ :=
          ih (r := { r with pod, nextActivation := next }.advance moment) image'' found'
        refine ⟨h, stage, .of_run runs (.of_run runs' ?_)⟩
        rw [sets] at later
        exact later
      · obtain ⟨events, s', runs, same, image'⟩ := follows
        obtain ⟨found', sets⟩ := at_ same
        refine ⟨{ stage := .closed none }, rfl, .of_run runs ?_⟩
        rw [← sets]
        exact image'.abandon found'
    · cases finished
      obtain ⟨events, s', runs, same, image'⟩ := follows
      obtain ⟨found', sets⟩ := at_ same
      refine ⟨{ stage := .closed (some result), told := r.isTold }, rfl, .of_run runs ?_⟩
      rw [← sets]
      exact image'.conclude found' ends

/-- A message is handled. -/
theorem follows_handle (image : r.pod.Image r.nextActivation s) (body : List UInt8) :
    ∃ h : Handling, h.stage = .closed ((r.handle body).1.map (·.result)) ∧
      Follows s (s.handlings ++ [h]) (r.handle body).2.pod (r.handle body).2.nextActivation := by
  have happens : s.step (.receive body) = some { s with
      handlings := s.handlings ++
        [Handling.ofJob (Dispatch.ofBody r.pod.cluster r.pod.range body)] } := by
    rw [← image.cluster, ← image.range]
    rfl
  have received := image.of_handlings happens rfl rfl rfl image.line rfl
  have runs := Scheduler.run_one happens
  rw [handle]
  cases job : Dispatch.ofBody r.pod.cluster r.pod.range body with
  | error e =>
    rw [job] at runs received
    exact ⟨_, rfl, _, _, runs, rfl, received⟩
  | ok d? =>
    rw [job] at runs received
    cases d? with
    | none => exact ⟨_, rfl, _, _, runs, rfl, received⟩
    | some d =>
      obtain ⟨h, stage, follows⟩ := follows_launch received (i := s.handlings.length) (d := d)
        (by simp [Handling.ofJob]) (d.remaining.length + r.pod.running.length + 2)
      refine ⟨h, ?_, .of_run runs ?_⟩
      · rw [stage]
        dsimp only
        cases (launch (d.remaining.length + r.pod.running.length + 2) r d).1 <;> rfl
      · simpa using follows

theorem follows_drain (image : r.pod.Image r.nextActivation s) :
    Follows s s.handlings r.drain.pod r.drain.nextActivation := by
  rw [drain]
  split
  · exact image.finishDue _
  · exact image.follows

/-- Messages are handled in turn. -/
theorem follows_handleAll (drainBetween : Bool) (image : r.pod.Image r.nextActivation s)
    (bodies : List (List UInt8)) : ∃ handlings : List Handling,
      handlings.map (·.stage) =
        (r.handleAll drainBetween bodies).1.map (fun report => .closed (report.map (·.result))) ∧
      Follows s (s.handlings ++ handlings) (r.handleAll drainBetween bodies).2.pod
        (r.handleAll drainBetween bodies).2.nextActivation ∧
      ∀ report, some report ∈ (r.handleAll drainBetween bodies).1 →
        report.taken ≤ max s.range.size 1 := by
  induction bodies generalizing r s with
  | nil =>
    refine ⟨[], rfl, ?_, fun report listed => by cases listed⟩
    rw [List.append_nil]
    exact follows_drain image
  | cons body rest ih =>
    obtain ⟨h, stage, events, s', runs, same, image'⟩ := follows_handle image body
    have drained : Follows s' s'.handlings
        (if drainBetween then (r.handle body).2.drain else (r.handle body).2).pod
        (if drainBetween then (r.handle body).2.drain else (r.handle body).2).nextActivation := by
      cases drainBetween with
      | false => exact image'.follows
      | true => exact follows_drain image'
    obtain ⟨events', s'', runs', same', image''⟩ := drained
    obtain ⟨handlings, stages, follows, bounded⟩ := ih image''
    refine ⟨h :: handlings, ?_, .of_run runs (.of_run runs' ?_), ?_⟩
    · rw [List.map_cons, stages, stage]
      rfl
    · rw [same', same, List.append_assoc] at follows
      exact follows
    · intro report listed
      have range := Scheduler.range_of_run runs
      rcases List.mem_cons.mp listed with own | later
      · have taken : report.taken = (r.handle body).2.pod.slots.taken := by
          obtain ⟨result, -, rfl⟩ := Option.map_eq_some_iff.mp own.symm
          rfl
        rw [taken, ← image'.slots, ← range, ← image'.kept.capacity]
        exact image'.kept.bounded
      · rw [← range, ← Scheduler.range_of_run runs']
        exact bounded report later

/-- However messages come, a pod in time never has more calls running than processors, nor more
slots taken, and in the end its slots are those of the calls that have not finished. -/
theorem handleAll_bounded (cluster : Nat) (range : ProcessorRun) (handler : TimedHandler)
    (stopAt : Option Nat) (drainBetween : Bool) (bodies : List (List UInt8)) :
    let (reports, r) :=
      ({ pod := Pod.idle cluster range handler, stopAt } : PodRun).handleAll drainBetween bodies
    r.pod.log.peak ≤ range.size ∧ (∀ report, some report ∈ reports → report.taken ≤ range.size) ∧
      r.pod.slots.taken = r.pod.launched.length + r.pod.running.length := by
  have size : max range.size 1 = range.size := Nat.max_eq_left (Nat.succ_pos _)
  obtain ⟨handlings, stages, ⟨events, s, runs, same, image⟩, bounded⟩ :=
    follows_handleAll (r := { pod := Pod.idle cluster range handler, stopAt }) drainBetween
      (Pod.Image.idle cluster range handler) bodies
  have place : s.range = range := Scheduler.range_of_run runs
  have nobody : s.reserved = [] := by
    refine Scheduler.reserved_eq_nil fun h listed => ?_
    rw [same] at listed
    have staged := List.mem_map_of_mem (f := Handling.stage) listed
    rw [List.map_append, stages] at staged
    obtain ⟨report, -, at_⟩ := List.mem_map.mp staged
    rw [Handling.suspended, ← at_]
  refine ⟨?_, fun report listed => size ▸ bounded report listed, ?_⟩
  · refine Nat.le_trans image.peak ?_
    rw [← image.slots, image.kept.capacity, place, size]
  · have taken := image.kept.taken_eq
    have launched := image.launched.length_eq
    have running := image.running.length_eq
    rw [nobody, List.length_nil, Scheduler.unfinished_eq, image.slots] at taken
    rw [List.length_map] at launched
    rw [List.length_map, List.length_map] at running
    omega

end PodRun

end CallDispatch
