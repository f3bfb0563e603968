import CallDispatch.Proofs.Fanout.Mirror

/-!
# A listener at one moment

Whatever a listener does at a moment is a run of events at its station and its calls: it begins,
takes messages, launches calls and hands them over, gets slots back, and leaves.
-/

namespace CallDispatch

namespace Dispatch

/-- An end does not depend on a slot, and one that is not a shutdown not on the token either. -/
theorem step_finished {d : Dispatch} {told told' free : Bool} {result : Outcome Dispatched}
    (ends : d.step told free = .finished result)
    (same : told' = told ∨ result ≠ .error .shutdown) (free' : Bool) :
    d.step told' free' = .finished result := by
  rw [step] at ends ⊢
  split at ends
  · exact ends
  · next index remaining some =>
    split at ends
    · next e single => simpa only [single] using ends
    · next call single =>
      cases told with
      | true =>
        cases ends
        have stays := same.resolve_right fun uncut => uncut rfl
        simp only [stays, if_pos]
      | false => cases free <;> cases ends

theorem ending_untold {told free : Bool} {job : Outcome (Option Dispatch)}
    {result : Outcome Dispatched} (ending : ending? told free job = some result)
    (uncut : result ≠ .error .shutdown) : ending? false free job = some result := by
  rcases job with e | _ | d
  · exact ending
  · exact ending
  · rw [ending?] at ending ⊢
    split at ending
    · next result' ends =>
      cases ending
      rw [step_finished ends (.inr uncut)]
    · cases ending

end Dispatch

namespace Pod

/-- Handing over a call does not depend on which calls are still to be handed over. -/
theorem start_launched (p : Pod) (now : Nat) (c : LaunchedCall) (launched : List LaunchedCall) :
    { p with launched }.start now c = { p.start now c with launched } := by
  -- Both sides ask the handler the same question.
  cases duration : p.handler.duration c.call with
  | zero =>
    simp only [start, duration]
    rfl
  | succ n => simp only [start, duration]

end Pod

namespace Listening

variable {layout : Layout} {sent : List (List UInt8)} {listeners : List Listener}
  {broker broker' : Broker (List UInt8)} {next : Nat} {f f' : Fleet} {i : Nat} {l : Listener}

/-- Events that leave all calls as they are. -/
theorem Mirrored.step {st st' : Station} {l' : Listener}
    (mirrored : Mirrored layout sent (listeners.set i l) broker next f)
    (found : f.stations[i]? = some st) {events : List FleetEvent}
    (runs : f.run layout events = some f') (stations : f'.stations = f.stations.set i st')
    (published : f'.published = f.published) (holds : f'.broker = broker')
    (calls : f'.calls = f.calls) (image : l'.Image layout f i st') :
    Follows layout sent f (listeners.set i l') broker' next := by
  have tasks : ∀ j stage, f'.tasks j stage = f.tasks j stage := fun j stage => by
    rw [Fleet.tasks, Fleet.tasks, calls]
  have image' : l'.Image layout f' i st' := {
    image with
    launched := (tasks i _).symm ▸ image.launched
    running := (tasks i _).symm ▸ image.running
    log := by
      rw [tasks, tasks]
      exact image.log }
  exact .of_run runs (mirrored.update found stations (published.trans mirrored.sent) holds
    (calls ▸ mirrored.next) (fun j _ stage => .of_eq (tasks j stage)) image').follows

theorem Mirrored.begin (inside : i < listeners.length)
    (mirrored : Mirrored layout sent (listeners.set i l) broker next f) (now : Nat) :
    Follows layout sent f (listeners.set i (l.begin now broker).1) (l.begin now broker).2 next := by
  rw [Listener.begin]
  split
  · next idle =>
    split
    · obtain ⟨st, found, image⟩ := mirrored.image inside
      have duty := (idle ▸ image.duty).of_idle
      have queue : st.site.queue = l.queue := by rw [image.site]; rfl
      rcases subscribed : broker.subscribe l.exchange l.queue with ⟨answer, broker'⟩
      cases answer with
      | error e =>
        have happens : f.step layout (.station i .begin) =
            some ((f.withBroker broker').setStation i { st with duty := .ended (.error e) }) := by
          simp [Fleet.step, found, Fleet.onStation, duty, Duty.isOn, mirrored.broker,
            ← image.exchange, queue, subscribed]
        refine mirrored.step found (Fleet.run_one happens) rfl rfl rfl rfl ?_
        exact { image with
          untold := fun on => by cases on
          fresh := fun idle => by cases idle
          duty := .ended _ now }
      | ok s =>
        have happens : f.step layout (.station i .begin) =
            some ((f.withBroker broker').setStation i
              { st with duty := .listening, stats := {}, told := false }) := by
          simp [Fleet.step, found, Fleet.onStation, duty, Duty.isOn, mirrored.broker,
            ← image.exchange, queue, subscribed]
        refine mirrored.step found (Fleet.run_one happens) rfl rfl rfl rfl ?_
        have consumer : layout.consumer l.site = s := by
          rw [Broker.consumer_of_subscribe subscribed, image.exchange]
          rfl
        exact { image with
          stats := (image.fresh idle).symm
          untold := fun _ => rfl
          fresh := fun idle => by cases idle
          duty := consumer ▸ .listening }
    · exact mirrored.follows
  · exact mirrored.follows

/-- A listener that has been told to stop leaves between two messages. -/
theorem Mirrored.stop {s : Consumer} (inside : i < listeners.length)
    (mirrored : Mirrored layout sent (listeners.set i l) broker next f)
    (phase : l.phase = .listening s) (now : Nat) :
    Follows layout sent f (listeners.set i (l.stop s now broker).1) (l.stop s now broker).2
      next := by
  obtain ⟨st, found, image⟩ := mirrored.image inside
  obtain ⟨rfl, duty⟩ := (phase ▸ image.duty).of_listening
  obtain ⟨below, -⟩ := List.getElem?_eq_some_iff.mp found
  have told : f.step layout (.station i .tell) =
      some (f.setStation i { st with told := true }) := by
    rw [Fleet.step, found]
    rfl
  have leaves : (f.setStation i { st with told := true }).step layout (.station i .leave) =
      some ((f.setStation i { st with told := true }).discharge layout i
        { st with told := true }) := by
    simp [Fleet.step, Fleet.setStation, below, Fleet.onStation, duty]
  have holds : f.broker.drop (layout.consumer st.site) = broker.drop (layout.consumer l.site) := by
    rw [mirrored.broker, image.site]
  have image' : (l.stop (layout.consumer l.site) now broker).1.Image layout f i
      { st with told := true, duty := .ended (.ok st.stats) } := {
    image with
    untold := fun on => by cases on
    fresh := fun idle => by cases idle
    duty := image.stats ▸ .ended _ now }
  exact mirrored.step found (Fleet.run_concat (Fleet.run_one told) leaves) (List.set_set _) rfl
    holds rfl image'

/-- The dispatch of a message has come to an end, at once after it was taken or later. -/
theorem Mirrored.settle {st : Station} {g : Fleet} {events : List FleetEvent} {message : Nat}
    {job : Outcome (Option Dispatch)} {told : Bool} {result : Outcome Dispatched} {s : Consumer}
    (mirrored : Mirrored layout sent (listeners.set i l) broker next f)
    (found : f.stations[i]? = some st) (image : l.Image layout f i st)
    (consumer : s = layout.consumer l.site) (untold : st.told = false)
    (runs : f.run layout events = some g)
    (stations : g.stations = f.stations.set i { st with duty := .working message job })
    (published : g.published = f.published) (holds : g.broker = broker')
    (calls : g.calls = f.calls)
    (ending : Dispatch.ending? told st.slots.hasFree job = some result) (now : Nat) :
    Follows layout sent f (listeners.set i (l.settle s result now broker').1)
      (l.settle s result now broker').2 next := by
  subst consumer
  obtain ⟨below, -⟩ := List.getElem?_eq_some_iff.mp found
  rw [Listener.settle]
  cases counted : l.stats.count? result with
  | some stats =>
    have ending' := Dispatch.ending_untold ending (by rintro rfl; cases counted)
    have concludes : g.step layout (.station i .conclude) =
        some ((g.judge ⟨st.site, message, result⟩).setStation i
          { st with duty := .listening, stats }) := by
      simp [Fleet.step, stations, below, Fleet.onStation, untold, ending', image.stats, counted]
    have last : ((g.judge ⟨st.site, message, result⟩).setStation i
        { st with duty := .listening, stats }).stations =
        f.stations.set i { st with duty := .listening, stats } := by
      simp [Fleet.setStation, Fleet.judge, stations]
    refine mirrored.step found (Fleet.run_concat runs concludes) last published holds calls ?_
    exact { image with
      stats := rfl
      untold := fun _ => untold
      fresh := fun idle => by cases idle
      duty := .listening }
  | none =>
    -- The token counts only now, where it ends the listener.
    obtain ⟨events', h, runs', stations', published', holds', calls'⟩ :
        ∃ events' h, f.run layout events' = some h ∧
          h.stations = f.stations.set i { st with duty := .working message job, told } ∧
          h.published = f.published ∧ h.broker = broker' ∧ h.calls = f.calls := by
      cases told with
      | false => exact ⟨events, g, runs, untold ▸ stations, published, holds, calls⟩
      | true =>
        refine ⟨_, _, Fleet.run_concat runs (?_ : g.step layout (.station i .tell) = some
          (g.setStation i { st with duty := .working message job, told := true })), ?_,
          published, holds, calls⟩
        · simp [Fleet.step, stations, below, Fleet.onStation]
        · simp [Fleet.setStation, stations]
    have concludes : h.step layout (.station i .conclude) =
        some ((h.judge ⟨st.site, message, result⟩).discharge layout i
          { st with duty := .working message job, told }) := by
      simp [Fleet.step, stations', below, Fleet.onStation, ending, image.stats, counted]
    have last : ((h.judge ⟨st.site, message, result⟩).discharge layout i
        { st with duty := .working message job, told }).stations =
        f.stations.set i { st with duty := .ended (.ok st.stats), told } := by
      simp [Fleet.discharge, Fleet.setStation, Fleet.withBroker, Fleet.judge, stations']
    refine mirrored.step found (Fleet.run_concat runs' concludes) last published' ?_ calls' ?_
    · rw [← holds', ← image.site]
      rfl
    · exact { image with
        untold := fun on => by cases on
        fresh := fun idle => by cases idle
        duty := image.stats ▸ .ended _ now }

/-- A message arrives and is taken up, or dealt with at once. -/
theorem Mirrored.receive {s : Consumer} {body : List UInt8} (inside : i < listeners.length)
    (mirrored : Mirrored layout sent (listeners.set i l) broker next f)
    (phase : l.phase = .listening s) (waiting : broker.next s = (some body, broker')) (now : Nat) :
    Follows layout sent f (listeners.set i (l.receive s body now broker').1)
      (l.receive s body now broker').2 next := by
  obtain ⟨st, found, image⟩ := mirrored.image inside
  obtain ⟨rfl, duty⟩ := (phase ▸ image.duty).of_listening
  have untold := image.untold (by rw [duty]; rfl)
  have takes : f.step layout (.station i .take) = some ((f.withBroker broker').setStation i
      { st with
        duty := .working (f.next layout st.site)
          (Dispatch.ofBody l.pod.cluster l.pod.range body) }) := by
    have range : st.site.range = l.pod.range := by rw [image.site]; rfl
    simp [Fleet.step, found, Fleet.onStation, duty, mirrored.broker, image.site, waiting,
      image.cluster, ← range]
  rw [Listener.receive]
  have runs := Fleet.run_one takes
  cases job : Dispatch.ofBody l.pod.cluster l.pod.range body with
  | error e =>
    rw [job] at runs
    exact mirrored.settle found image rfl untold runs rfl rfl rfl rfl
      (rfl : Dispatch.ending? false _ _ = _) now
  | ok d? =>
    rw [job] at runs
    cases d? with
    | none =>
      exact mirrored.settle found image rfl untold runs rfl rfl rfl rfl
        (rfl : Dispatch.ending? false _ _ = _) now
    | some d =>
      refine mirrored.step found runs rfl rfl rfl rfl ?_
      exact { image with
        untold := fun _ => untold
        fresh := fun idle => by cases idle
        duty := .dispatching d _ }

/-! ## The calls of a pod -/

variable {p : Pod}

/-- It does not matter in which order a pod's calls are listed. -/
theorem Mirrored.perm {running running' : List RunningCall} (inside : i < listeners.length)
    (mirrored : Mirrored layout sent (listeners.set i { l with pod := { p with running } }) broker
      next f) (perm : running.Perm running') :
    Mirrored layout sent (listeners.set i { l with pod := { p with running := running' } }) broker
      next f := by
  obtain ⟨st, found, image⟩ := mirrored.image inside
  obtain ⟨below, same⟩ := List.getElem?_eq_some_iff.mp found
  refine mirrored.update found (same ▸ (List.set_getElem_self below).symm) mirrored.sent
    mirrored.broker mirrored.next (fun _ _ _ => .refl _) ?_
  exact { image with running := image.running.trans (perm.map _) }

/-- A call finishes and gives its slot back. -/
theorem Mirrored.finishCall {c : RunningCall} {rest : List RunningCall}
    (inside : i < listeners.length) (mirrored : Mirrored layout sent
      (listeners.set i { l with pod := { p with running := c :: rest } }) broker next f) :
    Follows layout sent f
      (listeners.set i { l with pod := { p.giveBack c.guard with running := rest } }) broker
      next := by
  obtain ⟨st, found, image⟩ := mirrored.image inside
  obtain ⟨below, same⟩ := List.getElem?_eq_some_iff.mp found
  obtain ⟨⟨guard, window⟩, listed, guarded⟩ : ∃ task ∈ f.tasks i .running, task.1 = c.guard :=
    List.mem_map.mp (image.running.mem_iff.mpr List.mem_cons_self)
  obtain ⟨n, r, at_, rfl, stage, rfl, rfl⟩ := Fleet.mem_tasks listed
  have ne : CallStage.finished ≠ r.stage := by
    rw [stage]
    decide
  have happens : f.step layout (.call n .finish) =
      some ((f.setCall n { r with stage := .finished }).setStation r.station
        { st with slots := st.slots.release r.guard }) := by
    simp [Fleet.step, at_, Fleet.onCall, stage, found]
  have leaves := Fleet.tasks_leave at_ ne
  have enters := Fleet.tasks_enter at_ ne
  rw [stage] at leaves
  refine .of_run (Fleet.run_one happens) (Mirrored.follows ?_)
  refine mirrored.update found rfl mirrored.sent mirrored.broker ?_
    (fun j ne stage => Fleet.tasks_aside at_ (.inl ne.symm)) ?_
  · exact (List.length_set ..).trans mirrored.next
  · exact { image with
      slots := by
        change st.slots.release (r.guard, r.window).1 = p.slots.release c.guard
        rw [guarded, image.slots]
      launched := (Fleet.tasks_aside at_ (.inr ⟨by rw [stage]; decide, by decide⟩)).trans
        image.launched
      running := by
        have perm := (leaves.map Prod.fst).symm.trans image.running
        rw [List.map_cons, List.map_cons, guarded] at perm
        exact perm.cons_inv
      log := by
        refine List.Perm.trans (List.Perm.map _ ?_) image.log
        exact (enters.append_left _).trans (List.perm_middle.trans (leaves.symm.append_right _)) }

/-- The handler gets a call. -/
theorem Mirrored.startCall {c : LaunchedCall} {rest : List LaunchedCall}
    (inside : i < listeners.length) (mirrored : Mirrored layout sent
      (listeners.set i { l with pod := { p with launched := c :: rest } }) broker next f)
    (now : Nat) :
    Follows layout sent f
      (listeners.set i { l with pod := { p with launched := rest }.start now c }) broker next := by
  obtain ⟨st, found, image⟩ := mirrored.image inside
  obtain ⟨below, same⟩ := List.getElem?_eq_some_iff.mp found
  have listed : (c.guard, c.call) ∈ f.tasks i .launched :=
    image.launched.mem_iff.mpr List.mem_cons_self
  obtain ⟨n, r, at_, rfl, stage, guarded, handed⟩ := Fleet.mem_tasks listed
  have ne : CallStage.running ≠ r.stage := by
    rw [stage]
    decide
  have happens : f.step layout (.call n .start) =
      some (f.setCall n { r with stage := .running }) := by
    simp [Fleet.step, at_, Fleet.onCall, stage]
  have leaves := Fleet.tasks_leave at_ ne
  have enters := Fleet.tasks_enter at_ ne
  have aside : ((f.setCall n { r with stage := .running }).tasks r.station .finished).Perm
      (f.tasks r.station .finished) :=
    Fleet.tasks_aside at_ (.inr ⟨by rw [stage]; decide, by decide⟩)
  rw [stage] at leaves
  have shown : (r.guard, r.window) = (c.guard, c.call) := by rw [guarded, handed]
  rw [shown] at leaves enters
  have started (finishAt : Nat) : Mirrored layout sent (listeners.set r.station
      { l with pod := { p with
        launched := rest
        running := ⟨c.guard, finishAt⟩ :: p.running
        log := p.log.start now c.call } }) broker next
      (f.setCall n { r with stage := .running }) := by
    refine mirrored.update found (same ▸ (List.set_getElem_self below).symm) mirrored.sent
      mirrored.broker ((List.length_set ..).trans mirrored.next)
      (fun j ne stage => Fleet.tasks_aside at_ (.inl ne.symm)) ?_
    exact { image with
      launched := (leaves.symm.trans image.launched).cons_inv
      running := (enters.map _).trans (image.running.cons _)
      log := by
        refine (((enters.append aside).map _).trans (image.log.cons _)).trans ?_
        rw [HandlerLog.start]
        simp only [List.map_append, List.map_singleton]
        exact (List.perm_append_singleton _ _).symm }
  refine .of_run (Fleet.run_one happens) ?_
  rw [Pod.start]
  split
  · exact Mirrored.finishCall (p := { p with
      launched := rest
      log := p.log.start now c.call }) inside (started 0)
  · exact ((started _).perm inside (List.perm_append_singleton _ _).symm).follows

theorem Mirrored.startCalls {calls : List LaunchedCall} (inside : i < listeners.length)
    (mirrored : Mirrored layout sent
      (listeners.set i { l with pod := { p with launched := calls } }) broker next f) (now : Nat) :
    Follows layout sent f (listeners.set i
      { l with pod := calls.foldl (fun p c => p.start now c) { p with launched := [] } }) broker
      next := by
  induction calls generalizing p f with
  | nil => exact mirrored.follows
  | cons c rest ih =>
    refine (mirrored.startCall inside now).trans fun f' mirrored' => ?_
    rw [Pod.start_launched] at mirrored'
    have later := ih mirrored'
    rwa [List.foldl_cons, Pod.start_launched]

/-- All launched calls are handed over. -/
theorem Mirrored.startLaunched (inside : i < listeners.length)
    (mirrored : Mirrored layout sent (listeners.set i { l with pod := p }) broker next f)
    (now : Nat) :
    Follows layout sent f (listeners.set i { l with pod := p.startLaunched now }) broker next :=
  Mirrored.startCalls inside mirrored now

theorem Mirrored.finishCalls {due rest : List RunningCall} (inside : i < listeners.length)
    (mirrored : Mirrored layout sent
      (listeners.set i { l with pod := { p with running := due ++ rest } }) broker next f) :
    Follows layout sent f (listeners.set i
      { l with pod := due.foldl (fun p c => p.giveBack c.guard) { p with running := rest } }) broker
      next := by
  induction due generalizing p f with
  | nil => exact mirrored.follows
  | cons c due ih =>
    refine (mirrored.finishCall inside).trans fun f' mirrored' => ?_
    exact ih mirrored'

/-- The calls that are due finish. -/
theorem Mirrored.finishDue (inside : i < listeners.length)
    (mirrored : Mirrored layout sent (listeners.set i { l with pod := p }) broker next f)
    (now : Nat) :
    Follows layout sent f (listeners.set i { l with pod := p.finishDue now }) broker next := by
  rw [Pod.finishDue, List.partition_eq_filter_filter]
  have listed := (List.filter_append_perm (fun c : RunningCall => decide (c.finishAt ≤ now))
    p.running).symm
  exact Mirrored.finishCalls inside (Mirrored.perm (p := p) inside mirrored listed)

/-- A pod launches a call. -/
theorem Mirrored.launchCall {s : Consumer} {d rest : Dispatch} {told : Bool} {call : Payload}
    {guard : Nat} {slots : Slots} (inside : i < listeners.length)
    (mirrored : Mirrored layout sent
      (listeners.set i { l with pod := p, phase := .dispatching s d }) broker next f)
    (launches : d.step told p.slots.hasFree = .launch call rest)
    (took : p.slots.take = (some guard, slots)) :
    Follows layout sent f (listeners.set i
      { l with
        pod := { p with
          slots
          launched := p.launched ++ [⟨guard, call.withActivation (p.ids next)⟩] }
        phase := .dispatching s rest }) broker (next + 1) := by
  obtain ⟨st, found, image⟩ := mirrored.image inside
  obtain ⟨consumer, message, duty⟩ := image.duty.of_dispatching
  have untold := image.untold (by rw [duty]; rfl)
  obtain ⟨index, remaining, first, -, rfl, -, -⟩ := Fleet.step_eq_launch launches
  rw [show p.slots = st.slots from image.slots.symm] at launches took
  obtain ⟨c, station, stage, guarded, window, happens⟩ : ∃ c : CallRecord, c.station = i ∧
      c.stage = .launched ∧ c.guard = guard ∧
      c.window = call.withActivation (p.ids next) ∧
      f.step layout (.station i .launch) = some ((f.record c).setStation i
        { st with slots, duty := .working message (.ok (some rest)) }) := by
    refine ⟨⟨⟨st.site, message, index, call.withActivation (p.ids next)⟩, i, guard,
      .launched⟩, rfl, rfl, rfl, rfl, ?_⟩
    simp [Fleet.step, found, Fleet.onStation, duty, first, untold, launches, took, mirrored.next,
      show p.ids = layout.ids from image.ids]
  have aside (stage' : CallStage) (ne : c.stage ≠ stage') :
      (f.record c).tasks i stage' = f.tasks i stage' := by
    rw [Fleet.tasks_record, CallRecord.taskAt_of_stage_ne ne, List.append_nil]
  have own : (f.record c).tasks i .launched = f.tasks i .launched ++ [(c.guard, c.window)] := by
    rw [Fleet.tasks_record, ← station, ← stage, c.taskAt_self]
  refine .of_run (Fleet.run_one happens) (Mirrored.follows ?_)
  refine mirrored.update found rfl mirrored.sent mirrored.broker ?_ (fun j ne stage' => ?_) ?_
  · exact List.length_append.trans (congrArg (· + 1) mirrored.next)
  · refine .of_eq ((Fleet.tasks_record ..).trans ?_)
    rw [CallRecord.taskAt_of_station_ne (fun same => ne (same.symm.trans station)),
      List.append_nil]
  · have running := aside .running (by rw [stage]; decide)
    have finished := aside .finished (by rw [stage]; decide)
    exact { image with
      slots := rfl
      untold := fun _ => untold
      fresh := fun idle => by cases idle
      duty := consumer ▸ .dispatching rest message
      launched := by
        change ((f.record c).tasks i .launched).Perm _
        rw [own, guarded, window, List.map_append]
        exact image.launched.append_right _
      running := by
        change (((f.record c).tasks i .running).map _).Perm _
        rw [running]
        exact image.running
      log := by
        change (((f.record c).tasks i .running ++ (f.record c).tasks i .finished).map _).Perm _
        rw [running, finished]
        exact image.log }

/-- A pod gets on with a job as far as possible at one moment. -/
theorem Mirrored.pushSteps {s : Consumer} {d : Dispatch} (inside : i < listeners.length)
    (mirrored : Mirrored layout sent
      (listeners.set i { l with pod := p, phase := .dispatching s d }) broker next f)
    (told : Bool) (now limit : Nat) :
    ∃ rest, Follows layout sent f (listeners.set i
        { l with
          pod := (p.pushSteps told now limit d next).1
          phase := .dispatching s rest }) broker (p.pushSteps told now limit d next).2.2 ∧
      ((p.pushSteps told now limit d next).2.1 = .blocked rest ∨
        ∃ result, (p.pushSteps told now limit d next).2.1 = .finished result ∧
          ∀ free, rest.step told free = .finished result) := by
  induction limit generalizing p d next f with
  | zero => exact ⟨d, mirrored.follows, .inl rfl⟩
  | succ limit ih =>
    rw [Pod.pushSteps]
    split
    · next result ends =>
      exact ⟨d, Mirrored.startLaunched (l := { l with phase := .dispatching s d }) (p := p) inside
        mirrored now, .inr ⟨result, rfl, fun free => Dispatch.step_finished ends (.inl rfl) free⟩⟩
    · next call rest launches =>
      split
      · next guard slots took =>
        obtain ⟨events, f', runs, mirrored'⟩ := mirrored.launchCall inside launches took
        obtain ⟨rest', follows, ends⟩ := ih mirrored'
        exact ⟨rest', .of_run runs follows, ends⟩
      · exact ⟨d, mirrored.follows, .inl rfl⟩
    · split
      · exact ⟨d, mirrored.follows, .inl rfl⟩
      · obtain ⟨events, f', runs, mirrored'⟩ := Mirrored.startLaunched
          (l := { l with phase := .dispatching s d }) (p := p) inside mirrored now
        obtain ⟨rest', follows, ends⟩ := ih mirrored'
        exact ⟨rest', .of_run runs follows, ends⟩

/-- A listener gets as far as it can. -/
theorem Mirrored.act (inside : i < listeners.length)
    (mirrored : Mirrored layout sent (listeners.set i l) broker next f) (now limit : Nat) :
    Follows layout sent f (listeners.set i (l.act now limit broker next).1)
      (l.act now limit broker next).2.1 (l.act now limit broker next).2.2 := by
  induction limit generalizing l broker next f with
  | zero => exact mirrored.follows
  | succ limit ih =>
    rw [Listener.act]
    split
    · next s phase =>
      split
      · exact mirrored.stop inside phase now
      · split
        · exact mirrored.follows
        · next body broker' waiting =>
          exact (mirrored.receive inside phase waiting now).trans fun _ mirrored' => ih mirrored'
    · next s d phase =>
      have same : l = { l with phase := .dispatching s d } := by rw [← phase]
      rw [same] at mirrored
      obtain ⟨rest, follows, ends⟩ := Mirrored.pushSteps inside mirrored (l.isTold now) now
        (2 * d.remaining.length + 3)
      rcases pushed : l.pod.push (l.isTold now) now d next with ⟨pod, progress, next'⟩
      rw [Pod.push] at pushed
      rw [pushed] at follows ends
      rcases ends with blocked | ⟨result, finished, ends⟩
      · cases blocked
        exact follows
      · cases finished
        refine follows.trans fun f' mirrored' => ?_
        obtain ⟨st, found, image⟩ := mirrored'.image inside
        obtain ⟨consumer, message, duty⟩ := image.duty.of_dispatching
        obtain ⟨below, at_⟩ := List.getElem?_eq_some_iff.mp found
        have stays : f'.stations =
            f'.stations.set i { st with duty := .working message (.ok (some rest)) } := by
          rw [← duty, ← at_, List.set_getElem_self]
        have ending : Dispatch.ending? (l.isTold now) st.slots.hasFree (.ok (some rest)) =
            some result := by rw [Dispatch.ending?, ends]
        have settled := mirrored'.settle found image consumer (image.untold (by rw [duty]; rfl))
          (rfl : f'.run layout [] = some f') stays rfl mirrored'.broker rfl ending now
        exact settled.trans fun _ mirrored'' => ih mirrored''
    · exact mirrored.follows

end Listening

end CallDispatch
