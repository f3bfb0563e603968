import CallDispatch.Proofs.Pull.Coverage
import CallDispatch.Pull.Timed

/-!
# Workers in time as a crew

What workers do in time on an allocator is one of the interleavings of a crew: each act of a worker
is a short run of events at its position, and two acts never overlap. A worker is told to stop only
at an act that ends it, so that a crew need not know what the clock says.
-/

namespace CallDispatch

namespace CrewMember

/-- Events at one worker one after the other, if all of them are possible. -/
def runOn (a : Allocator) (m : CrewMember) : List CrewEvent → Option (Allocator × CrewMember)
  | [] => some (a, m)
  | e :: rest =>
    match m.on a e with
    | some (a, m, []) => m.runOn a rest
    | _ => none

end CrewMember

theorem Crew.run_append (c : Crew) (first later : List (Nat × CrewEvent)) :
    c.run (first ++ later) = (c.run first).bind (·.run later) := by
  induction first generalizing c with
  | nil => rfl
  | cons event rest ih =>
    simp only [List.cons_append, Crew.run, bind, Option.bind_assoc, ih]

/-- Events at one worker are events of its crew. -/
theorem Crew.run_of_runOn {c : Crew} {position : Nat} {m m' : CrewMember} {a' : Allocator}
    {events : List CrewEvent} (found : c.members[position]? = some m)
    (runs : m.runOn c.allocator events = some (a', m')) :
    c.run (events.map (position, ·)) =
      some { c with allocator := a', members := c.members.set position m' } := by
  induction events generalizing c m with
  | nil =>
    cases runs
    obtain ⟨lt, rfl⟩ := List.getElem?_eq_some_iff.mp found
    rw [List.set_getElem_self]
    rfl
  | cons e rest ih =>
    rw [CrewMember.runOn] at runs
    split at runs
    · next a middle happens =>
      have first : c.step position e = some
          { allocator := a, members := c.members.set position middle, lost := c.lost ++ [] } := by
        simp only [Crew.step, found, happens, bind, Option.bind_some]
      obtain ⟨lt, -⟩ := List.getElem?_eq_some_iff.mp found
      have later := ih (c := { c with
        allocator := a, members := c.members.set position middle }) (by
          simp only [List.getElem?_set_self lt]) runs
      rw [List.map_cons, Crew.run, first, List.append_nil]
      simp only [bind, Option.bind_some, later, List.set_set]
    · cases runs

namespace TimedWorker

/-- What a worker in time and a worker of a crew have in common between two acts. -/
structure Mirrored (w : TimedWorker) (m : CrewMember) : Prop where
  worker : m.worker = w.worker
  idle : m.errand = .idle
  told : m.told = true → m.worker.result?.isSome
  handed : m.handed.map HandedRange.window = w.log.calls.map Invocation.window

@[simp] theorem noteEnd_worker (w : TimedWorker) : w.noteEnd.worker = w.worker := by
  unfold noteEnd
  split <;> rfl

@[simp] theorem noteEnd_log (w : TimedWorker) : w.noteEnd.log = w.log := by
  unfold noteEnd
  split <;> rfl

@[simp] theorem receive_worker (w : TimedWorker) (answer : Outcome RangeAnswer) :
    (w.receive answer).worker = w.worker.receive answer := by
  simp only [receive]
  split <;> rfl

@[simp] theorem receive_log (w : TimedWorker) (answer : Outcome RangeAnswer) :
    (w.receive answer).log = w.log := by
  simp only [receive]
  split <;> rfl

/-- What is handed over in time is what is handed over, and the log says so. -/
theorem handOver_eq (w : TimedWorker) (start stop : Nat) (activationId : String) :
    (w.handOver start stop activationId).worker =
        (w.worker.handOver start stop activationId).2 ∧
      (w.handOver start stop activationId).log.calls.map Invocation.window =
        w.log.calls.map Invocation.window ++
          (w.worker.handOver start stop activationId).1.toList := by
  rcases handed : w.worker.handOver start stop activationId with ⟨_ | window, worker⟩ <;>
    simp [handOver, handed, HandlerLog.start]

variable {w : TimedWorker} {m : CrewMember}

theorem Mirrored.untold (mirrored : w.Mirrored m) (goesOn : w.worker.result? = none) :
    m.told = false := by
  by_contra told
  have ended := mirrored.told (by simpa using told)
  rw [mirrored.worker, goesOn] at ended
  cases ended

/-- An act of a worker is a run of events of its mirror image. -/
theorem Mirrored.act (mirrored : w.Mirrored m) (told : Bool) (activationId : String)
    (a : Allocator) : ∃ events m', m.runOn a events = some ((w.act told activationId a).2, m') ∧
      (w.act told activationId a).1.Mirrored m' := by
  have same := mirrored.worker
  have idle := mirrored.idle
  have handed := mirrored.handed
  rw [TimedWorker.act]
  split
  · next asking =>
    have untold := mirrored.untold (by simp [Worker.result?, asking])
    split
    · refine ⟨[.tell, .ask], { m with told := true, worker := m.worker.shutDown }, ?_, ?_⟩
      · simp [CrewMember.runOn, CrewMember.on, same, asking, idle]
      · exact ⟨by simp [same], idle, fun _ => rfl, by simpa using handed⟩
    · rcases served : a.request w.worker.payload.jobKey w.worker.payload.totalCalls
        w.worker.payload.requestSize with ⟨answer, after⟩
      have requested : WorkSource.request a w.worker.payload.jobKey w.worker.payload.totalCalls
          w.worker.payload.requestSize = (answer, after) := served
      simp only [requested]
      refine ⟨[.ask, .serve, .arrive], { m with errand := .served answer }.arrived answer, ?_, ?_⟩
      · simp [CrewMember.runOn, CrewMember.on, same, asking, idle, untold, served]
      · exact ⟨by simp [CrewMember.arrived, same], rfl,
          fun told => by simp [CrewMember.arrived, untold] at told,
          by simpa [CrewMember.arrived] using handed⟩
  · next start stop granted =>
    have untold := mirrored.untold (by simp [Worker.result?, granted])
    obtain ⟨worker, log⟩ := handOver_eq w start stop activationId
    refine ⟨[.handOver activationId], m.handedOver start stop activationId, ?_, ?_⟩
    · simp [CrewMember.runOn, CrewMember.on, same, granted]
    · refine ⟨by simp [CrewMember.handedOver, same, worker], idle, fun told => ?_, ?_⟩
      · rw [CrewMember.handedOver, untold] at told
        cases told
      · rw [noteEnd_log, log, CrewMember.handedOver, List.map_append, handed, same, List.map_map]
        exact congrArg _ (List.map_id' _)
  · next start stop running =>
    have untold := mirrored.untold (by simp [Worker.result?, running])
    refine ⟨[.report (w.statusOf start stop)],
      { m with worker := m.worker.report start stop (w.statusOf start stop) }, ?_, ?_⟩
    · simp [CrewMember.runOn, CrewMember.on, same, running]
    · exact ⟨by rw [same], idle, fun told => by simp [untold] at told, handed⟩
  · next pausing =>
    have untold := mirrored.untold (by simp [Worker.result?, pausing])
    split
    · refine ⟨[.tell, .quit], { m with told := true, worker := m.worker.shutDown }, ?_, ?_⟩
      · simp [CrewMember.runOn, CrewMember.on, same, pausing]
      · exact ⟨by simp [same], idle, fun _ => rfl, by simpa using handed⟩
    · refine ⟨[.wake], { m with worker := m.worker.resume }, ?_, ?_⟩
      · simp [CrewMember.runOn, CrewMember.on, same, pausing]
      · exact ⟨by rw [same], idle, fun told => by simp [untold] at told, handed⟩
  · exact ⟨[], m, rfl, mirrored⟩

end TimedWorker

namespace PullRun

/-- A run in time and a crew between two acts. -/
structure Mirrored (r : PullRun Allocator) (c : Crew) : Prop where
  allocator : c.allocator = r.source
  members : List.Forall₂ TimedWorker.Mirrored r.workers c.members
  lost : c.lost = []

/-- Workers in time do what a crew can do. -/
theorem run_mirrored (told : Allocator → Bool) (limit : Nat) {r : PullRun Allocator} {c : Crew}
    (mirrored : r.Mirrored c) :
    ∃ events c', c.run events = some c' ∧ (run told limit r).Mirrored c' := by
  induction limit generalizing r c with
  | zero => exact ⟨[], c, rfl, mirrored⟩
  | succ limit ih =>
    rw [run]
    split
    · exact ⟨[], c, rfl, mirrored⟩
    · next position moment next =>
      split
      · exact ⟨[], c, rfl, mirrored⟩
      · next w listed =>
        obtain ⟨m, found, image⟩ := forall₂_getElem? mirrored.members listed
        obtain ⟨events, m', acts, after⟩ := image.act (w.isToldBy moment || told r.source)
          (Activation.id r.nextActivation) r.source
        rcases acted : w.act (w.isToldBy moment || told r.source) (Activation.id r.nextActivation)
          r.source with ⟨w', a'⟩
        rw [acted] at acts after
        have first := Crew.run_of_runOn found (mirrored.allocator ▸ acts)
        obtain ⟨rest, c', later, same⟩ := ih
          (r := { source := a', workers := r.workers.set position w'
                  nextActivation := r.nextActivation + 1 })
          (c := { c with allocator := a', members := c.members.set position m' })
          ⟨rfl, forall₂_set mirrored.members position after, mirrored.lost⟩
        refine ⟨events.map (position, ·) ++ rest, c', ?_, same⟩
        rw [Crew.run_append, first]
        exact later

/-- Workers in time that have yet to begin are a crew that has yet to begin. -/
theorem mirrored_ofPayloads {r : PullRun Allocator} (begins : ∀ w ∈ r.workers,
    w.worker = { payload := w.worker.payload } ∧ w.log.calls = []) :
    r.Mirrored (Crew.ofPayloads r.source (r.workers.map (·.worker.payload))) where
  allocator := rfl
  members := by
    rw [Crew.ofPayloads, List.map_map]
    refine List.forall₂_map_right_iff.mpr (List.forall₂_same.mpr fun w member => ?_)
    obtain ⟨fresh, empty⟩ := begins w member
    exact {
      worker := fresh.symm
      idle := rfl
      told := fun told => by cases told
      handed := by rw [empty]; rfl }
  lost := rfl

/-- What the handlers of workers in time get, where they are those of a crew on one job: if all come
to an end and one of them because there is no more work, the calls of the job once each. -/
theorem hands_out {workers : List TimedWorker} {c : Crew} {key : String} {total : Nat}
    {payloads : List Payload} {callIds : List String}
    (mirrored : List.Forall₂ TimedWorker.Mirrored workers c.members)
    (sound : c.Sound key total payloads) (kept : c.lost = [])
    (same : ∀ p ∈ payloads, p.callIds = callIds)
    (ended : ∀ w ∈ workers, w.worker.result?.isSome)
    (complete : ∃ w ∈ workers, ∃ tally, w.worker.result? = some (.ok tally)) :
    (workers.flatMap fun w => w.log.calls.flatMap (·.window.callIds)).Perm
      (callIds.take total) := by
  have results : c.members.map (·.worker.result?) = workers.map (·.worker.result?) :=
    map_eq_of_forall₂ (mirrored.imp fun _ _ image => congrArg Worker.result? image.worker)
  have windows : c.handed.map HandedRange.window =
      workers.flatMap fun w => w.log.calls.map (·.window) := by
    have same := map_eq_of_forall₂ (mirrored.imp fun _ _ image => image.handed)
    rw [Crew.handed, List.map_flatMap, List.flatMap_def, List.flatMap_def, same]
  have finish : ∃ m ∈ c.members, ∃ tally, m.worker.result? = some (.ok tally) := by
    obtain ⟨w, member, tally, finished⟩ := complete
    have listed := List.mem_map_of_mem (f := (·.worker.result?)) member
    rw [← results, List.mem_map] at listed
    obtain ⟨m, member, same⟩ := listed
    exact ⟨m, member, tally, same.trans finished⟩
  have quiet : ∀ m ∈ c.members, m.worker.result?.isSome := by
    intro m member
    have listed := List.mem_map_of_mem (f := (·.worker.result?)) member
    rw [results, List.mem_map] at listed
    obtain ⟨w, member, same⟩ := listed
    exact same ▸ ended w member
  have texts : (workers.flatMap fun w => w.log.calls.flatMap (·.window.callIds)) =
      c.handed.flatMap (·.window.callIds) := by
    rw [← List.flatMap_map HandedRange.window, windows, List.flatMap_assoc]
    simp only [List.flatMap_map]
  rw [texts]
  exact sound.callIds_perm same kept finish quiet

/-- Workers in time hand out the calls of their job once each, if all of them come to an end and one
of them because there is no more work. -/
theorem run_hands_out {r : PullRun Allocator} {key : String} {total : Nat} {callIds : List String}
    (fresh : r.source.cursor? key = none)
    (begins : ∀ w ∈ r.workers, w.worker = { payload := w.worker.payload } ∧ w.log.calls = [])
    (jobs : ∀ w ∈ r.workers,
      w.worker.payload.OfJob key total ∧ w.worker.payload.callIds = callIds)
    (told : Allocator → Bool) (limit : Nat)
    (ended : ∀ w ∈ (run told limit r).workers, w.worker.result?.isSome)
    (complete : ∃ w ∈ (run told limit r).workers, ∃ tally, w.worker.result? = some (.ok tally)) :
    ((run told limit r).workers.flatMap fun w => w.log.calls.flatMap (·.window.callIds)).Perm
      (callIds.take total) := by
  obtain ⟨events, c, runs, mirrored⟩ := run_mirrored told limit (mirrored_ofPayloads begins)
  have ofJob : ∀ p ∈ r.workers.map (·.worker.payload), p.OfJob key total := by
    intro p listed
    obtain ⟨w, member, rfl⟩ := List.mem_map.mp listed
    exact (jobs w member).1
  have same : ∀ p ∈ r.workers.map (·.worker.payload), p.callIds = callIds := by
    intro p listed
    obtain ⟨w, member, rfl⟩ := List.mem_map.mp listed
    exact (jobs w member).2
  have sound := Crew.run_sound ofJob (Crew.ofPayloads_sound fresh) runs
  exact hands_out mirrored.members sound mirrored.lost same ended complete

end PullRun

end CallDispatch
