import CallDispatch.Proofs.Pull.Coverage
import CallDispatch.Proofs.Pull.Schedule

/-!
# Jobs side by side

Workers of several jobs ask one allocator. A worker sees nothing of the allocator but the cursor of
its job key, and moves no other. So the workers of one job do what they would do if nobody else had
asked, provided that the jobs have different job keys. A job key joins two identifiers with a dash,
and either of them can have dashes of its own, so two jobs can have the same one.
-/

namespace CallDispatch

/-! ## Joined keys -/

/-- What moves between two identifiers that are joined to the same key. -/
theorem piece_of_append {executorId jobId executorId' jobId' : String} {moved : List Char}
    (front : executorId'.toList = executorId.toList ++ moved)
    (back : '-' :: jobId.toList = moved ++ '-' :: jobId'.toList) :
    (executorId = executorId' ∧ jobId = jobId') ∨
      ∃ piece, executorId' = executorId ++ "-" ++ piece ∧ jobId = piece ++ "-" ++ jobId' := by
  cases moved with
  | nil =>
    rw [List.append_nil] at front
    exact .inl ⟨(String.toList_injective front).symm,
      String.toList_injective (List.cons.inj back).2⟩
  | cons c piece =>
    obtain ⟨rfl, later⟩ := List.cons.inj back
    refine .inr ⟨String.ofList piece, ?_, ?_⟩
    · apply String.toList_injective
      simp [front]
    · apply String.toList_injective
      simpa using later

/-- Two jobs have the same joined key exactly if a piece with a dash has moved from one identifier
to the other. -/
theorem joinedJobKey_eq_iff {executorId jobId executorId' jobId' : String} :
    joinedJobKey executorId jobId = joinedJobKey executorId' jobId' ↔
      (executorId = executorId' ∧ jobId = jobId') ∨
      (∃ piece, executorId' = executorId ++ "-" ++ piece ∧ jobId = piece ++ "-" ++ jobId') ∨
      (∃ piece, executorId = executorId' ++ "-" ++ piece ∧ jobId' = piece ++ "-" ++ jobId) := by
  constructor
  · intro same
    have chars := congrArg String.toList same
    have dash : "-".toList = ['-'] := rfl
    simp only [joinedJobKey, String.toList_append, dash, List.append_assoc, List.singleton_append,
      List.append_eq_append_iff] at chars
    rcases chars with ⟨moved, front, back⟩ | ⟨moved, front, back⟩
    · exact (piece_of_append front back).imp_right .inl
    · rcases piece_of_append front back with ⟨executor, job⟩ | moved
      · exact .inl ⟨executor.symm, job.symm⟩
      · exact .inr (.inr moved)
  · rintro (⟨rfl, rfl⟩ | ⟨piece, rfl, rfl⟩ | ⟨piece, rfl, rfl⟩)
    · rfl
    · simp only [joinedJobKey, String.append_assoc]
    · simp only [joinedJobKey, String.append_assoc]

/-- Where no executor, or no job, has a dash in its identifier, different jobs have different
keys. -/
theorem joinedJobKey_inj {executorId jobId executorId' jobId' : String}
    (plain : ('-' ∉ executorId.toList ∧ '-' ∉ executorId'.toList) ∨
      ('-' ∉ jobId.toList ∧ '-' ∉ jobId'.toList))
    (same : joinedJobKey executorId jobId = joinedJobKey executorId' jobId') :
    executorId = executorId' ∧ jobId = jobId' := by
  rcases joinedJobKey_eq_iff.mp same with equal | ⟨piece, rfl, rfl⟩ | ⟨piece, rfl, rfl⟩
  · exact equal
  · simp at plain
  · simp at plain

/-- A payload whose job key is the joined one: it is set to that or left empty. -/
def Payload.IsDerived (p : Payload) : Prop :=
  p.jobKeyField = "" ∨ p.jobKeyField = joinedJobKey p.executorId p.jobId

theorem Payload.jobKey_of_isDerived {p : Payload} (derived : p.IsDerived) :
    p.jobKey = joinedJobKey p.executorId p.jobId := by
  rcases derived with empty | joined
  · rw [jobKey, empty]
    rfl
  · rw [jobKey, joined, ite_self]

/-- A numbered payload has the joined key. -/
theorem Payload.isDerived_numbered (executorId jobId : String) (calls : Nat) :
    (numbered executorId jobId calls).IsDerived := .inr rfl

/-- Whether two payloads are of one job. -/
def Payload.sameJob (p q : Payload) : Bool :=
  q.executorId == p.executorId && q.jobId == p.jobId

theorem Payload.sameJob_iff {p q : Payload} :
    p.sameJob q = true ↔ q.executorId = p.executorId ∧ q.jobId = p.jobId := by
  simp [sameJob]

/-! ## Workers that see one cursor -/

namespace CrewMember

variable {a a' b : Allocator} {m m' : CrewMember} {e : CrewEvent} {lost : List Span}

/-- An event that is not the allocator's is the same whatever the allocator. -/
theorem on_eq_map (other : e ≠ .serve) (a b : Allocator) :
    m.on a e = (m.on b e).map fun after => (a, after.2) := by
  cases e with
  | serve => exact absurd rfl other
  | tell => rfl
  | ask | refuse | lose | quit =>
    simp only [on]
    split
    · split <;> rfl
    · rfl
  | arrive | handOver | report | wake =>
    simp only [on]
    split <;> rfl

/-- An event is the allocator's, or leaves it alone and is the same whatever it is. -/
theorem on_cases (happens : m.on a e = some (a', m', lost)) :
    (e = .serve ∧ m.errand = .sent ∧ lost = [] ∧
      a' = (a.request m.worker.payload.jobKey m.worker.payload.totalCalls
        m.worker.payload.requestSize).2 ∧
      m' = { m with errand := .served (a.request m.worker.payload.jobKey
        m.worker.payload.totalCalls m.worker.payload.requestSize).1 }) ∨
    (a' = a ∧ ∀ b, m.on b e = some (b, m', lost)) := by
  by_cases serves : e = .serve
  · subst serves
    simp only [on] at happens
    split at happens
    · next sent =>
      cases happens
      exact .inl ⟨rfl, sent, rfl, rfl, rfl⟩
    · cases happens
  · rw [on_eq_map serves a a] at happens
    obtain ⟨after, found, same⟩ := Option.map_eq_some_iff.mp happens
    obtain ⟨rfl, moved⟩ := Prod.mk.inj same
    refine .inr ⟨rfl, fun b => ?_⟩
    rw [on_eq_map serves b a, found, Option.map_some, moved]

theorem receive_payload (w : Worker) (answer : Outcome RangeAnswer) :
    (w.receive answer).payload = w.payload := by
  unfold Worker.receive
  split
  · rfl
  · rfl
  · split <;> rfl

theorem handOver_payload (w : Worker) (start stop : Nat) (activationId : String) :
    (w.handOver start stop activationId).2.payload = w.payload := by
  unfold Worker.handOver
  split <;> rfl

/-- A worker keeps its payload. -/
theorem on_payload (happens : m.on a e = some (a', m', lost)) :
    m'.worker.payload = m.worker.payload := by
  cases e with
  | tell =>
    cases happens
    rfl
  | ask | refuse | lose | quit =>
    simp only [on] at happens
    split at happens
    · split at happens
      all_goals cases happens
      all_goals first
        | rfl
        | exact receive_payload _ _
    · cases happens
  | serve | arrive | handOver | report | wake =>
    simp only [on] at happens
    split at happens
    · cases happens
      first
        | rfl
        | exact receive_payload _ _
        | exact handOver_payload _ _ _ _
    · cases happens

/-- A worker sees nothing of the allocator but the cursor of its key. -/
theorem on_of_cursor (happens : m.on a e = some (a', m', lost))
    (same : a.cursor? m.worker.payload.jobKey = b.cursor? m.worker.payload.jobKey) :
    ∃ b', m.on b e = some (b', m', lost) ∧
      a'.cursor? m.worker.payload.jobKey = b'.cursor? m.worker.payload.jobKey := by
  rcases on_cases happens with ⟨rfl, sent, rfl, rfl, rfl⟩ | ⟨rfl, anywhere⟩
  · -- A worker never asks for nothing, so the request is not refused and its key is known after.
    have positive : m.worker.payload.requestSize ≠ 0 := by
      unfold Payload.requestSize
      omega
    have cursor : a.cursorOf m.worker.payload.jobKey = b.cursorOf m.worker.payload.jobKey :=
      congrArg (Option.getD · 0) same
    refine ⟨(b.request m.worker.payload.jobKey m.worker.payload.totalCalls
      m.worker.payload.requestSize).2, ?_, ?_⟩
    · simp only [on, sent, Allocator.request_eq, cursor]
    · rw [Allocator.cursor?_request_self a _ _ positive,
        Allocator.cursor?_request_self b _ _ positive, cursor]
  · exact ⟨b, anywhere b, same⟩

/-- A worker moves no cursor but that of its key. -/
theorem on_frame (happens : m.on a e = some (a', m', lost)) {key : String}
    (other : key ≠ m.worker.payload.jobKey) : a'.cursor? key = a.cursor? key := by
  rcases on_cases happens with ⟨-, -, -, rfl, -⟩ | ⟨rfl, -⟩
  · exact Allocator.cursor?_request_of_ne a other _ _
  · rfl

end CrewMember

/-! ## Some of the workers alone -/

namespace Crew

variable {own : Payload → Bool} {key : String} {payloads : List Payload} {c c' alone : Crew}

/-- An event of a crew among some of its workers, if it is an event of one of them. -/
def eventOf (own : Payload → Bool) (payloads : List Payload) (entry : Nat × CrewEvent) :
    Option (Nat × CrewEvent) :=
  match payloads[entry.1]? with
  | some p => if own p then some ((payloads.take entry.1).countP own, entry.2) else none
  | none => none

/-- The events of some workers of a crew. -/
def eventsOf (own : Payload → Bool) (payloads : List Payload) (events : List (Nat × CrewEvent)) :
    List (Nat × CrewEvent) :=
  events.filterMap (eventOf own payloads)

/-- A crew and some of its workers by themselves, all of them with one job key: the workers and the
cursor of that key are the same. -/
structure Includes (own : Payload → Bool) (key : String) (payloads : List Payload)
    (c alone : Crew) : Prop where
  payloads : c.members.map (·.worker.payload) = payloads
  members : alone.members = c.members.filter (own ·.worker.payload)
  cursor : alone.allocator.cursor? key = c.allocator.cursor? key
  lost : alone.lost.Sublist c.lost

theorem includes_ofPayloads (own : Payload → Bool) (key : String) (payloads : List Payload)
    (a : Allocator) :
    Includes own key payloads (ofPayloads a payloads) (ofPayloads a (payloads.filter own)) where
  payloads := by
    rw [ofPayloads, List.map_map]
    exact List.map_id' payloads
  members := by
    simp only [ofPayloads, List.filter_map]
    rfl
  cursor := rfl
  lost := .refl _

/-- Which payloads are those of some workers with one job key. -/
structure Shares (own : Payload → Bool) (key : String) (payloads : List Payload) : Prop where
  ours : ∀ p ∈ payloads, own p = true → p.jobKey = key
  theirs : ∀ p ∈ payloads, own p = false → p.jobKey ≠ key

/-- An event of a crew, by the worker that has it. -/
theorem step_eq_some {position : Nat} {e : CrewEvent} (happens : c.step position e = some c') :
    ∃ m a' m' lost, c.members[position]? = some m ∧ m.on c.allocator e = some (a', m', lost) ∧
      c' = {
        allocator := a', members := c.members.set position m', lost := c.lost ++ lost } := by
  simp only [step, bind, Option.bind_eq_some_iff, Option.some.injEq] at happens
  obtain ⟨m, found, ⟨a', m', lost⟩, event, rfl⟩ := happens
  exact ⟨m, a', m', lost, found, event, rfl⟩

/-- An event of one of the workers is an event of theirs, and one of another leaves them alone. -/
theorem Includes.step (includes : Includes own key payloads c alone)
    (shares : Shares own key payloads) {position : Nat} {e : CrewEvent}
    (happens : c.step position e = some c') :
    (∃ place alone', eventOf own payloads (position, e) = some (place, e) ∧
      alone.step place e = some alone' ∧ Includes own key payloads c' alone') ∨
    (eventOf own payloads (position, e) = none ∧ Includes own key payloads c' alone) := by
  obtain ⟨m, a', m', lost, found, event, rfl⟩ := step_eq_some happens
  have kept := CrewMember.on_payload event
  have listed : payloads[position]? = some m.worker.payload := by
    rw [← includes.payloads, List.getElem?_map, found]
    rfl
  have member := List.mem_of_getElem? listed
  have same : (c.members.set position m').map (·.worker.payload) = payloads := by
    rw [map_set_self found kept, includes.payloads]
  cases whose : own m.worker.payload with
  | true =>
    -- Payloads never change, so the worker is found by itself at the place its payload has.
    have job := shares.ours _ member whose
    have place : (payloads.take position).countP own =
        (c.members.take position).countP (own ·.worker.payload) := by
      rw [← includes.payloads, ← List.map_take, List.countP_map]
      rfl
    have found' := getElem?_filter (p := (own ·.worker.payload)) found whose
    rw [← place, ← includes.members] at found'
    obtain ⟨b', acts, cursor⟩ := CrewMember.on_of_cursor event (b := alone.allocator)
      (by rw [job, includes.cursor])
    have acts' : alone.step ((payloads.take position).countP own) e = some {
        allocator := b'
        members := alone.members.set ((payloads.take position).countP own) m'
        lost := alone.lost ++ lost } := by
      simp only [Crew.step, found', acts, bind, Option.bind_some]
    refine .inl ⟨_, _, ?_, acts', {
      payloads := same
      members := ?_
      cursor := job ▸ cursor.symm
      lost := includes.lost.append_right lost }⟩
    · simp only [eventOf, listed, whose, if_true]
    · rw [place, includes.members]
      exact (filter_set_of_kept found whose (kept ▸ whose)).symm
  | false =>
    have other := shares.theirs _ member whose
    refine .inr ⟨?_, {
      payloads := same
      members := ?_
      cursor := includes.cursor.trans (CrewMember.on_frame event other.symm).symm
      lost := includes.lost.trans (List.sublist_append_left _ _) }⟩
    · simp [eventOf, listed, whose]
    · rw [includes.members]
      exact (filter_set_of_dropped found whose (kept ▸ whose)).symm

/-- The events of some workers are a run of theirs by themselves. -/
theorem Includes.run {events : List (Nat × CrewEvent)}
    (includes : Includes own key payloads c alone) (shares : Shares own key payloads)
    (runs : c.run events = some c') : ∃ alone',
      alone.run (eventsOf own payloads events) = some alone' ∧
      Includes own key payloads c' alone' := by
  induction events generalizing c alone with
  | nil =>
    cases runs
    exact ⟨alone, rfl, includes⟩
  | cons event rest ih =>
    obtain ⟨position, e⟩ := event
    obtain ⟨middle, first, later⟩ := Option.bind_eq_some_iff.mp runs
    rcases includes.step shares first with ⟨place, next, own, acts, stays⟩ | ⟨foreign, stays⟩
    · obtain ⟨last, runs', stays'⟩ := ih stays later
      refine ⟨last, ?_, stays'⟩
      rw [eventsOf, List.filterMap_cons_some own]
      exact Option.bind_eq_some_iff.mpr ⟨next, acts, runs'⟩
    · obtain ⟨last, runs', stays'⟩ := ih stays later
      refine ⟨last, ?_, stays'⟩
      rw [eventsOf, List.filterMap_cons_none foreign]
      exact runs'

/-! ## Jobs with keys of their own -/

/-- Whether different jobs among some payloads have different joined keys. -/
def KeepApart (payloads : List Payload) : Prop :=
  ∀ p ∈ payloads, ∀ q ∈ payloads,
    joinedJobKey p.executorId p.jobId = joinedJobKey q.executorId q.jobId →
      p.executorId = q.executorId ∧ p.jobId = q.jobId

/-- The workers of one job share its key with nobody else. -/
theorem shares_of_apart (derived : ∀ p ∈ payloads, p.IsDerived) (apart : KeepApart payloads)
    {p : Payload} (member : p ∈ payloads) : Shares p.sameJob p.jobKey payloads := by
  have key := Payload.jobKey_of_isDerived (derived p member)
  constructor
  · intro q listed same
    obtain ⟨executor, job⟩ := Payload.sameJob_iff.mp same
    rw [Payload.jobKey_of_isDerived (derived q listed), key, executor, job]
  · intro q listed other same
    rw [Payload.jobKey_of_isDerived (derived q listed), key] at same
    have joined := Payload.sameJob_iff.mpr (apart q listed p member same)
    rw [joined] at other
    cases other

/-- Whether some of the workers have the same calls. -/
def HaveCalls (own : Payload → Bool) (payloads : List Payload) (total : Nat)
    (callIds : List String) : Prop :=
  ∀ p ∈ payloads, own p = true → p.totalCalls = total ∧ p.HasCalls total ∧ p.callIds = callIds

theorem Shares.sound (shares : Shares own key payloads) {a : Allocator}
    (fresh : a.cursor? key = none) {total : Nat} {callIds : List String}
    (calls : HaveCalls own payloads total callIds) {events : List (Nat × CrewEvent)}
    (runs : (ofPayloads a (payloads.filter own)).run events = some alone) :
    alone.Sound key total (payloads.filter own) := by
  refine run_sound ?_ (ofPayloads_sound fresh) runs
  intro p listed
  obtain ⟨listed, ours⟩ := List.mem_filter.mp listed
  obtain ⟨count, has, -⟩ := calls p listed ours
  exact ⟨shares.ours p listed ours, count, has⟩

theorem HaveCalls.callIds_eq {total : Nat} {callIds : List String}
    (calls : HaveCalls own payloads total callIds) :
    ∀ p ∈ payloads.filter own, p.callIds = callIds := by
  intro p listed
  obtain ⟨listed, ours⟩ := List.mem_filter.mp listed
  exact (calls p listed ours).2.2

/-- Jobs whose joined keys differ do not disturb one another. The workers of each job have received
and handed over what they would have by themselves, so if they lose no answer and come to an end,
their handlers have got all calls of the job once. -/
theorem jobs_undisturbed {a : Allocator} (derived : ∀ p ∈ payloads, p.IsDerived)
    (apart : KeepApart payloads) {events : List (Nat × CrewEvent)}
    (runs : (ofPayloads a payloads).run events = some c) : ∀ p ∈ payloads, ∃ alone,
      (ofPayloads a (payloads.filter p.sameJob)).run (eventsOf p.sameJob payloads events) =
        some alone ∧
      Includes p.sameJob p.jobKey payloads c alone ∧
      ∀ total callIds, a.cursor? p.jobKey = none → HaveCalls p.sameJob payloads total callIds →
        alone.lost = [] → (∃ m ∈ alone.members, ∃ tally, m.worker.result? = some (.ok tally)) →
        (∀ m ∈ alone.members, m.worker.result?.isSome) →
        ((alone.handed.map HandedRange.span).flatMap Span.calls).Perm (List.range total) ∧
        (alone.handed.flatMap (·.window.callIds)).Perm (callIds.take total) := by
  intro p member
  have shares := shares_of_apart derived apart member
  have begins := includes_ofPayloads p.sameJob p.jobKey payloads a
  obtain ⟨alone, runs', includes⟩ := begins.run shares runs
  refine ⟨alone, runs', includes, ?_⟩
  intro total callIds fresh calls kept complete ended
  have sound := shares.sound fresh calls runs'
  exact ⟨sound.calls_perm kept complete ended,
    sound.callIds_perm calls.callIds_eq kept complete ended⟩

/-- Two workers of a job of two calls, and between them one of a job of one call, which has no key
set. -/
def trio : List Payload :=
  [.numbered "e" "x" 2, { Payload.numbered "e" "y" 1 with jobKeyField := "" }, .numbered "e" "x" 2]

/-- All of them ask at once and get a range each, and ask again when it is done. -/
def weaving : List (Nat × CrewEvent) :=
  [(0, .ask), (1, .ask), (2, .ask), (2, .serve), (1, .serve), (0, .serve), (0, .arrive),
   (1, .arrive), (2, .arrive), (1, .handOver "a"), (0, .handOver "b"), (2, .handOver "c"),
   (0, .report .completed), (1, .report .failed), (0, .ask), (1, .ask), (1, .serve), (0, .serve),
   (2, .report .completed), (0, .arrive), (2, .ask), (2, .serve), (1, .arrive), (2, .arrive)]

theorem jobs_undisturbed_trio : ∃ c alone,
    (ofPayloads {} trio).run weaving = some c ∧
    (ofPayloads {} (trio.filter (Payload.numbered "e" "x" 2).sameJob)).run
      (eventsOf (Payload.numbered "e" "x" 2).sameJob trio weaving) = some alone ∧
    alone.members = c.members.filter ((Payload.numbered "e" "x" 2).sameJob ·.worker.payload) ∧
    (alone.handed.flatMap (·.window.callIds)).Perm ["00000", "00001"] := by
  have runs : (ofPayloads {} trio).run weaving =
      some (((ofPayloads {} trio).run weaving).get rfl) := rfl
  have derived : ∀ p ∈ trio, p.IsDerived := by
    simp only [trio, List.mem_cons, List.not_mem_nil, or_false]
    rintro p (rfl | rfl | rfl)
    · exact Payload.isDerived_numbered _ _ _
    · exact .inl rfl
    · exact Payload.isDerived_numbered _ _ _
  have executor : ∀ p ∈ trio, '-' ∉ p.executorId.toList := by
    simp only [trio, List.mem_cons, List.not_mem_nil, or_false]
    rintro p (rfl | rfl | rfl) <;> decide
  have apart : KeepApart trio := fun p listed q listed' =>
    joinedJobKey_inj (.inl ⟨executor p listed, executor q listed'⟩)
  obtain ⟨alone, runs', includes, finish⟩ :=
    jobs_undisturbed derived apart runs (.numbered "e" "x" 2) List.mem_cons_self
  have texts : (Payload.numbered "e" "x" 2).callIds = ["00000", "00001"] := by decide +kernel
  have calls : HaveCalls (Payload.numbered "e" "x" 2).sameJob trio 2 ["00000", "00001"] := by
    simp only [HaveCalls, trio, List.mem_cons, List.not_mem_nil, or_false]
    rintro q (rfl | rfl | rfl) same
    · exact ⟨rfl, ⟨by decide, .inl rfl⟩, texts⟩
    · cases same
    · exact ⟨rfl, ⟨by decide, .inl rfl⟩, texts⟩
  have done := finish 2 ["00000", "00001"] rfl calls (List.sublist_nil.mp includes.lost)
  rw [includes.members] at done
  exact ⟨_, alone, runs, runs', includes.members,
    (done ⟨_, List.mem_cons_self, _, rfl⟩ (List.all_eq_true.mp rfl)).2⟩

/-- Two jobs whose identifiers are joined to the same key. -/
def namesakes : List Payload := [.numbered "a-b" "c" 2, .numbered "a" "b-c" 2]

/-- Each of their workers gets a range and then asks in vain. -/
def halving : List (Nat × CrewEvent) :=
  [(0, .ask), (0, .serve), (0, .arrive), (0, .handOver "a"), (1, .ask), (1, .serve), (1, .arrive),
   (1, .handOver "b"), (0, .report .completed), (0, .ask), (0, .serve), (0, .arrive),
   (1, .report .completed), (1, .ask), (1, .serve), (1, .arrive)]

/-- No answer is lost and both workers find no more work, but each has run one call of two. -/
theorem namesakes_lose_calls : (∀ p ∈ namesakes, p.IsDerived) ∧
    ("a-b", "c") ≠ ("a", "b-c") ∧ ∃ c, (ofPayloads {} namesakes).run halving = some c ∧
      c.lost = [] ∧
      c.members.map (·.worker.result?) =
        [some (.ok { rounds := 1, calls := 1 }), some (.ok { rounds := 1, calls := 1 })] ∧
      c.members.map (·.handed.map (·.window.callIds)) = [[["00000"]], [["00001"]]] := by
  refine ⟨?_, by decide, ((ofPayloads {} namesakes).run halving).get rfl, rfl, rfl, rfl,
    by decide +kernel⟩
  simp only [namesakes, List.mem_cons, List.not_mem_nil, or_false]
  rintro p (rfl | rfl)
  · exact Payload.isDerived_numbered _ _ _
  · exact Payload.isDerived_numbered _ _ _

end Crew

namespace PullRun

/-- Workers in time hand out the calls of each job once, if its workers come to an end and one of
them because there is no more work, whatever the workers of other jobs do. -/
theorem run_hands_out_each {r : PullRun Allocator}
    (begins : ∀ w ∈ r.workers, w.worker = { payload := w.worker.payload } ∧ w.log.calls = [])
    (derived : ∀ p ∈ r.workers.map (·.worker.payload), p.IsDerived)
    (apart : Crew.KeepApart (r.workers.map (·.worker.payload)))
    (told : Allocator → Bool) (limit : Nat) {p : Payload}
    (member : p ∈ r.workers.map (·.worker.payload)) (fresh : r.source.cursor? p.jobKey = none)
    {total : Nat} {callIds : List String}
    (calls : Crew.HaveCalls p.sameJob (r.workers.map (·.worker.payload)) total callIds)
    (ended : ∀ w ∈ (run told limit r).workers.filter (p.sameJob ·.worker.payload),
      w.worker.result?.isSome)
    (complete : ∃ w ∈ (run told limit r).workers.filter (p.sameJob ·.worker.payload),
      ∃ tally, w.worker.result? = some (.ok tally)) :
    (((run told limit r).workers.filter (p.sameJob ·.worker.payload)).flatMap fun w =>
      w.log.calls.flatMap (·.window.callIds)).Perm (callIds.take total) := by
  obtain ⟨events, c, runs, mirrored⟩ := run_mirrored told limit (mirrored_ofPayloads begins)
  have shares := Crew.shares_of_apart derived apart member
  have start := Crew.includes_ofPayloads p.sameJob p.jobKey (r.workers.map (·.worker.payload))
    r.source
  obtain ⟨alone, runs', includes⟩ := start.run shares runs
  have own : List.Forall₂ TimedWorker.Mirrored
      ((run told limit r).workers.filter (p.sameJob ·.worker.payload)) alone.members := by
    rw [includes.members]
    refine List.rel_filter ?_ mirrored.members
    intro w m image
    simp only [image.worker]
  have kept : alone.lost = [] := by
    have sublist := includes.lost
    rw [mirrored.lost] at sublist
    exact List.sublist_nil.mp sublist
  exact hands_out own (shares.sound fresh calls runs') kept calls.callIds_eq ended complete

end PullRun

end CallDispatch
