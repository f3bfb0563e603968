import CallDispatch.Proofs.Job.Windows
import CallDispatch.Proofs.Lists
import CallDispatch.Proofs.Master.Grants
import CallDispatch.Proofs.Pull.Crew

/-!
# What a crew hands out

The spans a worker has to show are those it handed over and those on their way to it. An event
conserves them, up to the span the allocator grants with it and the span that is lost with it, and
the allocator grants spans from its cursor on. So at every moment the spans of all workers and the
lost ones tile what lies below the cursor.
-/

namespace CallDispatch

/-- A payload of the job a crew works on. -/
structure Payload.OfJob (p : Payload) (key : String) (total : Nat) : Prop where
  jobKey : p.jobKey = key
  totalCalls : p.totalCalls = total
  calls : p.HasCalls total

namespace CrewMember

/-- The spans a worker has to show: those it handed over, and those on their way. -/
def spans (m : CrewMember) : List Span := m.handedSpans ++ m.underway

/-- What holds of a worker at every moment, given where the cursor of its job is. -/
structure Sound (m : CrewMember) (total cursor : Nat) : Prop where
  received : m.received = m.handedSpans ++ m.held
  windows : ∀ h ∈ m.handed, ∃ window activationId,
    m.worker.payload.window h.span.start h.span.stop = .ok window ∧
      h.window = window.withActivation activationId
  away : m.errand ≠ .idle → m.worker.phase = .asking
  answer : ∀ answer, m.errand = .served answer →
    (∃ start stop, answer = .ok (.span start stop)) ∨ (answer = .ok .exhausted ∧ total ≤ cursor)
  ended : ∀ result, m.worker.phase = .ended result →
    result = .error .shutdown ∨ ∃ tally, result = .ok tally ∧ total ≤ cursor

theorem Sound.mono {m : CrewMember} {total cursor later : Nat} (sound : m.Sound total cursor)
    (le : cursor ≤ later) : m.Sound total later where
  received := sound.received
  windows := sound.windows
  away := sound.away
  answer answer served :=
    (sound.answer answer served).imp_right fun ⟨spent, passed⟩ => ⟨spent, Nat.le_trans passed le⟩
  ended result finished :=
    (sound.ended result finished).imp_right fun ⟨tally, ok, passed⟩ =>
      ⟨tally, ok, Nat.le_trans passed le⟩

/-- Only a worker that asks has a request out. -/
theorem Sound.idle_of_phase {m : CrewMember} {total cursor : Nat} (sound : m.Sound total cursor)
    {phase : PullPhase} (at_ : m.worker.phase = phase) (other : phase ≠ .asking) :
    m.errand = .idle := by
  by_contra away
  exact other (at_.symm.trans (sound.away away))

/-- What an event does to a worker and the allocator. -/
structure Advances (key : String) (total : Nat) (a : Allocator) (m : CrewMember) (a' : Allocator)
    (m' : CrewMember) (lost : List Span) : Prop where
  payload : m'.worker.payload = m.worker.payload
  below : a'.cursorOf key ≤ total
  conserved : ∃ granted, Contiguous (a.cursorOf key) granted (a'.cursorOf key) ∧
    (m'.spans ++ lost).Perm (m.spans ++ granted)
  sound : m'.Sound total (a'.cursorOf key)

variable {key : String} {total : Nat} {a : Allocator} {m : CrewMember}

/-- An event that leaves the allocator alone grants nothing. -/
theorem Advances.of_perm {m' : CrewMember} {lost : List Span} (below : a.cursorOf key ≤ total)
    (payload : m'.worker.payload = m.worker.payload) (perm : (m'.spans ++ lost).Perm m.spans)
    (sound : m'.Sound total (a.cursorOf key)) : Advances key total a m a m' lost where
  payload := payload
  below := below
  conserved := ⟨[], .nil _, by rwa [List.append_nil]⟩
  sound := sound

theorem underway_of_idle (idle : m.errand = .idle) : m.underway = m.held := by
  simp [underway, idle]

/-- The worker's hands are empty in all phases but one. -/
theorem held_of_phase {phase : PullPhase} (at_ : m.worker.phase = phase)
    (other : ∀ start stop, phase ≠ .granted start stop) : m.held = [] := by
  unfold held
  split
  · next start stop granted => exact absurd (at_.symm.trans granted) (other start stop)
  · rfl

/-- A change of phase by which nothing is handed over and nothing is received. -/
theorem Advances.of_phase {worker : Worker} (below : a.cursorOf key ≤ total)
    (sound : m.Sound total (a.cursorOf key)) (idle : m.errand = .idle)
    (payload : worker.payload = m.worker.payload) (before : m.held = []) {phase : PullPhase}
    (at_ : worker.phase = phase) (other : ∀ start stop, phase ≠ .granted start stop)
    (ended : ∀ result, phase = .ended result → result = .error .shutdown) :
    Advances key total a m a { m with worker } [] := by
  have received := sound.received
  have after : ({ m with worker } : CrewMember).held = [] := held_of_phase at_ other
  rw [before] at received
  refine .of_perm below payload ?_ ?_
  · rw [CrewMember.spans, CrewMember.spans, underway_of_idle idle,
      underway_of_idle (by exact idle), before, after, List.append_nil]
    rfl
  · exact {
      received := by rw [after]; exact received
      windows := payload ▸ sound.windows
      away := fun away => absurd idle away
      answer := fun answer served => by rw [idle] at served; cases served
      ended := fun result finished => Or.inl (ended result (at_ ▸ finished)) }

theorem tell_advances (below : a.cursorOf key ≤ total) (sound : m.Sound total (a.cursorOf key)) :
    Advances key total a m a { m with told := true } [] :=
  .of_perm below rfl (by rw [List.append_nil]; rfl)
    ⟨sound.received, sound.windows, sound.away, sound.answer, sound.ended⟩

theorem sent_advances (below : a.cursorOf key ≤ total) (sound : m.Sound total (a.cursorOf key))
    (asking : m.worker.phase = .asking) (idle : m.errand = .idle) :
    Advances key total a m a { m with errand := .sent } [] := by
  refine .of_perm below rfl ?_ ⟨sound.received, sound.windows, fun _ => asking, ?_, sound.ended⟩
  · rw [List.append_nil, spans, spans, underway_of_idle idle]
    rfl
  · intro answer served
    cases served

theorem refused_advances (below : a.cursorOf key ≤ total) (sound : m.Sound total (a.cursorOf key))
    (away : m.errand ≠ .idle) {e : DispatchError} (transient : e.isTransient = true) :
    Advances key total a m a (m.refused e) m.underway := by
  have asking := sound.away away
  have pausing : (m.worker.receive (.error e)).phase = .pausing := by
    simp [Worker.receive, transient]
  have payload : (m.worker.receive (.error e)).payload = m.worker.payload := by
    simp [Worker.receive, transient]
  have empty : (m.refused e).held = [] := held_of_phase pausing (by simp)
  refine .of_perm below payload ?_ ?_
  · rw [spans, underway_of_idle rfl, empty, List.append_nil]
    rfl
  · exact {
      received := by
        rw [empty, refused, sound.received, held_of_phase asking (by simp)]
        rfl
      windows := payload ▸ sound.windows
      away := fun away => absurd rfl away
      answer := fun answer served => by cases served
      ended := fun result finished => by
        rw [refused, pausing] at finished
        cases finished }

/-- The allocator serves a request of the job: the span it grants, if any, begins at the cursor. -/
theorem served_advances (sound : m.Sound total (a.cursorOf key))
    (below : a.cursorOf key ≤ total) (sent : m.errand = .sent) :
    Advances key total a m (a.request key total m.worker.payload.requestSize).2
      { m with errand := .served (a.request key total m.worker.payload.requestSize).1 } [] := by
  have asking := sound.away (by simp [sent])
  have empty : m.held = [] := held_of_phase asking (by simp)
  have positive : m.worker.payload.requestSize ≠ 0 := by
    unfold Payload.requestSize
    omega
  generalize chunk : m.worker.payload.requestSize = size at positive
  have moved := Allocator.cursorOf_request_self a key total positive
  have bound : Allocator.advance (a.cursorOf key) total size ≤ total := by
    unfold Allocator.advance
    omega
  have unspent : m.spans = m.handedSpans := by simp [spans, underway, sent, empty]
  have frame : ∀ answer, ({ m with errand := .served answer } : CrewMember).spans =
      m.handedSpans ++ grantedSpans answer := by
    intro answer
    change m.handedSpans ++ (grantedSpans answer ++ m.held) = _
    rw [empty, List.append_nil]
  have soundness : ∀ answer,
      ((∃ start stop, answer = .ok (.span start stop)) ∨
        (answer = .ok .exhausted ∧ total ≤ a.cursorOf key)) →
      ({ m with errand := .served answer } : CrewMember).Sound total (a.cursorOf key) :=
    fun answer known =>
      ⟨sound.received, sound.windows, fun _ => asking, fun _ same => by cases same; exact known,
        sound.ended⟩
  have answer : (a.request key total size).1 =
      Allocator.answerAt (a.cursorOf key) total size := by rw [Allocator.request_eq]
  have le : a.cursorOf key ≤ (a.request key total size).2.cursorOf key :=
    moved ▸ Allocator.le_advance _ _ _
  by_cases spent : total ≤ a.cursorOf key
  · rw [answer, (Allocator.answerAt_eq_exhausted_iff positive).mpr spent]
    refine ⟨rfl, moved ▸ bound, ⟨[], ?_, ?_⟩, (soundness _ (Or.inr ⟨rfl, spent⟩)).mono le⟩
    · rw [moved, Allocator.advance_of_le spent]
      exact .nil _
    · simp [frame, unspent, grantedSpans]
  · have lt := Nat.not_le.mp spent
    rw [answer, Allocator.answerAt_of_lt positive lt]
    refine ⟨rfl, moved ▸ bound,
      ⟨[⟨a.cursorOf key, Allocator.advance (a.cursorOf key) total size⟩], ?_, ?_⟩,
      (soundness _ (Or.inl ⟨_, _, rfl⟩)).mono le⟩
    · rw [moved]
      exact .cons (Allocator.lt_advance positive lt) (.nil _)
    · rw [frame, unspent, List.append_nil, grantedSpans]

theorem arrived_advances (below : a.cursorOf key ≤ total) (sound : m.Sound total (a.cursorOf key))
    {answer : Outcome RangeAnswer} (served : m.errand = .served answer) :
    Advances key total a m a (m.arrived answer) [] := by
  have asking := sound.away (by simp [served])
  have empty : m.held = [] := held_of_phase asking (by simp)
  have received := sound.received
  rw [empty, List.append_nil] at received
  have before : m.spans = m.handedSpans ++ grantedSpans answer := by
    rw [spans, underway, served]
    simp only [empty, List.append_nil]
  rcases sound.answer answer served with ⟨start, stop, rfl⟩ | ⟨rfl, spent⟩
  · refine .of_perm below rfl ?_ ?_
    · rw [before, List.append_nil]
      rfl
    · exact {
        received := by rw [arrived, received]; rfl
        windows := sound.windows
        away := fun away => absurd rfl away
        answer := fun answer served => by cases served
        ended := fun result finished => by cases finished }
  · refine .of_perm below rfl ?_ ?_
    · rw [before, List.append_nil]
      rfl
    · exact {
        received := by
          rw [arrived, received]
          rfl
        windows := sound.windows
        away := fun away => absurd rfl away
        answer := fun answer served => by cases served
        ended := fun result finished => by
          cases finished
          exact Or.inr ⟨_, rfl, spent⟩ }

/-- A worker hands over the range it holds: its payload has the calls, so the handler gets them. -/
theorem handedOver_advances (below : a.cursorOf key ≤ total)
    (sound : m.Sound total (a.cursorOf key)) (has : m.worker.payload.HasCalls total)
    {start stop : Nat} (granted : m.worker.phase = .granted start stop)
    (inside : start ≤ stop ∧ stop ≤ total) (activationId : String) :
    Advances key total a m a (m.handedOver start stop activationId) [] := by
  have idle := sound.idle_of_phase granted (by simp)
  have held : m.held = [⟨start, stop⟩] := by rw [CrewMember.held, granted]
  obtain ⟨window, found⟩ := has.window inside.1 inside.2
  have running : m.handedOver start stop activationId =
      { m with
        worker := { m.worker with phase := .running start stop }
        handed := m.handed ++ [⟨⟨start, stop⟩, window.withActivation activationId⟩] } := by
    simp [handedOver, Worker.handOver, found]
  rw [running]
  have received := sound.received
  refine .of_perm below rfl ?_ ?_
  · rw [spans, spans, underway_of_idle idle, underway_of_idle (by exact idle), held]
    simp [handedSpans, CrewMember.held]
  · exact {
      received := by
        rw [received, held]
        simp [handedSpans, CrewMember.held]
      windows := by
        intro h member
        rcases List.mem_append.mp member with old | new
        · exact sound.windows h old
        · rw [List.mem_singleton.mp new]
          exact ⟨window, activationId, found, rfl⟩
      away := fun away => absurd idle away
      answer := fun answer served => by
        rw [idle] at served
        cases served
      ended := fun result finished => by cases finished }

/-- Every event advances a worker of the job. -/
theorem on_advances {e : CrewEvent} {a' : Allocator} {m' : CrewMember} {lost : List Span}
    (happens : m.on a e = some (a', m', lost)) (job : m.worker.payload.OfJob key total)
    (below : a.cursorOf key ≤ total) (sound : m.Sound total (a.cursorOf key))
    (inside : ∀ s ∈ m.spans, s.start ≤ s.stop ∧ s.stop ≤ total) :
    Advances key total a m a' m' lost := by
  cases e with
  | tell =>
    cases happens
    exact tell_advances below sound
  | ask =>
    simp only [on] at happens
    split at happens
    · next asking idle =>
      split at happens
      · cases happens
        exact .of_phase below sound idle rfl (held_of_phase asking (by simp)) rfl
          (fun _ _ granted => by cases granted) fun result finished => by cases finished; rfl
      · cases happens
        exact sent_advances below sound asking idle
    · cases happens
  | refuse e =>
    simp only [on] at happens
    split at happens
    · next sent =>
      split at happens
      · next transient =>
        cases happens
        have away : m.errand ≠ .idle := by simp [sent]
        have none : m.underway = [] := by
          rw [underway, sent]
          exact held_of_phase (sound.away away) (by simp)
        exact none ▸ refused_advances below sound away transient
      · cases happens
    · cases happens
  | serve =>
    simp only [on] at happens
    split at happens
    · next sent =>
      cases happens
      rw [job.jobKey, job.totalCalls]
      exact served_advances sound below sent
    · cases happens
  | arrive =>
    simp only [on] at happens
    split at happens
    · next served =>
      cases happens
      exact arrived_advances below sound served
    · cases happens
  | lose e =>
    simp only [on] at happens
    split at happens
    · next answer served =>
      split at happens
      · next transient =>
        cases happens
        have away : m.errand ≠ .idle := by simp [served]
        have underway : m.underway = grantedSpans answer := by
          rw [CrewMember.underway, served]
          simp only [held_of_phase (sound.away away) (by simp), List.append_nil]
        exact underway ▸ refused_advances below sound away transient
      · cases happens
    · cases happens
  | handOver activationId =>
    simp only [on] at happens
    split at happens
    · next start stop granted =>
      cases happens
      refine handedOver_advances below sound job.calls granted (inside ⟨start, stop⟩ ?_) _
      have held : m.held = [⟨start, stop⟩] := by rw [CrewMember.held, granted]
      rw [spans, underway]
      split <;> simp [held]
    · cases happens
  | report status =>
    simp only [on] at happens
    split at happens
    · next start stop running =>
      cases happens
      exact .of_phase below sound (sound.idle_of_phase running (by simp)) rfl
        (held_of_phase running (by simp)) rfl (fun _ _ granted => by cases granted)
        fun result finished => by cases finished
    · cases happens
  | wake =>
    simp only [on] at happens
    split at happens
    · next pausing =>
      cases happens
      exact .of_phase below sound (sound.idle_of_phase pausing (by simp)) rfl
        (held_of_phase pausing (by simp)) rfl (fun _ _ granted => by cases granted)
        fun result finished => by cases finished
    · cases happens
  | quit =>
    simp only [on] at happens
    split at happens
    · next pausing =>
      split at happens
      · cases happens
        exact .of_phase below sound (sound.idle_of_phase pausing (by simp)) rfl
          (held_of_phase pausing (by simp)) rfl (fun _ _ granted => by cases granted)
          fun result finished => by cases finished; rfl
      · cases happens
    · cases happens

end CrewMember

namespace Crew

/-- What holds of a crew at every moment: the spans granted so far, in the order in which the
allocator granted them, are those its workers have to show and those that were lost. -/
structure Sound (c : Crew) (key : String) (total : Nat) (payloads : List Payload) : Prop where
  payloads : c.members.map (·.worker.payload) = payloads
  below : c.allocator.cursorOf key ≤ total
  members : ∀ m ∈ c.members, m.Sound total (c.allocator.cursorOf key)
  order : ∃ order, Contiguous 0 order (c.allocator.cursorOf key) ∧
    order.Perm (c.members.flatMap CrewMember.spans ++ c.lost)

variable {key : String} {total : Nat} {payloads : List Payload}

theorem ofPayloads_sound {a : Allocator} (fresh : a.cursor? key = none) :
    (ofPayloads a payloads).Sound key total payloads := by
  have start : a.cursorOf key = 0 := by rw [Allocator.cursorOf, fresh, Option.getD_none]
  refine ⟨?_, ?_, ?_, [], ?_, ?_⟩
  · rw [ofPayloads, List.map_map]
    exact List.map_id' payloads
  · simp only [ofPayloads, start, Nat.zero_le]
  · intro m member
    obtain ⟨p, -, rfl⟩ := List.mem_map.mp member
    exact {
      received := rfl
      windows := fun h handed => by cases handed
      away := fun away => absurd rfl away
      answer := fun answer served => by cases served
      ended := fun result finished => by cases finished }
  · simp only [ofPayloads, start]
    exact .nil 0
  · have none : (payloads.map fun p => ({ worker := { payload := p } } : CrewMember)).flatMap
        CrewMember.spans = [] := by
      rw [List.flatMap_eq_nil_iff]
      intro m member
      obtain ⟨p, -, rfl⟩ := List.mem_map.mp member
      rfl
    rw [ofPayloads, none]
    rfl

theorem step_sound {c c' : Crew} {position : Nat} {e : CrewEvent}
    (jobs : ∀ p ∈ payloads, p.OfJob key total) (sound : c.Sound key total payloads)
    (happens : c.step position e = some c') : c'.Sound key total payloads := by
  simp only [step, bind, Option.bind_eq_some_iff, Option.some.injEq] at happens
  obtain ⟨m, found, ⟨a', m', lost⟩, event, rfl⟩ := happens
  have member := List.mem_of_getElem? found
  have job := jobs m.worker.payload (sound.payloads ▸ List.mem_map_of_mem member)
  obtain ⟨order, contiguous, perm⟩ := sound.order
  have inside : ∀ s ∈ m.spans, s.start ≤ s.stop ∧ s.stop ≤ total := by
    intro s shown
    have granted := perm.mem_iff.mpr
      (List.mem_append_left _ (List.mem_flatMap.mpr ⟨m, member, shown⟩))
    have := contiguous.bounds granted
    have := sound.below
    omega
  obtain ⟨payload, below, ⟨granted, grows, conserved⟩, advanced⟩ :=
    CrewMember.on_advances event job sound.below (sound.members m member) inside
  refine ⟨?_, below, ?_, order ++ granted, contiguous.append grows, ?_⟩
  · obtain ⟨lt, rfl⟩ := List.getElem?_eq_some_iff.mp found
    rw [← sound.payloads, List.map_set, payload, ← List.map_set, List.set_getElem_self]
  · intro other listed
    rcases List.mem_or_eq_of_mem_set listed with old | rfl
    · exact (sound.members other old).mono grows.le
    · exact advanced
  · have replaced := flatMap_set_perm found m' CrewMember.spans
    refine List.perm_iff_count.mpr fun s => ?_
    have before := perm.count_eq s
    have moved := conserved.count_eq s
    have others := replaced.count_eq s
    simp only [List.count_append] at before moved others ⊢
    omega

theorem run_sound {c c' : Crew} {events : List (Nat × CrewEvent)}
    (jobs : ∀ p ∈ payloads, p.OfJob key total) (sound : c.Sound key total payloads)
    (runs : c.run events = some c') : c'.Sound key total payloads := by
  induction events generalizing c with
  | nil =>
    cases runs
    exact sound
  | cons event rest ih =>
    obtain ⟨middle, first, later⟩ := Option.bind_eq_some_iff.mp runs
    exact ih (step_sound jobs sound first) later

theorem spans_perm (c : Crew) : (c.members.flatMap CrewMember.spans ++ c.lost).Perm c.spans := by
  refine List.Perm.append_right _ ?_
  rw [handed, underway, List.map_flatMap]
  exact (List.flatMap_append_perm c.members _ _).symm

theorem Sound.covers {c : Crew} (sound : c.Sound key total payloads) :
    Covers c.spans (c.allocator.cursorOf key) := by
  obtain ⟨order, contiguous, perm⟩ := sound.order
  exact contiguous.covers (perm.trans c.spans_perm)

theorem phase_of_result {w : Worker} {result : Outcome PullTally}
    (finished : w.result? = some result) : w.phase = .ended result := by
  unfold Worker.result? at finished
  split at finished
  · next ended => rw [ended, Option.some.inj finished]
  · cases finished

/-- What a handler got is the window of its span, under an activation identifier. -/
theorem Sound.window {c : Crew} (sound : c.Sound key total payloads) {m : CrewMember}
    (member : m ∈ c.members) {h : HandedRange} (handed : h ∈ m.handed) :
    ∃ window activationId,
      m.worker.payload.window h.span.start h.span.stop = .ok window ∧
      window.callIds = m.worker.payload.callIdsIn h.span.start h.span.stop ∧
      h.window = window.withActivation activationId := by
  obtain ⟨window, activationId, found, same⟩ := (sound.members m member).windows h handed
  exact ⟨window, activationId, found, Payload.callIds_of_window found, same⟩

/-- A worker at its end has handed over all it received, and unless it was told to stop the cursor
has passed the last call. -/
theorem Sound.ended {c : Crew} (sound : c.Sound key total payloads) {m : CrewMember}
    (member : m ∈ c.members) {result : Outcome PullTally}
    (finished : m.worker.result? = some result) :
    m.received = m.handed.map HandedRange.span ∧
      (result = .error .shutdown ∨
        ∃ tally, result = .ok tally ∧ total ≤ c.allocator.cursorOf key) := by
  have own := sound.members m member
  have atEnd := phase_of_result finished
  have received := own.received
  rw [CrewMember.held_of_phase atEnd (by simp), List.append_nil] at received
  exact ⟨received, own.ended result atEnd⟩

/-- A worker at its end has no span on its way. -/
theorem Sound.underway_eq_nil {c : Crew} (sound : c.Sound key total payloads)
    (ended : ∀ m ∈ c.members, m.worker.result?.isSome) : c.underway = [] := by
  rw [underway, List.flatMap_eq_nil_iff]
  intro m member
  obtain ⟨result, finished⟩ := Option.isSome_iff_exists.mp (ended m member)
  have atEnd := phase_of_result finished
  rw [CrewMember.underway_of_idle ((sound.members m member).idle_of_phase atEnd (by simp))]
  exact CrewMember.held_of_phase atEnd (by simp)

/-- If no answer is lost, a worker that finds no more work is a sign that all calls are handed out
or on their way. -/
theorem Sound.covers_total {c : Crew} (sound : c.Sound key total payloads) (kept : c.lost = [])
    (complete : ∃ m ∈ c.members, ∃ tally, m.worker.result? = some (.ok tally)) :
    Covers (c.handed.map HandedRange.span ++ c.underway) total := by
  obtain ⟨m, member, tally, finished⟩ := complete
  have reached : c.allocator.cursorOf key = total := by
    rcases (sound.ended member finished).2 with stopped | ⟨_, _, passed⟩
    · cases stopped
    · exact Nat.le_antisymm sound.below passed
  have covers := sound.covers
  rwa [spans, kept, List.append_nil, reached] at covers

theorem Sound.calls_perm {c : Crew} (sound : c.Sound key total payloads) (kept : c.lost = [])
    (complete : ∃ m ∈ c.members, ∃ tally, m.worker.result? = some (.ok tally))
    (ended : ∀ m ∈ c.members, m.worker.result?.isSome) :
    ((c.handed.map HandedRange.span).flatMap Span.calls).Perm (List.range total) := by
  have covers := sound.covers_total kept complete
  rw [sound.underway_eq_nil ended, List.append_nil] at covers
  exact covers.calls_perm

/-- If all workers have the same call identifiers, their handlers get each of them once. -/
theorem Sound.callIds_perm {c : Crew} (sound : c.Sound key total payloads) {callIds : List String}
    (same : ∀ p ∈ payloads, p.callIds = callIds) (kept : c.lost = [])
    (complete : ∃ m ∈ c.members, ∃ tally, m.worker.result? = some (.ok tally))
    (ended : ∀ m ∈ c.members, m.worker.result?.isSome) :
    (c.handed.flatMap (·.window.callIds)).Perm (callIds.take total) := by
  have own {m : CrewMember} (member : m ∈ c.members) : m.worker.payload.callIds = callIds :=
    same _ (sound.payloads ▸ List.mem_map_of_mem member)
  have texts : ∀ h ∈ c.handed, h.window.callIds = h.span.calls.filterMap (callIds[·]?) := by
    intro h handed
    obtain ⟨m, member, own'⟩ := List.mem_flatMap.mp handed
    obtain ⟨window, activationId, -, cut, same⟩ := sound.window member own'
    rw [same, Payload.withActivation, cut, Payload.callIdsIn, own member, drop_take_eq_filterMap]
    rfl
  calc
    c.handed.flatMap (·.window.callIds)
      = ((c.handed.map HandedRange.span).flatMap Span.calls).filterMap (callIds[·]?) := by
        rw [List.flatMap_map, List.filterMap_flatMap]
        exact List.flatMap_congr texts
    _ |>.Perm ((List.range total).filterMap (callIds[·]?)) :=
        (sound.calls_perm kept complete ended).filterMap _
    _ = callIds.take total := by
        rw [List.range_eq_range', ← drop_take_eq_filterMap, List.drop_zero]

/-- Workers of one job on one allocator, in every interleaving of their runs with cancellations and
failures: no call is handed out twice and none is passed over. -/
theorem pulls_cover {a : Allocator} (fresh : a.cursor? key = none)
    (jobs : ∀ p ∈ payloads, p.OfJob key total) (events : List (Nat × CrewEvent)) {c : Crew}
    (runs : (ofPayloads a payloads).run events = some c) :
    Covers (c.handed.map HandedRange.span ++ c.underway ++ c.lost) (c.allocator.cursorOf key) ∧
    (∀ m ∈ c.members, ∀ h ∈ m.handed, ∃ window activationId,
      m.worker.payload.window h.span.start h.span.stop = .ok window ∧
      window.callIds = m.worker.payload.callIdsIn h.span.start h.span.stop ∧
      h.window = window.withActivation activationId) ∧
    (∀ m ∈ c.members, ∀ result, m.worker.result? = some result →
      m.received = m.handed.map HandedRange.span ∧
      (result = .error .shutdown ∨
        ∃ tally, result = .ok tally ∧ total ≤ c.allocator.cursorOf key)) ∧
    (c.lost = [] → (∃ m ∈ c.members, ∃ tally, m.worker.result? = some (.ok tally)) →
      Covers (c.handed.map HandedRange.span ++ c.underway) total ∧
      ((∀ m ∈ c.members, m.worker.result?.isSome) →
        c.underway = [] ∧
        ((c.handed.map HandedRange.span).flatMap Span.calls).Perm (List.range total))) := by
  have sound := run_sound jobs (ofPayloads_sound fresh) runs
  refine ⟨sound.covers, fun m member h handed => sound.window member handed,
    fun m member result finished => sound.ended member finished, ?_⟩
  intro kept complete
  refine ⟨sound.covers_total kept complete, fun ended => ?_⟩
  exact ⟨sound.underway_eq_nil ended, sound.calls_perm kept complete ended⟩

/-- Payloads of one job for two workers: the first asks for two calls at a time and has byte ranges,
the second asks for one call at a time and has none. -/
def unevenPair : List Payload :=
  [{ executorId := "e", jobId := "j", totalCalls := 3, callIds := ["0", "1", "2"],
     byteRanges := [⟨0, 4⟩, ⟨5, 7⟩, ⟨8, 9⟩], chunkSize := 2 },
   { executorId := "e", jobId := "j", totalCalls := 3, callIds := ["0", "1", "2"] }]

/-- The second worker overtakes the first, whose request is refused once, and fails its range. -/
def overtaking : List (Nat × CrewEvent) :=
  [(0, .ask), (0, .refuse (.io "reset")), (1, .ask), (0, .wake), (0, .ask), (1, .serve),
   (0, .serve), (0, .arrive), (1, .arrive), (1, .handOver "a"), (0, .handOver "b"),
   (1, .report .failed), (1, .ask), (1, .serve), (1, .arrive), (0, .report .completed),
   (0, .ask), (0, .serve), (0, .arrive)]

theorem unevenPair_ofJob : ∀ p ∈ unevenPair, p.OfJob "e-j" 3 := by
  intro p member
  simp only [unevenPair, List.mem_cons, List.not_mem_nil, or_false] at member
  rcases member with rfl | rfl
  · refine ⟨rfl, rfl, by decide, Or.inr fun callId listed => ?_⟩
    simp only [List.take_succ_cons, List.take_zero, List.mem_cons, List.not_mem_nil,
      or_false] at listed
    rcases listed with rfl | rfl | rfl
    · exact ⟨0, by decide, by decide⟩
    · exact ⟨1, by decide, by decide⟩
    · exact ⟨2, by decide, by decide⟩
  · exact ⟨rfl, rfl, by decide, Or.inl rfl⟩

theorem pulls_cover_uneven_pair :
    ∃ c, (ofPayloads {} unevenPair).run overtaking = some c ∧
      c.handed.map HandedRange.span = [⟨1, 3⟩, ⟨0, 1⟩] ∧
      ((c.handed.map HandedRange.span).flatMap Span.calls).Perm (List.range 3) := by
  have runs : (ofPayloads {} unevenPair).run overtaking =
      some (((ofPayloads {} unevenPair).run overtaking).get rfl) := rfl
  have complete := (pulls_cover rfl unevenPair_ofJob overtaking runs).2.2.2 rfl
    ⟨_, List.mem_cons_self, _, rfl⟩
  have ended : (((ofPayloads {} unevenPair).run overtaking).get rfl).members.all
      (·.worker.result?.isSome) := rfl
  exact ⟨_, runs, rfl, (complete.2 (List.all_eq_true.mp ended)).2⟩

end Crew

end CallDispatch
