import CallDispatch.Proofs.Fanout.Delivery
import CallDispatch.Proofs.Fanout.Stopping

/-!
# The shift of a listener

A station is on duty from the moment it begins until it leaves or is cut short. Meanwhile nobody
else takes anything from its queue. What it has taken is the first part of what was in the queue or
has come to it since, and what becomes of a message depends on that message alone, unless the token
is cancelled in the middle of it. So messages that cannot be read are in the way of no other.
-/

namespace CallDispatch

/-! ## What becomes of a message -/

/-- A payload without its activation identifier. -/
def Payload.bare (p : Payload) : Payload := { p with activationId := none }

namespace Dispatch

/-- The calls of a payload at positions, up to the first one that it lacks. -/
def callsFrom (p : Payload) : List Nat → List Payload
  | [] => []
  | index :: rest =>
    match p.single index with
    | .ok call => call.bare :: callsFrom p rest
    | .error _ => []

/-- How launching the calls of a payload at positions ends if it is not cut short. -/
def endFrom (p : Payload) (planned : Nat) : (launched : Nat) → List Nat → Outcome Dispatched
  | launched, [] => .ok (.launched launched planned)
  | launched, index :: rest =>
    match p.single index with
    | .ok _ => endFrom p planned (launched + 1) rest
    | .error e => .error e

/-- The calls that will be launched of what is left of a message. -/
def course : Outcome (Option Dispatch) → List Payload
  | .ok (some d) => callsFrom d.payload d.remaining
  | _ => []

/-- How the handling of a message ends that is not cut short. -/
def verdict : Outcome (Option Dispatch) → Outcome Dispatched
  | .error e => .error e
  | .ok none => .ok .skipped
  | .ok (some d) => endFrom d.payload d.planned d.launched d.remaining

variable {d : Dispatch} {index : Nat} {rest : List Nat} {call : Payload}

/-- A call that is launched is the first of those that were to be, and what is left comes to the
same end. -/
theorem course_launch (first : d.remaining = index :: rest)
    (single : d.payload.single index = .ok call) :
    course (.ok (some d)) = call.bare ::
        course (.ok (some { d with remaining := rest, launched := d.launched + 1 })) ∧
      verdict (.ok (some { d with remaining := rest, launched := d.launched + 1 })) =
        verdict (.ok (some d)) := by
  simp only [course, verdict, first, callsFrom, endFrom, single, and_self]

theorem endFrom_ne_shutdown (p : Payload) (planned launched : Nat) (positions : List Nat) :
    endFrom p planned launched positions ≠ .error .shutdown := by
  induction positions generalizing launched with
  | nil => exact fun same => by cases same
  | cons index rest ih =>
    rw [endFrom]
    rcases p.single_cases index with ⟨-, fault, single⟩ | ⟨-, call, single⟩
    · rw [single]
      exact fun same => by cases same
    · rw [single]
      exact ih _

/-- Only a token cuts a message short. -/
theorem verdict_ne_shutdown (cluster : Nat) (range : ProcessorRun) (body : List UInt8) :
    verdict (ofBody cluster range body) ≠ .error .shutdown := by
  cases job : ofBody cluster range body with
  | ok d? =>
    cases d? with
    | none => exact fun same => by cases same
    | some d => exact endFrom_ne_shutdown _ _ _ _
  | error e =>
    rintro same
    obtain rfl : e = .shutdown := Except.error.inj same
    rw [ofBody] at job
    cases read : Payload.ofBytes body with
    | error flaw =>
      rw [read] at job
      cases job
    | ok p =>
      rw [read] at job
      rcases Nat.eq_zero_or_pos cluster with rfl | positive
      · replace job : ofPayload 0 range p = .error .shutdown := job
        rw [ofPayload] at job
        split at job <;> cases job
      · obtain ⟨share, schedule, planned, laid, -⟩ := exists_launches positive range p.totalCalls
        have known := ofBody_eq read planned laid
        rw [ofBody, read] at known
        cases job.symm.trans known

/-- The handling of a message ends as it is bound to, with nothing left to launch, or is cut short
by the token. -/
theorem ending_cases {job : Outcome (Option Dispatch)} {told free : Bool}
    {result : Outcome Dispatched} (ending : ending? told free job = some result) :
    (result = verdict job ∧ course job = []) ∨
      (result = .error .shutdown ∧ told = true ∧ ∃ d, job = .ok (some d)) := by
  rcases job with e | _ | d
  · exact .inl ⟨(Option.some.inj ending).symm, rfl⟩
  · exact .inl ⟨(Option.some.inj ending).symm, rfl⟩
  · simp only [ending?, step] at ending
    rw [verdict, course]
    cases left : d.remaining with
    | nil =>
      rw [left] at ending
      exact .inl ⟨(Option.some.inj ending).symm, rfl⟩
    | cons index rest =>
      rw [left] at ending
      cases single : d.payload.single index with
      | error e =>
        simp only [single] at ending
        refine .inl ⟨?_, ?_⟩
        · rw [endFrom, single]
          exact (Option.some.inj ending).symm
        · rw [callsFrom, single]
      | ok call =>
        simp only [single] at ending
        cases told with
        | true => exact .inr ⟨(Option.some.inj ending).symm, rfl, d, rfl⟩
        | false => cases free <;> cases ending

end Dispatch

/-- Whether the dispatch of a message failed, other than by being cut short. -/
def isDropped : Outcome Dispatched → Bool
  | .ok _ => false
  | .error e => e ≠ .shutdown

/-- What results add up to. -/
def ListenerTally.ofResults (results : List (Outcome Dispatched)) : ListenerTally where
  handled := results.countP (·.isOk)
  dropped := results.countP isDropped

theorem ListenerTally.count?_ofResults (results : List (Outcome Dispatched))
    (result : Outcome Dispatched) : (ofResults results).count? result =
      if result = .error .shutdown then none else some (ofResults (results ++ [result])) := by
  cases result with
  | ok d => simp [count?, ofResults, isDropped, Except.isOk, Except.toBool]
  | error e => cases e <;> simp [count?, ofResults, isDropped, Except.isOk, Except.toBool]

/-! ## A shift -/

/-- How far a shift has come: the station waits for a message, has launched some calls of one, or is
off duty, perhaps with a message cut short. -/
inductive ShiftStage where
  | listening
  | working (body : List UInt8) (part : List Payload) (job : Outcome (Option Dispatch))
  | ended (cut? : Option (List UInt8 × List Payload))

namespace ShiftStage

/-- The message that has been taken but not dispatched to its end, with the calls launched of it. -/
def unfinished? : ShiftStage → Option (List UInt8 × List Payload)
  | .listening => none
  | .working body part _ => some (body, part)
  | .ended cut? => cut?

def bodies (stage : ShiftStage) : List (List UInt8) := stage.unfinished?.toList.map (·.1)

def part (stage : ShiftStage) : List Payload := stage.unfinished?.toList.flatMap (·.2)

/-- How the last message ended if it was cut short. -/
def cut : ShiftStage → List (Outcome Dispatched)
  | .ended (some _) => [.error .shutdown]
  | _ => []

end ShiftStage

open Dispatch (course verdict)

/-- What holds of a message a station has launched some calls of. -/
structure Partly (job : Outcome (Option Dispatch)) (part : List Payload)
    (left : Outcome (Option Dispatch)) : Prop where
  advanced : ∃ count, left = Dispatch.advanced job count
  course : course job = part ++ course left
  verdict : verdict left = verdict job

/-- Where a station is on its shift. `message` is the number of the message that comes next. -/
def Station.IsAt (layout : Layout) (st : Station) (message : Nat) : ShiftStage → Prop
  | .listening => st.duty = .listening
  | .working body part job =>
    st.duty = .working message job ∧ Partly (layout.jobOf st.site body) part job
  | .ended cut? => st.duty = .ended (.ok st.stats) ∧ st.told = true ∧
    ∀ body part, cut? = some (body, part) →
      (Payload.ofBytes body).isOk = true ∧ part <+: course (layout.jobOf st.site body)

namespace Fleet

variable {layout : Layout} {f f' g : Fleet} {e : FleetEvent} {i : Nat} {site : Site}

/-- The messages judged at a site. -/
def verdictsAt (f : Fleet) (site : Site) : List Verdict := f.verdicts.filter (·.site = site)

/-- The calls launched at a site, without their identifiers. -/
def callsAt (f : Fleet) (site : Site) : List Payload :=
  (f.launches.filter (·.site = site)).map (·.window.bare)

/-- What a shift that began at `g` has come to: `done` are the messages dispatched to their ends. -/
structure Shift (layout : Layout) (i : Nat) (site : Site) (g f : Fleet)
    (done : List (List UInt8)) (stage : ShiftStage) : Prop where
  station : ∃ st, f.stations[i]? = some st ∧ st.site = site ∧
    st.stats = .ofResults (done.map fun body => verdict (layout.jobOf site body)) ∧
    st.IsAt layout (g.next layout site + done.length) stage
  stream : ∃ arrived, f.published = g.published ++ arrived ∧
    g.waiting layout site ++ arrived = done ++ stage.bodies ++ f.waiting layout site
  judged : ∃ verdicts, f.verdictsAt site = g.verdictsAt site ++ verdicts ∧
    verdicts.map (·.message) = List.range' (g.next layout site) verdicts.length ∧
    verdicts.map (·.result) = (done.map fun body => verdict (layout.jobOf site body)) ++ stage.cut
  launched : f.callsAt site = g.callsAt site ++
    (done.flatMap (fun body => course (layout.jobOf site body)) ++ stage.part)
  number : f.next layout site = g.next layout site + done.length + stage.bodies.length

variable {done : List (List UInt8)} {stage : ShiftStage}

/-- Events that do not concern the site. -/
theorem Shift.frame (shift : Shift layout i site g f done stage)
    (station : ∀ st, f.stations[i]? = some st → ∃ st', f'.stations[i]? = some st' ∧
      st'.site = st.site ∧ st'.duty = st.duty ∧ st'.stats = st.stats ∧
      (st.told = true → st'.told = true))
    (published : f'.published = f.published)
    (waiting : f'.waiting layout site = f.waiting layout site)
    (judged : f'.verdictsAt site = f.verdictsAt site)
    (launched : f'.callsAt site = f.callsAt site) : Shift layout i site g f' done stage where
  station := by
    obtain ⟨st, found, here, counted, stands⟩ := shift.station
    obtain ⟨st', found', here', duty, stats, told⟩ := station st found
    refine ⟨st', found', here'.trans here, stats.trans counted, ?_⟩
    cases stage with
    | listening => exact duty.trans stands
    | working body part job => exact ⟨duty.trans stands.1, here' ▸ stands.2⟩
    | ended cut? =>
      obtain ⟨ended, was, cut⟩ := stands
      exact ⟨by rw [duty, stats, ended], told was, here' ▸ cut⟩
  stream := by
    rw [published, waiting]
    exact shift.stream
  judged := judged ▸ shift.judged
  launched := launched.trans shift.launched
  number := by
    have number := shift.number
    rwa [next, ← waiting, ← published] at number

/-- Whoever is on duty elsewhere takes from another queue. -/
theorem Manned.elsewhere (manned : f.Manned layout) (distinct : layout.Distinct) {j : Nat}
    {st other : Station} (found : f.stations[i]? = some st) (found' : f.stations[j]? = some other)
    (on : st.duty.isOn = true) (on' : other.duty.isOn = true) (ne : j ≠ i) :
    other.site ≠ st.site ∧ other.site.queue ≠ st.site.queue := by
  have apart : other.site ≠ st.site := fun same =>
    ne (manned.alone j i other st found' found on' on same)
  exact ⟨apart, fun same => apart (distinct.site_eq (manned.placed other
    (List.mem_of_getElem? found')) (manned.placed st (List.mem_of_getElem? found)) same)⟩

theorem callsAt_of_launches (same : f'.launches = f.launches) (site : Site) :
    f'.callsAt site = f.callsAt site := by
  rw [callsAt, callsAt, same]

theorem callsAt_record (f : Fleet) (c : CallRecord) (site : Site) : (f.record c).callsAt site =
    f.callsAt site ++ if c.site = site then [c.window.bare] else [] := by
  have launches : (f.record c).launches = f.launches ++ [c.toLaunch] := List.map_append
  rw [callsAt, callsAt, launches, List.filter_append, List.map_append]
  congr 1
  by_cases same : c.site = site <;> simp [same]

theorem verdictsAt_judge (f : Fleet) (v : Verdict) (site : Site) : (f.judge v).verdictsAt site =
    f.verdictsAt site ++ if v.site = site then [v] else [] := by
  rw [verdictsAt, judge, List.filter_append, verdictsAt]
  congr 1
  by_cases same : v.site = site <;> simp [same]

/-- A message that is published comes to the queue of a station on duty. -/
theorem Shift.publish (shift : Shift layout i site g f done stage) (body : List UInt8)
    (bound : f.broker.boundAt layout.exchange site.queue = true) : Shift layout i site g
      { f with
        broker := f.broker.publish layout.exchange body
        published := f.published ++ [body] } done stage where
  station := shift.station
  stream := by
    obtain ⟨arrived, published, stream⟩ := shift.stream
    refine ⟨arrived ++ [body], ?_, ?_⟩
    · rw [published, List.append_assoc]
    · rw [waiting_publish, if_pos bound, ← List.append_assoc, stream, List.append_assoc]
  judged := shift.judged
  launched := shift.launched
  number := by
    have number := shift.number
    rw [next, waiting_publish, if_pos bound, List.length_append, List.length_append,
      Nat.add_sub_add_right]
    exact number

/-- A station that is on its shift, seen from its shift. -/
theorem Shift.station_of (shift : Shift layout i site g f done stage) {st : Station}
    (found : f.stations[i]? = some st) : st.site = site ∧
      st.stats = .ofResults (done.map fun body => verdict (layout.jobOf site body)) ∧
      st.IsAt layout (g.next layout site + done.length) stage := by
  obtain ⟨st', found', facts⟩ := shift.station
  obtain rfl : st' = st := Option.some.inj (found'.symm.trans found)
  exact facts

theorem getElem?_setStation {st : Station} (found : f.stations[i]? = some st) (st' : Station) :
    (f.setStation i st').stations[i]? = some st' :=
  List.getElem?_set_self (List.getElem?_eq_some_iff.mp found).1

/-- The station takes a message. -/
theorem Shift.take (shift : Shift layout i site g f done .listening) (sound : f.Sound layout)
    {st : Station} (found : f.stations[i]? = some st) {body : List UInt8}
    {rest : List (List UInt8)} (waiting : f.waiting layout st.site = body :: rest) :
    Shift layout i site g
      ((f.withBroker (f.broker.advance layout.exchange st.site.queue)).setStation i
        { st with duty := .working (f.next layout st.site) (layout.jobOf st.site body) })
      done (.working body [] (layout.jobOf site body)) := by
  obtain ⟨rfl, counted, stands⟩ := shift.station_of found
  have inside := sound.manned.placed st (List.mem_of_getElem? found)
  have number := shift.number
  have moved := sound.ledger.next_advance inside waiting
  have left : (f.withBroker (f.broker.advance layout.exchange st.site.queue)).waiting layout
      st.site = rest := by
    rw [waiting_advance, if_pos rfl, waiting, List.drop_one, List.tail_cons]
  refine ⟨⟨_, getElem?_setStation found _, rfl, counted, ?_, ?_⟩, ?_, shift.judged,
    shift.launched, ?_⟩
  · rw [number]
    rfl
  · exact ⟨⟨0, (Dispatch.advanced_zero _).symm⟩, rfl, rfl⟩
  · obtain ⟨arrived, published, stream⟩ := shift.stream
    refine ⟨arrived, published, ?_⟩
    rw [waiting_setStation, left, stream, waiting]
    simp [ShiftStage.bodies, ShiftStage.unfinished?]
  · rw [next_setStation, moved, number]
    rfl

/-- The station launches a call of the message it has taken. -/
theorem Shift.launch {body : List UInt8} {part : List Payload} {message index : Nat}
    {rest : List Nat} {d : Dispatch} {call : Payload}
    (shift : Shift layout i site g f done (.working body part (.ok (some d))))
    {st : Station} (found : f.stations[i]? = some st)
    (on : st.duty = .working message (.ok (some d))) (first : d.remaining = index :: rest)
    (single : d.payload.single index = .ok call)
    {c : CallRecord} (record : c.site = st.site ∧ c.window.bare = call.bare) (slots : Slots) :
    Shift layout i site g
      ((f.record c).setStation i { st with
        slots
        duty := .working message
          (.ok (some { d with remaining := rest, launched := d.launched + 1 })) })
      done (.working body (part ++ [call.bare])
        (.ok (some { d with remaining := rest, launched := d.launched + 1 }))) := by
  obtain ⟨rfl, counted, duty, ⟨count, left⟩, all, same⟩ := shift.station_of found
  obtain ⟨more, ends⟩ := Dispatch.course_launch first single
  rw [on] at duty
  cases duty
  refine ⟨⟨_, getElem?_setStation found _, rfl, counted, rfl, ?_, ?_, ?_⟩, shift.stream,
    shift.judged, ?_, shift.number⟩
  · exact ⟨count + 1, (Dispatch.advanced_succ left.symm first).1.symm⟩
  · rw [all, more, List.append_assoc, List.singleton_append]
  · exact ends.trans same
  · refine (callsAt_record f c st.site).trans ?_
    rw [if_pos record.1, shift.launched, record.2]
    simp [ShiftStage.part, ShiftStage.unfinished?]

/-- A verdict on the message the station has taken. -/
theorem Shift.judge {body : List UInt8} {part : List Payload} {job : Outcome (Option Dispatch)}
    (shift : Shift layout i site g f done (.working body part job)) {message : Nat}
    {result : Outcome Dispatched} {results : List (Outcome Dispatched)}
    (numbered : message = g.next layout site + done.length)
    (all : (done.map fun body => verdict (layout.jobOf site body)) ++ [result] = results) :
    ∃ verdicts, (f.judge ⟨site, message, result⟩).verdictsAt site =
        g.verdictsAt site ++ verdicts ∧
      verdicts.map (·.message) = List.range' (g.next layout site) verdicts.length ∧
      verdicts.map (·.result) = results := by
  obtain ⟨before, judged, messages, known⟩ := shift.judged
  have count : before.length = done.length := by
    have same := congrArg List.length known
    simpa [ShiftStage.cut] using same
  refine ⟨before ++ [⟨site, message, result⟩], ?_, ?_, ?_⟩
  · rw [verdictsAt_judge, if_pos rfl, judged, List.append_assoc]
  · rw [List.map_append, messages, List.length_append, List.length_singleton, List.range'_1_concat,
      count, numbered]
    rfl
  · rw [List.map_append, known, ← all]
    simp [ShiftStage.cut]

/-- The handling of a message ends, and the station goes on. -/
theorem Shift.settle {body : List UInt8} {part : List Payload} {message : Nat}
    {job : Outcome (Option Dispatch)}
    (shift : Shift layout i site g f done (.working body part job))
    {st : Station} (found : f.stations[i]? = some st) (on : st.duty = .working message job)
    {told free : Bool} {result : Outcome Dispatched} {stats : ListenerTally}
    (ending : Dispatch.ending? told free job = some result)
    (counted : st.stats.count? result = some stats) :
    Shift layout i site g
      ((f.judge ⟨st.site, message, result⟩).setStation i { st with duty := .listening, stats })
      (done ++ [body]) .listening := by
  obtain ⟨rfl, tallied, duty, -, all, same⟩ := shift.station_of found
  rw [on] at duty
  cases duty
  rw [tallied, ListenerTally.count?_ofResults] at counted
  split at counted
  · cases counted
  · next uncut =>
    cases counted
    rcases Dispatch.ending_cases ending with ⟨rfl, none⟩ | ⟨cut, -⟩
    · rw [none, List.append_nil] at all
      refine ⟨⟨_, getElem?_setStation found _, rfl, ?_, rfl⟩, ?_, ?_, ?_, ?_⟩
      · rw [same, List.map_append]
        rfl
      · obtain ⟨arrived, published, stream⟩ := shift.stream
        exact ⟨arrived, published, stream.trans
          (congrArg (· ++ f.waiting layout st.site) (List.append_nil (done ++ [body])).symm)⟩
      · refine shift.judge rfl ?_
        rw [same, List.map_append]
        exact (List.append_nil _).symm
      · rw [List.flatMap_append, List.flatMap_singleton, all]
        refine shift.launched.trans ?_
        simp [ShiftStage.part, ShiftStage.unfinished?]
      · refine shift.number.trans ?_
        simp [ShiftStage.bodies, ShiftStage.unfinished?, Nat.add_assoc]
    · exact absurd cut uncut

/-- The handling of a message is cut short, and the station goes off duty. -/
theorem Shift.cut {body : List UInt8} {part : List Payload} {message : Nat}
    {job : Outcome (Option Dispatch)}
    (shift : Shift layout i site g f done (.working body part job))
    {st : Station} (found : f.stations[i]? = some st) (on : st.duty = .working message job)
    {free : Bool} {result : Outcome Dispatched}
    (ending : Dispatch.ending? st.told free job = some result)
    (uncounted : st.stats.count? result = none) :
    Shift layout i site g ((f.judge ⟨st.site, message, result⟩).discharge layout i st) done
      (.ended (some (body, part))) := by
  obtain ⟨rfl, tallied, duty, ⟨count, left⟩, all, same⟩ := shift.station_of found
  rw [on] at duty
  cases duty
  obtain rfl : result = .error .shutdown := by
    rw [tallied, ListenerTally.count?_ofResults] at uncounted
    split at uncounted
    · next cut => exact cut
    · cases uncounted
  rcases Dispatch.ending_cases ending with ⟨ends, -⟩ | ⟨-, told, d, rfl⟩
  · rw [same] at ends
    exact absurd ends.symm (Dispatch.verdict_ne_shutdown _ _ _)
  · obtain ⟨whole, read, -⟩ := Dispatch.advanced_eq_some left.symm
    let v : Verdict := ⟨st.site, g.next layout st.site + done.length, .error .shutdown⟩
    have waits : ((f.judge v).discharge layout i st).waiting layout st.site =
        f.waiting layout st.site := Broker.waitingAt_drop _ _ _ _
    refine ⟨⟨_, getElem?_setStation (f := (f.judge _).withBroker _) found _, rfl, tallied, rfl,
      told, ?_⟩, ?_, ?_, shift.launched, ?_⟩
    · intro body part same
      cases same
      refine ⟨?_, all ▸ List.prefix_append _ _⟩
      rw [Dispatch.payload_of_ofBody read]
      rfl
    · rw [waits]
      exact shift.stream
    · exact shift.judge rfl rfl
    · rw [next, waits]
      exact shift.number

/-- The station goes off duty between two messages. -/
theorem Shift.leave (shift : Shift layout i site g f done .listening) {st : Station}
    (found : f.stations[i]? = some st) (told : st.told = true) :
    Shift layout i site g (f.discharge layout i st) done (.ended none) := by
  obtain ⟨rfl, tallied, -⟩ := shift.station_of found
  have waits : (f.discharge layout i st).waiting layout st.site = f.waiting layout st.site :=
    Broker.waitingAt_drop _ _ _ _
  refine ⟨⟨_, getElem?_setStation (f := f.withBroker _) found _, rfl, tallied, rfl, told, ?_⟩, ?_,
    shift.judged, shift.launched, ?_⟩
  · intro body part same
    cases same
  · rw [waits]
    exact shift.stream
  · rw [next, waits]
    exact shift.number

theorem Shift.eq_listening (shift : Shift layout i site g f done stage) {st : Station}
    (found : f.stations[i]? = some st) (on : st.duty = .listening) : stage = .listening := by
  obtain ⟨-, -, stands⟩ := shift.station_of found
  cases stage with
  | listening => rfl
  | working body part job => cases on.symm.trans stands.1
  | ended cut? => cases on.symm.trans stands.1

theorem Shift.eq_working (shift : Shift layout i site g f done stage) {st : Station}
    (found : f.stations[i]? = some st) {message : Nat} {job : Outcome (Option Dispatch)}
    (on : st.duty = .working message job) : ∃ body part, stage = .working body part job := by
  obtain ⟨-, -, stands⟩ := shift.station_of found
  cases stage with
  | listening => cases on.symm.trans stands
  | working body part job =>
    cases on.symm.trans stands.1
    exact ⟨body, part, rfl⟩
  | ended cut? => cases on.symm.trans stands.1

/-- A station changes that is not the one on its shift, or does not go on with its duty. -/
theorem Shift.frame_set (shift : Shift layout i site g f done stage) {j : Nat} {st st' : Station}
    (found : f.stations[j]? = some st) (stations : f'.stations = f.stations.set j st')
    (same : j = i → st'.site = st.site ∧ st'.duty = st.duty ∧ st'.stats = st.stats ∧
      (st.told = true → st'.told = true))
    (published : f'.published = f.published)
    (waiting : f'.waiting layout site = f.waiting layout site)
    (judged : f'.verdictsAt site = f.verdictsAt site)
    (launched : f'.callsAt site = f.callsAt site) : Shift layout i site g f' done stage := by
  refine shift.frame (fun own found' => ?_) published waiting judged launched
  rw [stations]
  by_cases here : j = i
  · subst here
    obtain rfl : own = st := Option.some.inj (found'.symm.trans found)
    exact ⟨st', List.getElem?_set_self (List.getElem?_eq_some_iff.mp found).1, same rfl⟩
  · exact ⟨own, (List.getElem?_set_ne here).trans found', rfl, rfl, rfl, id⟩

/-- What an event makes of a shift that is not over. -/
theorem Shift.moves (shift : Shift layout i site g f done stage) (sound : f.Sound layout)
    (distinct : layout.Distinct) {own : Station} (at_ : f.stations[i]? = some own)
    (duty : own.duty.isOn = true) (moves : Moves layout f e f') :
    ∃ done' stage', Shift layout i site g f' done' stage' := by
  obtain ⟨rfl, -⟩ := shift.station_of at_
  have elsewhere : ∀ {j st}, f.stations[j]? = some st → st.duty.isOn = true → j ≠ i →
      st.site ≠ own.site ∧ st.site.queue ≠ own.site.queue := fun found on ne =>
    sound.manned.elsewhere distinct at_ found duty on ne
  cases moves with
  | publish body =>
    have taken := sound.manned.taken own (List.mem_of_getElem? at_) duty
    exact ⟨_, _, shift.publish body (Broker.boundAt_of_takenAt taken)⟩
  | declare inside =>
    exact ⟨_, _, shift.frame (fun st found => ⟨st, found, rfl, rfl, rfl, id⟩) rfl
      (Broker.waitingAt_declare _ _ _ _) rfl rfl⟩
  | hire inside =>
    refine ⟨_, _, shift.frame (fun st found => ⟨st, ?_, rfl, rfl, rfl, id⟩) rfl rfl rfl rfl⟩
    exact (List.getElem?_append_left (List.getElem?_eq_some_iff.mp found).1).trans found
  | @enlist j st found off free =>
    refine ⟨_, _, shift.frame_set found rfl (fun same => ?_) rfl
      (Broker.waitingAt_enlist _ _ _ _) rfl rfl⟩
    subst same
    rw [Option.some.inj (found.symm.trans at_), duty] at off
    cases off
  | @turnAway j st found off e =>
    refine ⟨_, _, shift.frame_set found rfl (fun same => ?_) rfl
      (Broker.waitingAt_declare _ _ _ _) rfl rfl⟩
    subst same
    rw [Option.some.inj (found.symm.trans at_), duty] at off
    cases off
  | tell found =>
    exact ⟨_, _, shift.frame_set found rfl (fun _ => ⟨rfl, rfl, rfl, fun _ => rfl⟩) rfl rfl rfl rfl⟩
  | @take j st found on body rest waiting =>
    by_cases same : j = i
    · subst same
      obtain rfl := shift.eq_listening found on
      exact ⟨_, _, shift.take sound found waiting⟩
    · obtain ⟨-, queue⟩ := elsewhere found (by rw [on]; rfl) same
      refine ⟨_, _, shift.frame_set found rfl (fun here => absurd here same) rfl ?_ rfl rfl⟩
      rw [waiting_setStation, waiting_advance, if_neg (Ne.symm queue), List.drop_zero]
  | @leave j st found on told =>
    by_cases same : j = i
    · subst same
      obtain rfl := shift.eq_listening found on
      exact ⟨_, _, shift.leave found told⟩
    · exact ⟨_, _, shift.frame_set found rfl (fun here => absurd here same) rfl
        (Broker.waitingAt_drop _ _ _ _) rfl rfl⟩
  | @launch j st found message index rest d call on first single told free =>
    by_cases same : j = i
    · subst same
      obtain ⟨body, part, rfl⟩ := shift.eq_working found on
      exact ⟨_, _, shift.launch found on first single ⟨rfl, rfl⟩ _⟩
    · obtain ⟨site, -⟩ := elsewhere found (by rw [on]; rfl) same
      refine ⟨_, _, shift.frame_set found rfl (fun here => absurd here same) rfl rfl rfl ?_⟩
      exact (callsAt_record f _ own.site).trans (by rw [if_neg site, List.append_nil])
  | @settle j st found message job on result stats ending counted =>
    by_cases same : j = i
    · subst same
      obtain ⟨body, part, rfl⟩ := shift.eq_working found on
      exact ⟨_, _, shift.settle found on ending counted⟩
    · obtain ⟨site, -⟩ := elsewhere found (by rw [on]; rfl) same
      refine ⟨_, _, shift.frame_set found rfl (fun here => absurd here same) rfl rfl ?_ rfl⟩
      exact (verdictsAt_judge f _ own.site).trans (by rw [if_neg site, List.append_nil])
  | @cut j st found message job on result ending uncounted =>
    by_cases same : j = i
    · subst same
      obtain ⟨body, part, rfl⟩ := shift.eq_working found on
      exact ⟨_, _, shift.cut found on ending uncounted⟩
    · obtain ⟨site, -⟩ := elsewhere found (by rw [on]; rfl) same
      refine ⟨_, _, shift.frame_set found rfl (fun here => absurd here same) rfl
        (Broker.waitingAt_drop _ _ _ _) ?_ rfl⟩
      exact (verdictsAt_judge f _ own.site).trans (by rw [if_neg site, List.append_nil])
  | @start n c found stage =>
    have launches : (f.setCall n { c with stage := .running }).launches = f.launches :=
      launches_setCall found rfl
    exact ⟨_, _, shift.frame (fun st found => ⟨st, found, rfl, rfl, rfl, id⟩) rfl rfl rfl
      (callsAt_of_launches launches _)⟩
  | @finish n c st found stage home =>
    have launches : (f.setCall n { c with stage := .finished }).launches = f.launches :=
      launches_setCall found rfl
    exact ⟨_, _, shift.frame_set home rfl (fun _ => ⟨rfl, rfl, rfl, id⟩) rfl rfl rfl
      (callsAt_of_launches launches _)⟩

/-- Events one after the other, if all of them are possible and each finds the station of a position
on duty. -/
def runOnDuty (layout : Layout) (i : Nat) (f : Fleet) : List FleetEvent → Option Fleet
  | [] => some f
  | e :: rest =>
    if f.stations[i]?.any (·.duty.isOn) then
      (f.step layout e).bind (·.runOnDuty layout i rest)
    else none

/-- A moment of a shift: the station of a position begins, and `g` is what it finds. The shift goes
on from there until the station goes off duty; `f` is that moment or one before it. -/
structure OnShift (layout : Layout) (i : Nat) (site : Site) (g f : Fleet) : Prop where
  reached : ∃ before before', ({} : Fleet).run layout before = some before' ∧
    before'.step layout (.station i .begin) = some g
  begun : ∃ st, g.stations[i]? = some st ∧ st.site = site ∧ st.duty = .listening
  since : ∃ events, g.runOnDuty layout i events = some f

/-- A station that has begun is at the start of its shift. -/
theorem Shift.start {before : Fleet} (happens : before.step layout (.station i .begin) = some g)
    (begun : ∃ st, g.stations[i]? = some st ∧ st.site = site ∧ st.duty = .listening) :
    Shift layout i site g g [] .listening := by
  obtain ⟨st, found, here, on⟩ := begun
  have fresh : st.stats = {} := by
    cases moves_of_step happens with
    | @enlist _ old found' off free =>
      obtain ⟨below, -⟩ := List.getElem?_eq_some_iff.mp found'
      have set := List.getElem?_set_self (a := { old with
        duty := .listening, stats := {}, told := false }) below
      rw [Option.some.inj (found.symm.trans set)]
    | @turnAway _ old found' off e =>
      obtain ⟨below, -⟩ := List.getElem?_eq_some_iff.mp found'
      have set := List.getElem?_set_self (a := { old with duty := .ended (.error e) }) below
      rw [Option.some.inj (found.symm.trans set)] at on
      cases on
  exact {
    station := ⟨st, found, here, fresh, on⟩
    stream := ⟨[], (List.append_nil _).symm, by
      rw [List.append_nil]
      rfl⟩
    judged := ⟨[], (List.append_nil _).symm, rfl, rfl⟩
    launched := (List.append_nil _).symm
    number := rfl }

/-- Whatever happens on a shift, it stays one. -/
theorem Shift.run {events : List FleetEvent} (shift : Shift layout i site g f done stage)
    (sound : f.Sound layout) (distinct : layout.Distinct)
    (runs : f.runOnDuty layout i events = some f') :
    ∃ done' stage', Shift layout i site g f' done' stage' := by
  induction events generalizing f done stage with
  | nil =>
    cases runs
    exact ⟨_, _, shift⟩
  | cons e rest ih =>
    rw [runOnDuty] at runs
    split at runs
    · next on =>
      obtain ⟨own, at_, duty⟩ := (Option.any_eq_true _ _).mp on
      obtain ⟨middle, first, later⟩ := Option.bind_eq_some_iff.mp runs
      have moves := moves_of_step first
      obtain ⟨_, _, next⟩ := shift.moves sound distinct at_ duty moves
      exact ih next (sound.moves distinct moves) later
    · cases runs

theorem OnShift.shift (onShift : OnShift layout i site g f) (distinct : layout.Distinct) :
    g.Sound layout ∧ ∃ done stage, Shift layout i site g f done stage := by
  obtain ⟨⟨before, fleet, runs, begins⟩, begun, events, since⟩ := onShift
  have sound := ((empty_sound layout).run distinct runs).moves distinct (moves_of_step begins)
  exact ⟨sound, (Shift.start begins begun).run sound distinct since⟩

end Fleet

/-! ## Messages that cannot be read -/

/-- A queue into which so many messages have been put that cannot be read. -/
inductive Padded : List (List UInt8) → List (List UInt8) → Nat → Prop where
  | nil : Padded [] [] 0
  | cons (body : List UInt8) {queue padded : List (List UInt8)} {count : Nat}
      (rest : Padded queue padded count) : Padded (body :: queue) (body :: padded) count
  | insert {body : List UInt8} {queue padded : List (List UInt8)} {count : Nat}
      (unread : (Payload.ofBytes body).isOk = false) (rest : Padded queue padded count) :
      Padded queue (body :: padded) (count + 1)

namespace Padded

variable {queue padded : List (List UInt8)} {count : Nat}

theorem jobOf_of_unread (layout : Layout) (site : Site) {body : List UInt8}
    (unread : (Payload.ofBytes body).isOk = false) :
    ∃ flaw, layout.jobOf site body = .error (.decode flaw) := by
  cases read : Payload.ofBytes body with
  | ok p =>
    rw [read] at unread
    cases unread
  | error flaw => exact ⟨flaw, Dispatch.ofBody_eq_error read⟩

/-- As many messages are handled, and those that have been put in are dropped. -/
theorem tally (more : Padded queue padded count) (layout : Layout) (site : Site) :
    ListenerTally.ofResults (padded.map fun body => verdict (layout.jobOf site body)) =
      let before :=
        ListenerTally.ofResults (queue.map fun body => verdict (layout.jobOf site body))
      { before with dropped := before.dropped + count } := by
  induction more with
  | nil => rfl
  | cons body rest ih =>
    obtain ⟨handled, dropped⟩ := ListenerTally.mk.inj ih
    simp only [ListenerTally.ofResults, List.map_cons, List.countP_cons, handled, dropped,
      Nat.add_right_comm]
  | insert unread rest ih =>
    obtain ⟨flaw, job⟩ := jobOf_of_unread layout site unread
    obtain ⟨handled, dropped⟩ := ListenerTally.mk.inj ih
    simp only [ListenerTally.ofResults, List.map_cons, List.countP_cons, handled, dropped, job]
    rfl

end Padded

/-! ## Accounting for a shift -/

/-- What has come of a shift: what has come to the queue, what has been taken from it, how each
message was dispatched, and what has been launched. -/
structure ShiftLog where
  arrived : List (List UInt8)
  taken : List (List UInt8)
  verdicts : List Verdict
  launched : List Payload

namespace ShiftLog

/-- A log lists what happened at a site between two moments. Nothing is lost from the queue and
nothing changes its place: what was there and what has arrived has been taken, or waits. -/
structure Between (layout : Layout) (site : Site) (g f : Fleet) (log : ShiftLog) : Prop where
  published : f.published = g.published ++ log.arrived
  stream : g.waiting layout site ++ log.arrived = log.taken ++ f.waiting layout site
  judged : f.verdictsAt site = g.verdictsAt site ++ log.verdicts
  launched : f.callsAt site = g.callsAt site ++ log.launched

def results (log : ShiftLog) : List (Outcome Dispatched) := log.verdicts.map (·.result)

/-- The queue is empty, and everything that was taken from it has been dispatched. -/
def Drained (layout : Layout) (site : Site) (f : Fleet) (log : ShiftLog) : Prop :=
  f.waiting layout site = [] ∧ log.verdicts.length = log.taken.length

/-- A station accounts for the messages it took since `g`. Each is dispatched, once and in order,
the last perhaps not yet. Its result is counted, unless the token cuts it short, which happens to
the last at most. Only the token ends the shift. -/
structure Accounts (layout : Layout) (g f : Fleet) (log : ShiftLog) (st : Station) : Prop where
  numbered : log.verdicts.map (·.message) =
    List.range' (g.next layout st.site) log.verdicts.length
  each : log.verdicts.length = log.taken.length ∨
    log.verdicts.length + 1 = log.taken.length ∧ ∃ message job, st.duty = .working message job
  dispatched : ∀ j v body, log.verdicts[j]? = some v → log.taken[j]? = some body →
    f.published[v.message]? = some body ∧
      (v.result = verdict (layout.jobOf st.site body) ∧ v.result ≠ .error .shutdown ∨
        v.result = .error .shutdown ∧ j + 1 = log.taken.length ∧ st.duty.isOn = false)
  counted : st.stats = .ofResults log.results
  left : st.duty.isOn = false → st.duty = .ended (.ok st.stats) ∧ st.told = true

/-- While a station is on duty, no message has been cut short. -/
theorem Accounts.uncut {layout : Layout} {g f : Fleet} {log : ShiftLog} {st : Station}
    (accounts : log.Accounts layout g f st) (on : st.duty.isOn = true) :
    .error .shutdown ∉ log.results := by
  intro listed
  obtain ⟨v, member, short⟩ := List.mem_map.mp listed
  obtain ⟨j, here⟩ := List.mem_iff_getElem?.mp member
  have below : j < log.taken.length := by
    have short := (List.getElem?_eq_some_iff.mp here).1
    rcases accounts.each with same | ⟨more, -⟩ <;> omega
  rcases (accounts.dispatched j v _ here (List.getElem?_eq_getElem below)).2 with
    ⟨-, long⟩ | ⟨-, -, off⟩
  · exact long short
  · rw [on] at off
    cases off

/-- A station that waits for a message has dispatched all that it took. -/
theorem Accounts.drained {layout : Layout} {g f : Fleet} {log : ShiftLog} {st : Station}
    (accounts : log.Accounts layout g f st) (on : st.duty = .listening)
    (empty : f.waiting layout st.site = []) : log.Drained layout st.site f := by
  refine ⟨empty, accounts.each.resolve_right ?_⟩
  rintro ⟨-, message, job, busy⟩
  cases on.symm.trans busy

theorem Between.unique {layout : Layout} {site : Site} {g f : Fleet} {log log' : ShiftLog}
    (between : log.Between layout site g f) (between' : log'.Between layout site g f) :
    log' = log := by
  have arrived := List.append_cancel_left (between.published.symm.trans between'.published)
  have stream := between.stream
  rw [arrived] at stream
  have taken := List.append_cancel_right (stream.symm.trans between'.stream)
  have verdicts := List.append_cancel_left (between.judged.symm.trans between'.judged)
  have launched := List.append_cancel_left (between.launched.symm.trans between'.launched)
  obtain ⟨_, _, _, _⟩ := log
  obtain ⟨_, _, _, _⟩ := log'
  cases arrived
  cases taken
  cases verdicts
  cases launched
  rfl

end ShiftLog

/-- A message cut short counts for nothing. -/
theorem ListenerTally.ofResults_cut (results : List (Outcome Dispatched)) (stage : ShiftStage) :
    ofResults (results ++ stage.cut) = ofResults results := by
  rcases stage with _ | _ | _ | _
  · exact congrArg ofResults (List.append_nil _)
  · exact congrArg ofResults (List.append_nil _)
  · exact congrArg ofResults (List.append_nil _)
  · simp [ofResults, ShiftStage.cut, isDropped, Except.isOk, Except.toBool]

namespace Fleet

variable {layout : Layout} {f g : Fleet} {i : Nat} {site : Site} {done : List (List UInt8)}
  {stage : ShiftStage}

/-- What is taken on a shift is published, in the order of its numbers. -/
theorem Shift.getElem?_published (shift : Shift layout i site g f done stage)
    (sound : g.Sound layout) (inside : site ∈ layout.sites) {j : Nat} {body : List UInt8}
    (taken : (done ++ stage.bodies)[j]? = some body) :
    f.published[g.next layout site + j]? = some body := by
  obtain ⟨arrived, published, stream⟩ := shift.stream
  obtain ⟨before, all⟩ := sound.ledger.suffix site inside
  have first : before.length = g.next layout site := by
    rw [next, ← all, List.length_append, Nat.add_sub_cancel]
  rw [published, ← all, List.append_assoc, stream, ← first, List.getElem?_append_right (by omega),
    Nat.add_sub_cancel_left]
  exact (List.getElem?_append_left (List.getElem?_eq_some_iff.mp taken).1).trans taken

/-- What is dispatched ends as it is bound to, or is the message that is cut short. -/
theorem result_cases {j : Nat} {body : List UInt8} {result : Outcome Dispatched}
    (taken : (done ++ stage.bodies)[j]? = some body)
    (known : ((done.map fun body => verdict (layout.jobOf site body)) ++ stage.cut)[j]? =
      some result) :
    (result = verdict (layout.jobOf site body) ∧ result ≠ .error .shutdown) ∨
      result = .error .shutdown ∧ j + 1 = (done ++ stage.bodies).length ∧
        ∃ last, stage = .ended (some last) := by
  by_cases early : j < done.length
  · rw [List.getElem?_append_left early] at taken
    rw [List.getElem?_append_left (by simpa using early), List.getElem?_map, taken] at known
    have same : verdict (layout.jobOf site body) = result := Option.some.inj known
    exact .inl ⟨same.symm, same ▸ Dispatch.verdict_ne_shutdown _ _ _⟩
  · have short : j < done.length + stage.cut.length := by
      simpa using (List.getElem?_eq_some_iff.mp known).1
    rcases stage with _ | _ | _ | last
    · exact absurd short early
    · exact absurd short early
    · exact absurd short early
    · obtain rfl : j = done.length :=
        Nat.le_antisymm (Nat.le_of_lt_succ short) (Nat.le_of_not_lt early)
      refine .inr ⟨?_, (List.length_append : (done ++ [last.1]).length = _).symm, last, rfl⟩
      simpa [ShiftStage.cut] using known.symm

/-- A log lists the messages dispatched to their ends, and the one that was not. -/
structure Lists (layout : Layout) (site : Site) (done : List (List UInt8)) (stage : ShiftStage)
    (log : ShiftLog) : Prop where
  taken : log.taken = done ++ stage.bodies
  launched : log.launched =
    done.flatMap (fun body => course (layout.jobOf site body)) ++ stage.part
  results : log.results = (done.map fun body => verdict (layout.jobOf site body)) ++ stage.cut

/-- What comes of a shift is what its log says. -/
theorem Shift.log (shift : Shift layout i site g f done stage) (sound : g.Sound layout)
    (inside : site ∈ layout.sites) : ∃ (log : ShiftLog) (st : Station),
      log.Between layout site g f ∧ f.stations[i]? = some st ∧ st.site = site ∧
      log.Accounts layout g f st ∧ Lists layout site done stage log := by
  obtain ⟨st, found, rfl, tallied, stands⟩ := shift.station
  obtain ⟨arrived, published, stream⟩ := shift.stream
  obtain ⟨verdicts, judged, messages, results⟩ := shift.judged
  refine ⟨⟨arrived, done ++ stage.bodies, verdicts, _⟩, st,
    ⟨published, stream, judged, shift.launched⟩, found, rfl, ?_, ⟨rfl, rfl, results⟩⟩
  have many : verdicts.length = done.length + stage.cut.length := by
    simpa using congrArg List.length results
  refine ⟨messages, ?_, ?_, ?_, ?_⟩
  · show verdicts.length = (done ++ stage.bodies).length ∨ _ ∧ _
    rw [many, List.length_append]
    rcases stage with _ | ⟨body, part, job⟩ | _ | _
    · exact .inl rfl
    · exact .inr ⟨rfl, _, job, stands.1⟩
    · exact .inl rfl
    · exact .inl rfl
  · intro j v body here taken
    have message : v.message = g.next layout st.site + j := by
      have at_ := congrArg (·[j]?) messages
      simp only [List.getElem?_map, here, Option.map_some] at at_
      rw [List.getElem?_range' (List.getElem?_eq_some_iff.mp here).1] at at_
      simpa using at_
    have known : ((done.map fun body => verdict (layout.jobOf st.site body)) ++
        stage.cut)[j]? = some v.result := by
      rw [← results, List.getElem?_map, here, Option.map_some]
    refine ⟨message ▸ shift.getElem?_published sound inside taken,
      (result_cases taken known).imp_right ?_⟩
    rintro ⟨short, last, cut, rfl⟩
    refine ⟨short, last, ?_⟩
    rw [stands.1]
    rfl
  · exact tallied.trans ((ListenerTally.ofResults_cut _ stage).symm.trans
      (congrArg ListenerTally.ofResults results.symm))
  · intro off
    rcases stage with _ | _ | _
    · rw [show st.duty = .listening from stands] at off
      cases off
    · rw [stands.1] at off
      cases off
    · exact ⟨stands.1, stands.2.1⟩

/-- Where nothing waits and all that was taken has been dispatched, either everything that came has
been dispatched to its end, or everything but a last message, which can be read. -/
theorem Shift.drained (shift : Shift layout i site g f done stage) {log : ShiftLog}
    (between : log.Between layout site g f) (lists : Lists layout site done stage log)
    (drained : log.Drained layout site f) :
    (.error .shutdown ∉ log.results ∧ g.waiting layout site ++ log.arrived = done ∧
        log.launched = done.flatMap fun body => course (layout.jobOf site body)) ∨
      .error .shutdown ∈ log.results ∧ ∃ last, (Payload.ofBytes last).isOk = true ∧
        g.waiting layout site ++ log.arrived = done ++ [last] := by
  obtain ⟨st, -, rfl, -, stands⟩ := shift.station
  have uncut : .error .shutdown ∉ done.map fun body => verdict (layout.jobOf st.site body) := by
    intro listed
    obtain ⟨body, -, same⟩ := List.mem_map.mp listed
    exact Dispatch.verdict_ne_shutdown _ _ _ same
  have stream := between.stream
  rw [drained.1, List.append_nil, lists.taken] at stream
  rw [lists.results, lists.launched]
  rcases stage with _ | _ | _ | ⟨last, part⟩
  · exact .inl (by simpa [ShiftStage.cut, ShiftStage.part, ShiftStage.bodies,
      ShiftStage.unfinished?, uncut] using stream)
  · have many := congrArg List.length lists.results
    have same := drained.2
    rw [lists.taken] at same
    simp [ShiftLog.results, same, ShiftStage.bodies, ShiftStage.unfinished?,
      ShiftStage.cut] at many
  · exact .inl (by simpa [ShiftStage.cut, ShiftStage.part, ShiftStage.bodies,
      ShiftStage.unfinished?, uncut] using stream)
  · exact .inr ⟨by simp [ShiftStage.cut], last, (stands.2.2 last part rfl).1, stream⟩

end Fleet

end CallDispatch
