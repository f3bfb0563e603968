import CallDispatch.Proofs.Fanout.Manning
import CallDispatch.Proofs.Fanout.Shares

/-!
# How a fleet comes to rest

The slots a station has given out are those of its calls that have not finished. Every event that
happens by itself uses up some of the effort that the messages waiting, the stations on duty and the
unfinished calls are worth, so only so many can follow one another. When none is possible, all calls
have finished, nobody handles a message, and no message waits where a station listens.
-/

namespace CallDispatch

open Dispatch (pending)

/-! ## Slots -/

/-- The slot a call takes at a station. -/
def CallRecord.heldAt (c : CallRecord) (i : Nat) : List Nat :=
  if c.station = i ∧ c.stage ≠ .finished then [c.guard] else []

namespace Fleet

variable {layout : Layout} {f f' : Fleet} {e : FleetEvent}

/-- The slots that the unfinished calls of a station take. -/
def guards (f : Fleet) (i : Nat) : List Nat := f.calls.flatMap (·.heldAt i)

/-- Each slot that is taken is that of an unfinished call, and no pod has more than it has
processors. -/
structure Housed (f : Fleet) : Prop where
  stations : ∀ c ∈ f.calls, c.station < f.stations.length
  held : ∀ (i : Nat) (st : Station), f.stations[i]? = some st →
    st.slots.held.Perm (f.guards i)
  capacity : ∀ st ∈ f.stations, st.slots.capacity = max st.site.range.size 1
  bounded : ∀ st ∈ f.stations, st.slots.taken ≤ st.slots.capacity

theorem heldAt_eq_nil {c : CallRecord} {i : Nat} (elsewhere : c.station ≠ i) :
    c.heldAt i = [] := if_neg fun h => elsewhere h.1

/-- A station changes, but not its slots. -/
theorem Housed.of_set (housed : f.Housed) {i : Nat} {st st' : Station}
    (found : f.stations[i]? = some st) (stations : f'.stations = f.stations.set i st')
    (calls : f'.calls = f.calls) (slots : st'.slots = st.slots) (site : st'.site = st.site) :
    f'.Housed := by
  have guards : ∀ j, f'.guards j = f.guards j := fun j => by rw [Fleet.guards, Fleet.guards, calls]
  have before : ∀ (j : Nat) (other : Station), f'.stations[j]? = some other →
      ∃ old, f.stations[j]? = some old ∧ other.slots = old.slots ∧ other.site = old.site := by
    intro j other listed
    rw [stations] at listed
    rcases getElem?_set_cases listed with ⟨rfl, rfl⟩ | ⟨-, old⟩
    · exact ⟨st, found, slots, site⟩
    · exact ⟨other, old, rfl, rfl⟩
  refine ⟨?_, ?_, ?_, ?_⟩
  · intro c listed
    rw [calls] at listed
    rw [stations, List.length_set]
    exact housed.stations c listed
  · intro j other listed
    obtain ⟨old, at_, same, -⟩ := before j other listed
    rw [same, guards]
    exact housed.held j old at_
  · intro other listed
    obtain ⟨j, at_⟩ := List.getElem?_of_mem listed
    obtain ⟨old, at', same, place⟩ := before j other at_
    rw [same, place]
    exact housed.capacity old (List.mem_of_getElem? at')
  · intro other listed
    obtain ⟨j, at_⟩ := List.getElem?_of_mem listed
    obtain ⟨old, at', same, -⟩ := before j other at_
    rw [same]
    exact housed.bounded old (List.mem_of_getElem? at')

/-- A station launches a call, which takes the slot. -/
theorem Housed.launch (housed : f.Housed) {i : Nat} {st : Station}
    (found : f.stations[i]? = some st) (free : st.slots.hasFree = true) {c : CallRecord}
    (station : c.station = i) (guard : c.guard = st.slots.issued) (stage : c.stage = .launched)
    (duty : Duty) :
    ((f.record c).setStation i { st with slots := st.slots.take.2, duty }).Housed := by
  have member := List.mem_of_getElem? found
  have taken : st.slots.take.2 = { st.slots with
      held := st.slots.issued :: st.slots.held, issued := st.slots.issued + 1 } := by
    rw [Slots.take, if_pos free]
  have guards : ∀ j, (f.record c).guards j = f.guards j ++ c.heldAt j := by
    intro j
    rw [Fleet.guards, record, List.flatMap_append, List.flatMap_singleton]
    rfl
  refine ⟨?_, ?_, ?_, ?_⟩
  · intro other listed
    rw [setStation, List.length_set]
    rcases List.mem_append.mp listed with old | new
    · exact housed.stations other old
    · rw [List.mem_singleton.mp new, station]
      exact (List.getElem?_eq_some_iff.mp found).1
  · intro j other listed
    change other.slots.held.Perm ((f.record c).guards j)
    rw [guards]
    rcases getElem?_set_cases listed with ⟨rfl, rfl⟩ | ⟨ne, old⟩
    · have own : c.heldAt j = [st.slots.issued] := by
        simp [CallRecord.heldAt, station, stage, guard]
      simp only [taken, own]
      exact ((housed.held j st found).cons _).trans (List.perm_append_singleton _ _).symm
    · rw [heldAt_eq_nil (fun same => ne (same.symm.trans station)), List.append_nil]
      exact housed.held j other old
  · intro other listed
    rcases List.mem_or_eq_of_mem_set listed with old | rfl
    · exact housed.capacity other old
    · rw [taken]
      exact housed.capacity st member
  · intro other listed
    rcases List.mem_or_eq_of_mem_set listed with old | rfl
    · exact housed.bounded other old
    · rw [taken]
      exact of_decide_eq_true free

/-- A call finishes and gives its slot back. -/
theorem Housed.finish (housed : f.Housed) {n : Nat} {c : CallRecord} {st : Station}
    (found : f.calls[n]? = some c) (at_ : c.stage = .running)
    (home : f.stations[c.station]? = some st) :
    ((f.setCall n { c with stage := .finished }).setStation c.station
      { st with slots := st.slots.release c.guard }).Housed := by
  have member := List.mem_of_getElem? home
  have guards : ∀ j, (c.heldAt j ++ (f.setCall n { c with stage := .finished }).guards j).Perm
      (f.guards j) := by
    intro j
    have perm := flatMap_set_perm found { c with stage := .finished } (·.heldAt j)
    have gone : ({ c with stage := .finished } : CallRecord).heldAt j = [] :=
      if_neg fun h => h.2 rfl
    simp only [gone, List.nil_append] at perm
    exact perm
  refine ⟨?_, ?_, ?_, ?_⟩
  · intro other listed
    rw [setStation, List.length_set]
    rcases List.mem_or_eq_of_mem_set listed with old | rfl
    · exact housed.stations other old
    · exact housed.stations c (List.mem_of_getElem? found)
  · intro j other listed
    change other.slots.held.Perm ((f.setCall n { c with stage := .finished }).guards j)
    have perm := guards j
    rcases getElem?_set_cases listed with ⟨rfl, rfl⟩ | ⟨ne, old⟩
    · have own : c.heldAt c.station = [c.guard] := by simp [CallRecord.heldAt, at_]
      rw [own, List.singleton_append] at perm
      have erased := ((housed.held _ st home).trans perm.symm).erase c.guard
      rwa [List.erase_cons_head] at erased
    · rw [heldAt_eq_nil (Ne.symm ne), List.nil_append] at perm
      exact (housed.held j other old).trans perm.symm
  · intro other listed
    rcases List.mem_or_eq_of_mem_set listed with old | rfl
    · exact housed.capacity other old
    · exact housed.capacity st member
  · intro other listed
    rcases List.mem_or_eq_of_mem_set listed with old | rfl
    · exact housed.bounded other old
    · exact Nat.le_trans (List.length_erase_le) (housed.bounded st member)

theorem Housed.hire (housed : f.Housed) (site : Site) :
    { f with stations := f.stations ++ [Station.ofSite site] }.Housed := by
  refine ⟨?_, ?_, ?_, ?_⟩
  · intro c listed
    have := housed.stations c listed
    rw [List.length_append]
    omega
  · intro j other listed
    rcases getElem?_concat_cases listed with old | ⟨rfl, rfl⟩
    · exact housed.held j other old
    · have none : f.guards f.stations.length = [] :=
        List.flatMap_eq_nil_iff.mpr fun c listed =>
          heldAt_eq_nil (Nat.ne_of_lt (housed.stations c listed))
      change List.Perm [] (f.guards f.stations.length)
      rw [none]
  · intro other listed
    rcases List.mem_append.mp listed with old | new
    · exact housed.capacity other old
    · rw [List.mem_singleton.mp new]
      rfl
  · intro other listed
    rcases List.mem_append.mp listed with old | new
    · exact housed.bounded other old
    · rw [List.mem_singleton.mp new]
      exact Nat.zero_le _

theorem Housed.moves (housed : f.Housed) (moves : Moves layout f e f') : f'.Housed := by
  cases moves with
  | publish | declare =>
    exact ⟨housed.stations, housed.held, housed.capacity, housed.bounded⟩
  | hire => exact housed.hire _
  | enlist found | turnAway found | tell found | take found | leave found | settle found
  | cut found => exact housed.of_set found rfl rfl rfl rfl
  | launch found on first single told free => exact housed.launch found free rfl rfl rfl _
  | @start n c found at_ =>
    have same : ∀ i, (f.setCall n { c with stage := .running }).guards i = f.guards i := by
      intro i
      rw [guards, guards, List.flatMap_def, List.flatMap_def, setCall]
      exact congrArg _ (map_set_self found (by simp [CallRecord.heldAt, at_]))
    refine ⟨?_, ?_, housed.capacity, housed.bounded⟩
    · intro other listed
      rcases List.mem_or_eq_of_mem_set listed with old | rfl
      · exact housed.stations other old
      · exact housed.stations c (List.mem_of_getElem? found)
    · intro i st listed
      rw [same]
      exact housed.held i st listed
  | finish found at_ home => exact housed.finish found at_ home

end Fleet

/-! ## Effort -/

/-- What a message is worth that waits at a site: taking it, ending its handling, and three events
for each of its calls. -/
def Layout.effortOf (layout : Layout) (site : Site) (body : List UInt8) : Nat :=
  2 + 3 * (pending (Dispatch.ofBody layout.cluster site.range body)).length

/-- What a station is worth: leaving, ending the handling, and the calls still to launch. -/
def Station.effort (st : Station) : Nat :=
  match st.duty with
  | .listening => 1
  | .working _ job => 2 + 3 * (pending job).length
  | _ => 0

/-- What a call is worth: its start and its finish. -/
def CallRecord.effort (c : CallRecord) : Nat :=
  match c.stage with
  | .launched => 2
  | .running => 1
  | .finished => 0

namespace Fleet

variable {layout : Layout} {f f' : Fleet} {e : FleetEvent}

/-- What waits at a site is worth. -/
def effortAt (layout : Layout) (f : Fleet) (site : Site) : Nat :=
  ((f.waiting layout site).map (layout.effortOf site)).sum

/-- What is left to happen by itself is worth. -/
def effort (layout : Layout) (f : Fleet) : Nat :=
  (layout.sites.map (f.effortAt layout)).sum + (f.stations.map Station.effort).sum +
    (f.calls.map CallRecord.effort).sum

theorem effort_setStation (layout : Layout) (f : Fleet) {i : Nat} {st : Station}
    (found : f.stations[i]? = some st) (st' : Station) :
    (f.setStation i st').effort layout + st.effort = f.effort layout + st'.effort := by
  have replaced := sum_map_set found st' Station.effort
  have waiting : (f.setStation i st').effortAt layout = f.effortAt layout := rfl
  have calls : (f.setStation i st').calls = f.calls := rfl
  rw [effort, effort, waiting, calls]
  change _ + ((f.stations.set i st').map _).sum + _ + _ = _
  omega

theorem effort_setCall (layout : Layout) (f : Fleet) {n : Nat} {c : CallRecord}
    (found : f.calls[n]? = some c) (c' : CallRecord) :
    (f.setCall n c').effort layout + c.effort = f.effort layout + c'.effort := by
  have replaced := sum_map_set found c' CallRecord.effort
  have waiting : (f.setCall n c').effortAt layout = f.effortAt layout := rfl
  have stations : (f.setCall n c').stations = f.stations := rfl
  rw [effort, effort, waiting, stations]
  change _ + _ + ((f.calls.set n c').map _).sum + _ = _
  omega

theorem effort_record (layout : Layout) (f : Fleet) (c : CallRecord) :
    (f.record c).effort layout = f.effort layout + c.effort := by
  rw [effort, effort, record, List.map_append, List.sum_append]
  simp only [List.map_singleton, List.sum_singleton]
  have waiting : ({ f with calls := f.calls ++ [c] } : Fleet).effortAt layout =
      f.effortAt layout := rfl
  rw [waiting]
  omega

/-- A broker counts by what waits. -/
theorem effort_withBroker (layout : Layout) (f : Fleet) (b : Broker (List UInt8)) :
    (f.withBroker b).effort layout + (layout.sites.map (f.effortAt layout)).sum =
      f.effort layout + (layout.sites.map ((f.withBroker b).effortAt layout)).sum := by
  have stations : (f.withBroker b).stations = f.stations := rfl
  have calls : (f.withBroker b).calls = f.calls := rfl
  rw [effort, effort, stations, calls]
  omega

/-- A message is taken. -/
theorem effort_advance {site : Site} (inside : site ∈ layout.sites) {body : List UInt8}
    {rest : List (List UInt8)} (waiting : f.waiting layout site = body :: rest) :
    (f.withBroker (f.broker.advance layout.exchange site.queue)).effort layout +
      layout.effortOf site body ≤ f.effort layout := by
  have less : ∀ other ∈ layout.sites,
      (f.withBroker (f.broker.advance layout.exchange site.queue)).effortAt layout other ≤
        f.effortAt layout other := by
    intro other _
    rw [effortAt, effortAt, waiting_advance, List.map_drop]
    have split := List.sum_take_add_sum_drop ((f.waiting layout other).map (layout.effortOf other))
      (if other.queue = site.queue then 1 else 0)
    omega
  have here : (f.withBroker (f.broker.advance layout.exchange site.queue)).effortAt layout site +
      layout.effortOf site body ≤ f.effortAt layout site := by
    rw [effortAt, effortAt, waiting_advance, if_pos rfl, waiting, List.drop_one, List.tail_cons,
      List.map_cons, List.sum_cons]
    omega
  have total := sum_map_add_le less inside here
  have changed := effort_withBroker layout f
    (f.broker.advance layout.exchange site.queue)
  omega

/-- Nobody loses a message because a consumer goes away. -/
theorem effort_discharge (layout : Layout) (f : Fleet) {i : Nat} {st : Station}
    (found : f.stations[i]? = some st) :
    (f.discharge layout i st).effort layout + st.effort = f.effort layout := by
  have changed := effort_withBroker layout f (f.broker.drop (layout.consumer st.site))
  have dropped : (f.withBroker (f.broker.drop (layout.consumer st.site))).effortAt layout =
      f.effortAt layout := by
    funext site
    rw [effortAt, effortAt, waiting, withBroker, Layout.consumer, Broker.waitingAt_drop]
    rfl
  have gone := effort_setStation layout
    (f.withBroker (f.broker.drop (layout.consumer st.site))) found
    { st with duty := .ended (.ok st.stats) }
  have off : ({ st with duty := .ended (.ok st.stats) } : Station).effort = 0 := rfl
  rw [dropped] at changed
  rw [off] at gone
  rw [discharge]
  omega

/-- Every event that happens by itself uses up some of the effort. -/
theorem Moves.effort_lt (moves : Moves layout f e f') (own : e.isOwn = true)
    (manned : f.Manned layout) : f'.effort layout < f.effort layout := by
  cases moves with
  | publish | declare | hire | enlist | turnAway | tell => cases own
  | @take i st found on body rest waiting =>
    have advanced := effort_advance (manned.placed st (List.mem_of_getElem? found)) waiting
    have changed := effort_setStation layout
      (f.withBroker (f.broker.advance layout.exchange st.site.queue)) found
      { st with
        duty := .working (f.next layout st.site)
          (Dispatch.ofBody layout.cluster st.site.range body) }
    simp only [Station.effort, on, Layout.effortOf] at advanced changed
    omega
  | leave found on told =>
    have gone := effort_discharge layout f found
    simp only [Station.effort, on] at gone
    omega
  | @launch i st found message index rest d call on first single told free =>
    have changed := effort_setStation layout
      (f.record {
        site := st.site, message, index, station := i, guard := st.slots.issued
        window := call.withActivation (layout.ids f.calls.length) }) found
      { st with
        slots := st.slots.take.2
        duty := .working message
          (.ok (some { d with remaining := rest, launched := d.launched + 1 })) }
    rw [effort_record] at changed
    simp only [Station.effort, CallRecord.effort, on, pending, first, List.length_cons] at changed
    omega
  | @settle i st found message job on result stats ending counted =>
    have changed := effort_setStation layout (f.judge ⟨st.site, message, result⟩) found
      { st with duty := .listening, stats }
    have judged : (f.judge ⟨st.site, message, result⟩).effort layout = f.effort layout := rfl
    simp only [Station.effort, on, judged] at changed
    omega
  | @cut i st found message job on result ending uncounted =>
    have gone := effort_discharge layout (f.judge ⟨st.site, message, result⟩) found
    have judged : (f.judge ⟨st.site, message, result⟩).effort layout = f.effort layout := rfl
    simp only [Station.effort, on, judged] at gone
    omega
  | @start n c found at_ =>
    have changed := effort_setCall layout f found { c with stage := .running }
    simp only [CallRecord.effort, at_] at changed
    omega
  | @finish n c st found at_ home =>
    have finished := effort_setCall layout f found { c with stage := .finished }
    have changed := effort_setStation layout
      (f.setCall n { c with stage := .finished }) home
      { st with slots := st.slots.release c.guard }
    simp only [CallRecord.effort, at_] at finished
    simp only [Station.effort] at changed
    omega

/-- Only so many events can happen by themselves. -/
theorem own_le_effort {events : List FleetEvent} (own : ∀ e ∈ events, e.isOwn = true)
    (distinct : layout.Distinct) (manned : f.Manned layout)
    (runs : f.run layout events = some f') :
    events.length + f'.effort layout ≤ f.effort layout := by
  induction events generalizing f with
  | nil =>
    cases runs
    simp
  | cons e rest ih =>
    obtain ⟨middle, first, later⟩ := Option.bind_eq_some_iff.mp runs
    have moves := moves_of_step first
    have less := moves.effort_lt (own e List.mem_cons_self) manned
    have others := ih (fun e member => own e (List.mem_cons_of_mem _ member))
      (manned.moves distinct moves) later
    rw [List.length_cons]
    omega

/-! ## Rest -/

variable {i : Nat} {st : Station}

/-- At rest every call has finished. -/
theorem AtRest.finished (rest : f.AtRest layout) (housed : f.Housed) {c : CallRecord}
    (listed : c ∈ f.calls) : c.stage = .finished := by
  obtain ⟨n, found⟩ := List.getElem?_of_mem listed
  have home := List.getElem?_eq_getElem (housed.stations c listed)
  cases at_ : c.stage with
  | launched =>
    have starts := rest (.call n .start) rfl
    simp [step, found, onCall, at_] at starts
  | running =>
    have finishes := rest (.call n .finish) rfl
    simp [step, found, onCall, at_, home] at finishes
  | finished => rfl

/-- At rest no station has a slot taken. -/
theorem AtRest.hasFree (rest : f.AtRest layout) (housed : f.Housed)
    (found : f.stations[i]? = some st) : st.slots.hasFree = true := by
  have none : f.guards i = [] := by
    refine List.flatMap_eq_nil_iff.mpr fun c listed => ?_
    exact if_neg fun h => h.2 (rest.finished housed listed)
  have empty := (housed.held i st found).length_eq
  have capacity := housed.capacity st (List.mem_of_getElem? found)
  rw [none] at empty
  refine decide_eq_true ?_
  rw [Slots.taken, empty, capacity]
  exact Nat.lt_of_lt_of_le Nat.zero_lt_one (Nat.le_max_right _ _)

/-- At rest no station handles a message: with a slot free, it could go on. -/
theorem AtRest.not_working (rest : f.AtRest layout) (housed : f.Housed)
    (found : f.stations[i]? = some st) (message : Nat) (job : Outcome (Option Dispatch)) :
    st.duty ≠ .working message job := by
  intro on
  have free := rest.hasFree housed found
  cases ending : Dispatch.ending? st.told st.slots.hasFree job with
  | some result =>
    have concludes := rest (.station i .conclude) rfl
    simp only [step, found, Option.bind_some, onStation, on, ending] at concludes
    split at concludes <;> cases concludes
  | none =>
    obtain ⟨d, index, others, call, rfl, first, single, told⟩ :=
      Dispatch.launchable_of_endless ending
    have launches := rest (.station i .launch) rfl
    simp [step, found, onStation, on, first, Dispatch.step, single, told, free, Slots.take]
      at launches

/-- At rest a station on duty listens. -/
theorem AtRest.listening (rest : f.AtRest layout) (housed : f.Housed)
    (found : f.stations[i]? = some st) (on : st.duty.isOn = true) : st.duty = .listening := by
  cases duty : st.duty with
  | listening => rfl
  | working message job => exact absurd duty (rest.not_working housed found message job)
  | idle | ended result => simp [Duty.isOn, duty] at on

/-- At rest no message waits where a station listens. -/
theorem AtRest.waiting_eq_nil (rest : f.AtRest layout) (found : f.stations[i]? = some st)
    (on : st.duty = .listening) : f.waiting layout st.site = [] := by
  cases waiting : f.waiting layout st.site with
  | nil => rfl
  | cons body others =>
    have takes := rest (.station i .take) rfl
    simp [step, found, onStation, on, Layout.consumer, Broker.next_of_waiting waiting] at takes

/-- Whether nothing more happens by itself, as can be checked. -/
def isAtRest (layout : Layout) (f : Fleet) : Bool :=
  f.calls.all (·.stage = .finished) && f.stations.all fun st =>
    match st.duty with
    | .listening => !st.told && (f.waiting layout st.site).isEmpty
    | .working .. => false
    | _ => true

theorem atRest_of_isAtRest (rest : f.isAtRest layout = true) : f.AtRest layout := by
  obtain ⟨calls, stations⟩ := Bool.and_eq_true_iff.mp rest
  rintro e own
  cases e with
  | publish | declare | hire => cases own
  | station i e =>
    cases found : f.stations[i]? with
    | none => simp [step, found]
    | some st =>
      have quiet := List.all_eq_true.mp stations st (List.mem_of_getElem? found)
      cases duty : st.duty with
      | idle | ended result =>
        cases e <;> simp [FleetEvent.isOwn, step, found, onStation, duty] at own ⊢
      | working message job => simp [duty] at quiet
      | listening =>
        simp only [duty, Bool.and_eq_true, Bool.not_eq_true', List.isEmpty_iff] at quiet
        cases e <;> simp [FleetEvent.isOwn, step, found, onStation, duty, quiet.1, Layout.consumer,
          Broker.next_of_empty quiet.2] at own ⊢
  | call n e =>
    cases found : f.calls[n]? with
    | none => simp [step, found]
    | some c =>
      have finished := List.all_eq_true.mp calls c (List.mem_of_getElem? found)
      cases e <;> simp_all [step, onCall]

end Fleet

end CallDispatch
