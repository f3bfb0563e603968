import CallDispatch.Proofs.Fanout.Delivery

/-!
# Listeners and stations side by side

A listener in time and a station of a fleet show the same as long as both have the same slots,
statistics and calls, and what the one is doing shows what the other is. Listeners on a broker are
mirrored by a fleet if each of them is by the station at its position. That a listener's token is
cancelled is noted at its station only where it ends the listener, so that a fleet need not know
what the clock says.
-/

namespace CallDispatch

/-- A listener's place in the cluster. -/
def Listener.site (l : Listener) : Site := ⟨l.queue, l.pod.range⟩

/-- A call's slot and what its handler gets, if it is a station's and has come so far. -/
def CallRecord.taskAt (c : CallRecord) (i : Nat) (stage : CallStage) : List (Nat × Payload) :=
  if c.station = i ∧ c.stage = stage then [(c.guard, c.window)] else []

theorem CallRecord.taskAt_self (c : CallRecord) :
    c.taskAt c.station c.stage = [(c.guard, c.window)] := if_pos ⟨rfl, rfl⟩

theorem CallRecord.taskAt_of_station_ne {c : CallRecord} {i : Nat} (elsewhere : c.station ≠ i)
    (stage : CallStage) : c.taskAt i stage = [] := if_neg fun h => elsewhere h.1

theorem CallRecord.taskAt_of_stage_ne {c : CallRecord} {stage : CallStage} (ne : c.stage ≠ stage)
    (i : Nat) : c.taskAt i stage = [] := if_neg fun h => ne h.2

/-- What a listener's phase shows of its station's duty. -/
inductive Shows (consumer : Consumer) : ListenerPhase → Duty → Prop where
  | idle : Shows consumer .idle .idle
  | listening : Shows consumer (.listening consumer) .listening
  | dispatching (d : Dispatch) (message : Nat) :
      Shows consumer (.dispatching consumer d) (.working message (.ok (some d)))
  | ended (result : Outcome ListenerTally) (moment : Nat) :
      Shows consumer (.ended result moment) (.ended result)

theorem Shows.of_idle {consumer : Consumer} {duty : Duty} (shows : Shows consumer .idle duty) :
    duty = .idle := by
  cases shows
  rfl

theorem Shows.of_listening {consumer s : Consumer} {duty : Duty}
    (shows : Shows consumer (.listening s) duty) : s = consumer ∧ duty = .listening := by
  cases shows
  exact ⟨rfl, rfl⟩

theorem Shows.of_dispatching {consumer s : Consumer} {d : Dispatch} {duty : Duty}
    (shows : Shows consumer (.dispatching s d) duty) :
    s = consumer ∧ ∃ message, duty = .working message (.ok (some d)) := by
  cases shows
  exact ⟨rfl, _, rfl⟩

namespace Fleet

/-- The calls of a station that have come so far. -/
def tasks (f : Fleet) (i : Nat) (stage : CallStage) : List (Nat × Payload) :=
  f.calls.flatMap (·.taskAt i stage)

theorem mem_tasks {f : Fleet} {i : Nat} {stage : CallStage} {guard : Nat} {window : Payload}
    (listed : (guard, window) ∈ f.tasks i stage) : ∃ (n : Nat) (c : CallRecord),
      f.calls[n]? = some c ∧ c.station = i ∧ c.stage = stage ∧ c.guard = guard ∧
      c.window = window := by
  obtain ⟨c, member, own⟩ := List.mem_flatMap.mp listed
  obtain ⟨n, found⟩ := List.getElem?_of_mem member
  rw [CallRecord.taskAt] at own
  split at own
  · next at_ =>
    cases List.mem_singleton.mp own
    exact ⟨n, c, found, at_.1, at_.2, rfl, rfl⟩
  · cases own

/-- A launched call is one more of its station. -/
theorem tasks_record (f : Fleet) (c : CallRecord) (i : Nat) (stage : CallStage) :
    (f.record c).tasks i stage = f.tasks i stage ++ c.taskAt i stage := by
  rw [tasks, record, List.flatMap_append, List.flatMap_singleton]
  rfl

/-- A call goes on to another stage. -/
theorem tasks_setCall {f : Fleet} {n : Nat} {c : CallRecord} (found : f.calls[n]? = some c)
    (c' : CallRecord) (i : Nat) (stage : CallStage) :
    (c.taskAt i stage ++ (f.setCall n c').tasks i stage).Perm
      (c'.taskAt i stage ++ f.tasks i stage) :=
  flatMap_set_perm found c' (·.taskAt i stage)

/-- Where a call neither was nor comes, nothing changes. -/
theorem tasks_setCall_of_nil {f : Fleet} {n : Nat} {c c' : CallRecord}
    (found : f.calls[n]? = some c) {i : Nat} {stage : CallStage} (before : c.taskAt i stage = [])
    (after : c'.taskAt i stage = []) :
    ((f.setCall n c').tasks i stage).Perm (f.tasks i stage) := by
  have perm := tasks_setCall found c' i stage
  rwa [before, after] at perm

variable {f : Fleet} {n : Nat} {c : CallRecord} {later : CallStage}

/-- A call that goes on is no longer where it was. -/
theorem tasks_leave (found : f.calls[n]? = some c) (ne : later ≠ c.stage) :
    (f.tasks c.station c.stage).Perm ((c.guard, c.window) ::
      (f.setCall n { c with stage := later }).tasks c.station c.stage) := by
  have perm := tasks_setCall found { c with stage := later } c.station c.stage
  rw [c.taskAt_self, CallRecord.taskAt_of_stage_ne ne] at perm
  exact perm.symm

theorem tasks_enter (found : f.calls[n]? = some c) (ne : later ≠ c.stage) :
    ((f.setCall n { c with stage := later }).tasks c.station later).Perm
      ((c.guard, c.window) :: f.tasks c.station later) := by
  have perm := tasks_setCall found { c with stage := later } c.station later
  rw [CallRecord.taskAt_of_stage_ne ne.symm] at perm
  exact perm.trans (.of_eq (congrArg (· ++ _) (CallRecord.taskAt_self { c with stage := later })))

/-- Other stations and other stages do not notice that a call goes on. -/
theorem tasks_aside (found : f.calls[n]? = some c) {i : Nat} {stage : CallStage}
    (aside : c.station ≠ i ∨ (c.stage ≠ stage ∧ later ≠ stage)) :
    ((f.setCall n { c with stage := later }).tasks i stage).Perm (f.tasks i stage) := by
  rcases aside with elsewhere | ⟨before, after⟩
  · exact tasks_setCall_of_nil found (if_neg fun h => elsewhere h.1) (if_neg fun h => elsewhere h.1)
  · exact tasks_setCall_of_nil found (if_neg fun h => before h.2) (if_neg fun h => after h.2)

/-- The calls of a station that its handler has been given. -/
theorem started_perm (f : Fleet) (i : Nat) :
    ((f.tasks i .running ++ f.tasks i .finished).map Prod.snd).Perm
      (((f.calls.filter (·.stage ≠ .launched)).filter (·.station = i)).map (·.window)) := by
  refine ((List.flatMap_append_perm _ _ _).map _).trans (.of_eq ?_)
  induction f.calls with
  | nil => rfl
  | cons c rest ih =>
    rw [List.flatMap_cons, List.map_append, ih]
    cases stage : c.stage <;> by_cases station : c.station = i <;>
      simp [CallRecord.taskAt, stage, station]

theorem run_concat {layout : Layout} {f g h : Fleet} {events : List FleetEvent} {e : FleetEvent}
    (runs : f.run layout events = some g) (happens : g.step layout e = some h) :
    f.run layout (events ++ [e]) = some h := by
  rw [run_append, runs, Option.bind_some, run, happens]
  rfl

theorem run_one {layout : Layout} {f f' : Fleet} {e : FleetEvent}
    (happens : f.step layout e = some f') : f.run layout [e] = some f' := by
  rw [run, happens]
  rfl

end Fleet

/-- A listener and its station, as far as a moment shows them. -/
structure Listener.Image (layout : Layout) (f : Fleet) (i : Nat) (l : Listener) (st : Station) :
    Prop where
  site : st.site = l.site
  exchange : l.exchange = layout.exchange
  cluster : l.pod.cluster = layout.cluster
  ids : l.pod.ids = layout.ids
  slots : st.slots = l.pod.slots
  stats : st.stats = l.stats
  untold : st.duty.isOn = true → st.told = false
  fresh : l.phase = .idle → l.stats = {}
  duty : Shows (layout.consumer l.site) l.phase st.duty
  launched : (f.tasks i .launched).Perm (l.pod.launched.map fun c => (c.guard, c.call))
  running : ((f.tasks i .running).map Prod.fst).Perm (l.pod.running.map (·.guard))
  log : ((f.tasks i .running ++ f.tasks i .finished).map Prod.snd).Perm
    (l.pod.log.calls.map (·.window))

namespace Listening

/-- Listeners on a broker, with the number of the next activation identifier and all that has been
published, and the fleet they are. -/
structure Mirrored (layout : Layout) (sent : List (List UInt8)) (listeners : List Listener)
    (broker : Broker (List UInt8)) (next : Nat) (f : Fleet) : Prop where
  sent : f.published = sent
  broker : f.broker = broker
  next : f.calls.length = next
  stations : f.stations.length = listeners.length
  images : ∀ (i : Nat) (l : Listener) (st : Station), listeners[i]? = some l →
    f.stations[i]? = some st → l.Image layout f i st

/-- A fleet goes on to one that is what the listeners have become. -/
def Follows (layout : Layout) (sent : List (List UInt8)) (f : Fleet) (listeners : List Listener)
    (broker : Broker (List UInt8)) (next : Nat) : Prop :=
  ∃ events f', f.run layout events = some f' ∧ Mirrored layout sent listeners broker next f'

variable {layout : Layout} {sent : List (List UInt8)} {listeners listeners' : List Listener}
  {broker broker' : Broker (List UInt8)} {next next' : Nat} {f f' : Fleet}

theorem Mirrored.follows (mirrored : Mirrored layout sent listeners broker next f) :
    Follows layout sent f listeners broker next := ⟨[], f, rfl, mirrored⟩

theorem Follows.of_run {events : List FleetEvent} (runs : f.run layout events = some f')
    (follows : Follows layout sent f' listeners broker next) :
    Follows layout sent f listeners broker next := by
  obtain ⟨later, g, goesOn, mirrored⟩ := follows
  refine ⟨events ++ later, g, ?_, mirrored⟩
  rw [Fleet.run_append, runs]
  exact goesOn

theorem Follows.trans {sent' : List (List UInt8)}
    (follows : Follows layout sent f listeners broker next)
    (goesOn : ∀ f', Mirrored layout sent listeners broker next f' →
      Follows layout sent' f' listeners' broker' next') :
    Follows layout sent' f listeners' broker' next' := by
  obtain ⟨events, f', runs, mirrored⟩ := follows
  exact .of_run runs (goesOn f' mirrored)

/-- A station changes together with its listener, and the others notice nothing. -/
theorem Mirrored.update {i : Nat} {l l' : Listener} {st st' : Station}
    (mirrored : Mirrored layout sent (listeners.set i l) broker next f)
    (found : f.stations[i]? = some st) (stations : f'.stations = f.stations.set i st')
    (published : f'.published = sent) (holds : f'.broker = broker')
    (length : f'.calls.length = next') (others : ∀ j ≠ i, ∀ stage,
      (f'.tasks j stage).Perm (f.tasks j stage)) (image : l'.Image layout f' i st') :
    Mirrored layout sent (listeners.set i l') broker' next' f' where
  sent := published
  broker := holds
  next := length
  stations := by
    rw [stations, List.length_set, mirrored.stations, List.length_set, List.length_set]
  images j other st'' listed found' := by
    rw [stations] at found'
    rcases getElem?_set_cases found' with ⟨rfl, rfl⟩ | ⟨ne, old⟩
    · rcases getElem?_set_cases listed with ⟨-, rfl⟩ | ⟨ne, -⟩
      · exact image
      · exact absurd rfl ne
    · rcases getElem?_set_cases listed with ⟨same, -⟩ | ⟨-, listed⟩
      · exact absurd same ne
      · have before := mirrored.images j other st'' (by
          rw [List.getElem?_set_ne (Ne.symm ne)]
          exact listed) old
        exact {
          before with
          launched := (others j ne _).trans before.launched
          running := ((others j ne _).map _).trans before.running
          log := (((others j ne _).append (others j ne _)).map _).trans before.log }

/-- Where there is a listener there is its station. -/
theorem Mirrored.image {i : Nat} {l : Listener} (inside : i < listeners.length)
    (mirrored : Mirrored layout sent (listeners.set i l) broker next f) :
    ∃ st, f.stations[i]? = some st ∧ l.Image layout f i st := by
  have listed : i < f.stations.length := by rwa [mirrored.stations, List.length_set]
  refine ⟨f.stations[i], List.getElem?_eq_getElem listed, ?_⟩
  exact mirrored.images i l _ (List.getElem?_set_self inside) (List.getElem?_eq_getElem listed)

end Listening

end CallDispatch
