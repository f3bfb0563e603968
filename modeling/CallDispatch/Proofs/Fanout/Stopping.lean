import CallDispatch.Proofs.Fanout.Occupancy
import CallDispatch.Proofs.Fanout.Shares

/-!
# Where launching stops

Of all that a scheduler does, the handling of one message notices that its token is cancelled, that
it launches a call, and that it ends. However long it has waited for slots in between, the calls it
has launched are the first ones of its share, and how it ends says why it launched no more.
-/

namespace CallDispatch

/-- The message that comes with an event. -/
def SchedulerEvent.body? : SchedulerEvent → Option (List UInt8)
  | .receive body => some body
  | _ => none

namespace Payload

/-- A payload lacks the call at a position: it has no identifier there or, if it has byte ranges, no
byte range. -/
def Lacks (p : Payload) (index : Nat) : Prop :=
  p.callIds.length ≤ index ∨ p.byteRanges ≠ [] ∧ p.byteRanges.length ≤ index

/-- A payload can be cut down to a call unless it lacks it, and then it is at fault. -/
theorem single_cases (p : Payload) (index : Nat) :
    (p.Lacks index ∧ ∃ fault, p.single index = .error (.payload fault)) ∨
      (¬ p.Lacks index ∧ ∃ call, p.single index = .ok call) := by
  rw [single]
  cases listed : p.callIds[index]? with
  | none => exact .inl ⟨.inl (List.getElem?_eq_none_iff.mp listed), _, rfl⟩
  | some callId =>
    obtain ⟨below, -⟩ := List.getElem?_eq_some_iff.mp listed
    simp only
    split
    · next none =>
      refine .inr ⟨?_, _, rfl⟩
      rintro (past | ⟨some, -⟩)
      · omega
      · exact some (List.isEmpty_iff.mp none)
    · next some =>
      cases ranged : p.byteRanges[index]? with
      | none =>
        exact .inl ⟨.inr ⟨fun none => some (by simp [none]), List.getElem?_eq_none_iff.mp ranged⟩,
          _, rfl⟩
      | some range =>
        obtain ⟨within, -⟩ := List.getElem?_eq_some_iff.mp ranged
        refine .inr ⟨?_, _, rfl⟩
        rintro (past | ⟨-, past⟩) <;> omega

end Payload

namespace Dispatch

/-- A job being launched comes to an end where nothing is left of it, where the payload lacks the
next call, and where the next call is there but the pod has been told to stop. -/
theorem step_eq_finished {d : Dispatch} {told free : Bool} {result : Outcome Dispatched}
    (ends : d.step told free = .finished result) :
    (d.remaining = [] ∧ result = .ok (.launched d.launched d.planned)) ∨
      ∃ index rest, d.remaining = index :: rest ∧
        ((d.payload.Lacks index ∧ ∃ fault, result = .error (.payload fault)) ∨
          (¬ d.payload.Lacks index ∧ told = true ∧ result = .error .shutdown)) := by
  rw [step] at ends
  split at ends
  · next none =>
    cases ends
    exact .inl ⟨none, rfl⟩
  · next index rest some =>
    refine .inr ⟨index, rest, some, ?_⟩
    rcases d.payload.single_cases index with ⟨lacks, fault, single⟩ | ⟨has, call, single⟩
    · rw [single] at ends
      cases ends
      exact .inl ⟨lacks, fault, rfl⟩
    · rw [single] at ends
      cases told with
      | true =>
        cases ends
        exact .inr ⟨has, rfl, rfl⟩
      | false => cases free <;> cases ends

theorem ofBody_eq_error {cluster : Nat} {range : ProcessorRun} {body : List UInt8}
    {flaw : Json.Flaw} (unread : Payload.ofBytes body = .error flaw) :
    ofBody cluster range body = .error (.decode flaw) := by
  rw [ofBody, unread]
  rfl

end Dispatch

/-- What a handling has still to launch, or how it is over. -/
inductive Standing where
  | going (d : Dispatch)
  | ended (result? : Option (Outcome Dispatched))

namespace Handling

/-- Where a handling stands, whether or not it waits. -/
def standing (h : Handling) : Standing :=
  match h.stage with
  | .launching d | .queued d | .handed d _ => .going d
  | .closed result? => .ended result?

/-- The result that a handling has come to. -/
def result? (h : Handling) : Option (Outcome Dispatched) :=
  match h.stage with
  | .closed result? => result?
  | _ => none

theorem standing_eq_ended_iff {h : Handling} {result? : Option (Outcome Dispatched)} :
    h.standing = .ended result? ↔ h.stage = .closed result? := by
  cases at_ : h.stage <;> simp [standing, at_]

/-- What an event does to a handling, with the window that it launches: it leaves it where it
stands, or it is one of its own steps. -/
inductive Turns (h : Handling) : Option Payload → Handling → Prop where
  | stays {h' : Handling} (standing : h'.standing = h.standing)
      (told : h.told = true → h'.told = true) : Turns h none h'
  | launch {d rest : Dispatch} {free : Bool} {call : Payload} (at_ : h.standing = .going d)
      (next : d.step h.told free = .launch call rest) (activationId : String) :
      Turns h (some (call.withActivation activationId)) { h with stage := .launching rest }
  | finish {d : Dispatch} {free : Bool} {result : Outcome Dispatched} (at_ : h.standing = .going d)
      (next : d.step h.told free = .finished result) :
      Turns h none { h with stage := .closed (some result) }
  | drop {d : Dispatch} (at_ : h.standing = .going d) :
      Turns h none { h with stage := .closed none }

theorem hand_standing (h : Handling) (guard : Nat) : (h.hand guard).standing = h.standing := by
  rw [hand]
  split
  · next at_ => simp [standing, at_]
  · rfl

theorem hand_told (h : Handling) (guard : Nat) : (h.hand guard).told = h.told := by
  rw [hand]
  split <;> rfl

end Handling

namespace Scheduler

variable {s s' : Scheduler} {e : SchedulerEvent} {i j : Nat} {h : Handling}

/-- What a handling has launched, in order. -/
def windowsOf (s : Scheduler) (i : Nat) : List Payload :=
  (s.calls.filter (·.handling = i)).map (·.window)

/-! ## One handling among many -/

theorem giveBack_calls (s : Scheduler) (guard : Nat) : (s.giveBack guard).calls = s.calls := by
  rw [giveBack]
  split
  · next first rest new slots line take =>
    change (Scheduler.hand { s with slots, line := rest } first new).calls = s.calls
    rw [hand]
    split <;> rfl
  · rfl

/-- A slot that is given back moves no handling but to hand it that slot. -/
theorem standing_giveBack (found : s.handlings[i]? = some h) (guard : Nat) :
    ∃ h', (s.giveBack guard).handlings[i]? = some h' ∧ h'.standing = h.standing ∧
      h'.told = h.told := by
  rw [giveBack]
  split
  · next first rest new slots line take =>
    change ∃ h', (Scheduler.hand { s with slots, line := rest } first new).handlings[i]? =
      some h' ∧ _
    rw [hand]
    split
    · next other found' =>
      by_cases at_ : first = i
      · subst at_
        obtain ⟨below, -⟩ := List.getElem?_eq_some_iff.mp found
        obtain rfl : other = h := Option.some.inj (found'.symm.trans found)
        exact ⟨_, List.getElem?_set_self below, other.hand_standing new, other.hand_told new⟩
      · exact ⟨h, (List.getElem?_set_ne at_).trans found, rfl, rfl⟩
    · exact ⟨h, found, rfl, rfl⟩
  · exact ⟨h, found, rfl, rfl⟩

theorem retire_calls (s : Scheduler) (i : Nat) (h : Handling)
    (result? : Option (Outcome Dispatched)) : (s.retire i h result?).calls = s.calls := by
  rw [retire]
  split
  · exact giveBack_calls _ _
  · rfl

/-- The end of a handling moves no other. -/
theorem standing_retire (found : s.handlings[j]? = some h) (ne : i ≠ j) (retired : Handling)
    (result? : Option (Outcome Dispatched)) :
    ∃ h', (s.retire i retired result?).handlings[j]? = some h' ∧ h'.standing = h.standing ∧
      h'.told = h.told := by
  have set : (s.handlings.set i { retired with stage := .closed result? })[j]? = some h :=
    (List.getElem?_set_ne ne).trans found
  rw [retire]
  split
  · exact standing_giveBack set _
  · exact ⟨h, set, rfl, rfl⟩

/-- A handling that goes on launches a call, stands in line, or ends. -/
theorem proceed_cases (happens : s.proceed i h = some s') : ∃ d, h.standing = .going d ∧
    ((∃ slots guard call rest free, d.step h.told free = .launch call rest ∧
        s' = ({ s with slots } : Scheduler).launch i h guard call rest) ∨
      (s' = s.enqueue i h d) ∨
      ∃ free result, d.step h.told free = .finished result ∧
        s' = s.retire i h (some result)) := by
  rw [proceed] at happens
  split at happens
  · next d at_ =>
    refine ⟨d, by simp [Handling.standing, at_], ?_⟩
    split at happens
    · next result next_ =>
      cases happens
      exact .inr (.inr ⟨_, _, next_, rfl⟩)
    · next next_ _ =>
      cases happens
      exact .inl ⟨_, _, _, _, _, next_, rfl⟩
    · cases happens
      exact .inr (.inl rfl)
    · cases happens
  · next d at_ =>
    refine ⟨d, by simp [Handling.standing, at_], ?_⟩
    split at happens
    · next next_ =>
      cases happens
      exact .inr (.inr ⟨_, _, next_, rfl⟩)
    · cases happens
  · next d guard at_ =>
    refine ⟨d, by simp [Handling.standing, at_], ?_⟩
    split at happens
    · next next_ =>
      cases happens
      exact .inr (.inr ⟨_, _, next_, rfl⟩)
    · next next_ =>
      cases happens
      exact .inl ⟨s.slots, guard, _, _, _, next_, rfl⟩
    · cases happens
  · cases happens

/-- Calls that start or finish remain those that were launched. -/
theorem windowsOf_setCall {n : Nat} {c : ScheduledCall} (found : s.calls[n]? = some c)
    (stage : CallStage) (i : Nat) : (s.setCall n { c with stage }).windowsOf i = s.windowsOf i := by
  have same : (s.calls.set n { c with stage }).map (fun c => (c.handling, c.window)) =
      s.calls.map fun c => (c.handling, c.window) :=
    map_set_self found rfl
  have view : ∀ calls : List ScheduledCall, (calls.filter (·.handling = i)).map (·.window) =
      ((calls.map fun c => (c.handling, c.window)).filter (·.1 = i)).map (·.2) := by
    intro calls
    rw [List.filter_map, List.map_map]
    rfl
  rw [windowsOf, windowsOf, view, view]
  exact congrArg (fun sent => (sent.filter (·.1 = i)).map (·.2)) same

theorem windowsOf_launch (s : Scheduler) (i : Nat) (h : Handling) (guard : Nat) (call : Payload)
    (rest : Dispatch) (j : Nat) : (s.launch i h guard call rest).windowsOf j = s.windowsOf j ++
      if i = j then [call.withActivation (s.ids s.calls.length)] else [] := by
  change ((s.calls ++ [_]).filter _).map _ = _
  rw [List.filter_append, List.map_append]
  by_cases at_ : i = j
  · simp [at_, windowsOf]
  · simp [at_, windowsOf]

/-- From one state of a scheduler to another a handling makes at most one step of its own, and what
it has launched in between is what that step launches. -/
def TurnsAt (s s' : Scheduler) (i : Nat) (h : Handling) : Prop :=
  ∃ window? h', s'.handlings[i]? = some h' ∧ h.Turns window? h' ∧
    s'.windowsOf i = s.windowsOf i ++ window?.toList

/-- A handling that is replaced makes its step, and the others make none. -/
theorem turnsAt_set {window? : Option Payload} {h' : Handling}
    (found : s.handlings[i]? = some h) {mover : Handling} (at_ : s.handlings[j]? = some mover)
    (turn : mover.Turns window? h') (handlings : s'.handlings = s.handlings.set j h')
    (windows : s'.windowsOf i = s.windowsOf i ++ if j = i then window?.toList else []) :
    s.TurnsAt s' i h := by
  by_cases same : j = i
  · subst same
    obtain rfl : mover = h := Option.some.inj (at_.symm.trans found)
    rw [if_pos rfl] at windows
    refine ⟨window?, h', ?_, turn, windows⟩
    rw [handlings, List.getElem?_set_self (List.getElem?_eq_some_iff.mp found).1]
  · rw [if_neg same] at windows
    refine ⟨none, h, ?_, .stays rfl id, windows⟩
    rw [handlings, List.getElem?_set_ne same, found]

/-- A handling that ends makes its step, and the others make none. -/
theorem turnsAt_retire {result? : Option (Outcome Dispatched)} (found : s.handlings[i]? = some h)
    {mover : Handling} (at_ : s.handlings[j]? = some mover)
    (turn : mover.Turns none { mover with stage := .closed result? }) :
    s.TurnsAt (s.retire j mover result?) i h := by
  have calls : (s.retire j mover result?).windowsOf i = s.windowsOf i ++ [] := by
    rw [windowsOf, retire_calls, List.append_nil, windowsOf]
  by_cases same : j = i
  · subst same
    obtain rfl : mover = h := Option.some.inj (at_.symm.trans found)
    exact ⟨none, _, getElem?_retire found result?, turn, calls⟩
  · obtain ⟨h', at', standing, told⟩ := standing_retire found same mover result?
    exact ⟨none, h', at', .stays standing (fun was => told.trans was), calls⟩

theorem turnsAt_of_onHandling (found : s.handlings[i]? = some h) {mover : Handling}
    (at_ : s.handlings[j]? = some mover) {e : HandlingEvent}
    (happens : s.onHandling j mover e = some s') : s.TurnsAt s' i h := by
  have unchanged : s.windowsOf i = s.windowsOf i ++ if j = i then none.toList else [] := by simp
  cases e with
  | tell =>
    cases happens
    have turn : mover.Turns none { mover with told := true } := .stays rfl fun _ => rfl
    exact turnsAt_set found at_ turn rfl unchanged
  | proceed =>
    obtain ⟨d, standing, ⟨slots, guard, call, rest, free, next, rfl⟩ | rfl |
      ⟨free, result, next, rfl⟩⟩ := proceed_cases happens
    · exact turnsAt_set found at_ (.launch standing next _) rfl (windowsOf_launch ..)
    · have turn : mover.Turns none { mover with stage := .queued d } := .stays standing.symm id
      exact turnsAt_set found at_ turn rfl unchanged
    · exact turnsAt_retire found at_ (.finish standing next)
  | drop =>
    rw [onHandling] at happens
    split at happens
    · cases happens
    · next unfinished =>
      cases happens
      cases standing : mover.standing with
      | going d => exact turnsAt_retire found at_ (.drop standing)
      | ended result? =>
        rw [Handling.standing_eq_ended_iff] at standing
        simp [Handling.isOver, standing] at unfinished

/-- Whatever happens to a scheduler is at most one step of each handling, and what it launches is
what its own step launches. -/
theorem turns_of_step (happens : s.step e = some s') (found : s.handlings[i]? = some h) :
    s.TurnsAt s' i h := by
  cases e with
  | receive body =>
    obtain ⟨below, -⟩ := List.getElem?_eq_some_iff.mp found
    cases happens
    exact ⟨none, h, (List.getElem?_append_left below).trans found, .stays rfl id,
      (List.append_nil _).symm⟩
  | handling j e =>
    obtain ⟨mover, at_, happens⟩ := Option.bind_eq_some_iff.mp happens
    exact turnsAt_of_onHandling found at_ happens
  | call n e =>
    cases moves_of_step happens with
    | start listed =>
      exact ⟨none, h, found, .stays rfl id,
        (windowsOf_setCall listed _ i).trans (List.append_nil _).symm⟩
    | @finish _ c listed =>
      obtain ⟨h', at', standing, told⟩ := standing_giveBack
        (s := s.setCall n { c with stage := .finished }) found c.guard
      refine ⟨none, h', at', .stays standing fun was => told.trans was, ?_⟩
      rw [windowsOf, giveBack_calls]
      exact (windowsOf_setCall listed _ i).trans (List.append_nil _).symm

end Scheduler

/-! ## One handling from its message on -/

/-- How far the handling of a message has come when it has launched some windows: they are those of
the first calls it was to launch. If it is going on, the others are left to it; if it came to a
result, that is what came next. -/
def Handling.Handled (job : Outcome (Option Dispatch)) (windows : List Payload) (h : Handling) :
    Prop :=
  match job with
  | .error e => windows = [] ∧ h.standing = .ended (some (.error e))
  | .ok none => windows = [] ∧ h.standing = .ended (some (.ok .skipped))
  | .ok (some d) =>
    List.Forall₂ (fun index window => ∃ call activationId, d.payload.single index = .ok call ∧
        window = call.withActivation activationId) (d.remaining.take windows.length) windows ∧
      match h.standing with
      | .going left => left = d.after windows.length
      | .ended none => True
      | .ended (some result) => ∃ told free,
          (d.after windows.length).step told free = .finished result ∧
          (told = true → h.told = true)

namespace Handling

variable {job : Outcome (Option Dispatch)} {windows : List Payload} {h h' : Handling}

theorem handled_ofJob (job : Outcome (Option Dispatch)) : (ofJob job).Handled job [] := by
  rcases job with e | _ | d
  · exact ⟨rfl, rfl⟩
  · exact ⟨rfl, rfl⟩
  · exact ⟨by simp, by simp [ofJob, standing, Dispatch.after]⟩

/-- A handling that has ended stays as it has ended, and launches nothing. -/
theorem Turns.of_ended {window? : Option Payload} {result? : Option (Outcome Dispatched)}
    (turns : h.Turns window? h') (ended : h.standing = .ended result?) :
    window? = none ∧ h'.standing = .ended result? := by
  cases turns with
  | stays standing => exact ⟨rfl, standing.trans ended⟩
  | launch at_ | finish at_ | drop at_ =>
    rw [ended] at at_
    cases at_

/-- A step of a handling takes it on in its message. -/
theorem Handled.turns {window? : Option Payload} (handled : h.Handled job windows)
    (turns : h.Turns window? h') : h'.Handled job (windows ++ window?.toList) := by
  rcases job with e | _ | d
  · obtain ⟨none, ended⟩ := handled
    obtain ⟨rfl, still⟩ := turns.of_ended ended
    exact ⟨by simp [none], still⟩
  · obtain ⟨none, ended⟩ := handled
    obtain ⟨rfl, still⟩ := turns.of_ended ended
    exact ⟨by simp [none], still⟩
  · obtain ⟨launched, stands⟩ := handled
    cases turns with
    | stays standing told =>
      rw [Option.toList_none, List.append_nil]
      refine ⟨launched, ?_⟩
      rw [standing]
      split at stands
      · exact stands
      · exact stands
      · obtain ⟨told', free, next, since⟩ := stands
        exact ⟨told', free, next, told ∘ since⟩
    | launch at_ next activationId =>
      rw [at_] at stands
      obtain rfl : _ = d.after windows.length := stands
      obtain ⟨index, remaining, first, single, -, -, rfl⟩ := Fleet.step_eq_launch next
      obtain ⟨later, more⟩ := Dispatch.advanced_succ
        (rfl : Dispatch.advanced (.ok (some d)) windows.length = _) first
      refine ⟨?_, ?_⟩
      · rw [Option.toList_some, List.length_append, List.length_singleton]
        exact more ▸ List.rel_append launched (.cons ⟨_, activationId, single, rfl⟩ .nil)
      · rw [Option.toList_some, List.length_append, List.length_singleton]
        exact (Option.some.inj (Except.ok.inj later)).symm
    | finish at_ next =>
      rw [at_] at stands
      obtain rfl : _ = d.after windows.length := stands
      rw [Option.toList_none, List.append_nil]
      exact ⟨launched, _, _, next, id⟩
    | drop at_ =>
      rw [Option.toList_none, List.append_nil]
      exact ⟨launched, trivial⟩

/-- A handling that has come to a result has launched everything, or stopped at a call that the
payload lacks or before which its token was cancelled. -/
theorem Handled.result_cases {d : Dispatch} {result : Outcome Dispatched}
    (handled : h.Handled (.ok (some d)) windows) (closed : h.stage = .closed (some result)) :
    (windows.length = d.remaining.length ∧
        result = .ok (.launched (d.launched + d.remaining.length) d.planned)) ∨
      ∃ index, d.remaining[windows.length]? = some index ∧
        ((d.payload.Lacks index ∧ ∃ fault, result = .error (.payload fault)) ∨
          (¬ d.payload.Lacks index ∧ h.told = true ∧ result = .error .shutdown)) := by
  obtain ⟨launched, stands⟩ := handled
  rw [standing_eq_ended_iff.mpr closed] at stands
  obtain ⟨told, free, ends, since⟩ := stands
  have fits : windows.length ≤ d.remaining.length := by
    have same := launched.length_eq
    rw [List.length_take] at same
    omega
  rcases Dispatch.step_eq_finished ends with ⟨none, rfl⟩ | ⟨index, rest, first, why⟩
  · have all : windows.length = d.remaining.length :=
      Nat.le_antisymm fits (List.drop_eq_nil_iff.mp none)
    exact .inl ⟨all, by rw [← all]; rfl⟩
  · have next : d.remaining[windows.length]? = some index := by
      rw [← List.head?_drop]
      exact congrArg List.head? first
    refine .inr ⟨index, next, why.imp_right fun ⟨has, was, same⟩ => ⟨has, since was, same⟩⟩

end Handling

/-! ## All handlings -/

namespace Scheduler

variable {cluster : Nat} {range : ProcessorRun} {bodies : List (List UInt8)}
  {s s' : Scheduler} {e : SchedulerEvent}

theorem giveBack_keeps (s : Scheduler) (guard : Nat) : (s.giveBack guard).cluster = s.cluster ∧
    (s.giveBack guard).handlings.length = s.handlings.length := by
  rw [giveBack]
  split
  · next first rest new slots line take =>
    change (Scheduler.hand { s with slots, line := rest } first new).cluster = s.cluster ∧
      (Scheduler.hand { s with slots, line := rest } first new).handlings.length = _
    rw [hand]
    split
    · exact ⟨rfl, List.length_set⟩
    · exact ⟨rfl, rfl⟩
  · exact ⟨rfl, rfl⟩

/-- An event moves no scheduler to another cluster, and only a message adds a handling. -/
theorem Moves.keeps (moves : Moves s e s') : s'.cluster = s.cluster ∧
    s'.handlings.length = s.handlings.length + e.body?.toList.length := by
  cases moves with
  | receive body => exact ⟨rfl, List.length_append⟩
  | tell | launch | enqueue | takeUp => exact ⟨rfl, List.length_set⟩
  | start => exact ⟨rfl, rfl⟩
  | @retire i h found e result? =>
    have length : (s.handlings.set i { h with stage := .closed result? }).length =
        s.handlings.length := List.length_set
    rw [Scheduler.retire]
    split
    · exact ⟨(giveBack_keeps _ _).1, (giveBack_keeps _ _).2.trans length⟩
    · exact ⟨rfl, length⟩
  | finish found at_ => exact giveBack_keeps _ _

/-- Every call is that of a handling. -/
def Owned (s : Scheduler) : Prop := ∀ c ∈ s.calls, c.handling < s.handlings.length

theorem Owned.moves (owned : s.Owned) (moves : Moves s e s') : s'.Owned := by
  have length := moves.keeps.2
  intro c listed
  rw [length]
  suffices below : c.handling < s.handlings.length by omega
  have launched : ∀ {i h guard} {window : Payload}, s.handlings[i]? = some h →
      c ∈ s.calls ++ [{ handling := i, window, guard }] → c.handling < s.handlings.length := by
    intro i h guard window found listed
    rcases List.mem_append.mp listed with old | new
    · exact owned c old
    · rw [List.mem_singleton.mp new]
      exact (List.getElem?_eq_some_iff.mp found).1
  have set : ∀ {n c' stage}, s.calls[n]? = some c' → c ∈ s.calls.set n { c' with stage } →
      c.handling < s.handlings.length := by
    intro n c' stage found listed
    rcases List.mem_or_eq_of_mem_set listed with old | rfl
    · exact owned c old
    · exact owned c' (List.mem_of_getElem? found)
  cases moves with
  | receive | tell | enqueue => exact owned c listed
  | launch found | takeUp found => exact launched found listed
  | start found => exact set found listed
  | finish found =>
    rw [giveBack_calls] at listed
    exact set found listed
  | retire =>
    rw [retire_calls] at listed
    exact owned c listed

/-- A handling that has yet to come has launched nothing. -/
theorem Owned.windowsOf_eq_nil (owned : s.Owned) {i : Nat} (past : s.handlings.length ≤ i) :
    s.windowsOf i = [] := by
  rw [windowsOf, List.map_eq_nil_iff, List.filter_eq_nil_iff]
  intro c listed
  have := owned c listed
  simp only [decide_eq_true_eq]
  omega

/-- A scheduler and the messages it has been handed: each has a handling, which has come as far as
the calls it has launched. -/
structure Heard (cluster : Nat) (range : ProcessorRun) (bodies : List (List UInt8))
    (s : Scheduler) : Prop where
  place : s.cluster = cluster ∧ s.range = range
  length : s.handlings.length = bodies.length
  owned : s.Owned
  handled : ∀ {i : Nat} {body : List UInt8}, bodies[i]? = some body →
    ∃ h, s.handlings[i]? = some h ∧
      h.Handled (Dispatch.ofBody cluster range body) (s.windowsOf i)

theorem Heard.idle (cluster : Nat) (range : ProcessorRun) (ids : Nat → String) :
    (idle cluster range ids).Heard cluster range [] where
  place := ⟨rfl, rfl⟩
  length := rfl
  owned c listed := by cases listed
  handled at_ := by cases at_

theorem Heard.step (heard : s.Heard cluster range bodies) (happens : s.step e = some s') :
    s'.Heard cluster range (bodies ++ e.body?.toList) := by
  have moves := moves_of_step happens
  obtain ⟨sameCluster, length⟩ := moves.keeps
  have total : s'.handlings.length = (bodies ++ e.body?.toList).length := by
    rw [length, heard.length, List.length_append]
  refine ⟨⟨sameCluster.trans heard.place.1, moves.range_eq.trans heard.place.2⟩, total,
    heard.owned.moves moves, fun {i body} at_ => ?_⟩
  by_cases old : i < bodies.length
  · rw [List.getElem?_append_left old] at at_
    obtain ⟨h, found, handled⟩ := heard.handled at_
    obtain ⟨window?, h', found', turns, windows⟩ := turns_of_step happens found
    exact ⟨h', found', windows ▸ handled.turns turns⟩
  · cases e with
    | handling | call =>
      replace at_ : (bodies ++ [])[i]? = some body := at_
      rw [List.append_nil] at at_
      exact absurd (List.getElem?_eq_some_iff.mp at_).1 old
    | receive received =>
      rcases getElem?_concat_cases at_ with before | ⟨rfl, rfl⟩
      · exact absurd (List.getElem?_eq_some_iff.mp before).1 old
      · cases happens
        have none := heard.owned.windowsOf_eq_nil (Nat.le_of_eq heard.length)
        refine ⟨Handling.ofJob (Dispatch.ofBody cluster range body), ?_, ?_⟩
        · rw [← heard.length, heard.place.1, heard.place.2]
          exact List.getElem?_concat_length
        · exact none ▸ Handling.handled_ofJob _

theorem Heard.run {events : List SchedulerEvent} (heard : s.Heard cluster range bodies)
    (runs : s.run events = some s') :
    s'.Heard cluster range (bodies ++ events.filterMap SchedulerEvent.body?) := by
  induction events generalizing s bodies with
  | nil =>
    cases runs
    rw [List.filterMap_nil, List.append_nil]
    exact heard
  | cons e rest ih =>
    obtain ⟨middle, first, later⟩ := Option.bind_eq_some_iff.mp runs
    have heard := ih (heard.step first) later
    rw [List.append_assoc] at heard
    cases body : e.body? with
    | none =>
      rw [List.filterMap_cons_none body]
      rwa [body] at heard
    | some received =>
      rw [List.filterMap_cons_some body]
      rwa [body] at heard

/-- A handling that need not wait goes on: it launches a call, unless its token is cancelled, or
comes to a result. -/
theorem goes_on {i : Nat} {h : Handling} (found : s.handlings[i]? = some h)
    (advances : s.Advances i) : ∃ s' h', s.step (.handling i .proceed) = some s' ∧
      s'.handlings[i]? = some h' ∧
      ((h.told = false ∧ ∃ window, s'.windowsOf i = s.windowsOf i ++ [window]) ∨
        ∃ result, h'.stage = .closed (some result)) := by
  obtain ⟨s', happens, progress⟩ := advances
  have proceeds : s.proceed i h = some s' := by
    have at_ := happens
    rw [step, found] at at_
    exact at_
  obtain ⟨below, -⟩ := List.getElem?_eq_some_iff.mp found
  obtain ⟨d, -, ⟨slots, guard, call, rest, free, next, rfl⟩ | rfl | ⟨_, result, -, rfl⟩⟩ :=
    proceed_cases proceeds
  · obtain ⟨_, _, _, _, untold, -⟩ := Fleet.step_eq_launch next
    refine ⟨_, _, happens, List.getElem?_set_self below, .inl ⟨untold,
      call.withActivation (s.ids s.calls.length), ?_⟩⟩
    rw [windowsOf_launch, if_pos rfl]
    rfl
  · exfalso
    rcases progress with more | ⟨h', found', ended⟩
    · exact absurd more (Nat.ne_of_lt (Nat.lt_succ_self _))
    · rw [show (s.enqueue i h d).handlings[i]? = _ from List.getElem?_set_self below] at found'
      cases found'
      cases ended
  · exact ⟨_, _, happens, getElem?_retire found _, .inr ⟨result, rfl⟩⟩

end Scheduler

end CallDispatch
