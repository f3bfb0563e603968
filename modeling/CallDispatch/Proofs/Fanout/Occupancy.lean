import CallDispatch.Proofs.Fanout.Launching
import CallDispatch.Proofs.Lists

/-!
# Slots are neither lost nor left idle

The slots a scheduler has given out are those of its unfinished calls and those that have been
handed to somebody in line. Nobody stands in line while a slot is free. Both hold after every event,
however the handlings of several messages, their cancellations and the ends of their calls follow
one another.
-/

namespace CallDispatch

/-! ## Waiting for a slot -/

namespace Dispatch

variable {d : Dispatch} {told free : Bool}

/-- Only who has not been told to stop waits, and only where no slot is free. -/
theorem of_step_eq_wait (waits : d.step told free = .wait) :
    told = false ∧ free = false ∧ ∃ index rest call,
      d.remaining = index :: rest ∧ d.payload.single index = .ok call := by
  rw [step] at waits
  split at waits
  · cases waits
  · next index rest some =>
    split at waits
    · cases waits
    · next call single =>
      cases told <;> cases free <;> cases waits
      exact ⟨rfl, rfl, index, rest, call, some, single⟩

/-- Told to stop, who has been waiting stops. -/
theorem step_told_of_wait (waits : d.step told free = .wait) (free' : Bool) :
    d.step true free' = .finished (.error .shutdown) := by
  obtain ⟨-, -, index, rest, call, some, single⟩ := of_step_eq_wait waits
  simp [step, some, single]

end Dispatch

namespace Scheduler

variable {s s' : Scheduler} {e : SchedulerEvent} {i : Nat} {h h' : Handling}
  {loose loose' : List Nat}

/-- The slots of unfinished calls. -/
def busy (s : Scheduler) : List Nat := s.calls.flatMap (·.held)

/-- The slots that somebody in line has been handed. -/
def reserved (s : Scheduler) : List Nat := s.handlings.flatMap (·.held)

/-- The slots that are taken are those of unfinished calls, those that have been handed to somebody
in line, and the `loose` ones, which are about to be given back. In line stand just the handlings
that wait, and only while all slots are taken. -/
structure Kept (s : Scheduler) (loose : List Nat) : Prop where
  capacity : s.slots.capacity = max s.range.size 1
  held : s.slots.held.Perm (loose ++ (s.busy ++ s.reserved))
  bounded : s.slots.taken ≤ s.slots.capacity
  line : ∀ i, i ∈ s.line ↔ ∃ h, s.handlings[i]? = some h ∧ h.isQueued = true
  nodup : s.line.Nodup
  full : s.line ≠ [] → s.slots.taken = s.slots.capacity
  suspended : ∀ h ∈ s.handlings, ∀ d, h.suspended = some d → d.step false false = .wait

theorem Kept.idle (cluster : Nat) (range : ProcessorRun) (ids : Nat → String) :
    (idle cluster range ids).Kept [] where
  capacity := rfl
  held := .refl _
  bounded := Nat.zero_le _
  line i := by simp [Scheduler.idle]
  nodup := .nil
  full standing := absurd rfl standing
  suspended h listed := by cases listed

/-- While a slot is free nobody stands in line. -/
theorem Kept.line_eq_nil (kept : s.Kept loose) (free : s.slots.hasFree = true) : s.line = [] := by
  by_contra standing
  have below : s.slots.taken < s.slots.capacity := of_decide_eq_true free
  have := kept.full standing
  omega

/-- A handling takes the place of another. -/
theorem Kept.replace (kept : s.Kept loose) (found : s.handlings[i]? = some h)
    (handlings : s'.handlings = s.handlings.set i h') (range : s'.range = s.range)
    (capacity : s'.slots.capacity = s.slots.capacity)
    (held : s'.slots.held.Perm (loose' ++ (s'.busy ++ s'.reserved)))
    (bounded : s'.slots.taken ≤ s.slots.capacity)
    (others : ∀ j ≠ i, (j ∈ s'.line ↔ j ∈ s.line)) (here : i ∈ s'.line ↔ h'.isQueued = true)
    (nodup : s'.line.Nodup) (full : s'.line ≠ [] → s'.slots.taken = s.slots.capacity)
    (suspended : ∀ d, h'.suspended = some d → d.step false false = .wait) : s'.Kept loose' where
  capacity := by rw [capacity, range, kept.capacity]
  held := held
  bounded := capacity ▸ bounded
  line j := by
    rw [handlings]
    by_cases at_ : j = i
    · subst at_
      obtain ⟨below, -⟩ := List.getElem?_eq_some_iff.mp found
      rw [List.getElem?_set_self below, here]
      simp
    · rw [others j at_, kept.line, List.getElem?_set_ne (Ne.symm at_)]
  nodup := nodup
  full := capacity ▸ full
  suspended other listed d awaited := by
    rw [handlings] at listed
    rcases List.mem_or_eq_of_mem_set listed with old | rfl
    · exact kept.suspended other old d awaited
    · exact suspended d awaited

theorem reserved_set_perm (found : s.handlings[i]? = some h) (h' : Handling) :
    (h.held ++ (s.handlings.set i h').flatMap (·.held)).Perm (h'.held ++ s.reserved) :=
  flatMap_set_perm found h' (·.held)

/-- A handling that neither gets nor loses a slot leaves the reserved ones as they are. -/
theorem reserved_set_of_held (found : s.handlings[i]? = some h) (same : h'.held = h.held) :
    ((s.handlings.set i h').flatMap (·.held)).Perm s.reserved := by
  have perm := reserved_set_perm found h'
  rw [same] at perm
  exact (List.perm_append_left_iff _).mp perm

/-- Whether a handling stands in line. -/
theorem Kept.mem_line_iff (kept : s.Kept loose) (found : s.handlings[i]? = some h) :
    i ∈ s.line ↔ h.isQueued = true := by
  rw [kept.line]
  constructor
  · rintro ⟨other, found', queued⟩
    rw [found] at found'
    cases found'
    exact queued
  · exact fun queued => ⟨h, found, queued⟩

/-! ## Giving slots back -/

theorem giveBack_of_nil (empty : s.line = []) (guard : Nat) :
    s.giveBack guard = { s with slots := s.slots.release guard } := by
  rw [giveBack, empty]

theorem giveBack_of_cons {first guard : Nat} {rest : List Nat} (line : s.line = first :: rest)
    (free : (s.slots.release guard).hasFree = true) (found : s.handlings[first]? = some h) :
    s.giveBack guard = { s with
      slots := (s.slots.release guard).take.2
      line := rest
      handlings := s.handlings.set first (h.hand s.slots.issued) } := by
  rw [giveBack, line, Slots.take_of_hasFree free]
  simp only [hand, found]
  rfl

theorem Kept.giveBack {guard : Nat} (kept : s.Kept [guard]) : (s.giveBack guard).Kept [] := by
  have held : (s.slots.release guard).held.Perm (s.busy ++ s.reserved) := by
    have erased := kept.held.erase guard
    rwa [List.singleton_append, List.erase_cons_head] at erased
  have fewer : (s.slots.release guard).taken + 1 = s.slots.taken := by
    rw [Slots.taken, Slots.taken, held.length_eq, kept.held.length_eq]
    simp only [List.length_append, List.length_singleton]
    omega
  have bounded := kept.bounded
  cases line : s.line with
  | nil =>
    rw [giveBack_of_nil line]
    exact {
      kept with
      held := held
      bounded := by
        change (s.slots.release guard).taken ≤ s.slots.capacity
        omega
      full := fun standing => absurd line standing }
  | cons first rest =>
    have full := kept.full (by simp [line])
    have free : (s.slots.release guard).hasFree = true := by
      refine decide_eq_true ?_
      change (s.slots.release guard).taken < s.slots.capacity
      omega
    have nodup := kept.nodup
    rw [line] at nodup
    obtain ⟨fresh, nodup⟩ := List.nodup_cons.mp nodup
    obtain ⟨h, found, queued⟩ := (kept.line first).mp (by simp [line])
    obtain ⟨d, at_⟩ : ∃ d, h.stage = .queued d := by
      cases at_ : h.stage <;> simp [Handling.isQueued, at_] at queued
      exact ⟨_, rfl⟩
    have handed : h.hand s.slots.issued = { h with stage := .handed d s.slots.issued } := by
      simp [Handling.hand, at_]
    have taken : (s.slots.release guard).take.2.taken = s.slots.taken := by
      rw [Slots.take_of_hasFree free, ← fewer]
      rfl
    rw [giveBack_of_cons line free found, handed]
    refine kept.replace found rfl rfl ?_ ?_ ?_ ?_ ?_ nodup ?_ ?_
    · rw [Slots.take_of_hasFree free]
      rfl
    · have perm := reserved_set_perm found { h with stage := .handed d s.slots.issued }
      have before : h.held = [] := by simp [Handling.held, at_]
      rw [before, List.nil_append] at perm
      rw [Slots.take_of_hasFree free]
      exact (held.cons s.slots.issued).trans
        (List.perm_middle.symm.trans (perm.symm.append_left s.busy))
    · exact taken ▸ bounded
    · intro j ne
      rw [line, List.mem_cons]
      exact ⟨.inr, fun standing => standing.resolve_left ne⟩
    · simp [fresh, Handling.isQueued]
    · exact fun _ => taken.trans full
    · intro d' awaited
      exact kept.suspended h (List.mem_of_getElem? found) d'
        (by simpa [Handling.suspended, at_] using awaited)

/-! ## What events keep -/

theorem Kept.receive (kept : s.Kept []) (job : Outcome (Option Dispatch)) :
    { s with handlings := s.handlings ++ [Handling.ofJob job] }.Kept [] := by
  have unqueued : (Handling.ofJob job).isQueued = false := by rcases job with _ | _ | _ <;> rfl
  have empty : (Handling.ofJob job).held = [] := by rcases job with _ | _ | _ <;> rfl
  have active : (Handling.ofJob job).suspended = none := by rcases job with _ | _ | _ <;> rfl
  exact {
    kept with
    held := by
      have same : ({ s with handlings := s.handlings ++ [Handling.ofJob job] } : Scheduler).reserved
          = s.reserved := by
        rw [reserved, List.flatMap_append, List.flatMap_singleton, empty, List.append_nil]
        rfl
      rw [same]
      exact kept.held
    line := by
      intro j
      rw [kept.line]
      constructor
      · rintro ⟨h, found, queued⟩
        obtain ⟨below, -⟩ := List.getElem?_eq_some_iff.mp found
        exact ⟨h, (List.getElem?_append_left below).trans found, queued⟩
      · rintro ⟨h, found, queued⟩
        rcases getElem?_concat_cases found with old | ⟨-, rfl⟩
        · exact ⟨h, old, queued⟩
        · rw [unqueued] at queued
          cases queued
    suspended := by
      intro h listed d awaited
      rcases List.mem_append.mp listed with old | new
      · exact kept.suspended h old d awaited
      · rw [List.mem_singleton.mp new, active] at awaited
        cases awaited }

theorem Kept.tell (kept : s.Kept []) (found : s.handlings[i]? = some h) :
    (s.setHandling i { h with told := true }).Kept [] := by
  refine kept.replace found rfl rfl rfl ?_ kept.bounded (fun _ _ => Iff.rfl) ?_ kept.nodup
    kept.full (kept.suspended h (List.mem_of_getElem? found))
  · exact kept.held.trans ((reserved_set_of_held found (by rfl)).symm.append_left s.busy)
  · exact (kept.mem_line_iff found : i ∈ s.line ↔ h.isQueued = true)

/-- Whoever finds a free slot takes it. -/
theorem Kept.take (kept : s.Kept []) (free : s.slots.hasFree = true) :
    ({ s with slots := s.slots.take.2 } : Scheduler).Kept [s.slots.issued] := by
  rw [Slots.take_of_hasFree free]
  exact {
    kept with
    held := kept.held.cons _
    bounded := of_decide_eq_true free
    full := fun standing => absurd (kept.line_eq_nil free) standing }

/-- A handling launches a call with a slot it has just taken or has been handed. -/
theorem Kept.launch {guard : Nat} (kept : s.Kept loose) (found : s.handlings[i]? = some h)
    (slot : loose ++ h.held = [guard]) (unqueued : h.isQueued = false) (call : Payload)
    (rest : Dispatch) : (s.launch i h guard call rest).Kept [] := by
  refine kept.replace found rfl rfl rfl ?_ kept.bounded (fun _ _ => Iff.rfl) ?_ kept.nodup
    kept.full ?_
  · have busy : (s.launch i h guard call rest).busy = s.busy ++ [guard] := List.flatMap_append
    have reserved : (h.held ++ (s.launch i h guard call rest).reserved).Perm s.reserved :=
      reserved_set_perm found { h with stage := .launching rest }
    rw [busy, List.nil_append, List.append_assoc, ← slot, List.append_assoc]
    calc
      s.slots.held.Perm (loose ++ (s.busy ++ s.reserved)) := kept.held
      _ |>.Perm (s.busy ++ (loose ++ s.reserved)) := List.perm_append_comm_assoc _ _ _
      _ |>.Perm _ := (reserved.symm.append_left loose).append_left s.busy
  · have aside := kept.mem_line_iff found
    rw [unqueued] at aside
    exact aside
  · intro d awaited
    cases awaited

/-- A handling that finds no free slot stands in line. -/
theorem Kept.enqueue {d : Dispatch} (kept : s.Kept []) (found : s.handlings[i]? = some h)
    (at_ : h.stage = .launching d) (waits : d.step h.told s.slots.hasFree = .wait) :
    (s.enqueue i h d).Kept [] := by
  obtain ⟨untold, none, -⟩ := Dispatch.of_step_eq_wait waits
  have absent : i ∉ s.line := by
    rw [kept.mem_line_iff found]
    simp [Handling.isQueued, at_]
  refine kept.replace found rfl rfl rfl ?_ kept.bounded ?_ ?_ ?_ ?_ ?_
  · have same : ({ h with stage := .queued d } : Handling).held = h.held := by
      simp [Handling.held, at_]
    exact kept.held.trans ((reserved_set_of_held found same).symm.append_left s.busy)
  · intro j ne
    simp [Scheduler.enqueue, setHandling, ne]
  · simp [Scheduler.enqueue, setHandling, Handling.isQueued]
  · exact List.nodup_append.mpr ⟨kept.nodup, List.pairwise_singleton _ i, by
      rintro j standing _ last rfl
      rw [List.mem_singleton.mp last] at standing
      exact absent standing⟩
  · intro _
    have above : ¬ s.slots.taken < s.slots.capacity := of_decide_eq_false none
    have := kept.bounded
    change s.slots.taken = s.slots.capacity
    omega
  · intro d' awaited
    cases awaited
    rw [untold, none] at waits
    exact waits

/-- A handling that is over stands in line no longer and keeps no slot. -/
theorem Kept.retire (kept : s.Kept []) (found : s.handlings[i]? = some h)
    (result? : Option (Outcome Dispatched)) : (s.retire i h result?).Kept [] := by
  have left : (({ s with line := s.line.erase i } : Scheduler).setHandling i
      { h with stage := .closed result? }).Kept h.held := by
    refine kept.replace found rfl rfl rfl ?_ kept.bounded ?_ ?_ (kept.nodup.erase i) ?_ ?_
    · have reserved := reserved_set_perm found { h with stage := .closed result? }
      calc
        s.slots.held.Perm (s.busy ++ s.reserved) := kept.held
        _ |>.Perm (s.busy ++ (h.held ++ _)) := reserved.symm.append_left s.busy
        _ |>.Perm _ := List.perm_append_comm_assoc _ _ _
    · intro j ne
      exact List.mem_erase_of_ne ne
    · simp [setHandling, Handling.isQueued, kept.nodup.mem_erase_iff]
    · intro standing
      refine kept.full fun empty => standing ?_
      simp [setHandling, empty]
    · intro d awaited
      cases awaited
  rw [Scheduler.retire]
  split
  · next d guard at_ =>
    have slot : h.held = [guard] := by simp [Handling.held, at_]
    rw [slot] at left
    exact left.giveBack
  · next other =>
    have slot : h.held = [] := by
      rw [Handling.held]
      split
      · next d guard at_ => exact absurd at_ (other d guard)
      · rfl
    rwa [slot] at left

/-- A call starts or finishes. -/
theorem busy_setCall {n : Nat} {c : ScheduledCall} (found : s.calls[n]? = some c)
    (c' : ScheduledCall) : (c.held ++ (s.setCall n c').busy).Perm (c'.held ++ s.busy) :=
  flatMap_set_perm found c' (·.held)

theorem Kept.finish {n : Nat} {c : ScheduledCall} (kept : s.Kept [])
    (found : s.calls[n]? = some c) (at_ : c.stage = .running) :
    ((s.setCall n { c with stage := .finished }).giveBack c.guard).Kept [] := by
  refine Kept.giveBack { kept with held := ?_ }
  have busy := busy_setCall found { c with stage := .finished }
  have own : c.held = [c.guard] := by simp [ScheduledCall.held, at_]
  have gone : ({ c with stage := .finished } : ScheduledCall).held = [] := rfl
  rw [own, gone] at busy
  exact kept.held.trans (busy.symm.append_right s.reserved)

theorem Kept.start {n : Nat} {c : ScheduledCall} (kept : s.Kept [])
    (found : s.calls[n]? = some c) (at_ : c.stage = .launched) :
    (s.setCall n { c with stage := .running }).Kept [] := by
  refine { kept with held := ?_ }
  have busy := busy_setCall found { c with stage := .running }
  have same : ({ c with stage := .running } : ScheduledCall).held = c.held := by
    simp [ScheduledCall.held, at_]
  rw [same] at busy
  have perm := (List.perm_append_left_iff _).mp busy
  exact kept.held.trans (perm.symm.append_right s.reserved)

theorem Kept.moves (kept : s.Kept []) (moves : Moves s e s') : s'.Kept [] := by
  cases moves with
  | receive body => exact kept.receive _
  | tell found => exact kept.tell found
  | launch found at_ next =>
    obtain ⟨_, _, _, _, _, free, -⟩ := Fleet.step_eq_launch next
    refine (kept.take free).launch found ?_ ?_ _ _
    · simp [Handling.held, at_]
    · simp [Handling.isQueued, at_]
  | enqueue found at_ waits => exact kept.enqueue found at_ waits
  | takeUp found at_ next =>
    refine kept.launch found ?_ ?_ _ _
    · simp [Handling.held, at_]
    · simp [Handling.isQueued, at_]
  | retire found e result? => exact kept.retire found result?
  | start found at_ => exact kept.start found at_
  | finish found at_ => exact kept.finish found at_

theorem Kept.run {events : List SchedulerEvent} (kept : s.Kept [])
    (runs : s.run events = some s') : s'.Kept [] := by
  induction events generalizing s with
  | nil =>
    cases runs
    exact kept
  | cons e rest ih =>
    obtain ⟨middle, first, later⟩ := Option.bind_eq_some_iff.mp runs
    exact ih (kept.moves (moves_of_step first)) later

/-! ## Going on -/

/-- A handling goes on: it launches one more call, or is over. -/
def Advances (s : Scheduler) (i : Nat) : Prop :=
  ∃ s', s.step (.handling i .proceed) = some s' ∧
    (s'.calls.length = s.calls.length + 1 ∨
      ∃ h, s'.handlings[i]? = some h ∧ h.isOver = true)

/-- Who does not stand in line does not notice that a slot is given back. -/
theorem getElem?_giveBack (found : s.handlings[i]? = some h) (unqueued : h.isQueued = false)
    (guard : Nat) : (s.giveBack guard).handlings[i]? = some h := by
  rw [giveBack]
  split
  · next first rest new slots line take =>
    change (Scheduler.hand { s with slots, line := rest } first new).handlings[i]? = some h
    rw [hand]
    split
    · next other found' =>
      by_cases at_ : first = i
      · subst at_
        obtain ⟨below, -⟩ := List.getElem?_eq_some_iff.mp found
        have same : other = h := Option.some.inj (found'.symm.trans found)
        have unmoved : other.hand new = h := by
          rw [same, Handling.hand]
          split
          · next d queued => simp [Handling.isQueued, queued] at unqueued
          · rfl
        rw [unmoved]
        exact List.getElem?_set_self below
      · exact (List.getElem?_set_ne at_).trans found
    · exact found
  · exact found

theorem getElem?_retire (found : s.handlings[i]? = some h)
    (result? : Option (Outcome Dispatched)) :
    (s.retire i h result?).handlings[i]? = some { h with stage := .closed result? } := by
  obtain ⟨below, -⟩ := List.getElem?_eq_some_iff.mp found
  have set : (s.handlings.set i { h with stage := .closed result? })[i]? =
      some { h with stage := .closed result? } := List.getElem?_set_self below
  rw [retire]
  split
  · exact getElem?_giveBack set rfl _
  · exact set

theorem advances_of_retire {result : Outcome Dispatched} (found : s.handlings[i]? = some h)
    (goes : s.proceed i h = some (s.retire i h (some result))) : s.Advances i := by
  refine ⟨s.retire i h (some result), ?_, .inr ⟨_, getElem?_retire found (some result), rfl⟩⟩
  rw [step, found]
  exact goes

theorem advances_of_launch {middle : Scheduler} {guard : Nat} {call : Payload} {rest : Dispatch}
    (found : s.handlings[i]? = some h)
    (goes : s.proceed i h = some (middle.launch i h guard call rest))
    (same : middle.calls = s.calls) : s.Advances i := by
  refine ⟨middle.launch i h guard call rest, ?_, .inl ?_⟩
  · rw [step, found]
    exact goes
  · rw [← same]
    exact List.length_append

/-- Who has been told to stop, has been handed a slot or finds one free goes on at once. -/
theorem Kept.advances (kept : s.Kept []) (found : s.handlings[i]? = some h)
    (unfinished : h.isOver = false)
    (able : h.told = true ∨ h.held ≠ [] ∨ s.slots.hasFree = true) : s.Advances i := by
  cases at_ : h.stage with
  | closed result? => simp [Handling.isOver, at_] at unfinished
  | launching d =>
    cases next : d.step h.told s.slots.hasFree with
    | finished result =>
      have goes : s.proceed i h = some (s.retire i h (some result)) := by simp [proceed, at_, next]
      exact advances_of_retire found goes
    | launch call rest =>
      obtain ⟨_, _, _, _, _, free, -⟩ := Fleet.step_eq_launch next
      have goes : s.proceed i h = some (({ s with slots := s.slots.take.2 } : Scheduler).launch i h
          s.slots.issued call rest) := by
        simp only [proceed, at_, next, Slots.take_of_hasFree free]
      exact advances_of_launch found goes rfl
    | wait =>
      obtain ⟨untold, none, -⟩ := Dispatch.of_step_eq_wait next
      simp [untold, none, Handling.held, at_] at able
  | queued d =>
    have awaited : h.suspended = some d := by simp [Handling.suspended, at_]
    have waits := kept.suspended h (List.mem_of_getElem? found) d awaited
    have told : h.told = true := by
      refine able.resolve_right ?_
      rintro (held | free)
      · simp [Handling.held, at_] at held
      · have standing := (kept.mem_line_iff found).mpr (by simp [Handling.isQueued, at_])
        rw [kept.line_eq_nil free] at standing
        cases standing
    have goes : s.proceed i h = some (s.retire i h (some (.error .shutdown))) := by
      simp [proceed, at_, told, Dispatch.step_told_of_wait waits]
    exact advances_of_retire found goes
  | handed d guard =>
    cases next : d.step h.told true with
    | finished result =>
      have goes : s.proceed i h = some (s.retire i h (some result)) := by simp [proceed, at_, next]
      exact advances_of_retire found goes
    | launch call rest =>
      have goes : s.proceed i h = some (s.launch i h guard call rest) := by
        simp [proceed, at_, next]
      exact advances_of_launch found goes rfl
    | wait =>
      obtain ⟨-, none, -⟩ := Dispatch.of_step_eq_wait next
      cases none

/-! ## Slots and unfinished calls -/

theorem length_busy (s : Scheduler) : s.busy.length = s.unfinished := by
  rw [busy, unfinished]
  induction s.calls with
  | nil => rfl
  | cons c rest ih =>
    rw [List.flatMap_cons, List.length_append, ih]
    by_cases finished : c.stage = .finished
    · simp [ScheduledCall.held, finished]
    · simp [ScheduledCall.held, finished, Nat.add_comm]

theorem Kept.taken_eq (kept : s.Kept []) :
    s.slots.taken = s.unfinished + s.reserved.length := by
  rw [Slots.taken, kept.held.length_eq, ← length_busy]
  exact (List.length_append : (s.busy ++ s.reserved).length = _)

/-- While nobody waits, no slot is reserved. -/
theorem reserved_eq_nil (nobody : ∀ h ∈ s.handlings, h.suspended = none) : s.reserved = [] := by
  refine List.flatMap_eq_nil_iff.mpr fun h listed => ?_
  have active := nobody h listed
  cases at_ : h.stage <;> simp [Handling.held, Handling.suspended, at_] at active ⊢

theorem giveBack_range (s : Scheduler) (guard : Nat) : (s.giveBack guard).range = s.range := by
  rw [giveBack]
  split
  · next first rest new slots line take =>
    change (Scheduler.hand { s with slots, line := rest } first new).range = s.range
    rw [hand]
    split <;> rfl
  · rfl

theorem Moves.range_eq (moves : Moves s e s') : s'.range = s.range := by
  cases moves with
  | receive | tell | launch | enqueue | takeUp | start => rfl
  | retire found e result? =>
    rw [Scheduler.retire]
    split
    · exact giveBack_range _ _
    · rfl
  | finish found at_ => exact giveBack_range _ _

theorem range_of_run {events : List SchedulerEvent} (runs : s.run events = some s') :
    s'.range = s.range := by
  induction events generalizing s with
  | nil =>
    cases runs
    rfl
  | cons e rest ih =>
    obtain ⟨middle, first, later⟩ := Option.bind_eq_some_iff.mp runs
    exact (ih later).trans (moves_of_step first).range_eq

/-- At every moment, whatever messages have come, whatever became of their tokens and however long
the calls take, there are no more unfinished calls than slots taken and no more slots taken than
processors. While nobody waits for a slot, each that is taken is that of an unfinished call. Who
stands in line does so while all slots are taken, and who has been handed a slot, finds one free or
has been told to stop can go on. In the end all slots have come back. -/
theorem slots_account_for_calls {cluster : Nat} {range : ProcessorRun} {ids : Nat → String}
    {events : List SchedulerEvent} (runs : (idle cluster range ids).run events = some s) :
    s.unfinished ≤ s.slots.taken ∧ s.slots.taken ≤ range.size ∧
    ((∀ h ∈ s.handlings, h.suspended = none) → s.unfinished = s.slots.taken) ∧
    (∀ h ∈ s.handlings, h.isQueued = true → s.slots.taken = range.size) ∧
    (∀ (i : Nat) (h : Handling), s.handlings[i]? = some h → h.isOver = false →
      h.told = true ∨ h.held ≠ [] ∨ s.slots.taken < range.size → s.Advances i) ∧
    ((∀ c ∈ s.calls, c.stage = .finished) → (∀ h ∈ s.handlings, h.suspended = none) →
      s.slots.taken = 0) := by
  have kept := (Kept.idle cluster range ids).run runs
  have place : s.range = range := range_of_run runs
  have size : 0 < range.size := Nat.succ_pos _
  have capacity : s.slots.capacity = range.size := by
    rw [kept.capacity, place]
    omega
  have taken := kept.taken_eq
  refine ⟨by omega, capacity ▸ kept.bounded, ?_, ?_, ?_, ?_⟩
  · intro nobody
    rw [taken, reserved_eq_nil nobody, List.length_nil, Nat.add_zero]
  · intro h listed queued
    obtain ⟨i, found⟩ := List.getElem?_of_mem listed
    have standing := List.ne_nil_of_mem ((kept.mem_line_iff found).mpr queued)
    exact (kept.full standing).trans capacity
  · intro i h found unfinished able
    refine kept.advances found unfinished (able.imp_right (Or.imp_right fun below => ?_))
    exact decide_eq_true (capacity ▸ below)
  · intro finished nobody
    have none : s.unfinished = 0 := by
      rw [unfinished, List.length_eq_zero_iff]
      exact List.filter_eq_nil_iff.mpr fun c listed => by simp [finished c listed]
    rw [taken, none, reserved_eq_nil nobody]
    rfl

/-- A job of two calls. -/
def twoCalls : Payload where
  executorId := "e"
  jobId := "j"
  totalCalls := 2
  callIds := ["0", "1"]

/-- Two messages come where there is one slot. The first call has it, then the second message is
handed it, whose token is cancelled before it goes on. -/
def competing (body : List UInt8) : List SchedulerEvent :=
  [.receive body, .receive body, .handling 0 .proceed, .handling 1 .proceed, .handling 0 .proceed,
    .call 0 .start, .call 0 .finish, .handling 1 .tell]

/-- The slot goes on to the first message, and its second call has it. -/
def resolving : List SchedulerEvent :=
  [.handling 1 .proceed, .handling 0 .proceed, .handling 0 .proceed, .call 1 .start,
    .call 1 .finish]

theorem slots_account_for_calls_of_two_messages : ∃ s s' : Scheduler,
    (idle 1 ⟨0, 0⟩ Activation.id).run (competing (Text.Utf8.encode twoCalls.json.render)) = some s ∧
    s.unfinished ≤ s.slots.taken ∧ s.slots.taken = 1 ∧ s.Advances 1 ∧
    (idle 1 ⟨0, 0⟩ Activation.id).run
      (competing (Text.Utf8.encode twoCalls.json.render) ++ resolving) = some s' ∧
    s'.calls.length = 2 ∧ s'.slots.taken = 0 := by
  generalize bytes : Text.Utf8.encode twoCalls.json.render = body
  have competed : ((idle 1 ⟨0, 0⟩ Activation.id).run (competing body)).any (fun s =>
      s.handlings[0]?.any Handling.isQueued = true ∧
      s.handlings[1]?.any (fun h => h.told && !h.isOver) = true) = true := by
    subst bytes
    decide +kernel
  have resolved : ((idle 1 ⟨0, 0⟩ Activation.id).run (competing body ++ resolving)).any (fun s =>
      s.calls.length = 2 ∧ (∀ c ∈ s.calls, c.stage = .finished) ∧
      ∀ h ∈ s.handlings, h.suspended.isNone = true) = true := by
    subst bytes
    decide +kernel
  obtain ⟨s, runs, at_⟩ := (Option.any_eq_true _ _).mp competed
  obtain ⟨s', runs', at'⟩ := (Option.any_eq_true _ _).mp resolved
  obtain ⟨first, second⟩ := of_decide_eq_true at_
  obtain ⟨length, finished, nobody⟩ := of_decide_eq_true at'
  obtain ⟨h, found, queued⟩ := (Option.any_eq_true _ _).mp first
  obtain ⟨h', found', told⟩ := (Option.any_eq_true _ _).mp second
  rw [Bool.and_eq_true, Bool.not_eq_true'] at told
  obtain ⟨le, -, -, full, goes, -⟩ := slots_account_for_calls runs
  obtain ⟨-, -, -, -, -, free⟩ := slots_account_for_calls runs'
  refine ⟨s, s', runs, le, full h (List.mem_of_getElem? found) queued, ?_, runs', length, ?_⟩
  · exact goes 1 h' found' told.2 (.inl told.1)
  · exact free finished fun h listed => Option.isNone_iff_eq_none.mp (nobody h listed)

end Scheduler

end CallDispatch
