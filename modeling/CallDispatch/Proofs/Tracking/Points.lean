import CallDispatch.Proofs.Tracking.Beginning
import CallDispatch.Proofs.Tracking.Graphs

/-!
# The points of a run

A run goes from point to point: it takes a turn, finds that time is up, hears of a change, lets the
monitors look, sees the clock move on, or finds that what it waits for has come. Nothing is said
here of how stores change, but all that they and the changes laid out along a run can ever list are
finitely many calls. So a wait set meets only finitely many joined job keys, no stretch of turns is
longer than a pass over units for all of these, and a run that is allowed as many turns is never cut
short in one.
-/

namespace CallDispatch

/-! ## Changes -/

/-- The calls that a change makes an output list. -/
def Change.listed : Change → List CallName
  | .leaveOutput _ _ output => output.keys
  | _ => []

namespace Stores

/-- The calls that the outputs of a store list. -/
def listedIn (store : Store) : List CallName := store.outputs.flatMap fun left => left.2.keys

theorem mem_listed_of_store {stores : Stores} {backend : String} {key : CallName}
    (member : key ∈ listedIn (stores.store backend)) : key ∈ stores.listed := by
  obtain ⟨left, inside, listed⟩ := List.mem_flatMap.mp member
  exact mem_listed_of_find inside listed

theorem mem_listed_update {stores : Stores} {backend : String} {f : Store → Store}
    {key : CallName} (member : key ∈ (stores.update backend f).listed) :
    key ∈ listedIn (f (stores.store backend)) ∨ key ∈ stores.listed := by
  obtain ⟨entry, inside, listed⟩ := List.mem_flatMap.mp member
  rcases List.mem_cons.mp inside with rfl | old
  · exact Or.inl listed
  · exact Or.inr (List.mem_flatMap.mpr ⟨entry, (List.mem_filter.mp old).1, listed⟩)

/-- Changing a store without adding to what its outputs list. -/
theorem mem_listed_update_of_le {stores : Stores} {backend : String} {f : Store → Store}
    {key : CallName} (fewer : ∀ store, ∀ key ∈ listedIn (f store), key ∈ listedIn store)
    (member : key ∈ (stores.update backend f).listed) : key ∈ stores.listed := by
  rcases mem_listed_update member with own | other
  · exact mem_listed_of_store (fewer _ key own)
  · exact other

theorem mem_listedIn_leaveOutput {store : Store} {name : CallName} {output : OutputRecord}
    {key : CallName} (member : key ∈ listedIn (store.leaveOutput name output)) :
    key ∈ output.keys ∨ key ∈ listedIn store := by
  obtain ⟨left, inside, listed⟩ := List.mem_flatMap.mp member
  rcases List.mem_cons.mp inside with rfl | old
  · exact Or.inl listed
  · exact Or.inr (List.mem_flatMap.mpr ⟨left, (List.mem_filter.mp old).1, listed⟩)

end Stores

/-- After a change, outputs list no calls but those they listed and those the change lists. -/
theorem Surroundings.mem_listed_change {sur : Surroundings} {c : Change} {key : CallName}
    (member : key ∈ (sur.change c).stores.listed) :
    key ∈ sur.stores.listed ∨ key ∈ c.listed := by
  cases c with
  | leaveStatus backend name status =>
    exact Or.inl (Stores.mem_listed_update_of_le (fun _ _ => id) member)
  | leaveOutput backend name output =>
    rcases Stores.mem_listed_update member with own | other
    · exact (Stores.mem_listedIn_leaveOutput own).symm.imp Stores.mem_listed_of_store id
    · exact Or.inl other
  | complete backend name value =>
    refine Or.inl (Stores.mem_listed_update_of_le ?_ member)
    intro store key listed
    have left : key ∈ Stores.listedIn (store.leaveOutput name (.value value)) := listed
    exact (Stores.mem_listedIn_leaveOutput left).resolve_left List.not_mem_nil
  | unavailable backend yes =>
    exact Or.inl (Stores.mem_listed_update_of_le (fun _ _ => id) member)
  | statusLatency ms => exact Or.inl member
  | outputLatency ms => exact Or.inl member
  | latency fetch ms => exact Or.inl member
  | failFetch fetch => exact Or.inl member
  | healFetch fetch => exact Or.inl member
  | closeBackend backend => exact Or.inl member
  | cancel => exact Or.inl member
  | observe jobKey callIds => exact Or.inl member

/-! ## Replies of changing stores -/

/-- A reply that fails only as stores do. -/
def FailsAsStore {α : Type} (reply : Outcome α) : Prop :=
  ∀ e, reply = .error e → ∃ detail, e = .storage detail

/-- Stores whose outputs list none but given calls. Time may run out in opening one, if a limit is
given. -/
def Replies.listing (calls : List CallName) (limit : Option Nat := none) : Replies where
  opening _ reply := FailsAsStore reply ∨ ∃ ms, limit = some ms ∧ reply = .error (.timeout ms)
  status _ _ reply := FailsAsStore reply
  output _ _ reply := FailsAsStore reply ∧
    ∀ o, reply = .ok (some o) → ∀ key ∈ o.keys, key ∈ calls

theorem Faults.guard_failsAsStore {α : Type} (faults : Faults) (name : String)
    {reply : Outcome α} (fails : FailsAsStore reply) : FailsAsStore (faults.guard name reply) := by
  unfold guard
  split
  · intro e failed
    cases failed
    exact ⟨_, rfl⟩
  · exact fails

theorem Stores.asked_failsAsStore {α : Type} (stores : Stores) (backend : String) (held : α) :
    FailsAsStore (do (stores.store backend).check backend; pure held) := by
  intro e failed
  unfold Store.check at failed
  cases available : (stores.store backend).unavailable with
  | false =>
    rw [available] at failed
    cases failed
  | true =>
    rw [available] at failed
    cases failed
    exact ⟨_, rfl⟩

theorem Stores.mem_listed_of_output {stores : Stores} {backend : String} {name : CallName}
    {o : OutputRecord} (replied : stores.output? backend name = .ok (some o)) {key : CallName}
    (member : key ∈ o.keys) : key ∈ stores.listed := by
  have found : Store.lookup name (stores.store backend).outputs = some o := by
    unfold output? at replied
    cases checked : (stores.store backend).check backend with
    | error e =>
      rw [checked] at replied
      cases replied
    | ok _ =>
      rw [checked] at replied
      exact Except.ok.inj replied
  exact mem_listed_of_find (Store.mem_of_lookup found) member

theorem Surroundings.within_listing {sur : Surroundings} {calls : List CallName}
    {limit : Option Nat} (inside : ∀ key ∈ sur.stores.listed, key ∈ calls) :
    sur.Within (.listing calls limit) where
  opening backend := Or.inl fun _ closed => Faults.openBackend_error closed
  status backend key := sur.faults.guard_failsAsStore _ (sur.stores.asked_failsAsStore backend _)
  output backend name := by
    refine ⟨sur.faults.guard_failsAsStore _ (sur.stores.asked_failsAsStore backend _), ?_⟩
    intro o replied key member
    unfold Faults.guard at replied
    split at replied
    · cases replied
    · exact inside key (Stores.mem_listed_of_output replied member)

/-- A wait that goes on after an operation that takes no answers went on before it. -/
theorem Wait.Turns.running {μ : Type} {w w' : Wait μ} (turns : w.Turns w')
    (running : w'.IsRunning) : w.IsRunning := by
  cases turns with
  | same => exact running
  | finished result => exact absurd rfl (running result)
  | began before => exact before
  | skipped i before => exact before
  | slept before => exact before

/-! ## From point to point -/

namespace WaitRun

/-- The run after the tasks of the monitors that are due have looked. -/
def looked (r : WaitRun) : WaitRun :=
  { r with
    wait := { r.wait with
      state := { r.wait.state with monitor := r.wait.state.monitor.runDue r.sur r.now } }
    beside := r.beside.runDue r.sur r.now }

/-- What can happen to a run next. -/
inductive Happens (r : WaitRun) : WaitRun → Prop where
  | turn {r' : WaitRun} : r.turn = some r' → Happens r r'
  | overdue : r.turn = none → Happens r r.checkDeadline
  | changed {time : Nat} {c : Change} {rest : List (Nat × Change)} :
      r.timeline = (time, c) :: rest → Happens r (({ r with timeline := rest } : WaitRun).change c)
  | looked : Happens r r.looked
  | clock (now : Nat) : r.now ≤ now → Happens r { r with now }
  | resumed : Happens r r.resume

/-- The points a run can come to. -/
abbrev Visits : WaitRun → WaitRun → Prop := Relation.ReflTransGen Happens

theorem visits_untilBlocked (r : WaitRun) (fuel : Nat) : r.Visits (r.untilBlocked fuel) := by
  induction fuel generalizing r with
  | zero => exact .refl
  | succ fuel ih =>
    rw [untilBlocked_succ]
    cases turns : r.turn with
    | none => exact .refl
    | some r' => exact .head (.turn turns) (ih r')

theorem visits_changes (due rest : List (Nat × Change)) {r : WaitRun}
    (ahead : r.timeline = due ++ rest) :
    r.Visits (due.foldl (fun r e => r.change e.2) { r with timeline := rest }) := by
  induction due generalizing r with
  | nil =>
    obtain rfl : rest = r.timeline := ahead.symm
    exact .refl
  | cons e later ih =>
    exact .head (.changed ahead)
      (ih (r := ({ r with timeline := later ++ rest } : WaitRun).change e.2) rfl)

theorem visits_runDue (r : WaitRun) : r.Visits r.runDue := by
  let due := r.timeline.takeWhile fun e => e.1 ≤ r.now
  have ahead : r.timeline = due ++ r.timeline.drop due.length :=
    (List.prefix_iff_eq_append.mp (List.takeWhile_prefix _)).symm
  exact (visits_changes due _ ahead).tail .looked

/-- A run is at a point of its own, as long as no stretch of turns is cut short. -/
theorem visits_run {turns : Nat} (events : Nat) {r : WaitRun}
    (steady : ∀ r', r.Visits r' → (r'.untilBlocked turns).turn = none) :
    r.Visits (r.run turns events) := by
  induction events generalizing r with
  | zero => exact .refl
  | succ events ih =>
    have blocked : r.Visits (r.untilBlocked turns).checkDeadline :=
      (r.visits_untilBlocked turns).tail (.overdue (steady r .refl))
    rw [run]
    dsimp only
    split
    · exact blocked
    · have after := blocked.trans (visits_runDue _)
      split
      · exact after
      · split
        · exact after
        · next next _ =>
          have later := (after.tail
            (.clock (max ((r.untilBlocked turns).checkDeadline.runDue).now next)
              (Nat.le_max_left _ _))).trans (visits_runDue _)
          split
          · exact later
          · have resumed := later.tail .resumed
            exact resumed.trans (ih fun r' visits => steady r' (resumed.trans visits))

/-! ## What holds at every point -/

/-- A run whose stores and changes list none but given calls, and in which time may run out while a
store is opened, if a limit is given. -/
structure Contained (calls : List CallName) (terms : WaitTerms) (futures : List Future)
    (r : WaitRun) (limit : Option Nat := none) : Prop where
  fits : ({ r with timeline := [] } : WaitRun).Fits (.listing calls limit) terms futures
  stores : ∀ key ∈ r.sur.stores.listed, key ∈ calls
  coming : ∀ e ∈ r.timeline, ∀ key ∈ e.2.listed, key ∈ calls

/-- A turn does not depend on what is laid out ahead. -/
theorem turn_setTimeline (r : WaitRun) (timeline : List (Nat × Change)) :
    ({ r with timeline } : WaitRun).turn = r.turn.map ({ · with timeline }) := by
  unfold turn
  dsimp only
  cases r.wait.phase with
  | finished result => rfl
  | sleeping => rfl
  | polling i =>
    cases phase : (r.wait.pollNext r.sur.cancelled).phase <;> simp only [poll, phase] <;> rfl
  | fetching i targets =>
    cases r.pool with
    | none => rfl
    | some pool => cases done : pool.isDone <;> simp only [done] <;> rfl

/-- What a turn leaves as it is. -/
structure Beside (r r' : WaitRun) : Prop where
  now : r'.now = r.now
  sur : r'.sur = r.sur
  timeline : r'.timeline = r.timeline
  deadline : r'.deadline = r.deadline

/-- What a turn is: the next unit is polled, or the answers to the fetches of one are taken. -/
theorem turn_cases {r r' : WaitRun} (turns : r.turn = some r') : r.Beside r' ∧
    ((∃ i, r.wait.phase = .polling i ∧ r'.wait = r.wait.pollNext r.sur.cancelled) ∨
      ∃ i targets p, r.wait.phase = .fetching i targets ∧ r.pool = some p ∧ p.isDone = true ∧
        r'.wait = r.wait.answer p.answers) := by
  unfold turn at turns
  split at turns
  · cases turns
  · cases turns
  · next i phase =>
    cases turns
    have same : r.Beside r.poll ∧ r.poll.wait = r.wait.pollNext r.sur.cancelled := by
      unfold poll
      dsimp only
      split <;> exact ⟨⟨rfl, rfl, rfl, rfl⟩, rfl⟩
    exact ⟨same.1, Or.inl ⟨i, phase, same.2⟩⟩
  · next i targets phase =>
    split at turns
    · next p isPool =>
      split at turns
      · next done =>
        cases turns
        exact ⟨⟨rfl, rfl, rfl, rfl⟩, Or.inr ⟨i, targets, p, phase, isPool, done, rfl⟩⟩
      · cases turns
    · cases turns

/-- What finding that time is up, or that what the run waits for has come, leaves as it is. -/
theorem beside_checkDeadline (r : WaitRun) : r.Beside r.checkDeadline := by
  unfold checkDeadline
  split
  · split <;> exact ⟨rfl, rfl, rfl, rfl⟩
  · exact ⟨rfl, rfl, rfl, rfl⟩

theorem beside_resume (r : WaitRun) : r.Beside r.resume := by
  unfold resume
  split
  · split <;> exact ⟨rfl, rfl, rfl, rfl⟩
  · split <;> exact ⟨rfl, rfl, rfl, rfl⟩
  · exact ⟨rfl, rfl, rfl, rfl⟩

theorem checkDeadline_turns (r : WaitRun) : r.wait.Turns r.checkDeadline.wait := by
  unfold checkDeadline
  split
  · split
    · exact r.wait.expire_turns
    · exact .same
  · exact .same

theorem resume_turns (r : WaitRun) : r.wait.Turns r.resume.wait := by
  unfold resume
  split
  · split
    · exact r.wait.wake_turns _
    · exact .same
  · split <;> exact .same
  · exact .same

/-- A wait that has heard of a change, before it notices that the token is cancelled. -/
def heard (r : WaitRun) (c : Change) : Wait SessionMonitor :=
  { r.wait with
    state := { r.wait.state with monitor := r.wait.state.monitor.hear c }
    provider := { r.wait.provider with openBackend := (r.sur.change c).faults.opens r.cut } }

theorem change_wait (r : WaitRun) (c : Change) :
    (r.change c).wait = if (r.sur.change c).cancelled then (r.heard c).cancel else r.heard c :=
  rfl

theorem change_turns (r : WaitRun) (c : Change) : (r.heard c).Turns (r.change c).wait := by
  rw [change_wait]
  split
  · exact (r.heard c).cancel_turns
  · exact .same

/-- Whatever happens to a run that is at its end, the wait stays as it ended. -/
theorem Happens.of_finished {r r' : WaitRun} {result : Outcome Unit} (happens : r.Happens r')
    (finished : r.wait.phase = .finished result) :
    r'.wait.phase = .finished result ∧ r'.wait.state.futures = r.wait.state.futures ∧
      r'.wait.state.progress = r.wait.state.progress := by
  cases happens with
  | turn turns => cases (turn_of_finished finished).symm.trans turns
  | overdue _ =>
    rw [checkDeadline_of_finished finished]
    exact ⟨finished, rfl, rfl⟩
  | @changed time c rest ahead =>
    have still : (({ r with timeline := rest } : WaitRun).heard c).cancel =
        ({ r with timeline := rest } : WaitRun).heard c := by
      unfold Wait.cancel heard
      rw [finished]
    rw [change_wait, still, ite_self]
    exact ⟨finished, rfl, rfl⟩
  | looked => exact ⟨finished, rfl, rfl⟩
  | clock now _ => exact ⟨finished, rfl, rfl⟩
  | resumed =>
    have still : r.resume = r := by
      unfold resume
      rw [finished]
    rw [still]
    exact ⟨finished, rfl, rfl⟩

theorem checkDeadline_setTimeline (r : WaitRun) (timeline : List (Nat × Change)) :
    ({ r with timeline } : WaitRun).checkDeadline = { r.checkDeadline with timeline } := by
  obtain ⟨now, sur, wait, pool, wakeAt, ahead, deadline, cut, beside, log⟩ := r
  unfold checkDeadline
  cases deadline with
  | none => rfl
  | some deadline => by_cases past : deadline ≤ now <;> simp only [past, if_true, if_false]

theorem resume_setTimeline (r : WaitRun) (timeline : List (Nat × Change)) :
    ({ r with timeline } : WaitRun).resume = { r.resume with timeline } := by
  obtain ⟨now, sur, ⟨terms, provider, state, phase, passes⟩, pool, wakeAt, ahead, deadline, cut,
    beside, log⟩ := r
  unfold resume
  cases phase with
  | finished result => rfl
  | sleeping => by_cases past : wakeAt ≤ now <;> simp only [past, if_true, if_false]
  | polling i => rfl
  | fetching i targets => cases pool <;> rfl

variable {calls : List CallName} {terms : WaitTerms} {futures : List Future} {r r' : WaitRun}
  {limit : Option Nat}

namespace Contained

theorem reached (contained : r.Contained calls terms futures limit) :
    r.wait.Reached (.listing calls limit) terms futures := contained.fits.reached

/-- A run keeps to the given calls, whatever happens to it. -/
theorem happens (contained : r.Contained calls terms futures limit) (happens : r.Happens r') :
    r'.Contained calls terms futures limit := by
  have still (beside : r.Beside r')
      (fits : ({ r' with timeline := [] } : WaitRun).Fits (.listing calls limit) terms futures) :
      r'.Contained calls terms futures limit :=
    ⟨fits, beside.sur ▸ contained.stores, beside.timeline ▸ contained.coming⟩
  cases happens with
  | turn turns =>
    refine still (turn_cases turns).1 (contained.fits.turn ?_)
    rw [turn_setTimeline, turns]
    rfl
  | overdue _ =>
    refine still r.beside_checkDeadline ?_
    rw [← checkDeadline_setTimeline]
    exact contained.fits.checkDeadline
  | @changed time c rest ahead =>
    have inside : ∀ key ∈ (r.sur.change c).stores.listed, key ∈ calls := by
      intro key listed
      rcases Surroundings.mem_listed_change listed with old | new
      · exact contained.stores key old
      · exact contained.coming (time, c) (ahead ▸ List.mem_cons_self) key new
    refine ⟨contained.fits.change (Surroundings.within_listing inside), inside, ?_⟩
    exact fun e member => contained.coming e (ahead ▸ List.mem_cons_of_mem _ member)
  | looked =>
    exact ⟨⟨.watched _ contained.reached, contained.fits.within, contained.fits.cut,
      contained.fits.allowed, contained.fits.pool⟩, contained.stores, contained.coming⟩
  | clock now _ => exact ⟨contained.fits.setClock now, contained.stores, contained.coming⟩
  | resumed =>
    refine still r.beside_resume ?_
    rw [← resume_setTimeline]
    exact contained.fits.resume

theorem answers (contained : r.Contained calls terms futures limit) {i : Nat}
    {targets : List Target} {p : FetchPool} (phase : r.wait.phase = .fetching i targets)
    (isPool : r.pool = some p) (done : p.isDone = true) : ∃ u, r.wait.state.units[i]? = some u ∧
      Answers (.listing calls limit) u.backend terms.download targets p.answers :=
  contained.fits.answers phase isPool done

theorem visits (contained : r.Contained calls terms futures limit) (visits : r.Visits r') :
    r'.Contained calls terms futures limit := by
  induction visits with
  | refl => exact contained
  | tail _ happens ih => exact ih.happens happens

end Contained

end WaitRun

end CallDispatch
