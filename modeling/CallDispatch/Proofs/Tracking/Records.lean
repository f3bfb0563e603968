import CallDispatch.Tracking.Wait

/-!
# What futures record

A wait fetches a member only while its outcome is open, and records what it finds. So nothing that
was recorded is ever replaced: a later state of a future keeps what an earlier one had. What may be
found is said by the replies of the stores, which may change from one question to the next.
-/

namespace CallDispatch

/-- What may be replied when a backend is opened, and when its store is asked for the status or the
output of a call. -/
structure Replies where
  opening : String → Outcome Unit → Prop
  status : String → CallName → Outcome (Option StatusRecord) → Prop
  output : String → CallName → Outcome (Option OutputRecord) → Prop

namespace Replies

/-- No backend ever fails to open. -/
def Opens (replies : Replies) : Prop :=
  ∀ backend reply, replies.opening backend reply → reply = .ok ()

/-- Stores that open and may reply anything, in whatever way they change. -/
def arbitrary : Replies where
  opening _ reply := reply = .ok ()
  status _ _ _ := True
  output _ _ _ := True

theorem opens_arbitrary : arbitrary.Opens := fun _ _ opened => opened

/-- Stores that open and give each question its one reply. -/
def fixed (status? : String → CallName → Outcome (Option StatusRecord))
    (output? : String → CallName → Outcome (Option OutputRecord)) : Replies where
  opening _ reply := reply = .ok ()
  status backend key reply := reply = status? backend key
  output backend key reply := reply = output? backend key

theorem opens_fixed (status? : String → CallName → Outcome (Option StatusRecord))
    (output? : String → CallName → Outcome (Option OutputRecord)) : (fixed status? output?).Opens :=
  fun _ _ opened => opened

end Replies

namespace Target

variable {replies : Replies} {backend : String} {download : Bool} {t : Target}

/-- The steps the fetch of a member can come to, one question after the other. -/
inductive Comes (replies : Replies) (backend : String) (download : Bool) (t : Target) :
    FetchStep → Prop where
  | first : Comes replies backend download t (t.first download)
  | status {reply} : Comes replies backend download t .askStatus →
      replies.status backend t.key reply →
      Comes replies backend download t (t.afterStatus download reply)
  | output {known reply} : Comes replies backend download t (.askOutput known) →
      replies.output backend t.key reply →
      Comes replies backend download t (afterOutput known reply)

/-- What is known about a member at a step of its fetch. -/
def Knows (replies : Replies) (backend : String) (download : Bool) (t : Target) :
    FetchStep → Prop
  | .askStatus => download = true → t.needsStatus = true
  | .askOutput known =>
    download = true ∧ t.wantsOutput = true ∧ (known = none → t.needsStatus = false) ∧
      ∀ s, known = some s → t.needsStatus = true ∧ s.success = true ∧
        replies.status backend t.key (.ok (some s))
  | .finished (.error _) => True
  | .finished (.ok (.status found)) =>
    download = false ∧ replies.status backend t.key (.ok found)
  | .finished (.ok (.result status output)) =>
    download = true ∧
      (∀ s, status = some s →
        t.needsStatus = true ∧ replies.status backend t.key (.ok (some s))) ∧
      ∀ o, output = some o → t.wantsOutput = true ∧ (status = none → t.needsStatus = false) ∧
        (∀ s, status = some s → s.success = true) ∧ replies.output backend t.key (.ok (some o))

theorem Comes.knows {step : FetchStep} (comes : t.Comes replies backend download step) :
    t.Knows replies backend download step := by
  induction comes with
  | first =>
    rw [Target.first]
    by_cases ask : (!download || t.needsStatus) = true
    · rw [if_pos ask]
      intro on
      simpa [on] using ask
    · rw [if_neg ask]
      have open_ : download = true ∧ t.needsStatus = false := by simpa using ask
      by_cases wants : t.wantsOutput = true
      · rw [if_pos wants]
        exact ⟨open_.1, wants, fun _ => open_.2, nofun⟩
      · rw [if_neg wants]
        exact ⟨open_.1, nofun, nofun⟩
  | @status reply _ replied ih =>
    cases reply with
    | error e => trivial
    | ok found =>
      cases download with
      | false => exact ⟨rfl, replied⟩
      | true =>
        have needs : t.needsStatus = true := ih rfl
        cases found with
        | none => exact ⟨rfl, nofun, nofun⟩
        | some s =>
          simp only [afterStatus, Bool.not_true, Bool.false_eq_true, if_false]
          by_cases ask : (t.wantsOutput && s.success) = true
          · rw [if_pos ask]
            obtain ⟨wants, success⟩ := Bool.and_eq_true_iff.mp ask
            refine ⟨rfl, wants, nofun, ?_⟩
            intro s' known
            cases known
            exact ⟨needs, success, replied⟩
          · rw [if_neg ask]
            refine ⟨rfl, ?_, nofun⟩
            intro s' found
            cases found
            exact ⟨needs, replied⟩
  | @output known reply _ replied ih =>
    obtain ⟨on, wants, unasked, asked⟩ := ih
    cases reply with
    | error e => trivial
    | ok found =>
      refine ⟨on, fun s status => ⟨(asked s status).1, (asked s status).2.2⟩, ?_⟩
      intro o output
      cases output
      exact ⟨wants, unasked, fun s status => (asked s status).2.1, replied⟩

/-- What the fetch of a member comes to from a step on, if each question has one reply. -/
def conclude (download : Bool) (status? : CallName → Outcome (Option StatusRecord))
    (output? : CallName → Outcome (Option OutputRecord)) (t : Target) :
    FetchStep → Outcome FetchAnswer
  | .finished answer => answer
  | .askOutput known => (output? t.key).map (.result known)
  | .askStatus =>
    match t.afterStatus download (status? t.key) with
    | .finished answer => answer
    | .askOutput known => (output? t.key).map (.result known)
    | .askStatus => .ok (.status none)

/-- If each question has one reply, so has the fetch of a member. -/
theorem Comes.eq_fetch {status? : String → CallName → Outcome (Option StatusRecord)}
    {output? : String → CallName → Outcome (Option OutputRecord)} {answer : Outcome FetchAnswer}
    (comes : t.Comes (.fixed status? output?) backend download (.finished answer)) :
    answer = t.fetch download (status? backend) (output? backend) := by
  have each : ∀ step, t.Comes (.fixed status? output?) backend download step →
      t.conclude download (status? backend) (output? backend) step =
        t.fetch download (status? backend) (output? backend) := by
    intro step comes
    induction comes with
    | first =>
      unfold conclude fetch
      cases t.first download <;> rfl
    | @status reply _ replied ih =>
      rw [← ih]
      cases replied
      simp only [conclude]
      cases after : t.afterStatus download (status? backend t.key) with
      | finished answer => rfl
      | askOutput known => rfl
      | askStatus =>
        unfold afterStatus at after
        split at after
        · cases after
        · split at after
          · cases after
          · split at after
            · cases after
            · split at after <;> cases after
    | @output known reply _ replied ih =>
      rw [← ih]
      cases replied
      rfl
  exact each _ comes

end Target

/-! ## States of a future -/

/-- The member at a position as it is fetched. -/
def Future.target (f : Future) (index : Nat) : Target :=
  ⟨index, f.key, !f.status.isSome, f.produceOutput⟩

/-- The call of a future with the backend it is tracked in. -/
def Future.name (f : Future) : CallName × String := (f.key, f.backend)

/-- The calls a future's call has dispatched, with the backend they inherit. -/
def Future.dispatched (f : Future) : List (CallName × String) :=
  f.children.map fun key => (key, f.backend)

namespace Future

/-- A future of which nothing is known yet. -/
structure IsFresh (f : Future) : Prop where
  ready : f.ready = false
  done : f.done = false
  status : f.status = none
  captured : f.captured = none
  children : f.children = []

/-- A future has dispatched calls only once it is done. -/
def BearsWhenDone (f : Future) : Prop := f.children ≠ [] → f.done = true

/-- How the marks and the records of a future go together. -/
structure Coherent (f : Future) : Prop where
  ready_of_done : f.done = true → f.ready = true
  status_of_ready : f.ready = true → ∃ s, f.status = some s
  ready_of_status : ∀ s, f.status = some s → f.ready = true
  done_of_captured : ∀ c, f.captured = some c → f.done = true
  done_of_children : f.BearsWhenDone
  done_of_status : ∀ s, f.status = some s → s.success = false ∨ f.produceOutput = false →
    f.done = true

/-- A state of a future that keeps all an earlier one had recorded. -/
structure Keeps (g f : Future) : Prop where
  key : g.key = f.key
  backend : g.backend = f.backend
  produceOutput : g.produceOutput = f.produceOutput
  ready : f.ready = true → g.ready = true
  done : f.done = true → g.done = true
  status : ∀ s, f.status = some s → g.status = some s
  captured : ∀ c, f.captured = some c → g.captured = some c
  children : f.done = true → g.children = f.children

theorem IsFresh.coherent {f : Future} (fresh : f.IsFresh) : f.Coherent where
  ready_of_done done := by rw [fresh.done] at done; cases done
  status_of_ready ready := by rw [fresh.ready] at ready; cases ready
  ready_of_status s status := by rw [fresh.status] at status; cases status
  done_of_captured c captured := by rw [fresh.captured] at captured; cases captured
  done_of_children children := absurd fresh.children children
  done_of_status s status := by rw [fresh.status] at status; cases status

/-- A future just made for a call is fresh. -/
theorem isFresh_new (key : CallName) (backend : String) :
    ({ key, backend : Future }).IsFresh :=
  ⟨rfl, rfl, rfl, rfl, rfl⟩

theorem Keeps.refl (f : Future) : f.Keeps f :=
  ⟨rfl, rfl, rfl, id, id, fun _ => id, fun _ => id, fun _ => rfl⟩

theorem Keeps.trans {f g h : Future} (later : h.Keeps g) (earlier : g.Keeps f) : h.Keeps f where
  key := later.key.trans earlier.key
  backend := later.backend.trans earlier.backend
  produceOutput := later.produceOutput.trans earlier.produceOutput
  ready ready := later.ready (earlier.ready ready)
  done done := later.done (earlier.done done)
  status s status := later.status s (earlier.status s status)
  captured c captured := later.captured c (earlier.captured c captured)
  children done := (later.children (earlier.done done)).trans (earlier.children done)

theorem Keeps.name {f g : Future} (keeps : g.Keeps f) : g.name = f.name :=
  Prod.ext keeps.key keeps.backend

theorem dispatched_eq_nil {f : Future} (bears : f.BearsWhenDone) (open_ : f.done = false) :
    f.dispatched = [] := by
  by_cases none : f.children = []
  · rw [dispatched, none, List.map_nil]
  · rw [bears none] at open_
    cases open_

theorem done_of_open {f : Future} {download : Bool} (open_ : f.isComplete download = false) :
    f.done = false := by
  unfold isComplete at open_
  cases download with
  | true => exact open_
  | false => exact (Bool.or_eq_false_iff.mp open_).2

/-! ## Recording a status or an output -/

variable (f : Future) (s : StatusRecord)

@[simp] theorem withStatus_name : (f.withStatus s).name = f.name := by
  unfold withStatus
  split
  · rfl
  · split <;> rfl

@[simp] theorem withStatus_produceOutput :
    (f.withStatus s).produceOutput = f.produceOutput := by
  unfold withStatus
  split
  · rfl
  · split <;> rfl

@[simp] theorem withStatus_status : (f.withStatus s).status = some s := by
  unfold withStatus
  split
  · rfl
  · split <;> rfl

@[simp] theorem withStatus_ready : (f.withStatus s).ready = true := by
  unfold withStatus
  split
  · rfl
  · split <;> rfl

@[simp] theorem withStatus_children : (f.withStatus s).children = f.children := by
  unfold withStatus
  split
  · rfl
  · split <;> rfl

@[simp] theorem withStatus_done :
    (f.withStatus s).done = (f.done || !s.success || !f.produceOutput) := by
  unfold withStatus StatusRecord.failureMessage?
  cases success : s.success <;> cases produces : f.produceOutput <;> simp

theorem withStatus_captured :
    (f.withStatus s).captured = (s.failureMessage?.map Captured.failure).or f.captured := by
  unfold withStatus
  split
  · next message failed => rw [failed]; rfl
  · next passed =>
    rw [passed]
    split <;> rfl

theorem failureMessage?_eq_none {s : StatusRecord} (success : s.success = true) :
    s.failureMessage? = none := by
  rw [StatusRecord.failureMessage?, success]
  rfl

theorem failureMessage?_eq_some {s : StatusRecord} (failed : s.success = false) :
    s.failureMessage? = some (s.error.getD "call raised an exception") := by
  rw [StatusRecord.failureMessage?, failed]
  rfl

theorem key_eq_of_name {f g : Future} (same : g.name = f.name) : g.key = f.key :=
  congrArg Prod.fst same

theorem backend_eq_of_name {f g : Future} (same : g.name = f.name) : g.backend = f.backend :=
  congrArg Prod.snd same

variable {f}

theorem Keeps.withStatus (open_ : f.done = false) (coherent : f.Coherent)
    (unknown : f.status = none) : (f.withStatus s).Keeps f where
  key := key_eq_of_name (f.withStatus_name s)
  backend := backend_eq_of_name (f.withStatus_name s)
  produceOutput := f.withStatus_produceOutput s
  ready _ := f.withStatus_ready s
  done done := by rw [open_] at done; cases done
  status s' known := by rw [unknown] at known; cases known
  captured c captured := by
    rw [coherent.done_of_captured c captured] at open_
    cases open_
  children _ := f.withStatus_children s

theorem BearsWhenDone.withStatus (bears : f.BearsWhenDone) : (f.withStatus s).BearsWhenDone := by
  intro children
  rw [withStatus_children] at children
  simp [bears children]

theorem Coherent.withStatus (coherent : f.Coherent) : (f.withStatus s).Coherent where
  ready_of_done _ := f.withStatus_ready s
  status_of_ready _ := ⟨s, f.withStatus_status s⟩
  ready_of_status _ _ := f.withStatus_ready s
  done_of_captured c captured := by
    rw [withStatus_captured] at captured
    cases success : s.success with
    | true =>
      rw [failureMessage?_eq_none success, Option.map_none, Option.none_or] at captured
      simp [coherent.done_of_captured c captured]
    | false => simp [success]
  done_of_children := coherent.done_of_children.withStatus s
  done_of_status s' status final := by
    rw [withStatus_status] at status
    cases status
    rw [withStatus_produceOutput] at final
    rcases final with failed | silent
    · simp [failed]
    · simp [silent]

theorem Keeps.withOutput (open_ : f.done = false) (coherent : f.Coherent) (o : OutputRecord) :
    (f.withOutput o).Keeps f := by
  have bare : f.captured = none := by
    cases captured : f.captured with
    | none => rfl
    | some c =>
      rw [coherent.done_of_captured c captured] at open_
      cases open_
  have kept (c : Captured) (captured : f.captured = some c) :
      (f.withOutput o).captured = some c := by
    rw [bare] at captured
    cases captured
  have closed (done : f.done = true) : (f.withOutput o).children = f.children := by
    rw [open_] at done
    cases done
  cases o <;> exact ⟨rfl, rfl, rfl, fun _ => rfl, fun _ => rfl, fun _ => id, kept, closed⟩

theorem withOutput_done (o : OutputRecord) : (f.withOutput o).done = true := by
  cases o <;> rfl

theorem withOutput_status (o : OutputRecord) : (f.withOutput o).status = f.status := by
  cases o <;> rfl

theorem Coherent.withOutput (known : ∃ s, f.status = some s) (o : OutputRecord) :
    (f.withOutput o).Coherent := by
  have status : ∃ s, (f.withOutput o).status = some s := by rwa [withOutput_status]
  cases o <;>
    exact ⟨fun _ => rfl, fun _ => status, fun _ _ => rfl, fun _ _ => rfl, fun _ => rfl,
      fun _ _ _ => rfl⟩

/-! ## Recording an answer -/

/-- A future with the answer to its fetch recorded. An answer that is an error changes nothing. -/
def recorded (throwing : Bool) (f : Future) : Outcome FetchAnswer → Future
  | .ok answer => (f.record throwing answer).1
  | .error _ => f

/-- What recording an answer comes to: nothing, the status alone, the output alone, or both. -/
theorem recorded_cases {replies : Replies} {backend : String} {download : Bool} {index : Nat}
    {answer : Outcome FetchAnswer} (throwing : Bool)
    (comes : (f.target index).Comes replies backend download (.finished answer)) :
    f.recorded throwing answer = f ∨
    (∃ s, f.recorded throwing answer = f.withStatus s ∧
      replies.status backend f.key (.ok (some s)) ∧ (download = true → f.status = none)) ∨
    (∃ o, f.recorded throwing answer = f.withOutput o ∧ f.status ≠ none ∧
      replies.output backend f.key (.ok (some o)) ∧ download = true) ∨
    ∃ s o, f.recorded throwing answer = (f.withStatus s).withOutput o ∧
      s.success = true ∧ f.produceOutput = true ∧ f.status = none ∧
      replies.status backend f.key (.ok (some s)) ∧
      replies.output backend f.key (.ok (some o)) ∧ download = true := by
  have knows := comes.knows
  match answer, knows with
  | .error e, _ => exact Or.inl rfl
  | .ok (.status none), _ => exact Or.inl rfl
  | .ok (.status (some s)), ⟨off, replied⟩ =>
    exact Or.inr (Or.inl ⟨s, rfl, replied, fun on => by rw [off] at on; cases on⟩)
  | .ok (.result none none), _ => exact Or.inl rfl
  | .ok (.result none (some o)), ⟨on, _, outputs⟩ =>
    obtain ⟨-, unasked, -, replied⟩ := outputs o rfl
    have known : f.status ≠ none := by
      have asked := unasked rfl
      intro unknown
      rw [target, unknown] at asked
      cases asked
    by_cases done : f.done = true
    · exact Or.inl (by simp [recorded, record, done])
    · exact Or.inr (Or.inr (Or.inl ⟨o, by simp [recorded, record, done], known, replied, on⟩))
  | .ok (.result (some s) none), ⟨on, statuses, _⟩ =>
    obtain ⟨needs, replied⟩ := statuses s rfl
    have unknown : f.status = none := by simpa [target] using needs
    refine Or.inr (Or.inl ⟨s, ?_, replied, fun _ => unknown⟩)
    simp only [recorded, record]
    cases f.statusError? throwing s <;> rfl
  | .ok (.result (some s) (some o)), ⟨on, statuses, outputs⟩ =>
    obtain ⟨needs, replied⟩ := statuses s rfl
    obtain ⟨wants, -, success, replied'⟩ := outputs o rfl
    have unknown : f.status = none := by simpa [target] using needs
    have passed : s.failureMessage? = none := failureMessage?_eq_none (success s rfl)
    by_cases done : (f.withStatus s).done = true
    · refine Or.inr (Or.inl ⟨s, ?_, replied, fun _ => unknown⟩)
      simp only [recorded, record, statusError?, passed, if_pos done]
    · refine Or.inr (Or.inr (Or.inr ⟨s, o, ?_, success s rfl, wants, unknown, replied, replied',
        on⟩))
      simp only [recorded, record, statusError?, passed, if_neg done]

/-- Recording an answer gives calls only to a future that is done by it. -/
theorem BearsWhenDone.recorded {replies : Replies} {backend : String} {download : Bool}
    {index : Nat} {answer : Outcome FetchAnswer} (throwing : Bool) (bears : f.BearsWhenDone)
    (comes : (f.target index).Comes replies backend download (.finished answer)) :
    (f.recorded throwing answer).BearsWhenDone := by
  rcases recorded_cases throwing comes with same | ⟨s, same, -⟩ | ⟨o, same, -⟩ | ⟨s, o, same, -⟩
  · rw [same]
    exact bears
  · rw [same]
    exact bears.withStatus s
  · rw [same]
    exact fun _ => withOutput_done o
  · rw [same]
    exact fun _ => withOutput_done o

/-- Recording the answer to a fetch keeps what was recorded before. -/
theorem recorded_keeps {replies : Replies} {backend : String} {download : Bool} {index : Nat}
    {answer : Outcome FetchAnswer} (throwing : Bool) (coherent : f.Coherent)
    (open_ : f.isComplete download = false)
    (comes : (f.target index).Comes replies backend download (.finished answer)) :
    (f.recorded throwing answer).Keeps f ∧ (f.recorded throwing answer).Coherent := by
  have notDone := done_of_open open_
  -- A wait for statuses alone fetches no future that is ready.
  have unknown (off : download = false) : f.status = none := by
    rw [off] at open_
    cases status : f.status with
    | none => rfl
    | some s =>
      have ready := coherent.ready_of_status s status
      rw [isComplete, ready] at open_
      cases open_
  rcases recorded_cases throwing comes with same | ⟨s, same, -, fetched⟩ |
      ⟨o, same, known, -, -⟩ | ⟨s, o, same, success, produces, unknown', -, -, -⟩
  · rw [same]
    exact ⟨.refl f, coherent⟩
  · rw [same]
    have unknown' : f.status = none := by
      cases download with
      | true => exact fetched rfl
      | false => exact unknown rfl
    exact ⟨.withStatus s notDone coherent unknown', coherent.withStatus s⟩
  · rw [same]
    exact ⟨.withOutput notDone coherent o, .withOutput (Option.ne_none_iff_exists'.mp known) o⟩
  · rw [same]
    have middle := Keeps.withStatus s notDone coherent unknown'
    have open' : (f.withStatus s).done = false := by simp [notDone, success, produces]
    exact ⟨(Keeps.withOutput open' (coherent.withStatus s) o).trans middle,
      .withOutput ⟨s, f.withStatus_status s⟩ o⟩

end Future

end CallDispatch
