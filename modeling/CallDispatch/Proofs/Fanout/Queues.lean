import CallDispatch.Fanout.Broker

/-!
# What operations do to queues

A queue is known by its name and its exchange. Three things can be asked of it: whether it is bound,
what is waiting in it, and whether it has a consumer. Each operation of a broker is described by
what it does to the answers, for the queue it names and for all others.
-/

namespace CallDispatch

namespace Broker

variable {β : Type}

/-- Whether a queue has been bound. -/
def boundAt (b : Broker β) (exchange name : String) : Bool := (b.queue? exchange name).isSome

/-- The messages that wait in a queue. -/
def waitingAt (b : Broker β) (exchange name : String) : List β :=
  ((b.queue? exchange name).map BoundQueue.waiting).getD []

/-- Whether a queue has a consumer. -/
def takenAt (b : Broker β) (exchange name : String) : Bool :=
  (b.queue? exchange name).any BoundQueue.taken

theorem isAt_iff {q : BoundQueue β} {exchange name : String} :
    q.isAt exchange name = true ↔ q.exchange = exchange ∧ q.name = name := by
  simp [BoundQueue.isAt]

/-- A change of queues that leaves their names alone. -/
theorem queue?_map {b : Broker β} {f : BoundQueue β → BoundQueue β}
    (kept : ∀ q, (f q).exchange = q.exchange ∧ (f q).name = q.name) (exchange name : String) :
    ({ queues := b.queues.map f } : Broker β).queue? exchange name =
      (b.queue? exchange name).map f := by
  have same : (fun q : BoundQueue β => q.isAt exchange name) ∘ f = (·.isAt exchange name) := by
    funext q
    simp only [Function.comp_apply, BoundQueue.isAt, (kept q).1, (kept q).2]
  rw [queue?, queue?, List.find?_map, same]

theorem isAt_of_queue? {b : Broker β} {exchange name : String} {q : BoundQueue β}
    (found : b.queue? exchange name = some q) : q.exchange = exchange ∧ q.name = name :=
  isAt_iff.mp (List.find?_some (p := fun q : BoundQueue β => q.isAt exchange name) found)

theorem queue?_update {b : Broker β} {f : BoundQueue β → BoundQueue β}
    (kept : ∀ q, (f q).exchange = q.exchange ∧ (f q).name = q.name)
    (exchange name other : String) :
    (b.update exchange name f).queue? exchange other =
      if other = name then (b.queue? exchange name).map f else b.queue? exchange other := by
  rw [update, queue?_map fun q => by split <;> simp [kept]]
  cases found : b.queue? exchange other with
  | none =>
    split
    · next same =>
      rw [← same, found]
      rfl
    · rfl
  | some q =>
    have here := isAt_of_queue? found
    split
    · next same => simp [← same, found, isAt_iff.mpr here]
    · next ne => simp [BoundQueue.isAt, here, ne]

theorem waitingAt_of_unbound {b : Broker β} {exchange name : String}
    (unbound : b.boundAt exchange name = false) : b.waitingAt exchange name = [] := by
  have absent : b.queue? exchange name = none := by simpa [boundAt] using unbound
  rw [waitingAt, absent]
  rfl

/-- A queue that has a consumer has been bound. -/
theorem boundAt_of_takenAt {b : Broker β} {exchange name : String}
    (taken : b.takenAt exchange name = true) : b.boundAt exchange name = true := by
  obtain ⟨q, found, -⟩ := (Option.any_eq_true _ _).mp taken
  rw [boundAt, found]
  rfl

/-! ## Declaring -/

theorem queue?_declare (b : Broker β) (exchange name other : String) :
    (b.declare exchange name).queue? exchange other =
      if other = name then some ((b.queue? exchange name).getD { exchange, name })
      else b.queue? exchange other := by
  rw [declare]
  split
  · next bound =>
    obtain ⟨q, found⟩ := Option.isSome_iff_exists.mp bound
    split
    · next same => rw [same, found, Option.getD_some]
    · rfl
  · next unbound =>
    have absent : b.queue? exchange name = none := by simpa using unbound
    split
    · next same =>
      rw [same, absent, queue?, List.find?_append, ← queue?, absent]
      simp [BoundQueue.isAt]
    · next ne =>
      rw [queue?, queue?, List.find?_append]
      simp [BoundQueue.isAt, Ne.symm ne]

@[simp] theorem waitingAt_declare (b : Broker β) (exchange name other : String) :
    (b.declare exchange name).waitingAt exchange other = b.waitingAt exchange other := by
  rw [waitingAt, waitingAt, queue?_declare]
  split
  · next same =>
    subst same
    cases b.queue? exchange other <;> rfl
  · rfl

@[simp] theorem takenAt_declare (b : Broker β) (exchange name other : String) :
    (b.declare exchange name).takenAt exchange other = b.takenAt exchange other := by
  rw [takenAt, takenAt, queue?_declare]
  split
  · next same =>
    subst same
    cases b.queue? exchange other <;> rfl
  · rfl

theorem boundAt_declare (b : Broker β) (exchange name other : String) :
    (b.declare exchange name).boundAt exchange other =
      (other == name || b.boundAt exchange other) := by
  rw [boundAt, boundAt, queue?_declare]
  split
  · next same => simp [same]
  · next ne => simp [ne]

/-! ## Subscribing -/

theorem subscribe_of_taken {b : Broker β} {exchange name : String}
    (taken : b.takenAt exchange name = true) : b.subscribe exchange name =
      (.error (.invalidArgument (.queueTaken name)), b.declare exchange name) := by
  rw [subscribe, ← takenAt, takenAt_declare, if_pos taken]

/-- The broker with a new consumer at a queue. -/
def enlist (b : Broker β) (exchange name : String) : Broker β :=
  (b.declare exchange name).update exchange name ({ · with taken := true })

theorem subscribe_of_free {b : Broker β} {exchange name : String}
    (free : b.takenAt exchange name = false) :
    b.subscribe exchange name = (.ok ⟨exchange, name⟩, b.enlist exchange name) := by
  rw [subscribe, ← takenAt, takenAt_declare, free]
  rfl

theorem consumer_of_subscribe {b b' : Broker β} {exchange name : String} {s : Consumer}
    (subscribed : b.subscribe exchange name = (.ok s, b')) : s = ⟨exchange, name⟩ := by
  rw [subscribe] at subscribed
  split at subscribed
  · cases subscribed
  · cases subscribed
    rfl

theorem queue?_enlist (b : Broker β) (exchange name other : String) :
    (b.enlist exchange name).queue? exchange other =
      if other = name then
        some { (b.queue? exchange name).getD { exchange, name } with taken := true }
      else b.queue? exchange other := by
  rw [enlist, queue?_update (by simp), queue?_declare, queue?_declare]
  split
  · rw [if_pos rfl, Option.map_some]
  · rfl

@[simp] theorem waitingAt_enlist (b : Broker β) (exchange name other : String) :
    (b.enlist exchange name).waitingAt exchange other = b.waitingAt exchange other := by
  rw [waitingAt, waitingAt, queue?_enlist]
  split
  · next same =>
    subst same
    cases b.queue? exchange other <;> rfl
  · rfl

theorem takenAt_enlist (b : Broker β) (exchange name other : String) :
    (b.enlist exchange name).takenAt exchange other =
      (other == name || b.takenAt exchange other) := by
  rw [takenAt, takenAt, queue?_enlist]
  split
  · next same => simp [same]
  · next ne => simp [ne]

theorem boundAt_enlist (b : Broker β) (exchange name other : String) :
    (b.enlist exchange name).boundAt exchange other =
      (other == name || b.boundAt exchange other) := by
  rw [boundAt, boundAt, queue?_enlist]
  split
  · next same => simp [same]
  · next ne => simp [ne]

/-! ## Publishing -/

theorem queue?_publish (b : Broker β) (exchange name : String) (body : β) :
    (b.publish exchange body).queue? exchange name =
      (b.queue? exchange name).map fun q => { q with waiting := q.waiting ++ [body] } := by
  rw [publish, queue?_map fun q => by split <;> simp]
  cases found : b.queue? exchange name with
  | none => rfl
  | some q => simp [isAt_of_queue? found]

/-- Every queue bound to the exchange gets the message, in the last place. -/
theorem waitingAt_publish (b : Broker β) (exchange name : String) (body : β) :
    (b.publish exchange body).waitingAt exchange name =
      b.waitingAt exchange name ++ if b.boundAt exchange name then [body] else [] := by
  rw [waitingAt, waitingAt, boundAt, queue?_publish]
  cases b.queue? exchange name <;> rfl

@[simp] theorem takenAt_publish (b : Broker β) (exchange name : String) (body : β) :
    (b.publish exchange body).takenAt exchange name = b.takenAt exchange name := by
  rw [takenAt, takenAt, queue?_publish]
  cases b.queue? exchange name <;> rfl

@[simp] theorem boundAt_publish (b : Broker β) (exchange name : String) (body : β) :
    (b.publish exchange body).boundAt exchange name = b.boundAt exchange name := by
  rw [boundAt, boundAt, queue?_publish, Option.isSome_map]

/-! ## Taking -/

/-- The broker after a message has been taken from a queue. -/
def advance (b : Broker β) (exchange name : String) : Broker β :=
  b.update exchange name fun q => { q with waiting := q.waiting.drop 1 }

theorem next_of_waiting {b : Broker β} {exchange name : String} {body : β} {rest : List β}
    (waiting : b.waitingAt exchange name = body :: rest) :
    b.next ⟨exchange, name⟩ = (some body, b.advance exchange name) := by
  rw [waitingAt] at waiting
  cases found : b.queue? exchange name with
  | none => simp [found] at waiting
  | some q =>
    have head : q.waiting = body :: rest := by simpa [found] using waiting
    simp [next, found, head, advance]

theorem next_of_empty {b : Broker β} {exchange name : String}
    (empty : b.waitingAt exchange name = []) : b.next ⟨exchange, name⟩ = (none, b) := by
  rw [waitingAt] at empty
  cases found : b.queue? exchange name with
  | none => simp [next, found]
  | some q =>
    have none : q.waiting = [] := by simpa [found] using empty
    simp [next, found, none]

theorem waitingAt_advance (b : Broker β) (exchange name other : String) :
    (b.advance exchange name).waitingAt exchange other =
      if other = name then (b.waitingAt exchange name).drop 1 else b.waitingAt exchange other := by
  rw [advance, waitingAt, waitingAt, queue?_update (by simp)]
  split
  · cases b.queue? exchange name <;> rfl
  · rfl

@[simp] theorem takenAt_advance (b : Broker β) (exchange name other : String) :
    (b.advance exchange name).takenAt exchange other = b.takenAt exchange other := by
  rw [advance, takenAt, takenAt, queue?_update (by simp)]
  split
  · next same =>
    subst same
    cases b.queue? exchange other <;> rfl
  · rfl

@[simp] theorem boundAt_advance (b : Broker β) (exchange name other : String) :
    (b.advance exchange name).boundAt exchange other = b.boundAt exchange other := by
  rw [advance, boundAt, boundAt, queue?_update (by simp)]
  split
  · next same => rw [same, Option.isSome_map]
  · rfl

/-! ## Leaving -/

@[simp] theorem waitingAt_drop (b : Broker β) (exchange name other : String) :
    (b.drop ⟨exchange, name⟩).waitingAt exchange other = b.waitingAt exchange other := by
  rw [drop, waitingAt, waitingAt, queue?_update (by simp)]
  split
  · next same =>
    subst same
    cases b.queue? exchange other <;> rfl
  · rfl

theorem takenAt_drop (b : Broker β) (exchange name other : String) :
    (b.drop ⟨exchange, name⟩).takenAt exchange other =
      (other != name && b.takenAt exchange other) := by
  rw [drop, takenAt, takenAt, queue?_update (by simp)]
  split
  · next same =>
    subst same
    cases b.queue? exchange other <;> simp
  · next ne => simp [ne]

@[simp] theorem boundAt_drop (b : Broker β) (exchange name other : String) :
    (b.drop ⟨exchange, name⟩).boundAt exchange other = b.boundAt exchange other := by
  rw [drop, boundAt, boundAt, queue?_update (by simp)]
  split
  · next same => rw [same, Option.isSome_map]
  · rfl

/-! ## Other exchanges -/

theorem queue?_update_of_ne {b : Broker β} {f : BoundQueue β → BoundQueue β}
    (kept : ∀ q, (f q).exchange = q.exchange ∧ (f q).name = q.name) {exchange elsewhere : String}
    (ne : elsewhere ≠ exchange) (name other : String) :
    (b.update exchange name f).queue? elsewhere other = b.queue? elsewhere other := by
  rw [update, queue?_map fun q => by split <;> simp [kept]]
  cases found : b.queue? elsewhere other with
  | none => rfl
  | some q =>
    have here := isAt_of_queue? found
    simp [BoundQueue.isAt, here.1, ne]

theorem queue?_declare_of_ne (b : Broker β) {exchange elsewhere : String}
    (ne : elsewhere ≠ exchange) (name other : String) :
    (b.declare exchange name).queue? elsewhere other = b.queue? elsewhere other := by
  rw [declare]
  split
  · rfl
  · simp [queue?, List.find?_append, BoundQueue.isAt, Ne.symm ne]

theorem queue?_enlist_of_ne (b : Broker β) {exchange elsewhere : String}
    (ne : elsewhere ≠ exchange) (name other : String) :
    (b.enlist exchange name).queue? elsewhere other = b.queue? elsewhere other := by
  rw [enlist, queue?_update_of_ne (by simp) ne, queue?_declare_of_ne b ne]

theorem queue?_publish_of_ne (b : Broker β) {exchange elsewhere : String}
    (ne : elsewhere ≠ exchange) (name : String) (body : β) :
    (b.publish exchange body).queue? elsewhere name = b.queue? elsewhere name := by
  rw [publish, queue?_map fun q => by split <;> simp]
  cases found : b.queue? elsewhere name with
  | none => rfl
  | some q => simp [isAt_of_queue? found, ne]

theorem queue?_advance_of_ne (b : Broker β) {exchange elsewhere : String}
    (ne : elsewhere ≠ exchange) (name other : String) :
    (b.advance exchange name).queue? elsewhere other = b.queue? elsewhere other :=
  queue?_update_of_ne (by simp) ne name other

theorem queue?_drop_of_ne (b : Broker β) {exchange elsewhere : String}
    (ne : elsewhere ≠ exchange) (name other : String) :
    (b.drop ⟨exchange, name⟩).queue? elsewhere other = b.queue? elsewhere other :=
  queue?_update_of_ne (by simp) ne name other

/-- What is known of a queue is what its entry says. -/
theorem answers_of_queue? {b b' : Broker β} {exchange name : String}
    (same : b'.queue? exchange name = b.queue? exchange name) :
    b'.boundAt exchange name = b.boundAt exchange name ∧
      b'.waitingAt exchange name = b.waitingAt exchange name ∧
      b'.takenAt exchange name = b.takenAt exchange name := by
  simp [boundAt, waitingAt, takenAt, same]

end Broker

end CallDispatch
