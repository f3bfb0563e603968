import CallDispatch.Proofs.Fanout.Queues
import Mathlib.Data.List.Nodup

/-!
# What consumers receive

Whatever is done with a broker, what the consumers of a queue have received one after the other and
what still waits behind it are together the messages published since the queue was bound. No queue
has two consumers at once, and what is done at one exchange is of no account at another, so that a
run can be cut down to what concerns one exchange.
-/

namespace CallDispatch

/-- What can be done with a broker. Whoever subscribes holds no consumer at the time, and a consumer
is let go by an act of its own. -/
inductive BrokerAct (β : Type) where
  | declare (exchange name : String)
  | subscribe (holder exchange name : String)
  | publish (exchange : String) (body : β)
  | next (holder : String)
  | drop (holder : String)

/-- What comes of it: a subscription can be refused, and a consumer may have to wait. -/
inductive BrokerEvent (β : Type) where
  | declared (exchange name : String)
  | subscribed (holder exchange name : String)
  | refused (holder exchange name : String)
  | published (exchange : String) (body : β)
  | received (holder : String) (s : Consumer) (body : β)
  | waited (holder : String) (s : Consumer)
  | dropped (holder : String) (s : Consumer)

variable {β : Type}

/-- Whether an act binds a queue, unless it is bound already. -/
def BrokerAct.binds (exchange name : String) : BrokerAct β → Bool
  | .declare e n => e == exchange && n == name
  | .subscribe _ e n => e == exchange && n == name
  | _ => false

/-- The message an act publishes to an exchange. -/
def BrokerAct.bodyAt (exchange : String) : BrokerAct β → Option β
  | .publish e body => if e = exchange then some body else none
  | _ => none

/-- The messages published to an exchange since one of its queues was first declared or
subscribed. -/
def publishedSince (exchange name : String) (acts : List (BrokerAct β)) : List β :=
  (acts.dropWhile fun a => !a.binds exchange name).filterMap (·.bodyAt exchange)

/-- An act that binds a queue publishes nothing. -/
theorem BrokerAct.bodyAt_of_binds {a : BrokerAct β} {exchange name : String}
    (binds : a.binds exchange name = true) (other : String) : a.bodyAt other = none := by
  cases a with
  | publish e body => simp [BrokerAct.binds] at binds
  | _ => rfl

theorem publishedSince_cons (exchange name : String) (a : BrokerAct β)
    (rest : List (BrokerAct β)) : publishedSince exchange name (a :: rest) =
      if a.binds exchange name then rest.filterMap (·.bodyAt exchange)
      else publishedSince exchange name rest := by
  cases binds : a.binds exchange name with
  | false => simp [publishedSince, binds]
  | true => simp [publishedSince, binds, BrokerAct.bodyAt_of_binds binds]

namespace BrokerEvent

/-- The act an event comes of. -/
def act : BrokerEvent β → BrokerAct β
  | .declared exchange name => .declare exchange name
  | .subscribed holder exchange name => .subscribe holder exchange name
  | .refused holder exchange name => .subscribe holder exchange name
  | .published exchange body => .publish exchange body
  | .received holder _ _ => .next holder
  | .waited holder _ => .next holder
  | .dropped holder _ => .drop holder

/-- The exchange an event concerns. -/
def exchange : BrokerEvent β → String
  | .declared exchange _ => exchange
  | .subscribed _ exchange _ => exchange
  | .refused _ exchange _ => exchange
  | .published exchange _ => exchange
  | .received _ s _ => s.exchange
  | .waited _ s => s.exchange
  | .dropped _ s => s.exchange

/-- The message a consumer of a queue has received. -/
def receivedAt (exchange name : String) : BrokerEvent β → Option β
  | .received _ s body => if s = ⟨exchange, name⟩ then some body else none
  | _ => none

end BrokerEvent

/-- The messages that the consumers of a queue have received, in order. -/
def receivedAt (exchange name : String) (events : List (BrokerEvent β)) : List β :=
  events.filterMap (·.receivedAt exchange name)

/-- The events that concern an exchange. -/
def eventsAt (exchange : String) (events : List (BrokerEvent β)) : List (BrokerEvent β) :=
  events.filter (·.exchange = exchange)

namespace Consumers

/-- Do something, if it is possible: only who holds a consumer can take messages with it or let it
go, and only who holds none can subscribe. -/
def perform (c : Consumers β) : BrokerAct β → Option (BrokerEvent β × Consumers β)
  | .declare exchange name =>
    some (.declared exchange name, { c with broker := c.broker.declare exchange name })
  | .subscribe holder exchange name =>
    match c.held? holder, c.subscribe holder exchange name with
    | none, (.ok _, c) => some (.subscribed holder exchange name, c)
    | none, (.error _, c) => some (.refused holder exchange name, c)
    | some _, _ => none
  | .publish exchange body =>
    some (.published exchange body, { c with broker := c.broker.publish exchange body })
  | .next holder =>
    (c.held? holder).map fun s =>
      match c.next s with
      | (some body, c) => (.received holder s body, c)
      | (none, c) => (.waited holder s, c)
  | .drop holder => (c.held? holder).map fun s => (.dropped holder s, c.drop holder)

/-- Do things one after the other, if all of them are possible. -/
def performAll (c : Consumers β) :
    List (BrokerAct β) → Option (List (BrokerEvent β) × Consumers β)
  | [] => some ([], c)
  | a :: rest => do
    let (e, c) ← c.perform a
    let (events, c) ← c.performAll rest
    some (e :: events, c)

/-- What an event does to a broker and its consumers. -/
inductive Undergoes (c : Consumers β) : BrokerEvent β → Consumers β → Prop where
  | declare (exchange name : String) :
      Undergoes c (.declared exchange name)
        { c with broker := c.broker.declare exchange name }
  | enlist {holder exchange name : String} (new : c.held? holder = none)
      (free : c.broker.takenAt exchange name = false) :
      Undergoes c (.subscribed holder exchange name)
        { broker := c.broker.enlist exchange name
          held := (holder, ⟨exchange, name⟩) :: c.held }
  | refuse {holder exchange name : String} (new : c.held? holder = none)
      (taken : c.broker.takenAt exchange name = true) :
      Undergoes c (.refused holder exchange name) c
  | publish (exchange : String) (body : β) :
      Undergoes c (.published exchange body)
        { c with broker := c.broker.publish exchange body }
  | receive {holder exchange name : String} (holds : c.held? holder = some ⟨exchange, name⟩)
      {body : β} {rest : List β} (waiting : c.broker.waitingAt exchange name = body :: rest) :
      Undergoes c (.received holder ⟨exchange, name⟩ body)
        { c with broker := c.broker.advance exchange name }
  | wait {holder exchange name : String} (holds : c.held? holder = some ⟨exchange, name⟩)
      (empty : c.broker.waitingAt exchange name = []) :
      Undergoes c (.waited holder ⟨exchange, name⟩) c
  | drop {holder exchange name : String} (holds : c.held? holder = some ⟨exchange, name⟩) :
      Undergoes c (.dropped holder ⟨exchange, name⟩)
        { broker := c.broker.drop ⟨exchange, name⟩, held := c.held.filter (·.1 != holder) }

variable {c c' : Consumers β} {e : BrokerEvent β}

/-- A queue with a consumer is bound, so that there is nothing to declare. -/
theorem declare_of_taken {b : Broker β} {exchange name : String}
    (taken : b.takenAt exchange name = true) : b.declare exchange name = b := by
  have bound : (b.queue? exchange name).isSome := by
    cases found : b.queue? exchange name with
    | none => simp [Broker.takenAt, found] at taken
    | some q => rfl
  rw [Broker.declare, if_pos bound]

theorem subscribe_of_taken {holder exchange name : String}
    (taken : c.broker.takenAt exchange name = true) : c.subscribe holder exchange name =
      (.error (.invalidArgument (.queueTaken name)), c) := by
  simp only [subscribe, Broker.subscribe_of_taken taken, declare_of_taken taken]

theorem subscribe_of_free {holder exchange name : String} (new : c.held? holder = none)
    (free : c.broker.takenAt exchange name = false) : c.subscribe holder exchange name =
      (.ok ⟨exchange, name⟩,
        { broker := c.broker.enlist exchange name
          held := (holder, ⟨exchange, name⟩) :: c.held }) := by
  have kept : ({ c with broker := c.broker.enlist exchange name } : Consumers β).held? holder =
    none := new
  simp only [subscribe, Broker.subscribe_of_free free, drop, kept]

/-- What comes of an act is an event that comes of this act. -/
theorem perform_eq_some_iff {a : BrokerAct β} :
    c.perform a = some (e, c') ↔ e.act = a ∧ c.Undergoes e c' := by
  constructor
  · intro happens
    cases a with
    | declare exchange name =>
      cases happens
      exact ⟨rfl, .declare exchange name⟩
    | subscribe holder exchange name =>
      cases new : c.held? holder with
      | some s => simp [perform, new] at happens
      | none =>
        cases taken : c.broker.takenAt exchange name with
        | false =>
          rw [perform, subscribe_of_free new taken, new] at happens
          cases happens
          exact ⟨rfl, .enlist new taken⟩
        | true =>
          rw [perform, subscribe_of_taken taken, new] at happens
          cases happens
          exact ⟨rfl, .refuse new taken⟩
    | publish exchange body =>
      cases happens
      exact ⟨rfl, .publish exchange body⟩
    | next holder =>
      obtain ⟨⟨exchange, name⟩, holds, happens⟩ := Option.map_eq_some_iff.mp happens
      cases waiting : c.broker.waitingAt exchange name with
      | nil =>
        rw [Consumers.next, Broker.next_of_empty waiting] at happens
        cases happens
        exact ⟨rfl, .wait holds waiting⟩
      | cons body rest =>
        rw [Consumers.next, Broker.next_of_waiting waiting] at happens
        cases happens
        exact ⟨rfl, .receive holds waiting⟩
    | drop holder =>
      obtain ⟨⟨exchange, name⟩, holds, happens⟩ := Option.map_eq_some_iff.mp happens
      rw [Consumers.drop, holds] at happens
      cases happens
      exact ⟨rfl, .drop holds⟩
  · rintro ⟨rfl, undergoes⟩
    cases undergoes with
    | declare exchange name => rfl
    | enlist new free => simp only [BrokerEvent.act, perform, new, subscribe_of_free new free]
    | refuse new taken => simp only [BrokerEvent.act, perform, new, subscribe_of_taken taken]
    | publish exchange body => rfl
    | receive holds waiting =>
      simp [BrokerEvent.act, perform, holds, Consumers.next, Broker.next_of_waiting waiting]
    | wait holds empty =>
      simp [BrokerEvent.act, perform, holds, Consumers.next, Broker.next_of_empty empty]
    | drop holds => simp [BrokerEvent.act, perform, holds, Consumers.drop]

/-! ## Elsewhere -/

/-- An event changes no queue of an exchange it does not concern. -/
theorem Undergoes.queue?_elsewhere (undergoes : c.Undergoes e c') {exchange : String}
    (ne : exchange ≠ e.exchange) (name : String) :
    c'.broker.queue? exchange name = c.broker.queue? exchange name := by
  cases undergoes with
  | declare other name' => exact Broker.queue?_declare_of_ne _ ne _ _
  | enlist new free => exact Broker.queue?_enlist_of_ne _ ne _ _
  | refuse new taken => rfl
  | publish other body => exact Broker.queue?_publish_of_ne _ ne _ _
  | receive holds waiting => exact Broker.queue?_advance_of_ne _ ne _ _
  | wait holds empty => rfl
  | drop holds => exact Broker.queue?_drop_of_ne _ ne _ _

theorem receivedAt_elsewhere {exchange : String} (ne : exchange ≠ e.exchange) (name : String) :
    e.receivedAt exchange name = none := by
  cases e with
  | received holder s body =>
    refine if_neg fun same => ne ?_
    rw [BrokerEvent.exchange, same]
  | _ => rfl

theorem bodyAt_elsewhere {exchange : String} (ne : exchange ≠ e.exchange) :
    e.act.bodyAt exchange = none := by
  cases e with
  | published other body => exact if_neg (Ne.symm ne)
  | _ => rfl

theorem binds_elsewhere {exchange : String} (ne : exchange ≠ e.exchange) (name : String) :
    e.act.binds exchange name = false := by
  have away : (e.exchange == exchange) = false := by simpa using Ne.symm ne
  cases e <;> simp_all [BrokerEvent.act, BrokerAct.binds, BrokerEvent.exchange]

/-! ## Consumers -/

/-- Nobody holds two consumers, no queue has two, and a broker knows which queues have one. -/
structure Orderly (c : Consumers β) : Prop where
  holders : (c.held.map Prod.fst).Nodup
  queues : (c.held.map Prod.snd).Nodup
  taken : ∀ exchange name, c.broker.takenAt exchange name = true ↔
    ⟨exchange, name⟩ ∈ c.held.map Prod.snd

theorem orderly_empty : ({} : Consumers β).Orderly where
  holders := .nil
  queues := .nil
  taken exchange name := by simp [Broker.takenAt, Broker.queue?]

/-- A lookup finds what is listed, if nobody is listed twice. -/
theorem held?_eq_some_iff (holders : (c.held.map Prod.fst).Nodup) {holder : String}
    {s : Consumer} : c.held? holder = some s ↔ (holder, s) ∈ c.held := by
  obtain ⟨broker, held⟩ := c
  simp only [held?] at holders ⊢
  induction held with
  | nil => simp
  | cons head rest ih =>
    obtain ⟨k, v⟩ := head
    obtain ⟨fresh, others⟩ := List.nodup_cons.mp holders
    by_cases same : holder = k
    · subst same
      have absent : (holder, s) ∉ rest := fun member =>
        fresh (List.mem_map.mpr ⟨_, member, rfl⟩)
      simp [absent, eq_comm]
    · have differs : (holder == k) = false := by simpa using same
      simp [List.lookup_cons, differs, same, ih others]

theorem not_mem_of_held? {holder : String} (new : c.held? holder = none) :
    holder ∉ c.held.map Prod.fst := by
  intro member
  obtain ⟨⟨h, s⟩, listed, rfl⟩ := List.mem_map.mp member
  have differs := List.lookup_eq_none_iff.mp new (h, s) listed
  simp at differs

/-- Who lets go of a consumer is the only one to do so. -/
theorem mem_queues_drop (orderly : c.Orderly) {holder : String} {s : Consumer}
    (holds : c.held? holder = some s) (other : Consumer) :
    other ∈ (c.held.filter (·.1 != holder)).map Prod.snd ↔
      other ≠ s ∧ other ∈ c.held.map Prod.snd := by
  have own := (held?_eq_some_iff orderly.holders).mp holds
  constructor
  · intro member
    obtain ⟨⟨h, s'⟩, kept, rfl⟩ := List.mem_map.mp member
    obtain ⟨listed, ne⟩ := List.mem_filter.mp kept
    refine ⟨fun same => ?_, List.mem_map.mpr ⟨_, listed, rfl⟩⟩
    -- two entries with one consumer would be one entry
    have one : (h, s') = (holder, s) := List.inj_on_of_nodup_map orderly.queues listed own same
    cases one
    simp at ne
  · rintro ⟨ne, member⟩
    obtain ⟨⟨h, s'⟩, listed, rfl⟩ := List.mem_map.mp member
    refine List.mem_map.mpr ⟨(h, s'), List.mem_filter.mpr ⟨listed, ?_⟩, rfl⟩
    simp only [bne_iff_ne, ne_eq]
    rintro rfl
    have one : (h, s') = (h, s) := List.inj_on_of_nodup_map orderly.holders listed own rfl
    exact ne (congrArg Prod.snd one)

/-- Who has a consumer after an event. -/
theorem Undergoes.taken (undergoes : c.Undergoes e c') (orderly : c.Orderly)
    (exchange name : String) : c'.broker.takenAt exchange name = true ↔
      ⟨exchange, name⟩ ∈ c'.held.map Prod.snd := by
  by_cases here : exchange = e.exchange
  · cases undergoes with
    | declare other name' =>
      obtain rfl : exchange = other := here
      simpa using orderly.taken exchange name
    | @enlist holder other name' new free =>
      obtain rfl : exchange = other := here
      simp [Broker.takenAt_enlist, orderly.taken]
    | refuse new taken => exact orderly.taken exchange name
    | publish other body =>
      obtain rfl : exchange = other := here
      simpa using orderly.taken exchange name
    | @receive holder other name' holds body rest waiting =>
      obtain rfl : exchange = other := here
      simpa using orderly.taken exchange name
    | wait holds empty => exact orderly.taken exchange name
    | @drop holder other name' holds =>
      obtain rfl : exchange = other := here
      rw [mem_queues_drop orderly holds, ← orderly.taken, Broker.takenAt_drop]
      simp
  · rw [(Broker.answers_of_queue? (undergoes.queue?_elsewhere here name)).2.2, orderly.taken]
    cases undergoes with
    | @enlist holder other name' new free =>
      have ne : ¬ exchange = other := here
      simp [ne]
    | @drop holder other name' holds =>
      have ne : ¬ exchange = other := here
      rw [mem_queues_drop orderly holds]
      simp [ne]
    | _ => rfl

theorem Undergoes.orderly (undergoes : c.Undergoes e c') (orderly : c.Orderly) : c'.Orderly := by
  have taken := undergoes.taken orderly
  cases undergoes with
  | @enlist holder exchange name new free =>
    have untaken : (⟨exchange, name⟩ : Consumer) ∉ c.held.map Prod.snd := fun member => by
      simp [(orderly.taken exchange name).mpr member] at free
    exact {
      holders := List.nodup_cons.mpr ⟨not_mem_of_held? new, orderly.holders⟩
      queues := List.nodup_cons.mpr ⟨untaken, orderly.queues⟩
      taken }
  | @drop holder exchange name holds =>
    have part : (c.held.filter (·.1 != holder)).Sublist c.held := List.filter_sublist
    exact ⟨orderly.holders.sublist (part.map _), orderly.queues.sublist (part.map _), taken⟩
  | _ => exact ⟨orderly.holders, orderly.queues, taken⟩

/-! ## Messages -/

theorem waitingAt_drop_any (b : Broker β) (s : Consumer) (other name' : String) :
    (b.drop s).waitingAt other name' = b.waitingAt other name' := by
  by_cases here : other = s.exchange
  · subst here
    exact Broker.waitingAt_drop _ _ _ _
  · exact (Broker.answers_of_queue? (Broker.queue?_drop_of_ne _ here _ _)).2.1

/-- Binding a queue, again or for the first time, leaves what waits in any queue alone. -/
theorem waitingAt_declare_any (b : Broker β) (exchange name other name' : String) :
    (b.declare exchange name).waitingAt other name' = b.waitingAt other name' := by
  by_cases here : other = exchange
  · subst here
    exact Broker.waitingAt_declare _ _ _ _
  · exact (Broker.answers_of_queue? (Broker.queue?_declare_of_ne _ here _ _)).2.1

theorem waitingAt_enlist_any (b : Broker β) (exchange name other name' : String) :
    (b.enlist exchange name).waitingAt other name' = b.waitingAt other name' := by
  by_cases here : other = exchange
  · subst here
    exact Broker.waitingAt_enlist _ _ _ _
  · exact (Broker.answers_of_queue? (Broker.queue?_enlist_of_ne _ here _ _)).2.1

/-- So does subscribing, whether it succeeds or not. -/
theorem waitingAt_subscribe (c : Consumers β) (holder exchange name other name' : String) :
    (c.subscribe holder exchange name).2.broker.waitingAt other name' =
      c.broker.waitingAt other name' := by
  cases taken : c.broker.takenAt exchange name with
  | true => rw [subscribe_of_taken taken]
  | false =>
    simp only [subscribe, Broker.subscribe_of_free taken, drop]
    split
    · rw [waitingAt_drop_any, waitingAt_enlist_any]
    · exact waitingAt_enlist_any _ _ _ _ _

/-- What an event adds to a queue in the end, and what it takes out of it in front. -/
theorem Undergoes.waitingAt (undergoes : c.Undergoes e c') (exchange name : String) :
    (e.receivedAt exchange name).toList ++ c'.broker.waitingAt exchange name =
      c.broker.waitingAt exchange name ++
        if c.broker.boundAt exchange name then (e.act.bodyAt exchange).toList else [] := by
  by_cases here : exchange = e.exchange
  · cases undergoes with
    | declare other name' =>
      obtain rfl : exchange = other := here
      simp [BrokerEvent.receivedAt, BrokerEvent.act, BrokerAct.bodyAt]
    | @enlist holder other name' new free =>
      obtain rfl : exchange = other := here
      simp [BrokerEvent.receivedAt, BrokerEvent.act, BrokerAct.bodyAt]
    | refuse new taken => simp [BrokerEvent.receivedAt, BrokerEvent.act, BrokerAct.bodyAt]
    | publish other body =>
      obtain rfl : exchange = other := here
      simp [BrokerEvent.receivedAt, BrokerEvent.act, BrokerAct.bodyAt, Broker.waitingAt_publish]
    | @receive holder other name' holds body rest waiting =>
      obtain rfl : exchange = other := here
      by_cases own : name' = name
      · subst own
        simp [BrokerEvent.receivedAt, BrokerEvent.act, BrokerAct.bodyAt, Broker.waitingAt_advance,
          waiting]
      · simp [BrokerEvent.receivedAt, BrokerEvent.act, BrokerAct.bodyAt, Broker.waitingAt_advance,
          own, Ne.symm own]
    | wait holds empty => simp [BrokerEvent.receivedAt, BrokerEvent.act, BrokerAct.bodyAt]
    | @drop holder other name' holds =>
      obtain rfl : exchange = other := here
      simp [BrokerEvent.receivedAt, BrokerEvent.act, BrokerAct.bodyAt]
  · have same := Broker.answers_of_queue? (undergoes.queue?_elsewhere here name)
    simp [receivedAt_elsewhere here, bodyAt_elsewhere here, same]

/-- A queue is bound by an act that binds it, and stays so. -/
theorem Undergoes.boundAt (undergoes : c.Undergoes e c') (exchange name : String) :
    c'.broker.boundAt exchange name =
      (e.act.binds exchange name || c.broker.boundAt exchange name) := by
  by_cases here : exchange = e.exchange
  · cases undergoes with
    | declare other name' =>
      obtain rfl : exchange = other := here
      simp [BrokerEvent.act, BrokerAct.binds, Broker.boundAt_declare, Bool.beq_comm]
    | @enlist holder other name' new free =>
      obtain rfl : exchange = other := here
      simp [BrokerEvent.act, BrokerAct.binds, Broker.boundAt_enlist, Bool.beq_comm]
    | @refuse holder other name' new taken =>
      obtain rfl : exchange = other := here
      -- a queue that has a consumer has been bound before
      have bound := Broker.boundAt_declare c.broker exchange name' name
      rw [declare_of_taken taken] at bound
      simpa [BrokerEvent.act, BrokerAct.binds, Bool.beq_comm] using bound
    | publish other body =>
      obtain rfl : exchange = other := here
      simp [BrokerEvent.act, BrokerAct.binds]
    | @receive holder other name' holds body rest waiting =>
      obtain rfl : exchange = other := here
      simp [BrokerEvent.act, BrokerAct.binds]
    | wait holds empty => simp [BrokerEvent.act, BrokerAct.binds]
    | @drop holder other name' holds =>
      obtain rfl : exchange = other := here
      simp [BrokerEvent.act, BrokerAct.binds]
  · have same := Broker.answers_of_queue? (undergoes.queue?_elsewhere here name)
    simp [binds_elsewhere here, same]

/-! ## Runs -/

/-- Acts one after the other have events one after the other. -/
theorem performAll_cons_eq_some {a : BrokerAct β} {rest : List (BrokerAct β)}
    {events : List (BrokerEvent β)} (runs : c.performAll (a :: rest) = some (events, c')) :
    ∃ e middle later, events = e :: later ∧ e.act = a ∧ c.Undergoes e middle ∧
      middle.performAll rest = some (later, c') := by
  obtain ⟨⟨e, middle⟩, happens, runs⟩ := Option.bind_eq_some_iff.mp runs
  obtain ⟨⟨later, last⟩, goesOn, runs⟩ := Option.bind_eq_some_iff.mp runs
  cases runs
  obtain ⟨act, undergoes⟩ := perform_eq_some_iff.mp happens
  exact ⟨e, middle, later, rfl, act, undergoes, goesOn⟩

theorem performAll_cons {a : BrokerAct β} {rest : List (BrokerAct β)} {middle : Consumers β}
    {later : List (BrokerEvent β)} (happens : c.perform a = some (e, middle))
    (goesOn : middle.performAll rest = some (later, c')) :
    c.performAll (a :: rest) = some (e :: later, c') := by
  simp [performAll, happens, goesOn]

theorem orderly_of_performAll {acts : List (BrokerAct β)} {events : List (BrokerEvent β)}
    (orderly : c.Orderly) (runs : c.performAll acts = some (events, c')) : c'.Orderly := by
  induction acts generalizing c events with
  | nil =>
    cases runs
    exact orderly
  | cons a rest ih =>
    obtain ⟨e, middle, later, -, -, undergoes, goesOn⟩ := performAll_cons_eq_some runs
    exact ih (undergoes.orderly orderly) goesOn

/-- What has been received of a queue and what waits in it is what waited before and what has been
published to it in between. A queue that is not bound yet begins with the act that binds it. -/
theorem received_append_waiting {acts : List (BrokerAct β)} {events : List (BrokerEvent β)}
    (runs : c.performAll acts = some (events, c')) (exchange name : String) :
    receivedAt exchange name events ++ c'.broker.waitingAt exchange name =
      c.broker.waitingAt exchange name ++
        if c.broker.boundAt exchange name then acts.filterMap (·.bodyAt exchange)
        else publishedSince exchange name acts := by
  induction acts generalizing c events with
  | nil =>
    cases runs
    simp [receivedAt, publishedSince]
  | cons a rest ih =>
    obtain ⟨e, middle, later, rfl, rfl, undergoes, goesOn⟩ := performAll_cons_eq_some runs
    have front : receivedAt exchange name (e :: later) =
        (e.receivedAt exchange name).toList ++ receivedAt exchange name later := by
      cases received : e.receivedAt exchange name <;>
        simp [CallDispatch.receivedAt, received]
    have published : (if c.broker.boundAt exchange name then (e.act.bodyAt exchange).toList
          else []) ++ (if middle.broker.boundAt exchange name then
            rest.filterMap (·.bodyAt exchange) else publishedSince exchange name rest) =
        if c.broker.boundAt exchange name then (e.act :: rest).filterMap (·.bodyAt exchange)
        else publishedSince exchange name (e.act :: rest) := by
      rw [undergoes.boundAt exchange name]
      cases c.broker.boundAt exchange name with
      | false => simp [publishedSince_cons]
      | true => cases body : e.act.bodyAt exchange <;> simp [body]
    calc
      _ = (e.receivedAt exchange name).toList ++
          (receivedAt exchange name later ++ c'.broker.waitingAt exchange name) := by
        rw [front, List.append_assoc]
      _ = ((e.receivedAt exchange name).toList ++ middle.broker.waitingAt exchange name) ++ _ := by
        rw [ih goesOn, List.append_assoc]
      _ = _ := by rw [undergoes.waitingAt exchange name, List.append_assoc, published]

/-! ## One exchange by itself -/

/-- What there is at an exchange: its queues, and the consumers that take from them. -/
structure SameAt (exchange : String) (c k : Consumers β) : Prop where
  queues : ∀ name, k.broker.queue? exchange name = c.broker.queue? exchange name
  held : k.held = c.held.filter (·.2.exchange = exchange)

variable {k : Consumers β} {exchange : String}

theorem SameAt.holders (same : SameAt exchange c k) (orderly : c.Orderly) :
    (k.held.map Prod.fst).Nodup := by
  rw [same.held]
  exact orderly.holders.sublist (List.filter_sublist.map _)

theorem SameAt.holds (same : SameAt exchange c k) (orderly : c.Orderly) {holder : String}
    {s : Consumer} (here : s.exchange = exchange) (holds : c.held? holder = some s) :
    k.held? holder = some s := by
  refine (held?_eq_some_iff (same.holders orderly)).mpr ?_
  rw [same.held]
  exact List.mem_filter.mpr ⟨(held?_eq_some_iff orderly.holders).mp holds, by simpa using here⟩

theorem SameAt.new (same : SameAt exchange c k) {holder : String}
    (new : c.held? holder = none) : k.held? holder = none := by
  refine List.lookup_eq_none_iff.mpr fun entry listed => ?_
  rw [same.held] at listed
  exact List.lookup_eq_none_iff.mp new entry (List.mem_of_mem_filter listed)

/-- What happens at other exchanges is of no account. -/
theorem SameAt.elsewhere (same : SameAt exchange c k) (orderly : c.Orderly)
    (undergoes : c.Undergoes e c') (ne : exchange ≠ e.exchange) : SameAt exchange c' k := by
  refine ⟨fun name => ?_, ?_⟩
  · rw [same.queues, undergoes.queue?_elsewhere ne]
  · cases undergoes with
    | @enlist holder other name new free =>
      have away : ¬ other = exchange := Ne.symm ne
      simp [same.held, away]
    | @drop holder other name holds =>
      have own := (held?_eq_some_iff orderly.holders).mp holds
      rw [same.held, List.filter_filter]
      refine List.filter_congr fun entry listed => ?_
      by_cases mine : entry.1 = holder
      · -- the only consumer of the holder is at the other exchange
        have one := List.inj_on_of_nodup_map orderly.holders listed own mine
        have away : ¬ other = exchange := Ne.symm ne
        simp [one, away]
      · simp [mine]
    | _ => exact same.held

/-- What happens at an exchange happens there also if there are no others. -/
theorem SameAt.here (same : SameAt exchange c k) (orderly : c.Orderly)
    (undergoes : c.Undergoes e c') (here : e.exchange = exchange) :
    ∃ k', k.Undergoes e k' ∧ SameAt exchange c' k' := by
  have answers := fun name => Broker.answers_of_queue? (same.queues name)
  cases undergoes with
  | declare other name =>
    obtain rfl : other = exchange := here
    refine ⟨_, .declare other name, fun name' => ?_, same.held⟩
    simp only [Broker.queue?_declare, same.queues]
  | @enlist holder other name new free =>
    obtain rfl : other = exchange := here
    refine ⟨_, .enlist (same.new new) ((answers name).2.2.trans free), fun name' => ?_, ?_⟩
    · simp only [Broker.queue?_enlist, same.queues]
    · simp [same.held]
  | @refuse holder other name new taken =>
    obtain rfl : other = exchange := here
    exact ⟨k, .refuse (same.new new) ((answers name).2.2.trans taken), same⟩
  | publish other body =>
    obtain rfl : other = exchange := here
    refine ⟨_, .publish other body, fun name' => ?_, same.held⟩
    simp only [Broker.queue?_publish, same.queues]
  | @receive holder other name holds body rest waiting =>
    obtain rfl : other = exchange := here
    refine ⟨_, .receive (same.holds orderly rfl holds) ((answers name).2.1.trans waiting),
      fun name' => ?_, same.held⟩
    rw [Broker.advance, Broker.advance, Broker.queue?_update (by simp),
      Broker.queue?_update (by simp), same.queues, same.queues]
  | @wait holder other name holds empty =>
    obtain rfl : other = exchange := here
    exact ⟨k, .wait (same.holds orderly rfl holds) ((answers name).2.1.trans empty), same⟩
  | @drop holder other name holds =>
    obtain rfl : other = exchange := here
    refine ⟨_, .drop (same.holds orderly rfl holds), fun name' => ?_, ?_⟩
    · rw [Broker.drop, Broker.drop, Broker.queue?_update (by simp),
        Broker.queue?_update (by simp), same.queues, same.queues]
    · simp only [same.held, List.filter_filter, Bool.and_comm]

/-- A run can be cut down to what concerns one exchange. -/
theorem SameAt.performAll (same : SameAt exchange c k) (orderly : c.Orderly)
    {acts : List (BrokerAct β)} {events : List (BrokerEvent β)}
    (runs : c.performAll acts = some (events, c')) :
    ∃ k', k.performAll ((eventsAt exchange events).map BrokerEvent.act) =
        some (eventsAt exchange events, k') ∧ SameAt exchange c' k' := by
  induction acts generalizing c k events with
  | nil =>
    cases runs
    exact ⟨k, rfl, same⟩
  | cons a rest ih =>
    obtain ⟨e, middle, later, rfl, -, undergoes, goesOn⟩ := performAll_cons_eq_some runs
    by_cases here : e.exchange = exchange
    · obtain ⟨next, happens, same'⟩ := same.here orderly undergoes here
      obtain ⟨k', alone, last⟩ := ih same' (undergoes.orderly orderly) goesOn
      refine ⟨k', ?_, last⟩
      have first : eventsAt exchange (e :: later) = e :: eventsAt exchange later := by
        simp [eventsAt, here]
      rw [first, List.map_cons]
      exact performAll_cons (perform_eq_some_iff.mpr ⟨rfl, happens⟩) alone
    · obtain ⟨k', alone, last⟩ := ih (same.elsewhere orderly undergoes (Ne.symm here))
        (undergoes.orderly orderly) goesOn
      refine ⟨k', ?_, last⟩
      simpa [eventsAt, here] using alone

/-- Queues keep what is published to them for their consumers, in order, whatever is done: a
subscription fails exactly if the queue has a consumer, and then changes nothing, and one exchange
knows nothing of another. -/
theorem queues_deliver {acts : List (BrokerAct β)} {events : List (BrokerEvent β)}
    {c : Consumers β} (runs : ({} : Consumers β).performAll acts = some (events, c)) :
    (∀ exchange name, receivedAt exchange name events ++ c.broker.waitingAt exchange name =
      publishedSince exchange name acts) ∧
    (∀ exchange name other name',
      (c.broker.declare exchange name).waitingAt other name' = c.broker.waitingAt other name' ∧
      ∀ holder, (c.subscribe holder exchange name).2.broker.waitingAt other name' =
        c.broker.waitingAt other name') ∧
    (c.held.map Prod.snd).Nodup ∧
    (∀ holder exchange name, c.held? holder = none →
      (⟨exchange, name⟩ ∈ c.held.map Prod.snd ∧ c.subscribe holder exchange name =
        (.error (.invalidArgument (.queueTaken name)), c)) ∨
      (⟨exchange, name⟩ ∉ c.held.map Prod.snd ∧
        (c.subscribe holder exchange name).1 = .ok ⟨exchange, name⟩ ∧
        (c.subscribe holder exchange name).2.held = (holder, ⟨exchange, name⟩) :: c.held)) ∧
    (∀ exchange, ∃ alone, ({} : Consumers β).performAll
        ((eventsAt exchange events).map BrokerEvent.act) =
          some (eventsAt exchange events, alone) ∧
      (∀ name, alone.broker.queue? exchange name = c.broker.queue? exchange name) ∧
      alone.held = c.held.filter (·.2.exchange = exchange)) := by
  have orderly := orderly_of_performAll orderly_empty runs
  refine ⟨fun exchange name => ?_, fun exchange name other name' =>
    ⟨waitingAt_declare_any _ _ _ _ _, fun holder => waitingAt_subscribe _ _ _ _ _ _⟩,
    orderly.queues, fun holder exchange name new => ?_, fun exchange => ?_⟩
  · exact received_append_waiting runs exchange name
  · rw [← orderly.taken exchange name]
    cases taken : c.broker.takenAt exchange name with
    | true => exact Or.inl ⟨rfl, subscribe_of_taken taken⟩
    | false =>
      refine Or.inr ⟨by simp, ?_⟩
      rw [subscribe_of_free new taken]
      exact ⟨rfl, rfl⟩
  · have empty : SameAt exchange ({} : Consumers β) {} := ⟨fun _ => rfl, rfl⟩
    obtain ⟨alone, own, same⟩ := empty.performAll orderly_empty runs
    exact ⟨alone, own, same.queues, same.held⟩

/-- Two exchanges with queues of one name. The first consumer at `x` leaves a message behind, a
second one is turned away while the first is there, and binding the queue again loses nothing. -/
def twoExchanges : List (BrokerAct Nat) :=
  [.publish "x" 0, .declare "x" "q", .publish "x" 1, .subscribe "a" "x" "q", .publish "x" 2,
   .publish "y" 9, .next "a", .subscribe "b" "x" "q", .subscribe "b" "y" "q", .publish "y" 10,
   .drop "a", .publish "x" 3, .declare "x" "q", .subscribe "c" "x" "q", .next "c", .next "b"]

theorem queues_deliver_two_exchanges :
    ∃ events c, ({} : Consumers Nat).performAll twoExchanges = some (events, c) ∧
      receivedAt "x" "q" events = [1, 2] ∧ receivedAt "y" "q" events = [10] ∧
      c.broker.waitingAt "x" "q" = [3] ∧
      receivedAt "x" "q" events ++ c.broker.waitingAt "x" "q" =
        publishedSince "x" "q" twoExchanges := by
  have runs : ({} : Consumers Nat).performAll twoExchanges =
      some ((({} : Consumers Nat).performAll twoExchanges).get rfl) := rfl
  exact ⟨_, _, runs, rfl, rfl, rfl, (queues_deliver runs).1 "x" "q"⟩

end Consumers

end CallDispatch
