import CallDispatch.DispatchError

/-!
# Brokers

An exchange passes every message published to it on to all queues bound to it. A queue keeps its
messages, in order, until its consumer takes them, and it keeps them also while it has no consumer.
It has at most one consumer at a time, and a message taken is gone.
-/

namespace CallDispatch

/-- A queue: the exchange it is bound to, the messages nobody has taken, and whether it has a
consumer. -/
structure BoundQueue (β : Type) where
  exchange : String
  name : String
  waiting : List β := []
  taken : Bool := false
  deriving DecidableEq, Repr

/-- Whether a queue is the one of a name at an exchange. -/
def BoundQueue.isAt (q : BoundQueue β) (exchange name : String) : Bool :=
  q.exchange == exchange && q.name == name

/-- A consumer: the queue it takes from. -/
structure Consumer where
  exchange : String
  queue : String
  deriving DecidableEq, Repr

/-- A broker with its queues, in the order in which they were declared. -/
structure Broker (β : Type) where
  queues : List (BoundQueue β) := []
  deriving DecidableEq, Repr

namespace Broker

variable {β : Type}

/-- The queue of a name at an exchange, if it has been declared. -/
def queue? (b : Broker β) (exchange name : String) : Option (BoundQueue β) :=
  b.queues.find? (·.isAt exchange name)

/-- Change the queue of a name at an exchange. -/
def update (b : Broker β) (exchange name : String) (f : BoundQueue β → BoundQueue β) :
    Broker β where
  queues := b.queues.map fun q => if q.isAt exchange name then f q else q

/-- Declare a queue and bind it to an exchange; one that is bound already stays as it is. -/
def declare (b : Broker β) (exchange name : String) : Broker β :=
  if (b.queue? exchange name).isSome then b
  else { queues := b.queues ++ [{ exchange, name }] }

/-- Become the consumer of a queue, which is declared if need be. -/
def subscribe (b : Broker β) (exchange name : String) : Outcome Consumer × Broker β :=
  let b := b.declare exchange name
  if (b.queue? exchange name).any (·.taken) then (.error (.invalidArgument (.queueTaken name)), b)
  else (.ok ⟨exchange, name⟩, b.update exchange name ({ · with taken := true }))

/-- Publish a message to an exchange. -/
def publish (b : Broker β) (exchange : String) (body : β) : Broker β where
  queues := b.queues.map fun q =>
    if q.exchange == exchange then { q with waiting := q.waiting ++ [body] } else q

/-- A consumer takes the next message, if one is waiting. -/
def next (b : Broker β) (s : Consumer) : Option β × Broker β :=
  match (b.queue? s.exchange s.queue).bind (·.waiting.head?) with
  | some body =>
    (some body, b.update s.exchange s.queue fun q => { q with waiting := q.waiting.drop 1 })
  | none => (none, b)

/-- A consumer goes away. -/
def drop (b : Broker β) (s : Consumer) : Broker β :=
  b.update s.exchange s.queue ({ · with taken := false })

end Broker

/-- A broker and its consumers, each under the name of whoever holds it. -/
structure Consumers (β : Type) where
  broker : Broker β := {}
  held : List (String × Consumer) := []
  deriving DecidableEq, Repr

namespace Consumers

variable {β : Type}

/-- The consumer someone holds. -/
def held? (c : Consumers β) (holder : String) : Option Consumer := c.held.lookup holder

/-- Let go of the consumer someone holds. -/
def drop (c : Consumers β) (holder : String) : Consumers β :=
  match c.held? holder with
  | some s => { broker := c.broker.drop s, held := c.held.filter (·.1 != holder) }
  | none => c

/-- Subscribe on someone's behalf. The consumer held before is let go once there is a new one. -/
def subscribe (c : Consumers β) (holder exchange queue : String) :
    Outcome Consumer × Consumers β :=
  match c.broker.subscribe exchange queue with
  | (.ok s, broker) =>
    let c := ({ c with broker } : Consumers β).drop holder
    (.ok s, { c with held := (holder, s) :: c.held })
  | (.error e, broker) => (.error e, { c with broker })

/-- Take the next message with the consumer someone holds. -/
def next (c : Consumers β) (s : Consumer) : Option β × Consumers β :=
  let (body?, broker) := c.broker.next s
  (body?, { c with broker })

end Consumers

end CallDispatch
