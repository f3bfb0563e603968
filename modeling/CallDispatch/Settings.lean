import CallDispatch.Cluster

/-!
# Settings

What a master, a worker, a pod and a waiting client are told at the start, with the defaults they
fall back to.
-/

namespace CallDispatch

open Json (Decoded Document Record Row fill require)

/-- Where a master listens. -/
structure MasterSettings where
  host : String := "0.0.0.0"
  port : Nat := 8080
  deriving DecidableEq, Repr

/-- The address of a master. -/
def MasterSettings.address (c : MasterSettings) : String :=
  c.host ++ ":" ++ Text.Decimal.text c.port

/-- Which master a worker asks, and how long it waits before it asks again. -/
structure PullSettings where
  masterUrl : String := "http://127.0.0.1:8080"
  retryDelay : Nat := 100
  deriving DecidableEq, Repr

/-- The settings of a worker whose master runs on a given host. -/
def PullSettings.forMasterHost (host : String) : PullSettings :=
  { masterUrl := "http://" ++ host ++ ":8080" }

/-- Which messages a pod listens for and which processors it owns. -/
structure ListenerSettings where
  brokerUrl : String
  exchange : String
  queueName : String
  firstProcessor : Nat
  lastProcessor : Nat
  clusterSize : Nat
  deriving DecidableEq, Repr

/-- The broker a pod uses if it is told none. -/
def ListenerSettings.defaultBrokerUrl : String := "redis://127.0.0.1:6379"

/-- The exchange a pod listens on if it is told none. -/
def ListenerSettings.defaultExchange : String := "batch"

namespace ListenerSettings

/-- The processors of a pod. -/
def range (c : ListenerSettings) : ProcessorRun := ⟨c.firstProcessor, c.lastProcessor⟩

/-- The JSON object of a pod's settings. -/
def json (c : ListenerSettings) : Json :=
  .object [("broker_url", .text c.brokerUrl), ("exchange", .text c.exchange),
    ("queue_name", .text c.queueName), ("range_start", .number (.nat c.firstProcessor)),
    ("range_end", .number (.nat c.lastProcessor)),
    ("num_cpus_cluster", .number (.nat c.clusterSize))]

/-- Settings while they are being read. -/
structure Draft where
  brokerUrl : Option String := none
  exchange : Option String := none
  queueName : Option String := none
  firstProcessor : Option Nat := none
  lastProcessor : Option Nat := none
  clusterSize : Option Nat := none

/-- Read one member. The broker may go by either of two names. -/
def Draft.put (d : Draft) (key : String) (value : Document) : Decoded Draft :=
  match key with
  | "broker_url" | "amqp_url" => do
    pure { d with brokerUrl := ← fill "broker_url" d.brokerUrl (·.string) value }
  | "exchange" => do pure { d with exchange := ← fill key d.exchange (·.string) value }
  | "queue_name" => do pure { d with queueName := ← fill key d.queueName (·.string) value }
  | "range_start" => do
    pure { d with firstProcessor := ← fill key d.firstProcessor (·.word "usize") value }
  | "range_end" => do
    pure { d with lastProcessor := ← fill key d.lastProcessor (·.word "usize") value }
  | "num_cpus_cluster" => do
    pure { d with clusterSize := ← fill key d.clusterSize (·.word "usize") value }
  | _ => do value.skip; pure d

/-- How settings are decoded. -/
def record : Record Draft ListenerSettings where
  name := "struct ListenerConfig"
  draft := {}
  put := Draft.put
  close d := do
    let brokerUrl ← require "broker_url" d.brokerUrl
    let queueName ← require "queue_name" d.queueName
    let firstProcessor ← require "range_start" d.firstProcessor
    let lastProcessor ← require "range_end" d.lastProcessor
    let clusterSize ← require "num_cpus_cluster" d.clusterSize
    pure {
      brokerUrl, queueName, firstProcessor, lastProcessor, clusterSize
      exchange := d.exchange.getD defaultExchange }
  row r := do
    let expected := "struct ListenerConfig with 6 elements"
    let (brokerUrl, r) ← r.next expected (·.string)
    let (exchange, r) ← r.nextOr defaultExchange (·.string)
    let (queueName, r) ← r.next expected (·.string)
    let (firstProcessor, r) ← r.next expected (·.word "usize")
    let (lastProcessor, r) ← r.next expected (·.word "usize")
    let (clusterSize, r) ← r.next expected (·.word "usize")
    pure ({ brokerUrl, exchange, queueName, firstProcessor, lastProcessor, clusterSize }, r)

/-- Read a pod's settings. -/
def decode : Document → Decoded ListenerSettings :=
  Document.record .direct record

end ListenerSettings

/-- How a waiting client paces itself: how many fetches run at once, and the milliseconds between
passes and between looks at a store. -/
structure WaitSettings where
  poolSize : Nat := 128
  pollInterval : Nat := 1000
  monitorInterval : Nat := 1000
  deriving DecidableEq, Repr

/-- What runs a call: a shell command and additions to its environment, sorted by name. -/
structure HandlerSettings where
  command : String := "cat > /dev/null"
  env : List (String × String) := []
  deriving DecidableEq, Repr

/-- The settings with one more addition to the environment. -/
def HandlerSettings.withVariable (c : HandlerSettings) (name value : String) : HandlerSettings :=
  { c with env := Keyed.put name value c.env }

end CallDispatch
