import CallDispatch.Settings
import CallDispatch.Program

/-!
# Usage

Every action takes a payload and options. An option may be stood in for by an environment variable,
and some options have a default besides. The option for the handler belongs to every action.
-/

namespace CallDispatch

namespace CommandLine

open Program (Action)

/-- An option that takes a value. -/
structure OptionUsage where
  name : String
  description : String
  environment : Option String := none
  default : Option String := none
  deriving DecidableEq, Repr

/-- The payload an action takes, and whether the action needs it. -/
structure PayloadUsage where
  description : String
  needed : Bool
  deriving DecidableEq, Repr

/-- What an action does and takes, the handler apart. -/
structure Usage where
  description : String
  payload : PayloadUsage
  options : List OptionUsage := []
  deriving DecidableEq, Repr

/-- The option for the handler. -/
def handlerOption : OptionUsage where
  name := "handler"
  description := "Shell command executing invocations; receives the payload as JSON on stdin"
  environment := some "BATCH_HANDLER"
  default := some ({} : HandlerSettings).command

/-- A payload that is only looked at for its log level. -/
def optionalPayload : PayloadUsage :=
  ⟨"Base64-encoded JSON payload (only \x60log_level\x60 is read)", false⟩

/-- What each action does and takes. -/
def usage : Action → Usage
  | .pullJob =>
    { description := "Pull call ranges from the master and execute them"
      payload := ⟨"Base64-encoded JSON job payload", true⟩
      options :=
        [{ name := "master-ip", description := "IP of the master pod",
           environment := some "MASTER_POD_IP" },
         { name := "master-url",
           description := "Full master URL; takes precedence over --master-ip",
           environment := some "MASTER_URL" }] }
  | .serveMaster =>
    { description := "Serve call ranges to pull workers"
      payload := optionalPayload
      options :=
        [{ name := "port", description := "Port to listen on",
           default := some (Text.Decimal.text ({} : MasterSettings).port) }] }
  | .listenForJobs =>
    { description := "Consume broadcast job messages and run this pod's share"
      payload := ⟨"Base64-encoded JSON listener payload", true⟩ }
  | .describe =>
    { description := "Print runtime metadata as JSON"
      payload := optionalPayload }

/-- The options of an action, that for the handler first. -/
def Usage.allOptions (u : Usage) : List OptionUsage := handlerOption :: u.options

end CommandLine

end CallDispatch
