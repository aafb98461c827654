/-
Iams.Aio.ZeebeClient — `start_process`, `cancel_process` and `send_message`
of `ZeebeCoroutine` in `iams/aio/zeebe.py`, with the gateway that they talk
to.

`Gateway` is what the Zeebe documentation says of the gateway: a message
with an id is refused while one of the same name, correlation key and id is
alive, and a process definition may be refused. It may fail before or after
it has handled a request, and the client cannot tell which (`Delivery`).
Until it gets a request, and while the client sleeps, time passes and
others use it (`Event`).

No `sorry`, no `axiom`, no `native_decide`.
-/
import Iams.Lib.Dict
import Iams.Lib.Retry

namespace Iams.Aio.ZeebeClient

open Iams.Lib Iams.Lib.Retry

/-! ## Errors -/

/-- `ZeebeBackPressureError`, `ZeebeGatewayUnavailableError`,
`ZeebeInternalError` and `UnkownGrpcStatusCodeError` -/
inductive Transient where
  | backPressure
  | gatewayUnavailable
  | internal
  | unknownGrpcStatusCode
  deriving DecidableEq, Repr

inductive ZeebeError where
  | transient (e : Transient)
  | invalidJSON
  | messageAlreadyExists
  | processDefinitionHasNoStartEvent
  | processDefinitionNotFound
  | processInstanceNotFound
  deriving DecidableEq, Repr

inductive Raised where
  | zeebe (e : ZeebeError)
  | cancelled
  deriving DecidableEq, Repr

/-! ## The gateway -/

variable {ν : Type}

structure Message (ν : Type) where
  name : String
  correlationKey : String
  vars : Dict String ν
  /-- `time_to_live_in_milliseconds` -/
  ttl : Nat
  id : Option String

/-- What the gateway tells messages apart by. -/
def Message.key (m : Message ν) : String × String × Option String :=
  (m.name, m.correlationKey, m.id)

/-- No id and an empty one are the same to the gateway. -/
def Message.Identified (m : Message ν) : Prop := m.id ≠ none ∧ m.id ≠ some ""

instance (m : Message ν) : Decidable m.Identified := inferInstanceAs (Decidable (_ ∧ _))

structure Instance (ν : Type) where
  key : Nat
  process : String
  version : Int
  vars : Dict String ν
  active : Bool

/-- The time in milliseconds, the messages with the ends of their lives, and
the process instances. -/
structure Gateway (ν : Type) where
  clock : Nat
  messages : List (Message ν × Nat)
  instances : List (Instance ν)
  nextKey : Nat

namespace Gateway

variable (g : Gateway ν)

/-- The messages like `m`. -/
def copies (m : Message ν) : List (Message ν × Nat) :=
  g.messages.filter fun p => p.1.key = m.key

/-- There is a message like `m` that has not run out. -/
def Live (m : Message ν) : Prop := ∃ p ∈ g.copies m, g.clock < p.2

instance (m : Message ν) : Decidable (g.Live m) := inferInstanceAs (Decidable (∃ p ∈ _, _))

/-- `publish_message` -/
def publish (m : Message ν) : Gateway ν × Except ZeebeError Unit :=
  if m.Identified ∧ g.Live m then
    (g, .error .messageAlreadyExists)
  else
    ({ g with messages := g.messages ++ [(m, g.clock + m.ttl)] }, .ok ())

/-- Why a process is not started. -/
inductive Refusal where
  | invalidJSON
  | noStartEvent
  | notFound
  deriving DecidableEq, Repr

def Refusal.error : Refusal → ZeebeError
  | .invalidJSON => .invalidJSON
  | .noStartEvent => .processDefinitionHasNoStartEvent
  | .notFound => .processDefinitionNotFound

/-- A request for a process instance. -/
structure Process (ν : Type) where
  id : String
  vars : Dict String ν
  version : Int

/-- `run_process`, where `refuse` says which processes are deployed. -/
def runProcess (refuse : Process ν → Option Refusal) (p : Process ν) :
    Gateway ν × Except ZeebeError Nat :=
  match refuse p with
  | some r => (g, .error r.error)
  | none =>
    ({ g with
        instances := g.instances ++ [⟨g.nextKey, p.id, p.version, p.vars, true⟩]
        nextKey := g.nextKey + 1 }, .ok g.nextKey)

/-- The instance is no longer active. -/
def finish (key : Nat) : Gateway ν :=
  { g with instances := g.instances.map fun i =>
      if i.key = key then { i with active := false } else i }

/-- `cancel_process_instance` -/
def cancelProcessInstance (key : Nat) : Gateway ν × Except ZeebeError Unit :=
  if ∃ i ∈ g.instances, i.key = key ∧ i.active then
    (g.finish key, .ok ())
  else
    (g, .error .processInstanceNotFound)

/-- What happens without the client: time passes, others publish messages
and start processes, and process instances come to an end. -/
inductive Event (ν : Type) where
  | pass (milliseconds : Nat)
  | publish (m : Message ν)
  | runProcess (p : Process ν)
  | finish (key : Nat)

def happen (refuse : Process ν → Option Refusal) : Event ν → Gateway ν
  | .pass milliseconds => { g with clock := g.clock + milliseconds }
  | .publish m => (g.publish m).1
  | .runProcess p => (g.runProcess refuse p).1
  | .finish key => g.finish key

end Gateway

open Gateway (Process Refusal Event)

/-! ## One request -/

/-- What becomes of a request: the gateway answers it, or does not get it,
or fails after it has handled it; and the client may be cancelled. -/
inductive Delivery where
  | answered
  | lost (e : Transient)
  | unanswered (e : Transient)
  | cancelled (handled : Bool)
  deriving DecidableEq, Repr

/-- The gateway has handled the request. -/
def Delivery.handled : Delivery → Bool
  | .answered | .unanswered _ => true
  | .lost _ => false
  | .cancelled handled => handled

/-- What happens until the client has the outcome of a request. -/
structure Round (ν : Type) where
  before : List (Event ν)
  delivery : Delivery

/-- What the client sees of the answer. -/
def Delivery.outcome {β : Type} : Delivery → Except ZeebeError β → Except Raised β
  | .answered, .ok b => .ok b
  | .answered, .error e => .error (.zeebe e)
  | .lost e, _ | .unanswered e, _ => .error (.zeebe (.transient e))
  | .cancelled _, _ => .error .cancelled

/-- The gateway when it gets the request, or when the client gives up. -/
def Round.arrive (refuse : Process ν → Option Refusal) (round : Round ν) (g : Gateway ν) :
    Gateway ν :=
  round.before.foldl (fun g e => g.happen refuse e) g

/-- One request. -/
def Round.exchange {β : Type} (refuse : Process ν → Option Refusal) (round : Round ν)
    (request : Gateway ν → Gateway ν × Except ZeebeError β) (g : Gateway ν) :
    Gateway ν × Except Raised β :=
  let g := round.arrive refuse g
  (if round.delivery.handled then (request g).1 else g, round.delivery.outcome (request g).2)

/-! ## The client -/

/-- JSON values. -/
structure Json (ν : Type) where
  none : ν
  str : String → ν

/-- A client and the deployment of its gateway. -/
structure Client (ν : Type) where
  json : Json ν
  refuse : Process ν → Option Refusal
  /-- `self._task_type` -/
  taskType : String

namespace Client

variable (client : Client ν)

/-- `wait = min(60, wait + 1)`, `await asyncio.sleep(wait)`: the loop around
a request, where `handle` says what a reply or an error comes to. -/
def retry {β γ : Type} (request : Gateway ν → Gateway ν × Except ZeebeError β)
    (handle : Except Raised β → Attempt Raised γ) : Loop (Gateway ν) (Round ν) Raised γ where
  attempt round g :=
    let (g, answer) := round.exchange client.refuse request g
    (g, handle answer)
  next := backoff 60
  sleep wait g := { g with clock := g.clock + 1000 * wait }

/-- The variables of a new process. -/
def processVariables (vars : Dict String ν) : Dict String ν :=
  let vars := vars.set "task_type" (client.json.str client.taskType)
  if (vars.get? "agent_instance_variables").isNone then
    vars.set "agent_instance_variables" client.json.none
  else vars

/-- The process that `start_process` asks for. -/
def process (processId : String) (vars : Dict String ν) (version : Int) : Process ν :=
  ⟨processId, client.processVariables vars, version⟩

/-- The `except` clauses of `start_process`. -/
def startProcessEnd : Except Raised Nat → Attempt Raised Nat
  | .ok instanceKey => .done (.ok instanceKey)
  | .error (.zeebe .processDefinitionNotFound) => .done (.ok 0)
  | .error (.zeebe .invalidJSON) => .done (.ok 0)
  | .error (.zeebe .processDefinitionHasNoStartEvent) => .done (.ok 0)
  | .error (.zeebe (.transient _)) => .again
  | .error e => .done (.error e)

/-- `start_process` -/
def startProcess (processId : String) (vars : Dict String ν) (version : Int) :
    Loop (Gateway ν) (Round ν) Raised Nat :=
  client.retry (fun g => g.runProcess client.refuse (client.process processId vars version))
    startProcessEnd

/-- The `except` clauses of `cancel_process`. -/
def cancelProcessEnd : Except Raised Unit → Attempt Raised Unit
  | .ok () => .done (.ok ())
  | .error (.zeebe .processInstanceNotFound) => .done (.ok ())
  | .error (.zeebe (.transient _)) => .again
  | .error e => .done (.error e)

/-- `cancel_process` -/
def cancelProcess (instanceKey : Nat) : Loop (Gateway ν) (Round ν) Raised Unit :=
  client.retry (fun g => g.cancelProcessInstance instanceKey) cancelProcessEnd

/-- The message that `send_message` publishes. -/
def message (name : String) (vars : Dict String ν) (messageId : Option String) (ttl : Nat)
    (correlationKey : Option String) : Message ν where
  name := name
  correlationKey := match correlationKey with
    | none | some "" => client.taskType
    | some key => key
  vars := vars
  ttl := ttl
  id := messageId

/-- The `except` clauses of `send_message`. -/
def sendMessageEnd : Except Raised Unit → Attempt Raised Bool
  | .ok () => .done (.ok true)
  | .error (.zeebe .messageAlreadyExists) => .done (.ok false)
  | .error (.zeebe (.transient _)) => .again
  | .error e => .done (.error e)

/-- `send_message` -/
def sendMessage (name : String) (vars : Dict String ν) (messageId : Option String)
    (ttl : Nat) (correlationKey : Option String) : Loop (Gateway ν) (Round ν) Raised Bool :=
  client.retry (fun g => g.publish (client.message name vars messageId ttl correlationKey))
    sendMessageEnd

end Client

end Iams.Aio.ZeebeClient
