/-
Iams.Servicer.Framework — `FrameworkServicer` in `iams/servicer.py`: the
RPCs that change an agent.

The runtime is any implementation of `RuntimeInterface`. A method of it
returns or raises; `update_agent` may write to the request it is given.
`destroy`, `sleep` and `wake` are the same method with three operations of
the runtime, `onAgent`.

`get_agent_name` takes the identities first and the context second. Every
caller passes the context first and what `credentials` returned second,
and so do the definitions here.

No `sorry`, no `axiom`, no `native_decide`.
-/
import Iams.Servicer.Credentials

namespace Iams.Servicer

/-- What the servicer uses of `RuntimeInterface`. `updateAgent` takes the
request and the argument `update`, and returns the request as it leaves it
as well. -/
structure Runtime where
  getValidAgentName : Option String → Except Raised String
  updateAgent : AgentData → Bool → AgentData × Except Raised (Option Bool)
  deleteAgent : String → Except Raised Bool
  sleepAgent : String → Except Raised Bool
  wakeAgent : String → Except Raised Bool

/-- What an RPC returns. -/
inductive Response where
  | agentData (data : AgentData)
  | empty
  deriving DecidableEq

/-- `request.name = value`: protobuf takes strings only. -/
def Value.asName : Value → Call String
  | .str s => pure s
  | _ => throw .typeError

namespace FrameworkServicer

variable (runtime : Runtime)

/-- `get_agent_name(identities, context, name)` -/
def getAgentName (identities context : Value) (name : Option String) : Call Value := do
  if identities.isNone && name.isNone then
    context.abort .invalidArgument "Need to give agent name in request"
  if name.isNone && identities.truthy then
    return identities
  match runtime.getValidAgentName name with
  | .ok valid => return .str valid
  | .error .invalidAgentName =>
    context.abort .invalidArgument
      ("Given an invalid agent name (" ++ name.getD "None" ++ ") in request")
  | .error e => throw e

/-- `self.get_agent_name(context, identities, request.name)` with
`identities = credentials(context)`, assigned to `request.name`. -/
def assignName (request : AgentData) (context : Context) : Call AgentData := do
  let identities := credentials (.context context) false
  let name ← getAgentName runtime (.context context) identities (some request.name)
  return { request with name := ← name.asName }

/-- The `try` statement of `update`, and the answer. -/
def applyUpdate (request : AgentData) (context : Context) : Call Response := do
  perform (.updateAgent request false)
  let (request, created) := runtime.updateAgent request false
  match created with
  | .ok _ => return .agentData { name := request.name }
  | .error (.imageNotFound _) =>
    context.abort .invalidArgument
      ("Could not find image " ++ request.image ++ ":" ++ request.version)
  | .error (.notFound text) => context.abort .notFound text
  | .error e => throw e

/-- `update` -/
def update (request : AgentData) (context : Context) : Call Response := do
  let request ← assignName runtime request context
  applyUpdate runtime request context

/-- `upgrade` -/
def upgrade (request : AgentData) (context : Context) : Call Response := do
  let _identities := credentials (.context context) false
  perform (.updateAgent { name := request.name } true)
  let (_, created) := runtime.updateAgent { name := request.name } true
  let _ ← liftExcept created
  return .empty

/-- The method that `destroy`, `sleep` and `wake` share: one operation of
the runtime on the valid name. -/
def onAgent (effect : String → Effect) (operation : String → Except Raised Bool)
    (request : AgentData) (context : Context) : Call Response := do
  let request ← tryCatch (assignName runtime request context) fun e =>
    match e.notFound? with
    | some text => context.abort .notFound text
    | none => throw e
  perform (effect request.name)
  let _ ← liftExcept (operation request.name)
  return .empty

/-- `destroy` -/
def destroy : AgentData → Context → Call Response :=
  onAgent runtime .deleteAgent runtime.deleteAgent

/-- `sleep` -/
def sleep : AgentData → Context → Call Response :=
  onAgent runtime .sleepAgent runtime.sleepAgent

/-- `wake` -/
def wake : AgentData → Context → Call Response :=
  onAgent runtime .wakeAgent runtime.wakeAgent

end FrameworkServicer

/-- The RPCs that change an agent. -/
inductive Rpc where
  | update
  | upgrade
  | destroy
  | sleep
  | wake
  deriving DecidableEq, Repr

/-- The handler of an RPC. -/
def Rpc.handler (rpc : Rpc) (runtime : Runtime) : AgentData → Context → Call Response :=
  match rpc with
  | .update => FrameworkServicer.update runtime
  | .upgrade => FrameworkServicer.upgrade runtime
  | .destroy => FrameworkServicer.destroy runtime
  | .sleep => FrameworkServicer.sleep runtime
  | .wake => FrameworkServicer.wake runtime

end Iams.Servicer
