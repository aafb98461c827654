/-
Iams.Runtime.Swarm — `DockerSwarmRuntime` in `iams/runtime.py`.

The plugins, the certificate authority and the hash are what the runtime
is given. `update_agent` first looks at the service that is there
(`current`), which ends in a `docker.errors.NotFound` where there is none,
and then puts a service together from the request, the plugins, the
secrets and the config (`deploy`).

Values of a request and values read from docker have different Python
types. `PyValue` keeps them apart: `8080` and `'8080'` are not equal, and
neither are `''` and `None`.

No `sorry`, no `axiom`, no `native_decide`.
-/
import Iams.Runtime.Docker

namespace Iams.Runtime

open Iams.Lib
open Iams.Servicer (AgentData Bytes encode)

/-! ## Values -/

inductive PyValue where
  | none
  | str (s : String)
  | int (n : Nat)
  | bytes (b : Bytes)
  deriving DecidableEq, Repr

namespace PyValue

def ofStr? : Option String → PyValue
  | .some s => .str s
  | .none => .none

def ofBytes? : Option Bytes → PyValue
  | .some b => .bytes b
  | .none => .none

/-- The value as a string field of a message. -/
def asString : PyValue → Except Error String
  | .str s => .ok s
  | _ => .error (.typeError "bad argument type for built-in operation")

/-- The value as a `uint32` field of a message. -/
def asUInt32 : PyValue → Except Error UInt32
  | .int n =>
    if n < UInt32.size then .ok (.ofNat n) else .error (.valueError "Value out of range")
  | _ => .error (.typeError "bad argument type for built-in operation")

/-- The value as a `bytes` field of a message. -/
def asBytes : PyValue → Except Error Bytes
  | .bytes b => .ok b
  | _ => .error (.typeError "bad argument type for built-in operation")

end PyValue

/-- A value in the environment of a container. -/
inductive EnvValue where
  | none
  | str (s : String)
  | int (n : Nat)
  deriving DecidableEq, Repr

/-- How `docker.types.ContainerSpec` writes an item of the environment. -/
def formatEnvironment (key : String) : EnvValue → String
  | .none => key
  | .str s => key ++ "=" ++ s
  | .int n => key ++ "=" ++ toString n

/-! ## What a service tells -/

/-- The variables `RE_ENV` matches. -/
inductive EnvName where
  | address
  | port
  deriving DecidableEq, Repr

def EnvName.key : EnvName → String
  | .address => "IAMS_ADDRESS"
  | .port => "IAMS_PORT"

/-- `(.*)$`: the rest of the line, where one newline may follow. -/
def matchLine (s : List Char) : Option (List Char) :=
  if '\n' ∉ s then some s
  else if s.getLast? = some '\n' ∧ '\n' ∉ s.dropLast then some s.dropLast
  else none

/-- The value in an item of the environment, if `RE_ENV` matches it with
this name. -/
def matchEnv (name : EnvName) (item : String) : Option String :=
  let before := (name.key ++ "=").toList
  if before.isPrefixOf item.toList then
    (matchLine (item.toList.drop before.length)).map String.ofList
  else none

/-- The value of a variable; a later item overrides an earlier one. -/
def readEnv (name : EnvName) (env : List String) : Option String :=
  (env.filterMap (matchEnv name)).getLast?

/-- `s.rsplit(c, 1)` -/
def rsplitOnce (c : Char) (s : List Char) : List (List Char) :=
  if c ∈ s then
    let after := (s.reverse.takeWhile (· ≠ c)).reverse
    [s.take (s.length - after.length - 1), after]
  else [s]

/-- `get_image_version` -/
def getImageVersion (service : Service) : List String :=
  (rsplitOnce ':' (service.spec.image.toList.takeWhile (· ≠ '@'))).map String.ofList

/-- `image, version = …` -/
def unpackPair : List String → Except Error (String × String)
  | [a, b] => .ok (a, b)
  | _ => .error (.valueError "not enough values to unpack (expected 2, got 1)")

/-- `attrs['Spec']['Mode']['Replicated']['Replicas']` -/
def ServiceSpec.getReplicas (spec : ServiceSpec) : Except Error Nat :=
  match spec.replicas with
  | some n => .ok n
  | none => .error (.keyError "Replicated")

/-- `attrs['Spec']['TaskTemplate']['ContainerSpec']['Env']` -/
def ServiceSpec.getEnv (spec : ServiceSpec) : Except Error (List String) :=
  match spec.env with
  | some env => .ok env
  | none => .error (.keyError "Env")

/-! ## What the runtime is given -/

/-- A secret that a plugin or the authority generates. -/
structure Generated where
  name : String
  filename : String
  data : Bytes
  labels : Dict String String

/-- What a plugin adds to an agent. -/
structure Applied where
  env : List (String × String)
  labels : List (String × String)
  networks : List String
  secrets : List (String × String)
  generated : List Generated

/-- `iams.interfaces.plugin.Plugin`: called with the name, the image, the
version and the argument in the image's label. -/
structure Plugin where
  label : Option String
  call : String → String → String → String → Except Error Applied
  removeFault : Nat → Option Error

/-- `iams.interfaces.ca.CertificateAuthorityInterface`. A certificate
comes with its private key; `expire` reads its date. -/
structure CertificateAuthority where
  getCaSecret : Dict String String → String → Except Error (Dict String String)
  getAgentCertificate : String → Except Error (Option (Bytes × Bytes))
  expire : Bytes → Except Error String

structure DockerSwarmRuntime where
  ca : CertificateAuthority
  iamsNamespace : String
  /-- `self.namespace` -/
  stackNamespace : String
  servername : Option String
  plugins : List Plugin
  docker : Docker
  /-- `os.environ.get("IAMS_NETWORK")` -/
  network : Option String
  /-- The first eight digits of `hashlib.md5(data).hexdigest()`. -/
  md5 : Bytes → String

/-- A service, or the name of one. -/
inductive Target where
  | service (service : Service)
  | name (name : String)

namespace DockerSwarmRuntime

variable (rt : DockerSwarmRuntime)

def label : String := "com.docker.stack.namespace"

/-- The labels of everything this runtime owns. -/
def ownLabels : List (String × String) :=
  [(label, rt.stackNamespace), ("iams.namespace", rt.iamsNamespace)]

/-- The labels of what it owns for one agent. -/
def agentLabels (name : String) : List (String × String) :=
  rt.ownLabels ++ [("iams.agent", name)]

/-! ## Finding an agent -/

/-- `get_service` -/
def getService (name : String) : Proc Service := do
  match ← rt.docker.listServices name rt.ownLabels with
  | [service] => return service
  | _ => throw (.notFound ("Could not find service " ++ name))

/-- `get_service_and_name` -/
def getServiceAndName : Target → Proc (Service × String)
  | .service service => return (service, service.spec.name)
  | .name name => return (← rt.getService name, name)

/-- `get_agent_plugins`: the plugins of the image, with their arguments. -/
def getAgentPlugins (target : Target) : Proc (List (Plugin × Option String)) := do
  let (service, _) ← rt.getServiceAndName target
  let (image, version) ← liftExcept (unpackPair (getImageVersion service))
  let labels ← rt.docker.getImage (image ++ ":" ++ version)
  return rt.plugins.filterMap fun plugin =>
    match plugin.label with
    | none => some (plugin, none)
    | some label => (labels.get? label).map fun arg => (plugin, some arg)

/-- `get_agent_config` -/
def getAgentConfig (target : Target) : Proc (Option Bytes) := do
  let (_, name) ← rt.getServiceAndName target
  match ← rt.docker.listConfigs name (rt.agentLabels name) with
  | [config] => return some config.data
  | _ => return none

/-! ## Waking an agent -/

/-- `service, name = self.get_service(name)`: a service is not a pair. -/
def unpackService (_service : Service) : Except Error (Service × String) :=
  .error (.typeError "cannot unpack non-iterable Service object")

/-- The method that `wake_agent` and `sleep_agent` share. -/
def scaleAgent (replicas : Nat) (name : String) : Proc Unit := do
  let (service, _) ← liftExcept (unpackService (← rt.getService name))
  let current ← liftExcept service.spec.getReplicas
  if current ≠ replicas then
    rt.docker.scale service replicas

/-- `wake_agent` -/
def wakeAgent : String → Proc Unit := rt.scaleAgent 1

/-- `sleep_agent` -/
def sleepAgent : String → Proc Unit := rt.scaleAgent 0

/-! ## Deleting an agent -/

/-- `plugin.remove(name, args)`; the number of requests so far stands for
the time at which it is called. -/
def removePlugin (plugin : Plugin) : Proc Unit := do
  let cluster ← get
  match plugin.removeFault cluster.requests.length with
  | some e => throw e
  | none => pure ()

/-- `delete_agent_plugins` -/
def deleteAgentPlugins (target : Target) : Proc Unit := do
  let plugins ← rt.getAgentPlugins target
  plugins.forM fun p => removePlugin p.1

/-- `delete_agent_secrets` -/
def deleteAgentSecrets (name : String) : Proc Unit := do
  let secrets ← rt.docker.listSecrets (rt.agentLabels name)
  secrets.forM fun secret => rt.docker.removeSecret secret.id

/-- `delete_agent_configs` -/
def deleteAgentConfigs (name : String) : Proc Unit := do
  let configs ← rt.docker.listConfigs "" (rt.agentLabels name)
  configs.forM fun config => rt.docker.removeConfig config.id

/-- `delete_agent` -/
def deleteAgent (target : Target) : Proc Bool := do
  let found ← tryCatch (some <$> rt.getServiceAndName target) fun e =>
    if e.isNotFound then pure none else throw e
  match found with
  | none => return true
  | some (service, name) =>
    rt.docker.removeService service.id
    rt.deleteAgentPlugins (.service service)
    rt.deleteAgentSecrets name
    rt.deleteAgentConfigs name
    return true

/-! ## Secrets and configs -/

/-- `set_secret`: the secret with this content, and the others of this
name. -/
def setSecret (service : String) (secret : Generated) : Proc (Blob × List Blob) := do
  let md5 := rt.md5 (encode service ++ secret.data)
  let secretName := service ++ "_" ++ secret.name ++ "_" ++ md5
  let labels := rt.agentLabels service ++ [("iams.secret", secret.name)]
  let secrets ← rt.docker.listSecrets labels
  let old := secrets.filter fun s => s.name ≠ secretName
  match (secrets.filter fun s => s.name = secretName).getLast? with
  | some found => return (found, old)
  | none =>
    return (← rt.docker.createSecret secretName secret.data (secret.labels.update labels), old)

/-- `set_config`: the config with this content, and the others of the
agent. -/
def setConfig (service : String) (data : Bytes) : Proc (Option Blob × List Blob) := do
  let configName := if data ≠ [] then some (service ++ "_" ++ rt.md5 data) else none
  let configs ← rt.docker.listConfigs "" (rt.agentLabels service)
  let old := configs.filter fun c => some c.name ≠ configName
  match (configs.filter fun c => some c.name = configName).getLast?, configName with
  | none, some name =>
    return (← rt.docker.createConfig name data (Dict.empty.update (rt.agentLabels service)), old)
  | found, _ => return (found, old)

end DockerSwarmRuntime

end Iams.Runtime
