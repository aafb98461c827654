/-
Iams.Runtime.Update — `update_agent` of `DockerSwarmRuntime`.

`inherit` is the comparison each field of the request goes through: a
field that is `None` takes the current value, and one that differs from it
asks for an update. `current` is the body of the `try` statement, `submit`
what comes after it: `resources` is what the plugins and the request add,
and `deploy` goes from the image to `create_service` or `update_service`.

No `sorry`, no `axiom`, no `native_decide`.
-/
import Iams.Runtime.Swarm

namespace Iams.Runtime

open Iams.Lib
open Iams.Servicer (AgentData Bytes encode)

/-! ## The request and the service that is there -/

/-- `if request.x is None: request.x = x`, `elif request.x != x: update =
True`: the field as it is left, and `update`. -/
def inherit (field current : PyValue) (update : Bool) : PyValue × Bool :=
  if field = .none then (current, update)
  else if field ≠ current then (field, true)
  else (field, update)

/-- The same for the config, where `'-'` asks for none. -/
def inheritConfig (field current : PyValue) (update : Bool) : PyValue × Bool :=
  if field = .none then (current, update)
  else if field ≠ current then (if field = .str "-" then .none else field, true)
  else (field, update)

/-- What the `try` statement of `update_agent` assigns. -/
structure Found where
  service : Service
  scale : Nat
  request : AgentData
  update : Bool

/-- What the plugins contribute, and what is added to it. -/
structure Resources where
  labels : Dict String String
  env : Dict String EnvValue
  networks : List String
  secrets : Dict String String
  generated : List Generated

def Resources.empty : Resources := ⟨.empty, .empty, [], .empty, []⟩

/-- `networks.add(network)` -/
def addNetwork (networks : List String) (network : String) : List String :=
  if network ∈ networks then networks else networks ++ [network]

/-- One plugin of the loop in `update_agent`. -/
def Resources.apply (request : AgentData) (imageLabels : Dict String String) (res : Resources)
    (plugin : Plugin) : Except Error Resources :=
  match plugin.label.bind imageLabels.get? with
  | none => .ok res
  | some arg => do
    let applied ← plugin.call request.name request.image request.version arg
    return {
      labels := res.labels.update applied.labels
      env := res.env.update (applied.env.map fun item => (item.1, .str item.2))
      networks := applied.networks.foldl addNetwork res.networks
      secrets := res.secrets.update applied.secrets
      generated := res.generated ++ applied.generated }

namespace DockerSwarmRuntime

variable (rt : DockerSwarmRuntime)

/-- The body of the `try` statement in `update_agent`. -/
def current (request : AgentData) (update : Bool) : Proc Found := do
  let service ← rt.getService request.name
  let replicas ← liftExcept service.spec.getReplicas
  let scale := if replicas ≠ 0 then replicas else request.autostart.toNat
  let (image, version) ← liftExcept (unpackPair (getImageVersion service))
  let env ← liftExcept service.spec.getEnv
  let address := readEnv .address env
  let port := readEnv .port env
  let config ← rt.getAgentConfig (.service service)
  let (image, update) := inherit (.str request.image) (.str image) update
  let (version, update) := inherit (.str request.version) (.str version) update
  let (address, update) := inherit (.str request.address) (.ofStr? address) update
  let (port, update) := inherit (.int request.port.toNat) (.ofStr? port) update
  let (config, update) := inheritConfig (.bytes request.config) (.ofBytes? config) update
  let image ← liftExcept image.asString
  let version ← liftExcept version.asString
  let address ← liftExcept address.asString
  let port ← liftExcept port.asUInt32
  let config ← liftExcept config.asBytes
  let request := { request with
    image := image, version := version, address := address, port := port, config := config }
  return ⟨service, scale, request, update⟩

/-- The environment of the container. -/
def environment (request : AgentData) (env : Dict String EnvValue) : Dict String EnvValue :=
  let env := if request.address ≠ "" then env.set "IAMS_ADDRESS" (.str request.address) else env
  let env := if request.port ≠ 0 then env.set "IAMS_PORT" (.int request.port.toNat) else env
  let servername := match rt.servername with
    | some name => .str name
    | none => .none
  (env.set "IAMS_AGENT" (.str request.name)).set "IAMS_SERVICE" servername

/-- The labels of the service. -/
def serviceLabels (request : AgentData) (labels : Dict String String) : Dict String String :=
  labels.update (rt.agentLabels request.name ++ [("iams.image", request.image)])

/-- The certificate of the agent and its key, as secrets. -/
def certificateSecrets (request : AgentData) : Except Error (List Generated) := do
  match ← rt.ca.getAgentCertificate request.name with
  | none => return []
  | some (certificate, privateKey) =>
    let date ← rt.ca.expire certificate
    let expire := Dict.empty.set "iams.certificate.expire" date
    return [⟨"peer.crt", "peer.crt", certificate, expire⟩,
      ⟨"peer.key", "peer.key", privateKey, expire⟩]

/-- The plugins, and what does not depend on docker. -/
def resources (request : AgentData) (imageLabels : Dict String String) :
    Except Error Resources := do
  let res ← rt.plugins.foldlM (Resources.apply request imageLabels) .empty
  let secrets ← rt.ca.getCaSecret res.secrets rt.stackNamespace
  let certificate ← rt.certificateSecrets request
  return {
    labels := rt.serviceLabels request res.labels
    env := rt.environment request res.env
    networks := match rt.network with
      | some network => addNetwork res.networks network
      | none => res.networks
    secrets := secrets
    generated := res.generated ++ certificate }

/-- Set the generated secrets: their references, and the secrets they
replace. -/
def setSecrets (name : String) : List Generated → Proc (List Reference × List Blob)
  | [] => return ([], [])
  | secret :: rest => do
    let (blob, old) ← rt.setSecret name secret
    let (references, olds) ← setSecrets name rest
    return (⟨blob.id, blob.name, secret.filename⟩ :: references, old ++ olds)

/-- The references to the preconfigured secrets. -/
def getSecrets : List (String × String) → Proc (List Reference)
  | [] => return []
  | (key, filename) :: rest => do
    let blob ← rt.docker.getSecret key
    return ⟨blob.id, blob.name, filename⟩ :: (← getSecrets rest)

/-- The config of the request: its reference, and the configs it
replaces. -/
def deployConfig (request : AgentData) : Proc (List Reference × List Blob) := do
  if request.config ≠ [] then
    match ← rt.setConfig request.name request.config with
    | (some config, old) => return ([⟨config.id, config.name, "/config"⟩], old)
    | (none, _) => throw (.other "'NoneType' object has no attribute 'id'")
  else return ([], [])

/-- `update_agent` from the image on. `service` is the one to update; there
is none when the agent is created. -/
def deploy (request : AgentData) (service : Option Service) (scale : Nat) (skipLabelTest : Bool) :
    Proc (AgentData × Option Bool) := do
  let image := request.image ++ ":" ++ request.version
  let imageLabels ← rt.docker.getImage image
  if !skipLabelTest && (imageLabels.get? "iams.services.agent").isNone then
    throw (.imageNotFound ("Image " ++ image ++ " is missing the iams.service.agent label."))
  let res ← liftExcept (rt.resources request imageLabels)
  let (generated, oldSecrets) ← rt.setSecrets request.name res.generated
  let configured ← rt.getSecrets res.secrets.items
  let (configs, oldConfigs) ← rt.deployConfig request
  let request := if request.preferences = [] then
      { request with preferences := ["node.labels.worker"] } else request
  let spec : ServiceSpec := {
    name := request.name
    labels := res.labels
    replicas := some scale
    image := image
    env := some (res.env.items.map fun item => formatEnvironment item.1 item.2)
    configs := configs
    secrets := generated ++ configured
    networks := res.networks
    constraints := request.constraints
    preferences := request.preferences }
  match service with
  | none =>
    rt.docker.createService spec
    return (request, some true)
  | some service =>
    rt.docker.updateService service.id spec
    oldSecrets.forM fun secret => rt.docker.removeSecret secret.id
    oldConfigs.forM fun config => rt.docker.removeConfig config.id
    return (request, some false)

/-- `update_agent` after the `try` statement. -/
def submit (request : AgentData) (service : Option Service) (scale : Nat)
    (create update skipLabelTest : Bool) : Proc (AgentData × Option Bool) :=
  if create && update then
    throw (.valueError "service already exists")
  else if request.image = "" || request.version = "" then
    throw (.valueError "image and version must be set")
  else if !update && !create then
    pure (request, none)
  else
    rt.deploy request (if create then none else service) scale skipLabelTest

/-- `update_agent`: the request as it is left, and the return value. -/
def updateAgent (request : AgentData) (create update skipLabelTest : Bool) :
    Proc (AgentData × Option Bool) := do
  let found ← tryCatch (some <$> rt.current request update) fun e =>
    if e.isNotFound then pure none else throw e
  match found with
  | some found =>
    rt.submit found.request (some found.service) found.scale create found.update skipLabelTest
  | none => rt.submit request none request.autostart.toNat true update skipLabelTest

end DockerSwarmRuntime

end Iams.Runtime
