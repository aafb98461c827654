/-
Iams.Runtime.Docker — the docker swarm that `iams/runtime.py` works on.

`Cluster` holds the services, secrets and configs of the swarm, and the
requests that docker has been sent. `Docker` is what the swarm itself
decides: the order in which it lists objects, which images there are, the
digest it adds to an image, and which requests fail. Each method of the
client is a `Proc`, a program that changes the cluster and may raise.

`services.list` and `configs.list` with a name return the objects whose
name starts with it.

No `sorry`, no `axiom`, no `native_decide`.
-/
import Iams.Lib.Dict
import Iams.Lib.Procedure
import Iams.Servicer.Credentials

namespace Iams.Runtime

open Iams.Lib
open Iams.Servicer (AgentData Bytes encode)

/-- Exceptions. `docker.errors.ImageNotFound` is a
`docker.errors.NotFound`. -/
inductive Error where
  | notFound (text : String)
  | imageNotFound (text : String)
  | valueError (text : String)
  | keyError (key : String)
  | typeError (text : String)
  | other (text : String)
  deriving DecidableEq, Repr

/-- `except docker.errors.NotFound` -/
def Error.isNotFound : Error → Bool
  | .notFound _ | .imageNotFound _ => true
  | _ => false

/-! ## The cluster -/

/-- `docker.types.SecretReference` and `docker.types.ConfigReference` -/
structure Reference where
  id : Nat
  name : String
  filename : String
  deriving DecidableEq, Repr

/-- What a service is to run. `replicas` is absent for a service that is
not replicated and `env` for one without environment variables. -/
structure ServiceSpec where
  name : String
  labels : Dict String String
  replicas : Option Nat
  image : String
  env : Option (List String)
  configs : List Reference
  secrets : List Reference
  networks : List String
  constraints : List String
  preferences : List String

structure Service where
  id : Nat
  spec : ServiceSpec

/-- A secret or a config. -/
structure Blob where
  id : Nat
  name : String
  labels : Dict String String
  data : Bytes

/-- A request to docker. -/
inductive Request where
  | listServices (name : String)
  | listSecrets
  | listConfigs
  | getImage (name : String)
  | getSecret (key : String)
  | reload (id : Nat)
  | createService (spec : ServiceSpec)
  | updateService (id : Nat) (spec : ServiceSpec)
  | removeService (id : Nat)
  | createSecret (name : String)
  | createConfig (name : String)
  | removeSecret (id : Nat)
  | removeConfig (id : Nat)

structure Cluster where
  services : List Service := []
  secrets : List Blob := []
  configs : List Blob := []
  nextId : Nat := 0
  requests : List Request := []

/-- A label filter: all of the labels, with these values. -/
def labelled (filters : List (String × String)) (labels : Dict String String) : Bool :=
  filters.all fun f => labels.get? f.1 = some f.2

/-- A name filter. -/
def named (filter name : String) : Bool := filter.toList.isPrefixOf name.toList

/-- Code that talks to docker. -/
abbrev Proc := Procedure Cluster Error

/-! ## The client -/

/-- What docker decides. `fault` is the error of the request with this
number, if it fails. -/
structure Docker where
  list {α : Type} : List α → (α → Bool) → List α
  list_perm {α : Type} (objects : List α) (p : α → Bool) :
    (list objects p).Perm (objects.filter p)
  image : String → Except Error (Dict String String)
  digest : String → Option String
  fault : Nat → Option Error

namespace Docker

variable (docker : Docker)

def request (r : Request) : Proc Unit := do
  let cluster ← get
  modify fun c => { c with requests := c.requests ++ [r] }
  match docker.fault cluster.requests.length with
  | some e => throw e
  | none => pure ()

/-- `services.list` -/
def listServices (name : String) (filters : List (String × String)) : Proc (List Service) := do
  docker.request (.listServices name)
  let cluster ← get
  return docker.list cluster.services fun s =>
    named name s.spec.name && labelled filters s.spec.labels

/-- `secrets.list` -/
def listSecrets (filters : List (String × String)) : Proc (List Blob) := do
  docker.request .listSecrets
  let cluster ← get
  return docker.list cluster.secrets fun s => labelled filters s.labels

/-- `configs.list`; without a name filter the name is empty. -/
def listConfigs (name : String) (filters : List (String × String)) : Proc (List Blob) := do
  docker.request .listConfigs
  let cluster ← get
  return docker.list cluster.configs fun c => named name c.name && labelled filters c.labels

/-- `images.get(name).labels` -/
def getImage (name : String) : Proc (Dict String String) := do
  docker.request (.getImage name)
  liftExcept (docker.image name)

/-- `secrets.get(key)` -/
def getSecret (key : String) : Proc Blob := do
  docker.request (.getSecret key)
  let cluster ← get
  match cluster.secrets.find? fun s => s.name = key with
  | some secret => return secret
  | none => throw (.notFound ("secret " ++ key ++ " not found"))

/-- The image as docker stores it. -/
def pin (image : String) : String :=
  match docker.digest image with
  | some digest => image ++ "@" ++ digest
  | none => image

/-- `create_service` -/
def createService (spec : ServiceSpec) : Proc Unit := do
  docker.request (.createService spec)
  modify fun c => { c with
    services := c.services ++ [⟨c.nextId, { spec with image := docker.pin spec.image }⟩]
    nextId := c.nextId + 1 }

/-- `update_service` -/
def updateService (id : Nat) (spec : ServiceSpec) : Proc Unit := do
  docker.request (.updateService id spec)
  modify fun c => { c with
    services := c.services.map fun s =>
      if s.id = id then ⟨id, { spec with image := docker.pin spec.image }⟩ else s }

/-- `service.scale(replicas)` -/
def scale (service : Service) (replicas : Nat) : Proc Unit :=
  docker.updateService service.id { service.spec with replicas := some replicas }

/-- `service.remove()` -/
def removeService (id : Nat) : Proc Unit := do
  docker.request (.removeService id)
  modify fun c => { c with services := c.services.filter fun s => s.id ≠ id }

/-- `secrets.create`, and `secret.reload()` -/
def createSecret (name : String) (data : Bytes) (labels : Dict String String) : Proc Blob := do
  docker.request (.createSecret name)
  let cluster ← get
  let secret : Blob := ⟨cluster.nextId, name, labels, data⟩
  modify fun c => { c with secrets := c.secrets ++ [secret], nextId := c.nextId + 1 }
  docker.request (.reload secret.id)
  return secret

/-- `configs.create`, and `config.reload()` -/
def createConfig (name : String) (data : Bytes) (labels : Dict String String) : Proc Blob := do
  docker.request (.createConfig name)
  let cluster ← get
  let config : Blob := ⟨cluster.nextId, name, labels, data⟩
  modify fun c => { c with configs := c.configs ++ [config], nextId := c.nextId + 1 }
  docker.request (.reload config.id)
  return config

/-- `secret.remove()` -/
def removeSecret (id : Nat) : Proc Unit := do
  docker.request (.removeSecret id)
  modify fun c => { c with secrets := c.secrets.filter fun s => s.id ≠ id }

/-- `config.remove()` -/
def removeConfig (id : Nat) : Proc Unit := do
  docker.request (.removeConfig id)
  modify fun c => { c with configs := c.configs.filter fun s => s.id ≠ id }

end Docker

end Iams.Runtime
