/-
Iams.Runtime.Submit — what `update_agent` submits, and when it does.

`Answers` is a docker, plugins and an authority that do not fail on a
request. Where they answer, and the request has an image and a version,
`deploy` returns; an update then replaces the service by one with the
environment of the plugins and the request, and with the config of the
request (`ends_deploy`).

§1 the cluster while secrets and configs are set, §2 `deploy`.

No `sorry`, no `axiom`, no `native_decide`.
-/
import Iams.Runtime.Frames

namespace Iams.Runtime

open Iams.Lib Iams.Lib.Procedure
open Iams.Servicer (AgentData Bytes)

/-! ## §1 Secrets and configs -/

/-- The services are these, and there are secrets with these names. -/
structure Steady (services : List Service) (keys : List String) (c : Cluster) : Prop where
  services_eq : c.services = services
  has : ∀ key ∈ keys, ∃ secret ∈ c.secrets, secret.name = key

section Docker

variable {docker : Docker} (hfault : ∀ n, docker.fault n = none)
variable {services : List Service} {keys : List String}

include hfault

theorem exec_request_of_noFault (r : Request) (c : Cluster) :
    exec (docker.request r) c = (.ok (), { c with requests := c.requests ++ [r] }) := by
  rw [Docker.exec_request, hfault]

theorem ends_request (r : Request) :
    Ends (Steady services keys) (docker.request r) fun _ => Steady services keys :=
  fun c h => ⟨(), _, exec_request_of_noFault hfault r c, h.services_eq, h.has⟩

theorem ends_listSecrets (filters : List (String × String)) :
    Ends (Steady services keys) (docker.listSecrets filters) fun _ => Steady services keys :=
  .bind (ends_request hfault _) fun _ => .bind (.get (Q := fun _ => Steady services keys)
    fun _ h => h) fun _ => .pure fun _ h => h

theorem ends_listConfigs (name : String) (filters : List (String × String)) :
    Ends (Steady services keys) (docker.listConfigs name filters) fun _ => Steady services keys :=
  .bind (ends_request hfault _) fun _ => .bind (.get (Q := fun _ => Steady services keys)
    fun _ h => h) fun _ => .pure fun _ h => h

theorem ends_getImage {name : String} {labels : Dict String String}
    (himage : docker.image name = .ok labels) :
    Ends (Steady services keys) (docker.getImage name) fun found c =>
      found = labels ∧ Steady services keys c :=
  .bind (ends_request hfault _) fun _ => .liftExcept himage fun _ h => ⟨rfl, h⟩

theorem ends_getSecret {key : String} (hkey : key ∈ keys) :
    Ends (Steady services keys) (docker.getSecret key) fun _ => Steady services keys := by
  refine .bind (ends_request hfault _) fun _ c h => ?_
  have hfound : (c.secrets.find? fun s => decide (s.name = key)).isSome := by
    simpa using h.has key hkey
  obtain ⟨secret, hsecret⟩ := Option.isSome_iff_exists.mp hfound
  refine ⟨secret, c, ?_, h⟩
  rw [exec_bind_of_ok (exec_get c)]
  simp only [hsecret, exec_pure]

theorem ends_createSecret (name : String) (data : Bytes) (labels : Dict String String) :
    Ends (Steady services keys) (docker.createSecret name data labels) fun _ =>
      Steady services keys := by
  refine .bind (ends_request hfault _) fun _ => ?_
  refine .bind (.get (Q := fun _ => Steady services keys) fun _ h => h) fun cluster => ?_
  refine .bind (.modify (Q := fun _ => Steady services keys) fun c h => ⟨h.services_eq, ?_⟩)
    fun _ => .bind (ends_request hfault _) fun _ => .pure fun _ h => h
  intro key hkey
  obtain ⟨secret, hmem, hname⟩ := h.has key hkey
  exact ⟨secret, List.mem_append_left _ hmem, hname⟩

theorem ends_createConfig (name : String) (data : Bytes) (labels : Dict String String) :
    Ends (Steady services keys) (docker.createConfig name data labels) fun _ =>
      Steady services keys := by
  refine .bind (ends_request hfault _) fun _ => ?_
  refine .bind (.get (Q := fun _ => Steady services keys) fun _ h => h) fun cluster => ?_
  exact .bind (.modify (Q := fun _ => Steady services keys) fun c h => ⟨h.services_eq, h.has⟩)
    fun _ => .bind (ends_request hfault _) fun _ => .pure fun _ h => h

theorem ends_removeSecret (id : Nat) :
    Ends (Steady services []) (docker.removeSecret id) fun _ => Steady services [] :=
  .bind (ends_request hfault _) fun _ => .modify fun _ h => ⟨h.services_eq, nofun⟩

theorem ends_removeConfig (id : Nat) :
    Ends (Steady services []) (docker.removeConfig id) fun _ => Steady services [] :=
  .bind (ends_request hfault _) fun _ => .modify fun _ h => ⟨h.services_eq, nofun⟩

theorem ends_updateService (id : Nat) (spec : ServiceSpec) :
    Ends (Steady services keys) (docker.updateService id spec) fun _ =>
      Steady (services.map fun s =>
        if s.id = id then ⟨id, { spec with image := docker.pin spec.image }⟩ else s) [] :=
  .bind (ends_request hfault _) fun _ => .modify fun c h => ⟨by rw [h.services_eq], nofun⟩

end Docker

/-- The items of an environment. -/
def formatItems (env : Dict String EnvValue) : List String :=
  env.items.map fun item => formatEnvironment item.1 item.2

namespace DockerSwarmRuntime

variable {rt : DockerSwarmRuntime} (hfault : ∀ n, rt.docker.fault n = none)
variable {services : List Service} {keys : List String}

include hfault

theorem ends_setSecret (service : String) (secret : Generated) :
    Ends (Steady services keys) (rt.setSecret service secret) fun _ => Steady services keys := by
  refine .bind (ends_listSecrets hfault _) fun secrets => ?_
  dsimp only
  split
  · exact .pure fun _ h => h
  · exact .bind (ends_createSecret hfault _ _ _) fun _ => .pure fun _ h => h

theorem ends_setSecrets (name : String) (secrets : List Generated) :
    Ends (Steady services keys) (rt.setSecrets name secrets) fun _ => Steady services keys := by
  induction secrets with
  | nil => exact .pure fun _ h => h
  | cons secret rest ih =>
    exact .bind (ends_setSecret hfault name secret) fun _ => .bind ih fun _ => .pure fun _ h => h

theorem ends_getSecrets {secrets : List (String × String)}
    (hkeys : ∀ item ∈ secrets, item.1 ∈ keys) :
    Ends (Steady services keys) (rt.getSecrets secrets) fun _ => Steady services keys := by
  induction secrets with
  | nil => exact .pure fun _ h => h
  | cons item rest ih =>
    refine .bind (ends_getSecret hfault (hkeys item List.mem_cons_self)) fun _ => ?_
    exact .bind (ih fun i hi => hkeys i (List.mem_cons_of_mem _ hi)) fun _ => .pure fun _ h => h

/-- A config that has content is found or created. -/
theorem ends_setConfig (service : String) {data : Bytes} (hdata : data ≠ []) :
    Ends (Steady services keys) (rt.setConfig service data) fun found c =>
      found.1.isSome ∧ Steady services keys c := by
  refine .bind (ends_listConfigs hfault _ _) fun configs => ?_
  rw [if_pos hdata]
  dsimp only
  split
  · exact .bind (ends_createConfig hfault _ _ _) fun _ => .pure fun _ h => ⟨rfl, h⟩
  · next hmatch =>
    exact .pure fun _ h => ⟨Option.isSome_iff_ne_none.mpr fun hnone => hmatch _ hnone rfl, h⟩

theorem ends_deployConfig (request : AgentData) :
    Ends (Steady services keys) (rt.deployConfig request) fun configs c =>
      (configs.1 = [] ↔ request.config = []) ∧ Steady services keys c := by
  unfold deployConfig
  split
  · next hconfig =>
    refine .bind (ends_setConfig hfault request.name hconfig) fun found => ?_
    rcases found with ⟨_ | config, old⟩
    · rintro c ⟨hsome, -⟩
      cases hsome
    · exact .pure fun _ h => ⟨by simp [hconfig], h.2⟩
  · next hconfig =>
    exact .pure fun _ h => ⟨by simpa using hconfig, h⟩

/-! ## §2 The service -/

/-- Docker, the plugins and the authority have an answer for a request:
`plugged` is what the plugins contribute. -/
structure Answers (rt : DockerSwarmRuntime) (request : AgentData) (plugged : Resources)
    (c : Cluster) : Prop where
  /-- The image is there, with the label of an agent, and the plugins
  accept it. -/
  image : ∃ labels, rt.docker.image (request.image ++ ":" ++ request.version) = .ok labels ∧
    (labels.get? "iams.services.agent").isSome ∧
    rt.plugins.foldlM (Resources.apply request labels) .empty = .ok plugged
  /-- The authority names secrets that are there. -/
  secrets : ∃ secrets, rt.ca.getCaSecret plugged.secrets rt.stackNamespace = .ok secrets ∧
    ∀ item ∈ secrets.items, ∃ secret ∈ c.secrets, secret.name = item.1
  /-- It issues certificates. -/
  certificate : ∃ certificate, rt.certificateSecrets request = .ok certificate

/-- The service that is submitted for a request. -/
structure Submitted (rt : DockerSwarmRuntime) (request : AgentData) (plugged : Resources)
    (spec : ServiceSpec) : Prop where
  image_eq : spec.image = request.image ++ ":" ++ request.version
  env_eq : spec.env = some (formatItems (rt.environment request plugged.env))
  configs_eq_nil : spec.configs = [] ↔ request.config = []

omit hfault in
/-- Everything that is added to what the plugins contribute. -/
theorem resources_eq {request : AgentData} {labels : Dict String String} {plugged : Resources}
    {secrets : Dict String String} {certificate : List Generated}
    (hplugged : rt.plugins.foldlM (Resources.apply request labels) .empty = .ok plugged)
    (hsecrets : rt.ca.getCaSecret plugged.secrets rt.stackNamespace = .ok secrets)
    (hcertificate : rt.certificateSecrets request = .ok certificate) :
    ∃ res, rt.resources request labels = .ok res ∧ res.secrets = secrets ∧
      res.env = rt.environment request plugged.env := by
  unfold resources
  rw [hplugged]
  simp only [bind, Except.bind, hsecrets, hcertificate, pure, Except.pure]
  exact ⟨_, rfl, rfl, rfl⟩

theorem ends_deploy {request : AgentData} {plugged : Resources} {c : Cluster}
    (hanswers : rt.Answers request plugged c) (service : Service) (scale : Nat) :
    ∃ result c' spec, exec (rt.deploy request (some service) scale false) c =
        (.ok (result, some false), c') ∧ rt.Submitted request plugged spec ∧
      c'.services = c.services.map fun s =>
        if s.id = service.id then
          ⟨service.id, { spec with image := rt.docker.pin spec.image }⟩ else s := by
  obtain ⟨labels, himage, hlabel, hplugged⟩ := hanswers.image
  obtain ⟨secrets, hsecrets, hhas⟩ := hanswers.secrets
  obtain ⟨certificate, hcertificate⟩ := hanswers.certificate
  obtain ⟨res, hres, hressecrets, hresenv⟩ := resources_eq hplugged hsecrets hcertificate
  have hends : Ends (Steady c.services (secrets.items.map Prod.fst))
      (rt.deploy request (some service) scale false) fun out c' =>
        out.2 = some false ∧ ∃ spec, rt.Submitted request plugged spec ∧
          c'.services = c.services.map fun s =>
            if s.id = service.id then
              ⟨service.id, { spec with image := rt.docker.pin spec.image }⟩ else s := by
    refine .bind (ends_getImage hfault himage) fun found => .assume fun hfound => ?_
    subst hfound
    dsimp only
    rw [if_neg (by simp [Option.isSome_iff_ne_none.mp hlabel])]
    refine .bind (.liftExcept hres (Q := fun r c' => r = res ∧ Steady _ _ c') fun _ h => ⟨rfl, h⟩)
      fun r => .assume fun hr => ?_
    subst hr
    refine .bind (ends_setSecrets hfault _ _) fun generated => ?_
    refine .bind (ends_getSecrets hfault fun item hitem => ?_) fun configured => ?_
    · rw [hressecrets] at hitem
      exact List.mem_map_of_mem hitem
    refine .bind (ends_deployConfig hfault _) fun configs => .assume fun hconfigs => ?_
    refine .bind (ends_updateService hfault _ _) fun _ => ?_
    refine .bind (.forM fun _ => ends_removeSecret hfault _) fun _ => ?_
    refine .bind (.forM fun _ => ends_removeConfig hfault _) fun _ => ?_
    refine .pure fun c' h => ⟨rfl, _, ?_, h.services_eq⟩
    exact ⟨rfl, by rw [← hresenv]; rfl, hconfigs⟩
  obtain ⟨out, c', hexec, hout, spec, hspec, hservices⟩ := hends c ⟨rfl, fun key hkey => by
    obtain ⟨item, hitem, rfl⟩ := List.mem_map.mp hkey
    exact hhas item hitem⟩
  exact ⟨out.1, c', spec, by rw [hexec, ← hout], hspec, hservices⟩

end DockerSwarmRuntime

end Iams.Runtime
