/-
Iams.Runtime.Frames — what the methods of the runtime leave as it is.

A `RequestFrame` holds whatever is recorded of the requests, so everything
that only reads from docker keeps it. `SameServices` is also kept by all that
works on secrets, configs and images only. `Only id name` allows the service
`id` to change or to go, as long as it is called `name`, and `OnlyNamed name`
also allows services of that name to be added; both leave the services of
every other name alone (`Only.others`).

No `sorry`, no `axiom`, no `native_decide`.
-/
import Iams.Runtime.Update

namespace Iams.Runtime

open Iams.Lib Iams.Lib.Procedure
open Iams.Servicer (AgentData Bytes)

/-! ## The services of the cluster -/

def SameServices (c c' : Cluster) : Prop := c'.services = c.services

theorem frame_sameServices : Frame SameServices :=
  ⟨fun _ => rfl, fun h₁ h₂ => h₂.trans h₁⟩

/-- The services that are not called `name`. -/
def others (name : String) (c : Cluster) : List Service :=
  c.services.filter fun s => s.spec.name ≠ name

/-- The services of other names are as before. -/
def OnlyNamed (name : String) (c c' : Cluster) : Prop := others name c' = others name c

theorem frame_onlyNamed (name : String) : Frame (OnlyNamed name) :=
  ⟨fun _ => rfl, fun h₁ h₂ => h₂.trans h₁⟩

/-- The service `id`, if there is one, is called `name`. -/
def Called (id : Nat) (name : String) (c : Cluster) : Prop :=
  ∀ s ∈ c.services, s.id = id → s.spec.name = name

/-- Only the service `id` has changed, and not its name. -/
structure Only (id : Nat) (name : String) (c c' : Cluster) : Prop where
  rest : (c'.services.filter fun s => s.id ≠ id) = c.services.filter fun s => s.id ≠ id
  called : Called id name c → Called id name c'

theorem frame_only (id : Nat) (name : String) : Frame (Only id name) :=
  ⟨fun _ => ⟨rfl, fun h => h⟩, fun h₁ h₂ =>
    ⟨h₂.rest.trans h₁.rest, fun h => h₂.called (h₁.called h)⟩⟩

theorem SameServices.only {id : Nat} {name : String} {c c' : Cluster} (h : SameServices c c') :
    Only id name c c' := by
  refine ⟨by rw [h], fun hcalled s hs => ?_⟩
  rw [h] at hs
  exact hcalled s hs

theorem SameServices.onlyNamed {name : String} {c c' : Cluster} (h : SameServices c c') :
    OnlyNamed name c c' := by
  rw [OnlyNamed, others, others, h]

/-- The services of other names are among those with another id. -/
theorem Called.others_eq {id : Nat} {name : String} {c : Cluster} (h : Called id name c) :
    others name c = (c.services.filter fun s => s.id ≠ id).filter fun s => s.spec.name ≠ name := by
  rw [List.filter_filter]
  refine List.filter_congr fun s hs => ?_
  by_cases hid : s.id = id
  · simp [h s hs hid, hid]
  · simp [hid]

theorem Only.others {id : Nat} {name : String} {c c' : Cluster} (h : Only id name c c')
    (hcalled : Called id name c) : OnlyNamed name c c' := by
  rw [OnlyNamed, hcalled.others_eq, (h.called hcalled).others_eq, h.rest]

/-! ## The fields of a request -/

theorem inherit_of_ne_none {field current : PyValue} {update : Bool} (h : field ≠ .none) :
    inherit field current update = (field, update || decide (field ≠ current)) := by
  unfold inherit
  rw [if_neg h]
  split
  · next hne => simp [hne]
  · next heq => simp [heq]

theorem inherit_str (s : String) (current : PyValue) (update : Bool) :
    inherit (.str s) current update = (.str s, update || decide (.str s ≠ current)) :=
  inherit_of_ne_none nofun

theorem inherit_int (n : Nat) (current : PyValue) (update : Bool) :
    inherit (.int n) current update = (.int n, update || decide (.int n ≠ current)) :=
  inherit_of_ne_none nofun

theorem inheritConfig_bytes (config : Bytes) (current : PyValue) (update : Bool) :
    inheritConfig (.bytes config) current update =
      (.bytes config, update || decide (.bytes config ≠ current)) := by
  unfold inheritConfig
  rw [if_neg (show PyValue.bytes config ≠ .none from nofun)]
  split
  · next hne => simp [hne, show PyValue.bytes config ≠ .str "-" from nofun]
  · next heq => simp [heq]

/-- A number is never equal to what the environment holds. -/
theorem int_ne_ofStr (n : Nat) (s : Option String) : PyValue.int n ≠ .ofStr? s := by
  cases s <;> nofun

theorem asUInt32_toNat (n : UInt32) : (PyValue.int n.toNat).asUInt32 = .ok n := by
  rw [PyValue.asUInt32, if_pos n.toNat_lt_size]
  simp

/-! ## Docker -/

/-- `try: … except docker.errors.NotFound: …`, where the value tells which
of the two it was. -/
theorem exec_tryNotFound {α : Type} (x : Proc α) (c : Cluster) :
    exec (tryCatch (some <$> x) fun e => if e.isNotFound then pure none else throw e) c =
      match exec x c with
      | (.ok a, c') => (.ok (some a), c')
      | (.error e, c') => (if e.isNotFound then .ok none else .error e, c') := by
  rw [exec_tryCatch, map_eq_pure_bind, exec_bind]
  rcases exec x c with ⟨e | a, c'⟩
  · dsimp only
    split <;> rfl
  · rfl

namespace Docker

variable (docker : Docker)

theorem exec_request (r : Request) (c : Cluster) :
    exec (docker.request r) c =
      (match docker.fault c.requests.length with
        | some e => .error e
        | none => .ok (), { c with requests := c.requests ++ [r] }) := by
  simp only [request, exec_bind, exec_get, exec_modify]
  cases docker.fault c.requests.length <;> rfl

variable {docker} in
/-- A request that returns has been added to the requests. -/
theorem request_ok {r : Request} {c c' : Cluster}
    (h : exec (docker.request r) c = (.ok (), c')) :
    c' = { c with requests := c.requests ++ [r] } := by
  rw [exec_request] at h
  exact (Prod.mk.inj h).2.symm

end Docker

/-! ## Frames that requests keep -/

/-- A frame that is not about the requests that docker has been sent. -/
structure RequestFrame (R : Cluster → Cluster → Prop) : Prop extends Frame R where
  request : ∀ c r, R c { c with requests := c.requests ++ [r] }

theorem requestFrame_sameServices : RequestFrame SameServices :=
  ⟨frame_sameServices, fun _ _ => rfl⟩

namespace RequestFrame

variable {R : Cluster → Cluster → Prop} (hR : RequestFrame R)

include hR

section Docker

variable (docker : Docker)

theorem keeps_request (r : Request) : Keeps R (docker.request r) := by
  intro c
  rw [Docker.exec_request]
  exact hR.request c r

/-- A request, and a change within the frame. -/
theorem keeps_request_bind {α : Type} (r : Request) {f : Unit → Proc α}
    (hf : ∀ c, R c (exec (f ()) c).2) : Keeps R (docker.request r >>= f) :=
  hR.keeps_bind (hR.keeps_request docker r) fun _ => hf

/-- A request that reads something. -/
theorem keeps_read {α : Type} (r : Request) (f : Cluster → α) :
    Keeps R (docker.request r >>= fun _ => get >>= fun c => pure (f c)) :=
  hR.keeps_request_bind docker r hR.refl

theorem keeps_getImage (name : String) : Keeps R (docker.getImage name) :=
  hR.keeps_request_bind docker _ (hR.keeps_liftExcept _)

theorem keeps_getSecret (key : String) : Keeps R (docker.getSecret key) := by
  refine hR.keeps_request_bind docker _ fun c => ?_
  rw [exec_bind, exec_get]
  dsimp only
  split <;> exact hR.refl c

theorem keeps_createConfig
    (hconfig : ∀ c config, R c
      { c with configs := c.configs ++ [config], nextId := c.nextId + 1 })
    (name : String) (data : Bytes) (labels : Dict String String) :
    Keeps R (docker.createConfig name data labels) := by
  refine hR.keeps_request_bind docker _ fun c => ?_
  refine hR.keeps_bind (fun c => ?_) (fun cluster => ?_) c
  · exact hR.refl c
  · refine hR.keeps_bind (fun c => hconfig c _) fun _ => ?_
    exact hR.keeps_request_bind docker _ hR.refl

end Docker

section Runtime

variable (rt : DockerSwarmRuntime)

theorem keeps_getService (name : String) : Keeps R (rt.getService name) := by
  refine hR.keeps_bind (hR.keeps_read rt.docker _ _) fun services => ?_
  split
  · exact hR.keeps_pure _
  · exact hR.keeps_throw _

theorem keeps_getServiceAndName (target : Target) : Keeps R (rt.getServiceAndName target) := by
  cases target with
  | service service => exact hR.keeps_pure _
  | name name => exact hR.keeps_bind (hR.keeps_getService rt name) fun _ => hR.keeps_pure _

theorem keeps_getAgentPlugins (target : Target) : Keeps R (rt.getAgentPlugins target) := by
  refine hR.keeps_bind (hR.keeps_getServiceAndName rt target) fun _ => ?_
  refine hR.keeps_bind (hR.keeps_liftExcept _) fun _ => ?_
  exact hR.keeps_bind (hR.keeps_getImage rt.docker _) fun _ => hR.keeps_pure _

theorem keeps_getAgentConfig (target : Target) : Keeps R (rt.getAgentConfig target) := by
  refine hR.keeps_bind (hR.keeps_getServiceAndName rt target) fun _ => ?_
  refine hR.keeps_bind (hR.keeps_read rt.docker _ _) fun configs => ?_
  split <;> exact hR.keeps_pure _

theorem keeps_deleteAgentPlugins (target : Target) : Keeps R (rt.deleteAgentPlugins target) := by
  refine hR.keeps_bind (hR.keeps_getAgentPlugins rt target) fun _ => hR.keeps_forM fun p => ?_
  refine hR.keeps_bind hR.keeps_get fun cluster => ?_
  split
  · exact hR.keeps_throw _
  · exact hR.keeps_pure _

theorem keeps_getSecrets (secrets : List (String × String)) : Keeps R (rt.getSecrets secrets) := by
  induction secrets with
  | nil => exact hR.keeps_pure _
  | cons item rest ih =>
    refine hR.keeps_bind (hR.keeps_getSecret rt.docker item.1) fun _ => ?_
    exact hR.keeps_bind ih fun _ => hR.keeps_pure _

/-- At most a config is new. -/
theorem keeps_deployConfig
    (hconfig : ∀ c config, R c
      { c with configs := c.configs ++ [config], nextId := c.nextId + 1 })
    (request : AgentData) : Keeps R (rt.deployConfig request) := by
  unfold DockerSwarmRuntime.deployConfig
  split
  · refine hR.keeps_bind (hR.keeps_bind (hR.keeps_read rt.docker _ _) fun configs => ?_)
      fun found => ?_
    · dsimp only
      split
      · exact hR.keeps_bind (hR.keeps_createConfig rt.docker hconfig _ _ _) fun _ =>
          hR.keeps_pure _
      · exact hR.keeps_pure _
    · split
      · exact hR.keeps_pure _
      · exact hR.keeps_throw _
  · exact hR.keeps_pure _

end Runtime

end RequestFrame

/-! ## Changes that keep the services -/

namespace Docker

variable (docker : Docker)

theorem keeps_createSecret (name : String) (data : Bytes) (labels : Dict String String) :
    Keeps SameServices (docker.createSecret name data labels) := by
  have hR := requestFrame_sameServices
  refine hR.keeps_request_bind docker _ (hR.keeps_bind hR.keeps_get fun cluster => ?_)
  refine hR.keeps_bind (fun _ => rfl) fun _ => ?_
  exact hR.keeps_request_bind docker _ fun _ => rfl

theorem keeps_removeSecret (id : Nat) : Keeps SameServices (docker.removeSecret id) :=
  requestFrame_sameServices.keeps_request_bind docker _ fun _ => rfl

theorem keeps_removeConfig (id : Nat) : Keeps SameServices (docker.removeConfig id) :=
  requestFrame_sameServices.keeps_request_bind docker _ fun _ => rfl

theorem keeps_removeService (id : Nat) (name : String) :
    Keeps (Only id name) (docker.removeService id) := by
  have hrequest := requestFrame_sameServices.keeps_request docker (.removeService id)
  refine (frame_only id name).keeps_bind (hrequest.mono fun _ _ => SameServices.only) fun _ c => ?_
  refine ⟨?_, fun hcalled s hs => hcalled s (List.mem_of_mem_filter hs)⟩
  rw [exec_modify]
  simp [List.filter_filter]

theorem keeps_updateService (id : Nat) (spec : ServiceSpec) :
    Keeps (Only id spec.name) (docker.updateService id spec) := by
  have hrequest := requestFrame_sameServices.keeps_request docker (.updateService id spec)
  refine (frame_only id spec.name).keeps_bind (hrequest.mono fun _ _ => SameServices.only)
    fun _ c => ?_
  rw [exec_modify]
  constructor
  · dsimp only
    induction c.services with
    | nil => rfl
    | cons s rest ih =>
      by_cases hid : s.id = id
      · simpa [hid] using ih
      · simpa [hid] using ih
  · intro hcalled s hs hid
    obtain ⟨t, ht, rfl⟩ := List.mem_map.mp hs
    by_cases htid : t.id = id
    · rw [if_pos htid]
    · rw [if_neg htid] at hid
      exact absurd hid htid

theorem keeps_createService (spec : ServiceSpec) :
    Keeps (OnlyNamed spec.name) (docker.createService spec) := by
  have hrequest := requestFrame_sameServices.keeps_request docker (.createService spec)
  refine (frame_onlyNamed spec.name).keeps_bind (hrequest.mono fun _ _ => SameServices.onlyNamed)
    fun _ c => ?_
  rw [exec_modify]
  simp [OnlyNamed, others]

end Docker

/-! ## The runtime -/

namespace DockerSwarmRuntime

variable (rt : DockerSwarmRuntime)

private theorem same : RequestFrame SameServices := requestFrame_sameServices

theorem keeps_deleteAgentSecrets (name : String) :
    Keeps SameServices (rt.deleteAgentSecrets name) :=
  same.keeps_bind (same.keeps_read rt.docker _ _) fun _ =>
    same.keeps_forM fun _ => rt.docker.keeps_removeSecret _

theorem keeps_deleteAgentConfigs (name : String) :
    Keeps SameServices (rt.deleteAgentConfigs name) :=
  same.keeps_bind (same.keeps_read rt.docker _ _) fun _ =>
    same.keeps_forM fun _ => rt.docker.keeps_removeConfig _

theorem keeps_setSecret (service : String) (secret : Generated) :
    Keeps SameServices (rt.setSecret service secret) := by
  refine same.keeps_bind (same.keeps_read rt.docker _ _) fun secrets => ?_
  dsimp only
  split
  · exact same.keeps_pure _
  · exact same.keeps_bind (rt.docker.keeps_createSecret _ _ _) fun _ => same.keeps_pure _

theorem keeps_setSecrets (name : String) (secrets : List Generated) :
    Keeps SameServices (rt.setSecrets name secrets) := by
  induction secrets with
  | nil => exact same.keeps_pure _
  | cons secret rest ih =>
    refine same.keeps_bind (rt.keeps_setSecret name secret) fun _ => ?_
    exact same.keeps_bind ih fun _ => same.keeps_pure _

/-! ## The service that is there -/

/-- A message has no field that is `None`, and its port is a number: the
request is left as it is, and an update is always asked for. -/
theorem current_eq (request : AgentData) (update : Bool) :
    rt.current request update = do
      let service ← rt.getService request.name
      let replicas ← liftExcept service.spec.getReplicas
      let _ ← liftExcept (unpackPair (getImageVersion service))
      let _ ← liftExcept service.spec.getEnv
      let _ ← rt.getAgentConfig (.service service)
      return ⟨service, if replicas ≠ 0 then replicas else request.autostart.toNat, request,
        true⟩ := by
  unfold current
  refine bind_congr fun service => bind_congr fun replicas => bind_congr fun pair =>
    bind_congr fun env => bind_congr fun config => ?_
  obtain ⟨image, version⟩ := pair
  dsimp only
  simp only [inherit_str, inherit_int, inheritConfig_bytes, asUInt32_toNat, PyValue.asString,
    PyValue.asBytes]
  simp [int_ne_ofStr]
  rfl

/-- What has been read when the `try` statement has returned. -/
theorem current_stages {request : AgentData} {update : Bool} {found : Found} {c c' : Cluster}
    (h : exec (rt.current request update) c = (.ok found, c')) :
    ∃ c₁ replicas pair env, exec (rt.getService request.name) c = (.ok found.service, c₁) ∧
      found.service.spec.getReplicas = .ok replicas ∧
      unpackPair (getImageVersion found.service) = .ok pair ∧
      found.service.spec.getEnv = .ok env ∧
      found = ⟨found.service, if replicas ≠ 0 then replicas else request.autostart.toNat,
        request, true⟩ := by
  rw [current_eq] at h
  obtain ⟨service, c₁, hservice, h⟩ := exec_bind_eq_ok.mp h
  obtain ⟨replicas, _, hreplicas, h⟩ := exec_bind_eq_ok.mp h
  obtain ⟨pair, _, hpair, h⟩ := exec_bind_eq_ok.mp h
  obtain ⟨env, _, henv, h⟩ := exec_bind_eq_ok.mp h
  obtain ⟨_, _, -, h⟩ := exec_bind_eq_ok.mp h
  rw [exec_liftExcept] at hreplicas hpair henv
  cases h
  exact ⟨c₁, replicas, pair, env, hservice, congrArg Prod.fst hreplicas, congrArg Prod.fst hpair,
    congrArg Prod.fst henv, rfl⟩

theorem current_ok {request : AgentData} {update : Bool} {found : Found} {c c' : Cluster}
    (h : exec (rt.current request update) c = (.ok found, c')) :
    (exec (rt.getService request.name) c).1 = .ok found.service ∧ found.request = request ∧
      found.update = true := by
  obtain ⟨c₁, replicas, pair, env, hservice, -, -, -, hfound⟩ := rt.current_stages h
  rw [hfound] at hservice ⊢
  exact ⟨by rw [hservice], rfl, rfl⟩

/-- Finding and reading the service sends requests only. -/
theorem keeps_current {R : Cluster → Cluster → Prop} (hR : RequestFrame R) (request : AgentData)
    (update : Bool) : Keeps R (rt.current request update) := by
  rw [current_eq]
  refine hR.keeps_bind (hR.keeps_getService rt _) fun service => ?_
  refine hR.keeps_bind (hR.keeps_liftExcept _) fun _ => ?_
  refine hR.keeps_bind (hR.keeps_liftExcept _) fun _ => ?_
  refine hR.keeps_bind (hR.keeps_liftExcept _) fun _ => ?_
  exact hR.keeps_bind (hR.keeps_getAgentConfig rt _) fun _ => hR.keeps_pure _

/-- The service that is written has the name and the image of the request. -/
structure Submits (request : AgentData) (spec : ServiceSpec) : Prop where
  name : spec.name = request.name
  image : spec.image = request.image ++ ":" ++ request.version

/-- Everything before the service is written keeps the services. So what
`deploy` does to them is what the last step does. -/
theorem keeps_deploy {R : Cluster → Cluster → Prop} (hR : Frame R)
    (hsame : ∀ c c', SameServices c c' → R c c') (request : AgentData) (service : Option Service)
    (scale : Nat) (skipLabelTest : Bool)
    (hcreate : service = none → ∀ spec : ServiceSpec, Submits request spec →
      Keeps R (rt.docker.createService spec))
    (hupdate : ∀ s, service = some s → ∀ spec : ServiceSpec, Submits request spec →
      Keeps R (rt.docker.updateService s.id spec)) :
    Keeps R (rt.deploy request service scale skipLabelTest) := by
  have lift {α : Type} {x : Proc α} (hx : Keeps SameServices x) : Keeps R x := hx.mono hsame
  refine hR.keeps_bind (lift (same.keeps_getImage rt.docker _)) fun imageLabels => ?_
  dsimp only
  split
  · exact hR.keeps_throw _
  refine hR.keeps_bind (lift (same.keeps_liftExcept _)) fun res => ?_
  refine hR.keeps_bind (lift (rt.keeps_setSecrets _ _)) fun generated => ?_
  refine hR.keeps_bind (lift (same.keeps_getSecrets rt _)) fun configured => ?_
  refine hR.keeps_bind (lift (same.keeps_deployConfig rt (fun _ _ => rfl) _)) fun configs => ?_
  have hname : (if request.preferences = [] then
      { request with preferences := ["node.labels.worker"] } else request).name
        = request.name := by
    split <;> rfl
  cases service with
  | none => exact hR.keeps_bind (hcreate rfl _ ⟨hname, rfl⟩) fun _ => hR.keeps_pure _
  | some service =>
    refine hR.keeps_bind (hupdate service rfl _ ⟨hname, rfl⟩) fun _ => ?_
    refine hR.keeps_bind (lift (same.keeps_forM fun _ => rt.docker.keeps_removeSecret _))
      fun _ => ?_
    refine hR.keeps_bind (lift (same.keeps_forM fun _ => rt.docker.keeps_removeConfig _))
      fun _ => ?_
    exact hR.keeps_pure _

theorem keeps_submit {R : Cluster → Cluster → Prop} (hR : Frame R)
    (hsame : ∀ c c', SameServices c c' → R c c') (request : AgentData) (service : Option Service)
    (scale : Nat) (create update skipLabelTest : Bool)
    (hcreate : create = true ∨ service = none → ∀ spec : ServiceSpec, Submits request spec →
      Keeps R (rt.docker.createService spec))
    (hupdate : ∀ s, create = false → service = some s → ∀ spec : ServiceSpec,
      Submits request spec → Keeps R (rt.docker.updateService s.id spec)) :
    Keeps R (rt.submit request service scale create update skipLabelTest) := by
  unfold submit
  split
  · exact hR.keeps_throw _
  split
  · exact hR.keeps_throw _
  split
  · exact hR.keeps_pure _
  refine rt.keeps_deploy hR hsame request _ scale skipLabelTest (fun h => hcreate ?_) ?_
  · cases create
    · exact .inr h
    · exact .inl rfl
  · intro s hs
    cases create
    · exact hupdate s rfl hs
    · cases hs

/-- `update_agent` submits the request without a service, if there is none of
this name, or with the one that was found. -/
theorem keeps_updateAgent {R : Cluster → Cluster → Prop} (hR : Frame R)
    (hsame : ∀ c c', SameServices c c' → R c c') (request : AgentData)
    (create update skipLabelTest : Bool) {c : Cluster}
    (hmissing : ∀ c₁, R c₁ (exec (rt.submit request none request.autostart.toNat true update
      skipLabelTest) c₁).2)
    (hfound : ∀ found c₁, exec (rt.current request update) c = (.ok found, c₁) →
      SameServices c c₁ → R c₁ (exec (rt.submit request (some found.service) found.scale create
        true skipLabelTest) c₁).2) :
    R c (exec (rt.updateAgent request create update skipLabelTest) c).2 := by
  have hcurrent := rt.keeps_current requestFrame_sameServices request update c
  rw [updateAgent, exec_bind, exec_tryNotFound]
  rcases h : exec (rt.current request update) c with ⟨e | found, c₁⟩ <;> rw [h] at hcurrent
  · dsimp only
    cases e.isNotFound with
    | false => exact hsame _ _ hcurrent
    | true => exact hR.trans (hsame _ _ hcurrent) (hmissing c₁)
  · obtain ⟨-, hrequest, hupdate⟩ := rt.current_ok h
    dsimp only
    rw [hrequest, hupdate]
    exact hR.trans (hsame _ _ hcurrent) (hfound found c₁ h hcurrent)

end DockerSwarmRuntime

end Iams.Runtime
