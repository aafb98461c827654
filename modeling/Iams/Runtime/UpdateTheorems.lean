/-
Iams.Runtime.UpdateTheorems — what a second request and a partial request
to `update_agent` do.

A field of a message is never `None`, so nothing is inherited from the
service that is there, and its port is a number, which is never equal to
the text in an environment. So `update_agent` never finds that there is
nothing to do (`not_idle_updateAgent`), and a field that is left out is
left out of the service as well (`keepsRest_iff`).

§1 reading the environment back, §2 the same request again, §3 a request
with some of the settings.

No `sorry`, no `axiom`, no `native_decide`.
-/
import Iams.Runtime.DeployTheorems
import Iams.Runtime.LookupTheorems
import Iams.Runtime.Submit

namespace Iams.Runtime

open Iams.Lib Iams.Lib.Procedure
open Iams.Servicer (AgentData Bytes)

/-! ## §1 The environment -/

theorem formatEnvironment_eq (key : String) (value : EnvValue) :
    ∃ rest, formatEnvironment key value = key ++ rest := by
  cases value with
  | none => exact ⟨"", by simp [formatEnvironment]⟩
  | str s => exact ⟨"=" ++ s, by simp [formatEnvironment, String.append_assoc]⟩
  | int n => exact ⟨"=" ++ toString n, by simp [formatEnvironment, String.append_assoc]⟩

/-- A variable is passed over if neither name starts with the other. -/
theorem matchEnv_formatEnvironment {name : EnvName} {key : String}
    (hname : ¬ (name.key ++ "=").toList <+: key.toList)
    (hkey : ¬ key.toList <+: (name.key ++ "=").toList) (value : EnvValue) :
    matchEnv name (formatEnvironment key value) = none := by
  obtain ⟨rest, hrest⟩ := formatEnvironment_eq key value
  have hstart : key.toList <+: (formatEnvironment key value).toList := by
    rw [hrest, String.toList_append]
    exact List.prefix_append _ _
  refine if_neg fun hprefix => ?_
  rcases List.prefix_or_prefix_of_prefix (List.isPrefixOf_iff_prefix.mp hprefix) hstart with h | h
  · exact hname h
  · exact hkey h

theorem readEnv_set {name : EnvName} {key : String}
    (hname : ¬ (name.key ++ "=").toList <+: key.toList)
    (hkey : ¬ key.toList <+: (name.key ++ "=").toList) (env : Dict String EnvValue)
    (value : EnvValue) :
    readEnv name (formatItems (env.set key value)) = readEnv name (formatItems env) := by
  unfold readEnv formatItems
  rw [List.filterMap_map, List.filterMap_map, Dict.filterMap_set]
  exact matchEnv_formatEnvironment hname hkey

namespace DockerSwarmRuntime

variable (rt : DockerSwarmRuntime)

/-- The request leaves this setting out. -/
def Unset (request : AgentData) : EnvName → Prop
  | .address => request.address = ""
  | .port => request.port = 0

/-- What the request leaves out is as the plugins have it. -/
theorem readEnv_environment {request : AgentData} {name : EnvName} (h : Unset request name)
    (env : Dict String EnvValue) :
    readEnv name (formatItems (rt.environment request env)) = readEnv name (formatItems env) := by
  unfold environment
  dsimp only
  cases name with
  | address =>
    have haddress : ¬ request.address ≠ "" := not_not.mpr h
    rw [readEnv_set (by decide) (by decide), readEnv_set (by decide) (by decide), if_neg haddress]
    split
    · rw [readEnv_set (by decide) (by decide)]
    · rfl
  | port =>
    have hport : ¬ request.port ≠ 0 := not_not.mpr h
    rw [readEnv_set (by decide) (by decide), readEnv_set (by decide) (by decide), if_neg hport]
    split
    · rw [readEnv_set (by decide) (by decide)]
    · rfl

/-- The value of a variable in the environment of a service. -/
def serviceEnv (name : EnvName) (service : Service) : Option String :=
  readEnv name (service.spec.env.getD [])

/-! ## §2 The same request again -/

/-- A service is submitted, or a secret or config created. -/
def writes : Request → Bool
  | .createService _ | .updateService _ _ | .createSecret _ | .createConfig _ => true
  | _ => false

/-- `update_agent` has returned `None`, and it has only read. -/
def Idle (c : Cluster) (out : Except Error (AgentData × Option Bool) × Cluster) : Prop :=
  (∃ result, out.1 = .ok (result, none)) ∧
    ∃ requests, out.2.requests = c.requests ++ requests ∧ ∀ r ∈ requests, writes r = false

variable {rt} {request : AgentData}

/-- Every call that returns has created or updated a service. -/
theorem updateAgent_ok {create update skipLabelTest : Bool} {result : AgentData × Option Bool}
    {c c' : Cluster}
    (h : exec (rt.updateAgent request create update skipLabelTest) c = (.ok result, c')) :
    result.2.isSome := by
  obtain ⟨-, -, ⟨found, c₁, -, hdeploy⟩ | ⟨e, c₁, -, -, -, hdeploy⟩⟩ := updateAgent_stages h
  · rw [deploy_ok hdeploy]
    rfl
  · rw [deploy_ok hdeploy]
    rfl

theorem not_idle (request : AgentData) (create update skipLabelTest : Bool) (c : Cluster) :
    ¬ Idle c (exec (rt.updateAgent request create update skipLabelTest) c) := by
  rintro ⟨⟨result, hresult⟩, -⟩
  have hsome := updateAgent_ok (Prod.ext hresult rfl)
  cases hsome

/-- However the first call went, the second one does not return `None`
without having submitted anything. -/
theorem not_idle_updateAgent {create update skipLabelTest skipLabelTest' : Bool}
    {result : AgentData} {created : Bool} {c c' : Cluster}
    (_ : exec (rt.updateAgent request create update skipLabelTest) c =
      (.ok (result, some created), c')) :
    ¬ Idle c' (exec (rt.updateAgent request false false skipLabelTest') c') :=
  not_idle request false false skipLabelTest' c'

/-- A new agent with a port. -/
def armRequest : AgentData := { name := "prod_arm", image := "arm", version := "1", port := 8080 }

theorem not_idle_updateAgent_arm :
    ¬ Idle (exec (bare.updateAgent armRequest false false false) {}).2
      (exec (bare.updateAgent armRequest false false false)
        (exec (bare.updateAgent armRequest false false false) {}).2) := by
  have hfirst : exec (bare.updateAgent armRequest false false false) {} =
      (.ok ({ armRequest with preferences := ["node.labels.worker"] }, some true),
        (exec (bare.updateAgent armRequest false false false) {}).2) := Prod.ext (by decide) rfl
  exact not_idle_updateAgent hfirst

/-- The agent that was created is updated by the request that created it,
though the number in its environment is the one in the request. -/
theorem arm_updated_again :
    (let first := exec (bare.updateAgent armRequest false false false) {}
     let second := exec (bare.updateAgent armRequest false false false) first.2
     (first.2.services.map (serviceEnv .port), second.1.toOption.map Prod.snd,
        (second.2.requests.drop first.2.requests.length).any writes)) =
      ([some "8080"], some (some false), true) ∧
    ¬ ∀ (rt : DockerSwarmRuntime) (request : AgentData) (c : Cluster), request.image ≠ "" →
      request.version ≠ "" → (∀ n, rt.docker.fault n = none) →
        ∀ result created c', exec (rt.updateAgent request false false false) c =
            (.ok (result, some created), c') →
          Idle c' (exec (rt.updateAgent request false false false) c') := by
  refine ⟨by decide, fun h => ?_⟩
  exact not_idle _ _ _ _ _ (h bare armRequest {} (by decide) (by decide) (fun _ => rfl)
    { armRequest with preferences := ["node.labels.worker"] } true _ (Prod.ext (by decide) rfl))

/-! ## §3 A request with some of the settings -/

/-- What the request leaves out, the service `after` has from `before`. -/
structure Keeps (request : AgentData) (before after : Service) : Prop where
  image : request.image = "" → (getImageVersion after)[0]? = (getImageVersion before)[0]?
  version : request.version = "" → (getImageVersion after)[1]? = (getImageVersion before)[1]?
  env : ∀ name, Unset request name → serviceEnv name after = serviceEnv name before
  config : request.config = [] → after.spec.configs = before.spec.configs

variable (rt) (request) in
/-- `update_agent(request, update=True)` replaces the service by one that
keeps what the request leaves out. -/
def KeepsRest (service : Service) (c : Cluster) : Prop :=
  ∃ result c', exec (rt.updateAgent request false true false) c = (.ok (result, some false), c') ∧
    ∃ after ∈ c'.services, after.id = service.id ∧ Keeps request service after

/-- What `update_agent` reads of a service is there. -/
structure Readable (service : Service) : Prop where
  replicas : ∃ replicas, service.spec.getReplicas = .ok replicas
  image : ∃ pair, unpackPair (getImageVersion service) = .ok pair
  env : ∃ env, service.spec.getEnv = .ok env

/-- The request has an image and a version, and what it leaves out the
service does not have, except where the plugins contribute the same. -/
structure Complete (request : AgentData) (plugged : Resources) (service : Service) : Prop where
  image : request.image ≠ ""
  version : request.version ≠ ""
  env : ∀ name, Unset request name →
    readEnv name (formatItems plugged.env) = serviceEnv name service
  config : request.config = [] → service.spec.configs = []

theorem exec_getAgentConfig (hfault : ∀ n, rt.docker.fault n = none) (service : Service)
    (c : Cluster) : ∃ config, exec (rt.getAgentConfig (.service service)) c =
      (.ok config, { c with requests := c.requests ++ [.listConfigs] }) := by
  unfold getAgentConfig getServiceAndName Docker.listConfigs
  simp only [exec_bind, exec_request_of_noFault hfault, exec_get, exec_pure]
  generalize rt.docker.list c.configs _ = configs
  rcases configs with _ | ⟨config, _ | ⟨other, rest⟩⟩
  · exact ⟨none, rfl⟩
  · exact ⟨some config.data, rfl⟩
  · exact ⟨none, rfl⟩

/-- The service is found and read. -/
theorem exec_current (hfault : ∀ n, rt.docker.fault n = none) {service : Service} {c : Cluster}
    (hcand : rt.candidates request.name c = [service]) (hread : Readable service) (update : Bool) :
    ∃ scale requests, exec (rt.current request update) c =
      (.ok ⟨service, scale, request, true⟩, { c with requests := requests }) := by
  obtain ⟨replicas, hreplicas⟩ := hread.replicas
  obtain ⟨pair, hpair⟩ := hread.image
  obtain ⟨env, henv⟩ := hread.env
  have hget := (getService_eq_ok_iff (hfault _)).mpr hcand
  have hexec : exec (rt.getService request.name) c =
      (.ok service, { c with requests := c.requests ++ [.listServices request.name] }) := by
    rw [exec_getService (hfault _)] at hget ⊢
    exact Prod.ext hget rfl
  obtain ⟨config, hconfig⟩ := exec_getAgentConfig hfault service
    { c with requests := c.requests ++ [.listServices request.name] }
  refine ⟨if replicas ≠ 0 then replicas else request.autostart.toNat,
    c.requests ++ [.listServices request.name] ++ [.listConfigs], ?_⟩
  rw [current_eq, exec_bind_of_ok hexec, hreplicas, hpair, henv]
  iterate 3 rw [exec_bind_of_ok (exec_liftExcept _ _)]
  rw [exec_bind_of_ok hconfig, exec_pure]

/-- What has been found has been read. -/
theorem readable_of_current {update : Bool} {found : Found} {c c' : Cluster}
    (h : exec (rt.current request update) c = (.ok found, c')) : Readable found.service := by
  obtain ⟨c₁, replicas, pair, env, -, hreplicas, hpair, henv, -⟩ := rt.current_stages h
  exact ⟨⟨replicas, hreplicas⟩, ⟨pair, hpair⟩, ⟨env, henv⟩⟩

/-- An update that returns has found one service. -/
theorem found_of_updateAgent {result : AgentData × Option Bool} {c c' : Cluster}
    (hfault : ∀ n, rt.docker.fault n = none)
    (h : exec (rt.updateAgent request false true false) c = (.ok result, c')) :
    request.image ≠ "" ∧ request.version ≠ "" ∧
      ∃ service, rt.candidates request.name c = [service] ∧ Readable service := by
  -- an update of a service that is not there is refused
  obtain ⟨himage, hversion, ⟨found, c₁, hcurrent, -⟩ | ⟨-, -, -, -, hupdate, -⟩⟩ :=
    updateAgent_stages h
  · obtain ⟨hget, -, -⟩ := rt.current_ok hcurrent
    exact ⟨himage, hversion, found.service, (getService_eq_ok_iff (hfault _)).mp hget,
      readable_of_current hcurrent⟩
  · cases hupdate

/-- An update of a service that is found, and of what it becomes. -/
theorem exec_updateAgent (hfault : ∀ n, rt.docker.fault n = none) {service : Service} {c : Cluster}
    {plugged : Resources} (hcand : rt.candidates request.name c = [service])
    (hread : Readable service) (himage : request.image ≠ "") (hversion : request.version ≠ "")
    (hanswers : rt.Answers request plugged c) :
    ∃ result c' spec, exec (rt.updateAgent request false true false) c =
        (.ok (result, some false), c') ∧ rt.Submitted request plugged spec ∧
      c'.services = c.services.map fun s =>
        if s.id = service.id then
          ⟨service.id, { spec with image := rt.docker.pin spec.image }⟩ else s := by
  obtain ⟨scale, requests, hcurrent⟩ := exec_current hfault hcand hread true
  obtain ⟨result, c', spec, hdeploy, hspec, hservices⟩ :=
    ends_deploy hfault (c := { c with requests := requests })
      ⟨hanswers.image, hanswers.secrets, hanswers.certificate⟩ service scale
  refine ⟨result, c', spec, ?_, hspec, hservices⟩
  have hfound : exec (tryCatch (some <$> rt.current request true) fun e =>
      if e.isNotFound then pure none else throw e) c =
      (.ok (some ⟨service, scale, request, true⟩), { c with requests := requests }) := by
    rw [exec_tryNotFound, hcurrent]
  rw [updateAgent, exec_bind_of_ok hfound]
  simp only [submit, Bool.false_and, Bool.false_eq_true, if_false, himage, hversion, decide_false,
    Bool.or_self, Bool.not_true, Bool.not_false, hdeploy]

/-- With an image and a version in the request, what is submitted keeps the
rest if the request is complete. -/
theorem keeps_iff_complete {service : Service} {spec : ServiceSpec} {plugged : Resources}
    (hspec : rt.Submitted request plugged spec) (himage : request.image ≠ "")
    (hversion : request.version ≠ "") (image : String) :
    Keeps request service ⟨service.id, { spec with image := image }⟩ ↔
      Complete request plugged service := by
  have henv {name : EnvName} (h : Unset request name) :
      serviceEnv name ⟨service.id, { spec with image := image }⟩ =
        readEnv name (formatItems plugged.env) := by
    rw [serviceEnv, hspec.env_eq, Option.getD_some, rt.readEnv_environment h]
  constructor
  · intro h
    refine ⟨himage, hversion, fun name hname => ?_, fun hconfig => ?_⟩
    · rw [← henv hname, h.env name hname]
    · rw [← h.config hconfig]
      exact hspec.configs_eq_nil.mpr hconfig
  · intro h
    refine ⟨fun hnone => absurd hnone himage, fun hnone => absurd hnone hversion,
      fun name hname => ?_, fun hconfig => ?_⟩
    · rw [henv hname, h.env name hname]
    · rw [h.config hconfig]
      exact hspec.configs_eq_nil.mpr hconfig

/-- An update keeps what the request leaves out if and only if the service
is the only one found, and the request leaves nothing out that it has. -/
theorem keepsRest_iff {service : Service} {c : Cluster} {plugged : Resources}
    (hfault : ∀ n, rt.docker.fault n = none)
    (hanswers : request.image ≠ "" → request.version ≠ "" → rt.Answers request plugged c)
    (hnames : ((rt.agents c).map fun s => s.spec.name).Nodup) (hs : service ∈ rt.agents c)
    (hname : service.spec.name = request.name) :
    rt.KeepsRest request service c ↔
      rt.continuations request.name c = [] ∧ Readable service ∧
        Complete request plugged service := by
  constructor
  · rintro ⟨result, c', hexec, after, hafter, hid, hkeeps⟩
    obtain ⟨himage, hversion, found, hcand, hread⟩ := found_of_updateAgent hfault hexec
    have hmem : service ∈ rt.candidates request.name c :=
      rt.mem_candidates.mpr ⟨hs, hname ▸ named_self _⟩
    obtain rfl : service = found := by simpa [hcand] using hmem
    obtain ⟨result', c'', spec, hexec', hspec, hservices⟩ :=
      exec_updateAgent hfault hcand hread himage hversion (hanswers himage hversion)
    rw [hexec] at hexec'
    cases hexec'
    -- the only service with this id is the one that was submitted
    have heq : after = ⟨service.id, { spec with image := rt.docker.pin spec.image }⟩ := by
      rw [hservices] at hafter
      obtain ⟨t, -, rfl⟩ := List.mem_map.mp hafter
      by_cases htid : t.id = service.id
      · rw [if_pos htid]
      · rw [if_neg htid] at hid
        exact absurd hid htid
    rw [heq] at hkeeps
    exact ⟨continuations_of_candidates hcand hname, hread,
      (keeps_iff_complete hspec himage hversion _).mp hkeeps⟩
  · rintro ⟨hcont, hread, hcomplete⟩
    have hcand := candidates_of_found hnames hs hname hcont
    obtain ⟨result, c', spec, hexec, hspec, hservices⟩ := exec_updateAgent hfault hcand hread
      hcomplete.image hcomplete.version (hanswers hcomplete.image hcomplete.version)
    refine ⟨result, c', hexec, ⟨service.id, { spec with image := rt.docker.pin spec.image }⟩, ?_,
      rfl, (keeps_iff_complete hspec hcomplete.image hcomplete.version _).mpr hcomplete⟩
    rw [hservices]
    exact List.mem_map.mpr ⟨service, List.mem_of_mem_filter hs, if_pos rfl⟩

/-- A request with a name only, as it is sent to upgrade an agent and to
renew its certificate, is refused. -/
theorem not_keepsRest_name (hfault : ∀ n, rt.docker.fault n = none) (name : String)
    (service : Service) (c : Cluster) : ¬ rt.KeepsRest { name := name } service c := by
  rintro ⟨_, _, hexec, -⟩
  exact (found_of_updateAgent hfault hexec).1 rfl

/-- Whatever the request says, `bare` has an answer for it. -/
theorem bare_answers (request : AgentData) (c : Cluster) : bare.Answers request .empty c :=
  ⟨⟨_, rfl, rfl, rfl⟩, ⟨_, rfl, nofun⟩, ⟨_, rfl⟩⟩

/-- An agent without settings is given a new version. -/
theorem keepsRest_iff_arm :
    bare.KeepsRest { name := "prod_arm", image := "arm", version := "2" }
      (bareService 0 "prod_arm") { services := [bareService 0 "prod_arm"] } :=
  (keepsRest_iff (fun _ => rfl) (fun _ _ => bare_answers _ _) (by decide)
    (List.mem_filter.mpr ⟨List.mem_cons_self, by decide⟩) rfl).mpr
    ⟨by decide, ⟨⟨0, rfl⟩, ⟨("arm", "1"), by rfl⟩, ⟨_, rfl⟩⟩,
      ⟨by decide, by decide, fun name _ => by cases name <;> decide, fun _ => rfl⟩⟩

/-- An agent with an address. -/
def armService : Service :=
  let service := bareService 0 "prod_arm"
  { service with spec := { service.spec with
      env := some ["IAMS_ADDRESS=10.0.0.5", "IAMS_AGENT=prod_arm", "IAMS_SERVICE=tasks.iams"] } }

/-- A request with its name only is refused, and a new version takes its
address away. -/
theorem arm_loses_address :
    (exec (bare.updateAgent { name := "prod_arm" } false true false)
      { services := [armService] }).1 = .error (.valueError "image and version must be set") ∧
    (exec (bare.updateAgent { name := "prod_arm", image := "arm", version := "2" } false true false)
      { services := [armService] }).2.services.map (serviceEnv .address) = [none] ∧
    serviceEnv .address armService = some "10.0.0.5" ∧
    ¬ ∀ (rt : DockerSwarmRuntime) (request : AgentData) (service : Service) (c : Cluster),
      (∀ n, rt.docker.fault n = none) →
      (request.image ≠ "" → request.version ≠ "" → ∃ plugged, rt.Answers request plugged c) →
      ((rt.agents c).map fun s => s.spec.name).Nodup → service ∈ rt.agents c →
        service.spec.name = request.name → rt.KeepsRest request service c := by
  refine ⟨by decide, by decide, by decide, fun h => ?_⟩
  exact not_keepsRest_name (fun _ => rfl) "prod_arm" armService { services := [armService] }
    (h bare _ armService _ (fun _ => rfl) (fun _ _ => ⟨_, bare_answers _ _⟩) (by decide)
      (List.mem_filter.mpr ⟨List.mem_cons_self, by decide⟩) rfl)

end DockerSwarmRuntime

end Iams.Runtime
