/-
Iams.Agent.LaunchTheorems — what an agent finds in its environment once the
runtime has created or updated it.

The settings of an agent come from four places: the request, the runtime,
the environment of the server, from which the plugins take what the image
asks for with its labels, and the image itself. `launched` says for every
variable and every module of the agent which of them counts. The order in
which the plugins have been loaded does not.

§1 the service that is submitted, §2 the variables of the plugins, §3 the
result.

No `sorry`, no `axiom`, no `native_decide`.
-/
import Iams.Agent.Settings
import Iams.Plugins.OrderTheorems
import Iams.Runtime.PrefixTheorems
import Iams.Runtime.SecretSteps
import Iams.Runtime.UpdateTheorems

namespace Iams.Runtime.DockerSwarmRuntime

open Iams.Lib Iams.Lib.Procedure
open Iams.Servicer (AgentData)

variable {rt : DockerSwarmRuntime} {request : AgentData} {c c' : Cluster}

/-! ## §1 The service -/

/-- The service is the one for these labels of the image. -/
def SubmitsFor (rt : DockerSwarmRuntime) (request : AgentData) (labels : Dict String String)
    (c : Cluster) : Prop :=
  ∃ res spec, rt.resources request labels = .ok res ∧ submitted c = some spec ∧
    spec.env = some (formatItems res.env) ∧ spec.networks = res.networks

theorem deploy_submits {service : Option Service} {scale : Nat} {skipLabelTest : Bool}
    {result : AgentData × Option Bool}
    (h : exec (rt.deploy request service scale skipLabelTest) c = (.ok result, c')) :
    ∃ labels, rt.docker.image (request.image ++ ":" ++ request.version) = .ok labels ∧
      rt.SubmitsFor request labels c' := by
  obtain ⟨labels, c₁, himage, h⟩ := exec_bind_eq_ok.mp h
  obtain ⟨_, c₀, -, himage⟩ := exec_bind_eq_ok.mp himage
  rw [exec_liftExcept] at himage
  refine ⟨labels, congrArg Prod.fst himage, ?_⟩
  dsimp only at h
  split at h
  · cases h
  obtain ⟨res, _, hres, h⟩ := exec_bind_eq_ok.mp h
  rw [exec_liftExcept] at hres
  obtain ⟨hresources, rfl⟩ := Prod.mk.inj hres
  obtain ⟨generated, c₂, -, h⟩ := exec_bind_eq_ok.mp h
  obtain ⟨configured, c₃, -, h⟩ := exec_bind_eq_ok.mp h
  obtain ⟨configs, c₄, -, h⟩ := exec_bind_eq_ok.mp h
  cases service with
  | none =>
    obtain ⟨_, c₅, hcreate, h⟩ := exec_bind_eq_ok.mp h
    cases h
    exact ⟨res, _, hresources,
      (Docker.submit_modify_ok hcreate rfl (fun _ => rfl) fun _ => rfl).2, rfl, rfl⟩
  | some service =>
    obtain ⟨_, c₅, hupdate, h⟩ := exec_bind_eq_ok.mp h
    obtain ⟨_, c₆, hsecrets, h⟩ := exec_bind_eq_ok.mp h
    obtain ⟨_, c₇, hconfigs, h⟩ := exec_bind_eq_ok.mp h
    cases h
    have hsubmitted := (Docker.submit_modify_ok hupdate rfl (fun _ => rfl) fun _ => rfl).2
    have hsame := frame_sameSubmitted.keeps_forM (l := generated.2)
      (fun secret => rt.docker.submitted_removeSecret secret.id) c₅
    have hsame' := frame_sameSubmitted.keeps_forM (l := configs.2)
      (fun config => rt.docker.submitted_removeConfig config.id) c₆
    rw [hsecrets] at hsame
    rw [hconfigs] at hsame'
    exact ⟨res, _, hresources, hsame'.trans (hsame.trans hsubmitted), rfl, rfl⟩

/-- Every call that returns has submitted a service. -/
theorem updateAgent_submits {create update skipLabelTest : Bool} {result : AgentData × Option Bool}
    (h : exec (rt.updateAgent request create update skipLabelTest) c = (.ok result, c')) :
    ∃ labels, rt.docker.image (request.image ++ ":" ++ request.version) = .ok labels ∧
      rt.SubmitsFor request labels c' := by
  obtain ⟨-, -, ⟨found, c₁, -, hdeploy⟩ | ⟨e, c₁, -, -, -, hdeploy⟩⟩ := updateAgent_stages h
  · exact deploy_submits hdeploy
  · exact deploy_submits hdeploy

end Iams.Runtime.DockerSwarmRuntime

namespace Iams.Plugins

open Iams.Lib Iams.Lib.Fallible
open Iams.Runtime
open Iams.Servicer (AgentData)

variable {server : Server} {found : List Shipped} {labels : Dict String String}
  {request : AgentData} {cls : Shipped} {a : Applied}

/-! ## §2 The variables of the plugins -/

namespace Shipped

/-- What a plugin sets for an agent, if it is not skipped and does not
fail. -/
def values (server : Server) (name : String) : Shipped → Option (List (String × String))
  | .arango => server.arangoSecret.toOption.map fun password => [
      ("ARANGO_HOSTS", (server.environ "IAMS_ARANGO_HOSTS").getD "http://tasks.arangodb:8529"),
      ("ARANGO_DATABASE", "iams_" ++ server.stackNamespace),
      ("ARANGO_USERNAME", "root"),
      ("ARANGO_PASSWORD", password)]
  | .envoy => some []
  | .fluentd => (server.environ "FLUENTD_HOST").map fun host =>
      [("FLUENTD_HOST", host), ("FLUENTD_TAG", "iams.agent." ++ afterUnderscore name)]
  | .influxdb => do
      let bucket ← server.environ "INFLUX_BUCKET"
      let host ← server.environ "INFLUX_HOST"
      let org ← server.environ "INFLUX_ORG"
      let token ← server.environ "INFLUX_TOKEN"
      return [("INFLUX_HOST", host), ("INFLUX_BUCKET", bucket), ("INFLUX_ORG", org),
        ("INFLUX_TOKEN", token)]
  | .mqtt => (server.environ "MQTT_HOST").map fun host =>
      [("MQTT_HOST", host), ("MQTT_TOPIC", "agents/" ++ afterUnderscore name)]
  | .sentry => (server.environ "SENTRY_DSN").map fun dsn => [("SENTRY_DSN", dsn)]
  | .zeebe => (server.environ "ZEEBE_HOST").map fun host =>
      [("ZEEBE_HOST", host), ("ZEEBE_NAME", "" ++ afterUnderscore name)]

theorem equals_not_mem_keys (cls : Shipped) : ∀ key ∈ cls.keys, '=' ∉ key.toList := by
  cases cls <;> decide

/-- None of them is one of the runtime's own. -/
theorem keys_ne_own (cls : Shipped) :
    ∀ key ∈ cls.keys, key ∉ ["IAMS_ADDRESS", "IAMS_PORT", "IAMS_AGENT", "IAMS_SERVICE"] := by
  cases cls <;> decide

theorem values_of_create_none (h : cls.create server = none) (name : String) :
    cls.values server name = none := by
  cases cls with
  | arango => cases h
  | envoy => cases h
  | fluentd | mqtt | zeebe | sentry =>
    exact Option.map_eq_none_iff.mpr (Option.map_eq_none_iff.mp h)
  | influxdb =>
    by_contra hne
    obtain ⟨l, hl⟩ := Option.ne_none_iff_exists'.mp hne
    obtain ⟨bucket, hbucket, hl⟩ := Option.bind_eq_some_iff.mp hl
    obtain ⟨host, hhost, hl⟩ := Option.bind_eq_some_iff.mp hl
    obtain ⟨org, horg, hl⟩ := Option.bind_eq_some_iff.mp hl
    obtain ⟨token, htoken, hl⟩ := Option.bind_eq_some_iff.mp hl
    rw [create, Plugins.influxdb, hbucket, hhost, horg, htoken] at h
    cases h

theorem splitRest_ok {name rest : String} (h : splitRest name = .ok rest) :
    rest = afterUnderscore name := by
  unfold splitRest at h
  split at h
  · exact (Except.ok.inj h).symm
  · cases h

/-- What a call returns. -/
theorem Returns.values_eq (h : cls.Returns server labels request a) :
    cls.values server request.name = some a.env := by
  obtain ⟨plugin, arg, hplugin, -, hcalled⟩ := h
  cases cls with
  | arango =>
    cases hplugin
    obtain ⟨kwargs, -, henv, -⟩ := Interface.call_eq_ok.mp hcalled
    obtain ⟨password, hpassword, henv⟩ := bind_eq_ok.mp henv
    rw [values, hpassword, ← Except.ok.inj henv]
    rfl
  | envoy =>
    cases hplugin
    obtain ⟨kwargs, -, henv, -⟩ := Interface.call_eq_ok.mp hcalled
    rw [values, ← Except.ok.inj henv]
  | fluentd | mqtt | zeebe =>
    obtain ⟨value, hvalue, rfl⟩ := Option.map_eq_some_iff.mp hplugin
    obtain ⟨kwargs, hkwargs, henv, -⟩ := Interface.call_eq_ok.mp hcalled
    rw [values, hvalue, ← Except.ok.inj henv, splitRest_ok hkwargs]
    rfl
  | influxdb =>
    obtain ⟨bucket, hbucket, hplugin⟩ := Option.bind_eq_some_iff.mp hplugin
    obtain ⟨host, hhost, hplugin⟩ := Option.bind_eq_some_iff.mp hplugin
    obtain ⟨org, horg, hplugin⟩ := Option.bind_eq_some_iff.mp hplugin
    obtain ⟨token, htoken, hplugin⟩ := Option.bind_eq_some_iff.mp hplugin
    cases hplugin
    obtain ⟨kwargs, -, henv, -⟩ := Interface.call_eq_ok.mp hcalled
    rw [values, hbucket, hhost, horg, htoken, ← Except.ok.inj henv]
    rfl
  | sentry =>
    obtain ⟨value, hvalue, rfl⟩ := Option.map_eq_some_iff.mp hplugin
    obtain ⟨kwargs, -, henv, -⟩ := Interface.call_eq_ok.mp hcalled
    rw [values, hvalue, ← Except.ok.inj henv]
    rfl

end Shipped

/-- The directory was found, and the image asks for the plugin. -/
def Shipped.Asked (cls : Shipped) (found : List Shipped) (labels : Dict String String) : Prop :=
  cls ∈ found ∧ (labels.get? cls.label).isSome

instance : Decidable (cls.Asked found labels) := inferInstanceAs (Decidable (_ ∧ _))

/-- What the agent gets from a plugin. -/
def Shipped.offered (cls : Shipped) (server : Server) (found : List Shipped)
    (labels : Dict String String) (name : String) : Option (List (String × String)) :=
  if cls.Asked found labels then cls.values server name else none

section Plugged

variable {all : List Applied}
  (h : (applied (server.getPlugins found) labels).mapM (called request) = .ok all)

include h

/-- A plugin that is asked for has been called. -/
theorem returns_of_asked (hasked : cls.Asked found labels) {plugin : Plugin}
    (hplugin : cls.create server = some plugin) :
    ∃ a ∈ all, cls.Returns server labels request a := by
  obtain ⟨hfound, harg⟩ := hasked
  obtain ⟨arg, harg⟩ := Option.isSome_iff_exists.mp harg
  have hcall : (plugin, arg) ∈ applied (server.getPlugins found) labels :=
    mem_applied_getPlugins.mpr ⟨cls, hfound, hplugin, harg⟩
  obtain ⟨a, ha, hcalled⟩ := exists_of_mapM h hcall
  exact ⟨a, ha, plugin, arg, hplugin, harg, hcalled⟩

theorem mem_keys_all {key : String} :
    key ∈ (all.flatMap Applied.variables).map Prod.fst ↔
      ∃ a ∈ all, ∃ cls ∈ found, cls.Returns server labels request a ∧ key ∈ cls.keys := by
  constructor
  · intro hkey
    obtain ⟨item, hitem, rfl⟩ := List.mem_map.mp hkey
    obtain ⟨a, ha, hitem⟩ := List.mem_flatMap.mp hitem
    obtain ⟨cls, hfound, hreturns⟩ := returns_of_mem h ha
    exact ⟨a, ha, cls, hfound, hreturns, hreturns.keys ▸ List.mem_map_of_mem hitem⟩
  · rintro ⟨a, ha, cls, -, hreturns, hkey⟩
    rw [← hreturns.keys] at hkey
    obtain ⟨item, hitem, rfl⟩ := List.mem_map.mp hkey
    exact List.mem_map_of_mem (List.mem_flatMap.mpr ⟨a, ha, hitem⟩)

/-- The value of a variable, as the plugins leave it. -/
theorem get?_plugged {key : String} (hkey : key ∈ cls.keys) :
    (all.foldl Resources.add .empty).env.get? key =
      ((cls.offered server found labels request.name).bind (Items.find key)).map .str := by
  rw [Resources.foldl_add_env]
  by_cases hmem : key ∈ (all.flatMap Applied.variables).map Prod.fst
  · obtain ⟨a, ha, cls', hfound, hreturns, hkey'⟩ := (mem_keys_all h).mp hmem
    obtain rfl : cls = cls' := by
      by_contra hne
      exact Shipped.keys_apart hne key hkey hkey'
    have hasked : cls.Asked found labels := by
      obtain ⟨plugin, arg, -, harg, -⟩ := hreturns
      exact ⟨hfound, by rw [harg]; rfl⟩
    have hkeys : a.env.map Prod.fst = cls.keys := by
      rw [← hreturns.keys, Applied.variables, List.map_map]
      rfl
    have hnodup : (a.env.map Prod.fst).Nodup := hkeys ▸ cls.nodup_keys
    obtain ⟨value, hvalue⟩ : ∃ value, Items.find key a.env = some value :=
      Option.isSome_iff_exists.mp (Items.mem_keys_iff.mp (hkeys ▸ hkey))
    rw [Shipped.offered, if_pos hasked, hreturns.values_eq, Option.bind_some, hvalue]
    refine (agree_applied h).env.get?_update _ (List.mem_flatMap.mpr ⟨a, ha, ?_⟩)
    exact List.mem_map.mpr ⟨(key, value), (Items.find_eq_some_iff hnodup).mp hvalue, rfl⟩
  · rw [Dict.get?_update_of_notMem _ _ hmem]
    have hnone : cls.offered server found labels request.name = none := by
      unfold Shipped.offered
      split
      · next hasked =>
        cases hplugin : cls.create server with
        | none => exact Shipped.values_of_create_none hplugin _
        | some plugin =>
          obtain ⟨a, ha, hreturns⟩ := returns_of_asked h hasked hplugin
          exact absurd ((mem_keys_all h).mpr ⟨a, ha, cls, hasked.1, hreturns, hkey⟩) hmem
      · rfl
    rw [hnone]
    rfl

/-- Nothing else is set. -/
theorem get?_plugged_of_notMem {key : String} (hkey : ∀ cls : Shipped, key ∉ cls.keys) :
    (all.foldl Resources.add .empty).env.get? key = none := by
  rw [Resources.foldl_add_env, Dict.get?_update_of_notMem]
  · rfl
  · intro hmem
    obtain ⟨a, -, cls, -, -, hkey'⟩ := (mem_keys_all h).mp hmem
    exact hkey cls hkey'

end Plugged

end Iams.Plugins

namespace Iams.Agent

open Iams.Lib Iams.Lib.Procedure
open Iams.Plugins
open Iams.Runtime
open Iams.Runtime.DockerSwarmRuntime (armRequest)
open Iams.Servicer (AgentData)

/-! ## §3 The agent -/

/-- What the server has for an agent that asks for a plugin. -/
def granted (server : Server) (found : List Shipped) (labels : Dict String String) (cls : Shipped)
    (key : String) : Option String :=
  if cls.Asked found labels then server.environ key else none

/-- What an agent reads that has been launched for a request: `image` are the
variables of its image, and `environ` those of its process. -/
structure Launched (rt : DockerSwarmRuntime) (server : Server) (found : List Shipped)
    (labels : Dict String String) (request : AgentData) (image environ : Environ) : Prop where
  /-- The agent is told its name and the server, and finds the settings of
  the request. -/
  servicer : Servicer.init environ = match rt.servername with
    | some service => .ok {
        address := if request.address ≠ "" then some request.address else image "IAMS_ADDRESS"
        agent := request.name
        config := image "IAMS_CONFIG"
        port := if request.port ≠ 0 then some (toString request.port.toNat) else image "IAMS_PORT"
        service
        namePrefix := Servicer.splitName request.name ++ "_" }
    | none => .error ⟨"Must define IAMS_SERVICE in environment"⟩
  /-- A variable of a plugin is as the plugin sets it, if the image asks for
  the plugin and the server has it. -/
  plugins : ∀ cls : Shipped, ∀ key ∈ cls.keys, environ key =
    ((cls.offered server found labels request.name).bind (Items.find key)).or (image key)
  others : ∀ key, key ∉ ["IAMS_ADDRESS", "IAMS_PORT", "IAMS_AGENT", "IAMS_SERVICE"] →
    (∀ cls : Shipped, key ∉ cls.keys) → environ key = image key
  mqtt : mqtt environ = match granted server found labels .mqtt "MQTT_HOST" with
    | some host => some (host, some ("agents/" ++ afterUnderscore request.name))
    | none => mqtt image
  zeebe : zeebe environ = match granted server found labels .zeebe "ZEEBE_HOST" with
    | some host => some (host, some (afterUnderscore request.name))
    | none => zeebe image
  fluentd : fluentd environ = match granted server found labels .fluentd "FLUENTD_HOST" with
    | some host => (truthy (some host)).map fun host =>
        (host, "iams.agent." ++ afterUnderscore request.name)
    | none => fluentd image
  influx : influx environ =
    (if Shipped.influxdb.Asked found labels then influx server.environ else none).or (influx image)
  sentry : sentry environ = match granted server found labels .sentry "SENTRY_DSN" with
    | some dsn => (truthy (some dsn)).map fun dsn => (dsn, some request.name)
    | none => (sentry image).map fun settings => (settings.1, some request.name)

section Environment

variable {rt : DockerSwarmRuntime} {server : Server} {found : List Shipped}
  {labels : Dict String String} {request : AgentData} {res : Resources} {image : Environ}

/-- What is not the runtime's own is as the plugins have it. -/
theorem environment_of_notMem {env : Dict String EnvValue} {key : String}
    (hkey : key ∉ ["IAMS_ADDRESS", "IAMS_PORT", "IAMS_AGENT", "IAMS_SERVICE"]) :
    (rt.environment request env).get? key = env.get? key := by
  simp only [List.mem_cons, List.not_mem_nil, or_false, not_or] at hkey
  obtain ⟨haddress, hport, hagent, hservice⟩ := hkey
  unfold DockerSwarmRuntime.environment
  dsimp only
  rw [Dict.get?_set_of_ne _ _ hservice, Dict.get?_set_of_ne _ _ hagent]
  split
  · rw [Dict.get?_set_of_ne _ _ hport]
    split
    · rw [Dict.get?_set_of_ne _ _ haddress]
    · rfl
  · split
    · rw [Dict.get?_set_of_ne _ _ haddress]
    · rfl

theorem environment_service {env : Dict String EnvValue} :
    (rt.environment request env).get? "IAMS_SERVICE" =
      some (match rt.servername with
        | some name => .str name
        | none => .none) :=
  Dict.get?_set_self _ _ _

theorem environment_port {env : Dict String EnvValue} :
    (rt.environment request env).get? "IAMS_PORT" =
      if request.port ≠ 0 then some (.int request.port.toNat) else env.get? "IAMS_PORT" := by
  unfold DockerSwarmRuntime.environment
  dsimp only
  rw [Dict.get?_set_of_ne _ _ (by decide), Dict.get?_set_of_ne _ _ (by decide)]
  split
  · rw [Dict.get?_set_self]
  · split
    · rw [Dict.get?_set_of_ne _ _ (by decide)]
    · rfl

theorem environment_address {env : Dict String EnvValue} :
    (rt.environment request env).get? "IAMS_ADDRESS" =
      if request.address ≠ "" then some (.str request.address) else env.get? "IAMS_ADDRESS" := by
  unfold DockerSwarmRuntime.environment
  dsimp only
  rw [Dict.get?_set_of_ne _ _ (by decide), Dict.get?_set_of_ne _ _ (by decide)]
  split
  · rw [Dict.get?_set_of_ne _ _ (by decide)]
    split
    · rw [Dict.get?_set_self]
    · rfl
  · split
    · rw [Dict.get?_set_self]
    · rfl

end Environment

section Launch

variable {rt : DockerSwarmRuntime} {server : Server} {found : List Shipped}
  {labels : Dict String String} {request : AgentData} {res : Resources}
  (hplugins : rt.plugins = server.getPlugins found)
  (hres : rt.resources request labels = .ok res)

include hplugins hres

/-- The environment of a service, with what its plugins have left. -/
theorem exists_plugged : ∃ all, (applied (server.getPlugins found) labels).mapM (called request) =
    .ok all ∧ res.env = rt.environment request (all.foldl Resources.add .empty).env := by
  obtain ⟨plugged, secrets, certificate, hplugged, -, -, rfl⟩ :=
    DockerSwarmRuntime.resources_eq_ok.mp hres
  rw [foldlM_apply, Resources.foldlM_use, hplugins] at hplugged
  obtain ⟨all, hall, rfl⟩ := hplugged
  exact ⟨all, hall, rfl⟩

/-- No variable has an equals sign in its name. -/
theorem equals_not_mem : ∀ key ∈ res.env.items.map Prod.fst, '=' ∉ key.toList := by
  intro key hkey hequals
  obtain ⟨all, hall, henv⟩ := exists_plugged hplugins hres
  have hown : key ∉ ["IAMS_ADDRESS", "IAMS_PORT", "IAMS_AGENT", "IAMS_SERVICE"] := by
    have hfree : ∀ own ∈ ["IAMS_ADDRESS", "IAMS_PORT", "IAMS_AGENT", "IAMS_SERVICE"],
        '=' ∉ own.toList := by decide
    exact fun hmem => hfree key hmem hequals
  rw [Dict.mem_keys_iff, henv, environment_of_notMem hown, get?_plugged_of_notMem hall
    fun cls hmem => cls.equals_not_mem_keys key hmem hequals] at hkey
  cases hkey

/-- What a process of the service sees. -/
theorem environ_eq (image : Environ) (key : String) :
    containerEnviron image (formatItems res.env) key =
      ((res.env.get? key).map text).getD (image key) :=
  containerEnviron_formatItems (equals_not_mem hplugins hres) image key

theorem environ_of_mem (image : Environ) {cls : Shipped} {key : String} (hkey : key ∈ cls.keys) :
    containerEnviron image (formatItems res.env) key =
      ((cls.offered server found labels request.name).bind (Items.find key)).or (image key) := by
  obtain ⟨all, hall, henv⟩ := exists_plugged hplugins hres
  rw [environ_eq hplugins hres, henv, environment_of_notMem (cls.keys_ne_own key hkey),
    get?_plugged hall hkey]
  cases (cls.offered server found labels request.name).bind (Items.find key) <;> rfl

theorem environ_of_notMem (image : Environ) {key : String}
    (hown : key ∉ ["IAMS_ADDRESS", "IAMS_PORT", "IAMS_AGENT", "IAMS_SERVICE"])
    (hkey : ∀ cls : Shipped, key ∉ cls.keys) :
    containerEnviron image (formatItems res.env) key = image key := by
  obtain ⟨all, hall, henv⟩ := exists_plugged hplugins hres
  rw [environ_eq hplugins hres, henv, environment_of_notMem hown, get?_plugged_of_notMem hall hkey]
  rfl

/-- The variables of the runtime. -/
theorem init_containerEnviron (image : Environ) :
    Servicer.init (containerEnviron image (formatItems res.env)) = match rt.servername with
      | some service => .ok {
          address := if request.address ≠ "" then some request.address else image "IAMS_ADDRESS"
          agent := request.name
          config := image "IAMS_CONFIG"
          port := if request.port ≠ 0 then some (toString request.port.toNat) else image "IAMS_PORT"
          service
          namePrefix := Servicer.splitName request.name ++ "_" }
      | none => .error ⟨"Must define IAMS_SERVICE in environment"⟩ := by
  obtain ⟨all, hall, henv⟩ := exists_plugged hplugins hres
  have hnone {key : String} (hkey : ∀ cls : Shipped, key ∉ cls.keys) :=
    get?_plugged_of_notMem hall hkey
  have hagent : containerEnviron image (formatItems res.env) "IAMS_AGENT" = some request.name := by
    rw [environ_eq hplugins hres, henv, rt.environment_agent]
    rfl
  have hservice : containerEnviron image (formatItems res.env) "IAMS_SERVICE" = rt.servername := by
    rw [environ_eq hplugins hres, henv, environment_service]
    cases rt.servername <;> rfl
  have haddress : containerEnviron image (formatItems res.env) "IAMS_ADDRESS" =
      if request.address ≠ "" then some request.address else image "IAMS_ADDRESS" := by
    rw [environ_eq hplugins hres, henv, environment_address,
      hnone fun cls => by cases cls <;> decide]
    split <;> rfl
  have hport : containerEnviron image (formatItems res.env) "IAMS_PORT" =
      if request.port ≠ 0 then some (toString request.port.toNat) else image "IAMS_PORT" := by
    rw [environ_eq hplugins hres, henv, environment_port, hnone fun cls => by cases cls <;> decide]
    split <;> rfl
  have hconfig : containerEnviron image (formatItems res.env) "IAMS_CONFIG" =
      image "IAMS_CONFIG" :=
    environ_of_notMem hplugins hres image (by decide) fun cls => by cases cls <;> decide
  unfold Servicer.init
  rw [hagent, hservice, haddress, hport, hconfig]
  cases rt.servername <;> rfl

omit hplugins hres in
/-- The tag of the plugin is never empty. -/
theorem truthy_tag (name : String) : truthy (some ("iams.agent." ++ name)) =
    some ("iams.agent." ++ name) := by
  refine Option.filter_some_pos (decide_eq_true fun h => ?_)
  have hlist := congrArg String.toList h
  rw [String.toList_append] at hlist
  cases hlist

theorem launched_of_resources (image : Environ) :
    Launched rt server found labels request image
      (containerEnviron image (formatItems res.env)) := by
  have hplugin (cls : Shipped) (key : String) (hkey : key ∈ cls.keys) :=
    environ_of_mem hplugins hres image hkey
  have hagent : containerEnviron image (formatItems res.env) "IAMS_AGENT" = some request.name := by
    obtain ⟨all, hall, henv⟩ := exists_plugged hplugins hres
    rw [environ_eq hplugins hres, henv, rt.environment_agent]
    rfl
  refine ⟨init_containerEnviron hplugins hres image, hplugin,
    fun key => environ_of_notMem hplugins hres image, ?_, ?_, ?_, ?_, ?_⟩
  · rw [mqtt, hplugin .mqtt _ (by decide), hplugin .mqtt _ (by decide), granted, Shipped.offered]
    by_cases hasked : Shipped.mqtt.Asked found labels
    · cases hhost : server.environ "MQTT_HOST" <;>
        simp [hasked, hhost, Shipped.values, Items.find, mqtt]
    · simp [hasked, mqtt]
  · rw [zeebe, hplugin .zeebe _ (by decide), hplugin .zeebe _ (by decide), granted,
      Shipped.offered]
    by_cases hasked : Shipped.zeebe.Asked found labels
    · cases hhost : server.environ "ZEEBE_HOST" <;>
        simp [hasked, hhost, Shipped.values, Items.find, zeebe]
    · simp [hasked, zeebe]
  · rw [fluentd, hplugin .fluentd _ (by decide), hplugin .fluentd _ (by decide), granted,
      Shipped.offered]
    by_cases hasked : Shipped.fluentd.Asked found labels
    · cases hhost : server.environ "FLUENTD_HOST" with
      | none => simp [hasked, hhost, Shipped.values, fluentd]
      | some host =>
        cases hset : truthy (some host) <;>
          simp [hasked, hhost, hset, Shipped.values, Items.find, truthy_tag]
    · simp [hasked, fluentd]
  · rw [influx, hplugin .influxdb _ (by decide), hplugin .influxdb _ (by decide),
      hplugin .influxdb _ (by decide), hplugin .influxdb _ (by decide), Shipped.offered]
    by_cases hasked : Shipped.influxdb.Asked found labels
    · cases hbucket : server.environ "INFLUX_BUCKET" <;>
        cases hhost : server.environ "INFLUX_HOST" <;>
        cases horg : server.environ "INFLUX_ORG" <;>
        cases htoken : server.environ "INFLUX_TOKEN" <;>
        simp [hasked, hbucket, hhost, horg, htoken, Shipped.values, Items.find, influx]
    · simp [hasked, influx]
  · rw [sentry, hagent, hplugin .sentry _ (by decide), granted, Shipped.offered]
    by_cases hasked : Shipped.sentry.Asked found labels
    · cases hdsn : server.environ "SENTRY_DSN" <;>
        simp [hasked, hdsn, Shipped.values, Items.find, sentry, Function.comp_def]
    · simp [hasked, sentry, Function.comp_def]

end Launch

/-- An agent whose service has been submitted finds its settings, whatever
the image sets. -/
theorem launched {rt : DockerSwarmRuntime} {server : Server} {found : List Shipped}
    (hplugins : rt.plugins = server.getPlugins found) {request result : AgentData}
    {create update skipLabelTest : Bool} {created : Option Bool} {c c' : Cluster}
    (h : exec (rt.updateAgent request create update skipLabelTest) c =
      (.ok (result, created), c')) :
    ∃ labels spec env, rt.docker.image (request.image ++ ":" ++ request.version) = .ok labels ∧
      submitted c' = some spec ∧ spec.env = some env ∧
      ∀ image, Launched rt server found labels request image (containerEnviron image env) := by
  obtain ⟨labels, himage, res, spec, hres, hsubmitted, henv, -⟩ :=
    DockerSwarmRuntime.updateAgent_submits h
  exact ⟨labels, spec, _, himage, hsubmitted, henv, launched_of_resources hplugins hres⟩

/-- A runtime with two plugins, whose images ask for both of them. -/
def armRuntime : DockerSwarmRuntime :=
  { loaded [.mqtt, .sentry] with
    docker := { bare.docker with
      image := fun _ => .ok (usingBoth.set "iams.services.agent" "") } }

/-- A cluster with the certificate of the authority. -/
def certified : Cluster := { secrets := [⟨0, "cloud_ca.crt", .empty, []⟩], nextId := 1 }

/-- The agent that has been created finds the broker. -/
theorem launched_arm :
    ∃ spec env, submitted (exec (armRuntime.updateAgent armRequest true false false) certified).2 =
        some spec ∧ spec.env = some env ∧
      Servicer.init (containerEnviron (fun _ => none) env) = .ok {
        address := none, agent := "prod_arm", config := none, port := some "8080"
        service := "tasks.iams", namePrefix := "prod_" } ∧
      mqtt (containerEnviron (fun _ => none) env) = some ("broker", some "agents/arm") ∧
      zeebe (containerEnviron (fun _ => none) env) = none := by
  have hcall : exec (armRuntime.updateAgent armRequest true false false) certified =
      (.ok ({ armRequest with preferences := ["node.labels.worker"] }, some true),
        (exec (armRuntime.updateAgent armRequest true false false) certified).2) :=
    Prod.ext (by decide) rfl
  have hplugins : armRuntime.plugins = hosting.getPlugins [.mqtt, .sentry] := rfl
  obtain ⟨labels, spec, env, himage, hsubmitted, henv, hlaunched⟩ := launched hplugins hcall
  cases himage
  have harm := hlaunched fun _ => none
  refine ⟨spec, env, hsubmitted, henv, harm.servicer, ?_, ?_⟩
  · rw [harm.mqtt]
    decide
  · rw [harm.zeebe]
    decide

end Iams.Agent
