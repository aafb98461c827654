/-
Iams.Plugins.OrderTheorems — the order in which the plugins are loaded.

The server loads the plugins in the order in which the operating system
lists their directories. `update_agent` applies them in that order, and a
later one overrides what an earlier one has set. The plugins of the package
do not override each other: each has variables of its own, and none of them
sets a label or a secret. So an agent gets the same environment, labels,
networks and secrets in every order (`resources_perm`), and in no order is
it refused where it gets them in another one.

§1 what several plugins contribute, §2 the plugins of the package, §3 the
result.

No `sorry`, no `axiom`, no `native_decide`.
-/
import Iams.Ca.Cfssl
import Iams.Lib.Fallible
import Iams.Lib.Merge
import Iams.Plugins.Shipped
import Iams.Runtime.PluginTheorems

namespace Iams.Runtime

open Iams.Lib Iams.Lib.Fallible
open Iams.Servicer (AgentData)

/-! ## §1 Contributions -/

/-- The variables of a plugin, as values of an environment. -/
def Applied.variables (a : Applied) : List (String × EnvValue) :=
  a.env.map fun item => (item.1, .str item.2)

/-- What a plugin returns for a request. -/
def called (request : AgentData) (call : Plugin × String) : Except Error Applied :=
  call.1.call request.name request.image request.version call.2

namespace Resources

variable {request : AgentData} {res out : Resources} {all all' : List Applied}

theorem use_eq (call : Plugin × String) :
    Resources.use request res call = res.add <$> called request call := rfl

/-- The calls return, and what they return is added one after the other. -/
theorem foldlM_use {calls : List (Plugin × String)} :
    calls.foldlM (Resources.use request) res = .ok out ↔
      ∃ all, calls.mapM (called request) = .ok all ∧ out = all.foldl Resources.add res := by
  induction calls generalizing res with
  | nil =>
    constructor
    · intro h
      cases h
      exact ⟨[], rfl, rfl⟩
    · rintro ⟨all, h, rfl⟩
      cases h
      rfl
  | cons call rest ih =>
    rw [List.foldlM_cons, bind_eq_ok]
    constructor
    · rintro ⟨res', hcall, hrest⟩
      rw [use_eq] at hcall
      rcases happlied : called request call with e | a
      · simp [happlied] at hcall
      · obtain rfl : res.add a = res' := by simpa [happlied] using hcall
        obtain ⟨all, hall, rfl⟩ := ih.mp hrest
        exact ⟨a :: all, mapM_cons_eq_ok.mpr ⟨a, all, happlied, hall, rfl⟩, rfl⟩
    · rintro ⟨_, hall, rfl⟩
      obtain ⟨a, rest', hcall, hrest, rfl⟩ := mapM_cons_eq_ok.mp hall
      exact ⟨res.add a, by rw [use_eq, hcall]; rfl, ih.mpr ⟨rest', hrest, rfl⟩⟩

theorem foldl_add_labels :
    (all.foldl add res).labels = res.labels.update (all.flatMap Applied.labels) := by
  rw [← Dict.foldl_update]
  exact (List.foldl_hom labels fun _ _ => rfl).symm

theorem foldl_add_env :
    (all.foldl add res).env = res.env.update (all.flatMap Applied.variables) := by
  rw [← Dict.foldl_update]
  exact (List.foldl_hom env fun _ _ => rfl).symm

theorem foldl_add_secrets :
    (all.foldl add res).secrets = res.secrets.update (all.flatMap Applied.secrets) := by
  rw [← Dict.foldl_update]
  exact (List.foldl_hom secrets fun _ _ => rfl).symm

theorem foldl_add_generated :
    (all.foldl add res).generated = res.generated ++ all.flatMap Applied.generated := by
  induction all generalizing res with
  | nil => exact (List.append_nil _).symm
  | cons a rest ih =>
    rw [List.foldl_cons, ih, List.flatMap_cons, ← List.append_assoc]
    rfl

theorem mem_addNetwork {networks : List String} {network n : String} :
    n ∈ addNetwork networks network ↔ n ∈ networks ∨ n = network := by
  unfold addNetwork
  split
  · next hmem => exact ⟨.inl, fun h => h.elim id fun heq => heq ▸ hmem⟩
  · rw [List.mem_append, List.mem_singleton]

theorem mem_foldl_addNetwork {networks added : List String} {n : String} :
    n ∈ added.foldl addNetwork networks ↔ n ∈ networks ∨ n ∈ added := by
  induction added generalizing networks with
  | nil => simp
  | cons network rest ih => rw [List.foldl_cons, ih, mem_addNetwork, List.mem_cons, or_assoc]

theorem mem_foldl_add_networks {n : String} :
    n ∈ (all.foldl add res).networks ↔ n ∈ res.networks ∨ ∃ a ∈ all, n ∈ a.networks := by
  induction all generalizing res with
  | nil => simp
  | cons a rest ih =>
    rw [List.foldl_cons, ih, List.exists_mem_cons_iff, ← or_assoc]
    exact or_congr_left mem_foldl_addNetwork

/-- An agent gets the same from both, in another order at most. -/
structure Same (r r' : Resources) : Prop where
  labels : ∀ key, r.labels.get? key = r'.labels.get? key
  env : ∀ key, r.env.get? key = r'.env.get? key
  networks : ∀ network, network ∈ r.networks ↔ network ∈ r'.networks
  secrets : ∀ key, r.secrets.get? key = r'.secrets.get? key
  generated : r.generated.Perm r'.generated

/-- No two plugins give a label, a variable or a secret two values. -/
structure Agree (all : List Applied) : Prop where
  labels : Consistent (all.flatMap Applied.labels)
  env : Consistent (all.flatMap Applied.variables)
  secrets : Consistent (all.flatMap Applied.secrets)

/-- The order of contributions that agree does not count. -/
theorem same_of_perm (hagree : Agree all) (hperm : all.Perm all') :
    Same (all.foldl add res) (all'.foldl add res) where
  labels key := by
    rw [foldl_add_labels, foldl_add_labels]
    exact hagree.labels.get?_update_perm (hperm.flatMap_right _) _ key
  env key := by
    rw [foldl_add_env, foldl_add_env]
    exact hagree.env.get?_update_perm (hperm.flatMap_right _) _ key
  networks network := by
    rw [mem_foldl_add_networks, mem_foldl_add_networks]
    exact or_congr_right (exists_congr fun a => and_congr_left fun _ => hperm.mem_iff)
  secrets key := by
    rw [foldl_add_secrets, foldl_add_secrets]
    exact hagree.secrets.get?_update_perm (hperm.flatMap_right _) _ key
  generated := by
    rw [foldl_add_generated, foldl_add_generated]
    exact (hperm.flatMap_right _).append_left _

end Resources

namespace DockerSwarmRuntime

/-- What is added to an environment does not depend on it. -/
theorem environment_congr (rt : DockerSwarmRuntime) {request : AgentData}
    {env env' : Dict String EnvValue} (h : ∀ key, env.get? key = env'.get? key) (key : String) :
    (rt.environment request env).get? key = (rt.environment request env').get? key := by
  unfold environment
  dsimp only
  split <;> split <;> simp only [Dict.get?_set, h]

variable {rt : DockerSwarmRuntime} {request : AgentData} {labels : Dict String String}
  {res : Resources}

/-- What is worked out for a request, from its parts. -/
theorem resources_eq_ok : rt.resources request labels = .ok res ↔
    ∃ plugged secrets certificate,
      rt.plugins.foldlM (Resources.apply request labels) .empty = .ok plugged ∧
      rt.ca.getCaSecret plugged.secrets rt.stackNamespace = .ok secrets ∧
      rt.certificateSecrets request = .ok certificate ∧
      res = {
        labels := rt.serviceLabels request plugged.labels
        env := rt.environment request plugged.env
        networks := match rt.network with
          | some network => addNetwork plugged.networks network
          | none => plugged.networks
        secrets := secrets
        generated := plugged.generated ++ certificate } := by
  unfold resources
  constructor
  · intro h
    obtain ⟨plugged, hplugged, h⟩ := bind_eq_ok.mp h
    obtain ⟨secrets, hsecrets, h⟩ := bind_eq_ok.mp h
    obtain ⟨certificate, hcertificate, h⟩ := bind_eq_ok.mp h
    cases h
    exact ⟨plugged, secrets, certificate, hplugged, hsecrets, hcertificate, rfl⟩
  · rintro ⟨plugged, secrets, certificate, hplugged, hsecrets, hcertificate, rfl⟩
    rw [hplugged, ok_bind, hsecrets, ok_bind, hcertificate, ok_bind]
    rfl

end DockerSwarmRuntime

end Iams.Runtime

namespace Iams.Plugins

open Iams.Lib Iams.Lib.Fallible
open Iams.Runtime
open Iams.Servicer (AgentData)

/-! ## §2 The plugins of the package -/

variable {server : Server} {found found' : List Shipped} {labels : Dict String String}

namespace Shipped

/-- The variables that a plugin sets. -/
def keys : Shipped → List String
  | .arango => ["ARANGO_HOSTS", "ARANGO_DATABASE", "ARANGO_USERNAME", "ARANGO_PASSWORD"]
  | .envoy => []
  | .fluentd => ["FLUENTD_HOST", "FLUENTD_TAG"]
  | .influxdb => ["INFLUX_HOST", "INFLUX_BUCKET", "INFLUX_ORG", "INFLUX_TOKEN"]
  | .mqtt => ["MQTT_HOST", "MQTT_TOPIC"]
  | .sentry => ["SENTRY_DSN"]
  | .zeebe => ["ZEEBE_HOST", "ZEEBE_NAME"]

theorem nodup_keys (cls : Shipped) : cls.keys.Nodup := by
  cases cls <;> decide

/-- Each plugin has variables of its own. -/
theorem keys_apart {cls cls' : Shipped} (h : cls ≠ cls') : ∀ key ∈ cls.keys, key ∉ cls'.keys := by
  cases cls <;> cases cls' <;> first | exact absurd rfl h | decide

/-- A plugin sets its variables, and nothing else. -/
structure Sets (cls : Shipped) (plugin : Plugin) : Prop where
  label : plugin.label = some cls.label
  call : ∀ name image version config a, plugin.call name image version config = .ok a →
    a.env.map Prod.fst = cls.keys ∧ a.labels = [] ∧ a.secrets = [] ∧ a.generated = []

end Shipped

/-- What `__call__` puts together. -/
theorem Interface.call_eq_ok {κ : Type} {plugin : Interface κ} {name image version config : String}
    {a : Applied} : plugin.call name image version config = .ok a ↔
      ∃ kwargs, plugin.getKwargs name image version config = .ok kwargs ∧
        plugin.getEnv kwargs = .ok a.env ∧ plugin.getLabels kwargs = .ok a.labels ∧
        plugin.getNetworks kwargs = .ok a.networks ∧
        plugin.getConfiguredSecrets kwargs = .ok a.secrets ∧
        plugin.getGeneratedSecrets kwargs = .ok a.generated := by
  unfold Interface.call
  constructor
  · intro h
    obtain ⟨kwargs, hkwargs, h⟩ := bind_eq_ok.mp h
    obtain ⟨env, henv, h⟩ := bind_eq_ok.mp h
    obtain ⟨labels, hlabels, h⟩ := bind_eq_ok.mp h
    obtain ⟨networks, hnetworks, h⟩ := bind_eq_ok.mp h
    obtain ⟨secrets, hsecrets, h⟩ := bind_eq_ok.mp h
    obtain ⟨generated, hgenerated, h⟩ := bind_eq_ok.mp h
    cases h
    exact ⟨kwargs, hkwargs, henv, hlabels, hnetworks, hsecrets, hgenerated⟩
  · rintro ⟨kwargs, hkwargs, henv, hlabels, hnetworks, hsecrets, hgenerated⟩
    rw [hkwargs, ok_bind, henv, ok_bind, hlabels, ok_bind, hnetworks, ok_bind, hsecrets, ok_bind,
      hgenerated, ok_bind]
    rfl

/-- A plugin that overrides `get_env`, but neither labels nor secrets. -/
theorem Interface.sets {κ : Type} {plugin : Interface κ} {cls : Shipped}
    (hlabel : plugin.label = some cls.label)
    (henv : ∀ kwargs env, plugin.getEnv kwargs = .ok env → env.map Prod.fst = cls.keys)
    (hlabels : plugin.getLabels = fun _ => .ok [])
    (hsecrets : plugin.getConfiguredSecrets = fun _ => .ok [])
    (hgenerated : plugin.getGeneratedSecrets = fun _ => .ok []) : cls.Sets plugin.toPlugin := by
  refine ⟨hlabel, fun name image version config a ha => ?_⟩
  obtain ⟨kwargs, -, hae, hal, -, has, hag⟩ := Interface.call_eq_ok.mp ha
  rw [hlabels] at hal
  rw [hsecrets] at has
  rw [hgenerated] at hag
  exact ⟨henv kwargs _ hae, (Except.ok.inj hal).symm, (Except.ok.inj has).symm,
    (Except.ok.inj hag).symm⟩

/-- Every plugin of the package sets its variables only. -/
theorem Shipped.sets_of_create {cls : Shipped} {plugin : Plugin}
    (h : cls.create server = some plugin) : cls.Sets plugin := by
  cases cls with
  | arango =>
    cases h
    refine Interface.sets rfl (fun _ env henv => ?_) rfl rfl rfl
    obtain ⟨password, -, henv⟩ := bind_eq_ok.mp henv
    exact Except.ok.inj henv ▸ rfl
  | envoy =>
    cases h
    exact Interface.sets rfl (fun _ env henv => Except.ok.inj henv ▸ rfl) rfl rfl rfl
  | fluentd | mqtt | zeebe =>
    obtain ⟨value, -, rfl⟩ := Option.map_eq_some_iff.mp h
    exact Interface.sets rfl (fun _ env henv => Except.ok.inj henv ▸ rfl) rfl rfl rfl
  | influxdb =>
    obtain ⟨bucket, -, h⟩ := Option.bind_eq_some_iff.mp h
    obtain ⟨host, -, h⟩ := Option.bind_eq_some_iff.mp h
    obtain ⟨org, -, h⟩ := Option.bind_eq_some_iff.mp h
    obtain ⟨token, -, h⟩ := Option.bind_eq_some_iff.mp h
    cases h
    exact Interface.sets rfl (fun _ env henv => Except.ok.inj henv ▸ rfl) rfl rfl rfl
  | sentry =>
    obtain ⟨dsn, -, rfl⟩ := Option.map_eq_some_iff.mp h
    exact Interface.sets rfl (fun _ env henv => Except.ok.inj henv ▸ rfl) rfl rfl rfl

/-- The plugins that are applied to an image are those that it asks for and
that have not been skipped. -/
theorem mem_applied_getPlugins {call : Plugin × String} :
    call ∈ applied (server.getPlugins found) labels ↔
      ∃ cls ∈ found, cls.create server = some call.1 ∧ labels.get? cls.label = some call.2 := by
  rw [applied, Server.getPlugins, List.filterMap_filterMap, List.mem_filterMap]
  refine exists_congr fun cls => and_congr_right fun _ => ?_
  rw [Option.bind_eq_some_iff]
  constructor
  · rintro ⟨plugin, hplugin, hcall⟩
    obtain ⟨arg, harg, rfl⟩ := Option.map_eq_some_iff.mp hcall
    rw [(Shipped.sets_of_create hplugin).label] at harg
    exact ⟨hplugin, harg⟩
  · rintro ⟨hplugin, harg⟩
    refine ⟨call.1, hplugin, Option.map_eq_some_iff.mpr ⟨call.2, ?_, rfl⟩⟩
    rw [(Shipped.sets_of_create hplugin).label]
    exact harg

variable {request : AgentData} {all : List Applied} {a b : Applied} {cls : Shipped}

/-- What a plugin of the package returns for a request and an image with
these labels. -/
def Shipped.Returns (cls : Shipped) (server : Server) (labels : Dict String String)
    (request : AgentData) (a : Applied) : Prop :=
  ∃ plugin arg, cls.create server = some plugin ∧ labels.get? cls.label = some arg ∧
    called request (plugin, arg) = .ok a

theorem returns_of_mem
    (h : (applied (server.getPlugins found) labels).mapM (called request) = .ok all)
    (ha : a ∈ all) : ∃ cls ∈ found, cls.Returns server labels request a := by
  obtain ⟨call, hcall, hcalled⟩ := mem_of_mapM h ha
  obtain ⟨cls, hfound, hplugin, harg⟩ := mem_applied_getPlugins.mp hcall
  exact ⟨cls, hfound, call.1, call.2, hplugin, harg, hcalled⟩

namespace Shipped.Returns

theorem unique (ha : cls.Returns server labels request a)
    (hb : cls.Returns server labels request b) : a = b := by
  obtain ⟨plugin, arg, hplugin, harg, ha⟩ := ha
  obtain ⟨plugin', arg', hplugin', harg', hb⟩ := hb
  cases hplugin.symm.trans hplugin'
  cases harg.symm.trans harg'
  exact Except.ok.inj (ha.symm.trans hb)

theorem keys (h : cls.Returns server labels request a) :
    a.variables.map Prod.fst = cls.keys := by
  obtain ⟨plugin, arg, hplugin, -, hcalled⟩ := h
  rw [Applied.variables, List.map_map]
  exact ((sets_of_create hplugin).call _ _ _ _ a hcalled).1

theorem labels_eq (h : cls.Returns server labels request a) : a.labels = [] := by
  obtain ⟨plugin, arg, hplugin, -, hcalled⟩ := h
  exact ((sets_of_create hplugin).call _ _ _ _ a hcalled).2.1

theorem secrets_eq (h : cls.Returns server labels request a) : a.secrets = [] := by
  obtain ⟨plugin, arg, hplugin, -, hcalled⟩ := h
  exact ((sets_of_create hplugin).call _ _ _ _ a hcalled).2.2.1

end Shipped.Returns

/-- What they contribute agrees. -/
theorem agree_applied
    (h : (applied (server.getPlugins found) labels).mapM (called request) = .ok all) :
    Resources.Agree all := by
  refine ⟨?_, .flatMap (fun a ha => .of_nodup ?_) fun a ha b hb hne => ?_, ?_⟩
  · rw [List.flatMap_eq_nil_iff.mpr fun a ha => ?_]
    · exact .nil
    · obtain ⟨cls, -, hreturns⟩ := returns_of_mem h ha
      exact hreturns.labels_eq
  · obtain ⟨cls, -, hreturns⟩ := returns_of_mem h ha
    rw [hreturns.keys]
    exact cls.nodup_keys
  · obtain ⟨cls, -, hreturns⟩ := returns_of_mem h ha
    obtain ⟨cls', -, hreturns'⟩ := returns_of_mem h hb
    rw [hreturns.keys, hreturns'.keys]
    refine Shipped.keys_apart fun heq => hne ?_
    rw [hreturns.unique (heq ▸ hreturns')]
  · rw [List.flatMap_eq_nil_iff.mpr fun a ha => ?_]
    · exact .nil
    · obtain ⟨cls, -, hreturns⟩ := returns_of_mem h ha
      exact hreturns.secrets_eq

/-! ## §3 Another order -/

/-- In every order in which the directories are listed, an agent is given the
same. -/
theorem resources_perm {ca : Ca.CFSSL} {expire : Servicer.Bytes → Except Error String}
    {rt : DockerSwarmRuntime} (hca : rt.ca = ca.authority expire)
    (hplugins : rt.plugins = server.getPlugins found) (hperm : found.Perm found')
    {res : Resources} (h : rt.resources request labels = .ok res) :
    ∃ res', { rt with plugins := server.getPlugins found' }.resources request labels = .ok res' ∧
      Resources.Same res res' := by
  obtain ⟨plugged, secrets, certificate, hplugged, hsecrets, hcertificate, rfl⟩ :=
    DockerSwarmRuntime.resources_eq_ok.mp h
  rw [foldlM_apply, Resources.foldlM_use, hplugins] at hplugged
  obtain ⟨all, hall, rfl⟩ := hplugged
  have hcalls : (applied (server.getPlugins found) labels).Perm
      (applied (server.getPlugins found') labels) := (hperm.filterMap _).filterMap _
  obtain ⟨all', hall', hperm'⟩ := mapM_perm hcalls hall
  have hsame : Resources.Same (all.foldl Resources.add .empty)
      (all'.foldl Resources.add .empty) := Resources.same_of_perm (agree_applied hall) hperm'
  rw [hca] at hsecrets
  obtain rfl := Except.ok.inj hsecrets
  refine ⟨_, DockerSwarmRuntime.resources_eq_ok.mpr ⟨all'.foldl Resources.add .empty, _,
    certificate, ?_, by rw [hca]; rfl, hcertificate, rfl⟩, ?_⟩
  · rw [foldlM_apply, Resources.foldlM_use]
    exact ⟨all', hall', rfl⟩
  · exact {
      labels := Dict.get?_update_ext hsame.labels _
      env := rt.environment_congr hsame.env
      networks := fun network => by
        dsimp only
        split
        · rw [Resources.mem_addNetwork, Resources.mem_addNetwork, hsame.networks]
        · exact hsame.networks network
      secrets := fun key => by
        rw [Ca.CFSSL.getCaSecret, Ca.CFSSL.getCaSecret, Dict.get?_set, Dict.get?_set,
          hsame.secrets]
      generated := hsame.generated.append_right _ }

/-- A server with two services. -/
def hosting : Server where
  environ key :=
    if key = "MQTT_HOST" then some "broker"
    else if key = "SENTRY_DSN" then some "https://sentry"
    else none
  stackNamespace := "cloud"
  arangoSecret := .ok "secret"

/-- A runtime that has loaded these plugins. -/
def loaded (found : List Shipped) : DockerSwarmRuntime :=
  { bare with
    ca := (Ca.CFSSL.init none fun _ => .ok ⟨"certificate", "key"⟩).authority fun _ =>
      .ok "2030-01-01T00:00:00"
    plugins := hosting.getPlugins found }

/-- An image that uses both of the services. -/
def usingBoth : Dict String String :=
  (Dict.empty.set "iams.plugins.mqtt" "").set "iams.plugins.sentry" ""

theorem resources_perm_both :
    ∃ res res', (loaded [.mqtt, .sentry]).resources { name := "prod_arm" } usingBoth = .ok res ∧
      (loaded [.sentry, .mqtt]).resources { name := "prod_arm" } usingBoth = .ok res' ∧
      Resources.Same res res' := by
  obtain ⟨res, hres⟩ : ∃ res,
      (loaded [.mqtt, .sentry]).resources { name := "prod_arm" } usingBoth = .ok res := ⟨_, rfl⟩
  have hplugins : (loaded [.mqtt, .sentry]).plugins = hosting.getPlugins [.mqtt, .sentry] := rfl
  obtain ⟨res', hres', hsame⟩ :=
    resources_perm rfl hplugins (.swap Shipped.sentry Shipped.mqtt []) hres
  exact ⟨res, res', hres, hres', hsame⟩

end Iams.Plugins
