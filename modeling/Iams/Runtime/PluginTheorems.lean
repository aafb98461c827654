/-
Iams.Runtime.PluginTheorems — which plugins an agent gets, and which are
taken back.

The loop of `update_agent` applies the plugins whose label is among the
labels of the image. `get_agent_plugins` selects them once more, and there
a plugin without a label belongs to every image. `symmetric_iff` says when
the two selections are the same.

§1 the loop of `update_agent`, §2 `get_agent_plugins` and
`delete_agent_plugins`, §3 the result.

No `sorry`, no `axiom`, no `native_decide`.
-/
import Iams.Runtime.LookupTheorems

namespace Iams.Runtime

open Iams.Lib Iams.Lib.Procedure
open Iams.Servicer (AgentData)

/-! ## §1 Applying -/

/-- What a plugin returns is added to what there is. -/
def Resources.add (res : Resources) (applied : Applied) : Resources where
  labels := res.labels.update applied.labels
  env := res.env.update (applied.env.map fun item => (item.1, .str item.2))
  networks := applied.networks.foldl addNetwork res.networks
  secrets := res.secrets.update applied.secrets
  generated := res.generated ++ applied.generated

/-- A plugin is called with the argument in its label. -/
def Resources.use (request : AgentData) (res : Resources) (call : Plugin × String) :
    Except Error Resources :=
  res.add <$> call.1.call request.name request.image request.version call.2

/-- The plugins that `update_agent` applies to an image with these labels,
with their arguments. -/
def applied (plugins : List Plugin) (labels : Dict String String) : List (Plugin × String) :=
  plugins.filterMap fun plugin => (plugin.label.bind labels.get?).map fun arg => (plugin, arg)

/-- The loop calls them one after the other, and no other plugin. -/
theorem foldlM_apply (request : AgentData) (labels : Dict String String) (plugins : List Plugin)
    (res : Resources) :
    plugins.foldlM (Resources.apply request labels) res =
      (applied plugins labels).foldlM (Resources.use request) res := by
  induction plugins generalizing res with
  | nil => rfl
  | cons plugin rest ih =>
    rw [List.foldlM_cons, Resources.apply, applied, List.filterMap_cons]
    cases plugin.label.bind labels.get? with
    | none => exact ih res
    | some arg =>
      rw [Option.map_some, List.foldlM_cons]
      change (Resources.use request res (plugin, arg) >>= _) = _
      exact bind_congr fun res => ih res

/-! ## §2 Taking back -/

/-- The plugins that `get_agent_plugins` yields for an image with these
labels. -/
def yielded (plugins : List Plugin) (labels : Dict String String) :
    List (Plugin × Option String) :=
  plugins.filterMap fun plugin =>
    match plugin.label with
    | none => some (plugin, none)
    | some label => (labels.get? label).map fun arg => (plugin, some arg)

/-- The image of a service has these labels. -/
def Labelled (docker : Docker) (service : Service) (labels : Dict String String) : Prop :=
  ∃ image version, unpackPair (getImageVersion service) = .ok (image, version) ∧
    docker.image (image ++ ":" ++ version) = .ok labels

namespace DockerSwarmRuntime

variable {rt : DockerSwarmRuntime} {service : Service} {labels : Dict String String} {c : Cluster}

theorem exec_getAgentPlugins (hlabels : Labelled rt.docker service labels)
    (hfault : rt.docker.fault c.requests.length = none) :
    ∃ c', exec (rt.getAgentPlugins (.service service)) c =
      (.ok (yielded rt.plugins labels), c') := by
  obtain ⟨image, version, hpair, himage⟩ := hlabels
  refine ⟨{ c with requests := c.requests ++ [.getImage (image ++ ":" ++ version)] }, ?_⟩
  unfold getAgentPlugins getServiceAndName Docker.getImage
  simp only [exec_bind, exec_pure, exec_liftExcept, hpair, Docker.exec_request, hfault, himage]
  rfl

/-! ## §3 Symmetry -/

variable (rt service labels c)

/-- `get_agent_plugins` yields the plugins that `update_agent` applies to
the image of this service, with the same arguments, and
`delete_agent_plugins` removes them. -/
structure Symmetric : Prop where
  applies : ∀ request res, rt.plugins.foldlM (Resources.apply request labels) res =
    (applied rt.plugins labels).foldlM (Resources.use request) res
  yields : (exec (rt.getAgentPlugins (.service service)) c).1 =
    .ok ((applied rt.plugins labels).map fun call => (call.1, some call.2))
  removes : ∃ c', exec (rt.deleteAgentPlugins (.service service)) c =
    exec ((applied rt.plugins labels).forM fun call => removePlugin call.1) c'

end DockerSwarmRuntime

/-- A plugin without a label is the only difference. -/
theorem yielded_eq_iff {plugins : List Plugin} {labels : Dict String String} :
    yielded plugins labels = (applied plugins labels).map (fun call => (call.1, some call.2)) ↔
      ∀ plugin ∈ plugins, plugin.label ≠ none := by
  constructor
  · intro h plugin hplugin hlabel
    have hmem : (plugin, none) ∈ yielded plugins labels :=
      List.mem_filterMap.mpr ⟨plugin, hplugin, by rw [hlabel]⟩
    rw [h] at hmem
    obtain ⟨call, -, hcall⟩ := List.mem_map.mp hmem
    cases (Prod.mk.inj hcall).2
  · intro h
    rw [yielded, applied, List.map_filterMap]
    refine List.filterMap_congr fun plugin hplugin => ?_
    obtain ⟨label, hlabel⟩ := Option.ne_none_iff_exists'.mp (h plugin hplugin)
    simp [hlabel, Function.comp_def]

namespace DockerSwarmRuntime

variable {rt : DockerSwarmRuntime} {service : Service} {labels : Dict String String} {c : Cluster}

/-- Plugins are applied and removed symmetrically if and only if every
registered plugin has a label. -/
theorem symmetric_iff (hlabels : Labelled rt.docker service labels)
    (hfault : rt.docker.fault c.requests.length = none) :
    rt.Symmetric service labels c ↔ ∀ plugin ∈ rt.plugins, plugin.label ≠ none := by
  obtain ⟨c', hexec⟩ := exec_getAgentPlugins hlabels hfault
  have hiff : yielded rt.plugins labels = _ ↔ _ := yielded_eq_iff
  rw [← hiff]
  constructor
  · intro h
    have hyields := h.yields
    rw [hexec] at hyields
    exact Except.ok.inj hyields
  · intro h
    refine ⟨fun request => foldlM_apply request labels rt.plugins, by rw [hexec, h], c', ?_⟩
    rw [deleteAgentPlugins, exec_bind_of_ok hexec, h, List.forM_eq_forM, List.forM_eq_forM,
      List.forM_map]

/-- The labels of an image that asks for two plugins. -/
def askingBoth : Dict String String :=
  ((Dict.empty.set "iams.services.agent" "").set "iams.plugins.mqtt" "a").set
    "iams.plugins.sentry" "b"

/-- `bare` with plugins that set a variable, for images with these
labels. -/
def plugged (plugins : List (Option String)) : DockerSwarmRuntime :=
  { bare with
    docker := { bare.docker with image := fun _ => .ok askingBoth }
    plugins := plugins.map fun label =>
      ⟨label, fun _ _ _ arg => .ok ⟨[("KEY", arg)], [], [], [], []⟩, fun _ => none⟩ }

/-- The two plugins that the image asks for are applied and removed, the
third one is neither; with a plugin that has no label they differ. -/
theorem symmetric_iff_labelled :
    (applied (plugged [some "iams.plugins.mqtt", some "iams.plugins.zeebe",
      some "iams.plugins.sentry"]).plugins askingBoth).map Prod.snd = ["a", "b"] ∧
    (plugged [some "iams.plugins.mqtt", some "iams.plugins.zeebe",
      some "iams.plugins.sentry"]).Symmetric (bareService 0 "prod_arm") askingBoth {} ∧
    ¬ (plugged [some "iams.plugins.mqtt", none]).Symmetric (bareService 0 "prod_arm")
      askingBoth {} :=
  ⟨by decide, (symmetric_iff ⟨"arm", "1", by decide, rfl⟩ rfl).mpr (by simp [plugged]),
    fun h => absurd ((symmetric_iff ⟨"arm", "1", by decide, rfl⟩ rfl).mp h) (by simp [plugged])⟩

/-- A plugin that applies to every image is never applied, but removed. -/
theorem unlabelled_not_applied :
    applied (plugged [none]).plugins askingBoth = [] ∧
      ¬ ∀ (rt : DockerSwarmRuntime) (service : Service) (labels : Dict String String) (c : Cluster),
        Labelled rt.docker service labels → (∀ n, rt.docker.fault n = none) →
          rt.Symmetric service labels c := by
  refine ⟨rfl, fun h => ?_⟩
  have hlabels : Labelled (plugged [none]).docker (bareService 0 "prod_arm") askingBoth :=
    ⟨"arm", "1", by decide, rfl⟩
  have hfault : (plugged [none]).docker.fault ({} : Cluster).requests.length = none := rfl
  have hyields := (h (plugged [none]) _ _ {} hlabels fun _ => rfl).yields
  obtain ⟨c', hexec⟩ := exec_getAgentPlugins hlabels hfault
  rw [hexec] at hyields
  exact absurd (congrArg List.length (Except.ok.inj hyields)) (by decide)

end DockerSwarmRuntime

end Iams.Runtime
