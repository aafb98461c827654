/-
Iams.Runtime.DeployTheorems — an `update_agent` that has returned, taken
apart.

The call has found a service and updates it, or has found none and creates
one (`updateAgent_stages`). Either way `deploy` has run to its end. `Stages`
has what each part of it has worked out, and `finish` is the last part: the
service is submitted, and after an update the old secrets and configs are
removed (`deploy_stages`).

No `sorry`, no `axiom`, no `native_decide`.
-/
import Iams.Runtime.Frames

namespace Iams.Runtime

open Iams.Lib Iams.Lib.Procedure
open Iams.Servicer (AgentData Bytes)

/-! ## Labels -/

/-- Labels that have been set are there. -/
theorem labelled_update {filters : List (String × String)} {labels : Dict String String}
    (hnodup : (filters.map Prod.fst).Nodup) : labelled filters (labels.update filters) = true := by
  refine List.all_eq_true.mpr fun f hf => ?_
  rw [labels.get?_update_of_mem hnodup hf, decide_eq_true rfl]

theorem labelled_append {filters filters' : List (String × String)}
    {labels : Dict String String} :
    labelled (filters ++ filters') labels = true ↔
      labelled filters labels = true ∧ labelled filters' labels = true := by
  rw [labelled, List.all_append, Bool.and_eq_true]
  exact Iff.rfl

namespace DockerSwarmRuntime

variable {rt : DockerSwarmRuntime} {request : AgentData} {c c' : Cluster}

theorem nodup_serviceLabels (rt : DockerSwarmRuntime) (name image : String) :
    ((rt.agentLabels name ++ [("iams.image", image)]).map Prod.fst).Nodup := by
  show ["com.docker.stack.namespace", "iams.namespace", "iams.agent", "iams.image"].Nodup
  decide

/-- A service has the labels of its agent. -/
theorem labelled_resources {imageLabels : Dict String String} {res : Resources}
    (h : rt.resources request imageLabels = .ok res) :
    labelled (rt.agentLabels request.name) res.labels = true := by
  have hlabels : ∃ labels, res.labels = rt.serviceLabels request labels := by
    simp only [resources, bind, Except.bind, pure, Except.pure] at h
    rcases hplugged : rt.plugins.foldlM (Resources.apply request imageLabels) .empty with
      e | plugged
    · simp [hplugged] at h
    rcases hsecrets : rt.ca.getCaSecret plugged.secrets rt.stackNamespace with e | secrets
    · simp [hplugged, hsecrets] at h
    rcases hcertificate : rt.certificateSecrets request with e | certificate
    · simp [hplugged, hsecrets, hcertificate] at h
    simp only [hplugged, hsecrets, hcertificate, Except.ok.injEq] at h
    exact ⟨plugged.labels, by rw [← h]⟩
  obtain ⟨labels, hlabels⟩ := hlabels
  rw [hlabels]
  exact (labelled_append.mp (labelled_update (rt.nodup_serviceLabels _ _))).1

/-! ## `deploy` -/

/-- What `deploy` works out. -/
structure Deployment where
  imageLabels : Dict String String
  resources : Resources
  generated : List Reference
  oldSecrets : List Blob
  configured : List Reference
  configs : List Reference
  oldConfigs : List Blob
  spec : ServiceSpec

/-- The parts of `deploy` one after the other, and the clusters between
them. -/
structure Stages (rt : DockerSwarmRuntime) (request : AgentData) (scale : Nat) (d : Deployment)
    (c c₁ c₂ c₃ c₄ : Cluster) : Prop where
  image : exec (rt.docker.getImage (request.image ++ ":" ++ request.version)) c =
    (.ok d.imageLabels, c₁)
  resources : rt.resources request d.imageLabels = .ok d.resources
  generated : exec (rt.setSecrets request.name d.resources.generated) c₁ =
    (.ok (d.generated, d.oldSecrets), c₂)
  configured : exec (rt.getSecrets d.resources.secrets.items) c₂ = (.ok d.configured, c₃)
  config : exec (rt.deployConfig request) c₃ = (.ok (d.configs, d.oldConfigs), c₄)
  spec_name : d.spec.name = request.name
  spec_labels : d.spec.labels = d.resources.labels
  spec_replicas : d.spec.replicas = some scale
  spec_secrets : d.spec.secrets = d.generated ++ d.configured

/-- The end of `deploy`. -/
def finish (rt : DockerSwarmRuntime) (service : Option Service) (d : Deployment) : Proc Unit :=
  match service with
  | none => rt.docker.createService d.spec
  | some service => do
    rt.docker.updateService service.id d.spec
    d.oldSecrets.forM fun secret => rt.docker.removeSecret secret.id
    d.oldConfigs.forM fun config => rt.docker.removeConfig config.id

theorem deploy_stages {service : Option Service} {scale : Nat} {skipLabelTest : Bool}
    {result : AgentData × Option Bool}
    (h : exec (rt.deploy request service scale skipLabelTest) c = (.ok result, c')) :
    ∃ d c₁ c₂ c₃ c₄, rt.Stages request scale d c c₁ c₂ c₃ c₄ ∧
      exec (rt.finish service d) c₄ = (.ok (), c') ∧ result.2 = some service.isNone ∧
      Submits request d.spec := by
  obtain ⟨imageLabels, c₁, himage, h⟩ := exec_bind_eq_ok.mp h
  dsimp only at h
  split at h
  · cases h
  obtain ⟨res, _, hres, h⟩ := exec_bind_eq_ok.mp h
  rw [exec_liftExcept] at hres
  obtain ⟨hresources, rfl⟩ := Prod.mk.inj hres
  obtain ⟨⟨generated, oldSecrets⟩, c₂, hgenerated, h⟩ := exec_bind_eq_ok.mp h
  obtain ⟨configured, c₃, hconfigured, h⟩ := exec_bind_eq_ok.mp h
  obtain ⟨⟨configs, oldConfigs⟩, c₄, hconfig, h⟩ := exec_bind_eq_ok.mp h
  have hname : (if request.preferences = [] then
      { request with preferences := ["node.labels.worker"] } else request).name
        = request.name := by
    split <;> rfl
  have hstages (spec : ServiceSpec) (hspec : spec.name = request.name)
      (hlabels : spec.labels = res.labels) (hreplicas : spec.replicas = some scale)
      (hsecrets : spec.secrets = generated ++ configured) :
      rt.Stages request scale
        ⟨imageLabels, res, generated, oldSecrets, configured, configs, oldConfigs, spec⟩
        c c₁ c₂ c₃ c₄ :=
    ⟨himage, hresources, hgenerated, hconfigured, hconfig, hspec, hlabels, hreplicas, hsecrets⟩
  cases service with
  | none =>
    obtain ⟨_, _, hcreate, h⟩ := exec_bind_eq_ok.mp h
    cases h
    refine ⟨⟨imageLabels, res, generated, oldSecrets, configured, configs, oldConfigs, _⟩,
      c₁, c₂, c₃, c₄, ?_, hcreate, rfl, hname, rfl⟩
    exact hstages _ hname rfl rfl rfl
  | some service =>
    obtain ⟨_, _, hupdate, h⟩ := exec_bind_eq_ok.mp h
    obtain ⟨_, _, hsecrets, h⟩ := exec_bind_eq_ok.mp h
    obtain ⟨_, _, hconfigs, h⟩ := exec_bind_eq_ok.mp h
    cases h
    refine ⟨⟨imageLabels, res, generated, oldSecrets, configured, configs, oldConfigs, _⟩,
      c₁, c₂, c₃, c₄, ?_,
      exec_bind_eq_ok.mpr ⟨_, _, hupdate, exec_bind_eq_ok.mpr ⟨_, _, hsecrets, hconfigs⟩⟩, rfl,
      hname, rfl⟩
    exact hstages _ hname rfl rfl rfl

/-- Once it has got to the image, `update_agent` does not return `None`. -/
theorem deploy_ok {service : Option Service} {scale : Nat} {skipLabelTest : Bool}
    {result : AgentData × Option Bool}
    (h : exec (rt.deploy request service scale skipLabelTest) c = (.ok result, c')) :
    result.2 = some service.isNone := by
  obtain ⟨-, -, -, -, -, -, -, hresult, -⟩ := deploy_stages h
  exact hresult

/-! ## `update_agent` -/

/-- An update or a creation that does not fail is carried out, with an image and a version. -/
theorem submit_ok {service : Option Service} {scale : Nat} {create update skipLabelTest : Bool}
    (hasked : create = true ∨ update = true) {result : AgentData × Option Bool}
    (h : exec (rt.submit request service scale create update skipLabelTest) c = (.ok result, c')) :
    (create && update) = false ∧ request.image ≠ "" ∧ request.version ≠ "" ∧
      exec (rt.deploy request (if create then none else service) scale skipLabelTest) c =
        (.ok result, c') := by
  unfold submit at h
  split at h
  · cases h
  next hboth =>
  split at h
  · cases h
  next hset =>
  simp only [Bool.or_eq_true, decide_eq_true_eq, not_or] at hset
  split at h
  · next hneither =>
    rcases hasked with rfl | rfl <;> simp at hneither
  · exact ⟨by simpa using hboth, hset.1, hset.2, h⟩

/-- A call that returns has found a service and updated it, or has found
none and created one, which it was not asked to update. -/
theorem updateAgent_stages {create update skipLabelTest : Bool}
    {result : AgentData × Option Bool}
    (h : exec (rt.updateAgent request create update skipLabelTest) c = (.ok result, c')) :
    request.image ≠ "" ∧ request.version ≠ "" ∧
      ((∃ found c₁, exec (rt.current request update) c = (.ok found, c₁) ∧
          exec (rt.deploy request (some found.service) found.scale skipLabelTest) c₁ =
            (.ok result, c')) ∨
        ∃ e c₁, exec (rt.current request update) c = (.error e, c₁) ∧ e.isNotFound = true ∧
          update = false ∧
          exec (rt.deploy request none request.autostart.toNat skipLabelTest) c₁ =
            (.ok result, c')) := by
  obtain ⟨found?, c₁, hcurrent, h⟩ := exec_bind_eq_ok.mp h
  rw [exec_tryNotFound] at hcurrent
  rcases hexec : exec (rt.current request update) c with ⟨e | found, c₂⟩ <;>
    rw [hexec] at hcurrent
  · dsimp only at hcurrent
    split at hcurrent
    · next hnotFound =>
      cases hcurrent
      obtain ⟨hupdate, himage, hversion, h⟩ := submit_ok (.inl rfl) h
      rw [Bool.true_and] at hupdate
      exact ⟨himage, hversion, .inr ⟨e, _, rfl, hnotFound, hupdate, h⟩⟩
    · cases hcurrent
  · cases hcurrent
    obtain ⟨-, hrequest, hupdate⟩ := rt.current_ok hexec
    obtain ⟨hcreate, himage, hversion, h⟩ := submit_ok (.inr hupdate) h
    rw [hupdate, Bool.and_true] at hcreate
    rw [hrequest] at himage hversion
    rw [hrequest, hcreate] at h
    exact ⟨himage, hversion, .inl ⟨found, _, rfl, h⟩⟩

end DockerSwarmRuntime

end Iams.Runtime
