/-
Iams.Runtime.ImageTheorems — the image of a service, written and read.

`update_agent` submits a service with the image `image:version`. Docker may
add `@` and a digest to it, and `get_image_version` of `iams/runtime.py`
takes the text apart again: it drops all from the first `@` on and cuts the
rest at its last colon. An image may have colons of its own, in the port of
a registry, and so may a digest (`getImageVersion_pin`).

§1 is about the text, §2 about every service that a call of `update_agent`
leaves behind, whether the call returns or raises.

No `sorry`, no `axiom`, no `native_decide`.
-/
import Iams.Runtime.ReplicaTheorems
import Mathlib.Data.List.TakeWhile

namespace Iams.Runtime

open Iams.Lib Iams.Lib.Procedure
open Iams.Servicer (AgentData Bytes)

/-! ## §1 The text -/

/-- The text up to the first separator. -/
theorem takeWhile_append_cons {c : Char} {before : List Char} (h : c ∉ before)
    (after : List Char) : (before ++ c :: after).takeWhile (· ≠ c) = before := by
  rw [List.takeWhile_append_of_pos]
  · simp
  · intro a ha
    exact decide_eq_true fun heq => h (heq ▸ ha)

/-- The cut is at the last separator. -/
theorem rsplitOnce_append {c : Char} {after : List Char} (hafter : c ∉ after)
    (before : List Char) : rsplitOnce c (before ++ c :: after) = [before, after] := by
  have hreverse : (before ++ c :: after).reverse.takeWhile (· ≠ c) = after.reverse := by
    rw [List.reverse_append, List.reverse_cons, List.append_assoc, List.singleton_append]
    exact takeWhile_append_cons (fun hc => hafter (List.mem_reverse.mp hc)) before.reverse
  have hlength : (before ++ c :: after).length - after.length - 1 = before.length := by
    rw [List.length_append, List.length_cons]
    omega
  unfold rsplitOnce
  rw [if_pos (List.mem_append_right before List.mem_cons_self), hreverse, List.reverse_reverse]
  dsimp only
  rw [hlength, List.take_left]

/-- What docker stores: the image as it was submitted, or a digest behind it. -/
theorem toList_pin (docker : Docker) (image : String) :
    (docker.pin image).toList = image.toList ∨
      ∃ digest, (docker.pin image).toList = image.toList ++ '@' :: digest := by
  unfold Docker.pin
  cases docker.digest image with
  | none => exact .inl rfl
  | some digest =>
    refine .inr ⟨digest.toList, ?_⟩
    rw [String.toList_append, String.toList_append, List.append_assoc]
    rfl

/-- The digest is dropped. -/
theorem takeWhile_pin (docker : Docker) {image : String} (h : '@' ∉ image.toList) :
    (docker.pin image).toList.takeWhile (· ≠ '@') = image.toList := by
  rcases toList_pin docker image with heq | ⟨digest, heq⟩
  · rw [heq]
    exact List.takeWhile_eq_self_iff.mpr fun a ha => decide_eq_true fun hat => h (hat ▸ ha)
  · rw [heq]
    exact takeWhile_append_cons h digest

/-- An image without `@`, and a version without `@` and without a colon. -/
structure Separable (image version : String) : Prop where
  image_at : '@' ∉ image.toList
  version_at : '@' ∉ version.toList
  version_colon : ':' ∉ version.toList

/-- Image and version are read as they were written. -/
theorem getImageVersion_pin (docker : Docker) {image version : String}
    (h : Separable image version) {service : Service}
    (himage : service.spec.image = docker.pin (image ++ ":" ++ version)) :
    getImageVersion service = [image, version] := by
  have htext : (image ++ ":" ++ version).toList = image.toList ++ ':' :: version.toList := by
    rw [String.toList_append, String.toList_append, List.append_assoc]
    rfl
  have hat : '@' ∉ (image ++ ":" ++ version).toList := by
    rw [htext, List.mem_append, List.mem_cons]
    rintro (hmem | hcolon | hmem)
    · exact h.image_at hmem
    · exact absurd hcolon (by decide)
    · exact h.version_at hmem
  unfold getImageVersion
  rw [himage, takeWhile_pin docker hat, htext, rsplitOnce_append h.version_colon]
  simp

/-! ## §2 What `update_agent` leaves behind -/

/-- Every service was there before or has this image. -/
def WrittenWith (image : String) (c c' : Cluster) : Prop :=
  ∀ s ∈ c'.services, s ∈ c.services ∨ s.spec.image = image

theorem frame_writtenWith (image : String) : Frame (WrittenWith image) :=
  ⟨fun _ _ hs => .inl hs, fun h₁ h₂ s hs => (h₂ s hs).elim (h₁ s) .inr⟩

theorem SameServices.writtenWith {image : String} {c c' : Cluster} (h : SameServices c c') :
    WrittenWith image c c' := fun _ hs => .inl (h ▸ hs)

namespace Docker

variable (docker : Docker)

theorem keeps_createService_writtenWith (spec : ServiceSpec) :
    Keeps (WrittenWith (docker.pin spec.image)) (docker.createService spec) := by
  have hrequest := requestFrame_sameServices.keeps_request docker (.createService spec)
  refine (frame_writtenWith _).keeps_bind (hrequest.mono fun _ _ => SameServices.writtenWith)
    fun _ c => ?_
  rw [exec_modify]
  intro s hs
  rcases List.mem_append.mp hs with hs | hs
  · exact .inl hs
  · rw [List.mem_singleton.mp hs]
    exact .inr rfl

theorem keeps_updateService_writtenWith (id : Nat) (spec : ServiceSpec) :
    Keeps (WrittenWith (docker.pin spec.image)) (docker.updateService id spec) := by
  have hrequest := requestFrame_sameServices.keeps_request docker (.updateService id spec)
  refine (frame_writtenWith _).keeps_bind (hrequest.mono fun _ _ => SameServices.writtenWith)
    fun _ c => ?_
  rw [exec_modify]
  intro s hs
  obtain ⟨t, ht, rfl⟩ := List.mem_map.mp hs
  by_cases hid : t.id = id
  · rw [if_pos hid]
    exact .inr rfl
  · rw [if_neg hid]
    exact .inl ht

end Docker

namespace DockerSwarmRuntime

variable {rt : DockerSwarmRuntime} {request : AgentData} {create update skipLabelTest : Bool}
  {c c' : Cluster}

/-- The image of the request, as docker stores it. -/
def pinned (rt : DockerSwarmRuntime) (request : AgentData) : String :=
  rt.docker.pin (request.image ++ ":" ++ request.version)

theorem Submits.pinned_eq {spec : ServiceSpec} (h : Submits request spec) :
    rt.docker.pin spec.image = rt.pinned request := by
  rw [h.image, pinned]

/-- Whatever is new has the image of the request. -/
theorem updateAgent_writtenWith (rt : DockerSwarmRuntime) (request : AgentData)
    (create update skipLabelTest : Bool) :
    Procedure.Keeps (WrittenWith (rt.pinned request))
      (rt.updateAgent request create update skipLabelTest) := by
  intro c
  have hR := frame_writtenWith (rt.pinned request)
  have hsubmit (service : Option Service) (scale : Nat) (create update : Bool) :
      Procedure.Keeps (WrittenWith (rt.pinned request))
        (rt.submit request service scale create update skipLabelTest) := by
    refine rt.keeps_submit hR (fun _ _ => SameServices.writtenWith) request service scale create
      update skipLabelTest (fun _ spec hspec => ?_) (fun s _ _ spec hspec => ?_)
    · exact hspec.pinned_eq ▸ rt.docker.keeps_createService_writtenWith spec
    · exact hspec.pinned_eq ▸ rt.docker.keeps_updateService_writtenWith s.id spec
  refine rt.keeps_updateAgent hR (fun _ _ => SameServices.writtenWith) request create update
    skipLabelTest (fun c₁ => ?_) (fun found c₁ _ _ => ?_)
  · exact hsubmit none _ true update c₁
  · exact hsubmit (some found.service) _ create true c₁

/-- The service that was found is in the cluster. -/
theorem mem_of_current {found : Found} {c₁ : Cluster}
    (h : exec (rt.current request update) c = (.ok found, c₁)) : found.service ∈ c₁.services := by
  obtain ⟨hcand, -⟩ := current_scale h
  have hsame := rt.keeps_current requestFrame_sameServices request update c
  rw [h] at hsame
  rw [hsame]
  exact List.mem_of_mem_filter (hcand ▸ List.mem_cons_self : found.service ∈ _)

/-- A service that is submitted is there. -/
theorem mem_of_finish {service : Option Service} {d : Deployment}
    (hservice : ∀ s, service = some s → s ∈ c.services)
    (h : exec (rt.finish service d) c = (.ok (), c')) :
    ∃ s ∈ c'.services, s.spec = { d.spec with image := rt.docker.pin d.spec.image } := by
  cases service with
  | none =>
    obtain ⟨_, c₀, hrequest, hmodify⟩ := exec_bind_eq_ok.mp h
    cases hmodify
    exact ⟨_, List.mem_append_right _ List.mem_cons_self, rfl⟩
  | some service =>
    rw [finish_services h]
    refine ⟨_, List.mem_map.mpr ⟨service, hservice service rfl, rfl⟩, ?_⟩
    rw [if_pos rfl]

/-- A call that returns has left a service with the name and the image of
the request. -/
theorem updateAgent_written {result : AgentData × Option Bool}
    (h : exec (rt.updateAgent request create update skipLabelTest) c = (.ok result, c')) :
    ∃ s ∈ c'.services, s.spec.name = request.name ∧ s.spec.image = rt.pinned request := by
  have hdeployed (service : Option Service) {scale : Nat} {c₀ : Cluster}
      (hservice : ∀ s, service = some s → s ∈ c₀.services)
      (hdeploy : exec (rt.deploy request service scale skipLabelTest) c₀ = (.ok result, c')) :
      ∃ s ∈ c'.services, s.spec.name = request.name ∧ s.spec.image = rt.pinned request := by
    obtain ⟨d, c₁, c₂, c₃, c₄, hstages, hfinish, -, hspec⟩ := deploy_stages hdeploy
    rw [← hstages.sameServices] at hservice
    obtain ⟨s, hs, heq⟩ := mem_of_finish hservice hfinish
    refine ⟨s, hs, ?_, ?_⟩
    · rw [heq]
      exact hspec.name
    · rw [heq]
      exact hspec.pinned_eq
  obtain ⟨-, -, ⟨found, c₀, hcurrent, hdeploy⟩ | ⟨e, c₀, -, -, -, hdeploy⟩⟩ :=
    updateAgent_stages h
  · refine hdeployed (some found.service) (fun s hs => ?_) hdeploy
    cases hs
    exact mem_of_current hcurrent
  · exact hdeployed none nofun hdeploy

/-- After every call each service that was not there before is read as the
image and the version of the request, and after a call that returns one with
the name of the request is. -/
theorem updateAgent_getImageVersion (h : Separable request.image request.version)
    {outcome : Except Error (AgentData × Option Bool)}
    (hexec : exec (rt.updateAgent request create update skipLabelTest) c = (outcome, c')) :
    (∀ s ∈ c'.services, s ∉ c.services →
        getImageVersion s = [request.image, request.version]) ∧
      (∀ result, outcome = .ok result → ∃ s ∈ c'.services, s.spec.name = request.name ∧
        getImageVersion s = [request.image, request.version]) := by
  constructor
  · intro s hs hnew
    have hwritten := rt.updateAgent_writtenWith request create update skipLabelTest c
    rw [hexec] at hwritten
    exact getImageVersion_pin rt.docker h ((hwritten s hs).resolve_left hnew)
  · rintro result rfl
    obtain ⟨s, hs, hname, himage⟩ := updateAgent_written hexec
    exact ⟨s, hs, hname, getImageVersion_pin rt.docker h himage⟩

/-- `bare`, on a docker that adds a digest to every image. -/
def digesting : DockerSwarmRuntime :=
  { bare with docker := { bare.docker with digest := fun _ => some "sha256:9f2b" } }

/-- A request for an image of a registry with a port. -/
def armFromRegistry : AgentData :=
  { name := "prod_arm", image := "registry:5000/iams/arm", version := "2.1" }

/-- The port of the registry and the digest are told from the version. -/
theorem updateAgent_getImageVersion_registry :
    ∃ s ∈ (exec (digesting.updateAgent armFromRegistry false false false) {}).2.services,
      s.spec.name = "prod_arm" ∧ s.spec.image = "registry:5000/iams/arm:2.1@sha256:9f2b" ∧
        getImageVersion s = ["registry:5000/iams/arm", "2.1"] := by
  have hcreated : (exec (digesting.updateAgent armFromRegistry false false false) {}).1 =
      .ok ({ armFromRegistry with preferences := ["node.labels.worker"] }, some true) := by decide
  have himages : (exec (digesting.updateAgent armFromRegistry false false false) {}).2.services.map
      (fun s => s.spec.image) = ["registry:5000/iams/arm:2.1@sha256:9f2b"] := by decide
  obtain ⟨s, hs, hname, hread⟩ := (@updateAgent_getImageVersion digesting armFromRegistry
    false false false {} _ ⟨by decide, by decide, by decide⟩ _ rfl).2 _ hcreated
  have himage : s.spec.image ∈ ["registry:5000/iams/arm:2.1@sha256:9f2b"] :=
    himages ▸ List.mem_map_of_mem hs
  exact ⟨s, hs, hname, List.mem_singleton.mp himage, hread⟩

end DockerSwarmRuntime

end Iams.Runtime
