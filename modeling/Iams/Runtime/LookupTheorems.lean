/-
Iams.Runtime.LookupTheorems — which service an operation works on.

Every operation finds its service with `get_service`, which lists the
services by name and takes the only one that comes back. Docker returns
those whose name starts with the given one (`candidates`). `hitsNamed_iff`
says for which names this is right: those that no other service's name
continues, and of the others those that are not there and are continued by
several names.

§1 the lookup (`getService_eq_ok_iff`), §2 what `delete_agent` and
`update_agent` do to the other services, §3 the result.

No `sorry`, no `axiom`, no `native_decide`.
-/
import Iams.Runtime.Frames

namespace Iams.Runtime

open Iams.Lib Iams.Lib.Procedure
open Iams.Servicer (AgentData Bytes)

namespace DockerSwarmRuntime

variable (rt : DockerSwarmRuntime)

/-! ## §1 The lookup -/

/-- The services this runtime owns. -/
def agents (c : Cluster) : List Service :=
  c.services.filter fun s => labelled rt.ownLabels s.spec.labels

/-- The services docker returns for a name. -/
def candidates (name : String) (c : Cluster) : List Service :=
  c.services.filter fun s => named name s.spec.name && labelled rt.ownLabels s.spec.labels

theorem named_self (name : String) : named name name = true := by
  simp [named]

theorem mem_candidates {name : String} {c : Cluster} {s : Service} :
    s ∈ rt.candidates name c ↔ s ∈ rt.agents c ∧ named name s.spec.name = true := by
  simp only [candidates, agents, List.mem_filter, Bool.and_eq_true]
  tauto

variable {rt} {name : String} {c : Cluster}

theorem exec_getService (hfault : rt.docker.fault c.requests.length = none) :
    exec (rt.getService name) c =
      (match rt.docker.list c.services fun s =>
          named name s.spec.name && labelled rt.ownLabels s.spec.labels with
        | [service] => .ok service
        | _ => .error (.notFound ("Could not find service " ++ name)),
        { c with requests := c.requests ++ [.listServices name] }) := by
  unfold getService Docker.listServices
  simp only [exec_bind, Docker.exec_request, hfault, exec_get, exec_pure]
  generalize rt.docker.list c.services _ = services
  rcases services with _ | ⟨s, _ | ⟨t, rest⟩⟩ <;> rfl

/-- The lookup succeeds if there is one candidate. -/
theorem getService_eq_ok_iff (hfault : rt.docker.fault c.requests.length = none) {s : Service} :
    (exec (rt.getService name) c).1 = .ok s ↔ rt.candidates name c = [s] := by
  have hperm := rt.docker.list_perm c.services fun s =>
    named name s.spec.name && labelled rt.ownLabels s.spec.labels
  rw [exec_getService hfault]
  change _ ↔ List.filter _ _ = [s]
  constructor
  · intro h
    split at h
    · next service heq =>
      rw [heq] at hperm
      cases h
      exact hperm.symm.eq_singleton
    · cases h
  · intro h
    rw [h] at hperm
    rw [hperm.eq_singleton]

theorem getService_candidates {s : Service} {c' : Cluster}
    (h : exec (rt.getService name) c = (.ok s, c')) : rt.candidates name c = [s] := by
  refine (getService_eq_ok_iff ?_).mp (congrArg Prod.fst h)
  obtain ⟨_, _, hlist, -⟩ := exec_bind_eq_ok.mp h
  obtain ⟨_, _, hrequest, -⟩ := exec_bind_eq_ok.mp hlist
  rw [Docker.exec_request] at hrequest
  cases hfault : rt.docker.fault c.requests.length with
  | none => rfl
  | some e => simp [hfault] at hrequest

/-- Otherwise there is no such service. -/
theorem getService_eq_error_iff (hfault : rt.docker.fault c.requests.length = none) :
    (exec (rt.getService name) c).1 = .error (.notFound ("Could not find service " ++ name)) ↔
      ∀ s, rt.candidates name c ≠ [s] := by
  constructor
  · intro h s hs
    rw [(getService_eq_ok_iff hfault).mpr hs] at h
    cases h
  · intro h
    have hnot (s : Service) : (exec (rt.getService name) c).1 ≠ .ok s := fun hok =>
      h s ((getService_eq_ok_iff hfault).mp hok)
    rw [exec_getService hfault] at hnot ⊢
    split
    · next heq => exact absurd (by rw [heq]) (hnot _)
    · rfl

/-! ## §2 The other services -/

/-- What `delete_agent` does when the lookup is right. -/
theorem deleteAgent_onlyNamed
    (hfound : ∀ s, (exec (rt.getService name) c).1 = .ok s → Called s.id name c) :
    OnlyNamed name c (exec (rt.deleteAgent (.name name)) c).2 := by
  have hkeeps := requestFrame_sameServices.keeps_getService rt name c
  rw [deleteAgent, exec_bind, exec_tryNotFound, getServiceAndName, exec_bind]
  rcases h : exec (rt.getService name) c with ⟨e | s, c₁⟩ <;> rw [h] at hkeeps hfound
  · dsimp only
    cases e.isNotFound <;> exact hkeeps.onlyNamed
  · have hcalled : Called s.id name c₁ := hkeeps.only.called (hfound s rfl)
    refine (frame_onlyNamed name).trans hkeeps.onlyNamed (Only.others ?_ hcalled)
    have hR := frame_only s.id name
    refine hR.keeps_bind (rt.docker.keeps_removeService s.id name) (fun _ => ?_) c₁
    have lift {α : Type} {x : Proc α} (hx : Keeps SameServices x) : Keeps (Only s.id name) x :=
      hx.mono fun _ _ => SameServices.only
    have hplugins := requestFrame_sameServices.keeps_deleteAgentPlugins rt (.service s)
    refine hR.keeps_bind (lift hplugins) fun _ => ?_
    refine hR.keeps_bind (lift (rt.keeps_deleteAgentSecrets _)) fun _ => ?_
    exact hR.keeps_bind (lift (rt.keeps_deleteAgentConfigs _)) fun _ => hR.keeps_pure _

/-- What `update_agent` does when the lookup is right. -/
theorem updateAgent_onlyNamed {request : AgentData} (create update skipLabelTest : Bool)
    (hfound : ∀ s, (exec (rt.getService request.name) c).1 = .ok s → Called s.id request.name c) :
    OnlyNamed request.name c (exec (rt.updateAgent request create update skipLabelTest) c).2 := by
  have hR := frame_onlyNamed request.name
  have hcreate : ∀ spec : ServiceSpec, Submits request spec →
      Keeps (OnlyNamed request.name) (rt.docker.createService spec) :=
    fun spec hspec => hspec.name ▸ rt.docker.keeps_createService spec
  refine rt.keeps_updateAgent hR (fun _ _ => SameServices.onlyNamed) request create update
    skipLabelTest (fun c₁ => ?_) (fun found c₁ h hsame => ?_)
  · exact rt.keeps_submit hR (fun _ _ => SameServices.onlyNamed) request none _ _ _ _
      (fun _ => hcreate) (fun _ _ hs => nomatch hs) c₁
  · have hcalled := hsame.only.called (hfound _ (rt.current_ok h).1)
    cases create with
    | true =>
      exact rt.keeps_submit hR (fun _ _ => SameServices.onlyNamed) request _ _ true _ _
        (fun _ => hcreate) (fun _ htrue => nomatch htrue) c₁
    | false =>
      refine Only.others (rt.keeps_submit (frame_only found.service.id request.name)
        (fun _ _ => SameServices.only) request _ _ _ _ _ ?_ ?_ c₁) hcalled
      · rintro (h | h) <;> cases h
      · rintro s - hs spec hspec
        cases hs
        exact hspec.name ▸ rt.docker.keeps_updateService _ spec

/-! ## §3 The named agent only -/

variable (rt) (name) (c)

/-- `get_service` finds exactly the service of this name, and no operation
on the name changes or removes another one. -/
structure HitsNamed : Prop where
  found : ∀ s ∈ rt.agents c, s.spec.name = name → (exec (rt.getService name) c).1 = .ok s
  absent : (∀ s ∈ rt.agents c, s.spec.name ≠ name) →
    (exec (rt.getService name) c).1 = .error (.notFound ("Could not find service " ++ name))
  delete : OnlyNamed name c (exec (rt.deleteAgent (.name name)) c).2
  update : ∀ request : AgentData, request.name = name → ∀ create update skipLabelTest,
    OnlyNamed name c (exec (rt.updateAgent request create update skipLabelTest) c).2

/-- The services whose name starts with this one and goes on. -/
def continuations : List Service :=
  (rt.agents c).filter fun s => named name s.spec.name && s.spec.name ≠ name

/-- A name that is there is not continued by another one, and one that is
not there is not continued by exactly one. -/
def Unambiguous : Prop :=
  ((∃ s ∈ rt.agents c, s.spec.name = name) → rt.continuations name c = []) ∧
    ((∀ s ∈ rt.agents c, s.spec.name ≠ name) → (rt.continuations name c).length ≠ 1)

variable {rt name c}

/-- With no service of this name the candidates are its continuations. -/
theorem candidates_of_absent (h : ∀ s ∈ rt.agents c, s.spec.name ≠ name) :
    rt.candidates name c = rt.continuations name c := by
  rw [continuations, agents, List.filter_filter]
  refine List.filter_congr fun s hs => ?_
  by_cases hlabels : labelled rt.ownLabels s.spec.labels = true
  · have hne := h s (List.mem_filter.mpr ⟨hs, hlabels⟩)
    simp [hlabels, hne]
  · simp [hlabels]

/-- A service of this name that is the only candidate is not continued. -/
theorem continuations_of_candidates {s : Service} (hcand : rt.candidates name c = [s])
    (hname : s.spec.name = name) : rt.continuations name c = [] := by
  refine List.eq_nil_iff_forall_not_mem.mpr fun t ht => ?_
  simp only [continuations, List.mem_filter, Bool.and_eq_true, decide_eq_true_eq] at ht
  have hmem : t ∈ rt.candidates name c := rt.mem_candidates.mpr ⟨ht.1, ht.2.1⟩
  rw [hcand, List.mem_singleton] at hmem
  exact ht.2.2 (hmem ▸ hname)

/-- With one, and no continuation, it is the only candidate. -/
theorem candidates_of_found (hnames : ((rt.agents c).map fun s => s.spec.name).Nodup)
    {s : Service} (hs : s ∈ rt.agents c) (hname : s.spec.name = name)
    (hcont : rt.continuations name c = []) : rt.candidates name c = [s] := by
  have hall : ∀ t ∈ rt.candidates name c, t = s := by
    intro t ht
    obtain ⟨htagent, htnamed⟩ := rt.mem_candidates.mp ht
    have hname' : t.spec.name = name := by
      by_contra hne
      have hmem : t ∈ rt.continuations name c :=
        List.mem_filter.mpr ⟨htagent, by simp [htnamed, hne]⟩
      rw [hcont] at hmem
      exact List.not_mem_nil hmem
    exact List.inj_on_of_nodup_map hnames htagent hs (hname'.trans hname.symm)
  have hmem : s ∈ rt.candidates name c :=
    rt.mem_candidates.mpr ⟨hs, hname ▸ named_self _⟩
  have hnodup : (rt.candidates name c).Nodup := by
    have hsub : rt.candidates name c = (rt.agents c).filter fun s => named name s.spec.name := by
      rw [candidates, agents, List.filter_filter]
    rw [hsub]
    exact hnames.of_map.filter _
  have hperm : (rt.candidates name c).Perm [s] :=
    (List.perm_ext_iff_of_nodup hnodup (List.nodup_singleton s)).mpr fun t =>
      ⟨fun ht => List.mem_singleton.mpr (hall t ht), fun ht => List.mem_singleton.mp ht ▸ hmem⟩
  exact hperm.eq_singleton

/-- The operations on a name work on the agent of that name, and on no
other one, if and only if the name is unambiguous. -/
theorem hitsNamed_iff (hnames : ((rt.agents c).map fun s => s.spec.name).Nodup)
    (hids : (c.services.map Service.id).Nodup)
    (hfault : rt.docker.fault c.requests.length = none) :
    rt.HitsNamed name c ↔ rt.Unambiguous name c := by
  constructor
  · intro h
    constructor
    · rintro ⟨s, hs, hname⟩
      have hcand := (getService_eq_ok_iff hfault).mp (h.found s hs hname)
      exact continuations_of_candidates hcand hname
    · intro habsent hlength
      obtain ⟨t, ht⟩ := List.length_eq_one_iff.mp hlength
      rw [← candidates_of_absent habsent] at ht
      exact (getService_eq_error_iff hfault).mp (h.absent habsent) t ht
  · rintro ⟨hfound, habsent⟩
    have hget : ∀ s ∈ rt.agents c, s.spec.name = name →
        (exec (rt.getService name) c).1 = .ok s := fun s hs hname =>
      (getService_eq_ok_iff hfault).mpr (candidates_of_found hnames hs hname
        (hfound ⟨s, hs, hname⟩))
    have hnone : (∀ s ∈ rt.agents c, s.spec.name ≠ name) →
        ∀ s, rt.candidates name c ≠ [s] := by
      intro h s hs
      rw [candidates_of_absent h] at hs
      exact habsent h (by rw [hs]; rfl)
    -- whatever the lookup finds is called like that
    have hcalled : ∀ s, (exec (rt.getService name) c).1 = .ok s → Called s.id name c := by
      intro s hs
      have hcand := (getService_eq_ok_iff hfault).mp hs
      by_cases hthere : ∃ t ∈ rt.agents c, t.spec.name = name
      · obtain ⟨t, ht, hname⟩ := hthere
        have heq := hget t ht hname
        rw [hs] at heq
        cases heq
        intro u hu hid
        have hus : u = s :=
          List.inj_on_of_nodup_map hids hu (List.mem_of_mem_filter ht) hid
        rw [hus, hname]
      · push Not at hthere
        exact absurd hcand (hnone hthere s)
    refine ⟨hget, fun h => (getService_eq_error_iff hfault).mpr (hnone h),
      deleteAgent_onlyNamed hcalled, ?_⟩
    rintro request rfl create update skipLabelTest
    exact updateAgent_onlyNamed create update skipLabelTest hcalled

end DockerSwarmRuntime

/-! ## §4 Two names -/

/-- A runtime without plugins or certificates, on a docker that lists
objects in order and has every image. -/
def bare : DockerSwarmRuntime where
  ca := ⟨fun secrets _ => .ok secrets, fun _ => .ok none, fun _ => .ok ""⟩
  iamsNamespace := "prod"
  stackNamespace := "cloud"
  servername := some "tasks.iams"
  plugins := []
  docker := {
    list := fun objects p => objects.filter p
    list_perm := fun _ _ => .refl _
    image := fun _ => .ok (Dict.empty.set "iams.services.agent" "")
    digest := fun _ => none
    fault := fun _ => none }
  network := none
  md5 := fun _ => "d41d8cd9"

/-- An agent's service, as `bare` creates it for a request with a name, an
image and a version. -/
def bareService (id : Nat) (name : String) : Service where
  id := id
  spec := {
    name := name
    labels := bare.serviceLabels { name := name, image := "arm" } .empty
    replicas := some 0
    image := "arm:1"
    env := some ["IAMS_AGENT=" ++ name, "IAMS_SERVICE=tasks.iams"]
    configs := []
    secrets := []
    networks := []
    constraints := []
    preferences := ["node.labels.worker"] }

namespace DockerSwarmRuntime

/-- Next to `prod_leg` the agent `prod_arm` is hit; next to `prod_arm2` it
is not, and `prod_arm2` is. -/
theorem hitsNamed_iff_arm :
    bare.HitsNamed "prod_arm" { services := [bareService 0 "prod_arm", bareService 1 "prod_leg"] } ∧
    ¬ bare.HitsNamed "prod_arm"
      { services := [bareService 0 "prod_arm", bareService 1 "prod_arm2"] } ∧
    bare.HitsNamed "prod_arm2"
      { services := [bareService 0 "prod_arm", bareService 1 "prod_arm2"] } := by
  refine ⟨(hitsNamed_iff (by decide) (by decide) rfl).mpr ?_, fun h => ?_,
    (hitsNamed_iff (by decide) (by decide) rfl).mpr ?_⟩
  · exact ⟨fun _ => by decide, fun habsent => absurd habsent (by decide)⟩
  · obtain ⟨hfound, -⟩ := (hitsNamed_iff (by decide) (by decide) rfl).mp h
    have hthere : bareService 0 "prod_arm" ∈ bare.agents
        { services := [bareService 0 "prod_arm", bareService 1 "prod_arm2"] } :=
      List.mem_filter.mpr ⟨List.mem_cons_self, by decide⟩
    exact absurd (hfound ⟨_, hthere, rfl⟩) (by decide)
  · exact ⟨fun _ => by decide, fun habsent => absurd habsent (by decide)⟩

/-- With `prod_arm2` in its place, deleting `prod_arm` deletes `prod_arm2`;
with both, neither a lookup nor an operation finds `prod_arm`. -/
theorem arm_hits_arm2 :
    (∃ c, (∀ s ∈ c.services, s.spec.name = "prod_arm2") ∧
      ((exec (bare.deleteAgent (.name "prod_arm")) c).2.services.map Service.id,
        c.services.map Service.id) = ([], [0])) ∧
    ¬ ∀ (rt : DockerSwarmRuntime) (name : String) (c : Cluster),
      ((rt.agents c).map fun s => s.spec.name).Nodup → (c.services.map Service.id).Nodup →
        (∀ n, rt.docker.fault n = none) → rt.HitsNamed name c := by
  refine ⟨⟨{ services := [bareService 0 "prod_arm2"] }, by decide, by decide⟩, fun h => ?_⟩
  have hhits := h bare "prod_arm"
    { services := [bareService 0 "prod_arm", bareService 1 "prod_arm2"] }
    (by decide) (by decide) fun _ => rfl
  have hfound := hhits.found (bareService 0 "prod_arm") (List.mem_filter.mpr
    ⟨List.mem_cons_self, by decide⟩) rfl
  have hmissing : (exec (bare.getService "prod_arm")
      { services := [bareService 0 "prod_arm", bareService 1 "prod_arm2"] }).1.isOk = false := by
    decide
  rw [hfound] at hmissing
  cases hmissing

end DockerSwarmRuntime

end Iams.Runtime
