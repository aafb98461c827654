/-
Iams.Runtime.DeleteTheorems — what `delete_agent` leaves behind.

The existence of the service decides whether `delete_agent` does anything
at all: without it, the call returns True. `deleteAgent_complete_iff` says
when nothing of the agent is left after a call that returns True, whatever
came before it, and what this means for a call that repeats others that
have failed: none of them may have got past the removal of the service.

§1 the removals, §2 one call, §3 repeated calls, §4 a call that failed.

No `sorry`, no `axiom`, no `native_decide`.
-/
import Iams.Lib.Transition
import Iams.Runtime.LookupTheorems

namespace Iams.Runtime

open Iams.Lib Iams.Lib.Procedure

/-! ## §1 Removing -/

/-- The same objects. -/
structure SameContent (c c' : Cluster) : Prop where
  services : c'.services = c.services
  secrets : c'.secrets = c.secrets
  configs : c'.configs = c.configs

/-- The same services, and no new secrets or configs. -/
structure Fewer (c c' : Cluster) : Prop where
  services : c'.services = c.services
  secrets : c'.secrets ⊆ c.secrets
  configs : c'.configs ⊆ c.configs

theorem frame_sameContent : RequestFrame SameContent :=
  ⟨⟨fun _ => ⟨rfl, rfl, rfl⟩, fun h₁ h₂ => ⟨h₂.services.trans h₁.services,
    h₂.secrets.trans h₁.secrets, h₂.configs.trans h₁.configs⟩⟩, fun _ _ => ⟨rfl, rfl, rfl⟩⟩

theorem frame_fewer : RequestFrame Fewer :=
  ⟨⟨fun _ => ⟨rfl, fun _ h => h, fun _ h => h⟩, fun h₁ h₂ => ⟨h₂.services.trans h₁.services,
    List.Subset.trans h₂.secrets h₁.secrets, List.Subset.trans h₂.configs h₁.configs⟩⟩,
    fun _ _ => ⟨rfl, fun _ h => h, fun _ h => h⟩⟩

namespace Docker

variable {docker : Docker}

/-- What it returns is read from the cluster. -/
theorem read_ok {α : Type} {r : Request} {f : Cluster → α} {c c' : Cluster} {a : α}
    (h : exec (docker.request r >>= fun _ => get >>= fun c => pure (f c)) c = (.ok a, c')) :
    a = f c' := by
  obtain ⟨⟨⟩, c₁, -, h⟩ := exec_bind_eq_ok.mp h
  obtain ⟨_, _, hget, h⟩ := exec_bind_eq_ok.mp h
  cases hget
  cases h
  rfl

/-- A request that changes something raises, and changes nothing, or
returns after the change. -/
theorem exec_request_modify (r : Request) (f : Cluster → Cluster) (c : Cluster) :
    exec (docker.request r >>= fun _ => modify f) c =
      match docker.fault c.requests.length with
      | some e => (.error e, { c with requests := c.requests ++ [r] })
      | none => (.ok (), f { c with requests := c.requests ++ [r] }) := by
  rw [exec_bind, exec_request]
  cases docker.fault c.requests.length <;> rfl

theorem fewer_removeSecret (id : Nat) : Keeps Fewer (docker.removeSecret id) :=
  frame_fewer.keeps_request_bind docker _ fun _ =>
    ⟨rfl, fun _ => List.mem_of_mem_filter, fun _ h => h⟩

theorem fewer_removeConfig (id : Nat) : Keeps Fewer (docker.removeConfig id) :=
  frame_fewer.keeps_request_bind docker _ fun _ =>
    ⟨rfl, fun _ h => h, fun _ => List.mem_of_mem_filter⟩

/-- What holds after the change holds when the request has returned. -/
theorem modify_ok {r : Request} {f : Cluster → Cluster} {P : Cluster → Prop} (hf : ∀ c, P (f c))
    {c c' : Cluster} (h : exec (docker.request r >>= fun _ => modify f) c = (.ok (), c')) :
    P c' := by
  obtain ⟨⟨⟩, c₁, -, hmodify⟩ := exec_bind_eq_ok.mp h
  cases hmodify
  exact hf c₁

theorem removeSecret_ok {id : Nat} {c c' : Cluster}
    (h : exec (docker.removeSecret id) c = (.ok (), c')) : ∀ b ∈ c'.secrets, b.id ≠ id :=
  modify_ok (P := fun c => ∀ b ∈ c.secrets, b.id ≠ id)
    (fun _ _ hb => by simpa using (List.mem_filter.mp hb).2) h

theorem removeConfig_ok {id : Nat} {c c' : Cluster}
    (h : exec (docker.removeConfig id) c = (.ok (), c')) : ∀ b ∈ c'.configs, b.id ≠ id :=
  modify_ok (P := fun c => ∀ b ∈ c.configs, b.id ≠ id)
    (fun _ _ hb => by simpa using (List.mem_filter.mp hb).2) h

end Docker

/-- A loop that returns has removed all it was given. -/
theorem forM_removes {field : Cluster → List Blob} {remove : Nat → Proc Unit}
    (hkeeps : ∀ id, Keeps (fun c c' => field c' ⊆ field c) (remove id))
    (hremove : ∀ {id c c'}, exec (remove id) c = (.ok (), c') → ∀ b ∈ field c', b.id ≠ id)
    {blobs : List Blob} {c c' : Cluster}
    (h : exec (blobs.forM fun b => remove b.id) c = (.ok (), c')) :
    ∀ b ∈ field c', b ∈ field c ∧ b ∉ blobs := by
  induction blobs generalizing c with
  | nil =>
    cases h
    exact fun b hb => ⟨hb, List.not_mem_nil⟩
  | cons first rest ih =>
    obtain ⟨⟨⟩, c₁, hfirst, hrest⟩ := exec_bind_eq_ok.mp h
    intro b hb
    obtain ⟨hmem, hb⟩ := ih hrest b hb
    have hfewer := hkeeps first.id c
    rw [hfirst] at hfewer
    refine ⟨hfewer hmem, fun hcons => ?_⟩
    rcases List.mem_cons.mp hcons with rfl | hrest
    · exact hremove hfirst b hmem rfl
    · exact hb hrest

namespace DockerSwarmRuntime

variable (rt : DockerSwarmRuntime)

theorem fewer_deleteAgentConfigs (name : String) : Keeps Fewer (rt.deleteAgentConfigs name) :=
  frame_fewer.keeps_bind (frame_fewer.keeps_read rt.docker _ _) fun _ =>
    frame_fewer.keeps_forM fun _ => Docker.fewer_removeConfig _

variable {rt} {name : String} {c c' : Cluster}

/-- The agent's labels are on this object. -/
def OfAgent (rt : DockerSwarmRuntime) (name : String) (labels : Dict String String) : Prop :=
  labelled (rt.agentLabels name) labels = true

theorem deleteAgentSecrets_ok (h : exec (rt.deleteAgentSecrets name) c = (.ok (), c')) :
    ∀ s ∈ c'.secrets, ¬ rt.OfAgent name s.labels := by
  obtain ⟨secrets, c₁, hlist, hremove⟩ := exec_bind_eq_ok.mp h
  intro s hs hlabels
  obtain ⟨hmem, hnot⟩ := forM_removes (fun id c => (Docker.fewer_removeSecret id c).secrets)
    Docker.removeSecret_ok hremove s hs
  rw [Docker.read_ok hlist, (rt.docker.list_perm ..).mem_iff] at hnot
  exact hnot (List.mem_filter.mpr ⟨hmem, hlabels⟩)

theorem deleteAgentConfigs_ok (h : exec (rt.deleteAgentConfigs name) c = (.ok (), c')) :
    ∀ s ∈ c'.configs, ¬ rt.OfAgent name s.labels := by
  obtain ⟨configs, c₁, hlist, hremove⟩ := exec_bind_eq_ok.mp h
  intro s hs hlabels
  obtain ⟨hmem, hnot⟩ := forM_removes (fun id c => (Docker.fewer_removeConfig id c).configs)
    Docker.removeConfig_ok hremove s hs
  rw [Docker.read_ok hlist, (rt.docker.list_perm ..).mem_iff] at hnot
  exact hnot (List.mem_filter.mpr ⟨hmem, Bool.and_eq_true_iff.mpr ⟨rfl, hlabels⟩⟩)

/-! ## §2 One call -/

/-- What follows once the service is found. -/
def removeAll (rt : DockerSwarmRuntime) (service : Service) (name : String) : Proc Bool := do
  rt.docker.removeService service.id
  rt.deleteAgentPlugins (.service service)
  rt.deleteAgentSecrets name
  rt.deleteAgentConfigs name
  return true

theorem exec_deleteAgent_of_ok {s : Service} (h : exec (rt.getService name) c = (.ok s, c')) :
    exec (rt.deleteAgent (.name name)) c = exec (rt.removeAll s name) c' := by
  rw [deleteAgent, exec_bind, exec_tryNotFound, getServiceAndName, exec_bind, h]
  rfl

theorem exec_deleteAgent_of_error {e : Error}
    (h : exec (rt.getService name) c = (.error e, c')) :
    exec (rt.deleteAgent (.name name)) c = (if e.isNotFound then .ok true else .error e, c') := by
  rw [deleteAgent, exec_bind, exec_tryNotFound, getServiceAndName, exec_bind, h]
  dsimp only
  cases e.isNotFound <;> rfl

/-- Only the service is removed first. -/
theorem removeAll_fewer (rt : DockerSwarmRuntime) (s : Service) (name : String) (c : Cluster) :
    (∃ e c', exec (rt.removeAll s name) c = (.error e, c') ∧ SameContent c c') ∨
      (exec (rt.removeAll s name) c).2.services = c.services.filter fun t => t.id ≠ s.id := by
  rw [removeAll, Docker.removeService, exec_bind, Docker.exec_request_modify]
  cases rt.docker.fault c.requests.length with
  | some e => exact .inl ⟨e, _, rfl, rfl, rfl, rfl⟩
  | none =>
    refine .inr ?_
    have hR := requestFrame_sameServices
    exact hR.keeps_bind (hR.keeps_deleteAgentPlugins rt (.service s)) (fun _ =>
      hR.keeps_bind (rt.keeps_deleteAgentSecrets name) fun _ =>
        hR.keeps_bind (rt.keeps_deleteAgentConfigs name) fun _ => hR.keeps_pure true) _

/-- A complete removal leaves no secret and no config of the agent. -/
theorem removeAll_ok {s : Service} (h : exec (rt.removeAll s name) c = (.ok true, c')) :
    c'.services = (c.services.filter fun t => t.id ≠ s.id) ∧
      (∀ x ∈ c'.secrets, ¬ rt.OfAgent name x.labels) ∧
      ∀ x ∈ c'.configs, ¬ rt.OfAgent name x.labels := by
  have hservices : c'.services = c.services.filter fun t => t.id ≠ s.id := by
    rcases rt.removeAll_fewer s name c with ⟨e, c₁, herror, -⟩ | hservices
    · rw [h] at herror
      cases herror
    · rwa [h] at hservices
  refine ⟨hservices, ?_⟩
  obtain ⟨⟨⟩, c₁, -, h⟩ := exec_bind_eq_ok.mp h
  obtain ⟨⟨⟩, c₂, -, h⟩ := exec_bind_eq_ok.mp h
  obtain ⟨⟨⟩, c₃, hsecrets, h⟩ := exec_bind_eq_ok.mp h
  obtain ⟨⟨⟩, c₄, hconfigs, h⟩ := exec_bind_eq_ok.mp h
  cases h
  have hfewer := rt.fewer_deleteAgentConfigs name c₃
  rw [hconfigs] at hfewer
  exact ⟨fun x hx => deleteAgentSecrets_ok hsecrets x (hfewer.secrets hx),
    deleteAgentConfigs_ok hconfigs⟩

variable (rt name c)

/-- No service, secret or config of the agent is there. -/
structure NothingLeft : Prop where
  services : ∀ s ∈ c.services, ¬ rt.OfAgent name s.spec.labels
  secrets : ∀ s ∈ c.secrets, ¬ rt.OfAgent name s.labels
  configs : ∀ s ∈ c.configs, ¬ rt.OfAgent name s.labels

/-- One service answers to the name, and no other service is of the
agent. -/
def Sole : Prop :=
  ∃ s, rt.candidates name c = [s] ∧ ∀ t ∈ c.services, rt.OfAgent name t.spec.labels → t.id = s.id

/-- The listing of the services does not fail, and finds the agent. -/
def Finds : Prop := rt.docker.fault c.requests.length = none ∧ rt.Sole name c

variable {rt name c}

theorem NothingLeft.congr (h : SameContent c c') :
    rt.NothingLeft name c' ↔ rt.NothingLeft name c := by
  constructor
  · rintro ⟨hservices, hsecrets, hconfigs⟩
    exact ⟨h.services ▸ hservices, h.secrets ▸ hsecrets, h.configs ▸ hconfigs⟩
  · rintro ⟨hservices, hsecrets, hconfigs⟩
    exact ⟨h.services ▸ hservices, h.secrets ▸ hsecrets, h.configs ▸ hconfigs⟩

/-- What the lookup finds is what there is. -/
theorem candidates_of_getService {s : Service} {c₁ : Cluster}
    (h : exec (rt.getService name) c = (.ok s, c₁)) :
    rt.docker.fault c.requests.length = none ∧ rt.candidates name c = [s] := by
  have hfault : rt.docker.fault c.requests.length = none := by
    cases hfault : rt.docker.fault c.requests.length with
    | none => rfl
    | some e =>
      unfold getService Docker.listServices at h
      simp only [exec_bind, Docker.exec_request, hfault] at h
      cases h
  exact ⟨hfault, (getService_eq_ok_iff hfault).mp (congrArg Prod.fst h)⟩

/-- Nothing of the agent is left after a call that returns True, if and
only if nothing was there or the call has found the agent. -/
theorem nothingLeft_iff (h : exec (rt.deleteAgent (.name name)) c = (.ok true, c')) :
    rt.NothingLeft name c' ↔ rt.NothingLeft name c ∨ rt.Finds name c := by
  have hkeeps := frame_sameContent.keeps_getService rt name c
  rcases hget : exec (rt.getService name) c with ⟨e | s, c₁⟩ <;> rw [hget] at hkeeps
  · -- not found
    rw [exec_deleteAgent_of_error hget] at h
    have hfinds : ¬ rt.Finds name c := by
      rintro ⟨hfault, s, hs, -⟩
      have hok := (getService_eq_ok_iff hfault).mpr hs
      rw [hget] at hok
      cases hok
    obtain rfl : c₁ = c' := congrArg Prod.snd h
    rw [NothingLeft.congr hkeeps]
    exact ⟨.inl, fun h => h.resolve_right hfinds⟩
  · -- found, and removed
    obtain ⟨hfault, hcandidates⟩ := candidates_of_getService hget
    rw [exec_deleteAgent_of_ok hget] at h
    obtain ⟨hservices, hsecrets, hconfigs⟩ := removeAll_ok h
    rw [hkeeps.services] at hservices
    constructor
    · intro hleft
      refine .inr ⟨hfault, s, hcandidates, fun t ht hlabels => ?_⟩
      by_contra hne
      exact hleft.services t (hservices ▸ List.mem_filter.mpr ⟨ht, by simpa using hne⟩) hlabels
    · intro hbefore
      refine ⟨fun t ht hlabels => ?_, hsecrets, hconfigs⟩
      rw [hservices] at ht
      obtain ⟨ht, hne⟩ := List.mem_filter.mp ht
      rcases hbefore with hbefore | ⟨-, s', hs', hsole⟩
      · exact hbefore.services t ht hlabels
      · obtain rfl : s = s' := by simpa [hcandidates] using hs'
        simp [hsole t ht hlabels] at hne

/-! ## §3 Repeated calls -/

variable (rt name) in
/-- What calls that have raised, one after the other, make of a cluster. -/
def Retried (c₀ c : Cluster) : Prop :=
  Reachable (fun c (_ : Unit) => (exec (rt.deleteAgent (.name name)) c).2)
    (fun c _ => ∃ e, (exec (rt.deleteAgent (.name name)) c).1 = .error e) c₀ c

variable (rt name c) in
/-- The agent's service is gone, and no other one is of the agent. -/
def Gone : Prop :=
  rt.candidates name c = [] ∧ ∀ t ∈ c.services, ¬ rt.OfAgent name t.spec.labels

/-- Both depend on the services only. -/
theorem Gone.congr (h : c'.services = c.services) : rt.Gone name c' ↔ rt.Gone name c := by
  rw [Gone, Gone, candidates, candidates, h]

theorem Sole.congr (h : c'.services = c.services) : rt.Sole name c' ↔ rt.Sole name c := by
  rw [Sole, Sole, candidates, candidates, h]

theorem Sole.not_gone (h : rt.Sole name c) : ¬ rt.Gone name c := by
  rintro ⟨hnone, -⟩
  obtain ⟨s, hs, -⟩ := h
  rw [hs] at hnone
  cases hnone

/-- Without its service the agent is gone. -/
theorem gone_of_removed {s : Service} (hs : rt.candidates name c = [s])
    (hsole : ∀ t ∈ c.services, rt.OfAgent name t.spec.labels → t.id = s.id)
    (h : c'.services = c.services.filter fun t => t.id ≠ s.id) : rt.Gone name c' := by
  constructor
  · have hfilter : rt.candidates name c' = (rt.candidates name c).filter fun t => t.id ≠ s.id := by
      rw [candidates, candidates, h, List.filter_filter, List.filter_filter]
      exact List.filter_congr fun t _ => Bool.and_comm _ _
    rw [hfilter, hs]
    simp
  · intro t ht hlabels
    rw [h] at ht
    obtain ⟨ht, hne⟩ := List.mem_filter.mp ht
    simp [hsole t ht hlabels] at hne

/-- A call leaves the services as they are, or the agent is gone. -/
theorem services_of_call (hsole : rt.Sole name c) :
    (exec (rt.deleteAgent (.name name)) c).2.services = c.services ∨
      rt.Gone name (exec (rt.deleteAgent (.name name)) c).2 := by
  have hkeeps := frame_sameContent.keeps_getService rt name c
  rcases hget : exec (rt.getService name) c with ⟨e' | s, c₁⟩ <;> rw [hget] at hkeeps
  · rw [exec_deleteAgent_of_error hget]
    exact .inl hkeeps.services
  · obtain ⟨-, hcandidates⟩ := candidates_of_getService hget
    obtain ⟨s', hs', hof⟩ := hsole
    obtain rfl : s = s' := by simpa [hcandidates] using hs'
    rw [exec_deleteAgent_of_ok hget]
    rcases rt.removeAll_fewer s name c₁ with ⟨e', c₂, herror, hsame⟩ | hservices
    · rw [herror]
      exact .inl (hsame.services.trans hkeeps.services)
    · exact .inr (gone_of_removed hcandidates hof (hkeeps.services ▸ hservices))

/-- Calls that have raised leave the services as they were, or the agent is
gone. -/
theorem services_of_retried {c₀ : Cluster} (h : rt.Retried name c₀ c) (hsole : rt.Sole name c₀) :
    c.services = c₀.services ∨ rt.Gone name c := by
  refine h.invariant (fun c => c.services = c₀.services ∨ rt.Gone name c) (.inl rfl) ?_
  rintro c - (hsame | hgone) -
  · rcases services_of_call ((Sole.congr hsame).mpr hsole) with h | h
    · exact .inl (h.trans hsame)
    · exact .inr h
  · -- the lookup does not find it
    have hkeeps := frame_sameContent.keeps_getService rt name c
    rcases hget : exec (rt.getService name) c with ⟨e' | s, c₁⟩ <;> rw [hget] at hkeeps
    · rw [exec_deleteAgent_of_error hget]
      exact .inr ((Gone.congr hkeeps.services).mpr hgone)
    · have hs := (candidates_of_getService hget).2
      rw [hgone.1] at hs
      cases hs

/-- After a call that returns True nothing of the agent is left, if and
only if nothing was there or this call has found the agent; and an agent
that was there is still found after calls that have failed, if and only if
none of them has removed its service. -/
theorem deleteAgent_complete_iff {c₀ : Cluster} (hrun : rt.Retried name c₀ c)
    (h : exec (rt.deleteAgent (.name name)) c = (.ok true, c')) :
    (rt.NothingLeft name c' ↔ rt.NothingLeft name c ∨ rt.Finds name c) ∧
      (rt.Sole name c₀ → (rt.Finds name c ↔
        rt.docker.fault c.requests.length = none ∧ c.services = c₀.services)) := by
  refine ⟨nothingLeft_iff h, fun hsole => and_congr_right fun _ => ?_⟩
  constructor
  · intro hfound
    exact (services_of_retried hrun hsole).resolve_right hfound.not_gone
  · exact fun hsame => (Sole.congr hsame).mpr hsole

end DockerSwarmRuntime

/-! ## §4 A call that failed -/

/-- `bare`, where the image of the agent has been deleted. -/
def imageless : DockerSwarmRuntime :=
  { bare with docker :=
    { bare.docker with image := fun name => .error (.imageNotFound ("No such image: " ++ name)) } }

/-- An agent with one secret. -/
def armed : Cluster where
  services := [bareService 0 "prod_arm"]
  secrets := [⟨1, "prod_arm_key", Dict.empty.update (bare.agentLabels "prod_arm"), []⟩]

/-- The first call removes the service and fails. -/
def armedFailed : Cluster :=
  (exec (imageless.deleteAgent (.name "prod_arm")) armed).2

namespace DockerSwarmRuntime

theorem retried_armed : imageless.Retried "prod_arm" armed armedFailed :=
  .step () .init ⟨.imageNotFound "No such image: arm:1", by decide⟩

theorem deleteAgent_armed :
    exec (imageless.deleteAgent (.name "prod_arm")) armedFailed =
      (.ok true, (exec (imageless.deleteAgent (.name "prod_arm")) armedFailed).2) :=
  Prod.ext (by decide) rfl

theorem deleteAgent_complete_iff_armed :
    (imageless.NothingLeft "prod_arm"
        (exec (imageless.deleteAgent (.name "prod_arm")) armedFailed).2 ↔
      imageless.NothingLeft "prod_arm" armedFailed ∨ imageless.Finds "prod_arm" armedFailed) ∧
    (imageless.Sole "prod_arm" armed → (imageless.Finds "prod_arm" armedFailed ↔
      imageless.docker.fault armedFailed.requests.length = none ∧
        armedFailed.services = armed.services)) :=
  deleteAgent_complete_iff retried_armed deleteAgent_armed

/-- The second call returns True, and the secret stays. -/
theorem secret_left :
    ¬ ∀ (rt : DockerSwarmRuntime) (name : String) (c₀ c c' : Cluster), rt.Retried name c₀ c →
      exec (rt.deleteAgent (.name name)) c = (.ok true, c') → rt.NothingLeft name c' := by
  intro h
  have hleft := h imageless "prod_arm" armed armedFailed _ retried_armed deleteAgent_armed
  exact hleft.secrets ⟨1, "prod_arm_key", Dict.empty.update (bare.agentLabels "prod_arm"), []⟩
    List.mem_cons_self (by unfold OfAgent; decide)

end DockerSwarmRuntime

end Iams.Runtime
