/-
Iams.Runtime.ConfigTheorems — the configs of the agents over whole runs.

A run is a list of calls to the runtime, each of which may fail at any
request to docker (`Operation`). In every state of a run the configs are
`Filed`, and a call leaves the configs of other agents alone. So the config
of an update that returns is what the service mounts and what
`get_agent_config` reads afterwards (`getAgentConfig_of_renewed`), if the
digest tells it from the older configs of the agent.

A creation removes no config. It renews the service of an agent that has
none.

No `sorry`, no `axiom`, no `native_decide`.
-/
import Iams.Runtime.ConfigSteps

namespace Iams.Runtime

open Iams.Lib Iams.Lib.Procedure
open Iams.Servicer (AgentData Bytes)

/-- The name that `get_service_and_name` finds. -/
def Target.agentName : Target → String
  | .service s => s.spec.name
  | .name n => n

namespace DockerSwarmRuntime

variable {rt : DockerSwarmRuntime} {request : AgentData} {before : List Blob}

/-! ## `deploy` -/

/-- How a service refers to its config. -/
def configReference (config : Blob) : Reference := ⟨config.id, config.name, "/config"⟩

/-- What is known before the old configs are removed. -/
def Deployed (rt : DockerSwarmRuntime) (request : AgentData) (before : List Blob)
    (references : List Reference) (old configs : List Blob) : Prop :=
  rt.ConfigsApart request.name before configs ∧ (request.config = [] → old = []) ∧
    (request.config ≠ [] → ∃ config, references = [configReference config] ∧
      rt.Placed request.name request.config before config old configs)

/-- Without a config nothing is done. -/
theorem triple_deployConfig :
    Triple (rt.Files (· = before)) (rt.deployConfig request)
      (fun out => rt.Files (rt.Deployed request before out.1 out.2))
      (rt.Files (rt.ConfigsApart request.name before)) := by
  unfold deployConfig
  split
  · next hconfig =>
    refine .bind (triple_setConfig hconfig) fun found => ?_
    rcases found with ⟨_ | config, old⟩
    · exact .throw fun c h => h.imp fun _ h => h.1
    · refine .pure fun c h => h.imp fun configs h =>
        ⟨h.1, fun hnil => absurd hnil hconfig, fun _ => ?_⟩
      obtain ⟨config', hsome, hplaced⟩ := h.2
      cases hsome
      exact ⟨config, rfl, hplaced⟩
  · next hconfig =>
    refine .pure fun c h => h.imp ?_
    rintro _ rfl
    exact ⟨fun _ _ => rfl, fun _ => rfl, fun hne => absurd hne hconfig⟩

/-- The agent has one config, with this content, and the service mounts
it. -/
def Stored (rt : DockerSwarmRuntime) (agent : String) (data : Bytes) (before : List Blob)
    (c : Cluster) : Prop :=
  ∃ config spec, rt.configsOf agent c.configs = [config] ∧
    config.name = rt.configName agent data ∧ (config.data = data ∨ config ∈ before) ∧
    submitted c = some spec ∧ spec.configs = [configReference config]

/-- A request that submits a service. -/
theorem triple_submitted {r : Request} {f : Cluster → Cluster} {spec : ServiceSpec}
    {R R' : List Blob → Prop}
    (hsame : Keeps SameConfigs (rt.docker.request r >>= fun _ => modify f))
    (hr : r.spec? = some spec) (hsecrets : ∀ c, (f c).secrets = c.secrets)
    (hrequests : ∀ c, (f c).requests = c.requests) (hR : ∀ configs, R configs → R' configs) :
    Triple (rt.Files R) (rt.docker.request r >>= fun _ => modify f)
      (fun _ c => rt.Files R c ∧ submitted c = some spec) (rt.Files R') := by
  intro c h
  have hfiles := triple_same hsame hR c h
  rcases hexec : exec (rt.docker.request r >>= fun _ => modify f) c with ⟨e | ⟨⟩, c'⟩ <;>
    rw [hexec] at hfiles
  · exact hfiles
  · exact ⟨hfiles, (Docker.submit_modify_ok hexec hr hsecrets hrequests).2⟩

/-- An old config is one of the agent. -/
theorem Deployed.old_ofAgent {references : List Reference} {old configs : List Blob} {nextId : Nat}
    (h : rt.Deployed request before references old configs) (hfiled : rt.Filed configs nextId) :
    ∀ o ∈ old, ∀ b ∈ configs, b.id = o.id → rt.OfAgent request.name b.labels := by
  intro o ho b hb hid
  by_cases hconfig : request.config = []
  · rw [h.2.1 hconfig] at ho
    exact absurd ho List.not_mem_nil
  · obtain ⟨config, -, hplaced⟩ := h.2.2 hconfig
    obtain ⟨⟨hmem, hof⟩, -⟩ := (hplaced.mem_old o).mp ho
    rwa [List.inj_on_of_nodup_map hfiled.ids hb hmem hid]

/-- The call has updated the service, or created one for an agent that had
no config. -/
def Renewed (rt : DockerSwarmRuntime) (agent : String) (before : List Blob)
    (created : Option Bool) : Prop :=
  created = some false ∨ created = some true ∧ rt.configsOf agent before = []

/-- What a call leaves: the configs of other agents, and the config of the
request. -/
def Left (rt : DockerSwarmRuntime) (request : AgentData) (before : List Blob)
    (out : AgentData × Option Bool) (c : Cluster) : Prop :=
  rt.Files (rt.ConfigsApart request.name before) c ∧
    (rt.Renewed request.name before out.2 → request.config ≠ [] →
      rt.Stored request.name request.config before c)

/-- The end of an update. -/
theorem triple_finish {service : Service} {spec : ServiceSpec} {oldSecrets old : List Blob}
    (result : AgentData × Option Bool) :
    Triple (rt.Files (rt.Deployed request before spec.configs old))
      (do
        rt.docker.updateService service.id spec
        oldSecrets.forM fun secret => rt.docker.removeSecret secret.id
        old.forM fun config => rt.docker.removeConfig config.id
        return result)
      (rt.Left request before) (rt.Files (rt.ConfigsApart request.name before)) := by
  refine .bind (triple_submitted (rt.docker.sameConfigs_updateService _ _) rfl (fun _ => rfl)
    (fun _ => rfl) fun _ h => h.1) fun _ => ?_
  refine .bind ((triple_same (frame_sameConfigs.keeps_forM fun _ =>
    rt.docker.sameConfigs_removeSecret _) fun _ h => h.1).frame
      (frame_sameSubmitted.keeps_forM fun _ => rt.docker.submitted_removeSecret _)
      fun _ _ h hsame => hsame.trans h) fun _ => ?_
  -- the configs, as they are when the first one is removed
  rintro c ⟨⟨hfiled, hdeployed⟩, hsubmitted⟩
  have hold := hdeployed.old_ofAgent hfiled
  have hremove := ((triple_removeConfigs hold hdeployed.1).frame
    (frame_sameSubmitted.keeps_forM fun _ => rt.docker.submitted_removeConfig _)
    (F := fun c => submitted c = some spec) fun _ _ h hsame => hsame.trans h)
  refine (Triple.bind hremove fun _ => .pure (Q := rt.Left request before) ?_) c
    ⟨⟨hfiled, rfl⟩, hsubmitted⟩
  rintro c' ⟨⟨hfiled', hconfigs⟩, hsubmitted'⟩
  refine ⟨⟨hfiled', hconfigs ▸ hdeployed.1.remove fun b hb hgone => ?_⟩, fun _ hconfig => ?_⟩
  · obtain ⟨o, ho, hid⟩ : ∃ o ∈ old, b.id = o.id := by simpa using hgone
    exact hold o ho b hb hid
  · obtain ⟨config, hreferences, hplaced⟩ := hdeployed.2.2 hconfig
    exact ⟨config, spec, hconfigs ▸ hplaced.configsOf_without hfiled, hplaced.name_eq,
      hplaced.content, hsubmitted', hreferences⟩

theorem apart_refl (rt : DockerSwarmRuntime) (agent : String) (configs : List Blob) :
    rt.ConfigsApart agent configs configs := fun _ _ => rfl

theorem triple_deploy {service : Option Service} {scale : Nat} {skipLabelTest : Bool} :
    Triple (rt.Files (· = before)) (rt.deploy request service scale skipLabelTest)
      (rt.Left request before) (rt.Files (rt.ConfigsApart request.name before)) := by
  have hbefore : ∀ configs, configs = before → rt.ConfigsApart request.name before configs := by
    rintro _ rfl
    exact rt.apart_refl _ _
  refine .bind (triple_same (frame_sameConfigs.keeps_getImage rt.docker _) hbefore)
    fun imageLabels => ?_
  dsimp only
  split
  · exact .throw fun c h => h.imp hbefore
  refine .bind (triple_same (frame_sameConfigs.keeps_liftExcept _) hbefore) fun res => ?_
  refine .bind (triple_same (rt.sameConfigs_setSecrets _ _) hbefore) fun generated => ?_
  refine .bind (triple_same (frame_sameConfigs.keeps_getSecrets rt _) hbefore) fun configured => ?_
  refine .bind triple_deployConfig fun configs => ?_
  cases service with
  | none =>
    refine .bind (triple_submitted (rt.docker.sameConfigs_createService _) rfl (fun _ => rfl)
      (fun _ => rfl) fun _ h => h.1) fun _ => .pure ?_
    rintro c ⟨h, hsubmitted⟩
    refine ⟨h.imp fun _ h => h.1, fun hrenewed hconfig => ?_⟩
    obtain ⟨config, hreferences, hplaced⟩ := h.2.2.2 hconfig
    have hnone := (hrenewed.resolve_left (by simp)).2
    exact ⟨config, _, hplaced.configsOf_of_nil h.1 hnone, hplaced.name_eq, hplaced.content,
      hsubmitted, hreferences⟩
  | some service => exact (triple_finish _).pre fun _ h => h

/-! ## `update_agent` and `delete_agent` -/

theorem triple_submit {service : Option Service} {scale : Nat} {create update skip : Bool} :
    Triple (rt.Files (· = before)) (rt.submit request service scale create update skip)
      (rt.Left request before) (rt.Files (rt.ConfigsApart request.name before)) := by
  have hbefore : ∀ configs, configs = before → rt.ConfigsApart request.name before configs := by
    rintro _ rfl
    exact rt.apart_refl _ _
  unfold submit
  split
  · exact .throw fun c h => h.imp hbefore
  split
  · exact .throw fun c h => h.imp hbefore
  split
  · exact .pure fun c h => ⟨h.imp hbefore, by simp [Renewed]⟩
  · exact triple_deploy

/-- Whatever is tried first keeps the configs. -/
theorem triple_tryNotFound {α : Type} {x : Proc α} {P : α → Prop} (hx : Keeps SameConfigs x)
    (hP : ∀ c c' a, exec x c = (.ok a, c') → P a) :
    Triple (rt.Files (· = before))
      (tryCatch (some <$> x) fun e => if e.isNotFound then pure none else throw e)
      (fun found c => (∀ a, found = some a → P a) ∧ rt.Files (· = before) c)
      (rt.Files (· = before)) := by
  intro c h
  have hsame : SameConfigs c (exec x c).2 := hx c
  have hfiles := h.same hsame
  rw [exec_tryNotFound]
  rcases hexec : exec x c with ⟨e | a, c'⟩ <;> rw [hexec] at hfiles
  · dsimp only
    by_cases he : e.isNotFound
    · rw [if_pos he]
      exact ⟨nofun, hfiles⟩
    · rw [if_neg he]
      exact hfiles
  · exact ⟨fun b hb => Option.some.inj hb ▸ hP c c' a hexec, hfiles⟩

theorem triple_updateAgent {create update skip : Bool} :
    Triple (rt.Files (· = before)) (rt.updateAgent request create update skip)
      (rt.Left request before) (rt.Files (rt.ConfigsApart request.name before)) := by
  have hcurrent : Triple (rt.Files (· = before))
      (tryCatch (some <$> rt.current request update) fun e =>
        if e.isNotFound then pure none else throw e)
      (fun found c => (∀ f, found = some f → f.request = request) ∧ rt.Files (· = before) c)
      (rt.Files (rt.ConfigsApart request.name before)) :=
    (triple_tryNotFound (rt.keeps_current frame_sameConfigs request update)
      fun _ _ f hf => (rt.current_ok hf).2.1).conseq (fun _ h => h) (fun _ _ h => h) fun c h =>
        h.imp (by rintro _ rfl; exact rt.apart_refl _ _)
  refine .bind hcurrent fun found => .assume fun hfound => ?_
  cases found with
  | none => exact triple_submit
  | some found =>
    dsimp only
    rw [hfound found rfl]
    exact triple_submit

theorem triple_deleteAgentConfigs {name : String} :
    Triple (rt.Files (· = before)) (rt.deleteAgentConfigs name)
      (fun _ => rt.Files (rt.ConfigsApart name before))
      (rt.Files (rt.ConfigsApart name before)) := by
  refine .bind (triple_listConfigs (by rintro _ rfl; exact rt.apart_refl _ _)) fun found => ?_
  rintro c ⟨hfiled, rfl, hfound⟩
  have hold : ∀ o ∈ found, ∀ b ∈ c.configs, b.id = o.id → rt.OfAgent name b.labels := by
    intro o ho b hb hid
    obtain ⟨hmem, hof⟩ := mem_configsOf.mp ((hfound o).mp ho)
    rwa [List.inj_on_of_nodup_map hfiled.ids hb hmem hid]
  refine (triple_removeConfigs hold (rt.apart_refl _ _)).post ?_ c ⟨hfiled, rfl⟩
  rintro _ c' ⟨hfiled', hconfigs⟩
  refine ⟨hfiled', hconfigs ▸ (rt.apart_refl _ _).remove fun b hb hgone => ?_⟩
  obtain ⟨o, ho, hid⟩ : ∃ o ∈ found, b.id = o.id := by simpa using hgone
  exact hold o ho b hb hid

theorem triple_deleteAgent {name : String} :
    Triple (rt.Files (· = before)) (rt.deleteAgent (.name name))
      (fun _ => rt.Files (rt.ConfigsApart name before))
      (rt.Files (rt.ConfigsApart name before)) := by
  have hbefore : ∀ configs, configs = before → rt.ConfigsApart name before configs := by
    rintro _ rfl
    exact rt.apart_refl _ _
  have hfind : Triple (rt.Files (· = before))
      (tryCatch (some <$> rt.getServiceAndName (.name name)) fun e =>
        if e.isNotFound then pure none else throw e)
      (fun found c => (∀ f, found = some f → f.2 = name) ∧ rt.Files (· = before) c)
      (rt.Files (rt.ConfigsApart name before)) :=
    (triple_tryNotFound (frame_sameConfigs.keeps_getServiceAndName rt _) fun _ _ f hf => by
      obtain ⟨_, _, -, h⟩ := exec_bind_eq_ok.mp hf
      cases h
      rfl).conseq (fun _ h => h) (fun _ _ h => h) fun c h => h.imp hbefore
  refine .bind hfind fun found => .assume fun hfound => ?_
  rcases found with _ | ⟨service, name'⟩
  · exact .pure fun c h => h.imp hbefore
  · obtain rfl : name' = name := hfound _ rfl
    refine .bind (triple_same (rt.docker.sameConfigs_removeService _) hbefore) fun _ => ?_
    refine .bind (triple_same (frame_sameConfigs.keeps_deleteAgentPlugins rt _) hbefore) fun _ => ?_
    refine .bind (triple_same (rt.sameConfigs_deleteAgentSecrets _) hbefore) fun _ => ?_
    exact .bind triple_deleteAgentConfigs fun _ => .pure fun _ h => h

/-! ## Runs -/

/-- A call to the runtime. -/
inductive Operation where
  | update (request : AgentData) (create update skipLabelTest : Bool)
  | delete (name : String)
  | wake (name : String)
  | sleep (name : String)

/-- The agent that it is about. -/
def Operation.agent : Operation → String
  | .update request _ _ _ => request.name
  | .delete name | .wake name | .sleep name => name

/-- The cluster after the call, whether it has returned or raised. -/
def Operation.run (rt : DockerSwarmRuntime) (c : Cluster) : Operation → Cluster
  | .update request create upd skipLabelTest =>
    (exec (rt.updateAgent request create upd skipLabelTest) c).2
  | .delete name => (exec (rt.deleteAgent (.name name)) c).2
  | .wake name => (exec (rt.wakeAgent name) c).2
  | .sleep name => (exec (rt.sleepAgent name) c).2

/-- One call: the configs stay filed, and those of other agents as they
are. -/
theorem files_run (op : Operation) {c : Cluster} (h : rt.Filed c.configs c.nextId) :
    rt.Files (rt.ConfigsApart op.agent c.configs) (op.run rt c) := by
  have hfiles : rt.Files (· = c.configs) c := ⟨h, rfl⟩
  have hsame {x : Proc Unit} (hx : Keeps SameConfigs x) :
      rt.Files (rt.ConfigsApart op.agent c.configs) (exec x c).2 :=
    (hfiles.same (hx c)).imp (by rintro _ rfl; exact rt.apart_refl _ _)
  cases op with
  | update request create update skip =>
    exact (triple_updateAgent.post fun _ _ h => h.1).always hfiles
  | delete name => exact triple_deleteAgent.always hfiles
  | wake name => exact hsame (rt.sameConfigs_scaleAgent 1 name)
  | sleep name => exact hsame (rt.sameConfigs_scaleAgent 0 name)

theorem filed_run (ops : List Operation) {c : Cluster} (h : rt.Filed c.configs c.nextId) :
    rt.Filed (ops.foldl (Operation.run rt) c).configs (ops.foldl (Operation.run rt) c).nextId := by
  induction ops generalizing c with
  | nil => exact h
  | cons op rest ih => exact ih (files_run op h).1

/-- Calls about other agents keep the configs of this one. -/
theorem configsOf_run {agent : String} {ops : List Operation} {c : Cluster}
    (h : rt.Filed c.configs c.nextId) (hops : ∀ op ∈ ops, op.agent ≠ agent) :
    rt.configsOf agent (ops.foldl (Operation.run rt) c).configs = rt.configsOf agent c.configs := by
  induction ops generalizing c with
  | nil => rfl
  | cons op rest ih =>
    obtain ⟨hfiled, hapart⟩ := files_run op h
    obtain ⟨hop, hrest⟩ := List.forall_mem_cons.mp hops
    exact (ih hfiled hrest).trans (hapart agent hop.symm)

theorem named_configName (agent : String) (data : Bytes) :
    named agent (rt.configName agent data) = true := by
  simp [named, configName]

/-- Where an agent has one config, this is what is read. -/
theorem getAgentConfig_eq {target : Target} {config : Blob} {c c' : Cluster} {read : Option Bytes}
    (hfiled : rt.Filed c.configs c.nextId)
    (hconfig : rt.configsOf target.agentName c.configs = [config])
    (h : exec (rt.getAgentConfig target) c = (.ok read, c')) : read = some config.data := by
  obtain ⟨⟨service, name⟩, c₁, hname, h⟩ := exec_bind_eq_ok.mp h
  obtain rfl : name = target.agentName := by
    cases target with
    | service s =>
      cases hname
      rfl
    | name name =>
      obtain ⟨_, _, -, h⟩ := exec_bind_eq_ok.mp hname
      cases h
      rfl
  have hsame := frame_sameConfigs.keeps_getServiceAndName rt target c
  rw [hname] at hsame
  obtain ⟨found, c₂, hlist, h⟩ := exec_bind_eq_ok.mp h
  obtain ⟨⟨⟩, c₃, hrequest, hlist⟩ := exec_bind_eq_ok.mp hlist
  obtain rfl := Docker.request_ok hrequest
  cases hlist
  dsimp only at h
  -- the name filter passes every config that the label filter does
  have hperm := rt.docker.list_perm c₁.configs fun b =>
    named target.agentName b.name && labelled (rt.agentLabels target.agentName) b.labels
  have hfilter : (c₁.configs.filter fun b => named target.agentName b.name &&
      labelled (rt.agentLabels target.agentName) b.labels) = [config] := by
    rw [hsame.configs, ← hconfig, configsOf]
    refine List.filter_congr fun b hb => ?_
    by_cases hbof : rt.OfAgent target.agentName b.labels
    · rw [(hfiled.named _ b hb hbof).1, named_configName, decide_eq_true hbof]
      exact hbof
    · simp only [hbof, decide_false, Bool.and_eq_false_iff]
      exact .inr (Bool.eq_false_iff.mpr hbof)
  rw [hfilter] at hperm
  rw [List.perm_singleton.mp hperm] at h
  cases h
  rfl

/-- After a call that has renewed the service with a config, the service
mounts the config, and as long as calls are about other agents the agent has
this config only, and reads it. -/
theorem getAgentConfig_of_renewed {ops : List Operation} {c₀ c : Cluster}
    {request result : AgentData} {create update skipLabelTest : Bool} {created : Option Bool}
    (hfiled : rt.Filed c₀.configs c₀.nextId)
    (hcall : exec (rt.updateAgent request create update skipLabelTest)
      (ops.foldl (Operation.run rt) c₀) = (.ok (result, created), c))
    (hrenewed : rt.Renewed request.name (ops.foldl (Operation.run rt) c₀).configs created)
    (hconfig : request.config ≠ [])
    (hdigest : ∀ b ∈ rt.configsOf request.name (ops.foldl (Operation.run rt) c₀).configs,
      rt.md5 b.data = rt.md5 request.config → b.data = request.config) :
    ∃ config spec, submitted c = some spec ∧ spec.configs = [configReference config] ∧
      config.data = request.config ∧
      ∀ later : List Operation, (∀ op ∈ later, op.agent ≠ request.name) →
        rt.configsOf request.name (later.foldl (Operation.run rt) c).configs = [config] ∧
        ∀ target : Target, target.agentName = request.name → ∀ read c',
          exec (rt.getAgentConfig target) (later.foldl (Operation.run rt) c) = (.ok read, c') →
            read = some request.config := by
  have hbefore := filed_run ops hfiled
  obtain ⟨⟨hafter, -⟩, hstored⟩ := triple_updateAgent.of_ok ⟨hbefore, rfl⟩ hcall
  obtain ⟨config, spec, hone, hname, hcontent, hsubmitted, hmounted⟩ := hstored hrenewed hconfig
  obtain ⟨hmem, hof⟩ := mem_configsOf.mp (hone ▸ List.mem_singleton_self config :
    config ∈ rt.configsOf request.name c.configs)
  have hdata : config.data = request.config := by
    refine hcontent.elim id fun hold => hdigest config (mem_configsOf.mpr ⟨hold, hof⟩) ?_
    have heq := ((hafter.named _ config hmem hof).1.symm.trans hname)
    simpa [configName] using heq
  refine ⟨config, spec, hsubmitted, hmounted, hdata, fun later hlater => ?_⟩
  have hlast := (configsOf_run hafter hlater).trans hone
  refine ⟨hlast, fun target htarget read c' hread => ?_⟩
  rw [← hdata]
  exact getAgentConfig_eq (filed_run later hafter) (htarget ▸ hlast) hread

/-- `bare`, with a digest for each of two configs. -/
def configRuntime : DockerSwarmRuntime :=
  { bare with md5 := fun data => if data = [1] then "55a54008" else "9e688c58" }

def configRequest (name : String) (config : Bytes) : AgentData :=
  { name := name, image := "arm", version := "1", config := config }

/-- Two agents, with one config each. -/
def createdArms : List Operation :=
  [.update (configRequest "prod_arm" [1]) true false false,
    .update (configRequest "prod_rover" [1]) true false false]

/-- The cluster after the config of `prod_arm` has been replaced. -/
def armUpdated : Cluster :=
  (exec (configRuntime.updateAgent (configRequest "prod_arm" [2]) false true false)
    (createdArms.foldl (Operation.run configRuntime) {})).2

/-- The other agent is deleted, and the new config is read. -/
theorem getAgentConfig_of_renewed_arm :
    (exec (configRuntime.getAgentConfig (.name "prod_arm"))
      ([.delete "prod_rover"].foldl (Operation.run configRuntime) armUpdated)).1 =
        .ok (some [2]) := by
  have hcall : exec (configRuntime.updateAgent (configRequest "prod_arm" [2]) false true false)
      (createdArms.foldl (Operation.run configRuntime) {}) =
        (.ok ({ configRequest "prod_arm" [2] with preferences := ["node.labels.worker"] },
          some false), armUpdated) := Prod.ext (by decide) rfl
  have hdigest : ∀ b ∈ configRuntime.configsOf "prod_arm"
      (createdArms.foldl (Operation.run configRuntime) {}).configs,
        configRuntime.md5 b.data = configRuntime.md5 [2] → b.data = [2] := by decide
  obtain ⟨config, spec, -, -, -, hlater⟩ := getAgentConfig_of_renewed
    filed_nil hcall (.inl rfl) (by decide) hdigest
  have hread := (hlater [.delete "prod_rover"] (by decide)).2 (.name "prod_arm") rfl
  have hok : (exec (configRuntime.getAgentConfig (.name "prod_arm"))
      ([.delete "prod_rover"].foldl (Operation.run configRuntime) armUpdated)).1.isOk = true := by
    decide +kernel
  rcases hexec : exec (configRuntime.getAgentConfig (.name "prod_arm"))
      ([.delete "prod_rover"].foldl (Operation.run configRuntime) armUpdated) with ⟨_ | read, c'⟩
  · rw [hexec] at hok
    cases hok
  · rw [hexec, hread read c' hexec]
    rfl

end DockerSwarmRuntime

end Iams.Runtime
