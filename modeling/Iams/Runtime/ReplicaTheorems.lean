/-
Iams.Runtime.ReplicaTheorems — how many replicas an agent has after a
sequence of commands.

`update_agent` keeps the replicas of a service that runs, and starts one
that does not if the request has `autostart` (`updateAgent_replicas`). This
holds again for the service that it leaves, so it holds after any number of
updates. `wake_agent` and `sleep_agent` expect a pair from `get_service` and
get a service: neither of them ever returns (`scaleAgent_raises`). So a
sequence of commands does what it is for exactly if it has neither
(`commandsFollow_iff`).

§1 waking and sleeping, §2 one update, §3 sequences.

No `sorry`, no `axiom`, no `native_decide`.
-/
import Iams.Lib.Transition
import Iams.Runtime.DeployTheorems
import Iams.Runtime.UpdateTheorems

namespace Iams.Runtime

open Iams.Lib Iams.Lib.Procedure
open Iams.Servicer (AgentData Bytes)

namespace DockerSwarmRuntime

variable {rt : DockerSwarmRuntime} {name : String} {c c' : Cluster}

/-! ## §1 Waking and sleeping -/

theorem scaleAgent_eq (rt : DockerSwarmRuntime) (replicas : Nat) (name : String) :
    rt.scaleAgent replicas name = rt.getService name >>= fun _ =>
      throw (.typeError "cannot unpack non-iterable Service object") :=
  rfl

/-- Whether the service is found or not. -/
theorem scaleAgent_raises (rt : DockerSwarmRuntime) (replicas : Nat) (name : String)
    (c : Cluster) : (exec (rt.scaleAgent replicas name) c).1 ≠ .ok () := by
  intro h
  rw [scaleAgent_eq] at h
  obtain ⟨_, _, -, hthrow⟩ := exec_bind_eq_ok.mp (Prod.ext h rfl)
  cases hthrow

/-! ## §2 One update -/

/-- `current` has found the only candidate, and takes its replicas. -/
theorem current_scale {request : AgentData} {update : Bool} {found : Found}
    (h : exec (rt.current request update) c = (.ok found, c')) :
    rt.candidates request.name c = [found.service] ∧
      ∃ n, found.service.spec.replicas = some n ∧
        found.scale = if n ≠ 0 then n else request.autostart.toNat := by
  obtain ⟨c₁, replicas, pair, env, hservice, hreplicas, -, -, hfound⟩ := rt.current_stages h
  refine ⟨getService_candidates hservice, replicas, ?_, by rw [hfound]⟩
  unfold ServiceSpec.getReplicas at hreplicas
  split at hreplicas
  · next n hn =>
    cases hreplicas
    exact hn
  · cases hreplicas

/-- The replicas of the agent, if there is one service for it. -/
def replicas (rt : DockerSwarmRuntime) (name : String) (c : Cluster) : Option Nat :=
  match rt.candidates name c with
  | [service] => service.spec.replicas
  | _ => none

/-- One service answers to the name, and it is replicated. Docker gives
every service an id of its own. -/
structure Present (rt : DockerSwarmRuntime) (name : String) (c : Cluster) : Prop where
  ids : (c.services.map Service.id).Nodup
  found : ∃ service n, rt.candidates name c = [service] ∧ service.spec.replicas = some n

/-- What `update_agent` makes of `n` replicas. -/
def scaled (request : AgentData) (n : Nat) : Nat := if n ≠ 0 then n else request.autostart.toNat

/-- What is submitted takes the place of the service that was found. -/
theorem candidates_replaced {service : Service} {spec : ServiceSpec}
    (hids : (c.services.map Service.id).Nodup) (hcand : rt.candidates name c = [service])
    (hservices : c'.services = c.services.map fun s =>
      if s.id = service.id then ⟨service.id, spec⟩ else s)
    (hname : named name spec.name = true) (hlabels : labelled rt.ownLabels spec.labels = true) :
    rt.candidates name c' = [⟨service.id, spec⟩] ∧ (c'.services.map Service.id).Nodup := by
  have hservice : service ∈ rt.candidates name c := hcand ▸ List.mem_cons_self
  obtain ⟨hmem, hmatch⟩ := List.mem_filter.mp hservice
  constructor
  · rw [candidates, hservices, List.filter_map]
    have hsame : ∀ s ∈ c.services,
        ((fun s => named name s.spec.name && labelled rt.ownLabels s.spec.labels) ∘
          fun s : Service => if s.id = service.id then ⟨service.id, spec⟩ else s) s =
        (named name s.spec.name && labelled rt.ownLabels s.spec.labels) := by
      intro s hs
      by_cases hid : s.id = service.id
      · rw [List.inj_on_of_nodup_map hids hs hmem hid, hmatch, Function.comp_apply, if_pos rfl,
          hname, hlabels, Bool.and_true]
      · rw [Function.comp_apply, if_neg hid]
    rw [List.filter_congr hsame]
    show (rt.candidates name c).map _ = _
    rw [hcand, List.map_singleton, if_pos rfl]
  · have hmap : c'.services.map Service.id = c.services.map Service.id := by
      rw [hservices, List.map_map]
      refine List.map_congr_left fun s _ => ?_
      by_cases hid : s.id = service.id
      · rw [Function.comp_apply, if_pos hid, hid]
      · rw [Function.comp_apply, if_neg hid]
    rwa [hmap]

/-- The services after an update that has returned. -/
theorem finish_services {service : Service} {d : Deployment}
    (h : exec (rt.finish (some service) d) c = (.ok (), c')) :
    c'.services = c.services.map fun s =>
      if s.id = service.id then
        ⟨service.id, { d.spec with image := rt.docker.pin d.spec.image }⟩ else s := by
  obtain ⟨_, c₁, hupdate, h⟩ := exec_bind_eq_ok.mp h
  obtain ⟨_, c₂, hsecrets, hconfigs⟩ := exec_bind_eq_ok.mp h
  obtain ⟨_, c₀, hrequest, hmodify⟩ := exec_bind_eq_ok.mp hupdate
  have hsame₂ := frame_sameServices.keeps_forM (l := d.oldSecrets)
    (fun secret => rt.docker.keeps_removeSecret secret.id) c₁
  have hsame₃ := frame_sameServices.keeps_forM (l := d.oldConfigs)
    (fun config => rt.docker.keeps_removeConfig config.id) c₂
  rw [hsecrets] at hsame₂
  rw [hconfigs] at hsame₃
  obtain rfl := Docker.request_ok hrequest
  cases hmodify
  rw [hsame₃, hsame₂]

/-- What comes before leaves the services as they are. -/
theorem Stages.sameServices {request : AgentData} {scale : Nat} {d : Deployment}
    {c c₁ c₂ c₃ c₄ : Cluster} (h : rt.Stages request scale d c c₁ c₂ c₃ c₄) :
    c₄.services = c.services := by
  have hR := requestFrame_sameServices
  have h₁ := hR.keeps_getImage rt.docker (request.image ++ ":" ++ request.version) c
  have h₂ := rt.keeps_setSecrets request.name d.resources.generated c₁
  have h₃ := hR.keeps_getSecrets rt d.resources.secrets.items c₂
  have h₄ := hR.keeps_deployConfig rt (fun _ _ => rfl) request c₃
  rw [h.image] at h₁
  rw [h.generated] at h₂
  rw [h.configured] at h₃
  rw [h.config] at h₄
  exact h₄.trans (h₃.trans (h₂.trans h₁))

/-- An update that returns has scaled the service, and the agent is there
as before. -/
theorem updateAgent_replicas {request : AgentData} {create update skipLabelTest : Bool}
    {result : AgentData} (hpresent : rt.Present request.name c)
    (h : exec (rt.updateAgent request create update skipLabelTest) c =
      (.ok (result, some false), c')) :
    (∃ n, rt.replicas request.name c = some n ∧
        rt.replicas request.name c' = some (scaled request n)) ∧
      rt.Present request.name c' := by
  obtain ⟨-, -, ⟨found, c₀, hcurrent, hdeploy⟩ | ⟨e, c₀, -, -, -, hdeploy⟩⟩ :=
    updateAgent_stages h
  · obtain ⟨hcand, n, hn, hscale⟩ := current_scale hcurrent
    obtain ⟨d, c₁, c₂, c₃, c₄, hstages, hfinish, -⟩ := deploy_stages hdeploy
    have hcurrentsame := rt.keeps_current requestFrame_sameServices request update c
    rw [hcurrent] at hcurrentsame
    have hservices := finish_services hfinish
    rw [hstages.sameServices, hcurrentsame] at hservices
    have hlabels : labelled rt.ownLabels d.spec.labels = true := by
      rw [hstages.spec_labels]
      exact (labelled_append.mp (labelled_resources hstages.resources)).1
    obtain ⟨hcand', hids⟩ := candidates_replaced hpresent.ids hcand hservices
      (hstages.spec_name ▸ named_self _) hlabels
    have hreplicas : d.spec.replicas = some (scaled request n) :=
      hstages.spec_replicas.trans (congrArg some hscale)
    refine ⟨⟨n, ?_, ?_⟩, hids, _, scaled request n, hcand', hreplicas⟩
    · rw [replicas, hcand]
      exact hn
    · rw [replicas, hcand']
      exact hreplicas
  · have hresult := deploy_ok hdeploy
    cases hresult

theorem unpackPair_error {parts : List String} {e : Error} (h : unpackPair parts = .error e) :
    e.isNotFound = false := by
  unfold unpackPair at h
  split at h
  · cases h
  · cases h
    rfl

theorem getEnv_error {spec : ServiceSpec} {e : Error} (h : spec.getEnv = .error e) :
    e.isNotFound = false := by
  unfold ServiceSpec.getEnv at h
  split at h
  · cases h
  · cases h
    rfl

/-- A program that ends in a `NotFound` has got past a value whose absence
raises something else. -/
theorem ok_of_notFound {α β : Type} {x : Except Error α} {f : α → Proc β} {e : Error}
    (hx : ∀ e, x = .error e → e.isNotFound = false) (he : e.isNotFound = true)
    (h : exec (liftExcept x >>= f) c = (.error e, c')) :
    ∃ a, x = .ok a ∧ exec (f a) c = (.error e, c') := by
  rw [exec_bind, exec_liftExcept] at h
  cases x with
  | ok a => exact ⟨a, rfl, h⟩
  | error e' =>
    cases h
    rw [hx _ rfl] at he
    cases he

/-- While docker answers, a call that returns has updated the service. -/
theorem updateAgent_false {request : AgentData} {create update skipLabelTest : Bool}
    {result : AgentData × Option Bool} (hfault : ∀ n, rt.docker.fault n = none)
    (hpresent : rt.Present request.name c)
    (h : exec (rt.updateAgent request create update skipLabelTest) c = (.ok result, c')) :
    result.2 = some false := by
  obtain ⟨-, -, ⟨found, c₀, -, hdeploy⟩ | ⟨e, c₀, hcurrent, hnotFound, -, -⟩⟩ :=
    updateAgent_stages h
  · exact deploy_ok hdeploy
  · exfalso
    obtain ⟨service, n, hcand, hn⟩ := hpresent.found
    have hget := (getService_eq_ok_iff (hfault _)).mpr hcand
    rw [rt.current_eq, exec_bind_of_ok (Prod.ext hget rfl)] at hcurrent
    have hreplicas : service.spec.getReplicas = .ok n := by rw [ServiceSpec.getReplicas, hn]
    rw [hreplicas, exec_bind_of_ok (exec_liftExcept _ _)] at hcurrent
    obtain ⟨_, -, hcurrent⟩ := ok_of_notFound (fun _ => unpackPair_error) hnotFound hcurrent
    obtain ⟨_, -, hcurrent⟩ := ok_of_notFound (fun _ => getEnv_error) hnotFound hcurrent
    obtain ⟨config, hconfig⟩ := exec_getAgentConfig hfault service
      (exec (rt.getService request.name) c).2
    rw [exec_bind_of_ok hconfig] at hcurrent
    cases hcurrent

/-! ## §3 Sequences -/

/-- A call that an agent's service is scaled by. -/
inductive Command where
  | wake
  | sleep
  | update (request : AgentData) (create renew skipLabelTest : Bool)

namespace Command

def isUpdate : Command → Bool
  | .update _ _ _ _ => true
  | _ => false

/-- The cluster after a call, whether it returns or raises. -/
def step (rt : DockerSwarmRuntime) (name : String) (c : Cluster) : Command → Cluster
  | .wake => (exec (rt.wakeAgent name) c).2
  | .sleep => (exec (rt.sleepAgent name) c).2
  | .update request create renew skipLabelTest =>
    (exec (rt.updateAgent request create renew skipLabelTest) c).2

/-- Updates are for this agent, and accepted: the service is updated. -/
def Accepted (rt : DockerSwarmRuntime) (name : String) (c : Cluster) : Command → Prop
  | .update request create renew skipLabelTest =>
    request.name = name ∧ ∃ result,
      (exec (rt.updateAgent request create renew skipLabelTest) c).1 = .ok (result, some false)
  | _ => True

/-- What a call is for. -/
def Follows (rt : DockerSwarmRuntime) (name : String) (c : Cluster) (command : Command) : Prop :=
  match command with
  | .wake => (exec (rt.wakeAgent name) c).1 = .ok () ∧
      rt.replicas name (step rt name c command) = some 1
  | .sleep => (exec (rt.sleepAgent name) c).1 = .ok () ∧
      rt.replicas name (step rt name c command) = some 0
  | .update request _ _ _ => ∃ n, rt.replicas name c = some n ∧
      rt.replicas name (step rt name c command) = some (scaled request n)

theorem follows_update {command : Command} (hupdate : command.isUpdate = true)
    (hpresent : rt.Present name c) (haccepted : command.Accepted rt name c) :
    command.Follows rt name c ∧ rt.Present name (command.step rt name c) := by
  cases command with
  | wake => cases hupdate
  | sleep => cases hupdate
  | update request create renew skipLabelTest =>
    obtain ⟨rfl, result, hresult⟩ := haccepted
    exact updateAgent_replicas hpresent (Prod.ext hresult rfl)

theorem isUpdate_of_follows {command : Command} (h : command.Follows rt name c) :
    command.isUpdate = true := by
  cases command with
  | wake => exact absurd h.1 (scaleAgent_raises rt 1 name c)
  | sleep => exact absurd h.1 (scaleAgent_raises rt 0 name c)
  | update request create renew skipLabelTest => rfl

end Command

/-- Every call of a sequence does what it is for exactly if all of them are
updates. -/
theorem commandsFollow_iff {commands : List Command} (hpresent : rt.Present name c)
    (hrun : Permitted (Command.step rt name) (Command.Accepted rt name) c commands) :
    Permitted (Command.step rt name) (Command.Follows rt name) c commands ↔
      ∀ command ∈ commands, command.isUpdate = true := by
  constructor
  · intro h
    clear hrun hpresent
    induction commands generalizing c with
    | nil => nofun
    | cons command rest ih =>
      exact List.forall_mem_cons.mpr ⟨Command.isUpdate_of_follows h.1, ih h.2⟩
  · intro hall
    induction commands generalizing c with
    | nil => trivial
    | cons command rest ih =>
      obtain ⟨hupdate, hall⟩ := List.forall_mem_cons.mp hall
      obtain ⟨hfollows, hpresent⟩ := Command.follows_update hupdate hpresent hrun.1
      exact ⟨hfollows, ih hpresent hrun.2 hall⟩

/-- A request for an agent that is to run. -/
def armStart : AgentData :=
  { name := "prod_arm", image := "arm", version := "2", autostart := true }

/-- The same agent in another version, as it is. -/
def armUpgrade : AgentData := { name := "prod_arm", image := "arm", version := "3" }

/-- A stopped agent next to another one is started and stays so in the
next update; a call that wakes it afterwards does not follow. -/
theorem commandsFollow_iff_arm :
    let c : Cluster := { services := [bareService 0 "prod_leg", bareService 1 "prod_arm"] }
    Permitted (Command.step bare "prod_arm") (Command.Follows bare "prod_arm") c
      [.update armStart false false false, .update armUpgrade false false false] ∧
    ¬ Permitted (Command.step bare "prod_arm") (Command.Follows bare "prod_arm") c
      [.update armStart false false false, .update armUpgrade false false false, .wake] := by
  intro c
  have hpresent : bare.Present "prod_arm" c :=
    ⟨by decide, bareService 1 "prod_arm", 0, rfl, rfl⟩
  have hstart : (exec (bare.updateAgent armStart false false false) c).1 =
      .ok ({ armStart with preferences := ["node.labels.worker"] }, some false) := by decide
  have hupgrade : (exec (bare.updateAgent armUpgrade false false false)
      (exec (bare.updateAgent armStart false false false) c).2).1 =
      .ok ({ armUpgrade with preferences := ["node.labels.worker"] }, some false) := by decide
  have hrun : Permitted (Command.step bare "prod_arm") (Command.Accepted bare "prod_arm") c
      [.update armStart false false false, .update armUpgrade false false false, .wake] :=
    ⟨⟨rfl, _, hstart⟩, ⟨rfl, _, hupgrade⟩, trivial, trivial⟩
  have hupdates : Permitted (Command.step bare "prod_arm") (Command.Accepted bare "prod_arm") c
      [.update armStart false false false, .update armUpgrade false false false] :=
    ⟨hrun.1, hrun.2.1, trivial⟩
  refine ⟨(commandsFollow_iff hpresent hupdates).mpr (by decide), fun h => ?_⟩
  exact absurd ((commandsFollow_iff hpresent hrun).mp h) (by decide)

/-- An agent that is there is not woken. -/
theorem wake_raises :
    (exec (bare.wakeAgent "prod_arm") { services := [bareService 0 "prod_arm"] }).1 =
        .error (.typeError "cannot unpack non-iterable Service object") ∧
      ¬ ∀ (rt : DockerSwarmRuntime) (name : String) (c : Cluster) (commands : List Command),
        rt.Present name c →
        Permitted (Command.step rt name) (Command.Accepted rt name) c commands →
          Permitted (Command.step rt name) (Command.Follows rt name) c commands := by
  refine ⟨by decide, fun h => ?_⟩
  have hfollows := h bare "prod_arm" { services := [bareService 0 "prod_arm"] } [.wake]
    ⟨by decide, bareService 0 "prod_arm", 0, rfl, rfl⟩ ⟨trivial, trivial⟩
  exact scaleAgent_raises bare 1 "prod_arm" _ hfollows.1.1

end DockerSwarmRuntime

end Iams.Runtime
