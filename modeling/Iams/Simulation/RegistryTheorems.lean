/-
Iams.Simulation.RegistryTheorems — when the registry of a simulation and
its directory facilitator stay in step.

`register` writes to both, and `unregister` only to `_agents`: the node of
the agent stays in the topology, and `get_state` finds it there. So the two
are in step in the runs in which nobody unregisters an agent that is
registered, and in no other (`inStep_iff`).

No `sorry`, no `axiom`, no `native_decide`.
-/
import Iams.Simulation.Registry
import Mathlib.Data.List.Perm.Basic

namespace Iams.Simulation.Registry

open Iams.Lib

variable {α κ ω ε : Type} {name : α → String} {s : Registry α ω}

/-! ## The property -/

/-- What `get_state` adds is a report of each registered agent. -/
def ReportsAll (text : κ → String) (asdict : α → Except ε (Option (Dict κ ω)))
    (s : Registry α ω) (kwargs result : Dict String ω) : Prop :=
  ∃ reports : List (String × Dict κ ω),
    (reports.map Prod.fst).Perm (s.agents.items.map Prod.fst) ∧
    (∀ r ∈ reports, ∃ a, s.agents.get? r.1 = some a ∧ asdict a = .ok (some r.2)) ∧
    result = reports.foldl
      (fun d r => r.2.items.foldl (fun d item => d.set (entry text r.1 item.1) item.2) d) kwargs

/-- The names of the directory facilitator are the keys of `_agents`, and
`get_state` raises no `KeyError` and reports the registered agents. -/
structure InStep (text : κ → String) (s : Registry α ω) : Prop where
  names : ∀ agent, agent ∈ s.df.agents ↔ (s.agents.get? agent).isSome = true
  noKeyError : ∀ (asdict : α → Except ε (Option (Dict κ ω))) own kwargs agent,
    s.getState text asdict own kwargs ≠ .error (.keyError agent)
  reports : ∀ (asdict : α → Except ε (Option (Dict κ ω))) own kwargs result,
    s.getState text asdict (.ok own) kwargs = .ok result →
      ReportsAll text asdict s (kwargs.update (own.getD .empty).items) result

/-- No agent is unregistered that is registered. -/
def Keeps (name : α → String) (s : Registry α ω) : Action α ω ε → Prop
  | .unregister agent => s.agents.get? (name agent) = none
  | .register _ _ => True

/-! ## `get_state` -/

section State

variable {text : κ → String} {asdict : α → Except ε (Option (Dict κ ω))}

theorem report_eq_ok {agent : String} {items : Dict κ ω} :
    s.report asdict agent = .ok items ↔
      ∃ a, s.agents.get? agent = some a ∧ asdict a = .ok (some items) := by
  unfold report
  cases s.agents.get? agent with
  | none => simp
  | some a => cases h : asdict a with
    | error e => simp [h]
    | ok data => cases data <;> simp [h]

theorem report_eq_keyError {agent key : String}
    (h : s.report asdict agent = .error (.keyError key)) :
    agent = key ∧ s.agents.get? agent = none := by
  unfold report at h
  split at h
  · next hnone =>
    cases h
    exact ⟨rfl, hnone⟩
  · split at h <;> cases h

/-- The loop has added the reports of these agents, in their order. -/
theorem addReports_eq_ok {agents : List String} {kwargs result : Dict String ω}
    (h : s.addReports text asdict agents kwargs = .ok result) :
    ∃ reports : List (String × Dict κ ω), reports.map Prod.fst = agents ∧
      (∀ r ∈ reports, s.report asdict r.1 = .ok r.2) ∧
      result = reports.foldl
        (fun d r => r.2.items.foldl (fun d item => d.set (entry text r.1 item.1) item.2) d)
        kwargs := by
  induction agents generalizing kwargs with
  | nil =>
    cases h
    exact ⟨[], rfl, nofun, rfl⟩
  | cons agent rest ih =>
    unfold addReports at h
    cases hreport : s.report asdict agent with
    | error e =>
      rw [hreport] at h
      cases h
    | ok items =>
      rw [hreport] at h
      obtain ⟨reports, hagents, hreports, heq⟩ := ih h
      refine ⟨(agent, items) :: reports, congrArg (agent :: ·) hagents, fun r hr => ?_, heq⟩
      rcases List.mem_cons.mp hr with rfl | hr
      · exact hreport
      · exact hreports r hr

/-- It fails at the first agent that is not registered, if not before. -/
theorem addReports_ne_keyError {agents : List String}
    (hagents : ∀ agent ∈ agents, (s.agents.get? agent).isSome = true) (kwargs : Dict String ω)
    (key : String) : s.addReports text asdict agents kwargs ≠ .error (.keyError key) := by
  induction agents generalizing kwargs with
  | nil => exact nofun
  | cons agent rest ih =>
    intro h
    unfold addReports at h
    cases hreport : s.report asdict agent with
    | error e =>
      rw [hreport] at h
      cases h
      have hnone := (report_eq_keyError hreport).2
      have hsome := hagents agent List.mem_cons_self
      rw [hnone] at hsome
      cases hsome
    | ok items =>
      rw [hreport] at h
      exact ih (fun agent hagent => hagents agent (List.mem_cons_of_mem _ hagent)) _ h

/-- The names decide. -/
theorem inStep_of_names
    (h : ∀ agent, agent ∈ s.df.agents ↔ (s.agents.get? agent).isSome = true) :
    InStep (ε := ε) text s := by
  refine ⟨h, fun asdict own kwargs key => ?_, fun asdict own kwargs result hresult => ?_⟩
  · cases own with
    | error e => exact nofun
    | ok data => exact addReports_ne_keyError (fun agent hagent => (h agent).mp hagent) _ key
  · obtain ⟨reports, hagents, hreports, heq⟩ := addReports_eq_ok hresult
    refine ⟨reports, ?_, fun r hr => report_eq_ok.mp (hreports r hr), heq⟩
    rw [hagents]
    refine (List.perm_ext_iff_of_nodup s.df.topology.nodup s.agents.nodup).mpr fun agent => ?_
    exact (h agent).trans (Dict.mem_keys_iff s.agents).symm

end State

/-! ## Steps -/

theorem addNode_topology {df df' : DF ω} {agent : String} {kwargs : Dict String ω}
    (h : df.addNode agent kwargs = .ok df') :
    ∃ attributes, df'.topology = df.topology.set agent attributes := by
  unfold DF.addNode at h
  cases hbind : DF.bindArguments kwargs ["self", "node_for_adding"] with
  | error e =>
    rw [hbind] at h
    cases h
  | ok =>
    rw [hbind] at h
    cases h
    exact ⟨_, rfl⟩

theorem registerAgent_topology {df df' : DF ω} {agent : String} {kwargs : Dict String ω}
    (h : df.registerAgent agent kwargs = .ok df') :
    ∃ attributes, df'.topology = df.topology.set agent attributes := by
  unfold DF.registerAgent at h
  cases hbind : DF.bindArguments kwargs ["self", "name"] with
  | error e =>
    rw [hbind] at h
    cases h
  | ok =>
    rw [hbind] at h
    cases hnode : df.topology.get? agent with
    | some attributes =>
      rw [hnode] at h
      cases h
      exact ⟨_, rfl⟩
    | none =>
      rw [hnode] at h
      exact addNode_topology h

/-- Both stores have the name after it. -/
theorem register_spec {s' : Registry α ω} {agent : α}
    {attributes : Except ε (Option (Dict String ω))}
    (h : s.register name agent attributes = .ok s') :
    s'.agents = s.agents.set (name agent) agent ∧
      ∃ attrs, s'.df.topology = s.df.topology.set (name agent) attrs := by
  unfold register at h
  split at h
  · cases h
  · split at h
    · cases h
    · next df hdf =>
      cases h
      exact ⟨rfl, registerAgent_topology hdf⟩

/-- The directory facilitator has the names of the registry. -/
def SameNames (s : Registry α ω) : Prop :=
  ∀ agent, agent ∈ s.df.agents ↔ (s.agents.get? agent).isSome = true

theorem mem_agents_iff {agent : String} :
    agent ∈ s.df.agents ↔ (s.df.topology.get? agent).isSome = true :=
  Dict.mem_keys_iff s.df.topology

theorem SameNames.step_iff (h : SameNames s) (a : Action α ω ε) :
    SameNames (s.step name a) ↔ Keeps name s a := by
  cases a with
  | register agent attributes =>
    refine iff_of_true ?_ trivial
    cases hregister : s.register name agent attributes with
    | error e => rwa [step, hregister]
    | ok s' =>
      rw [step, hregister]
      obtain ⟨hagents, attrs, htopology⟩ := register_spec hregister
      intro other
      rw [mem_agents_iff, hagents, htopology, Dict.get?_set, Dict.get?_set]
      split
      · exact iff_of_true rfl rfl
      · exact mem_agents_iff.symm.trans (h other)
  | unregister agent =>
    change SameNames (s.unregister name agent) ↔ s.agents.get? (name agent) = none
    unfold unregister
    cases hagent : s.agents.get? (name agent) with
    | none => exact iff_of_true h rfl
    | some a =>
      refine iff_of_false (fun hsame => ?_) (Option.some_ne_none a)
      have hnode : name agent ∈ s.df.agents := (h _).mpr (by rw [hagent]; rfl)
      have hgone := (hsame (name agent)).mp hnode
      rw [Dict.get?_erase_self] at hgone
      cases hgone

/-! ## The result -/

theorem inStep_run {text : κ → String} (h : SameNames s) (as : List (Action α ω ε)) :
    Permitted (step name) (fun s a => InStep (ε := ε) text (s.step name a)) s as ↔
      Permitted (step name) (Keeps name) s as := by
  induction as generalizing s with
  | nil => exact Iff.rfl
  | cons a rest ih =>
    constructor
    · rintro ⟨hin, hrest⟩
      exact ⟨(h.step_iff a).mp hin.names, (ih hin.names).mp hrest⟩
    · rintro ⟨hkeeps, hrest⟩
      have hsame := (h.step_iff a).mpr hkeeps
      exact ⟨inStep_of_names hsame, (ih hsame).mpr hrest⟩

/-- Registry and directory facilitator are in step after every call of a
run if and only if no call unregisters an agent that is registered. -/
theorem inStep_iff (name : α → String) (text : κ → String) (as : List (Action α ω ε)) :
    InStep (ε := ε) text (init : Registry α ω) ∧
    (Permitted (step name) (fun s a => InStep (ε := ε) text (s.step name a)) init as ↔
      Permitted (step name) (Keeps name) init as) := by
  have hinit : SameNames (init : Registry α ω) := fun agent => iff_of_false nofun nofun
  exact ⟨inStep_of_names hinit, inStep_run hinit as⟩

/-- An agent that was unregistered is found by `get_state`. -/
theorem unregistered_is_found :
    let as : List (Action String Nat Unit) :=
      [.register "sink_1" (.ok none), .unregister "sink_1"]
    let s := as.foldl (step id) init
    s.df.agents = ["sink_1"] ∧ s.agents.items = [] ∧
    (s.getState id (fun _ => .ok (some .empty)) (.ok none) .empty : Except (StateError Unit) _) =
      .error (.keyError "sink_1") ∧
    ¬ ∀ as : List (Action String Nat Unit),
      Permitted (step id) (fun s a => InStep (ε := Unit) (id : String → String) (s.step id a))
        init as := by
  refine ⟨by decide, by decide, rfl, fun h => ?_⟩
  have hin := (h [.register "sink_1" (.ok none), .unregister "sink_1"]).2.1
  exact hin.noKeyError (fun _ => .ok (some .empty)) (.ok none) .empty "sink_1" rfl

end Iams.Simulation.Registry
