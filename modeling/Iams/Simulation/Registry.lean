/-
Iams.Simulation.Registry — the agents of a simulation: `register`,
`unregister` and `get_state` of `SimulationInterface` in
`iams/interfaces/simulation.py`, over the `DF` of `iams/tests/df.py`.

Agents are of any type; `name` is their `__str__`, and a call is given what
their `attributes` returns in it. The keys of `asdict` are of any type as
well, and `text` is how they are formatted. Nodes of the topology have
attributes, and there are no edges.

No `sorry`, no `axiom`, no `native_decide`.
-/
import Iams.Lib.Dict
import Iams.Lib.Transition

namespace Iams.Simulation

open Iams.Lib

/-! ## The directory facilitator -/

/-- `DF`; the topology has the attributes of each node. -/
structure DF (ω : Type) where
  topology : Dict String (Dict String ω)

/-- An argument that is given twice. -/
structure MultipleValues where
  argument : String
  deriving DecidableEq, Repr

namespace DF

variable {ω : Type} (df : DF ω)

/-- The names that `agents()` yields. -/
def agents : List String := df.topology.items.map Prod.fst

/-- `function(…, **kwargs)`, where these arguments are given otherwise. -/
def bindArguments (kwargs : Dict String ω) : List String → Except MultipleValues Unit
  | [] => .ok ()
  | argument :: rest =>
    if (kwargs.get? argument).isSome then .error ⟨argument⟩ else bindArguments kwargs rest

/-- `topology.add_node(name, **kwargs)` of a name that is no node yet -/
def addNode (name : String) (kwargs : Dict String ω) : Except MultipleValues (DF ω) := do
  bindArguments kwargs ["self", "node_for_adding"]
  return { df with topology := df.topology.set name (Dict.empty.update kwargs.items) }

/-- `register_agent(name, **kwargs)` -/
def registerAgent (name : String) (kwargs : Dict String ω) : Except MultipleValues (DF ω) := do
  bindArguments kwargs ["self", "name"]
  match df.topology.get? name with
  | some _ => return { df with topology := df.topology.set name (Dict.empty.update kwargs.items) }
  | none => df.addNode name kwargs

end DF

/-! ## The simulation -/

/-- `_agents` and `_df` of a simulation. -/
structure Registry (α ω : Type) where
  agents : Dict String α
  df : DF ω

namespace Registry

/-- What `get_state` raises: `self._agents[agent]` fails, an `asdict` has
returned `None`, or it has raised. -/
inductive StateError (ε : Type) where
  | keyError (agent : String)
  | attributeError
  | raised (e : ε)
  deriving DecidableEq, Repr

/-- What `register` raises. -/
inductive RegisterError (ε : Type) where
  | typeError (e : MultipleValues)
  | raised (e : ε)
  deriving DecidableEq, Repr

variable {α κ ω ε : Type}

/-- After `post_init` -/
def init : Registry α ω := ⟨.empty, ⟨.empty⟩⟩

section Commands

variable (name : α → String) (s : Registry α ω)

/-- `register`; the error, or the registry after it -/
def register (agent : α) (attributes : Except ε (Option (Dict String ω))) :
    Except (RegisterError ε) (Registry α ω) :=
  match attributes with
  | .error e => .error (.raised e)
  | .ok attrs =>
    match s.df.registerAgent (name agent) (attrs.getD .empty) with
    | .error e => .error (.typeError e)
    | .ok df => .ok { agents := s.agents.set (name agent) agent, df }

/-- `unregister` -/
def unregister (agent : α) : Registry α ω :=
  match s.agents.get? (name agent) with
  | some _ => { s with agents := s.agents.erase (name agent) }
  | none => s

end Commands

/-- A call of `register` or `unregister`. -/
inductive Action (α ω ε : Type) where
  | register (agent : α) (attributes : Except ε (Option (Dict String ω)))
  | unregister (agent : α)

/-- A call that raises leaves the registry as it was. -/
def step (name : α → String) (s : Registry α ω) : Action α ω ε → Registry α ω
  | .register agent attributes =>
    match s.register name agent attributes with
    | .ok s' => s'
    | .error _ => s
  | .unregister agent => s.unregister name agent

section State

variable (text : κ → String) (asdict : α → Except ε (Option (Dict κ ω))) (s : Registry α ω)

/-- `f'{agent}_{key}'` -/
def entry (agent : String) (key : κ) : String := agent ++ "_" ++ text key

/-- `self._agents[agent].asdict().items()` -/
def report (agent : String) : Except (StateError ε) (Dict κ ω) :=
  match s.agents.get? agent with
  | none => .error (.keyError agent)
  | some a =>
    match asdict a with
    | .error e => .error (.raised e)
    | .ok none => .error .attributeError
    | .ok (some items) => .ok items

/-- The loop over the agents in `get_state`. -/
def addReports : List String → Dict String ω → Except (StateError ε) (Dict String ω)
  | [], kwargs => .ok kwargs
  | agent :: rest, kwargs => do
    let items ← s.report asdict agent
    addReports rest
      (items.items.foldl (fun d item => d.set (entry text agent item.1) item.2) kwargs)

/-- `get_state`; `own` is what the `asdict` of the simulation returns. -/
def getState (own : Except ε (Option (Dict String ω))) (kwargs : Dict String ω) :
    Except (StateError ε) (Dict String ω) :=
  match own with
  | .error e => .error (.raised e)
  | .ok data => s.addReports text asdict s.df.agents (kwargs.update (data.getD .empty).items)

end State

end Registry

end Iams.Simulation
