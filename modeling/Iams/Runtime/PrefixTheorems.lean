/-
Iams.Runtime.PrefixTheorems — when an agent knows the prefix of its name.

`DockerSwarmRuntime.get_valid_agent_name` puts the first four characters of
the namespace and an underscore before a name. The agent is started with
the name in `IAMS_AGENT`, and `Servicer.__init__` in `iams/agent.py` cuts
it at the first underscore; `GRPCConnectionCoroutine` puts what it gets
before the names of other agents. The two cut at one place if and only if
there is no underscore in the first four characters (`agrees_with_runtime_iff`).

The namespace is any text. As it is formatted into the expression, the
expression is a parameter here: for each name, whether it matches, and what
the second group has read, if it took part.

No `sorry`, no `axiom`, no `native_decide`.
-/
import Iams.Runtime.AgentName
import Iams.Runtime.Update
import Mathlib.Data.List.TakeWhile

namespace Iams.Runtime

open Iams.Lib

/-! ## The runtime -/

/-- `iams_namespace` and `regex.match` of a runtime. -/
structure Naming where
  iamsNamespace : String
  regexMatch : String → Option (Option String)

/-- What `get_valid_agent_name` raises; a group that took no part cannot be
added to a text. -/
inductive NamingError where
  | invalidAgentName (e : InvalidAgentName)
  | typeError
  deriving DecidableEq, Repr

namespace Naming

/-- `iams_namespace[0:4]` -/
def short (n : Naming) : String := String.ofList (n.iamsNamespace.toList.take 4)

/-- `get_valid_agent_name` -/
def getValidAgentName (n : Naming) (name : String) : Except NamingError String :=
  match n.regexMatch name with
  | some (some core) => .ok (n.short ++ "_" ++ core)
  | some none => .error .typeError
  | none => .error (.invalidAgentName ⟨name ++ " is not a valid agent-name"⟩)

/-- A namespace whose characters stand for themselves in an expression. -/
def ofLiteral (iamsNamespace : String) : Naming where
  iamsNamespace
  regexMatch name :=
    let regex := .seq (.opt (.group 1 (.literal (iamsNamespace.toList.take 4 ++ ['_']))))
      (.seq (.group 2 Namespace.coreRegex) .atEnd)
    (Regex.match? regex name.toList).map fun groups => (groups.group? 2).map String.ofList

/-- On the namespaces of `Namespace` this is the function there. -/
theorem ofLiteral_accepts (ns : Namespace) {name canonical : String} :
    (ofLiteral ns.value).getValidAgentName name = .ok canonical ↔
      ns.getValidAgentName name = .ok canonical := by
  have hmatch : (ofLiteral ns.value).regexMatch name =
    (ns.regex.match? name.toList).map fun groups => (groups.group? 2).map String.ofList := rfl
  unfold getValidAgentName Namespace.getValidAgentName
  rw [hmatch]
  cases hgroups : ns.regex.match? name.toList with
  | none => exact iff_of_false nofun nofun
  | some groups =>
    obtain ⟨text, rest, -, hreads⟩ := Regex.accepts_of_match? hgroups
    obtain ⟨core, -, -, -, hcore⟩ := ns.reads_regex hreads
    have htext : (ofLiteral ns.value).short ++ "_" ++ String.ofList core =
        String.ofList (ns.short ++ ['_'] ++ core) := by
      rw [String.ofList_append, String.ofList_append]
      rfl
    simp only [Option.map_some, hcore, htext, Option.getD_some, Except.ok.injEq]

end Naming

/-- The agent is told the name of the request. -/
theorem DockerSwarmRuntime.environment_agent (rt : DockerSwarmRuntime)
    (request : Servicer.AgentData) (env : Dict String EnvValue) :
    (rt.environment request env).get? "IAMS_AGENT" = some (.str request.name) := by
  unfold DockerSwarmRuntime.environment
  dsimp only
  rw [Dict.get?_set_of_ne _ _ (by decide), Dict.get?_set_self]

end Iams.Runtime

namespace Iams.Agent

open Iams.Runtime

/-! ## The agent -/

/-- `iams.agent.Servicer`; `namePrefix` is `prefix`. -/
structure Servicer where
  address : Option String
  agent : String
  config : Option String
  port : Option String
  service : String
  namePrefix : String

/-- The text of a failed `assert`. -/
structure AssertionError where
  text : String
  deriving DecidableEq, Repr

namespace Servicer

/-- `agent.split('_', 1)[0]` -/
def splitName (agent : String) : String := String.ofList (agent.toList.takeWhile (· ≠ '_'))

/-- `__init__`, over `os.environ` -/
def init (environ : String → Option String) : Except AssertionError Servicer :=
  match environ "IAMS_AGENT", environ "IAMS_SERVICE" with
  | none, _ => .error ⟨"Must define IAMS_AGENT in environment"⟩
  | some _, none => .error ⟨"Must define IAMS_SERVICE in environment"⟩
  | some agent, some service => .ok {
      address := environ "IAMS_ADDRESS"
      agent
      config := environ "IAMS_CONFIG"
      port := environ "IAMS_PORT"
      service
      namePrefix := splitName agent ++ "_" }

/-- `hostname` of a `GRPCConnectionCoroutine` to another agent. -/
def hostname (s : Servicer) (name : String) : String := s.namePrefix ++ name

/-! ## Where they agree -/

/-- An agent that was started with this name has the prefix of the runtime,
and builds with it the canonical names of the agents. -/
def Agrees (n : Naming) (canonical : String) : Prop :=
  ∀ environ servicer, environ "IAMS_AGENT" = some canonical → init environ = .ok servicer →
    servicer.namePrefix = n.short ++ "_" ∧
    ∀ name core, n.regexMatch name = some (some core) →
      n.getValidAgentName name = .ok (servicer.hostname core)

theorem init_namePrefix {environ : String → Option String} {servicer : Servicer} {agent : String}
    (hagent : environ "IAMS_AGENT" = some agent) (h : init environ = .ok servicer) :
    servicer.namePrefix = splitName agent ++ "_" := by
  unfold init at h
  rw [hagent] at h
  cases hservice : environ "IAMS_SERVICE" with
  | none =>
    rw [hservice] at h
    cases h
  | some service =>
    rw [hservice] at h
    cases h
    rfl

/-- A name is cut at the first underscore. -/
theorem splitName_eq_iff (short core : String) :
    splitName (short ++ "_" ++ core) = short ↔ '_' ∉ short.toList := by
  unfold splitName
  have hlist : (short ++ "_" ++ core).toList = short.toList ++ '_' :: core.toList := by
    rw [String.toList_append, String.toList_append, List.append_assoc]
    rfl
  rw [hlist]
  constructor
  · intro h hmem
    rw [← h, String.toList_ofList] at hmem
    exact absurd (List.mem_takeWhile_imp hmem) (by simp)
  · intro h
    have hbefore : ∀ c ∈ short.toList, decide (c ≠ '_') = true := by
      intro c hc
      refine decide_eq_true fun heq => ?_
      exact h (heq ▸ hc)
    rw [List.takeWhile_append_of_pos hbefore]
    simp

/-- For every namespace and every name that is accepted: runtime and agent
agree if and only if there is no underscore in the first four characters of
the namespace. -/
theorem agrees_with_runtime_iff {n : Naming} {name canonical : String}
    (h : n.getValidAgentName name = .ok canonical) :
    Agrees n canonical ↔ '_' ∉ n.short.toList := by
  obtain ⟨core, hcanonical⟩ : ∃ core, canonical = n.short ++ "_" ++ core := by
    unfold Naming.getValidAgentName at h
    split at h
    · next core _ => exact ⟨core, (Except.ok.inj h).symm⟩
    · cases h
    · cases h
  rw [← splitName_eq_iff n.short core, ← hcanonical]
  constructor
  · intro hagrees
    have hservicer := (hagrees (fun _ => some canonical) _ rfl rfl).1
    exact (String.append_left_inj "_").mp hservicer
  · intro hsplit environ servicer hagent hinit
    have hname := init_namePrefix hagent hinit
    rw [hsplit] at hname
    refine ⟨hname, fun other core hother => ?_⟩
    rw [Naming.getValidAgentName, hother, hostname, hname]

/-- In production they agree. -/
theorem agrees_with_runtime_iff_prod : Agrees (Naming.ofLiteral "prod") "prod_sensor" := by
  have haccepted : (Naming.ofLiteral "prod").getValidAgentName "sensor" = .ok "prod_sensor" := by
    decide
  exact (agrees_with_runtime_iff haccepted).mpr (by decide)

/-- The agent of a namespace with an underscore looks for its peers in
another one. -/
theorem underscore_namespace :
    (Naming.ofLiteral "a_bc").getValidAgentName "sensor" = .ok "a_bc_sensor" ∧
    (∃ servicer, init (fun _ => some "a_bc_sensor") = .ok servicer ∧
      servicer.namePrefix = "a_" ∧ servicer.hostname "sensor" = "a_sensor") ∧
    ¬ ∀ n name canonical, Naming.getValidAgentName n name = .ok canonical →
      Agrees n canonical := by
  have haccepted : (Naming.ofLiteral "a_bc").getValidAgentName "sensor" = .ok "a_bc_sensor" := by
    decide
  refine ⟨haccepted, ⟨_, rfl, by decide, by decide⟩, fun h => ?_⟩
  have hservicer := (h _ _ _ haccepted (fun _ => some "a_bc_sensor") _ rfl rfl).1
  exact absurd hservicer (by decide)

end Servicer

end Iams.Agent
