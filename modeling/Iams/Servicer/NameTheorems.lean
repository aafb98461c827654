/-
Iams.Servicer.NameTheorems — what the name in a request leads to.

`update`, `destroy`, `sleep` and `wake` pass the name to the runtime before
they do anything else. A name that the runtime accepts leads to one
operation, on the name that the runtime returned (`handler_accepted`). A
name that it rejects is to be answered with `INVALID_ARGUMENT`, and is not:
`get_agent_name(identities, context, name)` is called with the first two
arguments the other way round, so `abort` is looked up on what
`credentials` returned. The handler ends with an `AttributeError`, and the
context is told nothing (`handler_rejected`).

No `sorry`, no `axiom`, no `native_decide`.
-/
import Iams.Runtime.AgentName
import Iams.Servicer.AuthenticationTheorems

namespace Iams.Servicer

/-! ## Operations -/

/-- What a call asks the runtime to do. -/
def Call.operations {α : Type} (call : Call α) : List Effect := call.effects.filter Effect.mutates

/-- The operation that an RPC is there for, on the agent `name`. -/
def Rpc.operation (rpc : Rpc) (request : AgentData) (name : String) : Effect :=
  match rpc with
  | .update => .updateAgent { request with name := name } false
  | .upgrade => .updateAgent { name := name } true
  | .destroy => .deleteAgent name
  | .sleep => .sleepAgent name
  | .wake => .wakeAgent name

/-- A name that the runtime rejects is answered with `INVALID_ARGUMENT`, and
the runtime is not asked for anything. Any other name leads to one operation
of the runtime, on the name that it made of it. -/
def Rpc.Answers (rpc : Rpc) (runtime : Runtime) (request : AgentData) (context : Context) :
    Prop :=
  match runtime.getValidAgentName (some request.name) with
  | .ok name =>
    (rpc.handler runtime request context).operations = [rpc.operation request name]
  | .error _ =>
    (∃ details, .abort .invalidArgument details ∈
        (rpc.handler runtime request context).effects) ∧
      (rpc.handler runtime request context).operations = []

/-! ## Names that the runtime accepts -/

namespace FrameworkServicer

variable {runtime : Runtime} {request : AgentData} {context : Context} {name : String}

theorem onAgent_accepted (effect : String → Effect) (operation : String → Except Raised Bool)
    (hname : runtime.getValidAgentName (some request.name) = .ok name) :
    (onAgent runtime effect operation request context).effects = [effect name] := by
  rw [Call.effects, onAgent_outcome, hname]

/-- The answer to an exception is an abort, and no operation. -/
theorem applyUpdate_operations :
    (applyUpdate runtime request context).operations = [.updateAgent request false] := by
  rw [Call.operations, Call.effects, applyUpdate_outcome]
  rcases runtime.updateAgent request false with ⟨after, e | created⟩
  · cases e <;> rfl
  · rfl

theorem update_accepted (hname : runtime.getValidAgentName (some request.name) = .ok name) :
    (update runtime request context).operations =
      [.updateAgent { request with name := name } false] := by
  have houtcome : (update runtime request context).outcome =
      (applyUpdate runtime { request with name := name } context).outcome := by
    rw [update_outcome, hname]
  rw [Call.operations, Call.effects, houtcome]
  exact applyUpdate_operations

end FrameworkServicer

open FrameworkServicer in
/-- One operation, whatever becomes of it. -/
theorem Rpc.handler_accepted {rpc : Rpc} (hrpc : rpc ≠ .upgrade) {runtime : Runtime}
    {request : AgentData} {context : Context} {name : String}
    (hname : runtime.getValidAgentName (some request.name) = .ok name) :
    (rpc.handler runtime request context).operations = [rpc.operation request name] := by
  have honAgent (effect : String → Effect) (operation : String → Except Raised Bool)
      (heffect : (effect name).mutates = true) :
      (onAgent runtime effect operation request context).operations = [effect name] := by
    rw [Call.operations, onAgent_accepted effect operation hname]
    exact List.filter_eq_self.mpr fun e he => List.mem_singleton.mp he ▸ heffect
  cases rpc with
  | update => exact update_accepted hname
  | upgrade => exact absurd rfl hrpc
  | destroy => exact honAgent _ _ rfl
  | sleep => exact honAgent _ _ rfl
  | wake => exact honAgent _ _ rfl

/-! ## Names that it rejects -/

namespace FrameworkServicer

variable {runtime : Runtime} {request : AgentData} {context : Context} {e : Raised}

theorem onAgent_rejected (effect : String → Effect) (operation : String → Except Raised Bool)
    (hname : runtime.getValidAgentName (some request.name) = .error e) :
    ∀ answer ∈ (onAgent runtime effect operation request context).effects,
      ∃ text, answer = .abort .notFound text := by
  rw [Call.effects, onAgent_outcome, hname]
  cases htext : e.notFound? <;> simp [htext]

theorem update_rejected (hname : runtime.getValidAgentName (some request.name) = .error e) :
    (update runtime request context).effects = [] := by
  rw [Call.effects, update_outcome, hname]

end FrameworkServicer

open FrameworkServicer in
/-- The context is told nothing, unless the runtime itself could not find
something. -/
theorem Rpc.handler_rejected {rpc : Rpc} (hrpc : rpc ≠ .upgrade) {runtime : Runtime}
    {request : AgentData} {context : Context} {e : Raised}
    (hname : runtime.getValidAgentName (some request.name) = .error e) :
    ∀ effect ∈ (rpc.handler runtime request context).effects,
      ∃ text, effect = .abort .notFound text := by
  cases rpc with
  | update =>
    intro effect heffect
    rw [show (Rpc.update.handler runtime request context).effects = [] from
      update_rejected hname] at heffect
    cases heffect
  | upgrade => exact absurd rfl hrpc
  | destroy => exact onAgent_rejected _ _ hname
  | sleep => exact onAgent_rejected _ _ hname
  | wake => exact onAgent_rejected _ _ hname

/-- The handlers do what they are to do exactly for the names that the
runtime accepts. -/
theorem Rpc.answers_iff (rpc : Rpc) (hrpc : rpc ≠ .upgrade) (runtime : Runtime)
    (request : AgentData) (context : Context) :
    rpc.Answers runtime request context ↔
      ∃ name, runtime.getValidAgentName (some request.name) = .ok name := by
  unfold Answers
  cases hname : runtime.getValidAgentName (some request.name) with
  | ok name => exact iff_of_true (handler_accepted hrpc hname) ⟨name, rfl⟩
  | error e =>
    refine iff_of_false ?_ nofun
    rintro ⟨⟨details, habort⟩, -⟩
    obtain ⟨text, heq⟩ := handler_rejected hrpc hname _ habort
    cases heq

/-- A client with a certificate. -/
def certified : Context where
  peerIdentities := some [encode "prod_sensor"]

/-- The other direction at a client and a name that are accepted. -/
theorem Rpc.answers_iff_sensor :
    Rpc.update ≠ .upgrade ∧ Rpc.update.Answers obliging { name := "sensor" } certified :=
  ⟨nofun, (Rpc.answers_iff .update nofun obliging { name := "sensor" } certified).mpr
    ⟨"prod_sensor", rfl⟩⟩

/-- A runtime with the names of `DockerSwarmRuntime`. `None` cannot be
matched. -/
def production : Runtime :=
  { obliging with
    getValidAgentName
      | some name =>
        (Runtime.Namespace.prod.getValidAgentName name).mapError fun _ => .invalidAgentName
      | none => .error .typeError }

/-- The name `1test` is rejected, and the client is not told so. -/
theorem rejected_not_answered :
    certified.peerIdentities ≠ none ∧
      production.getValidAgentName (some "1test") = .error .invalidAgentName ∧
      (Rpc.destroy.handler production { name := "1test" } certified).outcome =
        (.error .attributeError, []) ∧
      ¬ Rpc.destroy.Answers production { name := "1test" } certified := by
  have hname : production.getValidAgentName (some "1test") = .error .invalidAgentName := by
    decide
  have houtcome : (Rpc.destroy.handler production { name := "1test" } certified).outcome =
      (.error .attributeError, []) := by
    show (FrameworkServicer.onAgent _ _ _ _ _).outcome = _
    rw [FrameworkServicer.onAgent_outcome, hname]
    rfl
  refine ⟨nofun, hname, houtcome, ?_⟩
  rw [Rpc.Answers, hname]
  rintro ⟨⟨details, habort⟩, -⟩
  rw [Call.effects, houtcome] at habort
  cases habort

end Iams.Servicer
