/-
Iams.Servicer.AuthenticationTheorems — who may change an agent.

The handlers of `FrameworkServicer` call `credentials(context)`. This
decorates the context, as if it were a method, and calls nothing: what
comes back is a function, so the identities of the peer are never looked
at (`credentials_context`). `never_refused` is what follows for a peer
without identities: no RPC is refused, and `changes_agent` that each of
them asks the runtime for the change as soon as the name is valid.

Applied to a method, as in the tests of the decorator, the same decorator
refuses such a peer before the method is entered (`wrapped_refuses`).

No `sorry`, no `axiom`, no `native_decide`.
-/
import Iams.Servicer.Framework

namespace Iams.Servicer

/-! ## What the handlers do -/

/-- A function is returned, not identities. -/
theorem credentials_context (context : Context) :
    credentials (.context context) false = .wrapped (.context context) false := rfl

namespace FrameworkServicer

variable (runtime : Runtime) (request : AgentData) (context : Context)

/-- What the caller of `get_agent_name` sees of an exception. An invalid
name is to be answered by `abort`, but the value in the place of the
context is a function and has no such attribute. -/
def nameError : Raised → Raised
  | .invalidAgentName => .attributeError
  | e => e

theorem assignName_eq :
    assignName runtime request context =
      match runtime.getValidAgentName (some request.name) with
      | .ok valid => pure { request with name := valid }
      | .error e => throw (nameError e) := by
  unfold assignName getAgentName
  rw [credentials_context]
  cases runtime.getValidAgentName (some request.name) with
  | ok valid => rfl
  | error e => cases e <;> rfl

/-- An operation of the runtime, and its result. -/
theorem operation_outcome {α : Type} (effect : Effect) (result : Except Raised α) :
    Call.outcome (do perform effect; let _ ← liftExcept result; return Response.empty) =
      (result.map fun _ => .empty, [effect]) := by
  cases result <;> rfl

/-- `destroy`, `sleep` and `wake`: the operation on the valid name. -/
theorem onAgent_outcome (effect : String → Effect) (operation : String → Except Raised Bool) :
    (onAgent runtime effect operation request context).outcome =
      match runtime.getValidAgentName (some request.name) with
      | .ok name => ((operation name).map fun _ => .empty, [effect name])
      | .error e =>
        match e.notFound? with
        | some text => (.error .aborted, [.abort .notFound text])
        | none => (.error (nameError e), []) := by
  rw [onAgent, assignName_eq]
  cases runtime.getValidAgentName (some request.name) with
  | ok name => exact operation_outcome (effect name) (operation name)
  | error e => cases e <;> rfl

/-- The runtime's `update_agent`, and the answer to its exceptions. -/
theorem applyUpdate_outcome :
    (applyUpdate runtime request context).outcome =
      match runtime.updateAgent request false with
      | (after, .ok _) => (.ok (.agentData { name := after.name }), [.updateAgent request false])
      | (after, .error (.imageNotFound _)) =>
        (.error .aborted, [.updateAgent request false,
          .abort .invalidArgument ("Could not find image " ++ after.image ++ ":" ++ after.version)])
      | (_, .error (.notFound text)) =>
        (.error .aborted, [.updateAgent request false, .abort .notFound text])
      | (_, .error e) => (.error e, [.updateAgent request false]) := by
  unfold applyUpdate
  rcases runtime.updateAgent request false with ⟨after, e | created⟩
  · cases e <;> rfl
  · rfl

/-- `update`: the same under the valid name. -/
theorem update_outcome :
    (update runtime request context).outcome =
      match runtime.getValidAgentName (some request.name) with
      | .ok name => (applyUpdate runtime { request with name := name } context).outcome
      | .error e => (.error (nameError e), []) := by
  rw [update, assignName_eq]
  cases runtime.getValidAgentName (some request.name) with
  | ok name => rfl
  | error e => cases e <;> rfl

/-- `upgrade`: the name is passed on as it is. -/
theorem upgrade_outcome :
    (upgrade runtime request context).outcome =
      ((runtime.updateAgent { name := request.name } true).2.map fun _ => .empty,
        [.updateAgent { name := request.name } true]) := by
  exact operation_outcome _ (runtime.updateAgent { name := request.name } true).2

end FrameworkServicer

/-! ## Who is refused -/

/-- The RPC is aborted with `UNAUTHENTICATED`, and the runtime is not asked
to change anything. -/
def Call.Refused {α : Type} (call : Call α) : Prop :=
  (∃ details, .abort .unauthenticated details ∈ call.effects) ∧
    ∀ e ∈ call.effects, e.mutates = false

/-- The abort of a call that was let in. -/
def Effect.Answer (e : Effect) : Prop :=
  ∃ details, e = .abort .invalidArgument details ∨ e = .abort .notFound details

/-- A change of the agent if the name is valid, and answers. -/
inductive Handled (valid : Prop) : List Effect → Prop where
  | changed {change : Effect} {answers : List Effect} (hvalid : valid)
      (hchange : change.mutates = true) (hanswers : ∀ e ∈ answers, e.Answer) :
      Handled valid (change :: answers)
  | answered {answers : List Effect} (hvalid : ¬ valid) (hanswers : ∀ e ∈ answers, e.Answer) :
      Handled valid answers

/-- Either way nobody is refused. -/
theorem Handled.not_refused {valid : Prop} {α : Type} {call : Call α}
    (h : Handled valid call.effects) : ¬ call.Refused := by
  rintro ⟨⟨details, habort⟩, hmutates⟩
  have hanswer {answers : List Effect} (hanswers : ∀ e ∈ answers, e.Answer) :
      .abort .unauthenticated details ∉ answers := by
    intro hmem
    obtain ⟨_, heq | heq⟩ := hanswers _ hmem <;> cases heq
  cases heffects : call.effects with
  | nil => simp [heffects] at habort
  | cons e rest =>
    rw [heffects] at h habort hmutates
    cases h with
    | changed _ hchange _ =>
      have := hmutates e List.mem_cons_self
      rw [hchange] at this
      cases this
    | answered _ hanswers => exact hanswer hanswers habort

theorem Handled.mutates_iff {valid : Prop} {effects : List Effect} (h : Handled valid effects) :
    (∃ e ∈ effects, e.mutates = true) ↔ valid := by
  cases h with
  | changed hvalid hchange _ =>
    exact iff_of_true ⟨_, List.mem_cons_self, hchange⟩ hvalid
  | answered hvalid hanswers =>
    refine iff_of_false ?_ hvalid
    rintro ⟨e, he, hmutates⟩
    obtain ⟨details, rfl | rfl⟩ := hanswers e he <;> cases hmutates

/-- The name that an RPC is about is valid; `upgrade` takes any name. -/
def Rpc.NameValid (rpc : Rpc) (runtime : Runtime) (request : AgentData) : Prop :=
  rpc = .upgrade ∨ ∃ name, runtime.getValidAgentName (some request.name) = .ok name

namespace FrameworkServicer

variable {runtime : Runtime} {request : AgentData} {context : Context}

theorem onAgent_handled {effect : String → Effect} {operation : String → Except Raised Bool}
    (heffect : ∀ name, (effect name).mutates = true) :
    Handled (∃ name, runtime.getValidAgentName (some request.name) = .ok name)
      (onAgent runtime effect operation request context).effects := by
  rw [Call.effects, onAgent_outcome]
  cases runtime.getValidAgentName (some request.name) with
  | ok name => exact .changed ⟨name, rfl⟩ (heffect name) nofun
  | error e =>
    refine .answered nofun ?_
    cases htext : e.notFound? <;> simp [htext, Effect.Answer]

theorem update_handled :
    Handled (∃ name, runtime.getValidAgentName (some request.name) = .ok name)
      (update runtime request context).effects := by
  rw [Call.effects, update_outcome]
  cases runtime.getValidAgentName (some request.name) with
  | error e => exact .answered nofun nofun
  | ok name =>
    simp only [applyUpdate_outcome]
    rcases runtime.updateAgent { request with name := name } false with ⟨after, e | created⟩
    · cases e <;> refine .changed ⟨name, rfl⟩ rfl ?_ <;> simp [Effect.Answer]
    · exact .changed ⟨name, rfl⟩ rfl nofun

end FrameworkServicer

open FrameworkServicer in
/-- What a handler does does not depend on the peer. -/
theorem Rpc.handler_handled (rpc : Rpc) (runtime : Runtime) (request : AgentData)
    (context : Context) :
    Handled (rpc.NameValid runtime request) (rpc.handler runtime request context).effects := by
  have hvalid (hrpc : rpc ≠ .upgrade) : rpc.NameValid runtime request ↔
      ∃ name, runtime.getValidAgentName (some request.name) = .ok name := or_iff_right hrpc
  cases rpc with
  | upgrade =>
    show Handled _ (FrameworkServicer.upgrade runtime request context).outcome.2
    rw [upgrade_outcome]
    exact .changed (.inl rfl) rfl nofun
  | update =>
    rw [hvalid nofun]
    exact update_handled
  | destroy =>
    rw [hvalid nofun]
    exact onAgent_handled fun _ => rfl
  | sleep =>
    rw [hvalid nofun]
    exact onAgent_handled fun _ => rfl
  | wake =>
    rw [hvalid nofun]
    exact onAgent_handled fun _ => rfl

/-- No RPC is refused, whoever calls it: a client of the insecure port, who
has no identities, is let in as well. -/
theorem Rpc.never_refused (rpc : Rpc) (runtime : Runtime) (request : AgentData)
    (context : Context) : ¬ (rpc.handler runtime request context).Refused :=
  (rpc.handler_handled runtime request context).not_refused

/-- A peer of the insecure port. -/
def insecure : Context where
  peerIdentities := none

/-- A runtime that accepts every name and does what it is asked to. -/
def obliging : Runtime where
  getValidAgentName name := .ok ("prod_" ++ name.getD "")
  updateAgent request _ := (request, .ok (some false))
  deleteAgent _ := .ok true
  sleepAgent _ := .ok true
  wakeAgent _ := .ok true

/-- Such a peer destroys an agent. -/
theorem insecure_destroys :
    insecure.peerIdentities = none ∧ insecure.credentials = none ∧
      (Rpc.destroy.handler obliging { name := "sensor" } insecure).outcome =
        (.ok .empty, [.deleteAgent "prod_sensor"]) ∧
      ¬ (Rpc.destroy.handler obliging { name := "sensor" } insecure).Refused := by
  have houtcome : (Rpc.destroy.handler obliging { name := "sensor" } insecure).outcome =
      (.ok .empty, [.deleteAgent "prod_sensor"]) := rfl
  refine ⟨rfl, rfl, houtcome, fun h => ?_⟩
  have hmutates := h.2 (.deleteAgent "prod_sensor") (by rw [Call.effects, houtcome]; simp)
  cases hmutates

/-- The runtime is asked for the change exactly if the name is valid. -/
theorem Rpc.changes_agent (rpc : Rpc) (runtime : Runtime) (request : AgentData)
    (context : Context) :
    (∃ e ∈ (rpc.handler runtime request context).effects, e.mutates = true) ↔
      rpc.NameValid runtime request :=
  (rpc.handler_handled runtime request context).mutates_iff

/-- Decorated as a method, each handler refuses a peer without identities. -/
theorem wrapped_refuses (rpc : Rpc) (runtime : Runtime) (request : AgentData)
    (context : Context) (hpeer : context.peerIdentities = none)
    (hcredentials : context.credentials = none) :
    (wrapped false (rpc.handler runtime) request context).Refused := by
  have heffects : (wrapped false (rpc.handler runtime) request context).effects =
      [.abort .unauthenticated "Client needs to be authentifacted"] := by
    unfold wrapped
    rw [hpeer, hcredentials]
    rfl
  rw [Call.Refused, heffects]
  exact ⟨⟨_, List.mem_cons_self⟩, fun e he => List.mem_singleton.mp he ▸ rfl⟩

end Iams.Servicer
