/-
Iams.Arango.Deletion — what `delete_agent` removes, and what an update
changes.

The first query of `delete_agent` removes the vertices of the agent and
edges of the topology, the second one the agent and its connections. An
update goes on with `create_agent` when one of them fails, so that it removes
what the first query does (`Removes`) or, if this one fails, nothing
(`updateAgent_ok`).

No `sorry`, no `axiom`, no `native_decide`.
-/
import Iams.Arango.Creation

namespace Iams.Arango

open Iams.Lib Iams.Lib.Procedure

variable {ω : Type} {server : Server ω} {db db' : Database ω} {name : String}

/-! ## `delete_agent` -/

theorem deleteConnections_same (h : server.deleteConnections name db = some db') :
    SameTopology db db' := by
  obtain ⟨keys, -, h⟩ := Option.bind_eq_some_iff.mp h
  split at h
  · cases h
  · cases h
    refine ⟨rfl, fun c hc => ?_⟩
    cases c with
    | symmetric | directed => rfl
    | logical | virtual => cases hc

theorem keeps_deleteConnections (server : Server ω) (name : String) :
    Keeps SameTopology (server.execute (server.deleteConnections name)) :=
  keeps_execute server fun _ _ => deleteConnections_same

variable [DecidableEq ω]

/-- The first query of `delete_agent` does not fail. -/
def Server.Accepts (server : Server ω) (name : String) (db : Database ω) : Prop :=
  server.fault db.requests = none ∧
    (server.deleteTopology name { db with requests := db.requests + 1 }).isSome = true

/-- What the first query removes. -/
structure Removes (name : String) (db db' : Database ω) : Prop where
  topology : db'.documents .topology =
    (db.documents .topology).filter fun doc => ¬ Server.ofAgent name doc
  edges : ∀ c : EdgeCollection, c.inPlants → db'.edges c =
    (db.edges c).filter fun e => ¬ (db.verticesOf name).any fun doc => Server.startsAt doc e

theorem Removes.verticesOf (h : Removes name db db') : db'.verticesOf name = [] := by
  rw [Database.verticesOf, h.topology, List.filter_filter, List.filter_eq_nil_iff]
  simp

theorem Removes.trans_same {db₁ : Database ω} (h : Removes name db db₁)
    (hsame : SameTopology db₁ db') : Removes name db db' where
  topology := hsame.1.trans h.topology
  edges c hc := (hsame.2 c hc).trans (h.edges c hc)

theorem deleteTopology_removes (h : server.deleteTopology name db = some db') :
    Removes name db db' := by
  obtain ⟨keys, -, h⟩ := Option.bind_eq_some_iff.mp h
  split at h
  · cases h
  · cases h
    refine ⟨rfl, fun c hc => ?_⟩
    cases c with
    | symmetric | directed => rfl
    | logical | virtual => cases hc

/-- The two outcomes of the first query. -/
theorem exec_deleteTopology (server : Server ω) (name : String) (db : Database ω) :
    (server.Accepts name db ∧ ∃ db', Removes name db db' ∧
      exec (server.execute (server.deleteTopology name)) db = (.ok (), db')) ∨
    ¬ server.Accepts name db ∧ ∃ e db', SameTopology db db' ∧
      exec (server.execute (server.deleteTopology name)) db = (.error e, db') := by
  rw [exec_execute, Server.Accepts]
  cases server.fault db.requests with
  | some e => exact .inr ⟨nofun, e, _, sameTopology_requests db, rfl⟩
  | none =>
    cases hresult : server.deleteTopology name { db with requests := db.requests + 1 } with
    | some db' =>
      have hremoves := deleteTopology_removes hresult
      exact .inl ⟨⟨rfl, rfl⟩, db', ⟨hremoves.topology, hremoves.edges⟩, rfl⟩
    | none => exact .inr ⟨nofun, _, _, sameTopology_requests db, rfl⟩

/-- What `delete_agent` has removed from the topology, whether it returns or
not. -/
theorem exec_deleteAgent (server : Server ω) (name : String) (update : Bool) (db : Database ω) :
    server.Accepts name db ∧ Removes name db (exec (server.deleteAgent name update) db).2 ∨
      ¬ server.Accepts name db ∧ SameTopology db (exec (server.deleteAgent name update) db).2 ∧
        ∃ e, (exec (server.deleteAgent name update) db).1 = .error e := by
  have hrest : Keeps SameTopology (server.execute (server.deleteConnections name) >>= fun _ =>
      if update then server.updateAgents >>= fun _ => pure true else pure true) := by
    refine frame_sameTopology.keeps_bind (keeps_deleteConnections server name) fun _ => ?_
    split
    · exact frame_sameTopology.keeps_bind (keeps_updateAgents server) fun _ =>
        frame_sameTopology.keeps_pure true
    · exact frame_sameTopology.keeps_pure true
  rcases exec_deleteTopology server name db with
    ⟨haccepts, db₁, hremoves, htopology⟩ | ⟨hrejects, e, db₁, hsame, htopology⟩
  · refine .inl ⟨haccepts, hremoves.trans_same ?_⟩
    rw [Server.deleteAgent, exec_bind_of_ok htopology]
    exact hrest db₁
  · rw [Server.deleteAgent, exec_bind, htopology]
    exact .inr ⟨hrejects, hsame, e, rfl⟩

theorem deleteAgent_ok {update b : Bool}
    (h : exec (server.deleteAgent name update) db = (.ok b, db')) : Removes name db db' := by
  rcases exec_deleteAgent server name update db with ⟨-, hremoves⟩ | ⟨-, -, e, he⟩
  · rwa [h] at hremoves
  · rw [h] at he
    cases he

/-! ## `update_agent` -/

/-- An update removes what is accepted, and creates the agent then. -/
theorem updateAgent_ok {node : Node ω}
    (h : exec (server.updateAgent name node) db = (.ok (), db')) :
    ∃ db₁, (server.Accepts name db ∧ Removes name db db₁ ∨
        ¬ server.Accepts name db ∧ SameTopology db db₁) ∧
      (∀ doc ∈ db₁.documents .topology, doc.key ≠ vertexKey name node.default) ∧
      Added name (vertices name node) node.edges db₁ db' := by
  obtain ⟨_, db₁, hdelete, hcreate⟩ := exec_bind_eq_ok.mp h
  refine ⟨db₁, ?_, createAgent_ok hcreate⟩
  have hdb₁ : db₁ = (exec (server.deleteAgent name false) db).2 := by
    rw [exec_tryCatch, exec_bind] at hdelete
    rcases hexec : exec (server.deleteAgent name false) db with ⟨e | b, db₂⟩
    · rw [hexec] at hdelete
      dsimp only at hdelete
      split at hdelete
      · cases hdelete
        rfl
      · cases hdelete
    · rw [hexec] at hdelete
      cases hdelete
      rfl
  rw [hdb₁]
  exact (exec_deleteAgent server name false db).imp_right fun h => ⟨h.1, h.2.1⟩

end Iams.Arango
