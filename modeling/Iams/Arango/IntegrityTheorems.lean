/-
Iams.Arango.IntegrityTheorems — when the topology of a new agent has a
vertex for each of its nodes.

`create_agent` is to insert the target of an edge that names no agent, if it
is not there yet. It tests for this with `edge.agent is None`, but the field
of a message reads as `''` when it is not set, so that no target is
inserted. A target has a vertex only as the default node, or as the source
of an edge (`integrity_iff`).

No `sorry`, no `axiom`, no `native_decide`.
-/
import Iams.Arango.Creation
import Mathlib.Data.List.Forall2

namespace Iams.Arango

open Iams.Lib Iams.Lib.Procedure

variable {ω : Type} {server : Server ω} {db db' : Database ω} {name : String} {node : Node ω}

/-- A node of this agent: the default, the source of an edge, or the target
of one that goes to no other agent. -/
def Node.Names (name : String) (node : Node ω) (x : String) : Prop :=
  x = node.default ∨
    ∃ edge ∈ node.edges, edge.nodeFrom = x ∨ edge.owner name = name ∧ edge.nodeTo = x

/-- Where every target is the default or a source, no node is left out. -/
theorem names_iff (hends : ∀ edge ∈ node.edges, edge.owner name = name →
    edge.nodeTo = node.default ∨ ∃ other ∈ node.edges, other.nodeFrom = edge.nodeTo) (x : String) :
    node.Names name x ↔ x = node.default ∨ ∃ edge ∈ node.edges, edge.nodeFrom = x := by
  constructor
  · rintro (hx | ⟨edge, hedge, hx | ⟨hown, rfl⟩⟩)
    · exact .inl hx
    · exact .inr ⟨edge, hedge, hx⟩
    · exact hends edge hedge hown
  · exact Or.imp_right fun ⟨edge, hedge, hx⟩ => ⟨edge, hedge, .inl hx⟩

/-- The documents that are new are those of the edges, in their order. -/
theorem Added.forall₂ {docs : List (Document ω)} (h : Added name docs node.edges db db')
    {c : EdgeCollection} (hc : c.inPlants) :
    ∃ new, db'.edges c = db.edges c ++ new ∧
      List.Forall₂ (fun edge doc => doc.content = edge.content name)
        (node.edges.filter fun edge => edge.collection = c) new := by
  obtain ⟨new, heq, hnew⟩ := h.edges c hc
  have hall : List.Forall₂ Eq (contents name node.edges c) (new.map EdgeDocument.content) := by
    rw [hnew, List.forall₂_eq_eq_eq]
  rw [contents, List.forall₂_map_left_iff, List.forall₂_map_right_iff] at hall
  exact ⟨new, heq, hall.imp fun _ _ h => h.symm⟩

variable [DecidableEq ω]

def Database.HasVertex (name : String) (db : Database ω) (x : String) : Prop :=
  vertexKey name x ∈ (db.verticesOf name).map Document.key

/-- The agent has one vertex for each of its nodes and no other vertices. A
document is inserted for each edge, and its ends that belong to the agent
are vertices. -/
structure Integrity (name : String) (node : Node ω) (db db' : Database ω) : Prop where
  nodup : ((db'.verticesOf name).map Document.key).Nodup
  vertices : ∀ k, k ∈ (db'.verticesOf name).map Document.key ↔
    ∃ x, node.Names name x ∧ vertexKey name x = k
  edges : ∀ c : EdgeCollection, c.inPlants → ∃ new, db'.edges c = db.edges c ++ new ∧
    List.Forall₂ (fun edge doc =>
      (db'.HasVertex name edge.nodeFrom ∧
        (edge.owner name = name → db'.HasVertex name edge.nodeTo)) ∧
      doc.content = edge.content name) (node.edges.filter fun edge => edge.collection = c) new

theorem Added.hasVertex_iff (hnone : db.verticesOf name = [])
    (h : Added name (vertices name node) node.edges db db') (x : String) :
    db'.HasVertex name x ↔ x = node.default ∨ ∃ edge ∈ node.edges, edge.nodeFrom = x := by
  rw [Database.HasVertex, h.verticesOf, hnone, List.nil_append, mem_keys_vertices]
  constructor
  · rintro ⟨y, hy, heq⟩
    rwa [← vertexKey_injective name heq]
  · exact fun hx => ⟨x, hx, rfl⟩

theorem integrity_iff (hnone : db.verticesOf name = [])
    (h : exec (server.inserts name node) db = (.ok (), db')) :
    Integrity name node db db' ↔
      ∀ edge ∈ node.edges, edge.owner name = name →
        edge.nodeTo = node.default ∨ ∃ other ∈ node.edges, other.nodeFrom = edge.nodeTo := by
  obtain ⟨-, hadded⟩ := inserts_ok h
  have hvertices : db'.verticesOf name = vertices name node := by
    rw [hadded.verticesOf, hnone, List.nil_append]
  have hasVertex_iff := hadded.hasVertex_iff hnone
  constructor
  · intro hintegrity edge hedge hown
    refine (hasVertex_iff _).mp ((hintegrity.vertices _).mpr ⟨edge.nodeTo, ?_, rfl⟩)
    exact .inr ⟨edge, hedge, .inr ⟨hown, rfl⟩⟩
  · intro hends
    refine ⟨hvertices ▸ nodup_keys_vertices name node, fun k => ?_, fun c hc => ?_⟩
    · rw [hvertices, mem_keys_vertices]
      exact exists_congr fun x => and_congr_left' (names_iff hends x).symm
    · obtain ⟨new, heq, hall⟩ := hadded.forall₂ hc
      refine ⟨new, heq, (List.forall₂_and_left _ _).mpr ⟨fun edge hedge => ?_, hall⟩⟩
      have hmem := (List.mem_filter.mp hedge).1
      exact ⟨(hasVertex_iff _).mpr (.inr ⟨edge, hmem, rfl⟩),
        fun hown => (hasVertex_iff _).mpr (hends edge hmem hown)⟩

/-- A default node with an edge to another one and one back. -/
def ring : Node Nat where
  default := "d"
  pools := []
  edges := [{ nodeFrom := "d", nodeTo := "e", agent := "", weight := 1, symmetric := false },
    { nodeFrom := "e", nodeTo := "d", agent := "", weight := 1, symmetric := false }]
  abilities := []

theorem integrity_iff_ring :
    Integrity "a" ring .empty (exec (Server.quiet.inserts "a" ring) .empty).2 := by
  have h : exec (Server.quiet.inserts "a" ring) .empty =
      (.ok (), (exec (Server.quiet.inserts "a" ring) .empty).2) := Prod.ext rfl rfl
  refine (integrity_iff rfl h).mpr fun edge hedge _ => ?_
  rcases List.mem_cons.mp hedge with rfl | hedge
  · exact .inr ⟨_, List.mem_cons_of_mem _ (List.mem_singleton_self _), rfl⟩
  · exact .inl (by rw [List.mem_singleton.mp hedge]; rfl)

/-- A default node with an edge to another one. -/
def branch : Node Nat where
  default := "d"
  pools := []
  edges := [{ nodeFrom := "d", nodeTo := "e", agent := "", weight := 1, symmetric := false }]
  abilities := []

/-- The other node has no vertex, and the edge ends nowhere. -/
theorem target_not_inserted :
    ∃ db', exec (Server.quiet.inserts "a" branch) .empty = (.ok (), db') ∧
      (db'.documents .topology).map Document.key = ["a:d"] ∧
      (db'.edges .directed).map EdgeDocument.target = ["topology/a:e"] ∧
      ¬ Integrity "a" branch .empty db' := by
  refine ⟨_, Prod.ext rfl rfl, rfl, rfl, fun h => ?_⟩
  have hmem := (h.vertices "a:e").mpr
    ⟨"e", .inr ⟨_, List.mem_singleton_self _, .inr ⟨rfl, rfl⟩⟩, rfl⟩
  revert hmem
  decide

end Iams.Arango
