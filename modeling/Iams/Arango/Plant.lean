/-
Iams.Arango.Plant — the plant that agents describe, without a database.

A plant is the agents with their nodes, in the order in which they were
created. Its vertices are pairs of an agent and one of its nodes, and an edge
of an agent leads from its own vertex to one of any agent. `Ahead` are the
vertices of others that an agent comes to over its own vertices, `Neighbour`
the agents that own them, and `Missing` says that one of these vertices is
not there.

An agent that is appended changes this only for those that it has a symmetric
edge to, and for those that miss something (`neighbour_concat`,
`missing_concat`).

No `sorry`, no `axiom`, no `native_decide`.
-/
import Iams.Arango.Creation
import Iams.Lib.Traversal

namespace Iams.Arango

open Iams.Lib

variable {ω : Type}

/-- Agents with their nodes. -/
abbrev Plant (ω : Type) := List (String × Node ω)

namespace Plant

/-- An agent, and a node. -/
abbrev Vertex := String × String

/-- The names that `create_agent` inserts vertices for. -/
def HasVertex (plant : Plant ω) (v : Vertex) : Prop :=
  ∃ call ∈ plant, call.1 = v.1 ∧
    (v.2 = call.2.default ∨ ∃ edge ∈ call.2.edges, edge.nodeFrom = v.2)

/-- An edge of an agent; a symmetric one leads back as well. -/
def EdgeOf (call : String × Node ω) (u v : Vertex) : Prop :=
  ∃ edge ∈ call.2.edges,
    (call.1, edge.nodeFrom) = u ∧ (edge.owner call.1, edge.nodeTo) = v ∨
    edge.symmetric = true ∧ (edge.owner call.1, edge.nodeTo) = u ∧ (call.1, edge.nodeFrom) = v

def Next (plant : Plant ω) (u v : Vertex) : Prop := ∃ call ∈ plant, EdgeOf call u v

/-- The vertex is the agent's own. -/
def Own (plant : Plant ω) (a : String) (u : Vertex) : Prop := u.1 = a ∧ plant.HasVertex u

/-- The vertices of others that 100 edges of the plant lead to, over own
vertices from the default node. -/
def Ahead (plant : Plant ω) (a : String) (v : Vertex) : Prop :=
  ∃ call ∈ plant, call.1 = a ∧ Border plant.Next (plant.Own a) (a, call.2.default) 100 v

def Neighbour (plant : Plant ω) (a b : String) : Prop :=
  ∃ v, plant.Ahead a v ∧ plant.HasVertex v ∧ v.1 = b

def Missing (plant : Plant ω) (a : String) : Prop := ∃ v, plant.Ahead a v ∧ ¬ plant.HasVertex v

variable {plant : Plant ω} {name a b : String} {node : Node ω} {u v : Vertex}

/-! ## Order -/

section Order

variable {plant' : Plant ω} (h : ∀ call, call ∈ plant ↔ call ∈ plant')
include h

theorem hasVertex_congr : plant.HasVertex v ↔ plant'.HasVertex v := by
  simp only [HasVertex, h]

theorem ahead_congr : plant.Ahead a v ↔ plant'.Ahead a v := by
  have hnext : plant.Next = plant'.Next := by
    funext u v
    simp only [Next, h]
  have hown : plant.Own a = plant'.Own a := by
    funext u
    exact propext (and_congr_right fun _ => hasVertex_congr h)
  simp only [Ahead, h, hnext, hown]

/-- Neighbours do not depend on the order of the agents. -/
theorem neighbour_congr : plant.Neighbour a b ↔ plant'.Neighbour a b :=
  exists_congr fun _ => and_congr (ahead_congr h) (and_congr_left' (hasVertex_congr h))

theorem missing_congr : plant.Missing a ↔ plant'.Missing a :=
  exists_congr fun _ => and_congr (ahead_congr h) (not_congr (hasVertex_congr h))

end Order

/-! ## One more agent -/

theorem hasVertex_concat (h : v.1 ≠ name) :
    HasVertex (plant ++ [(name, node)]) v ↔ plant.HasVertex v := by
  constructor
  · rintro ⟨call, hcall, hname, hvertex⟩
    rcases List.mem_append.mp hcall with hold | hnew
    · exact ⟨call, hold, hname, hvertex⟩
    · obtain rfl := List.mem_singleton.mp hnew
      exact absurd hname.symm h
  · rintro ⟨call, hcall, h⟩
    exact ⟨call, List.mem_append_left _ hcall, h⟩

theorem HasVertex.concat (h : plant.HasVertex v) (call : String × Node ω) :
    HasVertex (plant ++ [call]) v := by
  obtain ⟨old, hold, h⟩ := h
  exact ⟨old, List.mem_append_left _ hold, h⟩

theorem own_concat (h : a ≠ name) : Own (plant ++ [(name, node)]) a u ↔ plant.Own a u :=
  and_congr_right fun hu => hasVertex_concat (hu ▸ h)

theorem Next.concat (h : plant.Next u v) (call : String × Node ω) :
    Next (plant ++ [call]) u v := by
  obtain ⟨old, hold, h⟩ := h
  exact ⟨old, List.mem_append_left _ hold, h⟩

theorem Ahead.concat (h : plant.Ahead a v) (hname : a ≠ name) :
    Ahead (plant ++ [(name, node)]) a v := by
  obtain ⟨call, hcall, hfirst, ⟨hv, n, hn, hreaches⟩⟩ := h
  refine ⟨call, List.mem_append_left _ hcall, hfirst, fun hown => hv ((own_concat hname).mp hown),
    n, hn, ?_⟩
  exact hreaches.mono (fun u hu => (own_concat hname).mpr hu) fun u v _ huv => huv.concat _

/-- Neighbours stay. -/
theorem Neighbour.concat (h : plant.Neighbour a b) (hname : a ≠ name) :
    Neighbour (plant ++ [(name, node)]) a b := by
  obtain ⟨v, hahead, hvertex, hb⟩ := h
  exact ⟨v, hahead.concat hname, hvertex.concat _, hb⟩

/-- The node has no symmetric edge to the agent. -/
def Apart (node : Node ω) (a : String) : Prop :=
  ∀ edge ∈ node.edges, edge.symmetric = true → edge.agent ≠ "" → edge.agent ≠ a

/-- What an agent comes to, if the new one has no symmetric edge to it. -/
theorem ahead_concat (hname : a ≠ name) (happart : Apart node a) :
    Ahead (plant ++ [(name, node)]) a v ↔ plant.Ahead a v := by
  refine ⟨?_, fun h => h.concat hname⟩
  rintro ⟨call, hcall, rfl, hborder⟩
  have hcall : call ∈ plant := by
    refine (List.mem_append.mp hcall).resolve_right fun hnew => hname ?_
    rw [List.mem_singleton.mp hnew]
  refine ⟨call, hcall, rfl, ?_⟩
  obtain ⟨hv, n, hn, hreaches⟩ := hborder
  refine ⟨fun hown => hv ((own_concat hname).mpr hown), n, hn, ?_⟩
  refine hreaches.mono (fun u hu => (own_concat hname).mp hu) fun u v hu huv => ?_
  obtain ⟨other, hother, edge, hedge, huv⟩ := huv
  rcases List.mem_append.mp hother with hold | hnew
  · exact ⟨other, hold, edge, hedge, huv⟩
  -- a new edge starts at the new agent, or is symmetric and ends at this one
  · obtain rfl := List.mem_singleton.mp hnew
    have hfirst := hu.1
    rcases huv with ⟨rfl, -⟩ | ⟨hsymmetric, rfl, -⟩
    · exact absurd hfirst.symm hname
    · dsimp only [Edge.owner] at hfirst
      split at hfirst
      · exact absurd hfirst.symm hname
      · next hagent => exact absurd hfirst (happart edge hedge hsymmetric hagent)

theorem neighbour_concat (hname : a ≠ name) (happart : Apart node a)
    (hmissing : ¬ plant.Missing a) :
    Neighbour (plant ++ [(name, node)]) a b ↔ plant.Neighbour a b := by
  refine ⟨?_, fun h => h.concat hname⟩
  rintro ⟨v, hahead, -, hb⟩
  have hahead := (ahead_concat hname happart).mp hahead
  exact ⟨v, hahead, by_contra fun hv => hmissing ⟨v, hahead, hv⟩, hb⟩

theorem missing_concat (hname : a ≠ name) (happart : Apart node a)
    (hmissing : ¬ plant.Missing a) : ¬ Missing (plant ++ [(name, node)]) a := by
  rintro ⟨v, hahead, hv⟩
  have hahead := (ahead_concat hname happart).mp hahead
  exact hmissing ⟨v, hahead, fun hvertex => hv (hvertex.concat _)⟩

end Plant

end Iams.Arango
