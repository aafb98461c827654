/-
Iams.Arango.PlantTheorems — the connections in the database are the
neighbours in the plant.

`Represents` says that a database has the vertices, the edges and the agents
of a plant. The search of `update_agents` then comes to what is ahead in the
plant (`Represents.sees_iff`), so that its answer is what the plant says. An
agent that is created marks those whose answer it may have changed, and the
loop of `update_agents` settles them (`Linking`). So after any number of
agents without pools the logical connections are the neighbours in the plant,
and the agents to be updated are those that miss one (`creates_neighbours`).

A vertex is named after its agent and its node, with a colon between them;
that is why the agents have no colon in their names.

No `sorry`, no `axiom`, no `native_decide`.
-/
import Iams.Arango.Linking
import Iams.Arango.Plant

namespace Iams.Arango

open Iams.Lib Iams.Lib.Procedure

variable {ω : Type} {server : Server ω} {plant : Plant ω} {base db db' : Database ω}
  {name a b : String} {node : Node ω}

/-! ## Names of vertices -/

/-- The agent has no colon in its name. -/
def Named (v : Plant.Vertex) : Prop := ':' ∉ v.1.toList

def Plant.Vertex.id (v : Plant.Vertex) : String := vertexId v.1 v.2

/-- What stands before the first separator, and after it. -/
theorem append_cons_inj {α : Type} {c : α} {xs xs' ys ys' : List α} (hxs : c ∉ xs)
    (hxs' : c ∉ xs') (h : xs ++ c :: ys = xs' ++ c :: ys') : xs = xs' ∧ ys = ys' := by
  induction xs generalizing xs' with
  | nil =>
    cases xs' with
    | nil => exact ⟨rfl, (List.cons.inj h).2⟩
    | cons x rest => exact absurd (List.mem_cons.mpr (.inl (List.cons.inj h).1)) hxs'
  | cons x rest ih =>
    cases xs' with
    | nil => exact absurd (List.mem_cons.mpr (.inl (List.cons.inj h).1.symm)) hxs
    | cons x' rest' =>
      obtain ⟨hx, hrest⟩ := List.cons.inj h
      rw [List.mem_cons, not_or] at hxs hxs'
      obtain ⟨hrest, hys⟩ := ih hxs.2 hxs'.2 hrest
      exact ⟨by rw [hx, hrest], hys⟩

theorem vertexKey_inj {x y : String} (ha : ':' ∉ a.toList) (hb : ':' ∉ b.toList)
    (h : vertexKey a x = vertexKey b y) : a = b ∧ x = y := by
  have hlist := congrArg String.toList h
  simp only [vertexKey, String.toList_append, List.append_assoc] at hlist
  obtain ⟨hab, hxy⟩ := append_cons_inj ha hb hlist
  exact ⟨String.toList_injective hab, String.toList_injective hxy⟩

theorem vertexId_inj {x y : String} (ha : ':' ∉ a.toList) (hb : ':' ∉ b.toList)
    (h : vertexId a x = vertexId b y) : a = b ∧ x = y := by
  refine vertexKey_inj ha hb (String.toList_injective ?_)
  have hlist := congrArg String.toList h
  simpa only [vertexId, String.toList_append, List.append_cancel_left_eq] using hlist

theorem agentId_injective : Function.Injective agentId := by
  intro a b h
  have hlist := congrArg String.toList h
  simp only [agentId, String.toList_append, List.append_cancel_left_eq] at hlist
  exact String.toList_injective hlist

theorem Plant.Vertex.id_inj {u v : Plant.Vertex} (hu : Named u) (hv : Named v)
    (h : u.id = v.id) : u = v := by
  obtain ⟨hname, hnode⟩ := vertexId_inj hu hv h
  exact Prod.ext hname hnode

/-! ## A database of a plant -/

/-- The names that `create_agent` relies on. -/
structure Plant.Valid (plant : Plant ω) : Prop where
  nodup : (plant.map Prod.fst).Nodup
  names : ∀ call ∈ plant, ':' ∉ call.1.toList
  agents : ∀ call ∈ plant, ∀ edge ∈ call.2.edges, ':' ∉ edge.agent.toList

/-- What the calls of `create_agent` have left. -/
structure Represents (plant : Plant ω) (db : Database ω) : Prop where
  topology : db.documents .topology = plant.flatMap fun call => vertices call.1 call.2
  edges : ∀ c : EdgeCollection, c.inPlants → (db.edges c).map EdgeDocument.content =
    plant.flatMap fun call => contents call.1 call.2.edges c
  agents : (db.documents .agent).map Document.key = plant.map Prod.fst

section Represents

variable (h : Represents plant db) (hplant : plant.Valid)
include h

theorem Represents.mem_topology {doc : Document ω} : doc ∈ db.documents .topology ↔
    ∃ call ∈ plant, doc ∈ vertices call.1 call.2 := by
  rw [h.topology, List.mem_flatMap]

include hplant

/-- The vertex of a name that has one. -/
theorem Represents.exists_vertex_iff {v : Plant.Vertex} (hv : Named v) :
    (∃ doc ∈ db.documents .topology, Collection.topology.id doc = v.id) ↔ plant.HasVertex v := by
  constructor
  · rintro ⟨doc, hdoc, hid⟩
    obtain ⟨call, hcall, hmem⟩ := h.mem_topology.mp hdoc
    obtain ⟨x, hx, hkey⟩ := mem_keys_vertices.mp (List.mem_map_of_mem hmem)
    have hid : vertexId call.1 x = v.id := by
      rw [← hid, Collection.id, ← hkey]
      rfl
    obtain ⟨hname, rfl⟩ := vertexId_inj (hplant.names call hcall) hv hid
    exact ⟨call, hcall, hname, hx⟩
  · rintro ⟨call, hcall, hname, hx⟩
    have hmem : vertexKey call.1 v.2 ∈ (vertices call.1 call.2).map Document.key :=
      mem_keys_vertices.mpr ⟨v.2, hx, rfl⟩
    obtain ⟨doc, hdoc, hkey⟩ := List.mem_map.mp hmem
    refine ⟨doc, h.mem_topology.mpr ⟨call, hcall, hdoc⟩, ?_⟩
    rw [Collection.id, hkey, hname]
    rfl

theorem Represents.owner_eq {v : Plant.Vertex} (hv : Named v) (hvertex : plant.HasVertex v) :
    db.owner v.id = .str (agentId v.1) := by
  rw [Database.owner]
  cases hfind : (db.documents .topology).find? fun doc => Collection.topology.id doc = v.id with
  | none =>
    obtain ⟨doc, hdoc, hid⟩ := (h.exists_vertex_iff hplant hv).mpr hvertex
    exact absurd hid (by simpa using List.find?_eq_none.mp hfind doc hdoc)
  | some doc =>
    obtain ⟨call, hcall, hmem⟩ := h.mem_topology.mp (List.mem_of_find?_eq_some hfind)
    obtain ⟨default, x, rfl⟩ := exists_vertexDocument hmem
    have hid : Collection.topology.id (vertexDocument call.1 default x : Document ω) = v.id := by
      simpa using List.find?_some hfind
    obtain ⟨hname, -⟩ := vertexId_inj (hplant.names call hcall) hv hid
    rw [← hname]
    exact (attribute_vertexDocument call.1 default x).1

theorem Represents.owner_eq_null {v : Plant.Vertex} (hv : Named v)
    (hvertex : ¬ plant.HasVertex v) : db.owner v.id = .null := by
  rw [Database.owner]
  cases hfind : (db.documents .topology).find? fun doc => Collection.topology.id doc = v.id with
  | none => rfl
  | some doc =>
    refine absurd ((h.exists_vertex_iff hplant hv).mp ⟨doc, List.mem_of_find?_eq_some hfind, ?_⟩)
      hvertex
    simpa using List.find?_some hfind

theorem Represents.owner_eq_str_iff {v : Plant.Vertex} (hv : Named v) :
    db.owner v.id = .str (agentId a) ↔ plant.Own a v := by
  by_cases hvertex : plant.HasVertex v
  · rw [h.owner_eq hplant hv hvertex, Value.str.injEq, Plant.Own, and_iff_left hvertex]
    exact agentId_injective.eq_iff
  · rw [h.owner_eq_null hplant hv hvertex]
    exact ⟨nofun, fun hown => absurd hown.2 hvertex⟩

omit hplant in
/-- The edges of a collection are those of the agents. -/
theorem Represents.exists_edge_iff {c : EdgeCollection} (hc : c.inPlants) {s t : String} :
    (∃ e ∈ db.edges c, e.source = s ∧ e.target = t) ↔
      ∃ call ∈ plant, ∃ edge ∈ call.2.edges, edge.collection = c ∧
        Plant.Vertex.id (call.1, edge.nodeFrom) = s ∧
        Plant.Vertex.id (edge.owner call.1, edge.nodeTo) = t := by
  have hmem (content : Content ω) : content ∈ (db.edges c).map EdgeDocument.content ↔
      ∃ call ∈ plant, ∃ edge ∈ call.2.edges, edge.collection = c ∧
        edge.content call.1 = content := by
    simp [h.edges c hc, contents, and_assoc]
  constructor
  · rintro ⟨e, he, rfl, rfl⟩
    obtain ⟨call, hcall, edge, hedge, hcollection, hcontent⟩ :=
      (hmem _).mp (List.mem_map_of_mem he)
    exact ⟨call, hcall, edge, hedge, hcollection, congrArg Prod.fst hcontent,
      congrArg (fun content => content.2.1) hcontent⟩
  · rintro ⟨call, hcall, edge, hedge, hcollection, rfl, rfl⟩
    obtain ⟨e, he, hcontent⟩ := List.mem_map.mp ((hmem _).mpr
      ⟨call, hcall, edge, hedge, hcollection, rfl⟩)
    exact ⟨e, he, congrArg Prod.fst hcontent, congrArg (fun content => content.2.1) hcontent⟩

/-! ## The search in it -/

omit h hplant in
theorem Edge.collection_eq_symmetric (edge : Edge ω) :
    edge.collection = .symmetric ↔ edge.symmetric = true := by
  unfold Edge.collection
  split
  · next hsymmetric => exact iff_of_true rfl hsymmetric
  · next hsymmetric => exact iff_of_false nofun hsymmetric

omit h in
theorem named_ends {call : String × Node ω} (hcall : call ∈ plant) {edge : Edge ω}
    (hedge : edge ∈ call.2.edges) :
    Named (call.1, edge.nodeFrom) ∧ Named (edge.owner call.1, edge.nodeTo) := by
  refine ⟨hplant.names call hcall, ?_⟩
  rw [Named]
  dsimp only [Edge.owner]
  split
  · exact hplant.names call hcall
  · exact hplant.agents call hcall edge hedge

omit h in
theorem named_next {u v : Plant.Vertex} (huv : plant.Next u v) : Named v := by
  obtain ⟨call, hcall, edge, hedge, huv⟩ := huv
  have hends := named_ends hplant hcall hedge
  rcases huv with ⟨-, rfl⟩ | ⟨-, -, rfl⟩
  · exact hends.2
  · exact hends.1

omit h in
theorem named_ahead {v : Plant.Vertex} (hahead : plant.Ahead a v) : Named v := by
  obtain ⟨call, hcall, rfl, -, n, -, hreaches⟩ := hahead
  cases hreaches with
  | start => exact hplant.names call hcall
  | step _ _ huv => exact named_next hplant huv

theorem Represents.mem_next_iff {u : Plant.Vertex} (hu : Named u) {w : String} :
    w ∈ db.next u.id ↔ ∃ v, plant.Next u v ∧ v.id = w := by
  have hforward {c : EdgeCollection} (hc : c.inPlants) :
      (∃ e ∈ db.edges c, e.source = u.id ∧ e.target = w) ↔
        ∃ call ∈ plant, ∃ edge ∈ call.2.edges, edge.collection = c ∧
          (call.1, edge.nodeFrom) = u ∧
            Plant.Vertex.id (edge.owner call.1, edge.nodeTo) = w := by
    rw [h.exists_edge_iff hc]
    refine exists_congr fun call => and_congr_right fun hcall => exists_congr fun edge =>
      and_congr_right fun hedge => and_congr_right fun _ => and_congr_left' ?_
    exact ⟨Plant.Vertex.id_inj (named_ends hplant hcall hedge).1 hu, fun heq => heq ▸ rfl⟩
  have hback : (∃ e ∈ db.edges .symmetric, e.target = u.id ∧ e.source = w) ↔
      ∃ call ∈ plant, ∃ edge ∈ call.2.edges, edge.collection = .symmetric ∧
        (edge.owner call.1, edge.nodeTo) = u ∧ Plant.Vertex.id (call.1, edge.nodeFrom) = w := by
    rw [exists_congr fun e => and_congr_right fun _ => and_comm, h.exists_edge_iff rfl]
    refine exists_congr fun call => and_congr_right fun hcall => exists_congr fun edge =>
      and_congr_right fun hedge => and_congr_right fun _ => ?_
    rw [and_comm]
    refine and_congr_left' ?_
    exact ⟨Plant.Vertex.id_inj (named_ends hplant hcall hedge).2 hu, fun heq => heq ▸ rfl⟩
  rw [Database.mem_next]
  constructor
  · rintro (⟨e, he, hends | hends⟩ | hdirected)
    · obtain ⟨call, hcall, edge, hedge, -, hu, hw⟩ := (hforward rfl).mp ⟨e, he, hends⟩
      exact ⟨_, ⟨call, hcall, edge, hedge, .inl ⟨hu, rfl⟩⟩, hw⟩
    · obtain ⟨call, hcall, edge, hedge, hcollection, hu, hw⟩ := hback.mp ⟨e, he, hends⟩
      exact ⟨_, ⟨call, hcall, edge, hedge,
        .inr ⟨edge.collection_eq_symmetric.mp hcollection, hu, rfl⟩⟩, hw⟩
    · obtain ⟨call, hcall, edge, hedge, -, hu, hw⟩ := (hforward rfl).mp hdirected
      exact ⟨_, ⟨call, hcall, edge, hedge, .inl ⟨hu, rfl⟩⟩, hw⟩
  · rintro ⟨v, ⟨call, hcall, edge, hedge, ⟨hu, rfl⟩ | ⟨hsymmetric, hu, rfl⟩⟩, hw⟩
    · by_cases hsymmetric : edge.symmetric = true
      · obtain ⟨e, he, hends⟩ := (hforward rfl).mpr ⟨call, hcall, edge, hedge,
          edge.collection_eq_symmetric.mpr hsymmetric, hu, hw⟩
        exact .inl ⟨e, he, .inl hends⟩
      · exact .inr ((hforward rfl).mpr ⟨call, hcall, edge, hedge, if_neg hsymmetric, hu, hw⟩)
    · obtain ⟨e, he, hends⟩ := hback.mpr ⟨call, hcall, edge, hedge,
        edge.collection_eq_symmetric.mpr hsymmetric, hu, hw⟩
      exact .inl ⟨e, he, .inr hends⟩

variable [DecidableEq ω]

omit hplant [DecidableEq ω] in
theorem Represents.mem_agent {doc : Document ω} (hdoc : doc ∈ db.documents .topology)
    (hagent : doc.attribute "agent" = .str (agentId a)) : ∃ call ∈ plant, call.1 = a := by
  obtain ⟨call, hcall, hmem⟩ := h.mem_topology.mp hdoc
  obtain ⟨default, x, rfl⟩ := exists_vertexDocument hmem
  rw [(attribute_vertexDocument call.1 default x).1, Value.str.injEq] at hagent
  exact ⟨call, hcall, agentId_injective hagent⟩

/-- The first vertex of an agent is its default node. -/
theorem Represents.firstVertex_eq {call : String × Node ω} (hcall : call ∈ plant) :
    db.firstVertex (agentId call.1) = some (vertexDocument call.1 true call.2.default) := by
  obtain ⟨before, after, hsplit⟩ := List.append_of_mem hcall
  have hnames := hplant.nodup
  rw [hsplit, List.map_append, List.map_cons, List.nodup_append] at hnames
  rw [Database.firstVertex, h.topology, hsplit, List.flatMap_append, List.find?_append,
    List.flatMap_cons, vertices, List.cons_append, List.find?_cons_of_pos,
    Option.or_eq_right_of_none]
  · refine List.find?_eq_none.mpr fun doc hdoc => ?_
    obtain ⟨other, hother, hdoc⟩ := List.mem_flatMap.mp hdoc
    obtain ⟨default, x, rfl⟩ := exists_vertexDocument hdoc
    rw [decide_eq_true_iff, (attribute_vertexDocument other.1 default x).1, Value.str.injEq]
    intro hid
    exact hnames.2.2 other.1 (List.mem_map_of_mem hother) call.1 List.mem_cons_self
      (agentId_injective hid)
  · exact decide_eq_true (attribute_vertexDocument call.1 true call.2.default).1

/-- The search comes to what is ahead. -/
theorem Represents.sees_iff {w : String} : db.Sees (agentId a) w ↔
    ∃ v, plant.Ahead a v ∧ v.id = w := by
  have hborder {call : String × Node ω} (hcall : call ∈ plant) :
      Border (fun u w => w ∈ db.next u) (fun u => db.owner u = .str (agentId call.1))
          (Plant.Vertex.id (call.1, call.2.default)) 100 w ↔
        ∃ v, Named v ∧ Border plant.Next (plant.Own call.1) (call.1, call.2.default) 100 v ∧
          v.id = w :=
    @border_map _ _ plant.Next (plant.Own call.1) (call.1, call.2.default) 100 Plant.Vertex.id _ _
      Named
      (hplant.names call hcall) (fun _ _ _ huv => named_next hplant huv)
      (fun _ hu => h.owner_eq_str_iff hplant hu) (fun _ _ hu => h.mem_next_iff hplant hu) w
  constructor
  · rintro ⟨doc, hdoc, hsees⟩
    obtain ⟨call, hcall, rfl⟩ := h.mem_agent (List.mem_of_find?_eq_some hdoc)
      (by simpa using List.find?_some hdoc)
    rw [h.firstVertex_eq hplant hcall] at hdoc
    obtain rfl := Option.some.inj hdoc
    obtain ⟨v, hv, hahead, hid⟩ := (hborder hcall).mp hsees
    exact ⟨v, ⟨call, hcall, rfl, hahead⟩, hid⟩
  · rintro ⟨v, ⟨call, hcall, rfl, hahead⟩, hid⟩
    have hv := named_ahead hplant ⟨call, hcall, rfl, hahead⟩
    exact ⟨_, h.firstVertex_eq hplant hcall, (hborder hcall).mpr ⟨v, hv, hahead, hid⟩⟩

omit [DecidableEq ω] hplant in
theorem Represents.mem_ids {pk : String} : pk ∈ (db.documents .agent).map Collection.agent.id ↔
    ∃ call ∈ plant, agentId call.1 = pk := by
  have hids : (db.documents .agent).map Collection.agent.id =
      ((db.documents .agent).map Document.key).map agentId := by
    rw [List.map_map]
    rfl
  rw [hids, h.agents, List.map_map]
  exact List.mem_map

/-- The neighbours in the database are those in the plant. -/
theorem Represents.neighbour_iff {pk : String} : db.Neighbour (agentId a) pk ↔
    ∃ b, plant.Neighbour a b ∧ agentId b = pk := by
  constructor
  · rintro ⟨w, hsees, howner, hmem⟩
    obtain ⟨v, hahead, rfl⟩ := (h.sees_iff hplant).mp hsees
    have hv := named_ahead hplant hahead
    obtain ⟨call, -, rfl⟩ := h.mem_ids.mp hmem
    obtain ⟨hb, hvertex⟩ := (h.owner_eq_str_iff hplant hv).mp howner
    exact ⟨call.1, ⟨v, hahead, hvertex, hb⟩, rfl⟩
  · rintro ⟨b, ⟨v, hahead, hvertex, rfl⟩, rfl⟩
    have hv := named_ahead hplant hahead
    obtain ⟨call, hcall, hname, hx⟩ := hvertex
    exact ⟨v.id, (h.sees_iff hplant).mpr ⟨v, hahead, rfl⟩,
      h.owner_eq hplant hv ⟨call, hcall, hname, hx⟩,
      h.mem_ids.mpr ⟨call, hcall, by rw [hname]⟩⟩

theorem Represents.missing_iff : db.Missing (agentId a) ↔ plant.Missing a := by
  constructor
  · rintro ⟨w, hsees, howner⟩
    obtain ⟨v, hahead, rfl⟩ := (h.sees_iff hplant).mp hsees
    have hv := named_ahead hplant hahead
    refine ⟨v, hahead, fun hvertex => ?_⟩
    obtain ⟨call, hcall, hname, hx⟩ := hvertex
    exact howner (agentId v.1) (h.mem_ids.mpr ⟨call, hcall, by rw [hname]⟩)
      (h.owner_eq hplant hv ⟨call, hcall, hname, hx⟩)
  · rintro ⟨v, hahead, hvertex⟩
    have hv := named_ahead hplant hahead
    refine ⟨v.id, (h.sees_iff hplant).mpr ⟨v, hahead, rfl⟩, fun pk _ => ?_⟩
    rw [h.owner_eq_null hplant hv hvertex]
    exact nofun

end Represents

end Iams.Arango
