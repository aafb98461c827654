/-
Iams.Arango.Creation — what `create_agent` has inserted when it returns.

An agent gets a vertex for its default node and one for each other node
that an edge starts at (`vertices`), and each edge gets a document
(`contents`). No node gets a vertex for being the end of an edge. `Added`
says that so much is new in the topology; it composes (`Added.trans`), so
that the loop is an induction on its edges (`addEdges_ok`).

No `sorry`, no `axiom`, no `native_decide`.
-/
import Iams.Arango.Steps

namespace Iams.Arango

open Iams.Lib Iams.Lib.Procedure

variable {ω : Type} {server : Server ω} {db db₁ db' : Database ω} {name : String}

/-! ## Documents of an agent -/

def vertexDocument (name : String) (default : Bool) (x : String) : Document ω :=
  { key := vertexKey name x, attributes := Dict.empty.update (vertexAttributes name default) }

/-- The nodes that the loop of `create_agent` inserts. -/
def fresh : List String → List (Edge ω) → List String
  | _, [] => []
  | nodes, edge :: rest =>
    if edge.nodeFrom ∈ nodes then fresh nodes rest
    else edge.nodeFrom :: fresh (nodes ++ [edge.nodeFrom]) rest

def vertices (name : String) (node : Node ω) : List (Document ω) :=
  vertexDocument name true node.default ::
    (fresh [node.default] node.edges).map (vertexDocument name false)

/-- `edge.agent or name` -/
def Edge.owner (name : String) (edge : Edge ω) : String :=
  if edge.agent = "" then name else edge.agent

/-- An edge document without its key -/
abbrev Content (ω : Type) := String × String × Dict String (Value ω)

def EdgeDocument.content (doc : EdgeDocument ω) : Content ω :=
  (doc.source, doc.target, doc.attributes)

def Edge.content (name : String) (edge : Edge ω) : Content ω :=
  (vertexId name edge.nodeFrom, vertexId (edge.owner name) edge.nodeTo,
    Dict.empty.update [("weight", .number edge.weight)])

/-- What the edges of a collection are inserted as. -/
def contents (name : String) (edges : List (Edge ω)) (c : EdgeCollection) : List (Content ω) :=
  (edges.filter fun edge => edge.collection = c).map (Edge.content name)

theorem mem_fresh {x : String} {edges : List (Edge ω)} {nodes : List String} :
    x ∈ fresh nodes edges ↔ x ∉ nodes ∧ ∃ edge ∈ edges, edge.nodeFrom = x := by
  induction edges generalizing nodes with
  | nil => simp [fresh]
  | cons edge rest ih =>
    by_cases hmem : edge.nodeFrom ∈ nodes
    · rw [fresh, if_pos hmem, ih, List.exists_mem_cons_iff]
      refine and_congr_right fun hx => ⟨.inr, fun h => h.resolve_left ?_⟩
      rintro rfl
      exact hx hmem
    · rw [fresh, if_neg hmem, List.mem_cons, ih, List.exists_mem_cons_iff, List.mem_append,
        List.mem_singleton, eq_comm (a := x)]
      by_cases hx : edge.nodeFrom = x
      · subst hx
        simp [hmem]
      · simp [hx]

theorem nodup_fresh (nodes : List String) (edges : List (Edge ω)) : (fresh nodes edges).Nodup := by
  induction edges generalizing nodes with
  | nil => exact List.nodup_nil
  | cons edge rest ih =>
    rw [fresh]
    split
    · exact ih nodes
    · refine List.nodup_cons.mpr ⟨fun hmem => ?_, ih _⟩
      exact (mem_fresh.mp hmem).1 (List.mem_append_right nodes (List.mem_singleton_self _))

/-! ## Inserting them -/

/-- The vertices `docs` and documents for `edges` are new in the topology. -/
structure Added (name : String) (docs : List (Document ω)) (edges : List (Edge ω))
    (db db' : Database ω) : Prop where
  topology : db'.documents .topology = db.documents .topology ++ docs
  edges : ∀ c : EdgeCollection, c.inPlants →
    ∃ new, db'.edges c = db.edges c ++ new ∧ new.map EdgeDocument.content = contents name edges c

theorem SameTopology.added (h : SameTopology db db') : Added name [] [] db db' where
  topology := by rw [h.1, List.append_nil]
  edges c hc := ⟨[], by rw [h.2 c hc, List.append_nil], rfl⟩

theorem Added.trans {docs docs' : List (Document ω)} {edges edges' : List (Edge ω)}
    (h : Added name docs edges db db₁) (h' : Added name docs' edges' db₁ db') :
    Added name (docs ++ docs') (edges ++ edges') db db' where
  topology := by rw [h'.topology, h.topology, List.append_assoc]
  edges c hc := by
    obtain ⟨new, heq, hnew⟩ := h.edges c hc
    obtain ⟨new', heq', hnew'⟩ := h'.edges c hc
    refine ⟨new ++ new', by rw [heq', heq, List.append_assoc], ?_⟩
    rw [List.map_append, hnew, hnew', contents, contents, contents, List.filter_append,
      List.map_append]

theorem insertVertex_ok {node : String} {default : Bool}
    (h : exec (server.insertVertex name node default) db = (.ok (), db')) :
    (∀ doc ∈ db.documents .topology, doc.key ≠ vertexKey name node) ∧
      Added name [vertexDocument name default node] [] db db' := by
  obtain ⟨k, db₁, hinsert, hpure⟩ := exec_bind_eq_ok.mp h
  cases hpure
  obtain ⟨rfl, hunused, hdocuments, hedges⟩ := insert_ok hinsert
  refine ⟨hunused, ?_, fun c _ => ⟨[], by rw [hedges, List.append_nil], rfl⟩⟩
  rw [hdocuments, Function.update_self]
  rfl

theorem insertEdge_added (server : Server ω) {edge : Edge ω}
    (h : exec (server.insertEdge edge.collection (vertexId name edge.nodeFrom)
      (vertexId (edge.owner name) edge.nodeTo) [("weight", Value.number edge.weight)]) db =
      (.ok (), db')) :
    Added name [] [edge] db db' := by
  obtain ⟨hdocuments, key, hedges⟩ := insertEdge_ok h
  refine ⟨by rw [hdocuments, List.append_nil], fun c _ => ?_⟩
  by_cases hc : edge.collection = c
  · subst hc
    refine ⟨_, by rw [hedges, Function.update_self], ?_⟩
    simp [contents, EdgeDocument.content, Edge.content]
  · refine ⟨[], by rw [hedges, Function.update_of_ne (Ne.symm hc), List.append_nil], ?_⟩
    simp [contents, hc]

theorem connect_ok {edge : Edge ω} (h : exec (server.connect name edge) db = (.ok (), db')) :
    Added name [] [edge] db db' := by
  unfold Server.connect at h
  split at h
  · next hagent =>
    obtain ⟨_, db₁, hinsert, hmark⟩ := exec_bind_eq_ok.mp h
    have hadded : Added name [] [edge] db db₁ := by
      refine insertEdge_added server ?_
      rw [Edge.owner, if_neg hagent]
      exact hinsert
    have hkeeps : SameTopology db₁ db' := by
      split at hmark
      · have := keeps_markAgent server edge.agent db₁
        rwa [hmark] at this
      · cases hmark
        exact frame_sameTopology.refl _
    exact hadded.trans hkeeps.added
  · next hagent =>
    refine insertEdge_added server ?_
    rw [Edge.owner, if_pos (not_not.mp hagent)]
    exact h

theorem addEdges_ok {nodes : List String} {edges : List (Edge ω)}
    (h : exec (server.addEdges name nodes edges) db = (.ok (), db')) :
    Added name ((fresh nodes edges).map (vertexDocument name false)) edges db db' := by
  induction edges generalizing nodes db with
  | nil =>
    cases h
    exact (frame_sameTopology.refl _).added
  | cons edge rest ih =>
    have hrest {nodes : List String} {db : Database ω}
        (h : exec (server.connect name edge >>= fun _ => server.addEdges name nodes rest) db =
          (.ok (), db')) :
        Added name ((fresh nodes rest).map (vertexDocument name false)) (edge :: rest) db db' := by
      obtain ⟨_, db₁, hconnect, hrest⟩ := exec_bind_eq_ok.mp h
      exact (connect_ok hconnect).trans (ih hrest)
    -- `edge.agent is None` is never so, and `node_to` is not inserted.
    simp only [Server.addEdges, isNone, Bool.false_eq_true, and_false, if_false, pure_bind] at h
    rw [fresh]
    split at h
    · next hnew =>
      obtain ⟨nodes₁, db₁, hvertex, h⟩ := exec_bind_eq_ok.mp h
      obtain ⟨_, db₂, hinsert, hpure⟩ := exec_bind_eq_ok.mp hvertex
      cases hpure
      rw [if_neg hnew]
      exact (insertVertex_ok hinsert).2.trans (hrest h)
    · next hmem =>
      rw [if_pos (not_not.mp hmem)]
      exact hrest h

/-- What `create_agent` inserts, where nothing has the key of the default
node. -/
theorem inserts_ok {node : Node ω} (h : exec (server.inserts name node) db = (.ok (), db')) :
    (∀ doc ∈ db.documents .topology, doc.key ≠ vertexKey name node.default) ∧
      Added name (vertices name node) node.edges db db' := by
  obtain ⟨_, db₁, hagent, h⟩ := exec_bind_eq_ok.mp h
  obtain ⟨_, db₂, hdefault, hedges⟩ := exec_bind_eq_ok.mp h
  have hsame : SameTopology db db₁ := by
    have := keeps_insert server (some name) (agentAttributes node) db
    rwa [hagent] at this
  obtain ⟨hunused, hadded⟩ := insertVertex_ok hdefault
  rw [hsame.1] at hunused
  exact ⟨hunused, hsame.added.trans (hadded.trans (addEdges_ok hedges))⟩

/-- The same for all of it; `update_agents` leaves the topology as it is. -/
theorem createAgent_ok [DecidableEq ω] {node : Node ω}
    (h : exec (server.createAgent name node) db = (.ok (), db')) :
    (∀ doc ∈ db.documents .topology, doc.key ≠ vertexKey name node.default) ∧
      Added name (vertices name node) node.edges db db' := by
  obtain ⟨_, db₁, hinserts, hupdate⟩ := exec_bind_eq_ok.mp h
  obtain ⟨hunused, hadded⟩ := inserts_ok hinserts
  have hsame : SameTopology db₁ db' := by
    have := keeps_updateAgents server db₁
    rwa [hupdate] at this
  have htrans := hadded.trans hsame.added
  rw [List.append_nil, List.append_nil] at htrans
  exact ⟨hunused, htrans⟩

/-! ## The vertices of an agent -/

theorem attribute_vertexDocument (name : String) (default : Bool) (x : String) :
    (vertexDocument (ω := ω) name default x).attribute "agent" = .str (agentId name) ∧
      (vertexDocument (ω := ω) name default x).attribute "id" = .null := by
  constructor <;>
    simp [vertexDocument, Document.attribute, vertexAttributes, Dict.update, Dict.get?_set]

theorem exists_vertexDocument {node : Node ω} {doc : Document ω} (h : doc ∈ vertices name node) :
    ∃ default x, doc = vertexDocument name default x := by
  rcases List.mem_cons.mp h with rfl | h
  · exact ⟨_, _, rfl⟩
  · obtain ⟨x, -, rfl⟩ := List.mem_map.mp h
    exact ⟨_, _, rfl⟩

theorem vertexKey_injective (name : String) : Function.Injective (vertexKey name) := by
  intro x y h
  have hlist := congrArg String.toList h
  simp only [vertexKey, String.toList_append, List.append_assoc,
    List.append_cancel_left_eq] at hlist
  exact String.toList_injective hlist

theorem map_key_vertices (name : String) (node : Node ω) :
    (vertices name node).map Document.key =
      (node.default :: fresh [node.default] node.edges).map (vertexKey name) := by
  rw [vertices, List.map_cons, List.map_map, List.map_cons]
  rfl

theorem nodup_keys_vertices (name : String) (node : Node ω) :
    ((vertices name node).map Document.key).Nodup := by
  rw [map_key_vertices]
  refine List.Nodup.map (vertexKey_injective name) (List.nodup_cons.mpr ⟨fun h => ?_, ?_⟩)
  · exact (mem_fresh.mp h).1 (List.mem_singleton_self _)
  · exact nodup_fresh _ _

/-- A node has a vertex if it is the default or an edge starts at it. -/
theorem mem_keys_vertices {node : Node ω} {k : String} :
    k ∈ (vertices name node).map Document.key ↔
      ∃ x, (x = node.default ∨ ∃ edge ∈ node.edges, edge.nodeFrom = x) ∧ vertexKey name x = k := by
  rw [map_key_vertices, List.mem_map]
  refine exists_congr fun x => and_congr_left' ?_
  rw [List.mem_cons, mem_fresh, List.mem_singleton]
  constructor
  · exact Or.imp_right And.right
  · rintro (hx | hx)
    · exact .inl hx
    · by_cases hdefault : x = node.default
      · exact .inl hdefault
      · exact .inr ⟨hdefault, hx⟩

variable [DecidableEq ω]

/-- The vertices of an agent in the database. -/
def Database.verticesOf (name : String) (db : Database ω) : List (Document ω) :=
  (db.documents .topology).filter (Server.ofAgent name)

theorem filter_vertices (name : String) (node : Node ω) :
    (vertices name node).filter (Server.ofAgent name) = vertices name node := by
  refine List.filter_eq_self.mpr fun doc hdoc => ?_
  obtain ⟨default, x, rfl⟩ := exists_vertexDocument hdoc
  exact decide_eq_true (attribute_vertexDocument name default x).1

theorem Added.verticesOf {node : Node ω} {edges : List (Edge ω)}
    (h : Added name (vertices name node) edges db db') :
    db'.verticesOf name = db.verticesOf name ++ vertices name node := by
  rw [Database.verticesOf, h.topology, List.filter_append, filter_vertices]
  rfl

end Iams.Arango
