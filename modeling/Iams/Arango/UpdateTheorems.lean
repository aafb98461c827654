/-
Iams.Arango.UpdateTheorems — when an update of an agent leaves no edges
behind.

`delete_agent` is to remove the edges that start at a vertex of the agent.
Its query compares `_from` with `doc.id`, but the id of a document is
`doc._id`. So an edge is removed if a vertex has an attribute `id` with the
same text, and `create_agent` makes no such vertex: every update adds the
edges of the agent once more (`updates_append`). `updates_iff` says when
nothing is left.

No `sorry`, no `axiom`, no `native_decide`.
-/
import Iams.Arango.Deletion

namespace Iams.Arango

open Iams.Lib Iams.Lib.Procedure

variable {ω : Type} {server : Server ω} {db db₁ db' : Database ω} {name : String} {node : Node ω}

/-! ## Edges that start at a vertex -/

/-- The edges that start at one of the documents. -/
def Database.outgoing (docs : List (Document ω)) (db : Database ω) (c : EdgeCollection) :
    List (EdgeDocument ω) :=
  (db.edges c).filter fun e => docs.any fun doc => Collection.topology.id doc = e.source

/-- An edge that `create_agent` inserts starts at a vertex that it inserts. -/
theorem contents_source {c : EdgeCollection} {content : Content ω}
    (h : content ∈ contents name node.edges c) :
    ∃ doc ∈ vertices name node, Collection.topology.id doc = content.1 := by
  obtain ⟨edge, hedge, rfl⟩ := List.mem_map.mp h
  have hmem : vertexKey name edge.nodeFrom ∈ (vertices name node).map Document.key :=
    mem_keys_vertices.mpr ⟨_, .inr ⟨edge, (List.mem_filter.mp hedge).1, rfl⟩, rfl⟩
  obtain ⟨doc, hdoc, hkey⟩ := List.mem_map.mp hmem
  refine ⟨doc, hdoc, ?_⟩
  rw [Collection.id, hkey]
  rfl

/-- The edges that are new all start at a vertex of the agent. -/
theorem Added.outgoing {docs : List (Document ω)} (h : Added name docs node.edges db db')
    (old : List (Document ω)) {c : EdgeCollection} (hc : c.inPlants) :
    (db'.outgoing (old ++ vertices name node) c).map EdgeDocument.content =
      (db.outgoing (old ++ vertices name node) c).map EdgeDocument.content ++
        contents name node.edges c := by
  obtain ⟨new, heq, hnew⟩ := h.edges c hc
  have hall : new.filter (fun e => (old ++ vertices name node).any fun doc =>
      Collection.topology.id doc = e.source) = new := by
    refine List.filter_eq_self.mpr fun e he => List.any_eq_true.mpr ?_
    obtain ⟨doc, hdoc, hid⟩ := contents_source (hnew ▸ List.mem_map_of_mem he)
    exact ⟨doc, List.mem_append_right _ hdoc, decide_eq_true hid⟩
  rw [Database.outgoing, heq, List.filter_append, hall, List.map_append, hnew]
  rfl

variable [DecidableEq ω]

/-- Each of the edges that start at `docs` starts at the attribute `id` of a
vertex of the agent. -/
def Database.Identifies (name : String) (docs : List (Document ω)) (db : Database ω) : Prop :=
  ∀ c : EdgeCollection, c.inPlants → ∀ e ∈ db.outgoing docs c,
    ∃ doc ∈ db.verticesOf name, doc.attribute "id" = .str e.source

theorem Removes.outgoing_eq_nil {docs : List (Document ω)} (h : Removes name db db')
    {c : EdgeCollection} (hc : c.inPlants) :
    db'.outgoing docs c = [] ↔
      ∀ e ∈ db.outgoing docs c, ∃ doc ∈ db.verticesOf name, doc.attribute "id" = .str e.source := by
  have hstarts (e : EdgeDocument ω) : (db.verticesOf name).any (Server.startsAt · e) = true ↔
      ∃ doc ∈ db.verticesOf name, doc.attribute "id" = .str e.source := by
    simp only [List.any_eq_true, Server.startsAt, decide_eq_true_eq]
  rw [Database.outgoing, h.edges c hc, List.filter_filter, List.filter_eq_nil_iff]
  constructor
  · intro hnone e he
    obtain ⟨hmem, hsource⟩ := List.mem_filter.mp he
    by_contra hnot
    refine hnone e hmem (Bool.and_eq_true_iff.mpr ⟨hsource, decide_eq_true ?_⟩)
    rwa [hstarts]
  · intro hall e hmem heq
    obtain ⟨hsource, hnot⟩ := Bool.and_eq_true_iff.mp heq
    exact of_decide_eq_true hnot ((hstarts e).mpr (hall e (List.mem_filter.mpr ⟨hmem, hsource⟩)))

/-- No vertex of the agent and none of the edges from its vertices is left. -/
structure Deleted (name : String) (db db' : Database ω) : Prop where
  vertices : db'.verticesOf name = []
  edges : ∀ c : EdgeCollection, c.inPlants → db'.outgoing (db.verticesOf name) c = []

theorem Removes.deleted_iff (h : Removes name db db') :
    Deleted name db db' ↔ db.Identifies name (db.verticesOf name) :=
  ⟨fun hdeleted c hc => (h.outgoing_eq_nil hc).mp (hdeleted.edges c hc),
    fun hids => ⟨h.verticesOf, fun c hc => (h.outgoing_eq_nil hc).mpr (hids c hc)⟩⟩

/-! ## Updates -/

/-- `update_agent` with the same node, a number of times. -/
def Server.updates (server : Server ω) (name : String) (node : Node ω) : Nat → Proc ω Unit
  | 0 => pure ()
  | k + 1 => do
    server.updateAgent name node
    updates server name node k

/-- The vertices of the agent, and the edges from those it has and had, are
the ones that `create_agent` inserts. -/
structure CreatedOnce (name : String) (node : Node ω) (db db' : Database ω) : Prop where
  topology : (db'.verticesOf name).Perm (vertices name node)
  edges : ∀ c : EdgeCollection, c.inPlants →
    ((db'.outgoing (db.verticesOf name ++ vertices name node) c).map EdgeDocument.content).Perm
      (contents name node.edges c)

theorem perm_append_self {α : Type} {l r : List α} : (l ++ r).Perm r ↔ l = [] := by
  constructor
  · intro h
    have hlength := h.length_eq
    rw [List.length_append] at hlength
    exact List.length_eq_zero_iff.mp (by omega)
  · rintro rfl
    exact .refl r

theorem perm_append_copies {α : Type} {l r : List α} (h : l.Perm r) {j : Nat} :
    (l ++ (List.replicate j r).flatten).Perm r ↔ j = 0 ∨ r = [] := by
  have hcomm : (l ++ (List.replicate j r).flatten).Perm ((List.replicate j r).flatten ++ r) :=
    (h.append_right _).trans List.perm_append_comm
  rw [hcomm.congr_left, perm_append_self, List.flatten_eq_nil_iff, List.forall_mem_replicate]

theorem createdOnce_iff (hremoves : Removes name db db₁)
    (hadded : Added name (vertices name node) node.edges db₁ db') :
    CreatedOnce name node db db' ↔
      db.Identifies name (db.verticesOf name ++ vertices name node) := by
  have hvertices : db'.verticesOf name = vertices name node := by
    rw [hadded.verticesOf, hremoves.verticesOf, List.nil_append]
  have hedges {c : EdgeCollection} (hc : c.inPlants) :
      ((db'.outgoing (db.verticesOf name ++ vertices name node) c).map EdgeDocument.content).Perm
        (contents name node.edges c) ↔
      db₁.outgoing (db.verticesOf name ++ vertices name node) c = [] := by
    rw [hadded.outgoing _ hc, perm_append_self, List.map_eq_nil_iff]
  constructor
  · exact fun h c hc => (hremoves.outgoing_eq_nil hc).mp ((hedges hc).mp (h.edges c hc))
  · exact fun h => ⟨.of_eq hvertices, fun c hc =>
      (hedges hc).mpr ((hremoves.outgoing_eq_nil hc).mpr (h c hc))⟩

theorem SameTopology.verticesOf (h : SameTopology db db') :
    db'.verticesOf name = db.verticesOf name := by
  rw [Database.verticesOf, h.1]
  rfl

/-- An agent without vertices has nothing to remove. -/
theorem SameTopology.removes (h : SameTopology db db') (hnone : db.verticesOf name = []) :
    Removes name db db' where
  topology := by
    rw [h.1, eq_comm, List.filter_eq_self]
    intro doc hdoc
    exact decide_eq_true (List.filter_eq_nil_iff.mp hnone doc hdoc)
  edges c hc := by
    rw [h.2 c hc, hnone, eq_comm, List.filter_eq_self]
    exact fun _ _ => rfl

/-- The first update. -/
theorem updateAgent_iff (h : exec (server.updateAgent name node) db = (.ok (), db')) :
    CreatedOnce name node db db' ↔
      db.Identifies name (db.verticesOf name ++ vertices name node) ∧
        (server.Accepts name db ∨ db.verticesOf name = []) := by
  obtain ⟨db₁, hdelete, -, hadded⟩ := updateAgent_ok h
  rcases hdelete with ⟨haccepts, hremoves⟩ | ⟨hrejects, hsame⟩
  · rw [createdOnce_iff hremoves hadded]
    exact (and_iff_left (.inl haccepts)).symm
  · by_cases hnone : db.verticesOf name = []
    · rw [createdOnce_iff (hsame.removes hnone) hadded]
      exact (and_iff_left (.inr hnone)).symm
    · refine iff_of_false (fun hcreated => hnone ?_) fun hids => hids.2.elim hrejects hnone
      have hperm := hcreated.topology
      rw [hadded.verticesOf, hsame.verticesOf] at hperm
      exact perm_append_self.mp hperm

/-- A vertex that `create_agent` inserts has no attribute `id`. -/
theorem vertices_startsAt {doc : Document ω} (hdoc : doc ∈ vertices name node)
    (e : EdgeDocument ω) : Server.startsAt doc e = false := by
  obtain ⟨default, x, rfl⟩ := exists_vertexDocument hdoc
  rw [Server.startsAt, (attribute_vertexDocument name default x).2]
  rfl

/-- An update of an agent that `create_agent` has inserted keeps all edges. -/
theorem updateAgent_again (hvertices : (db.verticesOf name).Perm (vertices name node))
    (h : exec (server.updateAgent name node) db = (.ok (), db')) :
    db'.verticesOf name = vertices name node ∧ ∃ db₁,
      (∀ c : EdgeCollection, c.inPlants → db₁.edges c = db.edges c) ∧
        Added name (vertices name node) node.edges db₁ db' := by
  obtain ⟨db₁, hdelete, hunused, hadded⟩ := updateAgent_ok h
  rcases hdelete with ⟨-, hremoves⟩ | ⟨-, hsame⟩
  · refine ⟨by rw [hadded.verticesOf, hremoves.verticesOf, List.nil_append], db₁, ?_, hadded⟩
    intro c hc
    rw [hremoves.edges c hc, List.filter_eq_self]
    intro e _
    refine decide_eq_true fun hany => ?_
    obtain ⟨doc, hdoc, hstarts⟩ := List.any_eq_true.mp hany
    rw [vertices_startsAt (hvertices.mem_iff.mp hdoc)] at hstarts
    cases hstarts
  · -- the vertices are still there, and the default node cannot be inserted
    have hdefault : vertexDocument name true node.default ∈ db.verticesOf name :=
      hvertices.mem_iff.mpr List.mem_cons_self
    rw [← hsame.verticesOf] at hdefault
    exact absurd rfl (hunused _ (List.mem_filter.mp hdefault).1)

/-- Each update inserts the edges once more. -/
theorem updates_append {k : Nat} (hvertices : (db.verticesOf name).Perm (vertices name node))
    (h : exec (server.updates name node k) db = (.ok (), db')) (old : List (Document ω)) :
    (db'.verticesOf name).Perm (vertices name node) ∧ ∀ c : EdgeCollection, c.inPlants →
      (db'.outgoing (old ++ vertices name node) c).map EdgeDocument.content =
        (db.outgoing (old ++ vertices name node) c).map EdgeDocument.content ++
          (List.replicate k (contents name node.edges c)).flatten := by
  induction k generalizing db with
  | zero =>
    cases h
    exact ⟨hvertices, fun c _ => (List.append_nil _).symm⟩
  | succ k ih =>
    obtain ⟨_, db₂, hupdate, hrest⟩ := exec_bind_eq_ok.mp h
    obtain ⟨hvertices₂, db₁, hsame, hadded⟩ := updateAgent_again hvertices hupdate
    obtain ⟨hvertices', hedges⟩ := ih (.of_eq hvertices₂) hrest
    refine ⟨hvertices', fun c hc => ?_⟩
    rw [hedges c hc, hadded.outgoing old hc, Database.outgoing, hsame c hc, List.append_assoc,
      List.replicate_succ, List.flatten_cons]
    rfl

omit [DecidableEq ω] in
theorem contents_eq_nil_iff (name : String) (node : Node ω) :
    (∀ c : EdgeCollection, c.inPlants → contents name node.edges c = []) ↔ node.edges = [] := by
  constructor
  · intro h
    by_contra hne
    obtain ⟨edge, hedge⟩ := List.exists_mem_of_ne_nil _ hne
    have hc : edge.collection.inPlants = true := by
      unfold Edge.collection
      split <;> rfl
    have hmem : edge.content name ∈ contents name node.edges edge.collection :=
      List.mem_map_of_mem (List.mem_filter.mpr ⟨hedge, decide_eq_true rfl⟩)
    rw [h _ hc] at hmem
    cases hmem
  · intro h c _
    rw [contents, h]
    rfl

/-- The first of several updates. -/
theorem updates_succ_ok {k : Nat}
    (h : exec (server.updates name node (k + 1)) db = (.ok (), db')) :
    ∃ db₁, exec (server.updateAgent name node) db = (.ok (), db₁) ∧
      exec (server.updates name node k) db₁ = (.ok (), db') := by
  obtain ⟨_, db₁, hfirst, hrest⟩ := exec_bind_eq_ok.mp h
  exact ⟨db₁, hfirst, hrest⟩

/-- More updates after one that has left what `create_agent` inserts. -/
theorem updates_again_iff {j : Nat} (hcreated : CreatedOnce name node db db₁)
    (h : exec (server.updates name node j) db₁ = (.ok (), db')) :
    CreatedOnce name node db db' ↔ j = 0 ∨ node.edges = [] := by
  obtain ⟨hvertices, hedges⟩ := updates_append hcreated.topology h (db.verticesOf name)
  have hcopies {c : EdgeCollection} (hc : c.inPlants) :=
    perm_append_copies (hcreated.edges c hc) (j := j)
  constructor
  · intro hagain
    refine or_iff_not_imp_left.mpr fun hj => (contents_eq_nil_iff name node).mp fun c hc => ?_
    have hperm := hagain.edges c hc
    rw [hedges c hc] at hperm
    exact ((hcopies hc).mp hperm).resolve_left hj
  · refine fun hnone => ⟨hvertices, fun c hc => ?_⟩
    rw [hedges c hc]
    refine (hcopies hc).mpr (hnone.imp_right fun hnone => ?_)
    exact (contents_eq_nil_iff name node).mpr hnone c hc

/-- Updates leave what one `create_agent` inserts, each time. -/
theorem updates_createdOnce_iff {k : Nat}
    (h : exec (server.updates name node (k + 1)) db = (.ok (), db')) :
    (∀ j ≤ k, ∀ db', exec (server.updates name node (j + 1)) db = (.ok (), db') →
        CreatedOnce name node db db') ↔
      db.Identifies name (db.verticesOf name ++ vertices name node) ∧
        (server.Accepts name db ∨ db.verticesOf name = []) ∧ (k = 0 ∨ node.edges = []) := by
  obtain ⟨db₁, hfirst, hrest⟩ := updates_succ_ok h
  constructor
  · intro hall
    have hcreated : CreatedOnce name node db db₁ :=
      hall 0 (Nat.zero_le k) db₁ (exec_bind_of_ok hfirst)
    obtain ⟨hids, haccepts⟩ := (updateAgent_iff hfirst).mp hcreated
    exact ⟨hids, haccepts, (updates_again_iff hcreated hrest).mp (hall k (Nat.le_refl k) db' h)⟩
  · rintro ⟨hids, haccepts, hk⟩ j hj db₂ h₂
    have hcreated := (updateAgent_iff hfirst).mpr ⟨hids, haccepts⟩
    obtain ⟨db₁', hfirst', hrest'⟩ := updates_succ_ok h₂
    rw [hfirst] at hfirst'
    cases hfirst'
    refine (updates_again_iff hcreated hrest').mpr (hk.imp_left fun hk => ?_)
    omega

/-- When `delete_agent` leaves nothing behind, and when an agent that is
updated again and again has nothing twice. -/
theorem updates_iff (server : Server ω) (name : String) (node : Node ω) (db : Database ω) :
    (∀ update b db', exec (server.deleteAgent name update) db = (.ok b, db') →
      (Deleted name db db' ↔ db.Identifies name (db.verticesOf name))) ∧
    ∀ k db', exec (server.updates name node (k + 1)) db = (.ok (), db') →
      ((∀ j ≤ k, ∀ db', exec (server.updates name node (j + 1)) db = (.ok (), db') →
          CreatedOnce name node db db') ↔
        db.Identifies name (db.verticesOf name ++ vertices name node) ∧
          (server.Accepts name db ∨ db.verticesOf name = []) ∧ (k = 0 ∨ node.edges = [])) :=
  ⟨fun _ _ _ h => (deleteAgent_ok h).deleted_iff, fun _ _ h => updates_createdOnce_iff h⟩

/-- An agent without edges. -/
def lone : Node Nat where
  default := "d"
  pools := []
  edges := []
  abilities := []

/-- An agent whose vertex has an attribute `id`, with an edge from there. -/
def identified : Database Nat where
  documents
    | .agent => [{ key := "a", attributes := .empty }]
    | .topology =>
      [{ key := "a:d",
         attributes := Dict.empty.update [("agent", .str "agent/a"), ("id", .str "topology/a:d")] }]
  edges
    | .directed =>
      [{ key := "e", source := "topology/a:d", target := "topology/b:d", attributes := .empty }]
    | _ => []

theorem updates_iff_lone :
    (∃ db', exec (Server.quiet.deleteAgent "a" true) identified = (.ok true, db') ∧
      Deleted "a" identified db') ∧
    ∀ j ≤ 2, ∀ db', exec (Server.quiet.updates "a" lone (j + 1)) identified = (.ok (), db') →
      CreatedOnce "a" lone identified db' := by
  have hids (docs : List (Document Nat)) : identified.Identifies "a" docs := by
    intro c hc e he
    have hmem := (List.mem_filter.mp he).1
    cases c with
    | directed =>
      rw [List.mem_singleton.mp hmem]
      exact ⟨_, List.mem_singleton_self _, rfl⟩
    | symmetric | logical | virtual => cases hmem
  have hok : exec (Server.quiet.deleteAgent "a" true) identified =
      (.ok true, (exec (Server.quiet.deleteAgent "a" true) identified).2) := Prod.ext rfl rfl
  have hok₃ : exec (Server.quiet.updates "a" lone 3) identified =
      (.ok (), (exec (Server.quiet.updates "a" lone 3) identified).2) :=
    exec_of_toBool (by decide +kernel)
  obtain ⟨hdelete, hupdates⟩ := updates_iff Server.quiet "a" lone identified
  refine ⟨⟨_, hok, (hdelete _ _ _ hok).mpr (hids _)⟩, ?_⟩
  exact (hupdates 2 _ hok₃).mpr ⟨hids _, .inl ⟨rfl, rfl⟩, .inr rfl⟩

/-- A default node with an edge to itself. -/
def loop : Node Nat where
  default := "d"
  pools := []
  edges := [{ nodeFrom := "d", nodeTo := "d", agent := "", weight := 1, symmetric := false }]
  abilities := []

/-- The edge stays when the agent is deleted, and is there twice after two
updates. -/
theorem edges_accumulate :
    ∃ db₁ db₂ db₃, exec (Server.quiet.updates "a" loop 1) .empty = (.ok (), db₁) ∧
      exec (Server.quiet.deleteAgent "a" false) db₁ = (.ok true, db₂) ∧
      exec (Server.quiet.updates "a" loop 2) .empty = (.ok (), db₃) ∧
      (db₂.edges .directed).map EdgeDocument.source = ["topology/a:d"] ∧
      (db₃.edges .directed).map EdgeDocument.source = ["topology/a:d", "topology/a:d"] ∧
      ¬ Deleted "a" db₁ db₂ ∧ ¬ CreatedOnce "a" loop .empty db₃ := by
  refine ⟨_, _, _, exec_of_toBool (by decide +kernel), Prod.ext rfl rfl,
    exec_of_toBool (by decide +kernel), rfl, by decide +kernel, ?_, ?_⟩
  · intro h
    have hnone := congrArg List.length (h.edges .directed rfl)
    revert hnone
    decide
  · intro h
    have hlength := (h.edges .directed rfl).length_eq
    revert hlength
    decide +kernel

end Iams.Arango
