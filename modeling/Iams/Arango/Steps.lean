/-
Iams.Arango.Steps — what the methods of a collection do, and what they
leave as it is.

`insert_ok` and `insertEdge_ok` say what an insert has changed that has
returned. `SameTopology` is the frame of everything that works on agents
and on their connections only; `update_agents` is of that kind.

No `sorry`, no `axiom`, no `native_decide`.
-/
import Iams.Arango.Topology

namespace Iams.Arango

open Iams.Lib Iams.Lib.Procedure

variable {ω : Type} {server : Server ω} {db db' : Database ω}

/-! ## Requests -/

theorem exec_request (server : Server ω) (db : Database ω) :
    exec server.request db =
      (match server.fault db.requests with
        | some e => .error e
        | none => .ok db.requests, { db with requests := db.requests + 1 }) := by
  simp only [Server.request, exec_bind, exec_get, exec_modify]
  cases server.fault db.requests <;> rfl

/-- A request, and what follows it. -/
theorem request_bind_ok {α : Type} {f : Nat → Proc ω α} {a : α}
    (h : exec (server.request >>= f) db = (.ok a, db')) :
    exec (f db.requests) { db with requests := db.requests + 1 } = (.ok a, db') := by
  obtain ⟨number, db₁, hrequest, hf⟩ := exec_bind_eq_ok.mp h
  rw [exec_request] at hrequest
  obtain ⟨hnumber, rfl⟩ := Prod.mk.inj hrequest
  split at hnumber
  · cases hnumber
  · cases hnumber
    exact hf

theorem insert_ok {c : Collection} {key : Option String} {attributes : List (String × Value ω)}
    {k : String} (h : exec (server.insert c key attributes) db = (.ok k, db')) :
    k = key.getD (server.newKey db.requests) ∧ (∀ doc ∈ db.documents c, doc.key ≠ k) ∧
      db'.documents = Function.update db.documents c
        (db.documents c ++ [{ key := k, attributes := Dict.empty.update attributes }]) ∧
      db'.edges = db.edges := by
  have h := request_bind_ok h
  simp only [exec_bind, exec_get] at h
  split at h
  · cases h
  · next hnew =>
    cases h
    refine ⟨rfl, fun doc hdoc heq => hnew ?_, rfl, rfl⟩
    exact List.any_eq_true.mpr ⟨doc, hdoc, decide_eq_true heq⟩

theorem insertEdge_ok {c : EdgeCollection} {source target : String}
    {attributes : List (String × Value ω)}
    (h : exec (server.insertEdge c source target attributes) db = (.ok (), db')) :
    db'.documents = db.documents ∧ ∃ key, db'.edges = Function.update db.edges c
      (db.edges c ++ [{ key, source, target, attributes := Dict.empty.update attributes }]) := by
  have h := request_bind_ok h
  simp only [exec_bind, exec_get] at h
  split at h
  · cases h
  · cases h
    exact ⟨rfl, _, rfl⟩

/-- A query that changes the database: it is done, or nothing is. -/
theorem exec_execute (server : Server ω) (result : Database ω → Option (Database ω))
    (db : Database ω) :
    exec (server.execute result) db =
      match server.fault db.requests, result { db with requests := db.requests + 1 } with
      | none, some db' => (.ok (), db')
      | none, none => (.error .aqlQueryExecute, { db with requests := db.requests + 1 })
      | some e, _ => (.error e, { db with requests := db.requests + 1 }) := by
  unfold Server.execute
  rw [exec_bind, exec_request]
  cases server.fault db.requests with
  | some e => rfl
  | none =>
    simp only [exec_bind, exec_get]
    cases result { db with requests := db.requests + 1 } <;> rfl

/-! ## Agents and connections -/

/-- The edge collections of the graph `plants`; the others connect agents. -/
def EdgeCollection.inPlants : EdgeCollection → Bool
  | symmetric | directed => true
  | logical | virtual => false

/-- The vertices and the edges between them are as before. -/
def SameTopology (db db' : Database ω) : Prop :=
  db'.documents .topology = db.documents .topology ∧
    ∀ c : EdgeCollection, c.inPlants → db'.edges c = db.edges c

theorem frame_sameTopology : Frame (@SameTopology ω) :=
  ⟨fun _ => ⟨rfl, fun _ _ => rfl⟩, fun h₁ h₂ =>
    ⟨h₂.1.trans h₁.1, fun c hc => (h₂.2 c hc).trans (h₁.2 c hc)⟩⟩

theorem sameTopology_requests (db : Database ω) :
    SameTopology db { db with requests := db.requests + 1 } :=
  ⟨rfl, fun _ _ => rfl⟩

theorem sameTopology_setDocuments (docs : List (Document ω)) :
    SameTopology db (db.setDocuments .agent docs) :=
  ⟨rfl, fun _ _ => rfl⟩

theorem sameTopology_setEdges {c : EdgeCollection} (hc : c.inPlants = false)
    (docs : List (EdgeDocument ω)) : SameTopology db (db.setEdges c docs) := by
  refine ⟨rfl, fun c' hc' => Function.update_of_ne ?_ _ _⟩
  rintro rfl
  exact Bool.false_ne_true (hc.symm.trans hc')

section Frames

variable (server)

theorem keeps_request : Keeps SameTopology server.request := by
  intro db
  rw [exec_request]
  exact sameTopology_requests db

/-- A request, and what follows it. -/
theorem keeps_request_bind {α : Type} {f : Nat → Proc ω α} (hf : ∀ n, Keeps SameTopology (f n)) :
    Keeps SameTopology (server.request >>= f) :=
  frame_sameTopology.keeps_bind (keeps_request server) hf

theorem keeps_find (c : Collection) (p : Document ω → Bool) :
    Keeps SameTopology (server.find c p) :=
  keeps_request_bind server fun _ => frame_sameTopology.refl

theorem keeps_find? (c : Collection) (key : String) : Keeps SameTopology (server.find? c key) :=
  keeps_request_bind server fun _ => frame_sameTopology.refl

theorem keeps_findEdges (c : EdgeCollection) (p : EdgeDocument ω → Bool) :
    Keeps SameTopology (server.findEdges c p) :=
  keeps_request_bind server fun _ => frame_sameTopology.refl

theorem keeps_query {α : Type} (result : Database ω → Option α) :
    Keeps SameTopology (server.query result) := by
  refine keeps_request_bind server fun _ db => ?_
  simp only [exec_bind, exec_get]
  split <;> exact frame_sameTopology.refl db

theorem keeps_execute {result : Database ω → Option (Database ω)}
    (hresult : ∀ db db', result db = some db' → SameTopology db db') :
    Keeps SameTopology (server.execute result) := by
  intro db
  rw [exec_execute]
  split
  · next h => exact frame_sameTopology.trans (sameTopology_requests db) (hresult _ _ h)
  · exact sameTopology_requests db
  · exact sameTopology_requests db

theorem keeps_insert (key : Option String) (attributes : List (String × Value ω)) :
    Keeps SameTopology (server.insert .agent key attributes) := by
  refine keeps_request_bind server fun _ => frame_sameTopology.keeps_unless ?_
  exact frame_sameTopology.keeps_bind (Frame.keeps_modify fun _ => sameTopology_setDocuments _)
    fun _ => frame_sameTopology.keeps_pure _

theorem keeps_insertEdge {c : EdgeCollection} (hc : c.inPlants = false) (source target : String)
    (attributes : List (String × Value ω)) :
    Keeps SameTopology (server.insertEdge c source target attributes) := by
  refine keeps_request_bind server fun _ => frame_sameTopology.keeps_unless ?_
  exact Frame.keeps_modify fun _ => sameTopology_setEdges hc _

theorem keeps_update (doc : Document ω) : Keeps SameTopology (server.update .agent doc) := by
  refine keeps_request_bind server fun _ => frame_sameTopology.keeps_unless ?_
  exact Frame.keeps_modify fun _ => sameTopology_setDocuments _

theorem keeps_updateEdge {c : EdgeCollection} (hc : c.inPlants = false) (doc : EdgeDocument ω) :
    Keeps SameTopology (server.updateEdge c doc) := by
  refine keeps_request_bind server fun _ => frame_sameTopology.keeps_unless ?_
  exact Frame.keeps_modify fun _ => sameTopology_setEdges hc _

theorem keeps_delete (key : String) : Keeps SameTopology (server.delete .agent key) := by
  refine keeps_request_bind server fun _ => frame_sameTopology.keeps_unless ?_
  exact Frame.keeps_modify fun _ => sameTopology_setDocuments _

theorem keeps_markAgent (name : String) : Keeps SameTopology (server.markAgent name) := by
  refine frame_sameTopology.keeps_bind (keeps_find? server _ _) fun found => ?_
  cases found with
  | none => exact frame_sameTopology.keeps_pure ()
  | some data => exact keeps_update server _

theorem keeps_insertOnce (source target : String) :
    Keeps SameTopology (server.insertOnce source target) := by
  refine frame_sameTopology.keeps_bind (keeps_findEdges server _ _) fun edges => ?_
  split
  · exact keeps_insertEdge server rfl _ _ _
  · exact frame_sameTopology.keeps_pure ()

theorem keeps_movePool (pool p : Document ω) : Keeps SameTopology (server.movePool pool p) := by
  have hmove (edges : List (EdgeDocument ω)) (f : EdgeDocument ω → EdgeDocument ω) :
      Keeps SameTopology (edges.forM fun edge => server.updateEdge .logical (f edge)) :=
    frame_sameTopology.keeps_forM fun edge => keeps_updateEdge server rfl _
  have hmerged : Keeps SameTopology (modify fun db => { db with merged := true } : Proc ω PUnit) :=
    Frame.keeps_modify fun _ => ⟨rfl, fun _ _ => rfl⟩
  refine frame_sameTopology.keeps_bind hmerged fun _ => ?_
  refine frame_sameTopology.keeps_bind (keeps_findEdges server _ _) fun edges => ?_
  refine frame_sameTopology.keeps_bind (hmove edges _) fun _ => ?_
  refine frame_sameTopology.keeps_bind (keeps_findEdges server _ _) fun edges => ?_
  exact frame_sameTopology.keeps_bind (hmove edges _) fun _ => keeps_delete server _

theorem keeps_findPool (data : Document ω) (pool : Value ω) :
    Keeps SameTopology (server.findPool data pool) := by
  refine frame_sameTopology.keeps_bind (keeps_query server _) fun found => ?_
  cases found with
  | nil =>
    refine frame_sameTopology.keeps_bind (keeps_insert server _ _) fun key => ?_
    refine frame_sameTopology.keeps_bind (keeps_insert server _ _) fun pool => ?_
    exact frame_sameTopology.keeps_bind (keeps_delete server _) fun _ =>
      frame_sameTopology.keeps_pure _
  | cons first others =>
    exact frame_sameTopology.keeps_bind (frame_sameTopology.keeps_forM fun p =>
      keeps_movePool server first p) fun _ => frame_sameTopology.keeps_pure _

theorem keeps_joinPool (data : Document ω) (pool : Value ω) :
    Keeps SameTopology (server.joinPool data pool) := by
  refine frame_sameTopology.keeps_bind (keeps_findPool server _ _) fun poolId => ?_
  refine frame_sameTopology.keeps_bind (keeps_insertOnce server _ _) fun _ => ?_
  refine frame_sameTopology.keeps_bind (keeps_insertOnce server _ _) fun _ => ?_
  refine frame_sameTopology.keeps_bind (keeps_query server _) fun nodes => ?_
  refine frame_sameTopology.keeps_bind (frame_sameTopology.keeps_forM fun node =>
    keeps_insertOnce server _ _) fun _ => ?_
  refine frame_sameTopology.keeps_bind (keeps_query server _) fun nodes => ?_
  exact frame_sameTopology.keeps_forM fun node => keeps_insertOnce server _ _

variable [DecidableEq ω]

theorem keeps_updateNeighbours (data : Document ω) :
    Keeps SameTopology (server.updateNeighbours data) := by
  refine frame_sameTopology.keeps_bind (keeps_query server _) fun found => ?_
  refine frame_sameTopology.keeps_bind (keeps_findEdges server _ _) fun logical => ?_
  refine frame_sameTopology.keeps_bind (keeps_findEdges server _ _) fun connected => ?_
  have hconnect (items : List (String × Document ω)) (pooled : String × Document ω → Bool) :
      Keeps SameTopology (items.forM fun item => server.insertEdge
        (if pooled item then .virtual else .logical) (Collection.agent.id data)
        (Collection.agent.id item.2) []) := by
    refine frame_sameTopology.keeps_forM fun item => keeps_insertEdge server ?_ _ _ _
    split <;> rfl
  split
  · refine frame_sameTopology.keeps_bind (hconnect _ _) fun _ => ?_
    split
    · exact frame_sameTopology.keeps_bind (keeps_update server _) fun _ => keeps_joinPool server _ _
    · exact keeps_joinPool server _ _
  · refine frame_sameTopology.keeps_bind (hconnect _ _) fun _ => ?_
    split
    · exact frame_sameTopology.keeps_bind (keeps_update server _) fun _ =>
        frame_sameTopology.keeps_pure ()
    · exact frame_sameTopology.keeps_pure ()

/-- `update_agents` does not touch the topology. -/
theorem keeps_updateAgents : Keeps SameTopology server.updateAgents :=
  frame_sameTopology.keeps_bind (keeps_find server _ _) fun _ =>
    frame_sameTopology.keeps_forM fun data => keeps_updateNeighbours server data

end Frames

end Iams.Arango
