/-
Iams.Arango.NeighbourTheorems — after `create_agent` the agents are connected
with their neighbours.

`Marked` is what `create_agent` has done to the agents before
`update_agents`: the new one and all that it has a symmetric edge to are to
be updated. All others have neighbours as before (`Plant.neighbour_concat`),
so that the loop of `update_agents` starts from its invariant
(`Linking.created`) and ends with all agents settled. The induction is on the
calls; `creates_linked` is what it leaves.

No `sorry`, no `axiom`, no `native_decide`.
-/
import Iams.Arango.PlantTheorems

namespace Iams.Arango

open Iams.Lib Iams.Lib.Procedure

variable {ω : Type} {server : Server ω} {plant : Plant ω} {old base db db' : Database ω}
  {name : String} {node : Node ω}

/-! ## Agents that are marked -/

/-- The agents after the edges `done` of a new agent. -/
structure Marked (name : String) (old : Database ω) (done : List (Edge ω)) (db : Database ω) :
    Prop where
  keys : (db.documents .agent).map Document.key = (old.documents .agent).map Document.key ++ [name]
  pools : ∀ doc ∈ db.documents .agent, doc.attributes.get? "pool" = none
  logical : db.edges .logical = old.edges .logical
  virtual : db.edges .virtual = old.edges .virtual
  marked : ∀ doc ∈ db.documents .agent, doc.attribute "update" = .bool true ∨
    doc ∈ old.documents .agent ∧ ∀ edge ∈ done, edge.symmetric = true → edge.agent ≠ "" →
      edge.agent ≠ doc.key

theorem blind_marked (name : String) (old : Database ω) (done : List (Edge ω)) :
    Blind (Marked name old done) :=
  fun _ _ h => ⟨h.keys, h.pools, h.logical, h.virtual, h.marked⟩

section Marked

variable {done : List (Edge ω)}

/-- The topology does not count. -/
theorem Marked.of_same (h : Marked name old done db)
    (hagents : db'.documents .agent = db.documents .agent)
    (hlogical : db'.edges .logical = db.edges .logical)
    (hvirtual : db'.edges .virtual = db.edges .virtual) : Marked name old done db' where
  keys := by rw [hagents, h.keys]
  pools := by
    rw [hagents]
    exact h.pools
  logical := hlogical.trans h.logical
  virtual := hvirtual.trans h.virtual
  marked := by
    rw [hagents]
    exact h.marked

/-- An edge that marks no agent, or one that is not there. -/
theorem Marked.skip (h : Marked name old done db) {edge : Edge ω}
    (hskip : edge.symmetric = true → edge.agent ≠ "" →
      ∀ doc ∈ db.documents .agent, edge.agent ≠ doc.key) :
    Marked name old (done ++ [edge]) db where
  __ := h
  marked doc hdoc := by
    refine (h.marked doc hdoc).imp_right fun ⟨hold, hdone⟩ => ⟨hold, fun other hother => ?_⟩
    rcases List.mem_append.mp hother with hother | hother
    · exact hdone other hother
    · rw [List.mem_singleton.mp hother]
      exact fun hsymmetric hagent => hskip hsymmetric hagent doc hdoc

/-- The agent of an edge is marked. -/
theorem Marked.mark (h : Marked name old done db) {edge : Edge ω} {data : Document ω}
    (hdata : data ∈ db.documents .agent) (hkey : data.key = edge.agent) :
    Marked name old (done ++ [edge])
      (db.setDocuments .agent ((db.documents .agent).map (data.setUpdate true).merge)) where
  keys := (map_key_merge _ _).trans h.keys
  pools doc hdoc := by
    obtain ⟨before, hbefore, rfl⟩ := List.mem_map.mp hdoc
    exact pool_merge_setUpdate (h.pools data hdata) (h.pools before hbefore) true
  logical := h.logical
  virtual := h.virtual
  marked doc hdoc := by
    obtain ⟨before, hbefore, rfl⟩ := List.mem_map.mp hdoc
    by_cases hsame : before.key = data.key
    · exact .inl (attribute_merge_setUpdate hsame true)
    · rw [show (data.setUpdate true).merge before = before from if_neg hsame]
      refine (h.marked before hbefore).imp_right fun ⟨hold, hdone⟩ =>
        ⟨hold, fun other hother => ?_⟩
      rcases List.mem_append.mp hother with hother | hother
      · exact hdone other hother
      · rw [List.mem_singleton.mp hother, ← hkey]
        exact fun _ _ => Ne.symm hsame

variable (server)

theorem triple_connect_marked (edge : Edge ω) :
    Triple (Marked name old done) (server.connect name edge)
      (fun _ => Marked name old (done ++ [edge])) fun _ => True := by
  have hblind := blind_marked name old done
  have hcollection : edge.collection.inPlants = true := by
    unfold Edge.collection
    split <;> rfl
  have hedge (source target : String) (weight : List (String × Value ω)) :
      Triple (Marked name old done) (server.insertEdge edge.collection source target weight)
        (fun _ => Marked name old done) fun _ => True := by
    refine (triple_insertEdge server hblind fun db key h => ?_).conseq (fun _ h => h)
      (fun _ _ h => h) fun _ _ => trivial
    refine h.of_same rfl ?_ ?_ <;>
      · refine Database.edges_setEdges_of_ne _ (fun heq => ?_) _
        rw [← heq] at hcollection
        cases hcollection
  unfold Server.connect
  split
  · refine .bind (hedge _ _ _) fun _ => ?_
    split
    · refine .bind ((triple_find? server hblind .agent edge.agent).conseq (fun _ h => h)
        (fun _ _ h => h) fun _ _ => trivial) fun found => ?_
      cases found with
      | none =>
        refine .pure fun db ⟨hnone, h⟩ => h.skip fun _ _ doc hdoc heq => ?_
        exact absurd heq.symm (by simpa using List.find?_eq_none.mp hnone.symm doc hdoc)
      | some data =>
        refine (triple_update server (I := fun db =>
          some data = (db.documents .agent).find? (fun doc => doc.key = edge.agent) ∧
            Marked name old done db) (fun db n h => ⟨h.1, hblind db n h.2⟩)
          fun db ⟨hfound, h⟩ => ?_).conseq (fun _ h => h) (fun _ _ h => h) fun _ _ => trivial
        exact h.mark (List.mem_of_find?_eq_some hfound.symm)
          (by simpa using List.find?_some hfound.symm)
    · next hdirected =>
      refine .pure fun db h => h.skip fun hsymmetric => absurd ?_ hdirected
      exact edge.collection_eq_symmetric.mpr hsymmetric
  · next hagent =>
    exact (hedge _ _ _).post fun _ db h => h.skip fun _ hne => absurd hne hagent

theorem triple_insertVertex_marked (node : String) (default : Bool) :
    Triple (Marked name old done) (server.insertVertex name node default)
      (fun _ => Marked name old done) fun _ => True :=
  .bind ((triple_insert server (blind_marked name old done) (Q := fun _ => Marked name old done)
    fun _ _ h _ _ => h.of_same rfl rfl rfl).conseq (fun _ h => h) (fun _ _ h => h)
      fun _ _ => trivial) fun _ => .pure fun _ h => h

theorem triple_addEdges_marked (nodes : List String) (edges : List (Edge ω)) :
    Triple (Marked name old done) (server.addEdges name nodes edges)
      (fun _ => Marked name old (done ++ edges)) fun _ => True := by
  induction edges generalizing nodes done with
  | nil =>
    refine .pure fun db h => ?_
    rwa [List.append_nil]
  | cons edge rest ih =>
    have hrest (nodes : List String) : Triple (Marked name old done)
        (server.connect name edge >>= fun _ => server.addEdges name nodes rest)
        (fun _ => Marked name old (done ++ edge :: rest)) fun _ => True := by
      refine .bind (triple_connect_marked server edge) fun _ => ?_
      rw [List.append_cons done edge rest]
      exact ih nodes
    simp only [Server.addEdges, isNone, Bool.false_eq_true, and_false, if_false, pure_bind]
    split
    · exact .bind (.bind (triple_insertVertex_marked server _ false) fun _ => .pure fun _ h => h)
        fun _ => hrest _
    · exact hrest _

/-- The database of `old`, up to the number of requests. -/
def Unchanged (old db : Database ω) : Prop :=
  db.documents .agent = old.documents .agent ∧ db.edges .logical = old.edges .logical ∧
    db.edges .virtual = old.edges .virtual

theorem triple_inserts_marked (hpools : node.pools = [])
    (hold : ∀ doc ∈ old.documents .agent, doc.attributes.get? "pool" = none) :
    Triple (Unchanged old) (server.inserts name node)
      (fun _ db => Marked name old node.edges db ∧
        ∀ doc ∈ old.documents .agent, doc.key ≠ name) fun _ => True := by
  have hattributes : agentAttributes node =
      [("update", .bool true), ("abilities", .list node.abilities)] := by
    rw [agentAttributes, hpools]
    rfl
  refine .bind (Q := fun _ db => (∀ doc ∈ old.documents .agent, doc.key ≠ name) ∧
    Marked name old [] db) ?_ fun _ => .assume fun hnew => ?_
  · refine (triple_insert server (I := Unchanged old) (fun _ _ h => h)
      fun db k h hk hunused => ?_).conseq (fun _ h => h) (fun _ _ h => h) fun _ _ => trivial
    obtain rfl := hk name rfl
    obtain ⟨hagents, hlogical, hvirtual⟩ := h
    rw [hagents] at hunused ⊢
    refine ⟨hunused, ?_, fun doc hdoc => ?_, hlogical, hvirtual, fun doc hdoc => ?_⟩
    · exact List.map_append
    · rcases List.mem_append.mp hdoc with hdoc | hdoc
      · exact hold doc hdoc
      · rw [List.mem_singleton.mp hdoc, hattributes]
        rfl
    · rcases List.mem_append.mp hdoc with hdoc | hdoc
      · exact .inr ⟨hdoc, nofun⟩
      · rw [List.mem_singleton.mp hdoc, hattributes]
        exact .inl rfl
  · refine .bind (triple_insertVertex_marked server _ true) fun _ => ?_
    exact (triple_addEdges_marked server _ _).post fun _ db h => ⟨h, hnew⟩

end Marked

/-! ## One call -/

variable [DecidableEq ω]

omit [DecidableEq ω] in
theorem Represents.added (h : Represents plant db) (hadded : Added name (vertices name node)
    node.edges db db') (hkeys : (db'.documents .agent).map Document.key =
      (db.documents .agent).map Document.key ++ [name]) :
    Represents (plant ++ [(name, node)]) db' where
  topology := by
    rw [hadded.topology, h.topology, List.flatMap_append, List.flatMap_singleton]
  edges c hc := by
    obtain ⟨new, hedges, hnew⟩ := hadded.edges c hc
    rw [hedges, List.map_append, h.edges c hc, hnew, List.flatMap_append, List.flatMap_singleton]
  agents := by rw [hkeys, h.agents, List.map_append, List.map_singleton]

omit [DecidableEq ω] in
theorem Represents.same (h : Represents plant db) (hsame : SameTopology db db')
    (hkeys : (db'.documents .agent).map Document.key = (db.documents .agent).map Document.key) :
    Represents plant db' where
  topology := by rw [hsame.1, h.topology]
  edges c hc := by rw [hsame.2 c hc, h.edges c hc]
  agents := by rw [hkeys, h.agents]

/-- A neighbour of something is a neighbour of an agent. -/
theorem Represents.neighbour (h : Represents plant db) (hplant : plant.Valid) {pk pk' : String}
    (hneighbour : db.Neighbour pk pk') :
    ∃ a b, pk = agentId a ∧ pk' = agentId b ∧ plant.Neighbour a b := by
  obtain ⟨v, ⟨doc, hdoc, hsees⟩, howner, hmem⟩ := hneighbour
  obtain ⟨call, hcall, hdoc'⟩ := h.mem_topology.mp (List.mem_of_find?_eq_some hdoc)
  obtain ⟨default, x, rfl⟩ := exists_vertexDocument hdoc'
  have hpk : Value.str (agentId call.1) = (Value.str pk : Value ω) := by
    rw [← (attribute_vertexDocument call.1 default x).1]
    simpa using List.find?_some hdoc
  obtain rfl := Value.str.inj hpk
  obtain ⟨b, hb, rfl⟩ :=
    (h.neighbour_iff hplant).mp ⟨v, ⟨_, hdoc, hsees⟩, howner, hmem⟩
  exact ⟨call.1, b, rfl, rfl, hb⟩

/-- The loop of `update_agents` starts from its invariant. -/
theorem Linking.created (hlinking : Linking old [] old) (hold : Represents plant old)
    (hnew : Represents (plant ++ [(name, node)]) db) (hplant : plant.Valid)
    (hvalid : Plant.Valid (plant ++ [(name, node)])) (hmarked : Marked name old node.edges db) :
    Linking db ((db.documents .agent).filter fun doc => doc.attribute "update" = .bool true)
      db := by
  have hname {a : String} (ha : a ∈ plant.map Prod.fst) : a ≠ name := by
    have hnodup := hvalid.nodup
    rw [List.map_append, List.nodup_append] at hnodup
    exact hnodup.2.2 a ha name (List.mem_singleton_self _)
  have hconnected (pk pk' : String) : db.Connected pk pk' ↔ old.Connected pk pk' := by
    rw [Database.Connected, hmarked.logical]
    rfl
  refine ⟨frame_sameTopology.refl db, rfl, ?_, hmarked.pools,
    hmarked.virtual.trans hlinking.virtual, fun pk pk' hpk => ?_,
    fun doc hdoc => (List.mem_filter.mp hdoc).1, fun doc hdoc hrest => ?_⟩
  · rw [hnew.agents]
    exact hvalid.nodup
  · obtain ⟨a, b, rfl, rfl, hab⟩ :=
      hold.neighbour hplant (hlinking.sound pk pk' ((hconnected pk pk').mp hpk))
    have ha : a ∈ plant.map Prod.fst := by
      obtain ⟨v, ⟨call, hcall, rfl, -⟩, -⟩ := hab
      exact List.mem_map_of_mem hcall
    exact (hnew.neighbour_iff hvalid).mpr ⟨b, hab.concat (hname ha), rfl⟩
  · have hupdate : doc.attribute "update" ≠ .bool true := fun hupdate =>
      hrest (List.mem_filter.mpr ⟨hdoc, decide_eq_true hupdate⟩)
    obtain ⟨hdoc, hapart⟩ := (hmarked.marked doc hdoc).resolve_left hupdate
    have hsettled := hlinking.settled doc hdoc List.not_mem_nil
    have ha : doc.key ∈ plant.map Prod.fst := by
      rw [← hold.agents]
      exact List.mem_map_of_mem hdoc
    have hmissing : ¬ plant.Missing doc.key := fun hmissing =>
      hupdate (hsettled.missing.mpr ((hold.missing_iff hplant).mpr hmissing))
    have hmissing' : ¬ db.Missing (Collection.agent.id doc) := fun hmissing' =>
      Plant.missing_concat (hname ha) hapart hmissing ((hnew.missing_iff hvalid).mp hmissing')
    refine ⟨fun pk hpk => (hconnected _ _).mpr (hsettled.connected pk ?_),
      iff_of_false hupdate hmissing', iff_of_true (hsettled.complete.mpr ?_) hmissing'⟩
    · obtain ⟨b, hb, rfl⟩ := (hnew.neighbour_iff hvalid).mp hpk
      exact (hold.neighbour_iff hplant).mpr
        ⟨b, (Plant.neighbour_concat (hname ha) hapart hmissing).mp hb, rfl⟩
    · exact fun h => hmissing ((hold.missing_iff hplant).mp h)

/-- What holds between two calls. -/
structure Linked (plant : Plant ω) (db : Database ω) : Prop where
  valid : plant.Valid
  represents : Represents plant db
  linking : Linking db [] db

theorem Linked.createAgent (h : Linked plant old) (hserver : server.FindsNeighbours)
    (hpools : node.pools = []) (hname : ':' ∉ name.toList)
    (hagents : ∀ edge ∈ node.edges, ':' ∉ edge.agent.toList)
    (hexec : exec (server.createAgent name node) old = (.ok (), db)) :
    Linked (plant ++ [(name, node)]) db := by
  obtain ⟨_, db₁, hinserts, hupdate⟩ := exec_bind_eq_ok.mp hexec
  obtain ⟨-, hadded⟩ := inserts_ok hinserts
  obtain ⟨hmarked, hnew⟩ := (triple_inserts_marked server hpools h.linking.pools).of_ok
    ⟨rfl, rfl, rfl⟩ hinserts
  have hvalid : Plant.Valid (plant ++ [(name, node)]) := by
    refine ⟨?_, fun call hcall => ?_, fun call hcall => ?_⟩
    · rw [List.map_append, List.nodup_append_comm]
      refine List.nodup_cons.mpr ⟨fun hmem => ?_, h.valid.nodup⟩
      rw [← h.represents.agents] at hmem
      obtain ⟨doc, hdoc, hkey⟩ := List.mem_map.mp hmem
      exact hnew doc hdoc hkey
    all_goals rcases List.mem_append.mp hcall with hcall | hcall
    · exact h.valid.names call hcall
    · exact List.mem_singleton.mp hcall ▸ hname
    · exact h.valid.agents call hcall
    · exact List.mem_singleton.mp hcall ▸ hagents
  have hrepresents := h.represents.added hadded hmarked.keys
  have hlinking := (triple_updateAgents_linking hserver).of_ok
    (h.linking.created h.represents hrepresents h.valid hvalid hmarked) hupdate
  exact ⟨hvalid, hrepresents.same hlinking.topology hlinking.keys, hlinking.rebase⟩

/-! ## Runs -/

theorem linked_empty : Linked [] (.empty : Database ω) where
  valid := ⟨List.nodup_nil, nofun, nofun⟩
  represents := ⟨rfl, fun _ _ => rfl, rfl⟩
  linking := ⟨frame_sameTopology.refl _, rfl, List.nodup_nil, nofun, rfl, nofun, nofun, nofun⟩

/-- Calls of `create_agent`, one after the other. -/
def Server.createAgents (server : Server ω) (calls : Plant ω) : Proc ω Unit :=
  calls.forM fun call => server.createAgent call.1 call.2

/-- What the calls rely on: no pools, and no colons in the names of agents. -/
def Plant.Plain (calls : Plant ω) : Prop :=
  ∀ call ∈ calls, call.2.pools = [] ∧ ':' ∉ call.1.toList ∧
    ∀ edge ∈ call.2.edges, ':' ∉ edge.agent.toList

instance (calls : Plant ω) : Decidable calls.Plain :=
  inferInstanceAs (Decidable (∀ call ∈ calls, _ ∧ _ ∧ ∀ edge ∈ call.2.edges, _))

theorem Linked.createAgents (h : Linked plant old) (hserver : server.FindsNeighbours)
    {calls : Plant ω} (hcalls : calls.Plain)
    (hexec : exec (server.createAgents calls) old = (.ok (), db)) :
    Linked (plant ++ calls) db := by
  induction calls generalizing plant old with
  | nil =>
    cases hexec
    rwa [List.append_nil]
  | cons call rest ih =>
    obtain ⟨_, db₁, hfirst, hrest⟩ := exec_bind_eq_ok.mp hexec
    obtain ⟨⟨hpools, hname, hagents⟩, hothers⟩ := List.forall_mem_cons.mp hcalls
    rw [List.append_cons plant call rest]
    exact ih (h.createAgent hserver hpools hname hagents hfirst) hothers hrest

/-- Connections, and agents to be updated, as the plant says. -/
structure Settles (plant : Plant ω) (db : Database ω) : Prop where
  connected : ∀ pk pk', db.Connected pk pk' ↔
    ∃ a b, pk = agentId a ∧ pk' = agentId b ∧ plant.Neighbour a b
  virtual : db.edges .virtual = []
  missing : ∀ doc ∈ db.documents .agent,
    (doc.attribute "update" = .bool true ↔ plant.Missing doc.key) ∧
    (doc.attribute "update" = .bool false ↔ ¬ plant.Missing doc.key)

theorem Linked.settles (h : Linked plant db) : Settles plant db where
  connected pk pk' := by
    constructor
    · exact fun hpk => h.represents.neighbour h.valid (h.linking.sound pk pk' hpk)
    · rintro ⟨a, b, rfl, rfl, hab⟩
      have ha : a ∈ (db.documents .agent).map Document.key := by
        obtain ⟨v, ⟨call, hcall, rfl, -⟩, -⟩ := hab
        rw [h.represents.agents]
        exact List.mem_map_of_mem hcall
      obtain ⟨doc, hdoc, rfl⟩ := List.mem_map.mp ha
      exact (h.linking.settled doc hdoc List.not_mem_nil).connected _
        ((h.represents.neighbour_iff h.valid).mpr ⟨b, hab, rfl⟩)
  virtual := h.linking.virtual
  missing doc hdoc := by
    have hsettled := h.linking.settled doc hdoc List.not_mem_nil
    rw [← h.represents.missing_iff h.valid]
    exact ⟨hsettled.missing, hsettled.complete⟩

/-- Agents without pools that have been created, in any number: the logical
connections are the neighbours in the plant, nothing is connected virtually,
and those are to be updated that miss an agent. -/
theorem creates_neighbours (hserver : server.FindsNeighbours) {calls : Plant ω}
    (hcalls : calls.Plain) (hexec : exec (server.createAgents calls) .empty = (.ok (), db)) :
    Settles calls db :=
  (linked_empty.createAgents hserver hcalls hexec).settles

/-- A default node, with a symmetric edge to the one of another agent. -/
def beside (agent : String) : Node Nat where
  default := "d"
  pools := []
  edges := [{ nodeFrom := "d", nodeTo := "d", agent, weight := 1, symmetric := true }]
  abilities := []

/-- The second agent is there when the first one is updated again. -/
theorem creates_neighbours_beside :
    ∃ db, exec (Server.searching.createAgents [("a", beside "b"), ("b", beside "c")]) .empty =
        (.ok (), db) ∧
      Settles [("a", beside "b"), ("b", beside "c")] db ∧
      (db.edges .logical).map EdgeDocument.ends =
        [("agent/a", "agent/b"), ("agent/b", "agent/a")] := by
  have hexec := exec_of_toBool (x := Server.searching.createAgents
    [("a", beside "b"), ("b", beside "c")]) (s := .empty) (by decide +kernel)
  exact ⟨_, hexec, creates_neighbours Server.findsNeighbours_searching (by decide) hexec,
    by decide +kernel⟩

/-- The order in which agents are created does not count. -/
theorem creates_perm (hserver : server.FindsNeighbours) {calls calls' : Plant ω}
    (hcalls : calls.Plain) (hperm : calls.Perm calls')
    (hexec : exec (server.createAgents calls) .empty = (.ok (), db))
    (hexec' : exec (server.createAgents calls') .empty = (.ok (), db')) :
    (∀ pk pk', db.Connected pk pk' ↔ db'.Connected pk pk') ∧
    ∀ doc ∈ db.documents .agent, ∀ doc' ∈ db'.documents .agent, doc.key = doc'.key →
      doc.attribute "update" = doc'.attribute "update" := by
  have h := (linked_empty.createAgents hserver hcalls hexec).settles
  have h' := (linked_empty.createAgents hserver
    (fun call hcall => hcalls call (hperm.mem_iff.mpr hcall)) hexec').settles
  have hmem (call : String × Node ω) : call ∈ [] ++ calls ↔ call ∈ [] ++ calls' := hperm.mem_iff
  refine ⟨fun pk pk' => ?_, fun doc hdoc doc' hdoc' hkey => ?_⟩
  · simp only [h.connected, h'.connected, Plant.neighbour_congr hmem]
  · have hmissing := h.missing doc hdoc
    rw [Plant.missing_congr hmem, hkey] at hmissing
    by_cases hm : Plant.Missing ([] ++ calls') doc'.key
    · rw [hmissing.1.mpr hm, (h'.missing doc' hdoc').1.mpr hm]
    · rw [hmissing.2.mpr hm, (h'.missing doc' hdoc').2.mpr hm]

theorem creates_perm_beside :
    ∃ db db', exec (Server.searching.createAgents [("a", beside "b"), ("b", beside "c")]) .empty =
        (.ok (), db) ∧
      exec (Server.searching.createAgents [("b", beside "c"), ("a", beside "b")]) .empty =
        (.ok (), db') ∧
      ∀ pk pk', db.Connected pk pk' ↔ db'.Connected pk pk' := by
  have hexec := exec_of_toBool (x := Server.searching.createAgents
    [("a", beside "b"), ("b", beside "c")]) (s := .empty) (by decide +kernel)
  have hexec' := exec_of_toBool (x := Server.searching.createAgents
    [("b", beside "c"), ("a", beside "b")]) (s := .empty) (by decide +kernel)
  exact ⟨_, _, hexec, hexec', (creates_perm Server.findsNeighbours_searching (by decide)
    (.swap _ _ _) hexec hexec').1⟩

end Iams.Arango
