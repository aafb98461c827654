/-
Iams.Arango.ConnectionTheorems — connections between agents are made once.

`update_agents` looks up which neighbours an agent is connected with before
it connects it with the others, and an edge to or from a pool is looked up
one by one. So two agents have one connection in each direction at most,
logical or virtual, whatever is called in which order and however it ends
(`connections_once`). Pools are left out: two of them that are merged may
have been connected with the same agent. In a run in which no pool is
merged into another one, nothing is logically connected twice.

No `sorry`, no `axiom`, no `native_decide`.
-/
import Iams.Arango.Neighbours
import Iams.Arango.Rules
import Iams.Arango.Steps

namespace Iams.Arango

open Iams.Lib Iams.Lib.Procedure

variable {ω : Type} {server : Server ω} {db db' : Database ω}

/-! ## Connections -/

/-- The id of a pool, as `update_agents` makes it. -/
def isPool (id : String) : Bool := "agent/pool-".toList.isPrefixOf id.toList

/-- Neither end is a pool. -/
def plain (ends : String × String) : Bool := !isPool ends.1 && !isPool ends.2

/-- All connections between agents that are no pools. -/
def Database.connections (db : Database ω) : List (String × String) :=
  ((db.edges .logical ++ db.edges .virtual).map EdgeDocument.ends).filter plain

/-- A pool is found by its attribute `pool_cls`. -/
def Server.FindsPools (server : Server ω) : Prop :=
  ∀ db id pool l, server.pools db id pool = some l →
    ∀ p ∈ l, p ∈ db.documents .agent ∧ ∃ s, p.attribute "pool_cls" = .str s

theorem Server.findsPools_searching [DecidableEq ω] : (Server.searching (ω := ω)).FindsPools := by
  intro db pk pool l hl p hp
  rw [← Option.some.inj hl] at hp
  obtain ⟨hfound, hclass⟩ := List.mem_filter.mp hp
  obtain ⟨v, -, hv⟩ := List.mem_filterMap.mp hfound
  refine ⟨List.mem_of_find?_eq_some hv, ?_⟩
  split at hclass
  · next s hs => exact ⟨s, hs⟩
  · cases hclass

/-- Only a pool has the attribute that pools are found by. -/
def Document.PoolNamed (doc : Document ω) : Prop :=
  ∀ s, doc.attribute "pool_cls" = .str s → isPool (Collection.agent.id doc) = true

/-- What every call keeps. -/
structure Once (db : Database ω) : Prop where
  named : ∀ doc ∈ db.documents .agent, doc.PoolNamed
  connections : db.connections.Nodup
  virtual : ((db.edges .virtual).map EdgeDocument.ends).Nodup
  logical : db.merged = false → ((db.edges .logical).map EdgeDocument.ends).Nodup

theorem blind_once : Blind (Once (ω := ω)) :=
  fun _ _ h => ⟨h.named, h.connections, h.virtual, h.logical⟩

theorem isPool_agentId (key : String) : isPool (agentId ("pool-" ++ key)) = true := by
  rw [isPool, List.isPrefixOf_iff_prefix]
  refine ⟨key.toList, ?_⟩
  simp [agentId]

/-! ## Documents -/

/-- A call that leaves the connections as they are. -/
theorem Once.of_same (h : Once db) (hlogical : db'.edges .logical = db.edges .logical)
    (hvirtual : db'.edges .virtual = db.edges .virtual) (hmerged : db'.merged = db.merged)
    (hnamed : ∀ doc ∈ db'.documents .agent, doc.PoolNamed) : Once db' where
  named := hnamed
  connections := by
    rw [Database.connections, hlogical, hvirtual]
    exact h.connections
  virtual := by
    rw [hvirtual]
    exact h.virtual
  logical hapart := by
    rw [hlogical]
    exact h.logical (hmerged ▸ hapart)

/-- A call that changes agents only. -/
theorem Once.setAgents (h : Once db) {docs : List (Document ω)}
    (hdocs : ∀ doc ∈ docs, doc.PoolNamed) : Once (db.setDocuments .agent docs) :=
  h.of_same rfl rfl rfl fun doc hdoc => hdocs doc hdoc

theorem Once.setEdges (h : Once db) {c : EdgeCollection} (hc : c.inPlants = true)
    (docs : List (EdgeDocument ω)) : Once (db.setEdges c docs) := by
  cases c with
  | symmetric | directed => exact h.of_same rfl rfl rfl h.named
  | logical | virtual => cases hc

/-- A document without the attribute is named well. -/
theorem poolNamed_of_notMem {doc : Document ω} (h : "pool_cls" ∉ doc.attributes.keys) :
    doc.PoolNamed := by
  intro s hs
  have hnone : doc.attributes.get? "pool_cls" = none := by
    by_contra hne
    exact h (Dict.mem_keys_iff _ |>.mpr (Option.isSome_iff_ne_none.mpr hne))
  rw [Document.attribute, hnone] at hs
  cases hs

/-- The attributes that are written come first. -/
theorem attribute_merge {doc old : Document ω} (h : old.key = doc.key) (name : String) :
    (doc.merge old).attribute name = doc.attribute name ∨
      (doc.merge old).attribute name = old.attribute name := by
  rw [Document.merge, if_pos h]
  by_cases hmem : name ∈ doc.attributes.items.map Prod.fst
  · obtain ⟨item, hitem, rfl⟩ := List.mem_map.mp hmem
    left
    rw [Document.attribute, Dict.get?_update_of_mem _ doc.attributes.nodup hitem,
      Document.attribute, (Dict.get?_eq_some_iff doc.attributes).mpr hitem]
  · right
    rw [Document.attribute, Dict.get?_update_of_notMem _ _ hmem]
    rfl

theorem poolNamed_merge {doc old : Document ω} (hdoc : doc.PoolNamed) (hold : old.PoolNamed) :
    (doc.merge old).PoolNamed := by
  by_cases hkey : old.key = doc.key
  · intro s hs
    have hid : Collection.agent.id (doc.merge old) = Collection.agent.id doc := by
      rw [Document.merge, if_pos hkey, Collection.id, Collection.id, ← hkey]
    rw [hid]
    rcases attribute_merge hkey "pool_cls" with heq | heq
    · exact hdoc s (heq ▸ hs)
    · rw [← hid, Document.merge, if_pos hkey]
      exact hold s (heq ▸ hs)
  · rw [Document.merge, if_neg hkey]
    exact hold

/-! ## Edges -/

/-- An edge that is appended, among the connections. -/
theorem perm_connections {c : EdgeCollection} (hc : c.inPlants = false) (e : EdgeDocument ω) :
    (db.setEdges c (db.edges c ++ [e])).connections.Perm
      ([e.ends].filter plain ++ db.connections) := by
  have hends (l : List (EdgeDocument ω)) (hl : l.Perm ([e] ++ (db.edges .logical ++
      db.edges .virtual))) : ((l.map EdgeDocument.ends).filter plain).Perm
        ([e.ends].filter plain ++ db.connections) := by
    have := (hl.map EdgeDocument.ends).filter plain
    rwa [List.map_append, List.filter_append] at this
  cases c with
  | symmetric | directed => cases hc
  | logical =>
    refine hends ((db.edges .logical ++ [e]) ++ db.edges .virtual) ?_
    rw [← List.append_assoc]
    exact List.perm_append_comm.append_right _
  | virtual =>
    refine hends (db.edges .logical ++ (db.edges .virtual ++ [e])) ?_
    rw [← List.append_assoc]
    exact List.perm_append_comm

/-- A new connection, where there is none of the kind that counts. -/
theorem Once.connect (h : Once db) {c : EdgeCollection} (hc : c.inPlants = false)
    {e : EdgeDocument ω} (hplain : plain e.ends = true → e.ends ∉ db.connections)
    (hnew : c = .virtual ∨ db.merged = false → e.ends ∉ (db.edges c).map EdgeDocument.ends) :
    Once (db.setEdges c (db.edges c ++ [e])) where
  named := h.named
  connections := by
    rw [(perm_connections hc e).nodup_iff]
    by_cases hp : plain e.ends = true
    · rw [List.filter_cons_of_pos hp, List.filter_nil, List.singleton_append, List.nodup_cons]
      exact ⟨hplain hp, h.connections⟩
    · rw [List.filter_cons_of_neg hp, List.filter_nil, List.nil_append]
      exact h.connections
  virtual := by
    cases c with
    | symmetric | directed => cases hc
    | logical => exact h.virtual
    | virtual =>
      show ((db.edges .virtual ++ [e]).map EdgeDocument.ends).Nodup
      rw [List.map_append, List.nodup_append_comm]
      exact List.nodup_cons.mpr ⟨hnew (.inl rfl), h.virtual⟩
  logical hapart := by
    cases c with
    | symmetric | directed => cases hc
    | virtual => exact h.logical hapart
    | logical =>
      show ((db.edges .logical ++ [e]).map EdgeDocument.ends).Nodup
      rw [List.map_append, List.nodup_append_comm]
      exact List.nodup_cons.mpr ⟨hnew (.inr hapart), h.logical hapart⟩

section Calls

variable (server)

/-- One end of the edge is a pool. -/
theorem triple_insertOnce {source target : String} (hpool : plain (source, target) = false) :
    Triple Once (server.insertOnce source target) (fun _ => Once) Once := by
  refine .bind (triple_findEdges server blind_once _ _) fun edges => ?_
  split
  · next hnone =>
    refine .conseq (triple_insertEdge server (I := fun db => edges = (db.edges .logical).filter
      (fun e => e.source = source && e.target = target) ∧ Once db)
      (fun db n h => ⟨h.1, blind_once db n h.2⟩) ?_) (fun _ h => h) (fun _ _ h => h)
      fun _ h => h.2
    intro db key hdb
    refine hdb.2.connect rfl (fun hplain => ?_) fun _ hmem => ?_
    · exact absurd hplain (hpool ▸ Bool.false_ne_true)
    · obtain ⟨e, he, hends⟩ := List.mem_map.mp hmem
      obtain ⟨hsource, htarget⟩ := Prod.mk.inj hends
      have : e ∈ edges := by
        rw [hdb.1, List.mem_filter, Bool.and_eq_true, decide_eq_true_iff, decide_eq_true_iff]
        exact ⟨he, hsource, htarget⟩
      rw [List.length_eq_zero_iff.mp hnone] at this
      cases this
  · exact .pure fun _ h => h.2

/-- Edges that are changed have an end that is a pool. -/
theorem Once.changeEdges {db : Database ω} (h : Once db) (hmerged : db.merged = true)
    {f : EdgeDocument ω → EdgeDocument ω}
    (hf : ∀ e, f e = e ∨ plain (f e).ends = false) :
    Once (db.setEdges .logical ((db.edges .logical).map f)) where
  named := h.named
  connections := by
    have hsub (l : List (EdgeDocument ω)) : List.Sublist
        (((l.map f).map EdgeDocument.ends).filter plain)
        ((l.map EdgeDocument.ends).filter plain) := by
      induction l with
      | nil => exact .refl _
      | cons e rest ih =>
        rw [List.map_cons, List.map_cons, List.map_cons]
        rcases hf e with heq | hpool
        · rw [heq, List.filter_cons, List.filter_cons]
          split
          · exact ih.cons_cons _
          · exact ih
        · rw [List.filter_cons_of_neg (by rw [hpool]; exact Bool.false_ne_true)]
          exact ih.trans ((List.sublist_cons_self _ _).filter plain)
    refine h.connections.sublist ?_
    show List.Sublist (((((db.edges .logical).map f) ++ db.edges .virtual).map
      EdgeDocument.ends).filter plain) _
    rw [List.map_append, List.filter_append, Database.connections, List.map_append,
      List.filter_append]
    exact (hsub _).append_right _
  virtual := h.virtual
  logical hapart := absurd hapart (by simp [Database.setEdges, hmerged])

theorem Once.setMerged (h : Once db) : Once { db with merged := true } :=
  ⟨h.named, h.connections, h.virtual, fun hapart => nomatch hapart⟩

/-- Edges are moved when the run counts as one with a merged pool. -/
theorem triple_movePool {pool p : Document ω} (hpool : isPool (Collection.agent.id pool) = true) :
    Triple Once (server.movePool pool p) (fun _ => Once) Once := by
  let I (db : Database ω) : Prop := db.merged = true ∧ Once db
  have hblind : Blind I := fun db n h => ⟨h.1, blind_once db n h.2⟩
  have hmove {doc : EdgeDocument ω} (hdoc : plain doc.ends = false) :
      Triple I (server.updateEdge .logical doc) (fun _ => I) I := by
    refine triple_updateEdge server hblind fun db hdb =>
      ⟨hdb.1, hdb.2.changeEdges hdb.1 fun e => ?_⟩
    by_cases hkey : e.key = doc.key
    · rw [EdgeDocument.merge, if_pos hkey]
      exact .inr hdoc
    · exact .inl (if_neg hkey)
  refine .bind (Q := fun _ => I) (.modify fun db hdb => ⟨rfl, hdb.setMerged⟩) fun _ => ?_
  refine Triple.conseq (P := I) (Q := fun _ => I) (E := I) ?_ (fun _ h => h) (fun _ _ h => h.2)
    fun _ h => h.2
  refine .bind ((triple_findEdges server hblind _ _).post fun _ _ h => h.2) fun edges => ?_
  refine .bind (.forM_same fun e _ => hmove ?_) fun _ => ?_
  · simp [plain, EdgeDocument.ends, hpool]
  refine .bind ((triple_findEdges server hblind _ _).post fun _ _ h => h.2) fun edges => ?_
  refine .bind (.forM_same fun e _ => hmove ?_) fun _ => ?_
  · simp [plain, EdgeDocument.ends, hpool]
  refine triple_delete server hblind fun db hdb => ⟨hdb.1, hdb.2.setAgents fun doc hdoc => ?_⟩
  exact hdb.2.named doc (List.mem_filter.mp hdoc).1

/-- What is inserted for a pool that is not there yet. -/
theorem triple_insertAgent {key : Option String} {attributes : List (String × Value ω)}
    (hnamed : "pool_cls" ∈ attributes.map Prod.fst → ∃ k, key = some ("pool-" ++ k)) :
    Triple Once (server.insert .agent key attributes)
      (fun k db => (∀ k', key = some k' → k = k') ∧ Once db) Once := by
  refine triple_insert server blind_once fun db k hdb hk _ => ⟨hk, hdb.setAgents ?_⟩
  intro doc hdoc
  rcases List.mem_append.mp hdoc with hold | hnew
  · exact hdb.named doc hold
  · obtain rfl := List.mem_singleton.mp hnew
    by_cases hmem : "pool_cls" ∈ attributes.map Prod.fst
    · obtain ⟨k', hkey⟩ := hnamed hmem
      obtain rfl := hk _ hkey
      exact fun _ _ => isPool_agentId k'
    · refine poolNamed_of_notMem fun h => hmem ?_
      rw [Dict.keys_update, Dict.mem_foldl_addKey] at h
      exact h.resolve_left List.not_mem_nil

theorem triple_findPool (hpools : server.FindsPools) (data : Document ω) (pool : Value ω) :
    Triple Once (server.findPool data pool)
      (fun id db => isPool id = true ∧ Once db) Once := by
  have hblind := blind_once (ω := ω)
  refine .bind (Q := fun found db => (∀ p ∈ found, isPool (Collection.agent.id p) = true) ∧
    Once db) ?_ fun found => .assume fun hfound => ?_
  · refine (triple_query server hblind _).post fun found db h => ⟨fun p hp => ?_, h.2⟩
    obtain ⟨hmem, s, hs⟩ := hpools db _ _ found h.1 p hp
    exact h.2.named p hmem s hs
  · cases found with
    | nil =>
      refine .bind (triple_insertAgent server fun hmem => ?_) fun key => ?_
      · exact absurd hmem (by simp)
      refine .assume fun _ => .bind (triple_insertAgent server fun _ => ⟨key, rfl⟩) fun k => ?_
      refine .assume fun hk => .bind (triple_delete server hblind fun db hdb =>
        hdb.setAgents fun doc hdoc => hdb.named doc (List.mem_filter.mp hdoc).1) fun _ => ?_
      exact .pure fun db hdb => ⟨hk _ rfl ▸ isPool_agentId key, hdb⟩
    | cons first others =>
      have hfirst := hfound first List.mem_cons_self
      exact .bind (.forM_same fun p _ => triple_movePool server hfirst) fun _ =>
        .pure fun db hdb => ⟨hfirst, hdb⟩

theorem triple_joinPool (hpools : server.FindsPools) (data : Document ω) (pool : Value ω) :
    Triple Once (server.joinPool data pool) (fun _ => Once) Once := by
  have hblind := blind_once (ω := ω)
  refine .bind (triple_findPool server hpools data pool) fun id => .assume fun hid => ?_
  have hsource (node : String) : plain (id, node) = false := by simp [plain, hid]
  have htarget (node : String) : plain (node, id) = false := by simp [plain, hid]
  refine .bind (triple_insertOnce server (hsource _)) fun _ => ?_
  refine .bind (triple_insertOnce server (htarget _)) fun _ => ?_
  refine .bind ((triple_query server hblind _).post fun _ _ h => h.2) fun nodes => ?_
  refine .bind (.forM_same fun node _ => triple_insertOnce server (hsource _)) fun _ => ?_
  refine .bind ((triple_query server hblind _).post fun _ _ h => h.2) fun nodes => ?_
  exact .forM_same fun node _ => triple_insertOnce server (htarget _)

/-- An agent is connected with agents that it is not connected with yet. -/
theorem triple_connectNodes (data : Document ω) (found : List (Option (Document ω)))
    (nodes : Dict String (Document ω)) :
    Triple (fun db => nodes = db.unconnected data found ∧ Once db)
      (server.connectNodes data nodes) (fun _ => Once) Once := by
  let id := Collection.agent.id data
  -- no edge leads to what is still to be connected
  let I (items : List (String × Document ω)) (db : Database ω) : Prop :=
    (∀ item ∈ items, ∀ c : EdgeCollection, c.inPlants = false →
      (id, Collection.agent.id item.2) ∉ (db.edges c).map EdgeDocument.ends) ∧ Once db
  by_cases hnodes : (∀ item ∈ nodes.items, item.1 = Collection.agent.id item.2)
  swap
  · rintro db ⟨rfl, hdb⟩
    refine absurd (fun item hitem => ?_) hnodes
    exact (Server.mem_collect (Server.mem_popTargets.mp (Server.mem_popTargets.mp hitem).1).1).2
  refine .pre (P := I nodes.items) (.post (.forM ?_) fun _ _ h => h.2) ?_
  · rintro item rest ⟨before, hall⟩
    have hdistinct : ∀ other ∈ rest, Collection.agent.id item.2 ≠ Collection.agent.id other.2 := by
      have hkeys := nodes.nodup
      rw [← hall, List.map_append, List.map_cons] at hkeys
      have hitem := (List.nodup_cons.mp (List.nodup_append.mp hkeys).2.1).1
      intro other hother heq
      have hmem (x : String × Document ω) (hx : x ∈ item :: rest) :
          x.1 = Collection.agent.id x.2 :=
        hnodes x (hall ▸ List.mem_append_right _ hx)
      refine hitem (List.mem_map.mpr ⟨other, hother, ?_⟩)
      rw [hmem other (List.mem_cons_of_mem _ hother), hmem item List.mem_cons_self, heq]
    refine (triple_insertEdge server (I := I (item :: rest))
      (fun db n h => ⟨h.1, blind_once db n h.2⟩) ?_).conseq (fun _ h => h)
        (fun _ _ h => h) fun _ h => h.2
    rintro db key ⟨hfree, hdb⟩
    generalize hc' : (if (data.attributes.get? "pool").isSome ||
      (item.2.attributes.get? "pool").isSome then EdgeCollection.virtual else .logical) = c'
    have hc' : c'.inPlants = false := by
      rw [← hc']
      split <;> rfl
    refine ⟨fun other hother c hc => ?_, hdb.connect hc' (fun _ hmem => ?_) fun _ =>
      hfree item List.mem_cons_self c' hc'⟩
    · have hold := hfree other (List.mem_cons_of_mem _ hother) c hc
      by_cases hcc : c = c'
      · subst hcc
        rw [Database.edges_setEdges, List.map_append, List.mem_append, not_or]
        refine ⟨hold, fun hmem => hdistinct other hother ?_⟩
        exact (Prod.mk.inj (List.mem_singleton.mp hmem)).2.symm
      · rwa [Database.edges_setEdges_of_ne _ hcc]
    · have hmem := (List.mem_filter.mp hmem).1
      rw [List.map_append, List.mem_append] at hmem
      exact hmem.elim (hfree item List.mem_cons_self .logical rfl)
        (hfree item List.mem_cons_self .virtual rfl)
  · rintro db ⟨rfl, hdb⟩
    refine ⟨fun item hitem c hc hmem => ?_, hdb⟩
    obtain ⟨e, he, hends⟩ := List.mem_map.mp hmem
    obtain ⟨hsource, htarget⟩ := Prod.mk.inj hends
    obtain ⟨hlogical, hvirtual⟩ := Server.mem_popTargets.mp hitem
    obtain ⟨-, hlogical⟩ := Server.mem_popTargets.mp hlogical
    rw [← hnodes item hitem] at htarget
    have hfilter : e ∈ (db.edges c).filter fun e => e.source = id :=
      List.mem_filter.mpr ⟨he, decide_eq_true hsource⟩
    cases c with
    | symmetric | directed => cases hc
    | logical => exact hlogical e hfilter htarget
    | virtual => exact hvirtual e hfilter htarget

theorem Once.mergeAgent {db : Database ω} (h : Once db)
    {doc : Document ω} (hdoc : doc.PoolNamed) :
    Once (db.setDocuments .agent ((db.documents .agent).map doc.merge)) := by
  refine h.setAgents fun new hnew => ?_
  obtain ⟨old, hold, rfl⟩ := List.mem_map.mp hnew
  exact poolNamed_merge hdoc (h.named old hold)

/-- The attribute `update` is not what a pool is found by. -/
theorem poolNamed_setUpdate {doc : Document ω} (h : doc.PoolNamed) (update : Bool) :
    (doc.setUpdate update).PoolNamed := by
  intro s hs
  refine h s (Eq.trans ?_ hs)
  rw [Document.attribute, Document.attribute, Document.setUpdate,
    Dict.get?_set_of_ne _ _ (by decide)]

/-! ## Calls -/

theorem triple_markAgent (name : String) :
    Triple Once (server.markAgent name) (fun _ => Once) Once := by
  have hblind := blind_once (ω := ω)
  refine .bind (Q := fun found db => (∀ doc ∈ found, Document.PoolNamed doc) ∧ Once db) ?_
    fun found => .assume fun hfound => ?_
  · refine (triple_find? server hblind _ _).post ?_
    rintro _ db ⟨rfl, hdb⟩
    exact ⟨fun doc hdoc => hdb.named doc (List.mem_of_find?_eq_some hdoc), hdb⟩
  · cases found with
    | none => exact .pure fun _ h => h
    | some data =>
      exact triple_update server hblind fun db hdb =>
        hdb.mergeAgent (poolNamed_setUpdate (hfound data rfl) true)

theorem triple_insertVertex (name node : String) (default : Bool) :
    Triple Once (server.insertVertex name node default) (fun _ => Once) Once :=
  .bind (triple_insert server blind_once (Q := fun _ => Once)
    fun _ _ hdb _ _ => hdb.of_same rfl rfl rfl hdb.named) fun _ => .pure fun _ h => h

theorem triple_connect (name : String) (edge : Edge ω) :
    Triple Once (server.connect name edge) (fun _ => Once) Once := by
  have hcollection : edge.collection.inPlants = true := by
    unfold Edge.collection
    split <;> rfl
  have hedge (source target : String) (weight : List (String × Value ω)) :
      Triple Once (server.insertEdge edge.collection source target weight)
        (fun _ => Once) Once :=
    triple_insertEdge server blind_once fun _ _ hdb => hdb.setEdges hcollection _
  unfold Server.connect
  split
  · refine .bind (hedge _ _ _) fun _ => ?_
    split
    · exact triple_markAgent server edge.agent
    · exact .pure fun _ h => h
  · exact hedge _ _ _

theorem triple_addEdges (name : String) (nodes : List String) (edges : List (Edge ω)) :
    Triple Once (server.addEdges name nodes edges) (fun _ => Once) Once := by
  induction edges generalizing nodes with
  | nil => exact .pure fun _ h => h
  | cons edge rest ih =>
    simp only [Server.addEdges, isNone, Bool.false_eq_true, and_false, if_false, pure_bind]
    split
    · exact .bind (.bind (triple_insertVertex server name _ false) fun _ => .pure fun _ h => h)
        fun _ => .bind (triple_connect server name edge) fun _ => ih _
    · exact .bind (triple_connect server name edge) fun _ => ih _

variable [DecidableEq ω]

theorem triple_updateAgents (hpools : server.FindsPools) :
    Triple Once server.updateAgents (fun _ => Once) Once := by
  have hblind := blind_once (ω := ω)
  refine .bind (Q := fun docs db => (∀ doc ∈ docs, doc.PoolNamed) ∧ Once db) ?_
    fun docs => .assume fun hdocs => .forM_same fun data hdata => ?_
  · refine (triple_find server hblind _ _).post ?_
    rintro _ db ⟨rfl, hdb⟩
    exact ⟨fun doc hdoc => hdb.named doc (List.mem_filter.mp hdoc).1, hdb⟩
  · refine triple_updateNeighbours server hblind (fun _ h => h) (J := fun _ => Once)
      (K := fun _ => Once) (fun found nodes => ?_) (fun _ _ _ h => h) (fun update _ => ?_)
      (fun pool _ => triple_joinPool server hpools data pool) fun _ _ _ h => h
    · exact (triple_connectNodes server data found nodes).pre fun _ h => h.2
    · exact triple_update server hblind fun db hdb =>
        hdb.mergeAgent (poolNamed_setUpdate (hdocs data hdata) update)

theorem triple_createAgent (hpools : server.FindsPools) (name : String) (node : Node ω) :
    Triple Once (server.createAgent name node) (fun _ => Once) Once := by
  refine .bind (.bind ((triple_insertAgent server fun hmem => ?_).post fun _ _ h => h.2)
    fun _ => .bind (triple_insertVertex server name _ true) fun _ =>
      triple_addEdges server name _ _) fun _ => triple_updateAgents server hpools
  rw [agentAttributes] at hmem
  split at hmem <;> revert hmem <;> simp

theorem Once.deleteTopology {server : Server ω} {name : String} {db db' : Database ω}
    (h : Once db)
    (hdelete : server.deleteTopology name db = some db') : Once db' := by
  obtain ⟨keys, -, hdelete⟩ := Option.bind_eq_some_iff.mp hdelete
  split at hdelete
  · cases hdelete
  · cases hdelete
    refine h.of_same rfl rfl rfl fun doc hdoc => ?_
    obtain ⟨old, hold, rfl⟩ := List.mem_map.mp hdoc
    split
    · exact poolNamed_setUpdate (h.named old hold) true
    · exact h.named old hold

omit [DecidableEq ω] in
theorem Once.deleteConnections {server : Server ω} {name : String} {db db' : Database ω}
    (h : Once db)
    (hdelete : server.deleteConnections name db = some db') : Once db' := by
  obtain ⟨keys, -, hdelete⟩ := Option.bind_eq_some_iff.mp hdelete
  split at hdelete
  · cases hdelete
  · cases hdelete
    have hkept (l : List (EdgeDocument ω)) : List.Sublist
        ((l.filter fun e => e.key ∉ keys).map EdgeDocument.ends) (l.map EdgeDocument.ends) :=
      List.filter_sublist.map _
    refine ⟨fun doc hdoc => h.named doc (List.mem_filter.mp hdoc).1, ?_, ?_, fun hapart => ?_⟩
    · refine h.connections.sublist (List.Sublist.filter _ ?_)
      rw [List.map_append, List.map_append]
      exact (hkept _).append (hkept _)
    · exact h.virtual.sublist (hkept _)
    · exact (h.logical hapart).sublist (hkept _)

theorem triple_deleteAgent (hpools : server.FindsPools) (name : String) (update : Bool) :
    Triple Once (server.deleteAgent name update) (fun _ => Once) Once := by
  have hexecute {result : Database ω → Option (Database ω)}
      (h : ∀ db db', Once db → result db = some db' → Once db') :
      Triple Once (server.execute result) (fun _ => Once) Once :=
    triple_execute server blind_once h
  refine .bind (hexecute fun _ _ => Once.deleteTopology) fun _ =>
    .bind (hexecute fun _ _ => Once.deleteConnections) fun _ => ?_
  split
  · exact .bind (triple_updateAgents server hpools) fun _ => .pure fun _ h => h
  · exact .pure fun _ h => h

theorem triple_updateAgent (hpools : server.FindsPools) (name : String) (node : Node ω) :
    Triple Once (server.updateAgent name node) (fun _ => Once) Once := by
  refine .bind (.tryCatch (.bind (triple_deleteAgent server hpools name false) fun _ =>
    .pure fun _ h => h) fun e => ?_) fun _ => triple_createAgent server hpools name node
  split
  · exact .pure fun _ h => h
  · exact .throw fun _ h => h

end Calls

/-! ## Runs -/

theorem once_empty : Once (Database.empty (ω := ω)) where
  named _ h := nomatch h
  connections := List.nodup_nil
  virtual := List.nodup_nil
  logical _ := List.nodup_nil

/-- A call of a method of `Arango`. -/
inductive Call (ω : Type) where
  | createAgent (name : String) (node : Node ω)
  | deleteAgent (name : String) (update : Bool)
  | updateAgent (name : String) (node : Node ω)
  | updateAgents

variable [DecidableEq ω]

/-- What the call does; what it returns is not used. -/
def Server.call (server : Server ω) : Call ω → Proc ω Unit
  | .createAgent name node => server.createAgent name node
  | .deleteAgent name update => do
    let _ ← server.deleteAgent name update
  | .updateAgent name node => server.updateAgent name node
  | .updateAgents => server.updateAgents

/-- The database after calls that return or raise. -/
def Server.run (server : Server ω) (db : Database ω) (calls : List (Call ω)) : Database ω :=
  calls.foldl (fun db call => (exec (server.call call) db).2) db

theorem Once.call (hpools : server.FindsPools) (h : Once db) (call : Call ω) :
    Once (exec (server.call call) db).2 := by
  refine Triple.always ?_ h
  cases call with
  | createAgent name node => exact triple_createAgent server hpools name node
  | deleteAgent name update =>
    exact .bind (triple_deleteAgent server hpools name update) fun _ => .pure fun _ h => h
  | updateAgent name node => exact triple_updateAgent server hpools name node
  | updateAgents => exact triple_updateAgents server hpools

theorem Once.run (hpools : server.FindsPools) (h : Once db) (calls : List (Call ω)) :
    Once (server.run db calls) := by
  induction calls generalizing db with
  | nil => exact h
  | cons call rest ih => exact ih (h.call hpools call)

/-- Whatever is called, in any order and however it ends: two agents that are
no pools have one connection in each direction at most, no two of any kind
are connected virtually twice, and none logically in a run that merges no
pools. -/
theorem connections_once (hpools : server.FindsPools) (calls : List (Call ω)) :
    (server.run .empty calls).connections.Nodup ∧
    (((server.run .empty calls).edges .virtual).map EdgeDocument.ends).Nodup ∧
    ((server.run .empty calls).merged = false →
      (((server.run .empty calls).edges .logical).map EdgeDocument.ends).Nodup) :=
  have h := once_empty.run hpools calls
  ⟨h.connections, h.virtual, h.logical⟩

/-- An agent with one node and symmetric edges to other agents. -/
def pooled (pools : List String) (agents : List String) : Node Nat where
  default := "d"
  pools := pools
  edges := agents.map fun agent =>
    { nodeFrom := "d", nodeTo := "d", agent, weight := 1, symmetric := true }
  abilities := []

/-- Two agents join one pool; or each has a pool of its own and the same
neighbour, and then an agent between them that merges the pools. -/
def pooledCalls (joined : Bool) : List (Call Nat) :=
  [.createAgent "a" (pooled ["p"] []),
    .createAgent "b" (pooled ["p"] (if joined then ["a"] else [])),
    .createAgent "c" (pooled [] ["a", "b"]),
    if joined then .updateAgents else .createAgent "e" (pooled ["p"] ["a", "b"])]

theorem connections_once_pooled :
    (let db := Server.searching.run .empty (pooledCalls true)
     db.connections.Nodup ∧ ((db.edges .virtual).map EdgeDocument.ends).Nodup ∧
       ((db.edges .logical).map EdgeDocument.ends).Nodup) ∧
    (let db := Server.searching.run .empty (pooledCalls false)
     db.connections.Nodup ∧ ((db.edges .virtual).map EdgeDocument.ends).Nodup ∧
       db.merged = true ∧ ¬ ((db.edges .logical).map EdgeDocument.ends).Nodup) :=
  have hjoined := connections_once Server.findsPools_searching (pooledCalls true)
  have hmerged := connections_once Server.findsPools_searching (pooledCalls false)
  ⟨⟨hjoined.1, hjoined.2.1, hjoined.2.2 (by decide +kernel)⟩,
    hmerged.1, hmerged.2.1, by decide +kernel, by decide +kernel⟩

end Iams.Arango
