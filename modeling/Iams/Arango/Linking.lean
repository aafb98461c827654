/-
Iams.Arango.Linking — the loop of `update_agents` connects each agent with
its neighbours.

`Neighbour` and `Missing` are what the topology says about an agent: which
agents it is to be connected with, and whether it leads to an agent that is
not there. `Linking base rest` is the invariant of the loop, where `base` is
the database at its start and `rest` the agents that are still to come: no
connection is wrong, and all agents that are not in `rest` have all of theirs
and the right attribute `update`. It is for agents without pools.

No `sorry`, no `axiom`, no `native_decide`.
-/
import Iams.Arango.Neighbours
import Iams.Arango.Rules
import Iams.Arango.Steps

namespace Iams.Arango

open Iams.Lib Iams.Lib.Procedure

variable {ω : Type} [DecidableEq ω] {server : Server ω} {base db db' : Database ω}

/-! ## What the topology says -/

namespace Database

/-- An agent is there that owns a vertex the search ends at. -/
def Neighbour (db : Database ω) (pk pk' : String) : Prop :=
  ∃ v, db.Sees pk v ∧ db.owner v = .str pk' ∧
    pk' ∈ (db.documents .agent).map Collection.agent.id

/-- The search ends at a vertex whose agent is not there. -/
def Missing (db : Database ω) (pk : String) : Prop :=
  ∃ v, db.Sees pk v ∧ ∀ pk' ∈ (db.documents .agent).map Collection.agent.id,
    db.owner v ≠ .str pk'

theorem agentAt_eq_some {v : String} {doc : Document ω} (h : db.agentAt v = some doc) :
    doc ∈ db.documents .agent ∧ db.owner v = .str (Collection.agent.id doc) :=
  ⟨List.mem_of_find?_eq_some h, by simpa using List.find?_some h⟩

theorem neighbour_iff_agentAt {pk pk' : String} : db.Neighbour pk pk' ↔
    ∃ v doc, db.Sees pk v ∧ db.agentAt v = some doc ∧ Collection.agent.id doc = pk' := by
  constructor
  · rintro ⟨v, hsees, howner, hmem⟩
    obtain ⟨doc, hdoc, rfl⟩ := List.mem_map.mp hmem
    cases hat : db.agentAt v with
    | none => exact absurd howner (of_decide_eq_false (by
        simpa using List.find?_eq_none.mp hat doc hdoc))
    | some found =>
      refine ⟨v, found, hsees, hat, ?_⟩
      rw [(agentAt_eq_some hat).2] at howner
      exact Value.str.inj howner
  · rintro ⟨v, doc, hsees, hat, rfl⟩
    obtain ⟨hmem, howner⟩ := agentAt_eq_some hat
    exact ⟨v, hsees, howner, List.mem_map_of_mem hmem⟩

theorem missing_iff_agentAt {pk : String} :
    db.Missing pk ↔ ∃ v, db.Sees pk v ∧ db.agentAt v = none := by
  refine exists_congr fun v => and_congr_right fun _ => ?_
  simp [agentAt, List.find?_eq_none]

/-! ## It does not depend on anything else -/

omit [DecidableEq ω] in
theorem owner_congr (h : SameTopology db db') (v : String) : db'.owner v = db.owner v := by
  rw [owner, owner, h.1]

omit [DecidableEq ω] in
theorem next_congr (h : SameTopology db db') (v : String) : db'.next v = db.next v := by
  rw [next, next, h.2 .symmetric rfl, h.2 .directed rfl]

theorem sees_congr (h : SameTopology db db') (pk v : String) : db'.Sees pk v ↔ db.Sees pk v := by
  simp only [Sees, firstVertex, owner_congr h, next_congr h, h.1]

omit [DecidableEq ω] in
theorem ids_congr (hkeys : (db'.documents .agent).map Document.key =
    (db.documents .agent).map Document.key) :
    (db'.documents .agent).map Collection.agent.id =
      (db.documents .agent).map Collection.agent.id := by
  have hid (l : List (Document ω)) :
      l.map Collection.agent.id = (l.map Document.key).map agentId := by
    rw [List.map_map]
    rfl
  rw [hid, hid, hkeys]

variable (h : SameTopology db db') (hkeys : (db'.documents .agent).map Document.key =
  (db.documents .agent).map Document.key)
include h hkeys

theorem neighbour_congr (pk pk' : String) : db'.Neighbour pk pk' ↔ db.Neighbour pk pk' := by
  simp only [Neighbour, sees_congr h, owner_congr h, ids_congr hkeys]

theorem missing_congr (pk : String) : db'.Missing pk ↔ db.Missing pk := by
  simp only [Missing, sees_congr h, owner_congr h, ids_congr hkeys]

end Database

/-! ## The invariant of the loop -/

/-- There is a logical connection. -/
def Database.Connected (db : Database ω) (pk pk' : String) : Prop :=
  (pk, pk') ∈ (db.edges .logical).map EdgeDocument.ends

/-- All that the topology says about an agent has been done. -/
structure Settled (base db : Database ω) (doc : Document ω) : Prop where
  connected : ∀ pk, base.Neighbour (Collection.agent.id doc) pk →
    db.Connected (Collection.agent.id doc) pk
  missing : doc.attribute "update" = .bool true ↔ base.Missing (Collection.agent.id doc)
  complete : doc.attribute "update" = .bool false ↔ ¬ base.Missing (Collection.agent.id doc)

/-- The agents in `rest` are still to come. -/
structure Linking (base : Database ω) (rest : List (Document ω)) (db : Database ω) : Prop where
  topology : SameTopology base db
  keys : (db.documents .agent).map Document.key = (base.documents .agent).map Document.key
  nodup : ((base.documents .agent).map Document.key).Nodup
  pools : ∀ doc ∈ db.documents .agent, doc.attributes.get? "pool" = none
  virtual : db.edges .virtual = []
  sound : ∀ pk pk', db.Connected pk pk' → base.Neighbour pk pk'
  waiting : ∀ data ∈ rest, data ∈ db.documents .agent
  settled : ∀ doc ∈ db.documents .agent, doc ∉ rest → Settled base db doc

theorem blind_linking (base : Database ω) (rest : List (Document ω)) : Blind (Linking base rest) :=
  fun _ _ h =>
    ⟨h.topology, h.keys, h.nodup, h.pools, h.virtual, h.sound, h.waiting,
      fun doc hdoc hrest => ⟨(h.settled doc hdoc hrest).connected,
        (h.settled doc hdoc hrest).missing, (h.settled doc hdoc hrest).complete⟩⟩

/-- The database at the end in place of the one at the start. -/
theorem Linking.rebase {rest : List (Document ω)} (h : Linking base rest db) :
    Linking db rest db where
  topology := frame_sameTopology.refl db
  keys := rfl
  nodup := h.keys ▸ h.nodup
  pools := h.pools
  virtual := h.virtual
  sound pk pk' hpk := (Database.neighbour_congr h.topology h.keys pk pk').mpr (h.sound pk pk' hpk)
  waiting := h.waiting
  settled doc hdoc hrest := by
    have hsettled := h.settled doc hdoc hrest
    refine ⟨fun pk hpk => hsettled.connected pk ?_, ?_, ?_⟩
    · exact (Database.neighbour_congr h.topology h.keys _ pk).mp hpk
    · rw [Database.missing_congr h.topology h.keys]
      exact hsettled.missing
    · rw [Database.missing_congr h.topology h.keys]
      exact hsettled.complete

section Round

variable {rest : List (Document ω)} {data : Document ω}

/-- The answer of the query is what the topology says. -/
theorem Linking.answer (h : Linking base rest db) (hserver : server.FindsNeighbours)
    {found : List (Option (Document ω))} (hfound : server.Answers data found db) :
    (∀ pk, (∃ doc, some doc ∈ found ∧ Collection.agent.id doc = pk) ↔
        base.Neighbour (Collection.agent.id data) pk) ∧
      (none ∈ found ↔ base.Missing (Collection.agent.id data)) ∧
      ∀ doc, some doc ∈ found → doc ∈ db.documents .agent := by
  obtain ⟨n, hn⟩ := hfound
  obtain ⟨_, hanswer, hmem⟩ := hserver { db with requests := n } (Collection.agent.id data)
  obtain rfl := Option.some.inj (hn.symm.trans hanswer)
  refine ⟨fun pk => ?_, ?_, fun doc hdoc => ?_⟩
  · rw [← Database.neighbour_congr h.topology h.keys, Database.neighbour_iff_agentAt, exists_comm]
    refine exists_congr fun doc => ?_
    rw [hmem]
    constructor
    · rintro ⟨⟨v, hsees, hat⟩, hid⟩
      exact ⟨v, hsees, hat, hid⟩
    · rintro ⟨v, hsees, hat, hid⟩
      exact ⟨⟨v, hsees, hat⟩, hid⟩
  · rw [← Database.missing_congr h.topology h.keys, Database.missing_iff_agentAt, hmem]
    rfl
  · obtain ⟨v, -, hat⟩ := (hmem _).mp hdoc
    exact (Database.agentAt_eq_some hat).1

/-! ## One round -/

omit [DecidableEq ω] in
theorem Database.connected_append {pk pk' a b : String} {key : String}
    {attributes : Dict String (Value ω)} :
    (db.setEdges .logical (db.edges .logical ++
        [{ key, source := pk, target := pk', attributes }])).Connected a b ↔
      db.Connected a b ∨ a = pk ∧ b = pk' := by
  rw [Connected, edges_setEdges, List.map_append, List.mem_append, List.map_cons, List.map_nil,
    List.mem_singleton, EdgeDocument.ends, Prod.mk.injEq]
  rfl

theorem Settled.mono {doc : Document ω} (h : Settled base db doc)
    (hconnected : ∀ pk pk', db.Connected pk pk' → db'.Connected pk pk') : Settled base db' doc :=
  ⟨fun pk hpk => hconnected _ _ (h.connected pk hpk), h.missing, h.complete⟩

/-- One more connection with a neighbour. -/
theorem Linking.connect (h : Linking base rest db) {pk pk' : String}
    (hneighbour : base.Neighbour pk pk') (key : String) (attributes : Dict String (Value ω)) :
    Linking base rest (db.setEdges .logical (db.edges .logical ++
      [{ key, source := pk, target := pk', attributes }])) where
  topology := frame_sameTopology.trans h.topology (sameTopology_setEdges rfl _)
  keys := h.keys
  nodup := h.nodup
  pools := h.pools
  virtual := h.virtual
  sound a b hab := by
    rcases Database.connected_append.mp hab with hold | ⟨rfl, rfl⟩
    · exact h.sound a b hold
    · exact hneighbour
  waiting := h.waiting
  settled doc hdoc hrest :=
    (h.settled doc hdoc hrest).mono fun _ _ hab => Database.connected_append.mpr (.inl hab)

/-- The agent `data` is being connected; `items` are its neighbours that are
still to come. -/
structure Joining (base : Database ω) (rest : List (Document ω)) (data : Document ω)
    (items : List (String × Document ω)) (db : Database ω) : Prop where
  linking : Linking base (data :: rest) db
  connected : ∀ pk, base.Neighbour (Collection.agent.id data) pk →
    db.Connected (Collection.agent.id data) pk ∨ ∃ item ∈ items, Collection.agent.id item.2 = pk
  neighbours : ∀ item ∈ items,
    base.Neighbour (Collection.agent.id data) (Collection.agent.id item.2)

/-- What is not connected yet is what is still to come. -/
theorem Linking.joining (h : Linking base (data :: rest) db) (hserver : server.FindsNeighbours)
    {found : List (Option (Document ω))} (hfound : server.Answers data found db) :
    Joining base rest data (db.unconnected data found).items db := by
  obtain ⟨hneighbour, -, -⟩ := h.answer hserver hfound
  refine ⟨h, fun pk hpk => ?_, fun item hitem => ?_⟩
  · obtain ⟨item, hitem, rfl⟩ :=
      List.mem_map.mp (Server.mem_keys_collect.mpr ((hneighbour pk).mpr hpk))
    obtain ⟨-, hid⟩ := Server.mem_collect hitem
    by_cases hconnected : db.Connected (Collection.agent.id data) item.1
    · exact .inl hconnected
    · refine .inr ⟨item, ?_, hid.symm⟩
      rw [Database.unconnected, h.virtual, List.filter_nil, Server.mem_popTargets,
        Server.mem_popTargets]
      refine ⟨⟨hitem, fun e he htarget => hconnected ?_⟩, nofun⟩
      obtain ⟨hmem, hsource⟩ := List.mem_filter.mp he
      exact List.mem_map.mpr ⟨e, hmem, Prod.ext (of_decide_eq_true hsource) htarget⟩
  · have hitem := (Server.mem_popTargets.mp (Server.mem_popTargets.mp hitem).1).1
    exact (hneighbour _).mp ⟨item.2, (Server.mem_collect hitem).1, rfl⟩

theorem triple_connectNodes_joining (server : Server ω)
    (hdata : data.attributes.get? "pool" = none) (nodes : Dict String (Document ω))
    (hnodes : ∀ item ∈ nodes.items, item.2.attributes.get? "pool" = none) :
    Triple (Joining base rest data nodes.items) (server.connectNodes data nodes)
      (fun _ => Joining base rest data []) fun _ => True := by
  refine .forM fun item items ⟨before, hall⟩ => ?_
  have hitem : item.2.attributes.get? "pool" = none :=
    hnodes item (hall ▸ List.mem_append_right _ List.mem_cons_self)
  rw [hdata, hitem]
  refine (triple_insertEdge server (I := Joining base rest data (item :: items))
    (fun db n h => ⟨blind_linking base _ db n h.linking, h.connected, h.neighbours⟩)
    fun db key h => ?_).conseq (fun _ h => h) (fun _ _ h => h) fun _ _ => trivial
  refine ⟨h.linking.connect (h.neighbours item List.mem_cons_self) _ _, fun pk hpk => ?_,
    fun other hother => h.neighbours other (List.mem_cons_of_mem _ hother)⟩
  rw [if_neg (by simp), Database.connected_append]
  rcases h.connected pk hpk with hold | ⟨other, hother, rfl⟩
  · exact .inl (.inl hold)
  · rcases List.mem_cons.mp hother with rfl | hother
    · exact .inl (.inr ⟨rfl, rfl⟩)
    · exact .inr ⟨other, hother, rfl⟩

/-- Connected with all neighbours, with the attribute `update` to be set. -/
def Joined (base : Database ω) (rest : List (Document ω)) (data : Document ω) (update : Bool)
    (db : Database ω) : Prop :=
  Joining base rest data [] db ∧ (update = true ↔ base.Missing (Collection.agent.id data))

theorem Joined.settled {update : Bool} (h : Joined base rest data update db) {doc : Document ω}
    (hkey : doc.key = data.key) (hupdate : doc.attribute "update" = .bool update) :
    Settled base db doc := by
  have hid : Collection.agent.id doc = Collection.agent.id data := by
    rw [Collection.id, Collection.id, hkey]
  refine ⟨fun pk hpk => ?_, ?_, ?_⟩
  · rw [hid] at hpk ⊢
    exact (h.1.connected pk hpk).resolve_right fun ⟨item, hitem, _⟩ => nomatch hitem
  · rw [hid, hupdate, Value.bool.injEq]
    exact h.2
  · rw [hid, hupdate, Value.bool.injEq, ← h.2, Bool.not_eq_true]

/-- The attribute is as it is to be. -/
theorem Joined.keep {update : Bool} (h : Joined base rest data update db)
    (hupdate : data.attribute "update" = .bool update) : Linking base rest db where
  __ := h.1.linking
  waiting other hother := h.1.linking.waiting other (List.mem_cons_of_mem _ hother)
  settled doc hdoc hrest := by
    by_cases heq : doc = data
    · exact h.settled (congrArg _ heq) (heq ▸ hupdate)
    · exact h.1.linking.settled doc hdoc fun hmem =>
        (List.mem_cons.mp hmem).elim heq hrest

/-- The attribute is set; the documents of other agents stay. -/
theorem Joined.set {update : Bool} (h : Joined base rest data update db)
    (hrest : ∀ other ∈ rest, other.key ≠ data.key) :
    Linking base rest (db.setDocuments .agent
      ((db.documents .agent).map (data.setUpdate update).merge)) := by
  have hlinking := h.1.linking
  have hdata := hlinking.waiting data List.mem_cons_self
  refine ⟨frame_sameTopology.trans hlinking.topology (sameTopology_setDocuments _),
    (map_key_merge _ _).trans hlinking.keys, hlinking.nodup, ?_, hlinking.virtual,
    hlinking.sound, fun other hother => ?_, fun doc hdoc hnot => ?_⟩
  · intro doc hdoc
    obtain ⟨old, hold, rfl⟩ := List.mem_map.mp hdoc
    exact pool_merge_setUpdate (hlinking.pools data hdata) (hlinking.pools old hold) update
  · exact List.mem_map.mpr ⟨other, hlinking.waiting other (List.mem_cons_of_mem _ hother),
      if_neg (hrest other hother)⟩
  · obtain ⟨old, hold, rfl⟩ := List.mem_map.mp hdoc
    by_cases hkey : old.key = data.key
    · exact (h.settled ((Document.key_merge _ old).trans hkey)
        (attribute_merge_setUpdate hkey update)).mono fun _ _ h => h
    · have hsame : (data.setUpdate update).merge old = old := if_neg hkey
      rw [hsame] at hnot ⊢
      refine (hlinking.settled old hold fun hmem => ?_).mono fun _ _ h => h
      rcases List.mem_cons.mp hmem with rfl | hmem
      · exact hkey rfl
      · exact hnot hmem

/-- A round settles its agent. -/
theorem triple_round (hserver : server.FindsNeighbours)
    (hdata : data.attributes.get? "pool" = none) (hrest : ∀ other ∈ rest, other.key ≠ data.key) :
    Triple (Linking base (data :: rest)) (server.updateNeighbours data)
      (fun _ => Linking base rest) fun _ => True := by
  refine triple_updateNeighbours server (blind_linking base _) (fun _ _ => trivial)
    (J := Joined base rest data) (K := fun _ => Linking base rest) (fun found nodes => ?_)
    (fun update db hupdate h => h.keep hupdate) (fun update _ => ?_)
    (fun pool hpool => ?_) fun _ _ _ h => h
  · refine .pre (P := fun db =>
      ((∀ item ∈ nodes.items, item.2.attributes.get? "pool" = none) ∧
        ((Server.collect found).2 = true ↔ base.Missing (Collection.agent.id data))) ∧
      Joining base rest data nodes.items db) (.assume fun ⟨hnodes, hmissing⟩ => ?_) ?_
    · exact (triple_connectNodes_joining server hdata nodes hnodes).post fun _ db h =>
        ⟨h, hmissing⟩
    · rintro db ⟨hfound, rfl, h⟩
      obtain ⟨-, hmissing, hagents⟩ := h.answer hserver hfound
      refine ⟨⟨fun item hitem => ?_, Server.collect_snd.trans hmissing⟩,
        h.joining hserver hfound⟩
      have hitem := (Server.mem_popTargets.mp (Server.mem_popTargets.mp hitem).1).1
      exact h.pools _ (hagents _ (Server.mem_collect hitem).1)
  · have hblind : Blind (Joined base rest data update) := fun db n h =>
      ⟨⟨blind_linking base _ db n h.1.linking, h.1.connected, h.1.neighbours⟩, h.2⟩
    exact (triple_update server hblind fun db h => h.set hrest).conseq (fun _ h => h)
      (fun _ _ h => h) fun _ _ => trivial
  · rw [hdata] at hpool
    cases hpool

/-- The loop settles all agents that are to be updated. -/
theorem triple_updateAgents_linking (hserver : server.FindsNeighbours) :
    Triple (fun db => Linking base
        ((db.documents .agent).filter fun doc => doc.attribute "update" = .bool true) db)
      server.updateAgents (fun _ => Linking base []) fun _ => True := by
  have hfind := triple_find server (I := fun db => Linking base
    ((db.documents .agent).filter fun doc => doc.attribute "update" = .bool true) db)
    (fun db n h => blind_linking base _ db n h) .agent
    fun doc => doc.attribute "update" = .bool true
  refine .bind (Q := fun docs db =>
    ((∀ doc ∈ docs, doc.attributes.get? "pool" = none) ∧ (docs.map Document.key).Nodup) ∧
      Linking base docs db)
    (hfind.conseq (fun _ h => h) ?_ fun _ _ => trivial) fun docs =>
      .assume fun ⟨hpools, hkeys⟩ => ?_
  · rintro docs db ⟨rfl, h⟩
    refine ⟨⟨fun doc hdoc => h.pools doc (List.mem_filter.mp hdoc).1, ?_⟩, h⟩
    have hnodup := h.nodup
    rw [← h.keys] at hnodup
    exact hnodup.sublist (List.filter_sublist.map _)
  · refine .forM fun data rest ⟨before, hall⟩ => ?_
    have hmem : data ∈ docs := hall ▸ List.mem_append_right _ List.mem_cons_self
    refine triple_round hserver (hpools data hmem) fun other hother heq => ?_
    rw [← hall, List.map_append, List.map_cons] at hkeys
    exact (List.nodup_cons.mp (List.nodup_append.mp hkeys).2.1).1
      (heq ▸ List.mem_map_of_mem hother)

end Round

end Iams.Arango
