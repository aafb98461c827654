/-
Iams.Arango.Neighbours — which agents `update_agents` is to connect an agent
with.

Its query searches the topology from a vertex of the agent, along edges that
start there and symmetric ones, and goes on from vertices of this agent only
(`Database.Sees`). A vertex of another agent is answered with the document of
that agent, or with `None` where there is none (`Server.FindsNeighbours`).
`mem_collect` and `mem_popTargets` say what is left of the answer once the
agents are taken out that are connected already.

No `sorry`, no `axiom`, no `native_decide`.
-/
import Iams.Arango.Topology
import Iams.Lib.Overlay
import Iams.Lib.Traversal

namespace Iams.Arango

open Iams.Lib

variable {ω : Type}

/-! ## The query -/

namespace Database

variable (db : Database ω)

/-- `v.agent` for the vertex with this id; one that is missing has none. -/
def owner (id : String) : Value ω :=
  match (db.documents .topology).find? fun doc => Collection.topology.id doc = id with
  | some doc => doc.attribute "agent"
  | none => .null

/-- `OUTBOUND` along directed edges, and `ANY` along symmetric ones. -/
def next (id : String) : List String :=
  (db.edges .symmetric).filterMap (fun e => if e.source = id then some e.target else none) ++
    (db.edges .symmetric).filterMap (fun e => if e.target = id then some e.source else none) ++
    (db.edges .directed).filterMap fun e => if e.source = id then some e.target else none

theorem mem_next {u v : String} : v ∈ db.next u ↔
    (∃ e ∈ db.edges .symmetric,
      e.source = u ∧ e.target = v ∨ e.target = u ∧ e.source = v) ∨
    ∃ e ∈ db.edges .directed, e.source = u ∧ e.target = v := by
  simp only [next, List.mem_append, List.mem_filterMap, Option.ite_none_right_eq_some,
    Option.some.injEq]
  refine or_congr_left ?_
  constructor
  · rintro (⟨e, he, h⟩ | ⟨e, he, h⟩)
    · exact ⟨e, he, .inl h⟩
    · exact ⟨e, he, .inr h⟩
  · rintro ⟨e, he, h | h⟩
    · exact .inl ⟨e, he, h⟩
    · exact .inr ⟨e, he, h⟩

/-- `LET agent = (FOR doc IN agent FILTER doc._id == v.agent LIMIT 1 RETURN doc)[0]` -/
def agentAt [DecidableEq ω] (v : String) : Option (Document ω) :=
  (db.documents .agent).find? fun doc => db.owner v = .str (Collection.agent.id doc)

/-- `LET edge = (FOR doc IN topology FILTER doc.agent == '…' LIMIT 1 RETURN doc._id)[0]` -/
def firstVertex [DecidableEq ω] (pk : String) : Option (Document ω) :=
  (db.documents .topology).find? fun doc => doc.attribute "agent" = .str pk

/-- The vertices `1..100 OUTBOUND edge ANY symmetric, directed` of others. -/
def Sees [DecidableEq ω] (pk v : String) : Prop :=
  ∃ doc ∈ db.firstVertex pk, Border (fun u w => w ∈ db.next u)
    (fun u => db.owner u = .str pk) (Collection.topology.id doc) 100 v

/-- The same by a search. -/
def seen [DecidableEq ω] (pk : String) : List String :=
  match db.firstVertex pk with
  | none => []
  | some doc =>
    let start := Collection.topology.id doc
    (search db.next (fun u => db.owner u = .str pk) 100 [start] [start]).filter
      fun v => db.owner v ≠ .str pk

theorem mem_seen [DecidableEq ω] {pk v : String} : v ∈ db.seen pk ↔ db.Sees pk v := by
  unfold seen Sees
  cases db.firstVertex pk with
  | none => simp
  | some doc =>
    simp only [List.mem_filter, decide_eq_true_eq, mem_search, Border, ne_eq, Option.mem_def,
      Option.some.injEq, exists_eq_left', and_comm]

end Database

/-- The traversal for the neighbours is answered. -/
def Server.FindsNeighbours [DecidableEq ω] (server : Server ω) : Prop :=
  ∀ db pk, ∃ found, server.neighbours db pk = some found ∧
    ∀ agent, agent ∈ found ↔ ∃ v, db.Sees pk v ∧ db.agentAt v = agent

/-! ## The traversals as searches -/

namespace Database

variable (db : Database ω) [DecidableEq ω]

def sources (c : EdgeCollection) (id : String) : List String :=
  (db.edges c).filterMap fun e => if e.target = id then some e.source else none

def targets (c : EdgeCollection) (id : String) : List String :=
  (db.edges c).filterMap fun e => if e.source = id then some e.target else none

def agent (id : String) : Option (Document ω) :=
  (db.documents .agent).find? fun doc => Collection.agent.id doc = id

/-- `v.pool == '…'` -/
def inPool (pool : Value ω) (id : String) : Bool :=
  (db.agent id).any fun doc => doc.attribute "pool" = pool

/-- `1..100 INBOUND '…' logical, virtual` with `v.pool_cls == '…'`, a text. -/
def poolsOf (id : String) (pool : Value ω) : List (Document ω) :=
  ((search (fun v => db.sources .logical v ++ db.sources .virtual v) (db.inPool pool) 100
    [id] [id]).filterMap db.agent).filter fun doc =>
    match doc.attribute "pool_cls" with
    | .str s => pool = .str s
    | _ => false

/-- `2..2` with a virtual edge last, to agents that are not in the pool. -/
def virtualNeighbours (first last : String → List String) (id : String) (pool : Value ω) :
    List (Document ω) :=
  ((((first id).flatMap last).dedup.filter fun v => v ≠ id ∧ v ∉ first id).filterMap
    db.agent).filter fun doc => doc.attribute "pool" ≠ pool

end Database

/-- No request fails, and the traversals of `update_agents` are searches. -/
def Server.searching [DecidableEq ω] : Server ω where
  __ := Server.quiet
  neighbours db pk := some ((db.seen pk).map db.agentAt)
  pools db pk pool := some (db.poolsOf pk pool)
  outbound db pk pool := some (db.virtualNeighbours
    (fun v => db.targets .logical v ++ db.targets .virtual v) (db.targets .virtual) pk pool)
  inbound db pk pool := some (db.virtualNeighbours
    (fun v => db.sources .logical v ++ db.sources .virtual v) (db.sources .virtual) pk pool)

theorem Server.findsNeighbours_searching [DecidableEq ω] :
    (Server.searching (ω := ω)).FindsNeighbours := by
  refine fun db pk => ⟨_, rfl, fun agent => ?_⟩
  rw [List.mem_map]
  exact exists_congr fun v => and_congr_left' (Database.mem_seen _)

/-! ## What is made of the answer -/

namespace Server

/-- A neighbour is collected under its id. -/
theorem mem_collect {found : List (Option (Document ω))} {item : String × Document ω}
    (h : item ∈ (collect found).1.items) :
    some item.2 ∈ found ∧ item.1 = Collection.agent.id item.2 := by
  induction found with
  | nil => cases h
  | cons first rest ih =>
    cases first with
    | none => exact (ih h).imp_left (List.mem_cons_of_mem _)
    | some doc =>
      obtain ⟨key, value⟩ := item
      rw [← Dict.get?_eq_some_iff, collect] at h
      by_cases hmem : key ∈ (collect rest).1.items.map Prod.fst
      · obtain ⟨item, hitem, rfl⟩ := List.mem_map.mp hmem
        rw [Dict.get?_update_of_mem _ (collect rest).1.nodup hitem] at h
        obtain rfl := Option.some.inj h
        exact (ih hitem).imp_left (List.mem_cons_of_mem _)
      · rw [Dict.get?_update_of_notMem _ _ hmem, Dict.get?_set] at h
        split at h
        · next hkey =>
          obtain rfl := Option.some.inj h
          exact ⟨List.mem_cons_self, hkey⟩
        · cases h

theorem mem_keys_collect {found : List (Option (Document ω))} {key : String} :
    key ∈ (collect found).1.items.map Prod.fst ↔
      ∃ doc, some doc ∈ found ∧ Collection.agent.id doc = key := by
  constructor
  · intro h
    obtain ⟨item, hitem, rfl⟩ := List.mem_map.mp h
    obtain ⟨hfound, hkey⟩ := mem_collect hitem
    exact ⟨item.2, hfound, hkey.symm⟩
  · rintro ⟨doc, hdoc, rfl⟩
    induction found with
    | nil => cases hdoc
    | cons first rest ih =>
      have hrest (h : some doc ∈ rest) : Collection.agent.id doc ∈ (collect rest).1.keys := ih h
      cases first with
      | none => exact hrest ((List.mem_cons.mp hdoc).resolve_left nofun)
      | some other =>
        show _ ∈ (Dict.update _ _).keys
        rw [Dict.keys_update, Dict.mem_foldl_addKey]
        rcases List.mem_cons.mp hdoc with hother | h
        · obtain rfl := Option.some.inj hother
          left
          rw [Dict.keys, Dict.mem_keys_iff, Dict.get?_set_self]
          rfl
        · exact .inr (hrest h)

theorem collect_snd {found : List (Option (Document ω))} :
    (collect found).2 = true ↔ none ∈ found := by
  induction found with
  | nil => simp [collect]
  | cons first rest ih =>
    cases first with
    | none => simp [collect]
    | some doc => simp [collect, ih]

theorem mem_popTargets {nodes : Dict String (Document ω)} {edges : List (EdgeDocument ω)}
    {item : String × Document ω} : item ∈ (popTargets nodes edges).items ↔
      item ∈ nodes.items ∧ ∀ e ∈ edges, e.target ≠ item.1 := by
  unfold popTargets
  induction edges generalizing nodes with
  | nil => simp
  | cons e rest ih =>
    rw [List.foldl_cons, ih, List.forall_mem_cons, ← and_assoc]
    refine and_congr_left' ?_
    rw [Dict.erase, List.mem_filter, decide_eq_true_iff, ne_comm]

end Server

end Iams.Arango
