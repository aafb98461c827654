/-
Iams.Arango.Rules — the methods of a collection, as rules for
preconditions and postconditions.

A condition is `Blind` to the number of requests. Every request may fail,
and then leaves all as it was; so the condition that a call starts from is
also what holds when it raises, and a rule says what holds when it returns.

No `sorry`, no `axiom`, no `native_decide`.
-/
import Iams.Arango.Topology
import Iams.Lib.Triple

namespace Iams.Arango

open Iams.Lib Iams.Lib.Procedure

variable {ω : Type}

/-- The number of requests does not count. -/
def Blind (I : Database ω → Prop) : Prop := ∀ db n, I db → I { db with requests := n }

variable {I : Database ω → Prop} {α : Type}

/-- The two agents of a connection. -/
def EdgeDocument.ends (e : EdgeDocument ω) : String × String := (e.source, e.target)

@[simp] theorem Database.edges_setEdges (db : Database ω) (c : EdgeCollection)
    (docs : List (EdgeDocument ω)) : (db.setEdges c docs).edges c = docs :=
  Function.update_self _ _ _

theorem Database.edges_setEdges_of_ne (db : Database ω) {c c' : EdgeCollection} (h : c' ≠ c)
    (docs : List (EdgeDocument ω)) : (db.setEdges c docs).edges c' = db.edges c' :=
  Function.update_of_ne h _ _

section Rules

variable (server : Server ω)

theorem triple_request (hI : Blind I) : Triple I server.request (fun _ => I) I := by
  refine .bind (.get (Q := fun s s' => s' = s ∧ I s) fun s hs => ⟨rfl, hs⟩) fun db => ?_
  refine .bind (Q := fun _ => I) (.modify ?_) fun _ => ?_
  · rintro _ ⟨rfl, hs⟩
    exact hI _ _ hs
  · split
    · exact .throw fun _ hs => hs
    · exact .pure fun _ hs => hs

/-- A request, and what follows it. -/
theorem triple_request_bind (hI : Blind I) {f : Nat → Proc ω α} {Q : α → Database ω → Prop}
    (hf : ∀ n, Triple I (f n) Q I) : Triple I (server.request >>= f) Q I :=
  .bind (triple_request server hI) hf

theorem triple_find (hI : Blind I) (c : Collection) (p : Document ω → Bool) :
    Triple I (server.find c p) (fun docs db => docs = (db.documents c).filter p ∧ I db) I :=
  triple_request_bind server hI fun _ => fun _ hs => ⟨rfl, hs⟩

theorem triple_find? (hI : Blind I) (c : Collection) (key : String) :
    Triple I (server.find? c key)
      (fun found db => found = (db.documents c).find? (fun doc => doc.key = key) ∧ I db) I :=
  triple_request_bind server hI fun _ => fun _ hs => ⟨rfl, hs⟩

theorem triple_findEdges (hI : Blind I) (c : EdgeCollection) (p : EdgeDocument ω → Bool) :
    Triple I (server.findEdges c p) (fun docs db => docs = (db.edges c).filter p ∧ I db) I :=
  triple_request_bind server hI fun _ => fun _ hs => ⟨rfl, hs⟩

theorem triple_query (hI : Blind I) (result : Database ω → Option α) :
    Triple I (server.query result) (fun a db => result db = some a ∧ I db) I := by
  refine triple_request_bind server hI fun _ => ?_
  refine .bind (.get (Q := fun s s' => s' = s ∧ I s) fun s hs => ⟨rfl, hs⟩) fun db => ?_
  split
  · next a ha =>
    refine .pure ?_
    rintro _ ⟨rfl, hs⟩
    exact ⟨ha, hs⟩
  · exact .throw fun _ hs => hs.1 ▸ hs.2

theorem triple_execute (hI : Blind I) {result : Database ω → Option (Database ω)}
    {Q : Database ω → Prop} (h : ∀ db db', I db → result db = some db' → Q db') :
    Triple I (server.execute result) (fun _ => Q) I := by
  refine triple_request_bind server hI fun _ => ?_
  refine .bind (.get (Q := fun s s' => s' = s ∧ I s) fun s hs => ⟨rfl, hs⟩) fun db => ?_
  split
  · next db' hresult =>
    intro s hs
    exact h db db' (hs.1 ▸ hs.2) hresult
  · exact .throw fun _ hs => hs.1 ▸ hs.2

theorem triple_insert (hI : Blind I) {c : Collection} {key : Option String}
    {attributes : List (String × Value ω)} {Q : String → Database ω → Prop}
    (h : ∀ db k, I db → (∀ k', key = some k' → k = k') → (∀ doc ∈ db.documents c, doc.key ≠ k) →
      Q k (db.setDocuments c
        (db.documents c ++ [{ key := k, attributes := Dict.empty.update attributes }]))) :
    Triple I (server.insert c key attributes) Q I := by
  refine triple_request_bind server hI fun n => .guarded (fun _ hs => hs) ?_
  rintro db ⟨hnew, hs⟩
  refine h db _ hs (fun k' hk' => by rw [hk', Option.getD_some]) fun doc hdoc heq => hnew ?_
  exact List.any_eq_true.mpr ⟨doc, hdoc, decide_eq_true heq⟩

theorem triple_insertEdge (hI : Blind I) {c : EdgeCollection} {source target : String}
    {attributes : List (String × Value ω)} {Q : Database ω → Prop}
    (h : ∀ db key, I db → Q (db.setEdges c
      (db.edges c ++ [{ key, source, target, attributes := Dict.empty.update attributes }]))) :
    Triple I (server.insertEdge c source target attributes) (fun _ => Q) I :=
  triple_request_bind server hI fun n => .guarded (fun _ hs => hs)
    fun db hs => h db (server.newKey n) hs.2

/-- The document that `collection.update` leaves for another one. -/
def Document.merge (doc old : Document ω) : Document ω :=
  if old.key = doc.key then { old with attributes := old.attributes.update doc.attributes.items }
  else old

theorem triple_update (hI : Blind I) {c : Collection} {doc : Document ω} {Q : Database ω → Prop}
    (h : ∀ db, I db → Q (db.setDocuments c ((db.documents c).map doc.merge))) :
    Triple I (server.update c doc) (fun _ => Q) I :=
  triple_request_bind server hI fun _ => .guarded (fun _ hs => hs) fun db hs => h db hs.2

/-- The same for an edge. -/
def EdgeDocument.merge (doc old : EdgeDocument ω) : EdgeDocument ω :=
  if old.key = doc.key then { doc with attributes := old.attributes.update doc.attributes.items }
  else old

theorem triple_updateEdge (hI : Blind I) {c : EdgeCollection} {doc : EdgeDocument ω}
    {Q : Database ω → Prop} (h : ∀ db, I db → Q (db.setEdges c ((db.edges c).map doc.merge))) :
    Triple I (server.updateEdge c doc) (fun _ => Q) I :=
  triple_request_bind server hI fun _ => .guarded (fun _ hs => hs) fun db hs => h db hs.2

theorem triple_delete (hI : Blind I) {c : Collection} {key : String} {Q : Database ω → Prop}
    (h : ∀ db, I db → Q (db.setDocuments c ((db.documents c).filter fun doc => doc.key ≠ key))) :
    Triple I (server.delete c key) (fun _ => Q) I :=
  triple_request_bind server hI fun _ => .guarded (fun _ hs => hs) fun db hs => h db hs.2

/-! ## The attribute `update` of an agent -/

@[simp] theorem Document.key_merge (doc old : Document ω) : (doc.merge old).key = old.key := by
  unfold Document.merge
  split <;> rfl

theorem map_key_merge (doc : Document ω) (docs : List (Document ω)) :
    (docs.map doc.merge).map Document.key = docs.map Document.key := by
  rw [List.map_map]
  exact List.map_congr_left fun old _ => doc.key_merge old

/-- `data["update"] = …` -/
def Document.setUpdate (doc : Document ω) (update : Bool) : Document ω :=
  { doc with attributes := doc.attributes.set "update" (.bool update) }

theorem attribute_merge_setUpdate {doc old : Document ω} (hkey : old.key = doc.key)
    (update : Bool) : ((doc.setUpdate update).merge old).attribute "update" = .bool update := by
  have hmem : ("update", Value.bool update) ∈ (doc.setUpdate update).attributes.items :=
    (Dict.get?_eq_some_iff _).mp (Dict.get?_set_self _ _ _)
  have hmerge : (doc.setUpdate update).merge old = { old with
      attributes := old.attributes.update (doc.setUpdate update).attributes.items } := if_pos hkey
  rw [hmerge, Document.attribute,
    Dict.get?_update_of_mem _ (doc.setUpdate update).attributes.nodup hmem]
  rfl

theorem pool_merge_setUpdate {doc old : Document ω} (hdoc : doc.attributes.get? "pool" = none)
    (hold : old.attributes.get? "pool" = none) (update : Bool) :
    ((doc.setUpdate update).merge old).attributes.get? "pool" = none := by
  have hget : (doc.setUpdate update).attributes.get? "pool" = none := by
    rw [Document.setUpdate, Dict.get?_set_of_ne _ _ (by decide)]
    exact hdoc
  unfold Document.merge
  split
  · refine (Dict.get?_update_of_notMem _ _ fun hmem => ?_).trans hold
    rw [Dict.mem_keys_iff, hget] at hmem
    cases hmem
  · exact hold

/-! ## One round of `update_agents` -/

variable [DecidableEq ω]

/-- The connections that are made for an agent. -/
def Server.connectNodes (data : Document ω) (nodes : Dict String (Document ω)) : Proc ω Unit :=
  nodes.items.forM fun item =>
    server.insertEdge
      (if (data.attributes.get? "pool").isSome || (item.2.attributes.get? "pool").isSome
        then .virtual else .logical)
      (Collection.agent.id data) (Collection.agent.id item.2) []

/-- The agents among `found` that `data` is not connected with. -/
def Database.unconnected (data : Document ω) (found : List (Option (Document ω)))
    (db : Database ω) : Dict String (Document ω) :=
  Server.popTargets
    (Server.popTargets (Server.collect found).1
      ((db.edges .logical).filter fun e => e.source = Collection.agent.id data))
    ((db.edges .virtual).filter fun e => e.source = Collection.agent.id data)

/-- The query for the neighbours is answered so, by the database as it is. -/
def Server.Answers (server : Server ω) (data : Document ω) (found : List (Option (Document ω)))
    (db : Database ω) : Prop :=
  ∃ n, server.neighbours { db with requests := n } (Collection.agent.id data) = some found

/-- The connections come first, then the attribute `update`, then a pool. -/
theorem triple_updateNeighbours (hI : Blind I) {E : Database ω → Prop} (hE : ∀ db, I db → E db)
    {J K : Bool → Database ω → Prop} {R : Database ω → Prop} {data : Document ω}
    (hconnect : ∀ found nodes, Triple
      (fun db => server.Answers data found db ∧ nodes = db.unconnected data found ∧ I db)
      (server.connectNodes data nodes) (fun _ => J (Server.collect found).2) E)
    (hkeep : ∀ update db, data.attribute "update" = .bool update → J update db → K update db)
    (hupdate : ∀ update, data.attribute "update" ≠ .bool update → Triple (J update)
      (server.update .agent (data.setUpdate update)) (fun _ => K update) E)
    (hjoin : ∀ pool, data.attributes.get? "pool" = some pool →
      Triple (K false) (server.joinPool data pool) (fun _ => R) E)
    (hdone : ∀ update db, (update = true ∨ data.attributes.get? "pool" = none) → K update db →
      R db) :
    Triple I (server.updateNeighbours data) (fun _ => R) E := by
  have hfind {I' : Database ω → Prop} (hI' : Blind I') (h : ∀ db, I' db → I db)
      (c : EdgeCollection) (p : EdgeDocument ω → Bool) :=
    (triple_findEdges server hI' c p).conseq (fun _ h => h) (fun _ _ h => h)
      fun db hdb => hE db (h db hdb)
  refine .bind (Q := fun found db => server.Answers data found db ∧ I db) ?_ fun found => ?_
  · refine (triple_query server hI _).conseq (fun _ h => h) (fun _ db h => ?_) hE
    exact ⟨⟨db.requests, h.1⟩, h.2⟩
  have hanswers : Blind fun db => server.Answers data found db ∧ I db :=
    fun db n h => ⟨h.1, hI db n h.2⟩
  refine .bind (hfind hanswers (fun _ h => h.2) _ _) fun logical => ?_
  refine .bind (hfind (fun db n h => ⟨h.1, hanswers db n h.2⟩) (fun _ h => h.2.2) _ _)
    fun connected => ?_
  have hloop : Triple (fun db =>
      connected = (db.edges .virtual).filter (fun e => e.source = Collection.agent.id data) ∧
        logical = (db.edges .logical).filter (fun e => e.source = Collection.agent.id data) ∧
          server.Answers data found db ∧ I db)
      (server.connectNodes data (Server.popTargets
        (Server.popTargets (Server.collect found).1 logical) connected))
      (fun _ => J (Server.collect found).2) E := by
    refine (hconnect found _).pre ?_
    rintro db ⟨rfl, rfl, h, hdb⟩
    exact ⟨h, rfl, hdb⟩
  have hattribute {β : Type} {next : Proc ω β} {R : β → Database ω → Prop}
      (hnext : Triple (K (Server.collect found).2) next R E) :
      Triple (J (Server.collect found).2)
        (if data.attribute "update" ≠ .bool (Server.collect found).2 then
          server.update .agent { data with
            attributes := data.attributes.set "update" (.bool (Server.collect found).2) } >>=
              fun _ => next
        else next) R E := by
    split
    · next hne => exact .bind (hupdate _ hne) fun _ => hnext
    · next heq => exact hnext.pre fun db h => hkeep _ db (not_not.mp heq) h
  split
  · next pool hcollect hpool =>
    refine .bind hloop fun _ => hattribute ?_
    rw [hcollect]
    exact hjoin pool hpool
  · next h =>
    refine .bind hloop fun _ => hattribute (.pure fun db hdb => hdone _ db ?_ hdb)
    by_contra hno
    rw [not_or, Bool.not_eq_true] at hno
    obtain ⟨pool, hpool⟩ := Option.ne_none_iff_exists'.mp hno.2
    exact h pool hno.1 hpool

end Rules

end Iams.Arango
