/-
Iams.Arango.Topology — `create_agent`, `delete_agent`, `update_agent` and
`update_agents` of `Arango` in `iams/utils/arangodb.py`.

The queries that change the topology are functions on the database; the
traversals in them are the server's. `inserts` is `create_agent` up to the
call of `update_agents`.

No `sorry`, no `axiom`, no `native_decide`.
-/
import Iams.Arango.Database

namespace Iams.Arango

open Iams.Lib

/-! ## Messages -/

/-- `Edge` in `proto/framework.proto` -/
structure Edge (ω : Type) where
  nodeFrom : String
  nodeTo : String
  agent : String
  weight : ω
  symmetric : Bool

/-- `Node` in `proto/framework.proto` -/
structure Node (ω : Type) where
  default : String
  pools : List String
  edges : List (Edge ω)
  abilities : List String

variable {ω : Type}

/-- `value is None`; a text that is not set reads as `''`. -/
def isNone (_ : String) : Bool := false

/-- `f"agent/{name}"` -/
def agentId (name : String) : String := "agent/" ++ name

/-- `f"{name}:{node}"` -/
def vertexKey (name node : String) : String := name ++ ":" ++ node

/-- `f"topology/{name}:{node}"` -/
def vertexId (name node : String) : String := "topology/" ++ vertexKey name node

def Edge.collection (edge : Edge ω) : EdgeCollection :=
  if edge.symmetric then .symmetric else .directed

def vertexAttributes (name : String) (default : Bool) : List (String × Value ω) :=
  [("agent", .str (agentId name)), ("default", .bool default)]

/-- The document of an agent. -/
def agentAttributes (node : Node ω) : List (String × Value ω) :=
  [("update", .bool true), ("abilities", .list node.abilities)] ++
    match node.pools with
    | [] => []
    | pool :: _ => [("pool", .str pool)]

namespace Server

variable (server : Server ω)

/-! ## `create_agent` -/

def insertVertex (name node : String) (default : Bool) : Proc ω Unit := do
  let _ ← server.insert .topology (some (vertexKey name node)) (vertexAttributes name default)

/-- A vertex that is not there yet, and the list `nodes` with it. -/
def addVertex (name : String) (nodes : List String) (node : String) : Proc ω (List String) := do
  server.insertVertex name node false
  return nodes ++ [node]

/-- `data["update"] = True` for an agent, if there is one. -/
def markAgent (name : String) : Proc ω Unit := do
  match ← server.find? .agent name with
  | none => pure ()
  | some data =>
    server.update .agent { data with attributes := data.attributes.set "update" (.bool true) }

/-- The end of the loop in `create_agent`. -/
def connect (name : String) (edge : Edge ω) : Proc ω Unit := do
  let weight := [("weight", Value.number edge.weight)]
  if edge.agent ≠ "" then
    server.insertEdge edge.collection (vertexId name edge.nodeFrom)
      (vertexId edge.agent edge.nodeTo) weight
    if edge.collection = .symmetric then server.markAgent edge.agent
  else
    server.insertEdge edge.collection (vertexId name edge.nodeFrom)
      (vertexId name edge.nodeTo) weight

/-- The loop in `create_agent`. -/
def addEdges (name : String) : List String → List (Edge ω) → Proc ω Unit
  | _, [] => pure ()
  | nodes, edge :: rest => do
    let nodes ←
      if edge.nodeFrom ∉ nodes then server.addVertex name nodes edge.nodeFrom else pure nodes
    let nodes ←
      if edge.nodeTo ∉ nodes ∧ isNone edge.agent then server.addVertex name nodes edge.nodeTo
      else pure nodes
    server.connect name edge
    addEdges name nodes rest

/-- `create_agent` before `update_agents` -/
def inserts (name : String) (node : Node ω) : Proc ω Unit := do
  let _ ← server.insert .agent (some name) (agentAttributes node)
  server.insertVertex name node.default true
  server.addEdges name [node.default] node.edges

/-! ## `update_agents` -/

/-- An edge without attributes, if there is none between the two. -/
def insertOnce (source target : String) : Proc ω Unit := do
  let edges ← server.findEdges .logical fun e => e.source = source && e.target = target
  if edges.length = 0 then server.insertEdge .logical source target []

/-- The connections of a pool go to another one. -/
def movePool (pool p : Document ω) : Proc ω Unit := do
  modify fun db => { db with merged := true }
  (← server.findEdges .logical fun e => e.source = Collection.agent.id p).forM fun edge =>
    server.updateEdge .logical { edge with source := Collection.agent.id pool }
  (← server.findEdges .logical fun e => e.target = Collection.agent.id p).forM fun edge =>
    server.updateEdge .logical { edge with target := Collection.agent.id pool }
  server.delete .agent p.key

/-- The pool that is kept; a new one has the key of a document that is
inserted for it. -/
def findPool (data : Document ω) (pool : Value ω) : Proc ω String := do
  match ← server.query fun db => server.pools db (Collection.agent.id data) pool with
  | first :: others =>
    others.forM (server.movePool first)
    return Collection.agent.id first
  | [] =>
    let key ← server.insert .agent none []
    let pool ← server.insert .agent (some ("pool-" ++ key))
      [("pool_cls", pool), ("color", .str "#444444")]
    server.delete .agent key
    return agentId pool

/-- The end of `update_agents`, for an agent with a pool. -/
def joinPool (data : Document ω) (pool : Value ω) : Proc ω Unit := do
  let id := Collection.agent.id data
  let poolId ← server.findPool data pool
  server.insertOnce poolId id
  server.insertOnce id poolId
  (← server.query fun db => server.outbound db poolId pool).forM fun node =>
    server.insertOnce poolId (Collection.agent.id node)
  (← server.query fun db => server.inbound db poolId pool).forM fun node =>
    server.insertOnce (Collection.agent.id node) poolId

/-- The neighbours that are found, and whether one is not there yet. -/
def collect : List (Option (Document ω)) → Dict String (Document ω) × Bool
  | [] => (.empty, false)
  | found :: rest => match found with
    | none => ((collect rest).1, true)
    | some doc => ((Dict.empty.set (Collection.agent.id doc) doc).update (collect rest).1.items,
        (collect rest).2)

/-- `nodes.pop(edge["_to"])`, where it is there. -/
def popTargets (nodes : Dict String (Document ω)) (edges : List (EdgeDocument ω)) :
    Dict String (Document ω) :=
  edges.foldl (fun nodes e => nodes.erase e.target) nodes

/-- The body of the loop in `update_agents`. -/
def updateNeighbours [DecidableEq ω] (data : Document ω) : Proc ω Unit := do
  let id := Collection.agent.id data
  let (nodes, update) := collect (← server.query fun db => server.neighbours db id)
  let nodes := popTargets nodes (← server.findEdges .logical fun e => e.source = id)
  let nodes := popTargets nodes (← server.findEdges .virtual fun e => e.source = id)
  nodes.items.forM fun item =>
    let pooled := (data.attributes.get? "pool").isSome || (item.2.attributes.get? "pool").isSome
    server.insertEdge (if pooled then .virtual else .logical) id (Collection.agent.id item.2) []
  if data.attribute "update" ≠ .bool update then
    server.update .agent { data with attributes := data.attributes.set "update" (.bool update) }
  match update, data.attributes.get? "pool" with
  | false, some pool => server.joinPool data pool
  | _, _ => pure ()

/-- `update_agents` -/
def updateAgents [DecidableEq ω] : Proc ω Unit := do
  (← server.find .agent fun doc => doc.attribute "update" = .bool true).forM
    server.updateNeighbours

/-- `create_agent` -/
def createAgent [DecidableEq ω] (name : String) (node : Node ω) : Proc ω Unit := do
  server.inserts name node
  server.updateAgents

/-! ## `delete_agent` and `update_agent` -/

variable [DecidableEq ω]

/-- `doc.agent == @agent` -/
def ofAgent (name : String) (doc : Document ω) : Bool := doc.attribute "agent" = .str (agentId name)

/-- `es._from == doc.id`; the attribute of a document is `_id`. -/
def startsAt (doc : Document ω) (e : EdgeDocument ω) : Bool := doc.attribute "id" = .str e.source

/-- The first query of `delete_agent`. -/
def deleteTopology (name : String) (db : Database ω) : Option (Database ω) := do
  let keys ← server.related db (agentId name)
  if ¬ keys.all fun key => (db.documents .agent).any fun doc => doc.key = key then none
  let docs := (db.documents .topology).filter (ofAgent name)
  let kept (e : EdgeDocument ω) := ¬ docs.any fun doc => startsAt doc e
  return (((db.setDocuments .agent ((db.documents .agent).map fun doc =>
        if doc.key ∈ keys then { doc with attributes := doc.attributes.set "update" (.bool true) }
        else doc)).setEdges .symmetric ((db.edges .symmetric).filter kept)).setEdges .directed
      ((db.edges .directed).filter kept)).setDocuments .topology
    ((db.documents .topology).filter fun doc => ¬ ofAgent name doc)

/-- The second query of `delete_agent`. -/
def deleteConnections (name : String) (db : Database ω) : Option (Database ω) := do
  let keys ← server.connections db (agentId name)
  if ¬ (db.documents .agent).any fun doc => doc.key = name then none
  let kept (e : EdgeDocument ω) := e.key ∉ keys
  return ((db.setEdges .logical ((db.edges .logical).filter kept)).setEdges .virtual
      ((db.edges .virtual).filter kept)).setDocuments .agent
    ((db.documents .agent).filter fun doc => doc.key ≠ name)

/-- `delete_agent` -/
def deleteAgent (name : String) (update : Bool) : Proc ω Bool := do
  server.execute (server.deleteTopology name)
  server.execute (server.deleteConnections name)
  if update then server.updateAgents
  return true

/-- `update_agent` -/
def updateAgent (name : String) (node : Node ω) : Proc ω Unit := do
  try
    let _ ← server.deleteAgent name false
  catch e =>
    if e = .aqlQueryExecute then pure () else throw e
  server.createAgent name node

end Server

end Iams.Arango
