/-
Iams.Arango.Database — the database that `iams/utils/arangodb.py` works on.

A document has a key and other attributes, and a document of an edge
collection its two ends as well. `Server` is what the database decides by
itself: which requests fail, the keys of documents that are inserted
without one, and what traversals find. Each method of a collection is a
`Proc`, a program that changes the database and may raise.

No `sorry`, no `axiom`, no `native_decide`.
-/
import Iams.Lib.Dict
import Iams.Lib.Procedure

namespace Iams.Arango

open Iams.Lib

/-! ## Documents -/

/-- A value of an attribute; numbers are of any type. -/
inductive Value (ω : Type) where
  | null
  | bool (b : Bool)
  | number (w : ω)
  | str (s : String)
  | list (l : List String)
  deriving DecidableEq, Repr

structure Document (ω : Type) where
  key : String
  attributes : Dict String (Value ω)

/-- `source` and `target` are `_from` and `_to`. -/
structure EdgeDocument (ω : Type) where
  key : String
  source : String
  target : String
  attributes : Dict String (Value ω)

variable {ω : Type}

/-- An attribute in AQL, where one that is missing is `null`. -/
def Document.attribute (doc : Document ω) (name : String) : Value ω :=
  (doc.attributes.get? name).getD .null

inductive Collection where
  | agent
  | topology
  deriving DecidableEq, Repr

def Collection.name : Collection → String
  | agent => "agent"
  | topology => "topology"

inductive EdgeCollection where
  | directed
  | symmetric
  | logical
  | virtual
  deriving DecidableEq, Repr

/-- `_id` -/
def Collection.id (c : Collection) (doc : Document ω) : String := c.name ++ "/" ++ doc.key

/-- `requests` numbers the requests and `merged` records whether a pool has
been merged into another one; neither is part of what is stored. -/
structure Database (ω : Type) where
  documents : Collection → List (Document ω)
  edges : EdgeCollection → List (EdgeDocument ω)
  requests : Nat := 0
  merged : Bool := false

namespace Database

variable (db : Database ω)

def setDocuments (c : Collection) (docs : List (Document ω)) : Database ω :=
  { db with documents := Function.update db.documents c docs }

def setEdges (c : EdgeCollection) (docs : List (EdgeDocument ω)) : Database ω :=
  { db with edges := Function.update db.edges c docs }

end Database

/-! ## The client -/

/-- Exceptions of the driver, by the operation that fails. -/
inductive Error where
  | aqlQueryExecute
  | documentInsert
  | documentUpdate
  | documentDelete
  | keyError (key : String)
  | other (text : String)
  deriving DecidableEq, Repr

/-- Code that talks to the database. -/
abbrev Proc (ω : Type) := Procedure (Database ω) Error

/-- What the database decides. `fault` is the error of the request with
this number, if it fails, and `newKey` a key that is made for it. The
others are what the traversals find, where `none` is a query that fails:
the agents that `delete_agent` is to mark, its connections, and the
neighbours, pools and virtual neighbours that `update_agents` asks for. -/
structure Server (ω : Type) where
  fault : Nat → Option Error
  newKey : Nat → String
  related : Database ω → String → Option (List String)
  connections : Database ω → String → Option (List String)
  neighbours : Database ω → String → Option (List (Option (Document ω)))
  pools : Database ω → String → Value ω → Option (List (Document ω))
  outbound : Database ω → String → Value ω → Option (List (Document ω))
  inbound : Database ω → String → Value ω → Option (List (Document ω))

namespace Server

variable (server : Server ω)

/-- A request, with its number. -/
def request : Proc ω Nat := do
  let db ← get
  modify fun db => { db with requests := db.requests + 1 }
  match server.fault db.requests with
  | some e => throw e
  | none => return db.requests

/-- `collection.insert` of a document, and its key -/
def insert (c : Collection) (key : Option String) (attributes : List (String × Value ω)) :
    Proc ω String := do
  let number ← server.request
  let key := key.getD (server.newKey number)
  if ((← get).documents c).any fun doc => doc.key = key then throw .documentInsert
  modify fun db =>
    db.setDocuments c (db.documents c ++ [{ key, attributes := Dict.empty.update attributes }])
  return key

/-- `collection.insert` of an edge -/
def insertEdge (c : EdgeCollection) (source target : String)
    (attributes : List (String × Value ω)) : Proc ω Unit := do
  let number ← server.request
  let key := server.newKey number
  if ((← get).edges c).any fun doc => doc.key = key then throw .documentInsert
  modify fun db => db.setEdges c
    (db.edges c ++ [{ key, source, target, attributes := Dict.empty.update attributes }])

/-- `collection.get` -/
def find? (c : Collection) (key : String) : Proc ω (Option (Document ω)) := do
  let _ ← server.request
  return ((← get).documents c).find? fun doc => doc.key = key

/-- `collection.find` -/
def find (c : Collection) (p : Document ω → Bool) : Proc ω (List (Document ω)) := do
  let _ ← server.request
  return ((← get).documents c).filter p

/-- `collection.find` of edges -/
def findEdges (c : EdgeCollection) (p : EdgeDocument ω → Bool) :
    Proc ω (List (EdgeDocument ω)) := do
  let _ ← server.request
  return ((← get).edges c).filter p

/-- `collection.update`, where what the document does not have is kept -/
def update (c : Collection) (doc : Document ω) : Proc ω Unit := do
  let _ ← server.request
  if ¬ ((← get).documents c).any fun old => old.key = doc.key then throw .documentUpdate
  modify fun db => db.setDocuments c ((db.documents c).map fun old =>
    if old.key = doc.key then
      { old with attributes := old.attributes.update doc.attributes.items } else old)

/-- `collection.update` of an edge -/
def updateEdge (c : EdgeCollection) (doc : EdgeDocument ω) : Proc ω Unit := do
  let _ ← server.request
  if ¬ ((← get).edges c).any fun old => old.key = doc.key then throw .documentUpdate
  modify fun db => db.setEdges c ((db.edges c).map fun old =>
    if old.key = doc.key then
      { doc with attributes := old.attributes.update doc.attributes.items } else old)

/-- `collection.delete` -/
def delete (c : Collection) (key : String) : Proc ω Unit := do
  let _ ← server.request
  if ¬ ((← get).documents c).any fun doc => doc.key = key then throw .documentDelete
  modify fun db => db.setDocuments c ((db.documents c).filter fun doc => doc.key ≠ key)

/-- `aql.execute` of a query that reads -/
def query {α : Type} (result : Database ω → Option α) : Proc ω α := do
  let _ ← server.request
  match result (← get) with
  | some a => return a
  | none => throw .aqlQueryExecute

/-- `aql.execute` of a query that changes the database; one that fails
changes nothing -/
def execute (result : Database ω → Option (Database ω)) : Proc ω Unit := do
  let _ ← server.request
  match result (← get) with
  | some db => set db
  | none => throw .aqlQueryExecute

/-- No request fails and no traversal finds anything. -/
def quiet : Server ω where
  fault _ := none
  newKey n := String.ofList (List.replicate n '0')
  related _ _ := some []
  connections _ _ := some []
  neighbours _ _ := some []
  pools _ _ _ := some []
  outbound _ _ _ := some []
  inbound _ _ _ := some []

end Server

def Database.empty : Database ω where
  documents _ := []
  edges _ := []

end Iams.Arango
