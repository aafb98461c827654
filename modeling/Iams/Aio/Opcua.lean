/-
Iams.Aio.Opcua — `OPCUACoroutine` in `iams/aio/opcua.py`: the node caches,
the subscriptions, reading, writing and stopping.

Every method is run by whoever awaits it, so that the methods are cut at
their `await`s and share the fields of the coroutine. `Request` are the
coroutines of the client library that they await, `Client` is what they call
without one, and `OPCUACoroutine` has the fields that they read and change.

`time()` is not modelled: of what `asyncio.create_task` reports to the agent
only the number of nodes is kept.

No `sorry`, no `axiom`, no `native_decide`.
-/
import Iams.Lib.Dict
import Iams.Lib.Interleaving

namespace Iams.Aio.Opcua

open Iams.Lib Iams.Lib.Interleaving

variable {Node Value VariantType Subscription : Type}

/-- The `path` of a node: a list or a tuple of browse names, or a node id. -/
inductive Path where
  | browse (names : List String)
  | nodeid (id : String)
  deriving DecidableEq, Repr

/-- `DataValue(Variant(value, datatype))` -/
structure DataValue (Value VariantType : Type) where
  value : Value
  datatype : VariantType
  deriving DecidableEq, Repr

/-- What is handed to `subscribe_data_change`: a node, or the coroutine of a
`get_node` that nobody awaits. -/
inductive Target (Node : Type) where
  | node (node : Node)
  | coroutine (name : String) (path : Path)
  deriving DecidableEq, Repr

/-- The coroutines of the client library. -/
inductive Request (Node Value VariantType Subscription : Type) where
  | getChild (path : List String)
  | readValues (nodes : List Node)
  | writeValues (nodes : List Node) (values : List (DataValue Value VariantType))
  | createSubscription (interval : Nat)
  | subscribeDataChange (subscription : Subscription) (nodes : List (Target Node))
  | disconnect

/-- What they return. -/
abbrev Request.Reply : Request Node Value VariantType Subscription → Type
  | .getChild _ => Node
  | .readValues _ => List Value
  | .createSubscription _ => Subscription
  | .writeValues .. | .subscribeDataChange .. | .disconnect => Unit

/-- `KeyError`, `CancelledError`, and the exceptions of the client library. -/
inductive Raised where
  | keyError (key : Option String)
  | cancelled
  | client (message : String)
  deriving DecidableEq, Repr

/-- `self._client.get_node` -/
structure Client (Node : Type) where
  getNode : String → Except String Node

/-- `opcua_stats_read(len(nodes), …)` and `opcua_stats_write(len(nodes), …)` -/
inductive Stats where
  | read (reads : Nat)
  | write (writes : Nat)
  deriving DecidableEq, Repr

structure OPCUACoroutine (Node Subscription : Type) where
  nodes : Dict (Option String) Node
  paths : Dict (List String) Node
  subscriptions : Dict Nat Subscription
  /-- `self._stop.is_set()` -/
  stopped : Bool
  /-- The tasks made by `asyncio.create_task`. -/
  stats : List Stats

namespace OPCUACoroutine

/-- `OPCUACoroutine.__init__`, then `setup` -/
def setup : OPCUACoroutine Node Subscription := ⟨.empty, .empty, .empty, false, []⟩

variable (Node Value VariantType Subscription) in
/-- The code of a method that returns an `α`. -/
abbrev Method (α : Type) : Type :=
  Code (OPCUACoroutine Node Subscription)
    (@Request.Reply Node Value VariantType Subscription) Raised α

/-- Await a coroutine of the client library. -/
abbrev ask (request : Request Node Value VariantType Subscription) :
    Method Node Value VariantType Subscription request.Reply :=
  Code.ask request

/-- `get_node` for a path that is a list or a tuple -/
def getPath (path : List String) : Method Node Value VariantType Subscription Node := do
  let self ← Code.read
  match self.paths.get? path with
  | some node => pure node
  | none => do
    let node ← ask (.getChild path)
    Code.modify fun self => { self with paths := self.paths.set path node }
    pure node

/-- `get_node` for a name that is not known -/
def resolve (client : Client Node) : Path → Method Node Value VariantType Subscription Node
  | .browse path => getPath path
  | .nodeid id => match client.getNode id with
    | .ok node => pure node
    | .error message => throw (.client message)

/-- `get_node` -/
def getNode (client : Client Node) (name : Option String) (path : Option Path) :
    Method Node Value VariantType Subscription Node := do
  let self ← Code.read
  match self.nodes.get? name with
  | some node => pure node
  | none => match path with
    | none => throw (.keyError name)
    | some path => do
      let node ← resolve client path
      if name ≠ none then
        Code.modify fun self => { self with nodes := self.nodes.set name node }
      pure node

/-- `read_many` -/
def readMany (client : Client Node) (nodes : List Path) :
    Method Node Value VariantType Subscription (List Value) := do
  if nodes = [] then
    pure []
  else
    let nodes ← nodes.mapM' fun path => getNode client none (some path)
    let values ← ask (.readValues nodes)
    Code.modify fun self => { self with stats := self.stats ++ [.read nodes.length] }
    pure values

/-- `write_many`: `except Exception` lets a cancellation pass. -/
def writeMany (data : List (Node × Value × VariantType)) :
    Method Node Value VariantType Subscription Bool := do
  let nodes := data.map fun item => item.1
  let values := data.map fun item => ⟨item.2.1, item.2.2⟩
  if nodes = [] then
    pure true
  else
    let written ← tryCatch
      (do
        ask (.writeValues nodes values)
        pure true)
      fun
        | .cancelled => throw .cancelled
        | _ => pure false
    if written then
      Code.modify fun self => { self with stats := self.stats ++ [.write nodes.length] }
    pure written

/-- The `nodes` of `subscribe`: a dictionary of names, or anything else. -/
inductive Nodes (Node : Type) where
  | dict (nodes : Dict String Path)
  | list (nodes : List Node)

/-- `self.get_node(name, path)` of a dictionary is not awaited. -/
def Nodes.targets : Nodes Node → List (Target Node)
  | .dict nodes => nodes.items.map fun item => .coroutine item.1 item.2
  | .list nodes => nodes.map .node

/-- The subscription of an interval, made when there is none. -/
def subscription (interval : Nat) : Method Node Value VariantType Subscription Subscription := do
  let self ← Code.read
  match self.subscriptions.get? interval with
  | some subscription => pure subscription
  | none => do
    let subscription ← ask (.createSubscription interval)
    Code.modify fun self =>
      { self with subscriptions := self.subscriptions.set interval subscription }
    pure subscription

/-- `subscribe` -/
def subscribe (nodes : Nodes Node) (interval : Nat) :
    Method Node Value VariantType Subscription Unit := do
  let subscription ← subscription interval
  ask (.subscribeDataChange subscription nodes.targets)

/-- `stop` -/
def stop : Method Node Value VariantType Subscription Unit := do
  let self ← Code.read
  if self.stopped then
    pure ()
  else
    tryCatch (ask .disconnect) fun
      | .cancelled => throw .cancelled
      | _ => pure ()
    Code.modify fun self => { self with stopped := true }

end OPCUACoroutine

/-! ## Calls -/

open OPCUACoroutine

inductive Call (Node Value VariantType : Type) where
  | getNode (name : Option String) (path : Option Path)
  | readMany (nodes : List Path)
  | writeMany (data : List (Node × Value × VariantType))
  | subscribe (nodes : Nodes Node) (interval : Nat)
  | stop

abbrev Call.Result : Call Node Value VariantType → Type
  | .getNode .. => Node
  | .readMany _ => List Value
  | .writeMany _ => Bool
  | .subscribe .. | .stop => Unit

/-- What a call runs. -/
def Call.code (client : Client Node) :
    (call : Call Node Value VariantType) →
      Method Node Value VariantType Subscription (call.Result)
  | .getNode name path => OPCUACoroutine.getNode client name path
  | .readMany nodes => OPCUACoroutine.readMany client nodes
  | .writeMany data => OPCUACoroutine.writeMany data
  | .subscribe nodes interval => OPCUACoroutine.subscribe nodes interval
  | .stop => OPCUACoroutine.stop

variable (Node Value VariantType Subscription) in
/-- The event loop with the calls of one coroutine. -/
abbrev Loop : Type :=
  System (OPCUACoroutine Node Subscription) (@Request.Reply Node Value VariantType Subscription)
    Raised (@Call.Result Node Value VariantType)

end Iams.Aio.Opcua
