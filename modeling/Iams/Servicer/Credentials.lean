/-
Iams.Servicer.Credentials — the `credentials` decorator in
`iams/utils/grpc.py` and the gRPC context it works on.

`credentials` returns functions: given a function it returns `wrapped`,
and given nothing it returns `decorator`. Which of the two a caller gets,
and that it is never `None`, is decided before anything is called, so a
`Value` records it. `wrapped` is what runs when a decorated method is
called.

Python code is a `Call`: it logs what it does to the context and to the
runtime, and it returns or raises. `context.abort` does both, it sets the
status of the RPC and raises an exception. Messages to the logger are left
out.

No `sorry`, no `axiom`, no `native_decide`.
-/

namespace Iams.Servicer

/-! ## What a servicer does -/

/-- `grpc.StatusCode`, as far as the servicer uses it. -/
inductive StatusCode where
  | invalidArgument
  | notFound
  | unauthenticated
  deriving DecidableEq, Repr

/-- `bytes` -/
abbrev Bytes := List UInt8

/-- `string.encode('utf-8')` -/
def encode (s : String) : Bytes := s.toUTF8.toList

/-- `x.decode('utf-8')`, where `none` stands for a `UnicodeDecodeError`. -/
def decode (x : Bytes) : Option String := String.fromUTF8? ⟨x.toArray⟩

/-- The message `AgentData`. A field that is not set has the default value
of its type. -/
structure AgentData where
  name : String := ""
  address : String := ""
  port : UInt32 := 0
  image : String := ""
  version : String := ""
  config : Bytes := []
  autostart : Bool := false
  constraints : List String := []
  preferences : List String := []
  deriving DecidableEq

/-- A call of `context.abort` or of a method of the runtime that changes
something. `update` is the argument of `update_agent`. -/
inductive Effect where
  | abort (code : StatusCode) (details : String)
  | updateAgent (request : AgentData) (update : Bool)
  | deleteAgent (name : String)
  | sleepAgent (name : String)
  | wakeAgent (name : String)
  deriving DecidableEq

/-- The runtime is asked to change something. -/
def Effect.mutates : Effect → Bool
  | .abort _ _ => false
  | _ => true

/-- Exceptions: the one that `abort` raises, Python's own, those of the
runtime, and any other one. `docker.errors.ImageNotFound` is a
`docker.errors.NotFound`. -/
inductive Raised where
  | aborted
  | attributeError
  | typeError
  | unicodeDecodeError
  | invalidAgentName
  | imageNotFound (text : String)
  | notFound (text : String)
  | other (text : String)
  deriving DecidableEq, Repr

/-- `except docker_errors.NotFound as exception` and `str(exception)`. -/
def Raised.notFound? : Raised → Option String
  | .imageNotFound text => some text
  | .notFound text => some text
  | _ => none

/-- Code that logs its effects and may raise. -/
abbrev Call := ExceptT Raised (StateM (List Effect))

/-- How a call ends, and what it has done until then. -/
def Call.outcome {α : Type} (call : Call α) : Except Raised α × List Effect := call.run.run []

/-- What a call does. -/
def Call.effects {α : Type} (call : Call α) : List Effect := call.outcome.2

def perform (e : Effect) : Call Unit := modify (· ++ [e])

/-! ## The context -/

/-- A gRPC context: the value of `peer_identities()`, where `none` stands
for `None`, and the attribute `credentials` where it is present and a
set. -/
structure Context where
  peerIdentities : Option (List Bytes)
  credentials : Option (List String) := none

/-- `context.abort(code, details)` -/
def Context.abort {α : Type} (_context : Context) (code : StatusCode) (details : String) :
    Call α := do
  perform (.abort code details)
  throw .aborted

/-- The Python values that `credentials` and `get_agent_name` pass on. A
`wrapped` value is the inner function of a decorator that was applied to
`func`. -/
inductive Value where
  | none
  | str (s : String)
  | set (names : List String)
  | context (context : Context)
  | wrapped (func : Value) (optional : Bool)
  | decorator (optional : Bool)

namespace Value

/-- `value is None` -/
def isNone : Value → Bool
  | .none => true
  | _ => false

/-- `bool(value)`; a context and a function are always true. -/
def truthy : Value → Bool
  | .none => false
  | .str s => s ≠ ""
  | .set names => !names.isEmpty
  | .context _ => true
  | .wrapped _ _ => true
  | .decorator _ => true

/-- `value.abort(code, details)`: only a context has this attribute. -/
def abort {α : Type} (code : StatusCode) (details : String) : Value → Call α
  | .context c => c.abort code details
  | _ => throw .attributeError

end Value

/-! ## The decorator -/

/-- `decorator(func)` inside `credentials`. -/
def decorator (optional : Bool) (func : Value) : Value := .wrapped func optional

/-- `credentials(function, optional)` -/
def credentials (function : Value) (optional : Bool) : Value :=
  if function.truthy then decorator optional function else .decorator optional

/-- The identities that are not the local host, decoded. -/
def decodeIdentities (identities : List Bytes) : Except Raised (List String) :=
  (identities.filter fun x =>
      x ≠ encode "127.0.0.1" && x ≠ encode "localhost").mapM fun x =>
    match decode x with
    | some name => .ok name
    | none => .error .unicodeDecodeError

/-- `wrapped(self, request, context)`, where `func` is the decorated
method. -/
def wrapped {ρ α : Type} (optional : Bool) (func : ρ → Context → Call α) (request : ρ)
    (context : Context) : Call α :=
  match context.credentials, context.peerIdentities with
  | some _, _ => func request context
  | none, some identities => do
    let names ← liftExcept (decodeIdentities identities)
    func request { context with credentials := some names }
  | none, none =>
    -- `None` cannot be iterated: a `TypeError`
    if optional then func request { context with credentials := some [] }
    else context.abort .unauthenticated "Client needs to be authentifacted"

end Iams.Servicer
