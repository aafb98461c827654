/-
Iams.Aio.Pool — the channels of `GRPCCoroutine` in `iams/aio/grpc.py`.

`objects` holds every `Channel` there has been and `instances` every
channel of grpc; `channels` is the dictionary, from keys to objects. A
context of `channel` or `stub` is cut at its `await`s: it may be
`acquiring` while `_channel` closes an instance that is to be replaced, it
is `inside` its body, and it may be `releasing` while the instance is
closed in the end. An instance counts as closed from the call of `close`
on.

`stub` differs from `channel` in what it yields, and in what it does with
a `KeyError`. The stub for a class is the instance it was built on.

No `sorry`, no `axiom`, no `native_decide`.
-/
import Iams.Lib.Dict
import Iams.Lib.Transition

namespace Iams.Aio

open Iams.Lib

namespace Pool

/-- Options of a grpc channel; a value may be `None`. -/
abbrev Options (ν : Type) := Dict String (Option ν)

/-- `grpc.aio.insecure_channel` or `secure_channel`, with the object it was
created for. -/
structure Instance (ν : Type) where
  channel : Nat
  options : Options ν
  closed : Bool := false

/-- `inst` is `instance`, and `stubs` says for each class on which instance
its stub was built. -/
structure Channel (ν : Type) where
  key : String
  persistent : Bool
  options : Options ν := .empty
  stubs : Dict String Nat := .empty
  inst : Option Nat := none
  connections : Int := 0

/-- What the body of a context is given: the stub, for a context of `stub`,
and the instance of the channel at that moment, whether it was open, and
whether the class was in `stubs` already. -/
structure Body where
  stub : Option Nat
  current : Nat
  wasOpen : Bool
  cached : Bool
  deriving DecidableEq, Repr

inductive Phase where
  | acquiring
  | inside (body : Body)
  | releasing
  | left
  | keyError
  deriving DecidableEq, Repr

/-- The context is in its body. -/
def Phase.isInside : Phase → Bool
  | .inside _ => true
  | _ => false

/-- The context is on its way into its body or in it. -/
def Phase.isActive : Phase → Bool
  | .acquiring | .inside _ => true
  | _ => false

/-- A context of `channel`, or of `stub` for a class. -/
structure Context where
  key : String
  channel : Nat
  stub : Option String
  phase : Phase

/-- The arguments of `channel` and `stub`. Options that are not a
dictionary are ignored. -/
structure Request (ν : Type) where
  hostname : Option String
  port : Nat
  persistent : Bool
  options : Option (Options ν)
  stub : Option String

end Pool

open Pool

structure GRPCCoroutine (ν : Type) where
  manager : String := "localhost"
  objects : List (Channel ν) := []
  channels : Dict String Nat
  instances : List (Instance ν) := []
  contexts : List Context := []

namespace GRPCCoroutine

variable {ν : Type} [DecidableEq ν] (s : GRPCCoroutine ν)

def init : GRPCCoroutine ν := { channels := .empty }

/-! ## `_channel` -/

/-- `f"{server!s}:{port!s}"`, where `server` is `hostname or self.manager` -/
def keyOf (r : Request ν) : String :=
  (match r.hostname with
    | some hostname => if hostname = "" then s.manager else hostname
    | none => s.manager) ++ ":" ++ toString r.port

/-- `self.channels[key]`, where a new one is made if there is none. -/
def lookup (key : String) (persistent : Bool) : GRPCCoroutine ν × Nat :=
  match s.channels.get? key with
  | some c => (s, c)
  | none =>
    ({ s with
      objects := s.objects ++ [{ key, persistent }]
      channels := s.channels.set key s.objects.length }, s.objects.length)

/-- The options that are asked for, and whether one of them was
different. -/
def mergeOptions (options : Options ν) : List (String × Option ν) → Options ν × Bool
  | [] => (options, false)
  | (key, value) :: rest =>
    if (options.get? key).getD none ≠ value then
      ((mergeOptions (options.set key value) rest).1, true)
    else mergeOptions options rest

/-- The assignments to `recreate`. The assignment `channel.peristent = True`
makes a new attribute, which nothing reads. -/
def configure (ch : Channel ν) (r : Request ν) : Channel ν × Bool :=
  let (options, changed) := match r.options with
    | some options => mergeOptions ch.options options.items
    | none => (ch.options, false)
  ({ ch with options := options }, (r.persistent && !ch.persistent) || changed)

/-- `instance.close()` -/
def close (i : Nat) : GRPCCoroutine ν :=
  { s with instances := s.instances.modify i fun t => { t with closed := true } }

/-- The instance is open. -/
def isOpen (i : Nat) : Bool := match s.instances[i]? with
  | some t => !t.closed
  | none => false

/-- The end of `_channel`: the instance, which is made if there is none. -/
def ensureInstance (c : Nat) (ch : Channel ν) : GRPCCoroutine ν × Channel ν × Nat :=
  match ch.inst with
  | some i => (s, ch, i)
  | none =>
    ({ s with instances := s.instances ++ [{ channel := c, options := ch.options }] },
      { ch with inst := some s.instances.length }, s.instances.length)

/-- `channel.stubs[…]`, which is built if there is none. -/
def yieldStub (ch : Channel ν) (i : Nat) : Option String → Channel ν × Option Nat
  | none => (ch, none)
  | some stub =>
    match ch.stubs.get? stub with
    | some j => (ch, some j)
    | none => ({ ch with stubs := ch.stubs.set stub i }, some i)

/-- The class is in `stubs`. -/
def isCached (ch : Channel ν) : Option String → Bool
  | none => false
  | some stub => (ch.stubs.get? stub).isSome

/-- From the end of `_channel` to the body of the context. -/
def acquire (c : Nat) (ch : Channel ν) (stub : Option String) : GRPCCoroutine ν × Body :=
  let cached := isCached ch stub
  let (s, ch, i) := s.ensureInstance c ch
  let (ch, built) := yieldStub { ch with connections := ch.connections + 1 } i stub
  ({ s with objects := s.objects.set c ch }, ⟨built, i, s.isOpen i, cached⟩)

/-- A context of a channel comes to its body, or to the `await` in
`_channel`. -/
def enterChannel (key : String) (c : Nat) (ch : Channel ν) (r : Request ν) : GRPCCoroutine ν :=
  let (configured, recreate) := configure ch r
  match recreate, ch.inst with
  | true, some i =>
    { s.close i with
      objects := s.objects.set c configured
      contexts := s.contexts ++ [⟨key, c, r.stub, .acquiring⟩] }
  | _, _ =>
    let (s, body) := s.acquire c configured r.stub
    { s with contexts := s.contexts ++ [⟨key, c, r.stub, .inside body⟩] }

/-- A context is entered. -/
def enter (r : Request ν) : GRPCCoroutine ν :=
  let key := s.keyOf r
  let (s, c) := s.lookup key r.persistent
  match s.objects[c]? with
  | none => s
  | some ch => s.enterChannel key c ch r

/-! ## Steps -/

/-- `resume` and `abort` are the ends of the `await` in `_channel`, and
`released` is the one of the `await` after the body. The body ends by
itself, or by an exception, which may be a `KeyError`. -/
inductive Action (ν : Type) where
  | enter (r : Request ν)
  | resume (x : Nat)
  | abort (x : Nat)
  | leave (x : Nat)
  | raise (x : Nat) (keyError : Bool)
  | released (x : Nat)

def setPhase (x : Nat) (phase : Phase) : GRPCCoroutine ν :=
  { s with contexts := s.contexts.modify x fun ctx => { ctx with phase } }

/-- `channel.instance = None`, and on to the body. -/
def resume (x : Nat) : GRPCCoroutine ν :=
  match s.contexts[x]? with
  | none => s
  | some ctx =>
    match s.objects[ctx.channel]? with
    | none => s
    | some ch =>
      let (s, body) := s.acquire ctx.channel { ch with inst := none } ctx.stub
      s.setPhase x (.inside body)

/-- The body has ended, and not by an exception. -/
def leave (x : Nat) : GRPCCoroutine ν :=
  match s.contexts[x]? with
  | none => s
  | some ctx =>
    match s.objects[ctx.channel]? with
    | none => s
    | some ch =>
      let ch : Channel ν := { ch with connections := ch.connections - 1 }
      let s := { s with objects := s.objects.set ctx.channel ch }
      if ch.persistent = false ∧ ch.connections ≤ 0 then
        match s.channels.get? ch.key, ch.inst with
        | none, _ => s.setPhase x .keyError
        | some _, none => s
        | some _, some i =>
          ({ s with channels := s.channels.erase ch.key }.close i).setPhase x .releasing
      else s.setPhase x .left

/-- `channel.stubs[…] = stub(channel.instance)` -/
def rebuildStub (ch : Channel ν) (stub : String) : Channel ν :=
  match ch.inst with
  | some i => { ch with stubs := ch.stubs.set stub i }
  | none => ch

/-- The `yield` is the one in the `try`. -/
def inTry : Phase → Bool
  | .inside body => body.cached
  | _ => false

/-- The body has ended by an exception, and nothing that follows the `yield`
in `channel` is done. The handler in `stub` is for a class that is missing,
but where the class was there, a `KeyError` of the body comes to it as
well. -/
def raise (x : Nat) (keyError : Bool) : GRPCCoroutine ν :=
  match s.contexts[x]? with
  | none => s
  | some ctx =>
    match keyError && inTry ctx.phase, ctx.stub, s.objects[ctx.channel]? with
    | true, some stub, some ch =>
      { s with objects := s.objects.set ctx.channel (rebuildStub ch stub) }.setPhase x .left
    | _, _, _ => s.setPhase x .left

/-- A context is at an `await`, or in its body. -/
def InPhase (x : Nat) (p : Phase → Prop) : Prop := ∃ ctx, s.contexts[x]? = some ctx ∧ p ctx.phase

def Enabled : Action ν → Prop
  | .enter _ => True
  | .resume x | .abort x => s.InPhase x (· = .acquiring)
  | .leave x | .raise x _ => s.InPhase x fun phase => ∃ body, phase = .inside body
  | .released x => s.InPhase x (· = .releasing)

def step : Action ν → GRPCCoroutine ν
  | .enter r => s.enter r
  | .resume x => s.resume x
  | .leave x => s.leave x
  | .raise x keyError => s.raise x keyError
  -- an exception of the `await` leaves the context
  | .abort x | .released x => s.setPhase x .left

/-- The states of all runs. -/
abbrev Reached (s : GRPCCoroutine ν) : Prop := Reachable step Enabled init s

end GRPCCoroutine

end Iams.Aio
