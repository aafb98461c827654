/-
Iams.Aio.Context — `channel` and `stub` of `GRPCCoroutine` in
`iams/aio/grpc.py` as the generators they are written as.

`Iams.Aio.Pool` cuts the contexts at their `await`s; here they are code,
over the same state and with the same parts. A context yields the number
of its object, or the instance on which the stub was built.

No `sorry`, no `axiom`, no `native_decide`.
-/
import Iams.Lib.Generator
import Iams.Aio.Pool

namespace Iams.Aio.GRPCCoroutine

open Iams.Lib Pool

variable {ν ε : Type} [DecidableEq ν] [DecidableEq ε]

/-- Code over the channels. -/
abbrev Coro (ν ε α : Type) := Gen.Co (GRPCCoroutine ν) ε α

/-- `channel.instance`, which is created if there is none. -/
def ensure (c : Nat) : Coro ν ε Nat :=
  .read fun s =>
    match s.objects[c]? with
    | none => throw .attributeError
    | some ch =>
      let (s, ch, _) := s.ensureInstance c ch
      .write { s with objects := s.objects.set c ch } (return c)

/-- `_channel` -/
def getChannel (r : Request ν) : Coro ν ε Nat :=
  .read fun s =>
    let (s, c) := s.lookup (s.keyOf r) r.persistent
    match s.objects[c]? with
    | none => throw .attributeError
    | some ch =>
      let (configured, recreate) := configure ch r
      match recreate, ch.inst with
      | true, some i =>
        .write { s.close i with objects := s.objects.set c configured } do
          Gen.suspend
          .read fun s => .write
            { s with objects := s.objects.modify c fun ch => { ch with inst := none } } (ensure c)
      | _, _ => .write { s with objects := s.objects.set c configured } (ensure c)

/-- `channel.connections += n` -/
def connect (c : Nat) (n : Int) : Coro ν ε Unit :=
  .read fun s => .write
    { s with objects := s.objects.modify c fun ch => { ch with connections := ch.connections + n } }
    (return ())

/-- What follows the `yield` of `channel`. -/
def release (c : Nat) : Coro ν ε Unit := do
  connect c (-1)
  .read fun s =>
    match s.objects[c]? with
    | none => throw .attributeError
    | some ch =>
      if ch.persistent = false ∧ ch.connections ≤ 0 then
        match s.channels.get? ch.key, ch.inst with
        | none, _ => throw .keyError
        | some _, none => .write { s with channels := s.channels.erase ch.key } <|
          throw .attributeError
        | some _, some i => .write ({ s with channels := s.channels.erase ch.key }.close i)
          Gen.suspend
      else return ()

/-- What follows `_channel` in `channel`. -/
def channelBody (c : Nat) : Gen (GRPCCoroutine ν) Nat ε Unit := do
  (connect c 1).awaits
  .yields c
  (release c).awaits

/-- `channel` -/
def channelContext (r : Request ν) : Gen (GRPCCoroutine ν) Nat ε Unit := do
  let c ← (getChannel r).awaits
  channelBody c

/-- `channel.stubs.get(…)` -/
def stubOf (s : GRPCCoroutine ν) (c : Nat) (cls : String) : Option Nat :=
  s.objects[c]?.bind fun ch => ch.stubs.get? cls

/-- `channel.stubs[…]` -/
def cachedStub (c : Nat) (cls : String) : Coro ν ε Nat :=
  .read fun s =>
    match s.stubOf c cls with
    | some j => return j
    | none => throw .keyError

/-- `channel.stubs[…] = stub(channel.instance)` -/
def buildStub (c : Nat) (cls : String) : Coro ν ε Nat :=
  .read fun s =>
    match s.objects[c]?.bind fun ch => ch.inst with
    | some i =>
      .write { s with objects := s.objects.modify c fun ch => rebuildStub ch cls } (return i)
    | none => throw .attributeError

/-- The handler of `stub`. -/
def missingStub (c : Nat) (cls : String) : Gen (GRPCCoroutine ν) Nat ε Unit := do
  let j ← (buildStub c cls).awaits
  .yields j

/-- The body of the `async with` in `stub`. -/
def stubBody (c : Nat) (cls : String) : Gen (GRPCCoroutine ν) Nat ε Unit :=
  tryCatch (do let j ← (cachedStub c cls).awaits; .yields j) fun e =>
    if e.isKeyError then missingStub c cls else throw e

/-- `stub` -/
def stubContext (r : Request ν) (cls : String) : Gen (GRPCCoroutine ν) Nat ε Unit :=
  Gen.asyncWith (channelContext r) fun c => stubBody c cls

end Iams.Aio.GRPCCoroutine
