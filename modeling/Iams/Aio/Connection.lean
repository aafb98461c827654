/-
Iams.Aio.Connection — `GRPCConnectionCoroutine` in `iams/aio/grpc.py`.

`_main` is cut at its `await`s. `Phase` says where the task is, and
`resume` is what it does when the awaited call has ended in one of the
ways of `Outcome`. `stop` cancels the task, which shows as the outcome
`cancelled` of the `await` it is at; an awaited call may also have been
cancelled by itself.

The time that `_main` waits after a failure is left out, and so is the
stub, which only `stub` uses.

No `sorry`, no `axiom`, no `native_decide`.
-/
import Iams.Lib.Transition

namespace Iams.Aio

open Iams.Lib

namespace Connection

/-- How an `await` ends. `item` is the next response of a stream, whose
normal end is `returned`. -/
inductive Outcome (ρ : Type) where
  | item (response : ρ)
  | returned
  | rpcError
  | cancelled
  | raised

/-- What the task awaits: nothing, because there is none or it is done,
its first step, the enter method of `stub`, the next response, `connect`,
`process`, the exit method of `stub`, `disconnect`, `sleep`, or
`cleanup`. -/
inductive Phase (ρ : Type) where
  | idle
  | created
  | entering
  | streaming
  | connecting (response : ρ)
  | processing
  | leaving
  | disconnecting
  | sleeping
  | cleaning

/-- What has happened. -/
inductive Entry where
  | opened
  | connect
  | connectReturned
  | process
  | disconnect
  deriving DecidableEq, Repr

end Connection

open Connection

/-- `default` is the value of `grpc_default`. `delivered` says whether the
stream that was opened last has delivered a response. -/
structure GRPCConnectionCoroutine (ρ : Type) where
  default : Option ρ
  connected : Bool := false
  data : Option ρ := none
  previous : Option ρ
  phase : Phase ρ := .idle
  delivered : Bool := false
  log : List Entry := []

namespace GRPCConnectionCoroutine

variable {ρ : Type} (s : GRPCConnectionCoroutine ρ)

/-- `__init__` -/
def init (default : Option ρ) : GRPCConnectionCoroutine ρ := { default, previous := default }

def record (e : Entry) : GRPCConnectionCoroutine ρ := { s with log := s.log ++ [e] }

/-- `async with self.agent.grpc.stub(…)` -/
def enter : GRPCConnectionCoroutine ρ := { s with phase := .entering }

/-- `async for response in method(payload)` -/
def openStream : GRPCConnectionCoroutine ρ :=
  { s with phase := .streaming, delivered := false }.record .opened

/-- `await self.process(response)` -/
def process : GRPCConnectionCoroutine ρ := { s with phase := .processing }.record .process

/-- The body of the `async for`, up to the first `await`. -/
def receive (response : ρ) : GRPCConnectionCoroutine ρ :=
  let s := { s with delivered := true }
  if s.connected then
    { s with previous := s.data, data := some response }.process
  else
    { s with
      connected := true
      previous := s.default
      data := some response
      phase := .connecting response }.record .connect

/-- `except grpc.RpcError` -/
def rpcError : GRPCConnectionCoroutine ρ :=
  if s.connected then
    { s with connected := false, phase := .disconnecting }.record .disconnect
  else { s with phase := .sleeping }

/-- `finally: await self.cleanup()`, after the handlers of `CancelledError`
and `Exception`. -/
def finish : GRPCConnectionCoroutine ρ := { s with phase := .cleaning }

/-- An exception in the body of the inner `try` statement. -/
def raise : Outcome ρ → GRPCConnectionCoroutine ρ
  | .rpcError => s.rpcError
  | _ => s.finish

/-- The task goes on after an `await`. -/
def resume (how : Outcome ρ) : GRPCConnectionCoroutine ρ :=
  match s.phase, how with
  | .idle, _ => s
  | .created, .returned => s.enter
  -- a task that is cancelled before its first step does not run at all
  | .created, _ => { s with phase := .idle }
  | .entering, .returned => s.openStream
  | .streaming, .item response => s.receive response
  | .streaming, .returned => { s with phase := .leaving }
  | .connecting _, .returned => (s.record .connectReturned).process
  | .processing, .returned => { s with phase := .streaming }
  | .leaving, .returned => s.enter
  | .entering, e | .streaming, e | .connecting _, e | .processing, e | .leaving, e => s.raise e
  | .disconnecting, .returned => { s with phase := .sleeping }
  | .sleeping, .returned => s.enter
  -- the handler of `RpcError` is outside of the inner `try` statement
  | .disconnecting, _ | .sleeping, _ => s.finish
  | .cleaning, _ => { s with phase := .idle }

/-! ## Steps -/

inductive Action (ρ : Type) where
  | call
  | resume (how : Outcome ρ)

/-- A stream alone has items, and a task that has not begun can only begin
or be cancelled. -/
def Enabled : Action ρ → Prop
  | .call => True
  | .resume (.item _) => s.phase = .streaming
  | .resume .returned => s.phase ≠ .idle
  | .resume .cancelled => s.phase ≠ .idle
  | .resume .rpcError | .resume .raised => s.phase ≠ .idle ∧ s.phase ≠ .created

/-- `__call__` starts a task if there is none that is not done. -/
def step : Action ρ → GRPCConnectionCoroutine ρ
  | .call =>
    match s.phase with
    | .idle => { s with phase := .created }
    | _ => s
  | .resume how => s.resume how

/-- The stream is open: it has been opened, and it has neither ended nor
been left by an exception. -/
def streamOpen : Prop := match s.phase with
  | .streaming | .connecting _ | .processing => True
  | _ => False

end GRPCConnectionCoroutine

end Iams.Aio
