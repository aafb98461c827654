/-
Iams.Aio.Starts — `wait` of `GRPCCoroutine` in `iams/aio/grpc.py`, with the
start tasks of all coroutines.

In `Iams.Aio.Coroutine` the start tasks are one future of the coroutine
that waits; here each is a future of its own, since their outcomes matter.
The task runs `__call__`. What is recorded is how `wait` has ended, and
that `loop` is entered.

No `sorry`, no `axiom`, no `native_decide`.
-/
import Iams.Aio.Coroutine
import Iams.Lib.Transition

namespace Iams.Aio

open Iams.Lib Iams.Lib.Asyncio

namespace Starts

/-- The start tasks, the end of `asyncio.wait`, the termination of the
server, and the end of `server.stop`. -/
inductive Future where
  | start (name : String)
  | all
  | termination
  | serverStop
  deriving DecidableEq, Repr

inductive Entry where
  | waitEnds (r : Result Error Unit)
  | loopEntered
  | serverStop

abbrev StartCode := Code Future Entry Error Unit

/-- `for task in done:`, where `task.done()` raises nothing. -/
def checkDone : List String → StartCode
  | [] => return ()
  | name :: rest => do
    tryCatch (do let _ ← Code.isDone (Future.start name)) fun
      | .cancelled => throw .cancelled
      | _ => throw (.error .systemError)
    checkDone rest

variable (own : String) (names : List String)

/-- `wait` of `GRPCCoroutine`, for the coroutine called `own`; `names` are
the keys of `tasks`. -/
def wait : StartCode := do
  Code.wait (.start own)
  Code.wait .all
  checkDone names

/-- `loop` of `GRPCCoroutine` -/
def loop : StartCode := do
  .emit .loopEntered
  tryCatch (Code.wait .termination) fun
    | .cancelled => return ()
    | e => throw e

/-- `stop` of `GRPCCoroutine` -/
def stop : StartCode :=
  tryCatch (do Code.emit .serverStop; Code.wait .serverStop) fun
    | .cancelled => return ()
    | e => throw e

/-- What follows `wait` in `__call__`. -/
def afterWait (r : Result Error Unit) : StartCode :=
  .perform (.waitEnds r) <| match r with
    | .ok () => tryCatch loop fun
      | .cancelled => stop
      | e => throw e
    | .error (.error .systemError) => return ()
    | .error e => throw e

/-- `__call__` of `Coroutine` -/
def call : StartCode := (wait own names).andThen afterWait

end Starts

open Starts

/-- The task of the `GRPCCoroutine`, and whether it has been cancelled. -/
structure Starts where
  machine : Machine Future Entry Error Unit
  cancelled : Bool := false

namespace Starts

variable (own : String) (names : List String) (s : Starts)

def init : Starts where machine := { task := .created (call own names) }

/-! ## Steps -/

inductive Action where
  | startEnds (name : String) (r : Result Error Unit)
  | waitReturns
  | terminates (r : Result Error Unit)
  | resume
  | cancel

/-- Start tasks end in any order and in any way; `asyncio.wait` returns when
they all have ended. -/
def Enabled : Action → Prop
  | .waitReturns => ∀ name ∈ names, (s.machine.futures (.start name)).isSome
  | .startEnds name _ => name ∈ names
  | .terminates _ | .resume | .cancel => True

def step : Action → Starts
  | .startEnds name r => { s with machine := s.machine.complete (.start name) r }
  | .waitReturns => { s with machine := s.machine.complete .all (.ok ()) }
  | .terminates r => { s with machine := s.machine.complete .termination r }
  | .resume => { s with machine := s.machine.resume }
  | .cancel => { machine := s.machine.cancel, cancelled := true }

/-- The states of all runs. -/
abbrev Reached (s : Starts) : Prop := Reachable step (Enabled names) (init own names) s

end Starts

end Iams.Aio
