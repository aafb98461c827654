/-
Iams.Aio.Coroutine — `Coroutine` in `iams/aio/interfaces.py` and three of
its subclasses, as code with futures.

A subclass gives `wait`, `loop` and `stop`; `call` is `__call__`. The
futures of a coroutine are its start task, the end of all start tasks, the
future `_stop` of a `ThreadCoroutine`, the termination of the server of a
`GRPCCoroutine`, and one for each call of `run_in_executor` or of
`server.stop`. The effects are those calls: what they run is run whether
or not the future is awaited to its end.

Of `setup` and `start` only the outcome matters here.

No `sorry`, no `axiom`, no `native_decide`.
-/
import Iams.Lib.Asyncio

namespace Iams.Aio

open Iams.Lib.Asyncio

/-- What a coroutine has somebody else do. -/
inductive Effect where
  | serverStop
  | loopStop
  | writeApiClose
  | clientClose
  | other (n : Nat)
  deriving DecidableEq, Repr

/-- The futures of a coroutine. -/
inductive FutureName where
  | start
  | starts
  | stop
  | termination
  | result (e : Effect)
  deriving DecidableEq, Repr

/-- Exceptions other than those of asyncio. -/
inductive Error where
  | systemError
  | other (n : Nat)
  deriving DecidableEq, Repr

/-- Code of a coroutine. -/
abbrev Async := Code FutureName Effect Error

/-- An effect, and its future. -/
def runInExecutor (e : Effect) : Async Unit := do
  .emit e
  .wait (.result e)

/-- What a subclass of `Coroutine` gives. -/
structure Coroutine where
  wait : Async Unit
  loop : Async Unit
  stop : Async Unit

namespace Coroutine

/-- `wait` of `Coroutine` -/
def waitForStart : Async Unit := .wait .start

/-- `__call__` -/
def call (c : Coroutine) : Async Unit := do
  let ready ← tryCatch (do c.wait; return true) fun
    | .error .systemError => return false
    | e => throw e
  if ready then
    tryCatch c.loop fun
      | .cancelled => c.stop
      | e => throw e
  else return ()

end Coroutine

namespace ThreadCoroutine

/-- `loop` -/
def loop : Async Unit := .wait .stop

/-- `stop` -/
def stop : Async Bool := do
  if !(← .isDone .stop) then
    .set .stop
    return true
  else return false

end ThreadCoroutine

/-- `InfluxCoroutine` -/
def influxCoroutine : Coroutine where
  wait := Coroutine.waitForStart
  loop := ThreadCoroutine.loop
  stop := do
    if ← ThreadCoroutine.stop then
      runInExecutor .writeApiClose
      runInExecutor .clientClose
    else return ()

/-- `MQTTCoroutine` -/
def mqttCoroutine : Coroutine where
  wait := Coroutine.waitForStart
  loop := ThreadCoroutine.loop
  stop := do
    if ← ThreadCoroutine.stop then runInExecutor .loopStop else return ()

/-- `GRPCCoroutine` -/
def grpcCoroutine : Coroutine where
  wait := do
    Coroutine.waitForStart
    -- `asyncio.wait(tasks.values())`; `task.done()` raises nothing
    .wait .starts
  loop := tryCatch (.wait .termination) fun
    | .cancelled => return ()
    | e => throw e
  stop := tryCatch (runInExecutor .serverStop) fun
    | .cancelled => return ()
    | e => throw e

/-- The coroutines that have something to release. -/
inductive Kind where
  | grpc
  | mqtt
  | influx
  deriving DecidableEq, Repr

namespace Kind

def coroutine : Kind → Coroutine
  | .grpc => grpcCoroutine
  | .mqtt => mqttCoroutine
  | .influx => influxCoroutine

/-- What is awaited inside `loop`. -/
def loopFuture : Kind → FutureName
  | .grpc => .termination
  | .mqtt | .influx => .stop

/-- What is to be done when the coroutine is stopped. -/
def release : Kind → List Effect
  | .grpc => [.serverStop]
  | .mqtt => [.loopStop]
  | .influx => [.writeApiClose, .clientClose]

end Kind

end Iams.Aio
