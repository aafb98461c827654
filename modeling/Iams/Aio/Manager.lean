/-
Iams.Aio.Manager — `Manager.main` in `iams/aio/manager.py`.

`main` awaits three times: the setups (`setupsReturn` is how it goes on),
the first coroutine that ends (`callsReturn`), and the end of the others
(`giveUp`). Between these steps the setups end, futures are completed and
the tasks of the coroutines go on, in any order. `asyncio.wait` returns no
sooner than it has to, but possibly later.

Of a `setup` and a `start` only the outcome matters. A coroutine touches
its own futures only, and nothing else sets `_stop`.

No `sorry`, no `axiom`, no `native_decide`.
-/
import Iams.Aio.Coroutine
import Iams.Lib.Transition

namespace Iams.Aio

open Iams.Lib Iams.Lib.Asyncio

namespace Manager

/-- A task of `setup`; `main` may have cancelled it. -/
inductive Setup where
  | pending
  | returned
  | raised
  | cancelled
  deriving DecidableEq, Repr

/-- Where `main` is. -/
inductive Phase where
  | settingUp
  | running
  | stopping
  | ended
  deriving DecidableEq, Repr

end Manager

open Manager

/-- `tasks` are the tasks of `__call__`, one for each coroutine, once they
have been `created` together with those of `_start`. `cancelledAt` are the
tasks that `main` has cancelled while they were awaiting a future, with
this future. -/
structure Manager where
  setups : List Setup
  phase : Phase
  created : Bool := false
  tasks : List (Machine FutureName Effect Error Unit) := []
  stopFuture : Bool := false
  cancelledAt : List (Nat × FutureName) := []

namespace Manager

variable (coros : List Coroutine) (s : Manager)

/-- `main` up to the first `await`: the tasks of the setups, one of them
for the parent if it has a `setup`. `asyncio.wait` takes no empty set. -/
def init (parentSetup : Bool) : Manager where
  setups := List.replicate (coros.length + parentSetup.toNat) .pending
  phase := if coros = [] ∧ parentSetup = false then .ended else .settingUp

/-- The first `asyncio.wait` has returned. -/
def setupsReturn : Manager :=
  if .pending ∈ s.setups then
    { s with
      setups := s.setups.map fun t => if t = .pending then .cancelled else t
      phase := .ended }
  else
    { s with
      created := true
      tasks := coros.map fun c => { task := .created c.call }
      phase := .running }

/-- The future a task awaits. -/
def awaited (m : Machine FutureName Effect Error Unit) : Option FutureName :=
  match m.task with
  | .waiting future _ => some future
  | _ => none

/-- The second `asyncio.wait` has returned: `self.stop()`, and the tasks
that are pending are cancelled. -/
def callsReturn : Manager :=
  { s with
    stopFuture := true
    tasks := s.tasks.map Machine.cancel
    cancelledAt := s.tasks.zipIdx.filterMap fun task => (awaited task.1).map fun f => (task.2, f)
    phase := .stopping }

/-! ## Steps -/

inductive Action where
  | setupEnds (i : Nat) (raises : Bool)
  | setupsReturn
  | complete (i : Nat) (future : FutureName) (result : Result Error Unit)
  | resume (i : Nat)
  | stop
  | callsReturn
  | giveUp

/-- `asyncio.wait(…, FIRST_EXCEPTION)` may return. -/
def FirstException : Prop := .raised ∈ s.setups ∨ .pending ∉ s.setups

/-- All start tasks are done. -/
def Started : Prop := ∀ m ∈ s.tasks, (m.futures .start).isSome

/-- What can happen. While the event loop runs, futures other than `_stop`
are completed and tasks go on. -/
def Enabled : Action → Prop
  | .setupEnds i _ => s.phase = .settingUp ∧ s.setups[i]? = some .pending
  | .setupsReturn => s.phase = .settingUp ∧ s.FirstException
  | .complete _ future _ => (s.phase = .running ∨ s.phase = .stopping) ∧ future ≠ .stop ∧
      (future = .starts → s.Started)
  | .resume _ => s.phase = .running ∨ s.phase = .stopping
  | .stop => True
  | .callsReturn => s.phase = .running ∧ (s.stopFuture = true ∨ ∃ m ∈ s.tasks, m.isFinished)
  | .giveUp => s.phase = .stopping

def step : Action → Manager
  | .setupEnds i raises =>
    { s with setups := s.setups.set i (if raises then .raised else .returned) }
  | .setupsReturn => s.setupsReturn coros
  | .complete i future r => { s with tasks := s.tasks.modify i fun m => m.complete future r }
  | .resume i => { s with tasks := s.tasks.modify i Machine.resume }
  | .stop => { s with stopFuture := true }
  | .callsReturn => s.callsReturn
  | .giveUp => { s with phase := .ended }

/-- The states of all runs. -/
abbrev Reached (parentSetup : Bool) (s : Manager) : Prop :=
  Reachable (step coros) Enabled (init coros parentSetup) s

end Manager

end Iams.Aio
