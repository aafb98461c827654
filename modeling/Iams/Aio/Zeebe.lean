/-
Iams.Aio.Zeebe — the job bookkeeping of `ZeebeCoroutine` in
`iams/aio/zeebe.py`.

The worker calls `callback` for every delivery of a job. `callback` is
split at its `await`: `callback` runs up to it and `cleanup` is what comes
after it. Between two steps of the event loop anything may happen
(`Action`): a delivery, the end of a task in one of three ways, a timer,
the wake-up of a callback whose task has ended.

A task of `zeebe_callback` that has ended stays in the list, so that the
list is also the history of the run.

No `sorry`, no `axiom`, no `native_decide`.
-/
import Iams.Lib.Dict
import Iams.Lib.Procedure
import Iams.Lib.Transition

namespace Iams.Aio

open Iams.Lib Iams.Lib.Procedure

/-- How a task ends. -/
inductive Ended where
  | returned
  | raised
  | cancelled
  deriving DecidableEq, Repr

namespace Zeebe

/-- A task of `zeebe_callback`. It is `awaited` until the callback that
has started it is woken up, and `cancelling` once the watchdog has
cancelled it. -/
structure JobTask (κ : Type) where
  key : κ
  ended : Option Ended := none
  cancelling : Bool := false
  awaited : Bool := true

/-- `loop.call_later(120, task.cancel)` -/
structure Timer where
  task : Nat
  live : Bool := true

/-- What `callback` raises. -/
inductive Raised where
  | jobAlreadyRunning
  | keyError
  deriving DecidableEq, Repr

end Zeebe

open Zeebe

/-- `_jobs` holds tasks and `_watch` timers, each by its place in the list
of all of them. -/
structure ZeebeCoroutine (κ : Type) where
  jobs : Dict κ Nat
  watch : Dict κ Nat
  tasks : List (JobTask κ) := []
  timers : List Timer := []

namespace ZeebeCoroutine

variable {κ : Type} [DecidableEq κ]

def init : ZeebeCoroutine κ := { jobs := .empty, watch := .empty }

/-! ## The callback -/

/-- Code of the callback. -/
abbrev Code (κ : Type) := Procedure (ZeebeCoroutine κ) Raised

/-- `d[key]` -/
def item (d : ZeebeCoroutine κ → Dict κ Nat) (key : κ) : Code κ Nat := do
  let s ← get
  match (d s).get? key with
  | some i => return i
  | none => throw .keyError

/-- `call_later(120, task.cancel)` -/
def callLater (task : Nat) : Code κ Nat := do
  let s ← get
  modify fun s => { s with timers := s.timers ++ [{ task := task }] }
  return s.timers.length

/-- `timer.cancel()` -/
def cancelTimer (timer : Nat) : Code κ Unit :=
  modify fun s => { s with timers := s.timers.modify timer fun t => { t with live := false } }

/-- `create_task(zeebe_callback(…))` -/
def createTask (key : κ) : Code κ Nat := do
  let s ← get
  modify fun s => { s with tasks := s.tasks ++ [{ key := key }] }
  return s.tasks.length

/-- `callback` up to the `await`: the task it awaits. -/
def callback (key : κ) : Code κ Nat := do
  let s ← get
  if (s.jobs.get? key).isSome then
    cancelTimer (← item watch key)
    let timer ← callLater (← item jobs key)
    modify fun s => { s with watch := s.watch.set key timer }
    throw .jobAlreadyRunning
  else
    let task ← createTask key
    modify fun s => { s with jobs := s.jobs.set key task }
    let timer ← callLater (← item jobs key)
    modify fun s => { s with watch := s.watch.set key timer }
    item jobs key

/-- `callback` after the `await`, when the task has returned. -/
def cleanup (key : κ) : Code κ Unit := do
  cancelTimer (← item watch key)
  let _ ← item jobs key
  modify fun s => { s with jobs := s.jobs.erase key }
  let _ ← item watch key
  modify fun s => { s with watch := s.watch.erase key }

/-! ## Steps of the event loop -/

inductive Action (κ : Type) where
  | deliver (key : κ)
  | finish (task : Nat) (how : Ended)
  | fire (timer : Nat)
  | resume (task : Nat)

/-- `task.cancel()` -/
def cancelTask (s : ZeebeCoroutine κ) (task : Nat) : ZeebeCoroutine κ :=
  { s with tasks := s.tasks.modify task fun t => { t with cancelling := true } }

/-- A task only ends as cancelled when it was cancelled. -/
def Enabled (s : ZeebeCoroutine κ) : Action κ → Prop
  | .deliver _ => True
  | .finish task how => ∃ t, s.tasks[task]? = some t ∧ t.ended = none ∧
      (how = .cancelled → t.cancelling = true)
  | .fire timer => ∃ t, s.timers[timer]? = some t ∧ t.live = true
  | .resume task => ∃ t, s.tasks[task]? = some t ∧ t.ended.isSome ∧ t.awaited = true

/-- The callback that awaits a task is woken up. -/
def wakeUp (s : ZeebeCoroutine κ) (task : Nat) : ZeebeCoroutine κ :=
  match s.tasks[task]? with
  | none => s
  | some t =>
    let s := { s with tasks := s.tasks.modify task fun t => { t with awaited := false } }
    match t.ended with
    | some .returned => (exec (cleanup t.key) s).2
    | _ => s

def step (s : ZeebeCoroutine κ) : Action κ → ZeebeCoroutine κ
  | .deliver key => (exec (callback key) s).2
  | .finish task how =>
    { s with tasks := s.tasks.modify task fun t => { t with ended := some how } }
  | .fire timer =>
    match s.timers[timer]? with
    | none => s
    | some t => { s.cancelTask t.task with
        timers := s.timers.modify timer fun t => { t with live := false } }
  | .resume task => s.wakeUp task

/-- The states of all runs. -/
abbrev Reached (s : ZeebeCoroutine κ) : Prop := Reachable step Enabled init s

end ZeebeCoroutine

end Iams.Aio
