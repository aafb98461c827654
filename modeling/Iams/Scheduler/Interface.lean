/-
Iams.Scheduler.Interface — the queue of any `SchedulerInterface` in
`iams/interfaces/scheduler.py`.

A scheduler brings its own `add`, `event_class` and `cleanup`. `save` only
looks at how `add` ends (`Added`), and what `add` does before that are
calls of `get_events` and assignments to the events; both are steps of
their own here. `BufferScheduler` is one such scheduler
(`World.simulates` in `AccountingTheorems.lean`).

`saved`, `removed` and `cleaned` are the history of a scheduler: the events
that `save` has put into the queue, those that `self._events.remove` has
taken out of it, and those that `cleanup` was called with. The code never
reads them.

No `sorry`, no `axiom`, no `native_decide`.
-/
import Iams.Lib.Transition
import Iams.Scheduler.Gather

namespace Iams.Scheduler

open Iams.Lib

/-- How a call of `add` ends: with an event, with `CanNotSchedule`, with a
value that is no event, or with another exception. -/
inductive Added where
  | event (u : Nat)
  | canNotSchedule
  | other
  | raised (err : PyError)
  deriving DecidableEq, Repr

structure SchedulerInterface (τ : Type) where
  obj : Nat → Event τ
  counter : Nat
  events : List Nat
  saved : List Nat
  removed : List Nat
  cleaned : List Nat

namespace SchedulerInterface

variable {τ : Type} [Ring τ] [LinearOrder τ]

/-! ## The methods -/

/-- `__init__`; there is no event yet, whatever the store holds. -/
def init (obj : Nat → Event τ) : SchedulerInterface τ where
  obj := obj
  counter := 1
  events := []
  saved := []
  removed := []
  cleaned := []

/-- `__call__`, where `event_class(**kwargs)` returns `e`. -/
def create (s : SchedulerInterface τ) (e : Event τ) : SchedulerInterface τ :=
  { s with
    obj := Function.update s.obj s.counter { e with uid := s.counter }
    counter := s.counter + 1 }

/-- `save`, from the end of `add` on. -/
def save (s : SchedulerInterface τ) : Added → Answer Bool × SchedulerInterface τ
  | .event u => (.ok true, { s with events := s.events ++ [u], saved := s.saved ++ [u] })
  | .canNotSchedule => (.ok false, s)
  | .other => (.error (.valueError "'event' has the wrong class"), s)
  | .raised err => (.error err, s)

/-- An event is taken out of the queue, which calls `cleanup` unless the
event was not there. -/
def perform (s : SchedulerInterface τ) : Action → SchedulerInterface τ
  | .yield _ => s
  | .remove u =>
    if u ∈ s.events then
      { s with
        events := s.events.erase u
        removed := s.removed ++ [u]
        cleaned := s.cleaned ++ [u] }
    else s

/-- What a call of `get_events` does until it is exhausted. -/
def actions (s : SchedulerInterface τ) (new : List Nat) : List Action :=
  Scheduler.getEvents s.obj s.events new

/-- `get_events`, fully consumed. -/
def getEvents (s : SchedulerInterface τ) (new : List Nat) : SchedulerInterface τ :=
  (s.actions new).foldl perform s

/-! ## Uses of a scheduler -/

/-- What happens to a scheduler. `assign` are new attributes of the events:
what a method of an event leaves, or what `add` stores. -/
inductive Op (τ : Type) where
  | create (e : Event τ)
  | assign (obj : Nat → Event τ)
  | getEvents (new : List Nat)
  | save (added : Added)

def step (s : SchedulerInterface τ) : Op τ → SchedulerInterface τ
  | .create e => s.create e
  | .assign obj => { s with obj := obj }
  | .getEvents new => s.getEvents new
  | .save added => (s.save added).2

/-- No event leaves DEPARTED or CANCELED, and an event is saved once, after
it was created. -/
def Allowed (s : SchedulerInterface τ) : Op τ → Prop
  | .create _ | .getEvents _ => True
  | .assign obj => ∀ u, (s.obj u).state.gone = true → (obj u).state.gone = true
  | .save (.event u) => (1 ≤ u ∧ u < s.counter) ∧ u ∉ s.saved
  | .save _ => True

/-- The schedulers that such a use leads to. -/
def Reached (obj : Nat → Event τ) (s : SchedulerInterface τ) : Prop :=
  Reachable step Allowed (init obj) s

end SchedulerInterface

end Iams.Scheduler
