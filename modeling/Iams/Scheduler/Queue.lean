/-
Iams.Scheduler.Queue — the event queue: `get_events` of
`SchedulerInterface` in `iams/interfaces/scheduler.py`.

Events are Python objects that the queue, the agent and the scheduler
share. A reference to an event is its `uid`, which the scheduler never
assigns twice, and the objects live in a store `obj : Nat → Event τ`;
`Event.__eq__` and `Event.__hash__` compare uids, so a list of references
behaves like the list of events.

`get_events` is a generator that takes events out of the queue while its
consumer is iterating. What it does next depends only on the queue it
started from, so it is a list of actions: the events it yields and the
ones it removes, in the order in which the consumer meets them.

No `sorry`, no `axiom`, no `native_decide`.
-/
import Iams.Scheduler.Event

namespace Iams.Scheduler

/-- One step of the generator: an event handed to the consumer, or one
removed from `_events` (and passed to `cleanup`). -/
inductive Action where
  | yield (u : Nat)
  | remove (u : Nat)
  deriving DecidableEq, Repr

/-- The events a run of actions yields, in order. -/
def yields (actions : List Action) : List Nat :=
  actions.filterMap fun
    | .yield u => some u
    | .remove _ => none

/-- `state in [States.DEPARTED, States.CANCELED]` -/
def States.gone : States → Bool
  | .departed | .canceled => true
  | _ => false

section

variable {τ : Type} [Ring τ] [LinearOrder τ] (obj : Nat → Event τ)

/-- The queue's events that are neither departed nor canceled. -/
def live (events : List Nat) : List Nat := events.filter fun u => !(obj u).state.gone

/-- The departed and canceled events of the queue. -/
def gone (events : List Nat) : List Nat := events.filter fun u => (obj u).state.gone

/-- A set of times that may contain `None`, reduced by `pick`: `None`
when the set is empty or contains it. -/
def reduceTimes (pick : List τ → Option τ) (times : List (Option τ)) : Option τ :=
  if times.isEmpty || times.contains none then none else pick times.reduceOption

/-- `time_min`: the earliest time of the live events. -/
def timeMin (events : List Nat) : Option τ :=
  reduceTimes List.min? ((live obj events).map fun u => (obj u).iter.min?)

/-- `time_max`: the latest time of the live events. -/
def timeMax (events : List Nat) : Option τ :=
  reduceTimes List.max? ((live obj events).map fun u => (obj u).iter.max?)

/-- A departed or canceled event stays as long as its activity overlaps
the live events' times. -/
def retained (timeMin timeMax : Option τ) (e : Event τ) : Bool :=
  ETX.less timeMin e.activityFinish && ETX.less e.activityStart timeMax

/-- The action on one departed or canceled event. -/
def goneAction (timeMin timeMax : Option τ) (u : Nat) : Action :=
  if retained timeMin timeMax (obj u) then .yield u else .remove u

/-- `get_events` -/
def getEvents (events new : List Nat) : List Action :=
  (live obj events).map .yield ++
    (gone obj events).map (goneAction obj (timeMin obj events) (timeMax obj events)) ++
    new.map .yield

/-- What one fully consumed `get_events` leaves of the queue. -/
def collect (events : List Nat) : List Nat :=
  events.filter fun u =>
    !(obj u).state.gone || retained (timeMin obj events) (timeMax obj events) (obj u)

end

end Iams.Scheduler
