/-
Iams.Scheduler.Variables — what the events contribute to the solver's
model: `Event.get_variables` and `BufferScheduler.get_event_variables`
of `iams/utils/scheduler.py`.

`getVariables` is the dictionary the source builds for one event in each
of its states: the ranges of its variables (each side possibly `None`),
its intervals and its makespan. It is cut in two at the point where
nothing can fail any more: `stage` converts the event's times, and
`Stage.variables` fills the dictionary from the numbers.

`consume` walks the generator of `Queue.lean`, so removals and the first
exception happen in the order in which the source meets them: it returns
what was collected, or the exception, together with the queue at that
point.

No `sorry`, no `axiom`, no `native_decide`.
-/
import Iams.Scheduler.Queue

namespace Iams.Scheduler

/-- The names of an event's variables. -/
inductive Name where
  | eta
  | iqt
  | start
  | duration
  | finish
  | oqt
  | etd
  deriving DecidableEq, Repr

/-- The names as the source spells them, which its error texts quote. -/
def Name.str : Name → String
  | .eta => "eta"
  | .iqt => "iqt"
  | .start => "start"
  | .duration => "duration"
  | .finish => "finish"
  | .oqt => "oqt"
  | .etd => "etd"

/-- The dataclass `Interval` with its defaults. -/
structure Interval where
  startName : Name
  endName : Name
  durationName : Name
  duration : Option Int := some 0
  optional : Bool := true
  deriving DecidableEq, Repr

/-- The bounds of a variable, each possibly `None`. -/
abbrev Bounds := Option Int × Option Int

/-- The dictionary `get_variables` returns: `ranges` holds the names of
its set `ranges` with the bounds stored under them. -/
structure Variables where
  number : Nat
  ranges : List (Name × Bounds)
  makespan : Bounds
  intervalI : Option Interval
  intervalP : Option Interval
  intervalO : Option Interval
  deriving DecidableEq, Repr

/-! ## One event -/

/-- What an event hands to the solver in its state, in time steps: the
numbers the branches of `get_variables` compute before they fill the
dictionary. -/
inductive Stage where
  | waiting (eta etd : Bounds) (duration : Int)
  | arrived (eta : Int) (etd : Bounds) (duration : Int) (canceled : Bool)
  | started (eta start : Int) (etd : Bounds) (duration : Int) (canceled : Bool)
  | finished (start finish : Int) (etd : Bounds)
  | departed (start finish etd : Int)
  deriving DecidableEq, Repr

/-- The dictionary each branch of `get_variables` fills. -/
def Stage.variables (number : Nat) : Stage → Variables
  | .waiting eta etd duration =>
      { number := number
        ranges := [(.eta, eta), (.start, (eta.2, etd.1)), (.finish, (eta.2, etd.1)),
          (.etd, etd)]
        makespan := (eta.1, etd.2)
        intervalI := some ⟨.eta, .start, .iqt, none, true⟩
        intervalP := some ⟨.start, .finish, .duration, some duration, false⟩
        intervalO := some ⟨.finish, .etd, .oqt, none, true⟩ }
  | .arrived eta etd duration canceled =>
      { number := number
        ranges := [(.eta, (some eta, some eta)), (.start, (some eta, etd.2)),
          (.finish, (some eta, etd.2)), (.etd, (some (etd.1.getD eta), etd.2))]
        makespan := (some eta, etd.2)
        intervalI := some ⟨.eta, .start, .iqt, none, true⟩
        intervalP := some ⟨.start, .finish, .duration, some duration, canceled⟩
        -- no `duration` is given here: the dataclass default 0 applies
        intervalO := some { startName := .finish, endName := .etd, durationName := .oqt } }
  | .started eta start etd duration canceled =>
      { number := number
        ranges := [(.eta, (some eta, some eta)), (.start, (some start, some start)),
          (.finish, (some (start + duration), some (start + duration))),
          (.etd, (some (etd.1.getD start), etd.2))]
        makespan := (some eta, etd.2)
        intervalI := some ⟨.eta, .start, .iqt, some (start - eta), false⟩
        intervalP := some ⟨.start, .finish, .duration, some duration, canceled⟩
        intervalO := some ⟨.finish, .etd, .oqt, none, true⟩ }
  | .finished start finish etd =>
      { number := number
        ranges := [(.start, (some start, some start)), (.finish, (some finish, some finish)),
          (.etd, (some (etd.1.getD finish), etd.2))]
        makespan := (some start, etd.2)
        intervalI := none
        intervalP := some ⟨.start, .finish, .duration, some (finish - start), false⟩
        intervalO := some ⟨.finish, .etd, .oqt, none, true⟩ }
  | .departed start finish etd =>
      { number := number
        ranges := [(.start, (some start, some start)), (.finish, (some finish, some finish)),
          (.etd, (some etd, some etd))]
        makespan := (some start, some etd)
        intervalI := none
        intervalP := some ⟨.start, .finish, .duration, some (finish - start), false⟩
        intervalO := some ⟨.finish, .etd, .oqt, some (etd - finish), false⟩ }

namespace Event

variable {τ : Type} [Ring τ] [LinearOrder τ] [TimeStep τ] (cfg : BufferScheduler τ)

/-- The numbers each branch of `get_variables` computes, in the order in
which it computes them. -/
def stage (e : Event τ) (now : Option τ) : Except PyError Stage := do
  let duration := cfg.convertResolution e.duration
  match e.state with
  | .new | .scheduled =>
      let eta ← e.etaConstraints cfg now
      let etd ← e.etdConstraints cfg now
      return .waiting eta etd duration
  | .arrived =>
      let eta ← convertTime cfg e.eta.useDatetime now (e.eta.get now)
      let etd ← e.etdConstraints cfg now
      return .arrived eta etd duration e.canceled
  | .started =>
      let eta ← convertTime cfg e.eta.useDatetime now (e.eta.get now)
      let start ← convertSteps cfg (← e.getStart cfg now)
      let etd ← e.etdConstraints cfg now
      return .started eta start etd duration e.canceled
  | .finished =>
      let start ← convertSteps cfg (← e.getStart cfg now)
      let finish ← convertSteps cfg (← e.getFinish cfg now)
      let etd ← e.etdConstraints cfg now
      return .finished start finish etd
  | .departed =>
      let start ← convertSteps cfg (← e.getStart cfg now)
      let finish ← convertSteps cfg (← e.getFinish cfg now)
      let etd ← convertTime cfg e.etd.useDatetime now (e.etd.get now)
      return .departed start finish etd
  | .canceled =>
      throw (.notImplementedError
        ("Implementation of state " ++ e.state.str ++ " is missing"))

/-- `get_variables` -/
def getVariables (e : Event τ) (now : Option τ) : Except PyError Variables :=
  (e.stage cfg now).map (Stage.variables e.uid)

end Event

/-! ## All events -/

/-- The local variables of the loop of `get_event_variables`. -/
structure Collected where
  eventsData : List (Nat × Variables)
  eventsMin : List Int
  eventsMax : List Int
  noneMin : Bool
  noneMax : Bool
  deriving DecidableEq, Repr

def Collected.empty : Collected := ⟨[], [], [], false, false⟩

/-- `events_data[event] = data` on a dictionary in insertion order: the
value of a known key is replaced in place. -/
def dictSet (u : Nat) (data : Variables) :
    List (Nat × Variables) → List (Nat × Variables)
  | [] => [(u, data)]
  | (v, old) :: rest =>
      if v = u then (v, data) :: rest else (v, old) :: dictSet u data rest

/-- The loop's body on the data of one event. -/
def Collected.add (c : Collected) (u : Nat) (data : Variables) : Collected :=
  { eventsData := dictSet u data c.eventsData
    eventsMin := c.eventsMin ++ data.makespan.1.toList
    eventsMax := c.eventsMax ++ data.makespan.2.toList
    noneMin := c.noneMin || data.makespan.1.isNone
    noneMax := c.noneMax || data.makespan.2.isNone }

/-- The makespan of the collected bounds, before `max_horizon` is looked
at. -/
def Collected.makespan (horizon : Int) (c : Collected) : Int × Int :=
  match c.eventsMin.min?, c.eventsMin.max?, c.eventsMax.min?, c.eventsMax.max? with
  | some minMin, some _, some _, some maxMax =>
      let diff := maxMax - minMin
      if diff < horizon then
        if c.noneMin && c.noneMax then
          let diff := intRoundDiv (horizon - diff) 2
          (minMin - diff, maxMax + diff)
        else if c.noneMin then (maxMax - horizon, maxMax)
        else if c.noneMax then (minMin, minMin + horizon)
        else (minMin, maxMax)
      else (minMin, maxMax)
  | some minMin, some maxMin, _, _ => (minMin, maxMin + horizon)
  | _, _, some minMax, some maxMax => (minMax - horizon, maxMax)
  | _, _, _, _ => (0, horizon)

section

variable {τ : Type} [Ring τ] [LinearOrder τ] [TimeStep τ] (cfg : BufferScheduler τ)

/-- The loop over `get_events`: what has been collected, or the first
exception, and the queue as it is then. -/
def consume (obj : Nat → Event τ) (now : Option τ) :
    List Action → Collected → List Nat → Except PyError Collected × List Nat
  | [], c, queue => (.ok c, queue)
  | .remove u :: rest, c, queue => consume obj now rest c (queue.erase u)
  | .yield u :: rest, c, queue =>
      match (obj u).getVariables cfg now with
      | .error err => (.error err, queue)
      | .ok data => consume obj now rest (c.add u data) queue

end

end Iams.Scheduler
