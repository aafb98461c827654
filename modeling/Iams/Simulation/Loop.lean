/-
Iams.Simulation.Loop — `SimulationInterface` in
`iams/interfaces/simulation.py`: `schedule`, `Queue.cancel` and the event
loop of `__call__`.

The code that a simulation calls is not part of it: `setup`, the agents,
the callbacks of the events and an overriding `event_callback`. It is a
`Program` over any type `σ` of everything else there is. A callback is
handed the simulation and may schedule and cancel as it likes before it
returns or raises; since nothing else happens meanwhile, what it does is
a list of actions. `event_callback` gets to see every event before it is
executed and gathers statistics: it may change anything but the queue.

A `Run` is the state of a simulation together with what has happened to
it: the entries that `schedule` made, the delays that `event_callback`
was given, and the events that were executed. The code never reads these
three.

`loop` and `call` have a bound on the number of events; `none` means that
the run has not ended within it. `Callable` are the states in which
`__call__` can be entered: a new simulation, or one that was used from
outside or called before. The messages to the logger are left out, and
what follows the loop, the `stop` methods and the report, is a part of its
own (`Stops`): no event is executed there.

No `sorry`, no `axiom`, no `native_decide`.
-/
import Iams.Lib.Heapq
import Iams.Lib.Transition
import Iams.Simulation.Queue
import Mathlib.Algebra.Order.Group.Defs

namespace Iams.Simulation

open Iams.Lib Iams.Lib.Heapq

/-! ## The simulation -/

/-- The attributes of `SimulationInterface` that events depend on.
`deleted` holds the numbers of the entries whose `deleted` flag is set and
`created` is the number of the next entry. -/
structure SimulationInterface (τ β : Type) where
  events : Int
  limit : Option τ
  queue : List (Queue τ β)
  time : τ
  deleted : List Nat
  created : Nat
  deriving DecidableEq, Repr

namespace SimulationInterface

variable {τ β : Type} [AddCommGroup τ] [LinearOrder τ]

/-- `__init__` -/
def init (start : τ) (stop : Option τ) : SimulationInterface τ β where
  events := 0
  limit := stop
  queue := []
  time := start
  deleted := []
  created := 0

/-- The entry that `schedule` makes. -/
def entry (sim : SimulationInterface τ β) (call : β) (dt : τ) (priority : Priority.Arg) :
    Queue τ β where
  number := sim.created
  time := sim.time + dt
  call := call
  dt := dt
  priority := .ofArg priority

/-- `schedule` -/
def schedule (sim : SimulationInterface τ β) (call : β) (dt : τ) (priority : Priority.Arg) :
    SimulationInterface τ β :=
  { sim with
    events := sim.events + 1
    queue := heappush Queue.lt sim.queue (sim.entry call dt priority)
    created := sim.created + 1 }

/-- `Queue.cancel` of the entry with this number, if there is one yet. -/
def cancel (sim : SimulationInterface τ β) (number : Nat) : SimulationInterface τ β :=
  if number < sim.created then { sim with deleted := number :: sim.deleted } else sim

/-- `self._limit is not None and time > self._limit` -/
def beyond (sim : SimulationInterface τ β) (time : τ) : Bool :=
  match sim.limit with
  | none => false
  | some limit => decide (limit < time)

/-- The entries of the queue that are not cancelled. -/
def pending (sim : SimulationInterface τ β) : List (Queue τ β) :=
  sim.queue.filter fun q => q.number ∉ sim.deleted

end SimulationInterface

/-! ## The code around it -/

/-- What a callback can do to the queue. -/
inductive Action (τ β : Type) where
  | schedule (call : β) (dt : τ) (priority : Priority.Arg)
  | cancel (number : Nat)
  deriving DecidableEq, Repr

/-- How a callback ends: it returns, or it raises `StopSimulation` or
something else. -/
inductive Outcome where
  | returns
  | stops
  | raises
  deriving DecidableEq, Repr

/-- All that a callback does. -/
structure Turn (σ τ β : Type) where
  world : σ
  actions : List (Action τ β)
  outcome : Outcome

/-- The code that `__call__` calls. `agents` are the sorted keys of
`_agents`. `eventCallback` is given the event and the delay, and `none`
means that it raises. -/
structure Program (σ τ β : Type) where
  setup : σ → SimulationInterface τ β → Turn σ τ β
  agents : σ → List String
  agent : String → σ → SimulationInterface τ β → Turn σ τ β
  eventCallback : σ → SimulationInterface τ β → Queue τ β → τ → Option σ
  callback : β → σ → SimulationInterface τ β → Turn σ τ β

/-- An event that was executed, and the simulation as its callback found
it. -/
structure Execution (τ β : Type) where
  event : Queue τ β
  before : SimulationInterface τ β

/-- A simulation and its history: the entries made, each with the time at
which it was, the delays passed to `event_callback`, and the events
executed, all in order. -/
structure Run (σ τ β : Type) where
  world : σ
  sim : SimulationInterface τ β
  calls : List (Queue τ β × τ)
  deltas : List τ
  trace : List (Execution τ β)

namespace Run

variable {σ τ β : Type} [AddCommGroup τ] [LinearOrder τ]

/-- A new simulation. -/
def init (start : τ) (stop : Option τ) (world : σ) : Run σ τ β where
  world := world
  sim := .init start stop
  calls := []
  deltas := []
  trace := []

/-- One action is carried out. -/
def perform (run : Run σ τ β) : Action τ β → Run σ τ β
  | .schedule call dt priority =>
    { run with
      sim := run.sim.schedule call dt priority
      calls := run.calls ++ [(run.sim.entry call dt priority, run.sim.time)] }
  | .cancel number => { run with sim := run.sim.cancel number }

/-- `heappop` leaves this queue. -/
def withQueue (run : Run σ τ β) (queue : List (Queue τ β)) : Run σ τ β :=
  { run with sim := { run.sim with queue := queue } }

/-- `event_callback` is called, and leaves the world as it is given here. -/
def observe (run : Run σ τ β) (event : Queue τ β) (world : σ) : Run σ τ β :=
  { run with world := world, deltas := run.deltas ++ [event.time - run.sim.time] }

/-- `self._time = event.time`: the execution of an event begins. -/
def begin (run : Run σ τ β) (event : Queue τ β) : Run σ τ β :=
  let sim := { run.sim with time := event.time }
  { run with sim := sim, trace := run.trace ++ [.mk event sim] }

/-- A callback does what it does. -/
def play (run : Run σ τ β) (turn : Turn σ τ β) : Run σ τ β :=
  turn.actions.foldl perform { run with world := turn.world }

end Run

/-! ## `__call__` -/

/-- How the loop ends: no event is left, the next one is later than the
limit, a callback raised `StopSimulation`, or something else was raised. -/
inductive Ending where
  | drained
  | limit
  | stopped
  | raised
  deriving DecidableEq, Repr

/-- What the end of a callback means for the loop. -/
def Outcome.ending : Outcome → Option Ending
  | .returns => none
  | .stops => some .stopped
  | .raises => some .raised

namespace Program

variable {σ τ β : Type} [AddCommGroup τ] [LinearOrder τ] (prog : Program σ τ β)

/-- The event is executed: its callback is called. -/
def execute (run : Run σ τ β) (event : Queue τ β) : Run σ τ β × Option Ending :=
  let turn := prog.callback event.call run.world (run.begin event).sim
  ((run.begin event).play turn, turn.outcome.ending)

/-- The event that `heappop` returned is dropped, ends the loop or is
executed. -/
def handle (run : Run σ τ β) (event : Queue τ β) : Run σ τ β × Option Ending :=
  if event.number ∈ run.sim.deleted then (run, none)
  else if run.sim.beyond event.time then
    ({ run with sim := { run.sim with events := run.sim.events - 1 } }, some .limit)
  else
    match prog.eventCallback run.world run.sim event (event.time - run.sim.time) with
    | none => (run.observe event run.world, some .raised)
    | some world => prog.execute (run.observe event world) event

/-- One pass through `while self._queue`. -/
def iterate (run : Run σ τ β) : Run σ τ β × Option Ending :=
  match heappop Queue.lt run.sim.queue with
  | none => (run, some .drained)
  | some (event, queue) => prog.handle (run.withQueue queue) event

/-- The loop. -/
def loop : Nat → Run σ τ β → Option (Run σ τ β × Ending)
  | 0, _ => none
  | fuel + 1, run =>
    match prog.iterate run with
    | (run, none) => loop fuel run
    | (run, some ending) => some (run, ending)

/-- `for agent in sorted(self._agents)` -/
def initAgents : List String → Run σ τ β → Run σ τ β × Outcome
  | [], run => (run, .returns)
  | agent :: rest, run =>
    let turn := prog.agent agent run.world run.sim
    match turn.outcome with
    | .returns => initAgents rest (run.play turn)
    | outcome => (run.play turn, outcome)

/-- `self.setup(**settings)` and the agents. -/
def prepare (run : Run σ τ β) : Run σ τ β × Outcome :=
  let turn := prog.setup run.world run.sim
  match turn.outcome with
  | .returns => prog.initAgents (prog.agents (run.play turn).world) (run.play turn)
  | outcome => (run.play turn, outcome)

/-- `self._events -= len(self._queue)`, unless the loop has raised. -/
def settle : Run σ τ β × Ending → Run σ τ β × Ending
  | (run, .raised) => (run, .raised)
  | (run, ending) =>
    ({ run with sim := { run.sim with events := run.sim.events - run.sim.queue.length } }, ending)

/-- `__call__`, up to the end of the loop. -/
def call (fuel : Nat) (run : Run σ τ β) : Option (Run σ τ β × Ending) :=
  match prog.prepare run with
  | (run, .returns) => (prog.loop fuel run).map settle
  | (run, _) => some (run, .raised)

end Program

/-! ## Uses of a simulation -/

/-- What happens to a simulation between two calls, and a call. -/
inductive Use (σ τ β : Type) where
  | outside (turn : Turn σ τ β)
  | call (fuel : Nat)

section

variable {σ τ β : Type} [AddCommGroup τ] [LinearOrder τ]

/-- Nothing is scheduled for the past. -/
def Action.Forward : Action τ β → Prop
  | .schedule _ dt _ => 0 ≤ dt
  | .cancel _ => True

instance (a : Action τ β) : Decidable a.Forward :=
  match a with
  | .schedule _ dt _ => inferInstanceAs (Decidable (0 ≤ dt))
  | .cancel _ => inferInstanceAs (Decidable True)

def Turn.Forward (turn : Turn σ τ β) : Prop := ∀ a ∈ turn.actions, a.Forward

instance (turn : Turn σ τ β) : Decidable turn.Forward :=
  inferInstanceAs (Decidable (∀ a ∈ turn.actions, a.Forward))

/-- No code that the simulation calls schedules for the past. -/
structure Program.Forward (prog : Program σ τ β) : Prop where
  setup : ∀ world sim, (prog.setup world sim).Forward
  agent : ∀ name world sim, (prog.agent name world sim).Forward
  callback : ∀ call world sim, (prog.callback call world sim).Forward

namespace Program

variable (prog : Program σ τ β)

/-- The simulation after it was used. -/
def use (run : Run σ τ β) : Use σ τ β → Run σ τ β
  | .outside turn => run.play turn
  | .call fuel => ((prog.call fuel run).map Prod.fst).getD run

/-- A use after which the simulation can be called: a call has ended, and
not by an exception. -/
def Permitted (run : Run σ τ β) : Use σ τ β → Prop
  | .outside turn => turn.Forward
  | .call fuel => ∃ run' ending, prog.call fuel run = some (run', ending) ∧ ending ≠ .raised

/-- The states of a simulation in which it can be called. -/
abbrev Callable (start : τ) (stop : Option τ) (world : σ) : Run σ τ β → Prop :=
  Reachable prog.use prog.Permitted (.init start stop world)

end Program

end

end Iams.Simulation
