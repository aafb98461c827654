/-
Iams.Scheduler.World — a `BufferScheduler` with the events it has
created, and every way to change them.

`World` holds the objects of the scheduler's events and the mutable
attributes of the scheduler: the counter that numbers the events, the
queue `_events` and `max_horizon`. A method returns its outcome and the
world it leaves, also when it raises: what was changed before the
exception stays changed.

`Op` lists what a program can do to a scheduler and its events, `exec`
is its effect and `Reachable` the worlds a program can get to, from a
new scheduler. Every call of a method that solves a model brings its own
solver, so two calls on the same model may be answered differently.

No `sorry`, no `axiom`, no `native_decide`.
-/
import Iams.Scheduler.Model

namespace Iams.Scheduler

open Iams.Lib

structure World (τ : Type) where
  obj : Nat → Event τ
  counter : Nat
  events : List Nat
  maxHorizon : Int

/-- What a method call answers: its return value or the exception. -/
abbrev Answer (α : Type) := Except PyError α

namespace World

variable {τ : Type} [Ring τ] [LinearOrder τ] [TimeStep τ]

/-- An event that is in the store under a number not assigned yet. -/
def blank (u : Nat) : Event τ :=
  { duration := 0, uid := u, state := .new
    eta := .fields (some 0) (some 0) (some 0), etd := .fields none none none
    scheduleStart := none, scheduleFinish := none
    activityStart := none, activityFinish := none
    useDatetime := false, canceled := false }

/-- `BufferScheduler.__init__` -/
def init (cfg : BufferScheduler τ) : World τ :=
  { obj := blank, counter := 1, events := [], maxHorizon := cfg.horizon }

/-- The event numbered `u` has been created. -/
def Created (w : World τ) (u : Nat) : Prop := 1 ≤ u ∧ u < w.counter

instance (w : World τ) (u : Nat) : Decidable (w.Created u) :=
  inferInstanceAs (Decidable (1 ≤ u ∧ u < w.counter))

/-- Replace one event's object. -/
def setObj (w : World τ) (u : Nat) (e : Event τ) : World τ :=
  { w with obj := Function.update w.obj u e }

/-- `SchedulerInterface.__call__`: construct an event and number it. -/
def create (w : World τ) (args : EventArgs τ) : Answer Nat × World τ :=
  match Event.postInit w.counter args with
  | .error err => (.error err, w)
  | .ok e => (.ok w.counter, { w.setObj w.counter e with counter := w.counter + 1 })

variable (cfg : BufferScheduler τ) (S : Sorter Nat)

/-- `get_event_variables` -/
def getEventVariables (w : World τ) (new : List Nat) (now : Option τ) :
    Answer (List (Nat × Variables) × (Int × Int)) × World τ :=
  match consume cfg w.obj now (getEvents w.obj w.events new) .empty w.events with
  | (.error err, queue) => (.error err, { w with events := queue })
  | (.ok c, queue) =>
      let (simMin, simMax) := c.makespan cfg.horizon
      let maxHorizon := max w.maxHorizon simMax
      (.ok (c.eventsData, (simMin, maxHorizon)),
        { w with events := queue, maxHorizon := maxHorizon })

/-- `optimize_model`; `save` only decides the return value, which
`solve_model` drops. -/
def optimizeModel (w : World τ) (cp : Cp.Solver Var) (model : Cp.Model Var)
    (keys : List Nat) (offset : Int) (now : Option τ) (save : Bool) :
    Answer (Option Bool) × World τ :=
  match cp model with
  | .failed => (.error (.canNotSchedule "Solver failed"), w)
  | .status name => (.error (.canNotSchedule ("Solver returned " ++ name)), w)
  | .optimal s =>
      (.ok (if save then none else some true),
        { w with obj := writeBackAll cfg w.obj keys s offset now })

/-- `solve_model` -/
def solveModel (w : World τ) (cp : Cp.Solver Var) (new : List Nat) (now : Option τ)
    (save : Bool) : Answer (List Nat) × World τ :=
  match w.getEventVariables cfg new now with
  | (.error err, w) => (.error err, w)
  | (.ok (events, makespan), w) =>
      match buildModel w.obj S cfg events makespan with
      | .error err => (.error err, w)
      | .ok (model, offset) =>
          match w.optimizeModel cfg cp model (events.map Prod.fst) offset now save with
          | (.error err, w) => (.error err, w)
          | (.ok _, w) => (.ok new, w)

/-- `can_schedule` -/
def canSchedule (w : World τ) (cp : Cp.Solver Var) (u : Nat) (now : Option τ) :
    Answer (List Nat) × World τ :=
  w.solveModel cfg S cp [u] now false

/-- `add` -/
def add (w : World τ) (cp : Cp.Solver Var) (u : Nat) (now : Option τ) :
    Answer (List Nat) × World τ :=
  w.solveModel cfg S cp [u] now true

/-- `validate` -/
def validate (w : World τ) (cp : Cp.Solver Var) (now : Option τ) :
    Answer Bool × World τ :=
  match w.solveModel cfg S cp [] now false with
  | (.error (.canNotSchedule _), w) => (.ok false, w)
  | (.error err, w) => (.error err, w)
  | (.ok _, w) => (.ok true, w)

/-- `SchedulerInterface.save` -/
def save (w : World τ) (cp : Cp.Solver Var) (u : Nat) (now : Option τ) :
    Answer Bool × World τ :=
  match w.add cfg S cp u now with
  | (.error (.canNotSchedule _), w) => (.ok false, w)
  | (.error err, w) => (.error err, w)
  | (.ok _, w) => (.ok true, { w with events := w.events ++ [u] })

end World

/-! ## Programs -/

/-- What a program does to a scheduler and the events it has created. -/
inductive Op (τ : Type) where
  | create (args : EventArgs τ)
  | arrive (u : Nat) (time : τ)
  | cancel (u : Nat)
  | depart (u : Nat) (time : τ)
  | finish (u : Nat) (time : τ)
  | start (u : Nat) (time : τ)
  | scheduleEta (u : Nat) (lower : τ) (upper now : Option τ)
  | scheduleEtd (u : Nat) (lower : τ) (upper now : Option τ)
  | save (cp : Cp.Solver Var) (u : Nat) (now : Option τ)
  | canSchedule (cp : Cp.Solver Var) (u : Nat) (now : Option τ)
  | validate (cp : Cp.Solver Var) (now : Option τ)

/-- The return values of the operations. -/
inductive Result where
  | unit
  | event (u : Nat)
  | events (us : List Nat)
  | bool (b : Bool)
  | raised (err : PyError)
  deriving DecidableEq, Repr

namespace Result

def ofAnswer {α : Type} (f : α → Result) : Answer α → Result
  | .ok a => f a
  | .error err => raised err

end Result

namespace World

variable {τ : Type} [Ring τ] [LinearOrder τ] [TimeStep τ]
variable (cfg : BufferScheduler τ) (S : Sorter Nat)

/-- Replace an event's object by what a method that may raise makes of
it. -/
def tryObj (w : World τ) (u : Nat) (e : Answer (Event τ)) : Result × World τ :=
  match e with
  | .error err => (.raised err, w)
  | .ok e => (.unit, w.setObj u e)

/-- One operation: what it returns and the world it leaves. -/
def exec (w : World τ) : Op τ → Result × World τ
  | .create args => ((w.create args).map (Result.ofAnswer .event) id)
  | .arrive u t => (.unit, w.setObj u ((w.obj u).arrive t))
  | .cancel u => (.unit, w.setObj u (w.obj u).cancel)
  | .depart u t => (.unit, w.setObj u ((w.obj u).depart t))
  | .finish u t => (.unit, w.setObj u ((w.obj u).finish cfg t))
  | .start u t => (.unit, w.setObj u ((w.obj u).start cfg t))
  | .scheduleEta u lower upper now => w.tryObj u ((w.obj u).scheduleEta lower upper now)
  | .scheduleEtd u lower upper now => w.tryObj u ((w.obj u).scheduleEtd lower upper now)
  | .save cp u now => (w.save cfg S cp u now).map (Result.ofAnswer .bool) id
  | .canSchedule cp u now => (w.canSchedule cfg S cp u now).map (Result.ofAnswer .events) id
  | .validate cp now => (w.validate cfg S cp now).map (Result.ofAnswer .bool) id

end World

end Iams.Scheduler
