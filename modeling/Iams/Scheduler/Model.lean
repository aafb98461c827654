/-
Iams.Scheduler.Model — the solver's model and the write-back of its
answer: `BufferScheduler.build_model` and the loop of
`BufferScheduler.optimize_model` of `iams/utils/scheduler.py`.

A variable is named by its role and its event. `newData` is the body of
the loop over the events: it creates the variables with their bounds
relative to `offset`, then the intervals with their sizes and the
inequality between the starts of two intervals that follow each other.
`buildModel` adds the order constraints over the sorted events, the three
buffers and the objective.

The order of the events comes from `sorted()`, a `Sorter` of
`Lib/Sorting.lean`: what it returns for a comparison that is not a weak
order is left open.

No `sorry`, no `axiom`, no `native_decide`.
-/
import Iams.Lib.Sorting
import Iams.Lib.CpModel
import Iams.Scheduler.Variables

namespace Iams.Scheduler

open Iams.Lib

/-- A variable of the model: its role and the event it belongs to. -/
abbrev Var := Name × Nat

/-- The keys `i`, `p` and `o` of the intervals: input buffer, processing,
output buffer. -/
inductive IntervalKey where
  | i
  | p
  | o
  deriving DecidableEq, Repr

/-- `new_data`: the variables with their bounds, the intervals, the
inequalities added for one event, and the loop variable `previous`. -/
structure NewData where
  bounds : List (Name × Int × Int)
  intervals : List (IntervalKey × Cp.IntervalVar Name)
  linear : List (Name × Name)
  previous : Option Name
  deriving DecidableEq, Repr

/-- The bounds of a variable of `ranges`, relative to `offset`. -/
def newBounds (offset horizon : Int) (range : Name × Bounds) : Name × Int × Int :=
  (range.1,
   match range.2.1 with
   | none => 0
   | some lower => lower - offset,
   match range.2.2 with
   | none => horizon
   | some upper => upper - offset)

namespace NewData

def names (d : NewData) : List Name := d.bounds.map Prod.fst

/-- The size variable of an interval, created unless it exists. -/
def addSize (horizon : Int) (d : NewData) (interval : Interval) : NewData :=
  if interval.durationName ∈ d.names then d
  else
    let duration := interval.duration.getD horizon
    { d with
      bounds := d.bounds ++
        [(interval.durationName, if interval.optional then 0 else duration, duration)] }

/-- The interval variable, and the inequality with the interval before
it. -/
def addVar (d : NewData) (key : IntervalKey) (interval : Interval) : NewData :=
  { d with
    intervals := d.intervals ++
      [(key, ⟨interval.startName, interval.durationName, interval.endName⟩)]
    linear := d.linear ++
      (match d.previous with
       | none => []
       | some previous => [(previous, interval.startName)])
    previous := some interval.startName }

/-- The body of the loop over the intervals. -/
def addInterval (horizon : Int) (d : NewData) (key : IntervalKey) :
    Option Interval → Except PyError NewData
  | none => .ok d
  | some interval =>
      if interval.startName ∉ d.names then
        .error (.valueError ("Need to set " ++ interval.startName.str))
      else if interval.endName ∉ d.names then
        .error (.valueError ("Need to set " ++ interval.endName.str))
      else .ok ((d.addSize horizon interval).addVar key interval)

end NewData

/-- The body of the loop over the events. -/
def newData (offset horizon : Int) (data : Variables) : Except PyError NewData := do
  let d : NewData := ⟨data.ranges.map (newBounds offset horizon), [], [], none⟩
  let d ← d.addInterval horizon .i data.intervalI
  let d ← d.addInterval horizon .p data.intervalP
  d.addInterval horizon .o data.intervalO

/-! ## The model -/

section Build

variable {τ : Type} [Ring τ] [LinearOrder τ] (obj : Nat → Event τ)

/-- `Event.__lt__` on two references. -/
def ltOn (a b : Nat) : Bool := (obj a).lt (obj b)

/-- The order constraints over the sorted events: of two neighbours that
both wait for their start, the first arrives and starts no later. -/
def orderConstraints : List Nat → List (Var × Var)
  | a :: b :: rest =>
      (if (obj a).state.waiting && (obj b).state.waiting then
        [((.eta, a), (.eta, b)), ((.start, a), (.start, b))]
       else []) ++ orderConstraints (b :: rest)
  | _ => []

/-- The loop over the events, which stops at the first exception. -/
def newDatas (offset horizon : Int) :
    List (Nat × Variables) → Except PyError (List (Nat × NewData))
  | [] => .ok []
  | (u, data) :: rest => do
      let d ← newData offset horizon data
      let ds ← newDatas offset horizon rest
      return (u, d) :: ds

/-- An interval of one event as an interval of the model. -/
def toVar (u : Nat) (interval : Cp.IntervalVar Name) : Cp.IntervalVar Var :=
  ⟨(interval.start, u), (interval.size, u), (interval.stop, u)⟩

/-- `[data["interval_key"] for data in events.values() if ...]` -/
def intervalsOf (key : IntervalKey) (datas : List (Nat × NewData)) :
    List (Cp.IntervalVar Var) :=
  datas.flatMap fun (u, d) =>
    (d.intervals.filter fun x => x.1 = key).map fun x => toVar u x.2

/-- The model once the loop over the events is done. -/
def assemble (S : Sorter Nat) (cfg : BufferScheduler τ)
    (datas : List (Nat × NewData)) : Cp.Model Var where
  bounds := datas.flatMap fun (u, d) => d.bounds.map fun (name, b) => ((name, u), b)
  intervals := datas.flatMap fun (u, d) => d.intervals.map fun x => toVar u x.2
  linear :=
    (datas.flatMap fun (u, d) => d.linear.map fun (a, b) => ((a, u), (b, u))) ++
      orderConstraints obj (S.sort (ltOn obj) (datas.map Prod.fst))
  cumulatives :=
    [Cp.Cumulative.unit (intervalsOf .i datas) cfg.bufferInput.first,
     Cp.Cumulative.unit (intervalsOf .p datas) 1,
     -- the output buffer gets the capacity of the input buffer
     Cp.Cumulative.unit (intervalsOf .o datas) cfg.bufferInput.first]
  objective := datas.map fun (u, _) => (.etd, u)

/-- `build_model`: the model and the offset of its times. -/
def buildModel (S : Sorter Nat) (cfg : BufferScheduler τ)
    (events : List (Nat × Variables)) (makespan : Int × Int) :
    Except PyError (Cp.Model Var × Int) := do
  let offset := makespan.1
  let horizon := makespan.2 - offset
  let datas ← newDatas offset horizon events
  return (assemble obj S cfg datas, offset)

end Build

/-! ## Write-back -/

section WriteBack

variable {τ : Type} [Ring τ] [LinearOrder τ] (cfg : BufferScheduler τ)

/-- What the loop of `optimize_model` stores on one event; `value name`
is `solver.Value(data[name]) + offset`. -/
def Event.writeBack (e : Event τ) (value : Name → Int) (now : Option τ) : Event τ :=
  match e.state with
  | .new =>
      let e := { e with eta := e.eta.set (cfg.convertSeconds (value .eta : τ)) now }
      let e := e.setStart cfg (value .start : τ) now
      let e := e.setFinish cfg (value .finish : τ) now
      { e with etd := e.etd.set (cfg.convertSeconds (value .etd : τ)) now }
  | .scheduled | .arrived =>
      (e.setStart cfg (value .start : τ) now).setFinish cfg (value .finish : τ) now
  | .started => e.setFinish cfg (value .finish : τ) now
  | _ => e

@[simp] theorem Event.writeBack_state (e : Event τ) (value : Name → Int) (now : Option τ) :
    (e.writeBack cfg value now).state = e.state := by
  unfold Event.writeBack
  split <;> rfl

/-- The loop itself: every event of the model is written once. -/
def writeBackAll (obj : Nat → Event τ) (keys : List Nat) (s : Cp.Assignment Var)
    (offset : Int) (now : Option τ) : Nat → Event τ :=
  fun u =>
    if u ∈ keys then (obj u).writeBack cfg (fun name => s (name, u) + offset) now
    else obj u

end WriteBack

end Iams.Scheduler
