/-
Iams.Scheduler.Event — the events of a `BufferScheduler`: `Event` of
`iams/interfaces/scheduler.py` as `iams/utils/scheduler.py` subclasses
it.

An event belongs to one scheduler and converts between seconds and the
solver's integer time steps through that scheduler's resolution; the
subclass's `_scheduler` is the argument `cfg` here. `TimeStep` is the one
thing asked of the number type for it: `round(value / resolution)`. On
integers this is a division of floats, which keeps the integers that a float
holds (`FloatExact`).

Attributes that no modelled function reads (`callback`, `args`,
`kwargs`, `setup`, `setup_condition`, the lanes) are left out.

No `sorry`, no `axiom`, no `native_decide`.
-/
import Iams.Lib.Binary64
import Iams.Scheduler.Etx
import Mathlib.Tactic.Linarith

namespace Iams.Scheduler

open Iams.Lib

/-! ## Resolution -/

/-- Numbers that can be turned into time steps. -/
class TimeStep (τ : Type) [Ring τ] [LinearOrder τ] where
  /-- `round(value / resolution)`, where `/` is a division of floats. -/
  roundDiv : τ → τ → Int
  /-- A whole number of steps converts to that number, as long as a float
  holds it. -/
  roundDiv_mul : ∀ (n : Int) (r : τ), |n| ≤ 2 ^ 53 → 0 < r → roundDiv ((n : τ) * r) r = n

/-- `round(v / r)` on integers. -/
def intRoundDiv (v r : Int) : Int := Binary64.roundQuotient v r

instance : TimeStep Int where
  roundDiv := intRoundDiv
  roundDiv_mul _ _ hn hr := Binary64.roundQuotient_mul hn hr

/-- The number is kept by a conversion at one second per step: a float
holds it. -/
def FloatExact (t : Int) : Prop := intRoundDiv t 1 = t

instance (t : Int) : Decidable (FloatExact t) := inferInstanceAs (Decidable (_ = _))

/-- A float holds every integer up to `2 ^ 53`. -/
theorem floatExact_of_le {t : Int} (h : |t| ≤ 2 ^ 53) : FloatExact t := by
  simpa [FloatExact, intRoundDiv] using Binary64.roundQuotient_mul h (r := 1) (by decide)

/-- The buffer lanes, `dict(enumerate(buffer, 1))` of a non-empty list:
lane 1 and the others. -/
structure Lanes where
  first : Int
  more : List Int
  deriving DecidableEq, Repr

/-- What `BufferScheduler.__init__` stores and nothing changes
afterwards. -/
structure BufferScheduler (τ : Type) [Ring τ] [LinearOrder τ] where
  horizonSeconds : τ
  resolution : τ
  resolution_pos : 0 < resolution
  bufferInput : Lanes
  bufferOutput : Lanes

namespace BufferScheduler

variable {τ : Type} [Ring τ] [LinearOrder τ] [TimeStep τ]

/-- `convert_seconds` -/
def convertSeconds (cfg : BufferScheduler τ) (value : τ) : τ := value * cfg.resolution

/-- `convert_resolution` -/
def convertResolution (cfg : BufferScheduler τ) (value : τ) : Int :=
  TimeStep.roundDiv value cfg.resolution

/-- `self.horizon` -/
def horizon (cfg : BufferScheduler τ) : Int := cfg.convertResolution cfg.horizonSeconds

/-- A scheduler with buffers of one lane each and one second per step. -/
def single (horizon input output : Int) : BufferScheduler Int where
  horizonSeconds := horizon
  resolution := 1
  resolution_pos := by decide
  bufferInput := ⟨input, []⟩
  bufferOutput := ⟨output, []⟩

theorem convertResolution_one {cfg : BufferScheduler Int} (h : cfg.resolution = 1) {v : Int}
    (hv : FloatExact v) : cfg.convertResolution v = v := by
  unfold convertResolution
  rw [h]
  exact hv

theorem convertSeconds_one {cfg : BufferScheduler Int} (h : cfg.resolution = 1)
    (v : Int) : cfg.convertSeconds v = v := by
  unfold convertSeconds
  rw [h, mul_one]

end BufferScheduler

/-! ## Events -/

structure Event (τ : Type) where
  duration : τ
  uid : Nat
  state : States
  eta : ETX τ
  etd : ETX τ
  scheduleStart : Option τ
  scheduleFinish : Option τ
  activityStart : Option τ
  activityFinish : Option τ
  useDatetime : Bool
  canceled : Bool
  deriving DecidableEq, Repr

/-- `__eta_states__`: the states before an event is started. -/
def States.waiting : States → Bool
  | .new | .scheduled | .arrived => true
  | _ => false

/-- The forms in which the constructor takes `eta` and `etd`. A dict
holds the arguments of `ETX`. -/
inductive EtxArg (τ : Type) where
  | none
  | number (time : τ)
  | list (times : List (Option τ))
  | dict (args : ETX τ)
  deriving DecidableEq, Repr

/-- The keyword arguments of the constructor. `datetime` says whether the
times given are datetimes. -/
structure EventArgs (τ : Type) where
  duration : τ
  eta : EtxArg τ := .none
  etd : EtxArg τ := .none
  state : States := .new
  datetime : Bool := false
  deriving DecidableEq, Repr

namespace Event

variable {τ : Type} [Ring τ] [LinearOrder τ]

/-- The dispatch on the form of `eta` (or `etd`) in `__post_init__`. -/
def buildEtx (datetime : Bool) (label : String) : EtxArg τ → Except PyError (ETX τ)
  | .dict args => ETX.postInit datetime args
  | .list [a] => ETX.postInit datetime (.fields a Option.none a)
  | .list [a, b] => ETX.postInit datetime (.fields a Option.none b)
  | .list [a, b, c] => ETX.postInit datetime (.fields a b c)
  | .list _ => .error (.valueError (label ++ " list or tuple is to long"))
  | .number t => ETX.postInit datetime (.fields (some t) (some t) (some t))
  | .none => ETX.postInit datetime (.fields Option.none Option.none Option.none)

/-- The constructor with `__post_init__`; `uid` is what
`SchedulerInterface.__call__` assigns next. -/
def postInit (uid : Nat) (args : EventArgs τ) : Except PyError (Event τ) := do
  let eta ← buildEtx args.datetime "ETA" args.eta
  let etd ← buildEtx args.datetime "ETD" args.etd
  let useDatetime := eta.useDatetime || etd.useDatetime
  if !eta.bool then
    throw (.valueError "ETA needs to be set")
  return {
    duration := args.duration
    uid := uid
    state := if eta.bool && etd.bool then .scheduled else args.state
    eta := { eta with useDatetime := useDatetime }
    etd := { etd with useDatetime := useDatetime }
    scheduleStart := none
    scheduleFinish := none
    activityStart := none
    activityFinish := none
    useDatetime := useDatetime
    canceled := false }

/-- The truthy part of an optional time: a number 0 is falsy. -/
def truthy (e : Event τ) : Option τ → List τ
  | none => []
  | some t => if e.useDatetime || t != 0 then [t] else []

/-- `__iter__` -/
def iter (e : Event τ) : List τ :=
  e.truthy e.activityStart ++ e.truthy e.scheduleStart ++ e.truthy e.scheduleFinish ++
    e.truthy e.activityFinish

/-- The lexicographic end of the tuple comparisons of `__lt__`. -/
def ltRest (a b : Event τ) : Bool :=
  if a.duration = b.duration then decide (a.uid < b.uid) else decide (a.duration < b.duration)

/-- `__lt__`: events before their start by `(eta, duration, uid)`,
started ones by `(schedule_start, duration, uid)`, finished ones by
`(schedule_finish, duration, uid)`, two of another state by `eta`, and
otherwise the later state first. -/
def lt (a b : Event τ) : Bool :=
  if a.state.waiting && b.state.waiting then
    if a.eta.eq b.eta then ltRest a b else a.eta.lt b.eta
  else if a.state.value = b.state.value then
    if a.state = .started then
      if a.scheduleStart = b.scheduleStart then ltRest a b
      else ETX.less a.scheduleStart b.scheduleStart
    else if a.state = .finished then
      if a.scheduleFinish = b.scheduleFinish then ltRest a b
      else ETX.less a.scheduleFinish b.scheduleFinish
    else a.eta.lt b.eta
  else decide (b.state.value < a.state.value)

/-! ## Times in steps -/

section Steps

variable [TimeStep τ] (cfg : BufferScheduler τ)

/-- `convert_resolution` on a value the event hands out: `None` and, in
datetime mode without `now`, a datetime do not divide. -/
def convertTime (useDatetime : Bool) (now value : Option τ) : Except PyError Int :=
  match value with
  | none => .error .typeError
  | some v =>
      if useDatetime && now.isNone then .error .typeError
      else .ok (cfg.convertResolution v)

/-- `convert_resolution` on a value that is in steps already. -/
def convertSteps (value : Option Int) : Except PyError Int :=
  match value with
  | none => .error .typeError
  | some v => .ok (cfg.convertResolution (v : τ))

/-- The two assignments of `eta_constraints` and `etd_constraints`: the
lower side is converted, and the upper side, where there is one, is the
lower side converted again. -/
def convertConstraints (useDatetime : Bool) (now : Option τ)
    (constraints : Option τ × Option τ) : Except PyError (Option Int × Option Int) := do
  let low ← match constraints.1 with
    | none => pure none
    | some v => some <$> convertTime cfg useDatetime now (some v)
  let high ← match constraints.2 with
    | none => pure none
    | some _ => some <$> convertSteps cfg low
  return (low, high)

/-- `eta_constraints` -/
def etaConstraints (e : Event τ) (now : Option τ) :
    Except PyError (Option Int × Option Int) :=
  convertConstraints cfg e.eta.useDatetime now (e.eta.getConstraints now)

/-- `etd_constraints` -/
def etdConstraints (e : Event τ) (now : Option τ) :
    Except PyError (Option Int × Option Int) :=
  convertConstraints cfg e.etd.useDatetime now (e.etd.getConstraints now)

/-- `_get_time`: the base class's value, in steps. -/
def getTime (e : Event τ) (value now : Option τ) : Except PyError (Option Int) :=
  match value with
  | none => .ok none
  | some v =>
      match e.useDatetime, now with
      | true, none => .error .assertionError
      | true, some n => .ok (some (cfg.convertResolution (v - n)))
      | false, _ => .ok (some (cfg.convertResolution v))

/-- `get_start` -/
def getStart (e : Event τ) (now : Option τ) : Except PyError (Option Int) :=
  e.getTime cfg e.scheduleStart now

/-- `get_finish` -/
def getFinish (e : Event τ) (now : Option τ) : Except PyError (Option Int) :=
  e.getTime cfg e.scheduleFinish now

/-- `_get_seconds`. Its assertion that a datetime event is given `now`
holds wherever it is reached: `start` and `finish` pass their time, and a
model is only solved after `get_variables` has needed `now`. -/
def getSeconds (e : Event τ) (seconds : τ) (now : Option τ) : τ :=
  match e.useDatetime, now with
  | true, some n => n + seconds
  | _, _ => seconds

/-- `set_start` -/
def setStart (e : Event τ) (seconds : τ) (now : Option τ) : Event τ :=
  { e with scheduleStart := some (e.getSeconds (cfg.convertSeconds seconds) now) }

/-- `set_finish` -/
def setFinish (e : Event τ) (seconds : τ) (now : Option τ) : Event τ :=
  { e with scheduleFinish := some (e.getSeconds (cfg.convertSeconds seconds) now) }

/-! ## Lifecycle -/

/-- `arrive` -/
def arrive (e : Event τ) (time : τ) : Event τ :=
  { e with state := .arrived, eta := e.eta.set time none, activityStart := some time }

/-- `cancel` -/
def cancel (e : Event τ) : Event τ :=
  { e with
    state := match e.state with
      | .new | .scheduled | .departed => .canceled
      | state => state
    canceled := true }

/-- `depart` -/
def depart (e : Event τ) (time : τ) : Event τ :=
  { e with state := .departed, etd := e.etd.set time none, activityFinish := some time }

/-- `finish` -/
def finish (e : Event τ) (time : τ) : Event τ :=
  if e.useDatetime then ({ e with state := .finished }).setFinish cfg 0 (some time)
  else ({ e with state := .finished }).setFinish cfg time none

/-- `start` -/
def start (e : Event τ) (time : τ) : Event τ :=
  if e.useDatetime then ({ e with state := .started }).setStart cfg 0 (some time)
  else ({ e with state := .started }).setStart cfg time none

end Steps

/-- `upper` in `schedule_eta` and `schedule_etd`, by default as far from
`lower` as the margins ask. A datetime ETX adds them as a `timedelta`,
which fails on the number of seconds that `lower` is where `now` is
given. -/
def upperOr (x : ETX τ) (lower : τ) (upper now : Option τ) : Except PyError τ :=
  match upper with
  | some upper => .ok upper
  | none =>
      if x.useDatetime && now.isSome then .error .typeError
      else .ok (lower + x.marginHigh + x.marginLow)

/-- The window that `schedule_eta` and `schedule_etd` store. -/
def newWindow (x : ETX τ) (lower : τ) (upper now : Option τ) : Except PyError (ETX τ) := do
  let upper ← upperOr x lower upper now
  x.setConstraints (some lower) (some upper) now

/-- The end of `schedule_eta` and `schedule_etd`. -/
def markScheduled (e : Event τ) : Event τ :=
  if e.eta.bool && e.etd.bool then { e with state := .scheduled } else e

/-- `schedule_eta` -/
def scheduleEta (e : Event τ) (lower : τ) (upper now : Option τ) :
    Except PyError (Event τ) := do
  let eta ← newWindow e.eta lower upper now
  return ({ e with eta := eta }).markScheduled

/-- `schedule_etd` -/
def scheduleEtd (e : Event τ) (lower : τ) (upper now : Option τ) :
    Except PyError (Event τ) := do
  let etd ← newWindow e.etd lower upper now
  return ({ e with etd := etd }).markScheduled

end Event

end Iams.Scheduler
