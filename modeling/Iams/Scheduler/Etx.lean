/-
Iams.Scheduler.Etx — estimated arrival and departure times, the class
`ETX` of `iams/interfaces/scheduler.py`.

The times of an ETX are numbers, or datetimes throughout: `__post_init__`
refuses a mixture, so one flag, `useDatetime`, tells which. A datetime is
its distance in seconds from some fixed moment, `(a - b).total_seconds()`
is a subtraction and adding a `timedelta` an addition, so that both kinds
live in one number type `τ`. Arithmetic is exact: a Python float stands
for the number it denotes.

`now` is optional as in the source. A datetime ETX takes times from
outside as numbers of seconds where `now` is given, else as datetimes.
Where a number would reach an operation that only the other kind supports,
or a datetime, the exception is raised as the source meets it.

No `sorry`, no `axiom`, no `native_decide`.
-/
import Mathlib.Algebra.Order.Ring.Int
import Mathlib.Data.Int.Order.Basic

namespace Iams.Scheduler

/-- The exceptions the scheduler can raise. -/
inductive PyError where
  | typeError
  | attributeError
  | assertionError
  | valueError (message : String)
  | notImplementedError (message : String)
  | canNotSchedule (message : String)
  deriving DecidableEq, Repr

/-- `States`, the event states enum. -/
inductive States where
  | new
  | scheduled
  | arrived
  | started
  | finished
  | departed
  | canceled
  deriving DecidableEq, Repr

/-- `States.value`, as `auto()` numbers the members. -/
def States.value : States → Nat
  | .new => 1
  | .scheduled => 2
  | .arrived => 3
  | .started => 4
  | .finished => 5
  | .departed => 6
  | .canceled => 7

/-- `str(state)`, which the error texts quote. -/
def States.str : States → String
  | .new => "States.NEW"
  | .scheduled => "States.SCHEDULED"
  | .arrived => "States.ARRIVED"
  | .started => "States.STARTED"
  | .finished => "States.FINISHED"
  | .departed => "States.DEPARTED"
  | .canceled => "States.CANCELED"

/-- `ETX`: a time with its hard constraints, its soft range and the
margins between the time and that range. -/
structure ETX (τ : Type) where
  time : Option τ
  constraintHigh : Option τ
  constraintLow : Option τ
  timeHigh : Option τ
  timeLow : Option τ
  marginLow : τ
  marginHigh : τ
  useDatetime : Bool
  deriving DecidableEq, Repr

namespace ETX

/-- An ETX with the given times and the defaults of the dataclass for
everything else. -/
def fields {τ : Type} [Zero τ] (constraintLow time constraintHigh : Option τ) : ETX τ :=
  { time := time, constraintHigh := constraintHigh, constraintLow := constraintLow,
    timeHigh := none, timeLow := none, marginLow := 0, marginHigh := 0,
    useDatetime := false }

/-- `__bool__`: both hard constraints are set. -/
def bool {τ : Type} (x : ETX τ) : Bool := x.constraintHigh.isSome && x.constraintLow.isSome

/-! ## Reading and writing times -/

section Times

variable {τ : Type} [Ring τ]

/-- `get`: the time, counted from `now` for a datetime. -/
def get (x : ETX τ) (now : Option τ) : Option τ :=
  match x.useDatetime, x.time, now with
  | true, some t, some n => some (t - n)
  | _, _, _ => x.time

/-- `set`: a number of seconds after `now` for a datetime ETX when `now`
is given, else the time itself. -/
def set (x : ETX τ) (time : τ) (now : Option τ) : ETX τ :=
  match x.useDatetime, now with
  | true, some n => { x with time := some (n + time) }
  | _, _ => { x with time := some time }

/-- `get_constraints`. -/
def getConstraints (x : ETX τ) (now : Option τ) : Option τ × Option τ :=
  match x.useDatetime, now with
  | true, some n => (x.constraintLow.map (· - n), x.constraintHigh.map (· - n))
  | _, _ => (x.constraintLow, x.constraintHigh)

/-- The assignment at the end of `set_constraints`. -/
def storeConstraints (x : ETX τ) (lower upper now : Option τ) : ETX τ :=
  match x.useDatetime, now with
  | true, some n =>
      { x with constraintLow := lower.map (n + ·), constraintHigh := upper.map (n + ·) }
  | _, _ => { x with constraintLow := lower, constraintHigh := upper }

theorem get_of_numeric {x : ETX τ} (h : x.useDatetime = false) (now : Option τ) :
    x.get now = x.time := by
  unfold get
  rw [h]

theorem set_of_numeric {x : ETX τ} (h : x.useDatetime = false) (t : τ)
    (now : Option τ) : x.set t now = { x with time := some t } := by
  unfold set
  rw [h]

theorem getConstraints_of_numeric {x : ETX τ} (h : x.useDatetime = false)
    (now : Option τ) : x.getConstraints now = (x.constraintLow, x.constraintHigh) := by
  unfold getConstraints
  rw [h]

/-- Setting the time leaves everything else. -/
theorem set_frame (x : ETX τ) (t : τ) (now : Option τ) :
    x.set t now = { x with time := (x.set t now).time } := by
  unfold set
  split <;> rfl

@[simp] theorem set_none (x : ETX τ) (t : τ) : x.set t none = { x with time := some t } := by
  unfold set
  split
  · next heq => cases heq
  · rfl

end Times

/-! ## Comparison, construction and constraints -/

section Order

variable {τ : Type} [Ring τ] [LinearOrder τ]

/-- Both sides are set and the first is less. -/
def less (a b : Option τ) : Bool :=
  match a, b with
  | some a, some b => decide (a < b)
  | _, _ => false

/-- `__eq__` on two ETX compares the times only. -/
def eq (x y : ETX τ) : Bool := x.time == y.time

/-- What `__lt__` compares: the time, or the lower constraint without
one. -/
def ltValue (x : ETX τ) : Option τ :=
  match x.time with
  | none => x.constraintLow
  | some t => some t

/-- `__lt__` on two ETX. Python raises a TypeError where a side has
neither a time nor a lower constraint; an event's `eta` always has a
lower constraint (`Event.postInit`), and the comparison of other ETX
answers `false` here. -/
def lt (x y : ETX τ) : Bool := less x.ltValue y.ltValue

/-- Widen `time_high` to the margin. -/
def pushHigh (x : ETX τ) : ETX τ :=
  match x.timeHigh, x.time with
  | some high, some t =>
      if high - t < x.marginHigh then { x with timeHigh := some (t + x.marginHigh) } else x
  | _, _ => x

/-- Widen `time_low` to the margin. -/
def pushLow (x : ETX τ) : ETX τ :=
  match x.timeLow, x.time with
  | some low, some t =>
      if t - low < x.marginLow then { x with timeLow := some (t - x.marginLow) } else x
  | _, _ => x

/-- `validate`: the three checks, then the soft range is pushed out to
the margins. -/
def validate (x : ETX τ) : Except PyError (ETX τ) :=
  if less x.constraintHigh x.constraintLow then
    .error (.valueError "contraint_high is smaller than constraint_low")
  else if less x.timeHigh x.timeLow then
    .error (.valueError "time_high is smaller than time_low")
  else if less (x.constraintHigh.bind fun high => x.constraintLow.map (high - ·))
      (some (x.marginHigh + x.marginLow)) then
    .error (.valueError "contraint_high and constraint_low need to be within the margins")
  else .ok x.pushHigh.pushLow

/-- The first of the time attributes that is set, in the order
`__post_init__` looks at them. -/
def firstSet (x : ETX τ) : Option String :=
  if x.time.isSome then some "time"
  else if x.constraintHigh.isSome then some "constraint_high"
  else if x.constraintLow.isSome then some "constraint_low"
  else if x.timeHigh.isSome then some "time_high"
  else if x.timeLow.isSome then some "time_low"
  else none

/-- The soft range's defaults: first from the hard constraints, then from
the time and the margins. -/
def defaults (x : ETX τ) : ETX τ :=
  let high := x.timeHigh.or x.constraintHigh
  let low := x.timeLow.or x.constraintLow
  { x with
    timeHigh := high.or (x.time.map (· + x.marginHigh))
    timeLow := low.or (x.time.map (· - x.marginLow)) }

/-- `__post_init__`. `datetime` says whether the times given are
datetimes. -/
def postInit (datetime : Bool) (x : ETX τ) : Except PyError (ETX τ) :=
  let useDatetime := x.useDatetime || (datetime && x.firstSet.isSome)
  match useDatetime && !datetime, x.firstSet with
  | true, some attr => .error (.valueError (attr ++ " is not datetime"))
  | _, _ =>
      if x.marginLow < 0 ∨ x.marginHigh < 0 then
        .error (.valueError "Margins need to be positive")
      else ({ x with useDatetime := useDatetime }).defaults.validate

/-- `set_constraints`. The sides given to a datetime ETX are datetimes, or
numbers of seconds after `now`; the difference of two numbers has no
`total_seconds`. -/
def setConstraints (x : ETX τ) (lower upper now : Option τ) : Except PyError (ETX τ) :=
  if x.useDatetime && now.isSome && lower.isSome && upper.isSome then .error .attributeError
  else if less (upper.bind fun high => lower.map (high - ·))
      (some (x.marginHigh + x.marginLow)) then
    .error (.valueError
      "Upper-bond (\x7b%s\x7d) or lower-bond (\x7blower\x7d) are out of their margins")
  else .ok (x.storeConstraints lower upper now)

/-- Two ETX that differ in their soft range only. -/
structure SameHard (x y : ETX τ) : Prop where
  high : x.constraintHigh = y.constraintHigh
  low : x.constraintLow = y.constraintLow
  time : x.time = y.time
  useDatetime : x.useDatetime = y.useDatetime
  marginLow : x.marginLow = y.marginLow
  marginHigh : x.marginHigh = y.marginHigh

omit [Ring τ] [LinearOrder τ] in
theorem SameHard.trans {x y z : ETX τ} (hxy : SameHard x y) (hyz : SameHard y z) :
    SameHard x z :=
  ⟨hxy.1.trans hyz.1, hxy.2.trans hyz.2, hxy.3.trans hyz.3, hxy.4.trans hyz.4,
    hxy.5.trans hyz.5, hxy.6.trans hyz.6⟩

theorem pushHigh_sameHard (x : ETX τ) : SameHard x.pushHigh x := by
  unfold pushHigh
  split
  · split <;> exact ⟨rfl, rfl, rfl, rfl, rfl, rfl⟩
  · exact ⟨rfl, rfl, rfl, rfl, rfl, rfl⟩

theorem pushLow_sameHard (x : ETX τ) : SameHard x.pushLow x := by
  unfold pushLow
  split
  · split <;> exact ⟨rfl, rfl, rfl, rfl, rfl, rfl⟩
  · exact ⟨rfl, rfl, rfl, rfl, rfl, rfl⟩

/-- What `validate` lets through keeps its hard window, which is in
order. -/
theorem validate_ok {x y : ETX τ} (h : x.validate = .ok y) :
    less x.constraintHigh x.constraintLow = false ∧ SameHard y x := by
  unfold validate at h
  split at h
  · cases h
  · next hwindow =>
    split at h
    · cases h
    · split at h
      · cases h
      · cases h
        exact ⟨by simpa using hwindow,
          (pushLow_sameHard x.pushHigh).trans (pushHigh_sameHard x)⟩

/-- The constructor keeps the times it is given, in order, and makes no
datetime of numbers. -/
theorem postInit_ok {datetime : Bool} {x y : ETX τ} (h : postInit datetime x = .ok y) :
    less y.constraintHigh y.constraintLow = false ∧ (0 ≤ y.marginLow ∧ 0 ≤ y.marginHigh) ∧
      SameHard y { x with
        useDatetime := x.useDatetime || (datetime && x.firstSet.isSome) } := by
  unfold postInit at h
  dsimp only at h
  split at h
  · cases h
  · split at h
    · cases h
    · next hmargins =>
      obtain ⟨hless, hsame⟩ := validate_ok h
      rw [not_or, not_lt, not_lt] at hmargins
      rw [← hsame.high, ← hsame.low] at hless
      have hlow : y.marginLow = x.marginLow := hsame.marginLow
      have hhigh : y.marginHigh = x.marginHigh := hsame.marginHigh
      exact ⟨hless, hlow ▸ hhigh ▸ hmargins, ⟨hsame.high, hsame.low, hsame.time,
        hsame.useDatetime, hsame.marginLow, hsame.marginHigh⟩⟩

end Order

end ETX

end Iams.Scheduler
