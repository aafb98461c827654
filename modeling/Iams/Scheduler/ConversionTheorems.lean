/-
Iams.Scheduler.ConversionTheorems — seconds and time steps.

`fromNow` is the time in seconds as a solver call at `now` counts it, and
`stepsFrom` the same in time steps. `hardWindow` is what `eta_constraints`
and `etd_constraints` owe their caller, and `constraints_iff` says when
they pay: their upper side is the lower side converted once more.

The recorded start and finish of an event are converted twice on their way
into `get_variables` (`recordedSteps`), the recorded arrival and departure
once. `Driven` is an event that has been through its milestones, with
cancellations and solver runs in between; `Stored` is what such an event
holds, and `fixes_iff` says when the solver sees the recorded times.

No `sorry`, no `axiom`, no `native_decide`.
-/
import Iams.Scheduler.Gather

namespace Iams.Scheduler

open Iams.Lib.Fallible

variable {τ : Type} [Ring τ]

/-! ## Seconds and steps -/

/-- A time in seconds, counted from `now` where it is a datetime. -/
def fromNow (useDatetime : Bool) (now : Option τ) (t : τ) : τ :=
  match useDatetime, now with
  | true, some n => t - n
  | _, _ => t

section Windows

variable [LinearOrder τ] [TimeStep τ]

/-- The time step `round(t / r)`, or `round((t - now) / r)` for a
datetime. -/
def BufferScheduler.stepsFrom (cfg : BufferScheduler τ) (useDatetime : Bool) (now : Option τ)
    (t : τ) : Int :=
  cfg.convertResolution (fromNow useDatetime now t)

/-! ## Hard windows -/

/-- The hard constraints in time steps, each side on its own. -/
def ETX.hardWindow (cfg : BufferScheduler τ) (x : ETX τ) (now : Option τ) : Bounds :=
  (x.constraintLow.map (cfg.stepsFrom x.useDatetime now),
    x.constraintHigh.map (cfg.stepsFrom x.useDatetime now))

/-- An upper side comes with a lower side, whose steps taken as seconds
convert to the steps of the upper side. -/
def ETX.LowReachesHigh (cfg : BufferScheduler τ) (x : ETX τ) (now : Option τ) : Prop :=
  ∀ high, x.constraintHigh = some high → ∃ low, x.constraintLow = some low ∧
    cfg.convertResolution (cfg.stepsFrom x.useDatetime now low : τ) =
      cfg.stepsFrom x.useDatetime now high

/-- An event that may arrive from 0 to 5 and has to depart by 9. -/
def windowEvent : Event Int :=
  { duration := 1, uid := 1, state := .new
    eta := { ETX.fields (some 0) none (some 5) with timeHigh := some 5, timeLow := some 0 }
    etd := { ETX.fields none none (some 9) with timeHigh := some 9 }
    scheduleStart := none, scheduleFinish := none
    activityStart := none, activityFinish := none
    useDatetime := false, canceled := false }

namespace Event

variable {cfg : BufferScheduler τ} {now : Option τ}

/-- `convert_resolution` on a time that can be counted from `now`. -/
theorem convertTime_ok_of_now {b : Bool} (hnow : b = true → now.isSome) (v : τ) :
    convertTime cfg b now (some v) = .ok (cfg.convertResolution v) := by
  unfold convertTime
  cases b with
  | false => rfl
  | true =>
    obtain ⟨n, rfl⟩ := Option.isSome_iff_exists.mp (hnow rfl)
    rfl

omit [LinearOrder τ] [TimeStep τ] in
/-- The hard constraints as `get_constraints` hands them out. -/
theorem getConstraints_eq (x : ETX τ) (now : Option τ) :
    x.getConstraints now = (x.constraintLow.map (fromNow x.useDatetime now),
      x.constraintHigh.map (fromNow x.useDatetime now)) := by
  unfold ETX.getConstraints fromNow
  cases x.useDatetime <;> cases now <;> simp

/-- The two assignments of `eta_constraints` find the hard window if and
only if its lower side, converted again, is its upper side. -/
theorem convertConstraints_iff (x : ETX τ) (hnow : x.useDatetime = true → now.isSome) :
    convertConstraints cfg x.useDatetime now (x.getConstraints now) = .ok (x.hardWindow cfg now) ↔
      x.LowReachesHigh cfg now := by
  rw [getConstraints_eq]
  unfold convertConstraints ETX.hardWindow ETX.LowReachesHigh BufferScheduler.stepsFrom
  cases hlow : x.constraintLow with
  | none =>
    cases hhigh : x.constraintHigh with
    | none => simp
    | some high => simp [convertSteps]
  | some low =>
    cases hhigh : x.constraintHigh with
    | none => simp [convertTime_ok_of_now hnow]
    | some high => simp [convertTime_ok_of_now hnow, convertSteps]

/-- `eta_constraints` and `etd_constraints` return the hard windows in time
steps if and only if each window with an upper side has a lower side that
converts to the upper one when it is converted twice. -/
theorem constraints_iff (cfg : BufferScheduler τ) (e : Event τ) (now : Option τ)
    (hnow : e.eta.useDatetime = true ∨ e.etd.useDatetime = true → now.isSome) :
    (e.etaConstraints cfg now = .ok (e.eta.hardWindow cfg now) ∧
        e.etdConstraints cfg now = .ok (e.etd.hardWindow cfg now)) ↔
      e.eta.LowReachesHigh cfg now ∧ e.etd.LowReachesHigh cfg now :=
  and_congr (convertConstraints_iff e.eta fun h => hnow (Or.inl h))
    (convertConstraints_iff e.etd fun h => hnow (Or.inr h))

/-- The event with both windows closed to a point. -/
def pointEvent : Event Int :=
  { windowEvent with
    eta := .fields (some 3) none (some 3)
    etd := .fields (some 9) none (some 9) }

/-- At one second per step, the points are found, and the windows are
not. -/
theorem constraints_iff_window :
    (pointEvent.etaConstraints (.single 10 1 1) none = .ok (some 3, some 3) ∧
      pointEvent.etdConstraints (.single 10 1 1) none = .ok (some 9, some 9)) ∧
    ¬ (windowEvent.etaConstraints (.single 10 1 1) none =
          .ok (windowEvent.eta.hardWindow (.single 10 1 1) none) ∧
        windowEvent.etdConstraints (.single 10 1 1) none =
          .ok (windowEvent.etd.hardWindow (.single 10 1 1) none)) := by
  refine ⟨(constraints_iff (.single 10 1 1) pointEvent none (by decide)).mpr ⟨?_, ?_⟩, fun h => ?_⟩
  · rintro _ ⟨⟩
    exact ⟨3, rfl, by decide⟩
  · rintro _ ⟨⟩
    exact ⟨9, rfl, by decide⟩
  · have hreaches := (constraints_iff (.single 10 1 1) windowEvent none (by decide)).mp h
    obtain ⟨low, hlow, hsteps⟩ := hreaches.1 5 rfl
    cases hlow
    exact absurd hsteps (by decide)

/-- The arrival window from 0 to 5 becomes the point 0, and a departure
window without a lower side raises. -/
theorem window_collapses :
    postInit 1 (.mk 1 (.list [some 0, some 5]) (.list [none, some 9]) .new false)
        = .ok windowEvent ∧
      windowEvent.etaConstraints (.single 10 1 1) none = .ok (some 0, some 0) ∧
      windowEvent.etdConstraints (.single 10 1 1) none = .error .typeError ∧
      ¬ ∀ (cfg : BufferScheduler Int) (e : Event Int) (now : Option Int),
        (e.eta.useDatetime = true ∨ e.etd.useDatetime = true → now.isSome) →
          e.etaConstraints cfg now = .ok (e.eta.hardWindow cfg now) ∧
            e.etdConstraints cfg now = .ok (e.etd.hardWindow cfg now) := by
  refine ⟨by decide, by decide, by decide, fun h => ?_⟩
  have hwindow := (h (.single 10 1 1) windowEvent none (by decide)).1
  exact absurd hwindow (by decide)

end Event

end Windows

/-! ## Recorded times -/

/-- The milestones an event has been through, with the times given. -/
inductive Recorded (τ : Type) where
  | arrived (arrive : τ)
  | started (arrive start : τ)
  | finished (arrive start finish : τ)
  | departed (arrive start finish depart : τ)
  deriving DecidableEq, Repr

namespace Recorded

/-- The state these milestones leave. -/
def state : Recorded τ → States
  | arrived _ => .arrived
  | started _ _ => .started
  | finished _ _ _ => .finished
  | departed _ _ _ _ => .departed

/-- The solver's variables for the milestones; a finished event has no
variable for its arrival any more. -/
def fixed : Recorded τ → List (Name × τ)
  | arrived a => [(.eta, a)]
  | started a s => [(.eta, a), (.start, s)]
  | finished _ s f => [(.start, s), (.finish, f)]
  | departed _ s f d => [(.start, s), (.finish, f), (.etd, d)]

/-- The times that `set_start` and `set_finish` have stored. -/
def processing : Recorded τ → List τ
  | arrived _ => []
  | started _ s => [s]
  | finished _ s f | departed _ s f _ => [s, f]

end Recorded

variable [LinearOrder τ]

/-- An event that goes through its milestones in order; in between it may
be canceled, and the scheduler may store a solution. -/
inductive Driven (cfg : BufferScheduler τ) (e : Event τ) : Recorded τ → Event τ → Prop
  | arrive (a : τ) : Driven cfg e (.arrived a) (e.arrive a)
  | start {x : Event τ} {a : τ} (s : τ) :
      Driven cfg e (.arrived a) x → Driven cfg e (.started a s) (x.start cfg s)
  | finish {x : Event τ} {a s : τ} (f : τ) :
      Driven cfg e (.started a s) x → Driven cfg e (.finished a s f) (x.finish cfg f)
  | depart {x : Event τ} {a s f : τ} (d : τ) :
      Driven cfg e (.finished a s f) x → Driven cfg e (.departed a s f d) (x.depart d)
  | cancel {x : Event τ} {r : Recorded τ} :
      x.state ≠ .departed → Driven cfg e r x → Driven cfg e r x.cancel
  | solved {x : Event τ} {r : Recorded τ} (value : Name → Int) (now : Option τ) :
      Driven cfg e r x → Driven cfg e r (x.writeBack cfg value now)

namespace Event

/-- The event and its two ETX agree on the kind of their times, which is
what the constructor synchronizes. -/
structure Synced (e : Event τ) : Prop where
  eta : e.eta.useDatetime = e.useDatetime
  etd : e.etd.useDatetime = e.useDatetime

theorem postInit_synced {uid : Nat} {args : EventArgs τ} {e : Event τ}
    (h : postInit uid args = .ok e) : e.Synced := by
  unfold postInit at h
  obtain ⟨eta, -, h⟩ := bind_eq_ok.mp h
  obtain ⟨etd, -, h⟩ := bind_eq_ok.mp h
  dsimp only at h
  split at h
  · cases h
  · cases h
    exact ⟨rfl, rfl⟩

/-- What `set_start` and `set_finish` store for a milestone at `t`. -/
def stored (cfg : BufferScheduler τ) (e : Event τ) (t : τ) : τ :=
  if e.useDatetime then t else cfg.convertSeconds t

end Event

/-- The times that are stored for the milestones; `e` is the event before
the first of them. -/
def Recorded.Times (cfg : BufferScheduler τ) (e x : Event τ) : Recorded τ → Prop
  | arrived a => x.eta.time = some a
  | started a s => x.eta.time = some a ∧ x.scheduleStart = some (e.stored cfg s)
  | finished _ s f => x.scheduleStart = some (e.stored cfg s) ∧
      x.scheduleFinish = some (e.stored cfg f)
  | departed _ s f d => x.scheduleStart = some (e.stored cfg s) ∧
      x.scheduleFinish = some (e.stored cfg f) ∧ x.etd.time = some d

/-- What an event holds after its milestones. -/
structure Stored (cfg : BufferScheduler τ) (e : Event τ) (r : Recorded τ) (x : Event τ) :
    Prop where
  state : x.state = r.state
  synced : x.Synced
  useDatetime : x.useDatetime = e.useDatetime
  etdLow : x.etd.constraintLow = e.etd.constraintLow
  etdHigh : x.etd.constraintHigh = e.etd.constraintHigh
  times : r.Times cfg e x

section Driven

variable {cfg : BufferScheduler τ} {e x : Event τ} {r : Recorded τ}

/-- A milestone of a datetime event is stored as it is. -/
theorem Event.start_eq (hx : x.useDatetime = e.useDatetime) (s : τ) :
    x.start cfg s = { x with state := .started, scheduleStart := some (e.stored cfg s) } := by
  unfold Event.start Event.stored
  rw [← hx]
  cases x.useDatetime <;>
    simp [Event.setStart, Event.getSeconds, BufferScheduler.convertSeconds]

theorem Event.finish_eq (hx : x.useDatetime = e.useDatetime) (f : τ) :
    x.finish cfg f = { x with state := .finished, scheduleFinish := some (e.stored cfg f) } := by
  unfold Event.finish Event.stored
  rw [← hx]
  cases x.useDatetime <;>
    simp [Event.setFinish, Event.getSeconds, BufferScheduler.convertSeconds]

theorem Stored.cancel (h : Stored cfg e r x) (hgone : x.state ≠ .departed) :
    Stored cfg e r x.cancel where
  state := by
    have hstate := h.state
    unfold Event.cancel
    cases r <;> simp_all [Recorded.state]
  synced := ⟨h.synced.eta, h.synced.etd⟩
  useDatetime := h.useDatetime
  etdLow := h.etdLow
  etdHigh := h.etdHigh
  times := by
    have htimes := h.times
    cases r <;> exact htimes

/-- A solver run writes nothing that has been recorded. -/
theorem Stored.solved (h : Stored cfg e r x) (value : Name → Int) (now : Option τ) :
    Stored cfg e r (x.writeBack cfg value now) := by
  have hstate := h.state
  have htimes := h.times
  unfold Event.writeBack
  cases r with
  | arrived a =>
    rw [show x.state = .arrived from hstate]
    exact ⟨hstate, ⟨h.synced.eta, h.synced.etd⟩, h.useDatetime, h.etdLow, h.etdHigh, htimes⟩
  | started a s =>
    rw [show x.state = .started from hstate]
    exact ⟨hstate, ⟨h.synced.eta, h.synced.etd⟩, h.useDatetime, h.etdLow, h.etdHigh, htimes⟩
  | finished a s f =>
    rw [show x.state = .finished from hstate]
    exact h
  | departed a s f d =>
    rw [show x.state = .departed from hstate]
    exact h

/-- The milestones leave what `Stored` says. -/
theorem Driven.stored (he : e.Synced) (h : Driven cfg e r x) : Stored cfg e r x := by
  induction h with
  | arrive a =>
    refine ⟨rfl, ⟨?_, he.etd⟩, rfl, rfl, rfl, ?_⟩
    · simpa [Event.arrive] using he.eta
    · simp [Event.arrive, Recorded.Times]
  | @start x a s _ ih =>
    rw [Event.start_eq ih.useDatetime]
    exact ⟨rfl, ⟨ih.synced.eta, ih.synced.etd⟩, ih.useDatetime, ih.etdLow, ih.etdHigh,
      ih.times, rfl⟩
  | @finish x a s f _ ih =>
    rw [Event.finish_eq ih.useDatetime]
    exact ⟨rfl, ⟨ih.synced.eta, ih.synced.etd⟩, ih.useDatetime, ih.etdLow, ih.etdHigh,
      ih.times.2, rfl⟩
  | @depart x a s f d _ ih =>
    refine ⟨rfl, ⟨ih.synced.eta, ?_⟩, ih.useDatetime, ?_, ?_, ih.times.1, ih.times.2, ?_⟩
    · simpa [Event.depart] using ih.synced.etd
    · simpa [Event.depart] using ih.etdLow
    · simpa [Event.depart] using ih.etdHigh
    · simp [Event.depart]
  | cancel hgone _ ih => exact ih.cancel hgone
  | solved value now _ ih => exact ih.solved value now

end Driven

/-! ## What the solver sees -/

section Steps

variable [TimeStep τ]

/-- What `get_variables` makes of a stored start or finish: the stored
time in steps, which `_get_time` returns, in steps again. -/
def Event.recordedSteps (cfg : BufferScheduler τ) (e : Event τ) (now : Option τ) (t : τ) : Int :=
  cfg.convertResolution (cfg.stepsFrom e.useDatetime now (e.stored cfg t) : τ)

/-- `get_variables` answers, and fixes the variables of the milestones to
their time steps. -/
def Event.Fixes (cfg : BufferScheduler τ) (e : Event τ) (now : Option τ) (r : Recorded τ) : Prop :=
  ∃ v, e.getVariables cfg now = .ok v ∧ ∀ p ∈ r.fixed, v.ranges.lookup p.1 =
    some (some (cfg.stepsFrom e.useDatetime now p.2), some (cfg.stepsFrom e.useDatetime now p.2))

variable {cfg : BufferScheduler τ} {e x : Event τ} {r : Recorded τ} {now : Option τ}

/-- `get` and the conversion after it, on a time that is set. -/
theorem convertTime_get {y : ETX τ} {t : τ} (hnow : y.useDatetime = true → now.isSome)
    (ht : y.time = some t) :
    Event.convertTime cfg y.useDatetime now (y.get now) =
      .ok (cfg.stepsFrom y.useDatetime now t) := by
  unfold Event.convertTime ETX.get BufferScheduler.stepsFrom fromNow
  rw [ht]
  cases hb : y.useDatetime with
  | false => rfl
  | true =>
    obtain ⟨n, rfl⟩ := Option.isSome_iff_exists.mp (hnow hb)
    rfl

/-- `_get_time`, and `get_variables` after it, on a time that is set. -/
theorem getTime_steps {t : τ} (hnow : x.useDatetime = true → now.isSome) :
    x.getTime cfg (some t) now = .ok (some (cfg.stepsFrom x.useDatetime now t)) := by
  unfold Event.getTime BufferScheduler.stepsFrom fromNow
  cases hb : x.useDatetime with
  | false => rfl
  | true =>
    obtain ⟨n, rfl⟩ := Option.isSome_iff_exists.mp (hnow hb)
    rfl

variable (cfg x) in
/-- `etd_constraints` raises for an upper side without a lower one only. -/
theorem etdConstraints_ok_iff (hnow : x.etd.useDatetime = true → now.isSome) :
    (∃ b, x.etdConstraints cfg now = .ok b) ↔
      (x.etd.constraintHigh.isSome → x.etd.constraintLow.isSome) := by
  unfold Event.etdConstraints
  rw [Event.getConstraints_eq]
  unfold Event.convertConstraints
  cases x.etd.constraintLow <;> cases x.etd.constraintHigh <;>
    simp [Event.convertTime_ok_of_now hnow, Event.convertSteps]

/-- The stage of an event after its milestones. -/
theorem Stored.stage_eq (h : Stored cfg e r x) (hnow : e.useDatetime = true → now.isSome) :
    x.stage cfg now =
      match r with
      | .arrived a => (x.etdConstraints cfg now).map fun etd =>
          .arrived (cfg.stepsFrom e.useDatetime now a) etd (cfg.convertResolution x.duration)
            x.canceled
      | .started a s => (x.etdConstraints cfg now).map fun etd =>
          .started (cfg.stepsFrom e.useDatetime now a) (e.recordedSteps cfg now s) etd
            (cfg.convertResolution x.duration) x.canceled
      | .finished _ s f => (x.etdConstraints cfg now).map fun etd =>
          .finished (e.recordedSteps cfg now s) (e.recordedSteps cfg now f) etd
      | .departed _ s f d => .ok (.departed (e.recordedSteps cfg now s)
          (e.recordedSteps cfg now f) (cfg.stepsFrom e.useDatetime now d)) := by
  obtain ⟨hstate, ⟨heta, hetd⟩, huse, -, -, htimes⟩ := h
  rw [huse] at heta hetd
  have hget (t : τ) : x.getTime cfg (some t) now =
      .ok (some (cfg.stepsFrom e.useDatetime now t)) := huse ▸ getTime_steps (huse ▸ hnow)
  have hconvert (y : ETX τ) (t : τ) (hy : y.useDatetime = e.useDatetime) (ht : y.time = some t) :
      Event.convertTime cfg y.useDatetime now (y.get now) =
        .ok (cfg.stepsFrom e.useDatetime now t) := hy ▸ convertTime_get (hy ▸ hnow) ht
  unfold Event.stage
  rw [hstate]
  cases r with
  | arrived a =>
    simp only [Recorded.state, hconvert x.eta a heta htimes, ok_bind]
    rfl
  | started a s =>
    simp only [Recorded.state, hconvert x.eta a heta htimes.1, ok_bind, Event.getStart, htimes.2,
      hget, Event.convertSteps]
    rfl
  | finished a s f =>
    simp only [Recorded.state, ok_bind, Event.getStart, Event.getFinish, htimes.1, htimes.2,
      hget, Event.convertSteps]
    rfl
  | departed a s f d =>
    simp only [Recorded.state, hconvert x.etd d hetd htimes.2.2, ok_bind, Event.getStart,
      Event.getFinish, htimes.1, htimes.2.1, hget, Event.convertSteps]
    rfl

/-- After its milestones an event's variables are fixed to the recorded
times if and only if converting a recorded start or finish to steps twice
does the same as converting it once, and, before the departure, an upper
hard departure time comes with a lower one. -/
theorem fixes_iff (he : e.Synced) (hx : Driven cfg e r x)
    (hnow : e.useDatetime = true → now.isSome) :
    x.Fixes cfg now r ↔
      (∀ t ∈ r.processing, e.recordedSteps cfg now t = cfg.stepsFrom e.useDatetime now t) ∧
        (r.state ≠ .departed → e.etd.constraintHigh.isSome → e.etd.constraintLow.isSome) := by
  have h := hx.stored he
  have hetd := etdConstraints_ok_iff cfg x (h.synced.etd.trans h.useDatetime ▸ hnow)
  rw [h.etdLow, h.etdHigh] at hetd
  unfold Event.Fixes Event.getVariables
  rw [h.stage_eq hnow, h.useDatetime, ← hetd]
  have hstart (x y : Bounds) (rest : List (Name × Bounds)) :
      ((.eta, x) :: (.start, y) :: rest).lookup Name.start = some y := rfl
  have hfinish (x y : Bounds) (rest : List (Name × Bounds)) :
      ((.start, x) :: (.finish, y) :: rest).lookup Name.finish = some y := rfl
  have hdeparture (x y z : Bounds) :
      [(.start, x), (.finish, y), (.etd, z)].lookup Name.etd = some z := rfl
  cases r with
  | arrived a => cases x.etdConstraints cfg now <;> simp [Recorded.fixed, Recorded.processing,
      Recorded.state, Stage.variables, Except.map]
  | started a s => cases x.etdConstraints cfg now <;> simp [Recorded.fixed, Recorded.processing,
      Recorded.state, Stage.variables, Except.map, hstart]
  | finished a s f => cases x.etdConstraints cfg now <;> simp [Recorded.fixed,
      Recorded.processing, Recorded.state, Stage.variables, Except.map, hfinish]
  | departed a s f d => simp [Recorded.fixed, Recorded.processing, Recorded.state,
      Stage.variables, Except.map, hfinish, hdeparture]

/-- Whole numbers of seconds survive the second conversion, as long as a
float holds them. -/
theorem Event.recordedSteps_whole (he : e.useDatetime = false) {n : Int} (hn : |n| ≤ 2 ^ 53) :
    e.recordedSteps cfg now (n : τ) = cfg.stepsFrom e.useDatetime now n := by
  have hstored : cfg.convertResolution (e.stored cfg (n : τ)) = n := by
    unfold Event.stored
    rw [he]
    exact TimeStep.roundDiv_mul n cfg.resolution hn cfg.resolution_pos
  unfold Event.recordedSteps BufferScheduler.stepsFrom fromNow
  rw [he]
  exact congrArg (fun m : Int => cfg.convertResolution (m : τ)) hstored

/-- A scheduler with two seconds per step. -/
def twoSeconds : BufferScheduler Int where
  horizonSeconds := 20
  resolution := 2
  resolution_pos := by decide
  bufferInput := ⟨1, []⟩
  bufferOutput := ⟨1, []⟩

/-- An event with datetimes, which arrives at the moment 0. -/
def clockEvent : Event Int :=
  { duration := 1, uid := 1, state := .new
    eta := { ETX.fields (some 0) (some 0) (some 0) with
      timeHigh := some 0, timeLow := some 0, useDatetime := true }
    etd := { ETX.fields none none none with useDatetime := true }
    scheduleStart := none, scheduleFinish := none
    activityStart := none, activityFinish := none
    useDatetime := true, canceled := false }

/-- The event that has arrived and started is fixed where it started at
the moment 0, but not where it did ten seconds later. -/
theorem fixes_iff_clock :
    ((clockEvent.arrive 0).start twoSeconds 0).Fixes twoSeconds (some 0) (.started 0 0) ∧
      ¬ ((clockEvent.arrive 10).start twoSeconds 10).Fixes twoSeconds (some 0)
        (.started 10 10) := by
  have hiff (t : Int) : ((clockEvent.arrive t).start twoSeconds t).Fixes twoSeconds (some 0)
      (.started t t) ↔ _ :=
    fixes_iff ⟨rfl, rfl⟩ (.start t (.arrive t)) fun _ => rfl
  refine ⟨(hiff 0).mpr ⟨by decide, by decide⟩, fun h => ?_⟩
  exact absurd ((hiff 10).mp h).1 (by decide)

/-- Ten seconds from now are five steps, and the solver sees a start in
two. -/
theorem clock_start_moves :
    Event.postInit 1 (.mk 1 (.number 0) .none .new true) = .ok clockEvent ∧
      ((clockEvent.arrive 10).start twoSeconds 10).stage twoSeconds (some 0) =
        .ok (.started 5 2 (none, none) 0 false) ∧
      ¬ ∀ (cfg : BufferScheduler Int) (e x : Event Int) (r : Recorded Int) (now : Option Int),
        e.Synced → Driven cfg e r x → (e.useDatetime = true → now.isSome) →
          x.Fixes cfg now r := by
  refine ⟨by decide, by decide, fun h => ?_⟩
  obtain ⟨v, hv, hfix⟩ := h twoSeconds clockEvent _ _ (some 0) ⟨rfl, rfl⟩
    (.start 10 (.arrive 10)) (by decide)
  have hstage : ((clockEvent.arrive 10).start twoSeconds 10).getVariables twoSeconds (some 0) =
      .ok (Stage.variables 1 (.started 5 2 (none, none) 0 false)) := by decide
  rw [hstage] at hv
  cases hv
  exact absurd (hfix (.start, 10) (by decide)) (by decide)

end Steps

end Iams.Scheduler
