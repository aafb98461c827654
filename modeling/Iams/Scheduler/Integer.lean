/-
Iams.Scheduler.Integer — integer times at resolution 1.

With one second per step nothing is rounded of integer times that a float
holds (`Event.Exact`), and an event's stage can be read off its fields:
`Event.HasStage` says which stage an event has, `stage_iff` that this is what
`get_variables` computes. `writeBack_numeric` is the other direction: the times stored
after a successful call are those of the plan.

No `sorry`, no `axiom`, no `native_decide`.
-/
import Iams.Scheduler.Gather

namespace Iams.Scheduler

open Iams.Lib Iams.Lib.Fallible

/-! ## Events with integer times -/

namespace Event

/-- The times of the event are numbers, and its arrival window is set and
in order. -/
structure Numeric (e : Event Int) : Prop where
  event : e.useDatetime = false
  eta : e.eta.useDatetime = false
  etd : e.etd.useDatetime = false
  window : ∃ low high, e.eta.constraintLow = some low ∧ e.eta.constraintHigh = some high ∧
    low ≤ high
  etaMargins : 0 ≤ e.eta.marginLow ∧ 0 ≤ e.eta.marginHigh

/-- Only the kind of the times and the arrival window matter. -/
theorem Numeric.congr {e e' : Event Int} (h : e.Numeric) (hevent : e'.useDatetime = e.useDatetime)
    (heta : e'.eta = { e.eta with time := e'.eta.time })
    (hetd : e'.etd.useDatetime = e.etd.useDatetime) : e'.Numeric where
  event := hevent.trans h.event
  eta := by rw [heta]; exact h.eta
  etd := hetd.trans h.etd
  window := by rw [heta]; exact h.window
  etaMargins := by rw [heta]; exact h.etaMargins

/-- The hard departure window has a lower side where it has an upper
one. -/
def EtdOk (e : Event Int) : Prop := e.etd.constraintHigh.isSome → e.etd.constraintLow.isSome

/-- The bounds `etd_constraints` returns: the upper one is the lower one
again. -/
def etdBounds (e : Event Int) : Bounds :=
  (e.etd.constraintLow, e.etd.constraintHigh.bind fun _ => e.etd.constraintLow)

/-- The stage of an event with integer times. -/
inductive HasStage (e : Event Int) : Stage → Prop where
  | waiting : e.state = .new ∨ e.state = .scheduled → e.EtdOk →
      HasStage e (.waiting (e.eta.constraintLow, e.eta.constraintLow) e.etdBounds e.duration)
  | arrived {t : Int} : e.state = .arrived → e.eta.time = some t → e.EtdOk →
      HasStage e (.arrived t e.etdBounds e.duration e.canceled)
  | started {t s : Int} : e.state = .started → e.eta.time = some t →
      e.scheduleStart = some s → e.EtdOk →
      HasStage e (.started t s e.etdBounds e.duration e.canceled)
  | finished {s f : Int} : e.state = .finished → e.scheduleStart = some s →
      e.scheduleFinish = some f → e.EtdOk → HasStage e (.finished s f e.etdBounds)
  | departed {s f d : Int} : e.state = .departed → e.scheduleStart = some s →
      e.scheduleFinish = some f → e.etd.time = some d → HasStage e (.departed s f d)

/-- The times that `get_variables` converts to steps in the state of the
event. -/
def converted (e : Event Int) : List (Option Int) :=
  match e.state with
  | .new | .scheduled => [some e.duration, e.eta.constraintLow, e.etd.constraintLow]
  | .arrived => [some e.duration, e.eta.time, e.etd.constraintLow]
  | .started => [some e.duration, e.eta.time, e.scheduleStart, e.etd.constraintLow]
  | .finished => [e.scheduleStart, e.scheduleFinish, e.etd.constraintLow]
  | .departed => [e.scheduleStart, e.scheduleFinish, e.etd.time]
  | .canceled => []

/-- The conversion keeps these times. -/
def Exact (e : Event Int) : Prop := ∀ o ∈ e.converted, ∀ t ∈ o, FloatExact t

instance (e : Event Int) : Decidable e.Exact := inferInstanceAs (Decidable (∀ o ∈ _, ∀ t ∈ o, _))

variable {cfg : BufferScheduler Int} {e : Event Int} {now : Option Int}

section Converted

variable (hr : cfg.resolution = 1)

include hr

theorem convertTime_ok {value : Option Int} (hv : ∀ v, value = some v → FloatExact v) {t : Int} :
    convertTime cfg false now value = .ok t ↔ value = some t := by
  cases value with
  | none => simp [convertTime]
  | some v => simp [convertTime, BufferScheduler.convertResolution_one hr (hv v rfl)]

theorem convertSteps_ok {value : Option Int} (hv : ∀ v, value = some v → FloatExact v) {t : Int} :
    convertSteps cfg value = .ok t ↔ value = some t := by
  cases value with
  | none => simp [convertSteps]
  | some v => simp [convertSteps, BufferScheduler.convertResolution_one hr (hv v rfl)]

theorem getTime_numeric (h : e.Numeric) {value : Option Int}
    (hv : ∀ v, value = some v → FloatExact v) : e.getTime cfg value now = .ok value := by
  cases value with
  | none => simp [getTime]
  | some v => simp [getTime, h.event, BufferScheduler.convertResolution_one hr (hv v rfl)]

variable (now) in
theorem etaConstraints_numeric (h : e.Numeric)
    (hv : ∀ v, e.eta.constraintLow = some v → FloatExact v) :
    e.etaConstraints cfg now = .ok (e.eta.constraintLow, e.eta.constraintLow) := by
  obtain ⟨low, high, hlow, hhigh, -⟩ := h.window
  rw [hlow] at hv
  simp [etaConstraints, ETX.getConstraints_of_numeric h.eta, convertConstraints, hlow, hhigh,
    h.eta, (convertTime_ok hr hv).mpr rfl, (convertSteps_ok hr hv).mpr rfl]

theorem etdConstraints_ok (h : e.Numeric) (hv : ∀ v, e.etd.constraintLow = some v → FloatExact v)
    {b : Bounds} : e.etdConstraints cfg now = .ok b ↔ e.EtdOk ∧ e.etdBounds = b := by
  cases hlow : e.etd.constraintLow with
  | none => cases hhigh : e.etd.constraintHigh <;>
      simp [etdConstraints, ETX.getConstraints_of_numeric h.etd, convertConstraints, hlow, hhigh,
        convertSteps, etdBounds, EtdOk]
  | some low =>
    have hone := BufferScheduler.convertResolution_one hr (hv low hlow)
    cases hhigh : e.etd.constraintHigh <;>
      simp [etdConstraints, ETX.getConstraints_of_numeric h.etd, convertConstraints, hlow, hhigh,
        h.etd, convertTime, convertSteps, etdBounds, EtdOk, hone]

end Converted

/-- `get_variables` finds the stage the event has, and raises where it
has none. -/
theorem stage_iff (hr : cfg.resolution = 1) (h : e.Numeric) (hexact : e.Exact) {st : Stage} :
    e.stage cfg now = .ok st ↔ e.HasStage st := by
  unfold Exact converted at hexact
  cases hs : e.state with
  | new | scheduled =>
    simp only [hs, List.forall_mem_cons, Option.mem_def, Option.some.injEq, forall_eq'] at hexact
    obtain ⟨hduration, heta, hetd, -⟩ := hexact
    simp only [stage, hs, bind_eq_ok, etaConstraints_numeric now hr h heta,
      etdConstraints_ok hr h hetd, BufferScheduler.convertResolution_one hr hduration,
      Except.ok.injEq, exists_eq_left']
    constructor
    · rintro ⟨_, ⟨hok, rfl⟩, hst⟩
      cases hst
      exact .waiting (by simp [hs]) hok
    · intro hst
      cases hst with
      | waiting _ hok => exact ⟨_, ⟨hok, rfl⟩, rfl⟩
      | arrived hstate | started hstate | finished hstate | departed hstate => simp [hs] at hstate
  | arrived =>
    simp only [hs, List.forall_mem_cons, Option.mem_def, Option.some.injEq, forall_eq'] at hexact
    obtain ⟨hduration, heta, hetd, -⟩ := hexact
    simp only [stage, hs, bind_eq_ok, h.eta, ETX.get_of_numeric h.eta, convertTime_ok hr heta,
      etdConstraints_ok hr h hetd, BufferScheduler.convertResolution_one hr hduration]
    constructor
    · rintro ⟨_, ht, _, ⟨hok, rfl⟩, hst⟩
      cases hst
      exact .arrived hs ht hok
    · intro hst
      cases hst with
      | arrived _ ht hok => exact ⟨_, ht, _, ⟨hok, rfl⟩, rfl⟩
      | waiting hstate => simp [hs] at hstate
      | started hstate | finished hstate | departed hstate => simp [hs] at hstate
  | started =>
    simp only [hs, List.forall_mem_cons, Option.mem_def, Option.some.injEq, forall_eq'] at hexact
    obtain ⟨hduration, heta, hstart, hetd, -⟩ := hexact
    simp only [stage, hs, bind_eq_ok, h.eta, ETX.get_of_numeric h.eta, convertTime_ok hr heta,
      getStart, getTime_numeric hr h hstart, etdConstraints_ok hr h hetd, Except.ok.injEq,
      exists_eq_left', convertSteps_ok hr hstart,
      BufferScheduler.convertResolution_one hr hduration]
    constructor
    · rintro ⟨_, ht, _, hs', _, ⟨hok, rfl⟩, hst⟩
      cases hst
      exact .started hs ht hs' hok
    · intro hst
      cases hst with
      | started _ ht hs' hok => exact ⟨_, ht, _, hs', _, ⟨hok, rfl⟩, rfl⟩
      | waiting hstate => simp [hs] at hstate
      | arrived hstate | finished hstate | departed hstate => simp [hs] at hstate
  | finished =>
    simp only [hs, List.forall_mem_cons, Option.mem_def] at hexact
    obtain ⟨hstart, hfinish, hetd, -⟩ := hexact
    simp only [stage, hs, bind_eq_ok, getStart, getFinish, getTime_numeric hr h hstart,
      getTime_numeric hr h hfinish, etdConstraints_ok hr h hetd, Except.ok.injEq,
      exists_eq_left', convertSteps_ok hr hstart, convertSteps_ok hr hfinish]
    constructor
    · rintro ⟨_, hs', _, hf, _, ⟨hok, rfl⟩, hst⟩
      cases hst
      exact .finished hs hs' hf hok
    · intro hst
      cases hst with
      | finished _ hs' hf hok => exact ⟨_, hs', _, hf, _, ⟨hok, rfl⟩, rfl⟩
      | waiting hstate => simp [hs] at hstate
      | arrived hstate | started hstate | departed hstate => simp [hs] at hstate
  | departed =>
    simp only [hs, List.forall_mem_cons, Option.mem_def] at hexact
    obtain ⟨hstart, hfinish, hetd, -⟩ := hexact
    simp only [stage, hs, bind_eq_ok, getStart, getFinish, getTime_numeric hr h hstart,
      getTime_numeric hr h hfinish, h.etd, ETX.get_of_numeric h.etd, convertTime_ok hr hetd,
      Except.ok.injEq, exists_eq_left', convertSteps_ok hr hstart, convertSteps_ok hr hfinish]
    constructor
    · rintro ⟨_, hs', _, hf, _, hd, hst⟩
      cases hst
      exact .departed hs hs' hf hd
    · intro hst
      cases hst with
      | departed _ hs' hf hd => exact ⟨_, hs', _, hf, _, hd, rfl⟩
      | waiting hstate => simp [hs] at hstate
      | arrived hstate | started hstate | finished hstate => simp [hs] at hstate
  | canceled =>
    simp only [stage, hs]
    constructor
    · rintro ⟨⟩
    · intro hst
      cases hst with
      | waiting hstate => simp [hs] at hstate
      | arrived hstate | started hstate | finished hstate | departed hstate => simp [hs] at hstate

/-- The stage of a readable event. -/
theorem hasStage_stageD (hr : cfg.resolution = 1) (h : e.Numeric) (hexact : e.Exact)
    (hread : e.Readable cfg now) : e.HasStage (e.stageD cfg now) :=
  (stage_iff hr h hexact).mp hread.stage_eq

theorem HasStage.stageD_eq (hr : cfg.resolution = 1) (h : e.Numeric) (hexact : e.Exact)
    {st : Stage} (hst : e.HasStage st) : e.stageD cfg now = st :=
  Event.stageD_eq ((stage_iff hr h hexact).mpr hst)

theorem HasStage.readable (hr : cfg.resolution = 1) (h : e.Numeric) (hexact : e.Exact) {st : Stage}
    (hst : e.HasStage st) : e.Readable cfg now :=
  ⟨st, (stage_iff hr h hexact).mpr hst⟩

/-! ## Write-back -/

/-- What is stored on an event with integer times, given its slot. -/
def storeSlot (e : Event Int) (p : Slot) : Event Int :=
  match e.state with
  | .new =>
      { e with
        eta := { e.eta with time := some p.eta }
        scheduleStart := some p.start
        scheduleFinish := some p.finish
        etd := { e.etd with time := some p.etd } }
  | .scheduled | .arrived =>
      { e with scheduleStart := some p.start, scheduleFinish := some p.finish }
  | .started => { e with scheduleFinish := some p.finish }
  | _ => e

theorem writeBack_numeric (hr : cfg.resolution = 1) (h : e.Numeric) (value : Name → Int) :
    e.writeBack cfg value now
      = e.storeSlot ⟨value .eta, value .start, value .finish, value .etd⟩ := by
  have hset (x : Int) (y : ETX Int) (hy : y.useDatetime = false) :
      y.set x now = { y with time := some x } := ETX.set_of_numeric hy x now
  unfold writeBack storeSlot
  cases hs : e.state <;>
    simp [hs, hset, h.eta, h.etd, h.event, setStart, setFinish, getSeconds,
      BufferScheduler.convertSeconds_one hr]

/-- A write-back stores none of the times that the state of the event has
read. -/
@[simp] theorem converted_writeBack (value : Name → Int) :
    (e.writeBack cfg value now).converted = e.converted := by
  have hlow (x : ETX Int) (t : Int) : (x.set t now).constraintLow = x.constraintLow := by
    rw [ETX.set_frame]
  unfold writeBack converted
  cases hs : e.state <;> simp only [hs, hlow, setStart, setFinish]

end Event

end Iams.Scheduler
