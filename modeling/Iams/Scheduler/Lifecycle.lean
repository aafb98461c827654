/-
Iams.Scheduler.Lifecycle — the life of one event.

`Method` lists the methods of `Event` that write its state, and `call` is
what such a call leaves of the event. The four milestones `arrive`,
`start`, `finish` and `depart` are meant to be called in this order
(`Ordered`); `cancel`, `schedule_eta` and `schedule_etd` may come at any
time. Only `cancel` looks at the state first: `forward_iff` says when the
other two take an event back to SCHEDULED.

No `sorry`, no `axiom`, no `native_decide`.
-/
import Iams.Scheduler.Gather

namespace Iams.Scheduler

variable {τ : Type} [Ring τ] [LinearOrder τ]

/-! ## Methods of an event -/

/-- The methods that write the state of an event. -/
inductive Method (τ : Type) where
  | arrive (time : τ)
  | cancel
  | depart (time : τ)
  | finish (time : τ)
  | start (time : τ)
  | scheduleEta (lower : τ) (upper now : Option τ)
  | scheduleEtd (lower : τ) (upper now : Option τ)
  deriving DecidableEq, Repr

namespace Method

/-- The place of the methods that are called once, in this order. -/
def milestone : Method τ → Option Nat
  | arrive _ => some 1
  | start _ => some 2
  | finish _ => some 3
  | depart _ => some 4
  | _ => none

/-- The milestones are called in order, each at most once. -/
def Ordered (ms : List (Method τ)) : Prop := (ms.filterMap milestone).Pairwise (· < ·)

instance (ms : List (Method τ)) : Decidable (Ordered ms) :=
  inferInstanceAs (Decidable ((ms.filterMap milestone).Pairwise (· < ·)))

end Method

namespace Event

/-- The event after a call; a method that raises leaves it as it was. -/
def call (cfg : BufferScheduler τ) (e : Event τ) : Method τ → Event τ
  | .arrive time => e.arrive time
  | .cancel => e.cancel
  | .depart time => e.depart time
  | .finish time => e.finish cfg time
  | .start time => e.start cfg time
  | .scheduleEta lower upper now =>
    match e.scheduleEta lower upper now with
    | .ok e => e
    | .error _ => e
  | .scheduleEtd lower upper now =>
    match e.scheduleEtd lower upper now with
    | .ok e => e
    | .error _ => e

/-- The event after these calls. -/
def after (cfg : BufferScheduler τ) (e : Event τ) (ms : List (Method τ)) : Event τ :=
  ms.foldl (call cfg) e

end Event

/-! ## Forwards -/

/-- ARRIVED, STARTED, FINISHED, DEPARTED and CANCELED. -/
def States.past : States → Bool
  | .new | .scheduled => false
  | _ => true

/-- `schedule_eta` and `schedule_etd` accept the window: it is at least as
wide as the margins, and no datetime window is counted from `now`. -/
def ETX.accepts (x : ETX τ) (lower : τ) (upper now : Option τ) : Bool :=
  !(x.useDatetime && now.isSome) &&
    !less (some (upper.getD (lower + x.marginHigh + x.marginLow) - lower))
      (some (x.marginHigh + x.marginLow))

/-- The call makes an event SCHEDULED: the new window is accepted, and the
other one is complete. -/
def Method.reschedules (e : Event τ) : Method τ → Bool
  | .scheduleEta lower upper now => e.eta.accepts lower upper now && e.etd.bool
  | .scheduleEtd lower upper now => e.etd.accepts lower upper now && e.eta.bool
  | _ => false

namespace Event

variable {cfg : BufferScheduler τ} {e : Event τ}

theorem newWindow_accepted {x : ETX τ} {lower : τ} {upper now : Option τ}
    (h : x.accepts lower upper now = true) :
    newWindow x lower upper now = .ok (x.storeConstraints (some lower)
      (some (upper.getD (lower + x.marginHigh + x.marginLow))) now) := by
  unfold ETX.accepts at h
  simp only [Bool.and_eq_true, Bool.not_eq_true'] at h
  obtain ⟨hkind, hwide⟩ := h
  cases upper <;> simp only [Option.getD_some, Option.getD_none] at hwide <;>
    simp [-Bool.and_eq_true, newWindow, upperOr, ETX.setConstraints, hkind, hwide]

theorem newWindow_refused {x : ETX τ} {lower : τ} {upper now : Option τ}
    (h : x.accepts lower upper now = false) :
    ∃ err, newWindow x lower upper now = .error err := by
  cases hkind : x.useDatetime && now.isSome with
  | true => cases upper <;> simp [newWindow, upperOr, ETX.setConstraints, hkind]
  | false =>
    have hnarrow : ETX.less (some (upper.getD (lower + x.marginHigh + x.marginLow) - lower))
        (some (x.marginHigh + x.marginLow)) = true := by
      simpa [ETX.accepts, hkind] using h
    cases upper <;> simp only [Option.getD_some, Option.getD_none] at hnarrow <;>
      simp [-Bool.and_eq_true, newWindow, upperOr, ETX.setConstraints, hkind, hnarrow]

omit [LinearOrder τ] in
/-- A window that is stored is complete. -/
theorem storeConstraints_bool (x : ETX τ) (lower upper : τ) (now : Option τ) :
    (x.storeConstraints (some lower) (some upper) now).bool = true := by
  unfold ETX.storeConstraints
  split <;> rfl

omit [Ring τ] [LinearOrder τ] in
theorem markScheduled_state (e : Event τ) :
    e.markScheduled.state = if e.eta.bool && e.etd.bool then .scheduled else e.state := by
  unfold markScheduled
  split <;> rfl

/-- The state after `schedule_eta` and after `schedule_etd`. -/
theorem call_scheduleEta_state (e : Event τ) (lower : τ) (upper now : Option τ) :
    (e.call cfg (.scheduleEta lower upper now)).state =
      if Method.reschedules e (.scheduleEta lower upper now) then .scheduled else e.state := by
  cases haccepts : e.eta.accepts lower upper now with
  | false =>
    obtain ⟨err, herr⟩ := newWindow_refused haccepts
    simp [call, scheduleEta, herr, Method.reschedules, haccepts]
  | true =>
    simp [call, scheduleEta, newWindow_accepted haccepts, Method.reschedules, haccepts,
      markScheduled_state, storeConstraints_bool]

theorem call_scheduleEtd_state (e : Event τ) (lower : τ) (upper now : Option τ) :
    (e.call cfg (.scheduleEtd lower upper now)).state =
      if Method.reschedules e (.scheduleEtd lower upper now) then .scheduled else e.state := by
  cases haccepts : e.etd.accepts lower upper now with
  | false =>
    obtain ⟨err, herr⟩ := newWindow_refused haccepts
    simp [call, scheduleEtd, herr, Method.reschedules, haccepts]
  | true =>
    simp [call, scheduleEtd, newWindow_accepted haccepts, Method.reschedules, haccepts,
      markScheduled_state, storeConstraints_bool]

/-- The state after a call. -/
theorem call_state (e : Event τ) (m : Method τ) :
    (e.call cfg m).state =
      match m with
      | .arrive _ => .arrived
      | .cancel => e.cancel.state
      | .depart _ => .departed
      | .finish _ => .finished
      | .start _ => .started
      | m => if m.reschedules e then .scheduled else e.state := by
  cases m with
  | arrive time => rfl
  | cancel => rfl
  | depart time => rfl
  | finish time =>
    simp only [call, finish]
    split <;> rfl
  | start time =>
    simp only [call, start]
    split <;> rfl
  | scheduleEta lower upper now => exact call_scheduleEta_state e lower upper now
  | scheduleEtd lower upper now => exact call_scheduleEtd_state e lower upper now

omit [Ring τ] [LinearOrder τ] in
theorem past_cancel (h : e.state.past = true) : e.cancel.state.past = true := by
  unfold cancel
  cases hstate : e.state <;> simp_all [States.past]

/-- One call takes an event back if and only if it reschedules it. -/
theorem past_call (h : e.state.past = true) (m : Method τ) :
    (e.call cfg m).state.past = !m.reschedules e := by
  rw [call_state]
  cases m with
  | arrive time => rfl
  | cancel => exact past_cancel h
  | depart time => rfl
  | finish time => rfl
  | start time => rfl
  | scheduleEta lower upper now =>
    dsimp only
    cases Method.reschedules e (.scheduleEta lower upper now) with
    | true => rfl
    | false => exact h
  | scheduleEtd lower upper now =>
    dsimp only
    cases Method.reschedules e (.scheduleEtd lower upper now) with
    | true => rfl
    | false => exact h

theorem after_append (cfg : BufferScheduler τ) (e : Event τ) (ms ms' : List (Method τ)) :
    e.after cfg (ms ++ ms') = (e.after cfg ms).after cfg ms' :=
  List.foldl_append

variable (cfg e)

/-- Once the event is past NEW and SCHEDULED it stays so. -/
def Forward (ms : List (Method τ)) : Prop :=
  ∀ before between rest, ms = before ++ between ++ rest →
    (e.after cfg before).state.past = true →
      (e.after cfg (before ++ between)).state.past = true

/-- No call reschedules the event once it is past NEW and SCHEDULED. -/
def NotRescheduled (ms : List (Method τ)) : Prop :=
  ∀ before m rest, ms = before ++ m :: rest → (e.after cfg before).state.past = true →
    m.reschedules (e.after cfg before) = false

/-- An event never goes back to NEW or SCHEDULED if and only if no call of
`schedule_eta` or `schedule_etd` reschedules it too late. -/
theorem forward_iff (ms : List (Method τ)) : e.Forward cfg ms ↔ e.NotRescheduled cfg ms := by
  constructor
  · intro h before m rest hms hpast
    have hnext := h before [m] rest (by simpa using hms) hpast
    rw [after_append, after, List.foldl_cons, List.foldl_nil, past_call hpast] at hnext
    simpa using hnext
  · intro h before between rest hms hpast
    induction between using List.reverseRecOn generalizing rest with
    | nil => simpa using hpast
    | append_singleton between m ih =>
      have hbetween := ih (m :: rest) (by simpa using hms)
      have hm := h (before ++ between) m rest (by simpa using hms) hbetween
      rw [← List.append_assoc, after_append, after, List.foldl_cons, List.foldl_nil,
        past_call hbetween, hm]
      rfl

end Event

/-- An event that is created with an arrival time and no departure. -/
def openEvent : Event Int :=
  { duration := 1, uid := 1, state := .new
    eta := { ETX.fields (some 0) (some 0) (some 0) with timeHigh := some 0, timeLow := some 0 }
    etd := .fields none none none
    scheduleStart := none, scheduleFinish := none
    activityStart := none, activityFinish := none
    useDatetime := false, canceled := false }

/-- A departure that is scheduled after the arrival takes the event back. -/
theorem Event.arrived_rescheduled :
    Event.postInit 1 ({ duration := 1, eta := .number 0 } : EventArgs Int) = .ok openEvent ∧
      ¬ ∀ (e : Event Int) (ms : List (Method Int)), Method.Ordered ms →
        e.Forward (.single 10 1 1) ms := by
  refine ⟨by decide, fun h => ?_⟩
  have hforward := h openEvent [.arrive 0, .scheduleEtd 5 none none] (by decide)
  have hpast := hforward [.arrive 0] [.scheduleEtd 5 none none] [] rfl (by decide)
  exact absurd hpast (by decide)

end Iams.Scheduler
