/-
Iams.Scheduler.HandledTheorems — which events break the scheduler.

`get_variables` knows every state but CANCELED, and `get_events` hands
out departed and canceled events as long as they overlap the live ones.
`handled_iff` says for every run when no call meets such an event: no
event that `get_events` keeps was canceled after its departure, and no
event is offered while it is CANCELED.

  §1 what happened to one event (`Event.Tracks`);
  §2 every run keeps track of its events (`World.tracked_of_orderly`);
  §3 what a call raises, and `handled_iff`;
  §4 a canceled event that stays in the queue.

No `sorry`, no `axiom`, no `native_decide`.
-/
import Iams.Scheduler.Lifecycle
import Iams.Scheduler.Runs

namespace Iams.Scheduler

open Iams.Lib

/-! ## §1 One event -/

section Calls

variable {τ : Type}

/-- The method of an event that an operation calls. -/
def Op.method : Op τ → Option (Nat × Method τ)
  | .arrive u time => some (u, .arrive time)
  | .cancel u => some (u, .cancel)
  | .depart u time => some (u, .depart time)
  | .finish u time => some (u, .finish time)
  | .start u time => some (u, .start time)
  | .scheduleEta u lower upper now => some (u, .scheduleEta lower upper now)
  | .scheduleEtd u lower upper now => some (u, .scheduleEtd lower upper now)
  | _ => none

/-- The methods of event `u` that these operations call, in order. -/
def callsOf (u : Nat) (ops : List (Op τ)) : List (Method τ) :=
  ops.filterMap fun op => op.method.bind fun c => if c.1 = u then some c.2 else none

theorem callsOf_append (u : Nat) (ops : List (Op τ)) (op : Op τ) :
    callsOf u (ops ++ [op]) = callsOf u ops ++ callsOf u [op] :=
  List.filterMap_append

theorem callsOf_quiet {op : Op τ} (h : op.method = none) (u : Nat) : callsOf u [op] = [] := by
  simp [callsOf, h]

theorem callsOf_self {op : Op τ} {v : Nat} {m : Method τ} (h : op.method = some (v, m)) :
    callsOf v [op] = [m] := by
  simp [callsOf, h]

theorem callsOf_other {op : Op τ} {u v : Nat} {m : Method τ} (h : op.method = some (v, m))
    (hu : u ≠ v) : callsOf u [op] = [] := by
  simp [callsOf, h, hu.symm]

namespace Method

def isDepart : Method τ → Bool
  | depart _ => true
  | _ => false

def isCancel : Method τ → Bool
  | cancel => true
  | _ => false

/-- `depart` was called. -/
def departed (ms : List (Method τ)) : Bool := ms.any isDepart

/-- `cancel` was called after `depart`. -/
def canceledLate : List (Method τ) → Bool
  | [] => false
  | m :: rest => if m.isDepart then rest.any isCancel else canceledLate rest

theorem departed_append (ms : List (Method τ)) (m : Method τ) :
    departed (ms ++ [m]) = (departed ms || m.isDepart) := by
  simp [departed]

theorem canceledLate_append (ms : List (Method τ)) (m : Method τ) :
    canceledLate (ms ++ [m]) = (canceledLate ms || (departed ms && m.isCancel)) := by
  induction ms with
  | nil => simp [canceledLate, departed]
  | cons first rest ih =>
    cases hdepart : first.isDepart with
    | true => simp [canceledLate, departed, hdepart]
    | false => simpa [canceledLate, departed, hdepart] using ih

theorem departed_of_canceledLate {ms : List (Method τ)} (h : canceledLate ms = true) :
    departed ms = true := by
  induction ms with
  | nil => cases h
  | cons first rest ih =>
    cases hdepart : first.isDepart with
    | true => simp [departed, hdepart]
    | false =>
      have hrest : departed rest = true := ih (by simpa [canceledLate, hdepart] using h)
      simpa [departed, hdepart] using hrest

/-- No milestone follows `depart`. -/
theorem Ordered.departed {ms : List (Method τ)} {m : Method τ} (h : Ordered (ms ++ [m]))
    (hm : m.milestone.isSome = true) : Method.departed ms = false := by
  obtain ⟨k, hk⟩ := Option.isSome_iff_exists.mp hm
  rw [Bool.eq_false_iff]
  intro hdeparted
  obtain ⟨d, hd, hdepart⟩ := List.any_eq_true.mp hdeparted
  have hfour : 4 ∈ ms.filterMap milestone := by
    refine List.mem_filterMap.mpr ⟨d, hd, ?_⟩
    cases d <;> first | rfl | cases hdepart
  rw [Ordered, List.filterMap_append, List.pairwise_append] at h
  have hlt := h.2.2 4 hfour k (by simp [hk])
  have hle : k ≤ 4 := by
    cases m <;> simp [milestone] at hk <;> omega
  omega

end Method

end Calls

namespace Event

variable {τ : Type}

/-- What the calls of an event's methods say about it. Only `depart`
stores the end of the activity, and afterwards only `schedule_eta` and
`schedule_etd` take the event out of DEPARTED and CANCELED. -/
structure Tracks (e : Event τ) (ms : List (Method τ)) : Prop where
  finish : e.activityFinish.isSome = true → Method.departed ms = true
  state : Method.departed ms = true → e.state = .scheduled ∨
    e.state = if Method.canceledLate ms then .canceled else .departed

/-- An event that is in no run yet, or that is just created. -/
theorem Tracks.fresh {e : Event τ} (h : e.activityFinish = none) : e.Tracks [] :=
  ⟨fun hfinish => by simp [h] at hfinish, fun hdeparted => by cases hdeparted⟩

theorem Tracks.congr {e e' : Event τ} {ms : List (Method τ)} (h : e.Tracks ms)
    (hfinish : e'.activityFinish = e.activityFinish) (hstate : e'.state = e.state) :
    e'.Tracks ms :=
  ⟨hfinish ▸ h.finish, hstate ▸ h.state⟩

variable [Ring τ] [LinearOrder τ]

theorem postInit_activityFinish {u : Nat} {args : EventArgs τ} {e : Event τ}
    (h : postInit u args = .ok e) : e.activityFinish = none := by
  obtain ⟨eta, etd, -, -, -, rfl⟩ := postInit_ok h
  rfl

theorem writeBack_activityFinish (cfg : BufferScheduler τ) (e : Event τ) (value : Name → Int)
    (now : Option τ) : (e.writeBack cfg value now).activityFinish = e.activityFinish := by
  unfold writeBack
  split <;> rfl

variable {cfg : BufferScheduler τ} {e : Event τ}

omit [Ring τ] [LinearOrder τ] in
theorem markScheduled_activityFinish (e : Event τ) :
    e.markScheduled.activityFinish = e.activityFinish := by
  unfold markScheduled
  split <;> rfl

/-- Only `depart` stores the end of the activity. -/
theorem call_activityFinish (e : Event τ) {m : Method τ} (h : m.isDepart = false) :
    (e.call cfg m).activityFinish = e.activityFinish := by
  cases m with
  | arrive time => rfl
  | cancel => rfl
  | depart time => cases h
  | finish time =>
    simp only [call, finish]
    split <;> rfl
  | start time =>
    simp only [call, start]
    split <;> rfl
  | scheduleEta lower upper now =>
    cases hwindow : newWindow e.eta lower upper now <;>
      simp [call, scheduleEta, hwindow, markScheduled_activityFinish]
  | scheduleEtd lower upper now =>
    cases hwindow : newWindow e.etd lower upper now <;>
      simp [call, scheduleEtd, hwindow, markScheduled_activityFinish]

omit [Ring τ] [LinearOrder τ] in
/-- A departed event that is canceled, or canceled again. -/
theorem Tracks.canceled {ms : List (Method τ)} (h : e.Tracks ms)
    (hdeparted : Method.departed ms = true) :
    e.cancel.state = .canceled := by
  unfold cancel
  rcases h.state hdeparted with hstate | hstate
  · simp [hstate]
  · cases hlate : Method.canceledLate ms <;> simp [hstate, hlate]

/-- The next call of a method. -/
theorem Tracks.call {ms : List (Method τ)} {m : Method τ} (h : e.Tracks ms)
    (hordered : Method.Ordered (ms ++ [m])) : (e.call cfg m).Tracks (ms ++ [m]) := by
  cases hdepart : m.isDepart with
  | true =>
    obtain ⟨time, rfl⟩ : ∃ time, m = .depart time := by
      cases m <;> first | exact ⟨_, rfl⟩ | cases hdepart
    have hlate : Method.canceledLate (ms ++ [.depart time]) = false := by
      rw [Method.canceledLate_append, Bool.eq_false_iff]
      intro hlate
      have hdeparted := hordered.departed rfl
      cases hms : Method.canceledLate ms with
      | true => simp [Method.departed_of_canceledLate hms] at hdeparted
      | false => simp [hms, Method.isCancel] at hlate
    refine ⟨fun _ => by simp [Method.departed_append, Method.isDepart], fun _ => .inr ?_⟩
    rw [hlate]
    rfl
  | false =>
    have hdeparted : Method.departed (ms ++ [m]) = Method.departed ms := by
      rw [Method.departed_append, hdepart, Bool.or_false]
    refine ⟨fun hfinish => ?_, fun hms => ?_⟩
    · rw [call_activityFinish e hdepart] at hfinish
      rw [hdeparted]
      exact h.finish hfinish
    · rw [hdeparted] at hms
      -- the milestones before `depart` do not come after it
      have hmilestone : m.milestone.isSome = true → False := fun hm => by
        rw [hordered.departed hm] at hms
        cases hms
      rw [call_state, Method.canceledLate_append, hms]
      cases m with
      | cancel => exact .inr (by simpa [Method.isCancel] using h.canceled hms)
      | depart time => cases hdepart
      | arrive time | finish time | start time => exact (hmilestone rfl).elim
      | scheduleEta lower upper now =>
        dsimp only
        split
        · exact .inl rfl
        · simpa [Method.isCancel] using h.state hms
      | scheduleEtd lower upper now =>
        dsimp only
        split
        · exact .inl rfl
        · simpa [Method.isCancel] using h.state hms

omit [Ring τ] [LinearOrder τ] in
/-- What `get_events` hands out of a queue is CANCELED exactly if it was
canceled after its departure. -/
theorem Tracks.canceled_iff {ms : List (Method τ)} (h : e.Tracks ms)
    (hgone : e.state.gone = true) (hfinish : e.activityFinish.isSome = true) :
    e.state = .canceled ↔ Method.canceledLate ms = true := by
  rcases h.state (h.finish hfinish) with hstate | hstate
  · rw [hstate] at hgone
    cases hgone
  · cases hlate : Method.canceledLate ms <;> simp [hstate, hlate]

end Event

/-! ## §2 Runs -/

section Runs

variable {τ : Type} [Ring τ] [LinearOrder τ] [TimeStep τ]
variable (cfg : BufferScheduler τ) (S : Sorter Nat)

/-- A program that refers to events it has created and takes each of them
through `arrive`, `start`, `finish` and `depart` in this order; `cancel`
may be called at any time. -/
structure Orderly (ops : List (Op τ)) : Prop where
  refers : Permitted (World.step cfg S) World.Refers (World.init cfg) ops
  ordered : ∀ u, Method.Ordered (callsOf u ops)

namespace World

/-- The scheduler after these operations. -/
def run (ops : List (Op τ)) : World τ := ops.foldl (step cfg S) (init cfg)

variable {cfg S}

theorem run_append (ops : List (Op τ)) (op : Op τ) :
    run cfg S (ops ++ [op]) = (run cfg S ops).step cfg S op := by
  rw [run, List.foldl_append]
  rfl

/-- A method of one event changes that event only. -/
theorem step_method {op : Op τ} {v : Nat} {m : Method τ} (h : op.method = some (v, m))
    (w : World τ) : w.step cfg S op = w.setObj v ((w.obj v).call cfg m) := by
  have hsame : w.setObj v (w.obj v) = w := by
    rw [setObj, Function.update_eq_self]
  cases op with
  | arrive u time | cancel u | depart u time | finish u time | start u time =>
    obtain ⟨rfl, rfl⟩ := Prod.mk.inj (Option.some.inj h)
    rfl
  | scheduleEta u lower upper now =>
    obtain ⟨rfl, rfl⟩ := Prod.mk.inj (Option.some.inj h)
    cases heta : (w.obj u).scheduleEta lower upper now <;>
      simp [step, exec, tryObj, Event.call, heta, hsame]
  | scheduleEtd u lower upper now =>
    obtain ⟨rfl, rfl⟩ := Prod.mk.inj (Option.some.inj h)
    cases hetd : (w.obj u).scheduleEtd lower upper now <;>
      simp [step, exec, tryObj, Event.call, hetd, hsame]
  | create args => cases h
  | save cp u now => cases h
  | canSchedule cp u now => cases h
  | validate cp now => cases h

/-- Any other operation writes times back, or creates an event. -/
theorem step_quiet {op : Op τ} (h : op.method = none) (w : World τ) (u : Nat) :
    (w.step cfg S op).obj u = w.obj u ∨
      (∃ value now, (w.step cfg S op).obj u = (w.obj u).writeBack cfg value now) ∨
      (u = w.counter ∧ ∃ args, Event.postInit u args = .ok ((w.step cfg S op).obj u)) := by
  have hsolve (cp : Cp.Solver Var) (new : List Nat) (now : Option τ) (save : Bool) :
      (w.solveModel cfg S cp new now save).2.obj u = w.obj u ∨
        ∃ value now', (w.solveModel cfg S cp new now save).2.obj u =
          (w.obj u).writeBack cfg value now' :=
    ((solveModel_changes cfg S w cp new now save).1 u).imp_right fun ⟨value, h⟩ => ⟨value, now, h⟩
  have hlast {obj' : Nat → Event τ}
      (h : obj' u = w.obj u ∨ ∃ value now, obj' u = (w.obj u).writeBack cfg value now) :
      obj' u = w.obj u ∨ (∃ value now, obj' u = (w.obj u).writeBack cfg value now) ∨
        (u = w.counter ∧ ∃ args, Event.postInit u args = .ok (obj' u)) :=
    h.imp_right .inl
  cases op with
  | create args =>
    simp only [step, exec, create]
    cases hpost : Event.postInit w.counter args with
    | error err => exact .inl rfl
    | ok e =>
      by_cases hu : u = w.counter
      · subst hu
        exact .inr (.inr ⟨rfl, args, by simpa [setObj] using hpost⟩)
      · exact .inl (by simp [setObj, hu])
  | save cp v now =>
    refine hlast ?_
    have hworld := save_world cfg S w cp v now
    simp only [step, exec, Prod.map_snd, id]
    rcases hworld with hworld | hworld <;> rw [hworld] <;> exact hsolve cp [v] now true
  | canSchedule cp v now => exact hlast (hsolve cp [v] now false)
  | validate cp now =>
    refine hlast ?_
    simp only [step, exec, Prod.map_snd, id, validate_world]
    exact hsolve cp [] now false
  | arrive v time | cancel v | depart v time | finish v time | start v time => cases h
  | scheduleEta v lower upper now => cases h
  | scheduleEtd v lower upper now => cases h

/-- The scheduler's events are what their calls have made of them, and
nothing was called on an event that is not created yet. -/
structure Tracked (w : World τ) (ops : List (Op τ)) : Prop where
  event : ∀ u, (w.obj u).Tracks (callsOf u ops)
  fresh : ∀ u, w.counter ≤ u → callsOf u ops = []

theorem Tracked.step {w : World τ} {ops : List (Op τ)} {op : Op τ} (h : w.Tracked ops)
    (hrefers : w.Refers op) (hordered : ∀ u, Method.Ordered (callsOf u (ops ++ [op]))) :
    (w.step cfg S op).Tracked (ops ++ [op]) := by
  have hcounter : w.counter ≤ (w.step cfg S op).counter :=
    (step_changes (A := fun _ => True) cfg S w op hrefers fun _ _ => trivial).counter
  cases hm : op.method with
  | some c =>
    obtain ⟨v, m⟩ := c
    have hstep : w.step cfg S op = w.setObj v ((w.obj v).call cfg m) := step_method hm w
    constructor
    · intro u
      have hu := hordered u
      rw [hstep, callsOf_append] at *
      by_cases huv : u = v
      · subst huv
        rw [callsOf_self hm] at hu ⊢
        simpa [setObj] using (h.event u).call hu
      · simpa [setObj, huv, callsOf_other hm huv] using h.event u
    · intro u hu
      have hv : w.Created v := by
        refine hrefers v ?_
        cases op <;> simp_all [Op.method, Op.refs]
      have huv : u ≠ v := by
        have := hv.2
        omega
      rw [callsOf_append, callsOf_other hm huv, h.fresh u (hcounter.trans hu)]
      rfl
  | none =>
    have hcalls (u : Nat) : callsOf u (ops ++ [op]) = callsOf u ops := by
      rw [callsOf_append, callsOf_quiet hm, List.append_nil]
    constructor
    · intro u
      rw [hcalls]
      have hobj : (w.step cfg S op).obj u = w.obj u ∨ _ := step_quiet hm w u
      rcases hobj with hobj | ⟨value, now, hobj⟩ | ⟨hu, args, hpost⟩
      · exact hobj ▸ h.event u
      · rw [hobj]
        exact (h.event u).congr (Event.writeBack_activityFinish ..) (Event.writeBack_state ..)
      · rw [h.fresh u hu.ge]
        exact .fresh (Event.postInit_activityFinish hpost)
    · intro u hu
      rw [hcalls]
      exact h.fresh u (hcounter.trans hu)

end World

variable {cfg S} {ops : List (Op τ)}

theorem Orderly.before {before rest : List (Op τ)} (h : Orderly cfg S (before ++ rest)) :
    Orderly cfg S before := by
  refine ⟨(permitted_append.mp h.refers).1, fun u => ?_⟩
  have hu := h.ordered u
  rw [callsOf, List.filterMap_append, Method.Ordered, List.filterMap_append,
    List.pairwise_append] at hu
  exact hu.1

/-- Every run keeps track of its events. -/
theorem World.tracked_of_orderly (h : Orderly cfg S ops) : (run cfg S ops).Tracked ops := by
  induction ops using List.reverseRecOn with
  | nil => exact ⟨fun u => .fresh rfl, fun _ _ => rfl⟩
  | append_singleton ops op ih =>
    rw [run_append]
    exact (ih h.before).step (permitted_append.mp h.refers).2.1 h.ordered

/-! ## §3 What a call raises -/

/-- `get_variables` has an implementation for the event's state. -/
def Event.Handled (cfg : BufferScheduler τ) (e : Event τ) (now : Option τ) : Prop :=
  ∀ message, e.getVariables cfg now ≠ .error (.notImplementedError message)

theorem Event.handled_iff_state {e : Event τ} {now : Option τ} :
    e.Handled cfg now ↔ e.state ≠ .canceled := by
  constructor
  · intro h hstate
    refine h ("Implementation of state " ++ e.state.str ++ " is missing") ?_
    rw [getVariables, stage, hstate]
    rfl
  · intro hstate message h
    rw [getVariables] at h
    cases hstage : e.stage cfg now with
    | ok st =>
      rw [hstage] at h
      cases h
    | error err =>
      rw [hstage] at h
      obtain rfl : err = .notImplementedError message := by injection h
      rcases e.stage_raises now _ hstage with (h | h) | ⟨h, -⟩
      · cases h
      · cases h
      · exact hstate h

/-- The exception of a call is that of one of its events. -/
theorem exists_of_firstError {obj : Nat → Event τ} {now : Option τ} {us : List Nat}
    {err : PyError} (h : firstError cfg obj now us = some err) :
    ∃ u ∈ us, (obj u).getVariables cfg now = .error err := by
  induction us with
  | nil => cases h
  | cons u rest ih =>
    rw [firstError] at h
    split at h
    · next hstage =>
      obtain rfl := Option.some.inj h
      exact ⟨u, List.mem_cons_self, by rw [Event.getVariables, hstage]; rfl⟩
    · obtain ⟨v, hv, herr⟩ := ih h
      exact ⟨v, List.mem_cons_of_mem u hv, herr⟩

namespace World

variable {w : World τ} {new : List Nat} {now : Option τ}

/-- What a call that solves a model raises is what `solve_model` raises. -/
theorem raised_of_exec {op : Op τ} (hgathers : op.gathers = some (new, now)) {err : PyError}
    (h : (w.exec cfg S op).1 = .raised err) :
    ∃ cp save, (w.solveModel cfg S cp new now save).1 = .error err := by
  cases op with
  | save cp u now =>
    obtain ⟨rfl, rfl⟩ := Prod.mk.inj (Option.some.inj hgathers)
    refine ⟨cp, true, ?_⟩
    simp only [exec, World.save, add, Prod.map_fst] at h
    split at h
    · cases h
    · next heq => rw [heq]; exact congrArg _ (Result.raised.inj h)
    · cases h
  | canSchedule cp u now =>
    obtain ⟨rfl, rfl⟩ := Prod.mk.inj (Option.some.inj hgathers)
    refine ⟨cp, false, ?_⟩
    simp only [exec, canSchedule, Prod.map_fst] at h
    cases hsolve : (w.solveModel cfg S cp [u] now false).1 with
    | error e =>
      rw [hsolve] at h
      exact congrArg _ (Result.raised.inj h)
    | ok us =>
      rw [hsolve] at h
      cases h
  | validate cp now =>
    obtain ⟨rfl, rfl⟩ := Prod.mk.inj (Option.some.inj hgathers)
    refine ⟨cp, false, ?_⟩
    simp only [exec, validate, Prod.map_fst] at h
    split at h
    · cases h
    · next heq => rw [heq]; exact congrArg _ (Result.raised.inj h)
    · cases h
  | create args => cases hgathers
  | arrive v time | cancel v | depart v time | finish v time | start v time => cases hgathers
  | scheduleEta v lower upper now => cases hgathers
  | scheduleEtd v lower upper now => cases hgathers

/-- `solve_model` raises NotImplementedError only for an event that
`get_variables` has no implementation for. -/
theorem solveModel_implemented (h : ∀ u ∈ w.concerned new, (w.obj u).Handled cfg now)
    (cp : Cp.Solver Var) (save : Bool) (message : String) :
    (w.solveModel cfg S cp new now save).1 ≠ .error (.notImplementedError message) := by
  by_cases hread : w.Readable cfg new now
  · rw [solveModel_of_readable hread]
    cases cp (w.model cfg S new now) <;> simp
  · obtain ⟨err, removed, heq, hfirst, -, -⟩ := solveModel_of_not_readable (S := S) hread cp save
    obtain ⟨u, hu, herr⟩ := exists_of_firstError hfirst
    rw [heq]
    intro hraised
    injection hraised with hraised
    exact h u hu message (hraised ▸ herr)

variable (cfg S) in
/-- Every event that `get_events` yields to this call is handled, and the
call does not raise NotImplementedError. -/
def HandlesCall (w : World τ) (op : Op τ) : Prop :=
  ∀ new now, op.gathers = some (new, now) →
    (∀ u ∈ yields (getEvents w.obj w.events new), (w.obj u).Handled cfg now) ∧
      ∀ message, (w.exec cfg S op).1 ≠ .raised (.notImplementedError message)

/-- The call meets no event that was canceled too late: none that
`get_events` keeps was canceled after its departure, and none that the
call offers is CANCELED. -/
def MeetsNoCanceled (w : World τ) (ops : List (Op τ)) (op : Op τ) : Prop :=
  ∀ new now, op.gathers = some (new, now) →
    (∀ u ∈ kept w.obj w.events, Method.canceledLate (callsOf u ops) = false) ∧
      ∀ u ∈ new, (w.obj u).state ≠ .canceled

omit [TimeStep τ] in
/-- The events `get_events` keeps have gone, and have left. -/
theorem mem_kept {obj : Nat → Event τ} {events : List Nat} {u : Nat}
    (h : u ∈ kept obj events) :
    (obj u).state.gone = true ∧ (obj u).activityFinish.isSome = true := by
  obtain ⟨hgone, hretained⟩ := List.mem_filter.mp h
  refine ⟨(List.mem_filter.mp hgone).2, ?_⟩
  rw [retained, Bool.and_eq_true] at hretained
  cases hfinish : (obj u).activityFinish with
  | none => simp [ETX.less, hfinish] at hretained
  | some t => rfl

theorem Tracked.handlesCall_iff (h : w.Tracked ops) (op : Op τ) :
    w.HandlesCall cfg S op ↔ w.MeetsNoCanceled ops op := by
  have hkept {u : Nat} (hu : u ∈ kept w.obj w.events) :
      (w.obj u).state ≠ .canceled ↔ Method.canceledLate (callsOf u ops) = false := by
    obtain ⟨hgone, hfinish⟩ := mem_kept hu
    rw [ne_eq, (h.event u).canceled_iff hgone hfinish, Bool.not_eq_true]
  constructor
  · intro hcall new now hgathers
    have hyields := (hcall new now hgathers).1
    rw [yields_getEvents] at hyields
    refine ⟨fun u hu => (hkept hu).mp ?_, fun u hu => ?_⟩
    · exact Event.handled_iff_state.mp (hyields u (by simp [hu]))
    · exact Event.handled_iff_state.mp (hyields u (by simp [hu]))
  · intro hmeets new now hgathers
    obtain ⟨hqueue, hnew⟩ := hmeets new now hgathers
    have hhandled : ∀ u ∈ w.concerned new, (w.obj u).Handled cfg now := by
      intro u hu
      rw [Event.handled_iff_state]
      rcases List.mem_append.mp hu with hu | hu
      · rcases List.mem_append.mp hu with hu | hu
        · intro hstate
          have hlive := (List.mem_filter.mp hu).2
          rw [hstate] at hlive
          cases hlive
        · exact (hkept hu).mpr (hqueue u hu)
      · exact hnew u hu
    refine ⟨by rwa [yields_getEvents], fun message hraised => ?_⟩
    obtain ⟨cp, save, hsolve⟩ := raised_of_exec hgathers hraised
    exact solveModel_implemented hhandled cp save message hsolve

end World

variable (cfg S ops)

/-- No call of the run breaks the scheduler. -/
def AllHandled : Prop :=
  ∀ before op rest, ops = before ++ op :: rest → (World.run cfg S before).HandlesCall cfg S op

/-- No call of the run meets an event that was canceled too late. -/
def NoneCanceledLate : Prop :=
  ∀ before op rest, ops = before ++ op :: rest →
    (World.run cfg S before).MeetsNoCanceled before op

variable {cfg S ops}

instance (w : World τ) (op : Op τ) : Decidable (w.MeetsNoCanceled ops op) :=
  decidable_of_iff (∀ p ∈ op.gathers,
      (∀ u ∈ kept w.obj w.events, Method.canceledLate (callsOf u ops) = false) ∧
        ∀ u ∈ p.1, (w.obj u).state ≠ .canceled)
    ⟨fun h new now hgathers => h (new, now) hgathers, fun h p hp => h p.1 p.2 hp⟩

instance : Decidable (NoneCanceledLate cfg S ops) :=
  decidable_of_iff (∀ i : Fin ops.length,
      (World.run cfg S (ops.take i)).MeetsNoCanceled (ops.take i) ops[i])
    ⟨fun h before op rest hops => by
      subst hops
      have hi : before.length < (before ++ op :: rest).length := by simp
      simpa using h ⟨before.length, hi⟩,
    fun h i => h _ _ (ops.drop (i + 1)) (by simp)⟩

/-- In a run no call ever meets an unhandled state, and none raises
NotImplementedError, if and only if none meets an event that was canceled
too late. -/
theorem handled_iff (h : Orderly cfg S ops) :
    AllHandled cfg S ops ↔ NoneCanceledLate cfg S ops := by
  have hcall (before : List (Op τ)) (op : Op τ) (rest : List (Op τ))
      (hops : ops = before ++ op :: rest) :
      (World.run cfg S before).HandlesCall cfg S op ↔
        (World.run cfg S before).MeetsNoCanceled before op :=
    (World.tracked_of_orderly (hops ▸ h).before).handlesCall_iff op
  constructor
  · intro hall before op rest hops
    exact (hcall before op rest hops).mp (hall before op rest hops)
  · intro hnone before op rest hops
    exact (hcall before op rest hops).mpr (hnone before op rest hops)

end Runs

/-! ## §4 A canceled event in the queue -/

/-- The first event is in the output buffer until 10, and the second needs
the machine at 9. The first is canceled after its departure. -/
def canceledLateOps : List (Op Int) :=
  let answer := assignmentOf 0 fun u => if u = 1 then ⟨0, 0, 1, 10⟩ else ⟨9, 9, 10, 10⟩
  [.create { duration := 1, eta := .number 0, etd := .number 10 }, .save (.trying answer) 1 none,
    .create { duration := 1, eta := .number 9, etd := .number 10 }, .save (.trying answer) 2 none,
    .arrive 1 0, .start 1 0, .finish 1 1, .depart 1 10, .cancel 1, .validate (.trying answer) none]

theorem canceledLateOps_orderly :
    Orderly (.single 20 1 1) (.insertion Nat) canceledLateOps := by
  refine ⟨⟨by decide, by decide, by decide, by decide, by decide, by decide, by decide, by decide,
    by decide, by decide, trivial⟩, fun u => ?_⟩
  by_cases hu : 1 = u
  · subst hu
    decide
  · have hcalls : callsOf u canceledLateOps = [] := by
      simp [callsOf, canceledLateOps, Op.method, hu]
    rw [hcalls]
    exact .nil

/-- All calls are handled up to the one after the late cancellation. -/
theorem handled_iff_canceledLate :
    AllHandled (.single 20 1 1) (.insertion Nat) (canceledLateOps.take 9) ∧
      ¬ AllHandled (.single 20 1 1) (.insertion Nat) canceledLateOps := by
  have hsplit : Orderly (.single 20 1 1) (.insertion Nat)
      (canceledLateOps.take 9 ++ canceledLateOps.drop 9) := canceledLateOps_orderly
  exact ⟨(handled_iff hsplit.before).mpr (by decide),
    fun h => absurd ((handled_iff canceledLateOps_orderly).mp h) (by decide)⟩

/-- The canceled event overlaps the one that is still to come, and every
validation of the queue raises. -/
theorem validate_canceledLate :
    ((World.run (.single 20 1 1) (.insertion Nat) (canceledLateOps.take 9)).exec (.single 20 1 1)
      (.insertion Nat) (.validate (.trying fun _ => 0) none)).1
        = .raised (.notImplementedError "Implementation of state States.CANCELED is missing") ∧
      ¬ ∀ ops : List (Op Int), Orderly (.single 20 1 1) (.insertion Nat) ops →
        AllHandled (.single 20 1 1) (.insertion Nat) ops := by
  refine ⟨by decide, fun h => ?_⟩
  have hcall := h canceledLateOps canceledLateOps_orderly (canceledLateOps.take 9) _ [] rfl [] none
    rfl
  exact hcall.2 "Implementation of state States.CANCELED is missing" (by decide)

end Iams.Scheduler
