/-
Iams.Scheduler.FollowingTheorems — following a plan.

A solution of the model is a plan, and the next lifecycle step of an
event is taken exactly at its time in the plan. `following_iff` says when
the plan is still good afterwards, in the model that the scheduler builds
next: an event that arrives must not have to wait for its departure (the
model of an arrived event leaves it no time in the output buffer), a
canceled event that starts must have been given its full duration, and
the waiting events must still compare in the order of the plan. The times
of the queue and of the step are such that a float holds them.

`following_clash` is a plan that is lost by following it.

No `sorry`, no `axiom`, no `native_decide`.
-/
import Iams.Scheduler.SoundnessTheorems
import Iams.Scheduler.Window

namespace Iams.Scheduler

open Iams.Lib

/-! ## Lifecycle steps -/

/-- The steps of an event's life. -/
inductive Move where
  | arrive
  | start
  | finish
  | depart
  deriving DecidableEq, Repr

namespace Move

/-- The states in which a step is the next one. -/
def From : Move → States → Prop
  | .arrive, s => s = .new ∨ s = .scheduled
  | .start, s => s = .arrived
  | .finish, s => s = .started
  | .depart, s => s = .finished

/-- The step of event `u`, at its time in the plan. -/
def op (u : Nat) (p : Slot) : Move → Op Int
  | .arrive => .arrive u p.eta
  | .start => .start u p.start
  | .finish => .finish u p.finish
  | .depart => .depart u p.etd

/-- The event after the step. -/
def apply (cfg : BufferScheduler Int) (e : Event Int) (p : Slot) : Move → Event Int
  | .arrive => e.arrive p.eta
  | .start => e.start cfg p.start
  | .finish => e.finish cfg p.finish
  | .depart => e.depart p.etd

/-- The time of the step. -/
def time (p : Slot) : Move → Int
  | .arrive => p.eta
  | .start => p.start
  | .finish => p.finish
  | .depart => p.etd

/-- The times that are left to follow: an event that has arrived leaves
as soon as it is finished. -/
def slot (p : Slot) : Move → Slot
  | .arrive => { p with etd := p.finish }
  | _ => p

/-- What the step asks of the event and its times. -/
def Allows (e : Event Int) (p : Slot) : Move → Prop
  | .arrive => ∀ low, e.etd.constraintLow = some low → low ≤ p.finish
  | .start => e.canceled = true → p.finish = p.start + e.duration
  | _ => True

variable {cfg : BufferScheduler Int} {e : Event Int} {st : Stage} {p : Slot} {m : Move}

theorem apply_start (hr : cfg.resolution = 1) (h : e.Numeric) :
    Move.start.apply cfg e p = { e with state := .started, scheduleStart := some p.start } := by
  simp [apply, Event.start, h.event, Event.setStart, Event.getSeconds,
    BufferScheduler.convertSeconds_one hr]

theorem apply_finish (hr : cfg.resolution = 1) (h : e.Numeric) :
    Move.finish.apply cfg e p
      = { e with state := .finished, scheduleFinish := some p.finish } := by
  simp [apply, Event.finish, h.event, Event.setFinish, Event.getSeconds,
    BufferScheduler.convertSeconds_one hr]

/-- The next model converts the time of the step, and times that were
converted before. -/
theorem converted_apply (hr : cfg.resolution = 1) (h : e.Numeric) (hm : m.From e.state)
    {o : Option Int} (ho : o ∈ (m.apply cfg e p).converted) :
    o = some (m.time p) ∨ o ∈ e.converted := by
  cases m with
  | arrive =>
    rcases hm with hs | hs <;>
      simp only [apply, Event.arrive, Event.converted, hs, ETX.set_none, List.mem_cons] at ho ⊢ <;>
      tauto
  | start =>
    simp only [From] at hm
    simp only [apply_start hr h, Event.converted, hm, List.mem_cons] at ho ⊢
    tauto
  | finish =>
    simp only [From] at hm
    simp only [apply_finish hr h, Event.converted, hm, List.mem_cons] at ho ⊢
    tauto
  | depart =>
    simp only [From] at hm
    simp only [apply, Event.depart, Event.converted, hm, ETX.set_none, List.mem_cons] at ho ⊢
    tauto

/-- A step at a time that a float holds keeps the times of the event
exact. -/
theorem apply_exact (hr : cfg.resolution = 1) (h : e.Numeric) (hexact : e.Exact)
    (hm : m.From e.state) (htime : FloatExact (m.time p)) : (m.apply cfg e p).Exact := by
  intro o ho t ht
  rcases converted_apply hr h hm ho with rfl | ho
  · rwa [← Option.some.inj ht]
  · exact hexact o ho t ht

/-- A state has one next step. -/
theorem From.unique {m' : Move} {s : States} (h : m.From s) (h' : m'.From s) : m = m' := by
  cases m <;> cases m' <;> cases s <;> simp_all [From]

end Move

namespace Stage

variable {lo hi lo' hi' t s f duration : Int} {p : Slot} {eta etd : Bounds} {canceled : Bool}

/-- An event that has arrived leaves as soon as it is finished: its
departure must be allowed then. -/
theorem admits_arrived (h : (waiting eta etd duration).Admits lo hi p) (hetd : p.etd ≤ hi)
    (hcov : (arrived p.eta etd duration canceled).CoveredBy lo' hi') (hle : hi ≤ hi') :
    (arrived p.eta etd duration canceled).Admits lo' hi' { p with etd := p.finish } ↔
      ∀ low, etd.1 = some low → low ≤ p.finish := by
  obtain ⟨-, -, -, hdeparture, hiqt, hsize, hoqt⟩ := h
  have hlow : lo' ≤ p.eta := hcov.low p.eta rfl
  have hupper : p.etd ≤ etd.2.getD hi' := le_getD_of_le hle hdeparture.2
  constructor
  · rintro ⟨-, -, -, ⟨hwithin, -⟩, -⟩ low hetdLow
    rwa [hetdLow] at hwithin
  · intro hallows
    have hetdLow : etd.1.getD p.eta ≤ p.finish := by
      cases hfirst : etd.1 with
      | none => simp only [Option.getD_none]; omega
      | some low => exact hallows low hfirst
    refine ⟨rfl, ⟨hiqt.1, ?_⟩, ⟨?_, ?_⟩, ⟨hetdLow, ?_⟩, ?_, ⟨?_, hsize.1.le, fun _ => hsize.1⟩,
      rfl⟩
    all_goals simp only [Option.getD_some]; omega

/-- A canceled event that starts must have been given its duration. -/
theorem admits_started (h : (arrived t etd duration canceled).Admits lo hi p) (hetd : p.etd ≤ hi)
    (hcov : (started t p.start etd duration canceled).CoveredBy lo' hi') (hle : hi ≤ hi') :
    (started t p.start etd duration canceled).Admits lo' hi' p ↔
      (canceled = true → p.finish = p.start + duration) := by
  obtain ⟨heta, hstart, -, hdeparture, -, hsize, hoqt⟩ := h
  have hlow : lo' ≤ t := hcov.low t rfl
  have hwait : t ≤ p.start := hstart.1
  have hupper : p.etd ≤ etd.2.getD hi' := le_getD_of_le hle hdeparture.2
  have hetdLow : etd.1.getD p.start ≤ p.etd := getD_le_of_le (by omega) hdeparture.1
  constructor
  · rintro ⟨⟨-, -, hfinish⟩, -⟩ -
    exact hfinish
  · intro hallows
    have hfinish : p.finish = p.start + duration := by
      cases hc : canceled with
      | false => exact hsize.2.2 hc
      | true => exact hallows hc
    exact ⟨⟨heta, rfl, hfinish⟩, ⟨hetdLow, hupper⟩, hwait, by omega, ⟨hoqt.ge, by omega⟩⟩

theorem admits_finished (h : (started t s etd duration canceled).Admits lo hi p)
    (hetd : p.etd ≤ hi) (hcov : (finished s p.finish etd).CoveredBy lo' hi') (hle : hi ≤ hi') :
    (finished s p.finish etd).Admits lo' hi' p := by
  obtain ⟨⟨-, hstart, hfinish⟩, hdeparture, -, hsize, hoqt⟩ := h
  have hlow : lo' ≤ s := hcov.low s rfl
  have hetdLow : etd.1.getD p.finish ≤ p.etd := getD_le_of_le hoqt.1 hdeparture.1
  exact ⟨⟨hstart, rfl⟩, ⟨hetdLow, le_getD_of_le hle hdeparture.2⟩, by omega, hoqt.1, by omega⟩

theorem admits_departed (h : (finished s f etd).Admits lo hi p) :
    (departed s f p.etd).Admits lo' hi' p := by
  obtain ⟨hfixed, -, hsize, hoqt⟩ := h
  exact ⟨⟨hfixed.1, hfixed.2, rfl⟩, hsize, by omega⟩

end Stage

namespace Move

variable {cfg : BufferScheduler Int} {e : Event Int} {st : Stage} {p : Slot} {m : Move}

/-- The stage after the step, and when it admits the times that are left:
exactly where the step allows it. -/
theorem next_stage {lo hi : Int} (hr : cfg.resolution = 1) (h : e.Numeric)
    (hm : m.From e.state) (hst : e.HasStage st) (hp : st.Admits lo hi p)
    (hcov : st.CoveredBy lo hi) :
    ∃ st', (m.apply cfg e p).HasStage st' ∧ (st'.hasInput = true → st.hasInput = true) ∧
      ∀ lo' hi', st'.CoveredBy lo' hi' → hi ≤ hi' →
        (st'.Admits lo' hi' (m.slot p) ↔ m.Allows e p) := by
  have hetd := hp.etd_le hcov
  cases hst with
  | waiting hs hok =>
    obtain rfl : m = .arrive := hm.unique hs
    exact ⟨.arrived p.eta e.etdBounds e.duration e.canceled,
      .arrived rfl (by simp [apply, Event.arrive]) hok, fun _ => rfl,
      fun _ _ hcov' hle => Stage.admits_arrived hp hetd hcov' hle⟩
  | @arrived t hs ht hok =>
    obtain rfl : m = .start := hm.unique hs
    rw [apply_start hr h]
    exact ⟨.started t p.start e.etdBounds e.duration e.canceled, .started rfl ht rfl hok,
      fun _ => rfl, fun _ _ hcov' hle => Stage.admits_started hp hetd hcov' hle⟩
  | @started t s hs ht hstart hok =>
    obtain rfl : m = .finish := hm.unique hs
    rw [apply_finish hr h]
    exact ⟨.finished s p.finish e.etdBounds, .finished rfl hstart rfl hok, fun _ => rfl,
      fun _ _ hcov' hle => iff_of_true (Stage.admits_finished hp hetd hcov' hle) trivial⟩
  | @finished s f hs hstart hfinish hok =>
    obtain rfl : m = .depart := hm.unique hs
    exact ⟨.departed s f p.etd,
      .departed rfl hstart hfinish (by simp [apply, Event.depart]), fun h => h,
      fun _ _ _ _ => iff_of_true (Stage.admits_departed hp) trivial⟩
  | departed hs => cases m <;> simp [From, hs] at hm

end Move

theorem Move.apply_numeric (cfg : BufferScheduler Int) {e : Event Int} (h : e.Numeric)
    (p : Slot) (m : Move) : (m.apply cfg e p).Numeric := by
  have key {e' : Event Int} (hstep : World.EventStep cfg EventArgs.Numeric e.uid e e') :
      e'.Numeric := (Event.eventStep_numeric hstep ⟨h, rfl⟩).1
  cases m with
  | arrive => exact key (.arrive p.eta)
  | start => exact key (.start p.start)
  | finish => exact key (.finish p.finish)
  | depart => exact key (.depart p.etd)

/-! ## Following the plan of a scheduler -/

namespace World

variable (cfg : BufferScheduler Int) (S : Sorter Nat)

/-- The scheduler that has built its model, after the next step of event
`x`, at its time in the plan. -/
def follow (w : World Int) (m : Move) (x : Nat) (p : Plan) (now : Option Int) : World Int :=
  (w.gathered cfg [] now).step cfg S (m.op x (p x))

variable {cfg S} {w : World Int} {m : Move} {x : Nat} {p : Plan} {now : Option Int}

theorem follow_obj :
    (w.follow cfg S m x p now).obj = Function.update w.obj x (m.apply cfg (w.obj x) (p x)) := by
  cases m <;> rfl

theorem follow_events : (w.follow cfg S m x p now).events = collect w.obj w.events := by
  cases m <;> rfl

theorem follow_maxHorizon :
    (w.follow cfg S m x p now).maxHorizon = (w.problem cfg S [] now).hi := by
  cases m <;> rfl

/-- The next model is about no other events. -/
theorem follow_keys {v : Nat} (hv : v ∈ ((w.follow cfg S m x p now).problem cfg S [] now).keys) :
    v ∈ (w.problem cfg S [] now).keys := by
  have hmem : v ∈ (w.follow cfg S m x p now).events := by
    have hc : v ∈ (w.follow cfg S m x p now).concerned [] := mem_keysOf.mp hv
    simp only [concerned, List.append_nil, List.mem_append, live, kept, gone,
      List.mem_filter] at hc
    rcases hc with ⟨hc, -⟩ | ⟨⟨hc, -⟩, -⟩ <;> exact hc
  rw [follow_events, mem_collect] at hmem
  refine mem_keysOf.mpr ?_
  rw [concerned, List.append_nil, List.mem_append]
  exact hmem

/-- An event whose next step this is has not gone. -/
theorem mem_live_of_from (hx : x ∈ w.events) (hm : m.From (w.obj x).state) :
    x ∈ live w.obj w.events := by
  refine List.mem_filter.mpr ⟨hx, ?_⟩
  cases m <;> simp only [Move.From] at hm
  · rcases hm with hm | hm <;> rw [hm] <;> rfl
  all_goals
    rw [hm]
    rfl

variable (cfg S now) in
theorem mem_keys_of_from (hx : x ∈ w.events) (hm : m.From (w.obj x).state) :
    x ∈ (w.problem cfg S [] now).keys :=
  mem_keysOf.mpr (List.mem_append_left _ (List.mem_append_left _ (mem_live_of_from hx hm)))

/-- Unless it departs, the event stays in the model. -/
theorem mem_follow_keys (hx : x ∈ w.events) (hm : m.From (w.obj x).state)
    (hdepart : m ≠ .depart) :
    x ∈ ((w.follow cfg S m x p now).problem cfg S [] now).keys := by
  refine mem_keysOf.mpr (List.mem_append_left _ (List.mem_append_left _ ?_))
  refine List.mem_filter.mpr ⟨?_, ?_⟩
  · rw [follow_events]
    exact (mem_collect w.obj).mpr (Or.inl (mem_live_of_from hx hm))
  · rw [follow_obj, Function.update_self]
    cases m with
    | depart => exact absurd rfl hdepart
    | arrive => rfl
    | start =>
      simp only [Move.apply, Event.start]
      split <;> rfl
    | finish =>
      simp only [Move.apply, Event.finish]
      split <;> rfl

/-- The stage of an event that the step is not about. -/
theorem follow_stage {v : Nat} (hv : v ≠ x) :
    ((w.follow cfg S m x p now).problem cfg S [] now).stage v
      = (w.problem cfg S [] now).stage v := by
  change ((w.follow cfg S m x p now).obj v).stageD cfg now = (w.obj v).stageD cfg now
  rw [follow_obj, Function.update_of_ne hv]

/-- Arrivals and slots are those of the plan, departures no later. -/
theorem slot_times (m : Move) (q : Slot) (hq : m = .arrive → q.finish ≤ q.etd) :
    (m.slot q).eta = q.eta ∧ (m.slot q).start = q.start ∧ (m.slot q).finish = q.finish ∧
      (m.slot q).etd ≤ q.etd := by
  cases m with
  | arrive => exact ⟨rfl, rfl, rfl, hq rfl⟩
  | start | finish | depart => exact ⟨rfl, rfl, rfl, le_refl _⟩

/-- When the plan is still followable: the step allows the event's times,
and the waiting events still compare in the order of the plan. -/
def Followable (cfg : BufferScheduler Int) (S : Sorter Nat) (w : World Int) (m : Move) (x : Nat)
    (p : Plan) (now : Option Int) : Prop :=
  m.Allows (w.obj x) (p x) ∧ ((w.follow cfg S m x p now).problem cfg S [] now).InOrder p

/-- The times that are left keep the arrivals and slots of the plan. -/
theorem moved_times (hp : (w.problem cfg S [] now).Feasible p)
    (hkey : x ∈ (w.problem cfg S [] now).keys) (v : Nat) :
    (Function.update p x (m.slot (p x)) v).eta = (p v).eta ∧
      (Function.update p x (m.slot (p x)) v).start = (p v).start ∧
      (Function.update p x (m.slot (p x)) v).finish = (p v).finish ∧
      (Function.update p x (m.slot (p x)) v).etd ≤ (p v).etd := by
  by_cases hvx : v = x
  · rw [hvx, Function.update_self]
    exact slot_times m (p x) fun _ => (hp.admits x hkey).finish_le_etd
  · rw [Function.update_of_ne hvx]
    exact ⟨rfl, rfl, rfl, le_refl _⟩

/-- The window of the next model reaches at least as far. -/
theorem hi_le_follow :
    (w.problem cfg S [] now).hi ≤ ((w.follow cfg S m x p now).problem cfg S [] now).hi := by
  refine le_trans (le_of_eq ?_) (le_max_left _ _)
  rw [follow_maxHorizon]

/-- After the step all events can be read, and the next model admits the
times of the event exactly where the step allows it. -/
theorem follow_next (hr : cfg.resolution = 1) (hw : w.Integer) (hexact : w.Exact [])
    (hread : w.Readable cfg [] now) (hp : (w.problem cfg S [] now).Feasible p)
    (hx : x ∈ w.events) (hm : m.From (w.obj x).state) (htime : FloatExact (m.time (p x))) :
    let P' := (w.follow cfg S m x p now).problem cfg S [] now
    (w.follow cfg S m x p now).Readable cfg [] now ∧
      ((P'.stage x).hasInput = true → ((w.problem cfg S [] now).stage x).hasInput = true) ∧
      (x ∈ P'.keys →
        ((P'.stage x).Admits P'.lo P'.hi (m.slot (p x)) ↔ m.Allows (w.obj x) (p x))) := by
  intro P'
  have hkey := mem_keys_of_from cfg S now hx hm
  have hstage : (w.obj x).HasStage ((w.problem cfg S [] now).stage x) :=
    hw.hasStage hr hexact hread hkey
  obtain ⟨st, hst, hinput, hadmits⟩ := Move.next_stage hr (hw.numeric x) hm hstage
    (hp.admits x hkey) (problem_covers cfg S w [] now hkey)
  have hnumeric := Move.apply_numeric cfg (hw.numeric x) (p x) m
  have hexact' : (m.apply cfg (w.obj x) (p x)).Exact :=
    Move.apply_exact hr (hw.numeric x) (hexact x (mem_keysOf.mp hkey)) hm htime
  have hobj : (w.follow cfg S m x p now).obj x = m.apply cfg (w.obj x) (p x) := by
    rw [follow_obj, Function.update_self]
  have hstagex : P'.stage x = st := by
    show ((w.follow cfg S m x p now).obj x).stageD cfg now = st
    rw [hobj]
    exact hst.stageD_eq hr hnumeric hexact'
  refine ⟨fun v hv => ?_, fun h => hinput (hstagex ▸ h), fun hx' => ?_⟩
  · by_cases hvx : v = x
    · rw [hvx, hobj]
      exact hst.readable hr hnumeric hexact'
    · rw [follow_obj, Function.update_of_ne hvx]
      exact hread v (mem_keysOf.mp (follow_keys (mem_keysOf.mpr hv)))
  · have hcov : (P'.stage x).CoveredBy P'.lo P'.hi :=
      problem_covers cfg S (w.follow cfg S m x p now) [] now hx'
    rw [hstagex] at hcov ⊢
    exact hadmits P'.lo P'.hi hcov hi_le_follow

/-- After the step all events can be read, and the times that are left
are a plan for the next model, exactly if the plan is followable. -/
theorem follow_feasible (hr : cfg.resolution = 1) (hw : w.Integer) (hexact : w.Exact [])
    (hread : w.Readable cfg [] now) (hp : (w.problem cfg S [] now).Feasible p)
    (hx : x ∈ w.events) (hm : m.From (w.obj x).state) (htime : FloatExact (m.time (p x))) :
    (w.follow cfg S m x p now).Readable cfg [] now ∧
      (((w.follow cfg S m x p now).problem cfg S [] now).Feasible
          (Function.update p x (m.slot (p x))) ↔ w.Followable cfg S m x p now) := by
  obtain ⟨hread', hinput, hadmits⟩ := follow_next hr hw hexact hread hp hx hm htime
  refine ⟨hread', ?_⟩
  have htimes := moved_times (m := m) hp (mem_keys_of_from cfg S now hx hm)
  set P := w.problem cfg S [] now with hP
  set w' := w.follow cfg S m x p now with hw'
  set P' := w'.problem cfg S [] now with hP'
  constructor
  · intro h
    refine ⟨?_, fun c hc => ?_⟩
    · by_cases hdepart : m = .depart
      · rw [hdepart]
        trivial
      · have hx' : x ∈ P'.keys := mem_follow_keys hx hm hdepart
        have hxadmits := h.admits x hx'
        rw [Function.update_self] at hxadmits
        exact (hadmits hx').mp hxadmits
    · have horder := h.queue c hc
      rw [(htimes c.1).1, (htimes c.2).1, (htimes c.1).2.1, (htimes c.2).2.1] at horder
      exact horder
  · rintro ⟨hallows, horder⟩
    have hloads := hp.loads P' (Function.update p x (m.slot (p x))) rfl
      (nodup_keysOf _) (fun v hv => follow_keys hv) (fun v hv hin => by
        by_cases hvx : v = x
        · rw [hvx] at hin ⊢
          exact hinput hin
        · rw [hP', follow_stage hvx] at hin
          exact hin) fun v _ => htimes v
    refine ⟨fun v hv => ?_, fun c hc => ?_, hloads.1, hloads.2.1, hloads.2.2⟩
    · by_cases hvx : v = x
      · rw [hvx] at hv ⊢
        rw [Function.update_self]
        exact (hadmits hv).mpr hallows
      · have hv' : v ∈ P.keys := follow_keys hv
        have hsame : P'.stage v = P.stage v := follow_stage hvx
        have hcov' : (P'.stage v).CoveredBy P'.lo P'.hi := problem_covers cfg S w' [] now hv
        have hstage : (w.obj v).HasStage (P.stage v) := hw.hasStage hr hexact hread hv'
        rw [hsame] at hcov'
        rw [hsame, Function.update_of_ne hvx]
        exact (hp.admits v hv').move (hstage.anchored (hw.numeric v))
          (problem_covers cfg S w [] now hv') hcov' hi_le_follow
    · have := horder c hc
      rw [(htimes c.1).1, (htimes c.2).1, (htimes c.1).2.1, (htimes c.2).2.1]
      exact this

/-- Following a solution of the model with the next step of an event, all
times being such that a float holds them: the times that are left solve
the next model if and only if the plan is followable, and then the next
model can be built and has a solution. -/
theorem following_iff {s : Cp.Assignment Var} (hr : cfg.resolution = 1) (hw : w.Integer)
    (hexact : w.Exact []) (hread : w.Readable cfg [] now) (hs : (w.model cfg S [] now).Sat s)
    (hx : x ∈ w.events) (hm : m.From (w.obj x).state)
    (htime : FloatExact (m.time (planOf (w.problem cfg S [] now).lo s x))) :
    let p := planOf (w.problem cfg S [] now).lo s
    let w' := w.follow cfg S m x p now
    (w.Followable cfg S m x p now ↔ (w'.model cfg S [] now).Sat
      (assignmentOf (w'.problem cfg S [] now).lo (Function.update p x (m.slot (p x))))) ∧
    (w.Followable cfg S m x p now →
      w'.Readable cfg [] now ∧ (w'.model cfg S [] now).Satisfiable) := by
  intro p w'
  have hp : (w.problem cfg S [] now).Feasible p := Problem.feasible_of_sat (asks hread) hs
  obtain ⟨hread', hiff⟩ := follow_feasible hr hw hexact hread hp hx hm htime
  have hsat (h : w.Followable cfg S m x p now) := Problem.sat_of_feasible (asks hread') (hiff.mpr h)
  refine ⟨⟨hsat, fun h => ?_⟩, fun h => ⟨hread', _, hsat h⟩⟩
  have hfeasible := Problem.feasible_of_sat (asks hread') h
  rw [planOf_assignmentOf] at hfeasible
  exact hiff.mp hfeasible

/-- An event of length 1 that arrives at 0 and is collected at 10, and
one that needs the machine from 9 to 10. -/
def clash : World Int :=
  let cfg := BufferScheduler.single 20 1 1
  let S := Sorter.insertion Nat
  let answer := assignmentOf 0 fun u => if u = 1 then ⟨0, 0, 1, 10⟩ else ⟨9, 9, 10, 10⟩
  ((((init cfg).step cfg S (.create { duration := 1, eta := .number 0, etd := .number 10 })).step
    cfg S (.save (.trying answer) 1 none)).step
    cfg S (.create { duration := 1, eta := .number 9, etd := .number 10 })).step
    cfg S (.save (.trying answer) 2 none)

theorem clash_reached : clash.ReachedInteger (.single 20 1 1) (.insertion Nat) :=
  (((ReachedInteger.init.step _ (by decide) (by exact ⟨rfl, trivial, trivial⟩)).step _
    (by decide) (by exact trivial)).step _ (by decide) (by exact ⟨rfl, trivial, trivial⟩)).step _
    (by decide) (by exact trivial)

/-- The plan that processes the first event at once and has it wait in
the output buffer. -/
def clashAnswer : Cp.Assignment Var :=
  assignmentOf 0 fun u => if u = 1 then ⟨0, 0, 1, 10⟩ else ⟨9, 9, 10, 10⟩

theorem clash_readable : clash.Readable (.single 20 1 1) [] none := by
  intro u hu
  have hu : u ∈ [1, 2] := hu
  simp only [List.mem_cons, List.not_mem_nil, or_false] at hu
  rcases hu with rfl | rfl <;> exact ⟨_, rfl⟩

/-- Taking the second event first, the plan is kept; the first event's
arrival costs it. -/
theorem following_iff_clash :
    let p := planOf (clash.problem (.single 20 1 1) (.insertion Nat) [] none).lo clashAnswer
    let follow x := clash.follow (.single 20 1 1) (.insertion Nat) .arrive x p none
    let left x := assignmentOf ((follow x).problem (.single 20 1 1) (.insertion Nat) [] none).lo
      (Function.update p x (Move.arrive.slot (p x)))
    (((follow 2).model (.single 20 1 1) (.insertion Nat) [] none).Sat (left 2) ∧
      (follow 2).Readable (.single 20 1 1) [] none ∧
        ((follow 2).model (.single 20 1 1) (.insertion Nat) [] none).Satisfiable) ∧
    ¬ ((follow 1).model (.single 20 1 1) (.insertion Nat) [] none).Sat (left 1) := by
  intro p follow left
  have h (x : Nat) (hx : x ∈ clash.events) (hm : Move.arrive.From (clash.obj x).state)
      (htime : FloatExact (Move.arrive.time (p x))) :=
    following_iff rfl (integer_of_reached clash_reached) (by decide) clash_readable
      (show Cp.Model.Sat _ clashAnswer by decide) hx hm htime
  have hsecond : clash.Followable (.single 20 1 1) (.insertion Nat) .arrive 2 p none :=
    ⟨by rintro _ ⟨⟩; decide, by unfold Problem.InOrder; decide⟩
  refine ⟨⟨(h 2 (by decide) (Or.inr rfl) (by decide)).1.mp hsecond,
    (h 2 (by decide) (Or.inr rfl) (by decide)).2 hsecond⟩, fun hsat => ?_⟩
  have hfirst := (h 1 (by decide) (Or.inr rfl) (by decide)).1.mpr hsat
  exact absurd (hfirst.1 10 rfl) (by decide)

/-- Once the first event has arrived as planned, it may not wait for its
departure any more and needs the machine from 9 to 10 as well. -/
theorem following_clash :
    clash.ReachedInteger (.single 20 1 1) (.insertion Nat) ∧
      (clash.model (.single 20 1 1) (.insertion Nat) [] none).Sat clashAnswer ∧
      1 ∈ clash.events ∧ Move.arrive.From (clash.obj 1).state ∧
      ¬ ((clash.follow (.single 20 1 1) (.insertion Nat) .arrive 1
        (planOf (clash.problem (.single 20 1 1) (.insertion Nat) [] none).lo clashAnswer)
        none).model (.single 20 1 1) (.insertion Nat) [] none).Satisfiable := by
  refine ⟨clash_reached, by decide, by decide, Or.inr rfl, ?_⟩
  rintro ⟨s, hs⟩
  have hread : (clash.follow (.single 20 1 1) (.insertion Nat) .arrive 1
      (planOf (clash.problem (.single 20 1 1) (.insertion Nat) [] none).lo clashAnswer)
      none).Readable (.single 20 1 1) [] none := by
    intro u hu
    have hu : u ∈ [1, 2] := hu
    simp only [List.mem_cons, List.not_mem_nil, or_false] at hu
    rcases hu with rfl | rfl <;> exact ⟨_, rfl⟩
  have hfeasible := Problem.feasible_of_sat (asks hread) hs
  have hfirst : Stage.Admits 0 20 _ (.arrived 0 (some 10, some 10) 1 false) :=
    hfeasible.admits 1 (by decide)
  have hsecond : Stage.Admits 0 20 _ (.waiting (some 9, some 9) (some 10, some 10) 1) :=
    hfeasible.admits 2 (by decide)
  have hapart := hfeasible.disjoint (u := 1) (v := 2) (by decide) (by decide) (by decide) 9
  simp [Stage.Admits, Bounds.Within, Slot.onMachine] at hfirst hsecond hapart
  omega

end World

end Iams.Scheduler
