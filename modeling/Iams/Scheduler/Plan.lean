/-
Iams.Scheduler.Plan — what the solver's model is for: plans.

A plan gives every event four absolute times. `Stage.Admits` says which
times an event may have in its stage, and a `Problem` collects what a
scheduler asks about all its events: their stages, the order in which
the waiting ones queue, the buffer capacity and the window of times.
`Problem.Feasible` is its meaning, in terms of slots, queues and one
machine, with no solver, variable, offset or interval in it.

`Problem.feasible_of_sat` and `Problem.sat_of_feasible` connect the two
levels: the solutions of the model that `build_model` makes are the
feasible plans, shifted by the offset.

No `sorry`, no `axiom`, no `native_decide`.
-/
import Iams.Scheduler.Model
import Mathlib.Tactic.Ring
import Mathlib.Data.List.Perm.Subperm

namespace Iams.Scheduler

open Iams.Lib

/-! ## Slots and plans -/

/-- The four times of one event. -/
structure Slot where
  eta : Int
  start : Int
  finish : Int
  etd : Int
  deriving DecidableEq, Repr

abbrev Plan := Nat → Slot

namespace Slot

/-- The event waits in the input buffer at time `t`. -/
def inInput (p : Slot) (t : Int) : Bool := decide (p.eta ≤ t ∧ t < p.start)

/-- The event is being processed at time `t`. -/
def onMachine (p : Slot) (t : Int) : Bool := decide (p.start ≤ t ∧ t < p.finish)

/-- The event waits in the output buffer at time `t`. -/
def inOutput (p : Slot) (t : Int) : Bool := decide (p.finish ≤ t ∧ t < p.etd)

end Slot

/-- `x` is within bounds whose open sides are `lo` and `hi`. -/
def Bounds.Within (lo hi : Int) (b : Bounds) (x : Int) : Prop :=
  b.1.getD lo ≤ x ∧ x ≤ b.2.getD hi

/-- The times an event may have in its stage, in a window from `lo` to
`hi`. -/
def Stage.Admits (lo hi : Int) (p : Slot) : Stage → Prop
  | .waiting eta etd duration =>
      Bounds.Within lo hi eta p.eta ∧
      Bounds.Within lo hi (eta.2, etd.1) p.start ∧
      Bounds.Within lo hi (eta.2, etd.1) p.finish ∧
      Bounds.Within lo hi etd p.etd ∧
      (p.eta ≤ p.start ∧ p.start - p.eta ≤ hi - lo) ∧
      (p.finish = p.start + duration ∧ 0 ≤ duration) ∧
      (p.finish ≤ p.etd ∧ p.etd - p.finish ≤ hi - lo)
  | .arrived eta etd duration canceled =>
      p.eta = eta ∧
      Bounds.Within lo hi (some eta, etd.2) p.start ∧
      Bounds.Within lo hi (some eta, etd.2) p.finish ∧
      Bounds.Within lo hi (some (etd.1.getD eta), etd.2) p.etd ∧
      p.start - p.eta ≤ hi - lo ∧
      (p.start ≤ p.finish ∧ p.finish ≤ p.start + duration ∧
        (canceled = false → p.finish = p.start + duration)) ∧
      p.etd = p.finish
  | .started eta start etd duration _ =>
      (p.eta = eta ∧ p.start = start ∧ p.finish = start + duration) ∧
      Bounds.Within lo hi (some (etd.1.getD start), etd.2) p.etd ∧
      eta ≤ start ∧ 0 ≤ duration ∧
      (p.finish ≤ p.etd ∧ p.etd - p.finish ≤ hi - lo)
  | .finished start finish etd =>
      (p.start = start ∧ p.finish = finish) ∧
      Bounds.Within lo hi (some (etd.1.getD finish), etd.2) p.etd ∧
      start ≤ finish ∧ (p.finish ≤ p.etd ∧ p.etd - p.finish ≤ hi - lo)
  | .departed start finish etd =>
      (p.start = start ∧ p.finish = finish ∧ p.etd = etd) ∧ start ≤ finish ∧ finish ≤ etd

/-- Before the start: the stages that the order constraints speak
about. -/
def Stage.isWaiting : Stage → Bool
  | .waiting .. | .arrived .. => true
  | _ => false

/-- The stages whose event uses the input buffer. -/
def Stage.hasInput : Stage → Bool
  | .waiting .. | .arrived .. | .started .. => true
  | _ => false

/-- The neighbours in a list that both satisfy `waiting`. -/
def neighbours (waiting : Nat → Bool) : List Nat → List (Nat × Nat)
  | a :: b :: rest =>
      (if waiting a && waiting b then [(a, b)] else []) ++ neighbours waiting (b :: rest)
  | _ => []

/-- What a scheduler asks about its events. -/
structure Problem where
  keys : List Nat
  stage : Nat → Stage
  order : List Nat
  capacity : Int
  lo : Int
  hi : Int

namespace Problem

def isWaiting (P : Problem) (u : Nat) : Bool := (P.stage u).isWaiting

/-- The events in the input buffer at time `t`. -/
def inputLoad (P : Problem) (p : Plan) (t : Int) : Nat :=
  P.keys.countP fun u => (P.stage u).hasInput && (p u).inInput t

/-- The events on the machine at time `t`. -/
def machineLoad (P : Problem) (p : Plan) (t : Int) : Nat :=
  P.keys.countP fun u => (p u).onMachine t

/-- The events in the output buffer at time `t`. -/
def outputLoad (P : Problem) (p : Plan) (t : Int) : Nat :=
  P.keys.countP fun u => (p u).inOutput t

/-- The waiting events arrive and start in the order in which they
queue. -/
def InOrder (P : Problem) (p : Plan) : Prop :=
  ∀ c ∈ neighbours P.isWaiting P.order,
    (p c.1).eta ≤ (p c.2).eta ∧ (p c.1).start ≤ (p c.2).start

/-- The plan `p` answers the problem: every event has times its stage
admits, the queue keeps its order, there is one machine and neither
buffer holds more than the capacity. -/
structure Feasible (P : Problem) (p : Plan) : Prop where
  admits : ∀ u ∈ P.keys, (P.stage u).Admits P.lo P.hi (p u)
  queue : P.InOrder p
  input : ∀ t, (P.inputLoad p t : Int) ≤ P.capacity
  machine : ∀ t, P.machineLoad p t ≤ 1
  output : ∀ t, (P.outputLoad p t : Int) ≤ P.capacity

/-- What is minimised: the departures. -/
def cost (P : Problem) (p : Plan) : Int := (P.keys.map fun u => (p u).etd).sum

/-- A feasible plan whose departures add up to the least possible. -/
structure Cheapest (P : Problem) (p : Plan) : Prop where
  feasible : P.Feasible p
  least : ∀ q, P.Feasible q → P.cost p ≤ P.cost q

end Problem

/-- Counting fewer things among fewer members. -/
theorem countP_le_countP {us vs : List Nat} {f g : Nat → Bool} (hnodup : us.Nodup)
    (hsub : ∀ u ∈ us, u ∈ vs) (h : ∀ u ∈ us, f u = true → g u = true) :
    us.countP f ≤ vs.countP g :=
  le_trans (List.countP_mono_left h) ((List.subperm_of_subset hnodup hsub).countP_le g)

/-- A plan that asks for no more than a feasible one, for some of its
events, overloads nothing. -/
theorem Problem.Feasible.loads {P : Problem} {p : Plan} (h : P.Feasible p) (P' : Problem)
    (p' : Plan)
    (hcapacity : P'.capacity = P.capacity) (hnodup : P'.keys.Nodup)
    (hsub : ∀ u ∈ P'.keys, u ∈ P.keys)
    (hinput : ∀ u ∈ P'.keys, (P'.stage u).hasInput = true → (P.stage u).hasInput = true)
    (hslot : ∀ u ∈ P'.keys, (p' u).eta = (p u).eta ∧ (p' u).start = (p u).start ∧
      (p' u).finish = (p u).finish ∧ (p' u).etd ≤ (p u).etd) :
    (∀ t, (P'.inputLoad p' t : Int) ≤ P'.capacity) ∧ (∀ t, P'.machineLoad p' t ≤ 1) ∧
      ∀ t, (P'.outputLoad p' t : Int) ≤ P'.capacity := by
  rw [hcapacity]
  refine ⟨fun t => ?_, fun t => ?_, fun t => ?_⟩
  · refine le_trans (Int.ofNat_le.mpr (countP_le_countP hnodup hsub fun u hu hin => ?_))
      (h.input t)
    obtain ⟨heta, hstart, -, -⟩ := hslot u hu
    simp only [Slot.inInput, heta, hstart, Bool.and_eq_true] at hin ⊢
    exact ⟨hinput u hu hin.1, hin.2⟩
  · refine le_trans (countP_le_countP hnodup hsub fun u hu hon => ?_) (h.machine t)
    obtain ⟨-, hstart, hfinish, -⟩ := hslot u hu
    simpa only [Slot.onMachine, hstart, hfinish] using hon
  · refine le_trans (Int.ofNat_le.mpr (countP_le_countP hnodup hsub fun u hu hout => ?_))
      (h.output t)
    obtain ⟨-, -, hfinish, hetd⟩ := hslot u hu
    simp only [Slot.inOutput, hfinish, decide_eq_true_eq] at hout ⊢
    exact ⟨hout.1, lt_of_lt_of_le hout.2 hetd⟩

/-! ## From stages to the model

The variables that `build_model` creates for one event, and when an
assignment satisfies what is said about that event alone. -/

/-- The intervals `build_model` creates for a stage. -/
def Stage.intervals (st : Stage) : List (IntervalKey × Cp.IntervalVar Name) :=
  (if st.hasInput then [(.i, ⟨.eta, .iqt, .start⟩)] else []) ++
    [(.p, ⟨.start, .duration, .finish⟩), (.o, ⟨.finish, .oqt, .etd⟩)]

/-- The bounds and inequalities of one event's variables hold. -/
structure NewData.Holds (d : NewData) (σ : Name → Int) : Prop where
  bounds : ∀ b ∈ d.bounds, b.2.1 ≤ σ b.1 ∧ σ b.1 ≤ b.2.2
  intervals : ∀ i ∈ d.intervals,
    σ i.2.start + σ i.2.size = σ i.2.stop ∧ 0 ≤ σ i.2.size
  linear : ∀ c ∈ d.linear, σ c.1 ≤ σ c.2

/-- The slot an assignment, which counts from `lo`, gives an event. -/
def Slot.ofNames (lo : Int) (σ : Name → Int) : Slot :=
  ⟨σ .eta + lo, σ .start + lo, σ .finish + lo, σ .etd + lo⟩

/-- The assignment to an event's variables that a slot stands for. -/
def Slot.names (lo : Int) (p : Slot) : Name → Int
  | .eta => p.eta - lo
  | .iqt => p.start - p.eta
  | .start => p.start - lo
  | .duration => p.finish - p.start
  | .finish => p.finish - lo
  | .oqt => p.etd - p.finish
  | .etd => p.etd - lo

@[simp] theorem Slot.ofNames_names (lo : Int) (p : Slot) :
    Slot.ofNames lo (p.names lo) = p := by
  simp [Slot.ofNames, Slot.names]

theorem newBounds_eq (lo hi : Int) (range : Name × Bounds) :
    newBounds lo (hi - lo) range
      = (range.1, range.2.1.getD lo - lo, range.2.2.getD hi - lo) := by
  obtain ⟨name, lower, upper⟩ := range
  cases lower <;> cases upper <;> simp [newBounds]

/-- The variables of an event in stage `st`. -/
def Stage.data (lo hi : Int) (st : Stage) : NewData :=
  match newData lo (hi - lo) (st.variables 0) with
  | .ok d => d
  | .error _ => ⟨[], [], [], none⟩

/-- The loop over the events never fails on what `get_variables` hands
it: every interval finds its variables. -/
theorem newData_variables (lo hi : Int) (number : Nat) (st : Stage) :
    newData lo (hi - lo) (st.variables number) = .ok (st.data lo hi) := by
  cases st <;> rfl

theorem Stage.data_intervals (lo hi : Int) (st : Stage) :
    (st.data lo hi).intervals = st.intervals := by
  cases st <;> rfl

/-- What the variables of one event satisfy is a slot its stage
admits. -/
theorem Stage.admits_of_holds {lo hi : Int} {st : Stage} {σ : Name → Int}
    (h : (st.data lo hi).Holds σ) : st.Admits lo hi (Slot.ofNames lo σ) := by
  obtain ⟨hbounds, hintervals, hlinear⟩ := h
  cases st <;>
    simp [Stage.data, newData, Stage.variables, newBounds_eq, NewData.addInterval,
      NewData.addSize, NewData.addVar, NewData.names, bind, Except.bind]
      at hbounds hintervals hlinear <;>
    simp only [Stage.Admits, Bounds.Within, Slot.ofNames, Option.getD_some]
  case arrived eta etd d canceled =>
    cases canceled <;> simp at * <;> omega
  all_goals omega

/-- A slot that the stage admits satisfies what is said about the event's
variables. -/
theorem Stage.holds_of_admits {lo hi : Int} {st : Stage} {p : Slot}
    (h : st.Admits lo hi p) : (st.data lo hi).Holds (p.names lo) := by
  cases st <;> simp only [Stage.Admits, Bounds.Within, Option.getD_some] at h
  case arrived eta etd d canceled =>
    cases canceled <;> simp at h <;> constructor <;>
      simp [Stage.data, newData, Stage.variables, newBounds_eq, NewData.addInterval,
        NewData.addSize, NewData.addVar, NewData.names, bind, Except.bind, Slot.names] <;>
      omega
  all_goals
    constructor <;>
      simp [Stage.data, newData, Stage.variables, newBounds_eq, NewData.addInterval,
        NewData.addSize, NewData.addVar, NewData.names, bind, Except.bind, Slot.names] <;>
      omega

/-! ## The whole model -/

/-- The plan a solution of the model stands for. -/
def planOf (lo : Int) (s : Cp.Assignment Var) : Plan :=
  fun u => Slot.ofNames lo fun name => s (name, u)

/-- The assignment a plan stands for. -/
def assignmentOf (lo : Int) (p : Plan) : Cp.Assignment Var :=
  fun v => (p v.2).names lo v.1

@[simp] theorem planOf_assignmentOf (lo : Int) (p : Plan) :
    planOf lo (assignmentOf lo p) = p := by
  funext u
  simp [planOf, assignmentOf]

namespace Problem

/-- The variables of all events. -/
def datas (P : Problem) : List (Nat × NewData) :=
  P.keys.map fun u => (u, (P.stage u).data P.lo P.hi)

theorem newDatas_variables (P : Problem) (number : Nat → Nat) :
    newDatas P.lo (P.hi - P.lo)
        (P.keys.map fun u => (u, (P.stage u).variables (number u))) = .ok P.datas := by
  unfold datas
  induction P.keys with
  | nil => rfl
  | cons u rest ih =>
    simp only [List.map_cons, newDatas, newData_variables, ih]
    rfl

@[simp] theorem datas_keys (P : Problem) : P.datas.map Prod.fst = P.keys := by
  simp [datas, Function.comp_def]

/-- Counting over lists of at most one counted member each. -/
theorem countP_flatMap_ite {α : Type} {f : Nat → List α} {c : α → Bool} {q : Nat → Bool}
    (h : ∀ u, (f u).countP c = if q u then 1 else 0) (us : List Nat) :
    (us.flatMap f).countP c = us.countP q := by
  induction us with
  | nil => rfl
  | cons u rest ih =>
    rw [List.flatMap_cons, List.countP_append, ih, h, List.countP_cons, Nat.add_comm]

/-- The load of one of the three resources counts the events whose
interval of that kind is running. -/
theorem load_intervalsOf (P : Problem) (key : IntervalKey) (capacity : Int)
    (s : Cp.Assignment Var) (t : Int) {running : Nat → Bool}
    (h : ∀ u, (((P.stage u).intervals.filter fun x => x.1 = key).map
        fun x => toVar u x.2).countP (fun i => decide (i.Covers s t))
      = if running u then 1 else 0) :
    (Cp.Cumulative.unit (intervalsOf key P.datas) capacity).load s t
      = (P.keys.countP running : Nat) := by
  rw [Cp.Cumulative.unit_load, intervalsOf, datas, List.flatMap_map]
  simp only [Stage.data_intervals]
  rw [countP_flatMap_ite h]

theorem load_input (P : Problem) (capacity : Int) (s : Cp.Assignment Var) (t : Int) :
    (Cp.Cumulative.unit (intervalsOf .i P.datas) capacity).load s t
      = (P.inputLoad (planOf P.lo s) (t + P.lo) : Nat) := by
  refine P.load_intervalsOf .i capacity s t fun u => ?_
  by_cases hruns : s (.eta, u) ≤ t ∧ t < s (.start, u) <;>
    cases hinput : (P.stage u).hasInput <;>
    simp [Stage.intervals, hinput, toVar, Cp.IntervalVar.Covers, Slot.inInput, planOf,
      Slot.ofNames, hruns]

theorem load_machine (P : Problem) (capacity : Int) (s : Cp.Assignment Var) (t : Int) :
    (Cp.Cumulative.unit (intervalsOf .p P.datas) capacity).load s t
      = (P.machineLoad (planOf P.lo s) (t + P.lo) : Nat) := by
  refine P.load_intervalsOf .p capacity s t fun u => ?_
  by_cases hruns : s (.start, u) ≤ t ∧ t < s (.finish, u) <;>
    cases hinput : (P.stage u).hasInput <;>
    simp [Stage.intervals, hinput, toVar, Cp.IntervalVar.Covers, Slot.onMachine, planOf,
      Slot.ofNames, hruns]

theorem load_output (P : Problem) (capacity : Int) (s : Cp.Assignment Var) (t : Int) :
    (Cp.Cumulative.unit (intervalsOf .o P.datas) capacity).load s t
      = (P.outputLoad (planOf P.lo s) (t + P.lo) : Nat) := by
  refine P.load_intervalsOf .o capacity s t fun u => ?_
  by_cases hruns : s (.finish, u) ≤ t ∧ t < s (.etd, u) <;>
    cases hinput : (P.stage u).hasInput <;>
    simp [Stage.intervals, hinput, toVar, Cp.IntervalVar.Covers, Slot.inOutput, planOf,
      Slot.ofNames, hruns]

end Problem

section Connection

variable {τ : Type} [Ring τ] [LinearOrder τ]

/-- The problem `P` is the one the model over the events in `obj` is
about. -/
structure Problem.Asks (P : Problem) (obj : Nat → Event τ) (S : Sorter Nat)
    (cfg : BufferScheduler τ) : Prop where
  order : P.order = S.sort (ltOn obj) P.keys
  waiting : ∀ u ∈ P.keys, (obj u).state.waiting = P.isWaiting u
  capacity : P.capacity = cfg.bufferInput.first

variable {P : Problem} {obj : Nat → Event τ} {S : Sorter Nat} {cfg : BufferScheduler τ}

omit [Ring τ] [LinearOrder τ] in
theorem mem_orderConstraints {waiting : Nat → Bool} {us : List Nat}
    (h : ∀ u ∈ us, (obj u).state.waiting = waiting u) (c : Var × Var) :
    c ∈ orderConstraints obj us ↔
      ∃ n ∈ neighbours waiting us,
        c = ((.eta, n.1), (.eta, n.2)) ∨ c = ((.start, n.1), (.start, n.2)) := by
  induction us with
  | nil => simp [orderConstraints, neighbours]
  | cons a rest ih =>
    cases rest with
    | nil => simp [orderConstraints, neighbours]
    | cons b rest =>
      have ih := ih fun u hu => h u (List.mem_cons_of_mem a hu)
      simp only [orderConstraints, neighbours, List.mem_append, ih,
        h a List.mem_cons_self, h b (List.mem_cons_of_mem a List.mem_cons_self)]
      cases hab : waiting a && waiting b <;> simp [or_and_right, exists_or]

namespace Problem

/-- Every solution of the model is a feasible plan. -/
theorem feasible_of_sat {s : Cp.Assignment Var} (hP : P.Asks obj S cfg)
    (h : (assemble obj S cfg P.datas).Sat s) : P.Feasible (planOf P.lo s) where
  admits := by
    intro u hu
    have hd : (u, (P.stage u).data P.lo P.hi) ∈ P.datas := List.mem_map.mpr ⟨u, hu, rfl⟩
    refine Stage.admits_of_holds ⟨?_, ?_, ?_⟩
    · intro b hb
      exact h.bounds ((b.1, u), b.2)
        (List.mem_flatMap.mpr ⟨_, hd, List.mem_map.mpr ⟨b, hb, rfl⟩⟩)
    · intro i hi
      exact h.interval (toVar u i.2)
        (List.mem_flatMap.mpr ⟨_, hd, List.mem_map.mpr ⟨i, hi, rfl⟩⟩)
    · intro c hc
      exact h.linear ((c.1, u), (c.2, u)) (List.mem_append_left _
        (List.mem_flatMap.mpr ⟨_, hd, List.mem_map.mpr ⟨c, hc, rfl⟩⟩))
  queue := by
    intro c hc
    have hwait : ∀ u ∈ P.order, (obj u).state.waiting = P.isWaiting u := by
      intro u hu
      rw [hP.order, S.mem_sort] at hu
      exact hP.waiting u hu
    have hlinear : ∀ d ∈ orderConstraints obj P.order, s d.1 ≤ s d.2 := by
      intro d hd
      refine h.linear d (List.mem_append_right _ ?_)
      rw [datas_keys, ← hP.order]
      exact hd
    have heta := hlinear _ ((mem_orderConstraints hwait _).mpr ⟨c, hc, Or.inl rfl⟩)
    have hstart := hlinear _ ((mem_orderConstraints hwait _).mpr ⟨c, hc, Or.inr rfl⟩)
    exact ⟨Int.add_le_add_right heta P.lo, Int.add_le_add_right hstart P.lo⟩
  input := by
    intro t
    have hload := h.cumulative _ List.mem_cons_self (t - P.lo)
    rw [P.load_input, Cp.Cumulative.unit_capacity, sub_add_cancel] at hload
    rw [hP.capacity]
    exact hload
  machine := by
    intro t
    have hload := h.cumulative _ (List.mem_cons_of_mem _ List.mem_cons_self) (t - P.lo)
    rw [P.load_machine, Cp.Cumulative.unit_capacity, sub_add_cancel] at hload
    exact_mod_cast hload
  output := by
    intro t
    have hload := h.cumulative _
      (List.mem_cons_of_mem _ (List.mem_cons_of_mem _ List.mem_cons_self)) (t - P.lo)
    rw [P.load_output, Cp.Cumulative.unit_capacity, sub_add_cancel] at hload
    rw [hP.capacity]
    exact hload

/-- Every feasible plan solves the model. -/
theorem sat_of_feasible {p : Plan} (hP : P.Asks obj S cfg) (h : P.Feasible p) :
    (assemble obj S cfg P.datas).Sat (assignmentOf P.lo p) := by
  have hholds : ∀ x ∈ P.datas, x.2.Holds fun name => assignmentOf P.lo p (name, x.1) := by
    intro x hx
    obtain ⟨u, hu, rfl⟩ := List.mem_map.mp hx
    exact Stage.holds_of_admits (h.admits u hu)
  constructor
  · intro v hv
    obtain ⟨x, hx, hv⟩ := List.mem_flatMap.mp hv
    obtain ⟨b, hb, rfl⟩ := List.mem_map.mp hv
    exact (hholds x hx).bounds b hb
  · intro i hi
    obtain ⟨x, hx, hi⟩ := List.mem_flatMap.mp hi
    obtain ⟨j, hj, rfl⟩ := List.mem_map.mp hi
    exact (hholds x hx).intervals j hj
  · intro c hc
    rcases List.mem_append.mp hc with hc | hc
    · obtain ⟨x, hx, hc⟩ := List.mem_flatMap.mp hc
      obtain ⟨d, hd, rfl⟩ := List.mem_map.mp hc
      exact (hholds x hx).linear d hd
    · rw [datas_keys, ← hP.order] at hc
      have hwait : ∀ u ∈ P.order, (obj u).state.waiting = P.isWaiting u := by
        intro u hu
        rw [hP.order, S.mem_sort] at hu
        exact hP.waiting u hu
      obtain ⟨n, hn, hc⟩ := (mem_orderConstraints hwait c).mp hc
      obtain ⟨heta, hstart⟩ := h.queue n hn
      rcases hc with rfl | rfl
      · exact Int.sub_le_sub_right heta P.lo
      · exact Int.sub_le_sub_right hstart P.lo
  · intro c hc t
    simp only [assemble, List.mem_cons, List.not_mem_nil, or_false] at hc
    rcases hc with rfl | rfl | rfl
    · rw [P.load_input, planOf_assignmentOf, Cp.Cumulative.unit_capacity, ← hP.capacity]
      exact h.input (t + P.lo)
    · rw [P.load_machine, planOf_assignmentOf, Cp.Cumulative.unit_capacity]
      exact_mod_cast h.machine (t + P.lo)
    · rw [P.load_output, planOf_assignmentOf, Cp.Cumulative.unit_capacity, ← hP.capacity]
      exact h.output (t + P.lo)

/-- Every departure has bounds. -/
theorem declared : (assemble obj S cfg P.datas).Declared := by
  intro v hv
  obtain ⟨x, hx, rfl⟩ := List.mem_map.mp hv
  obtain ⟨u, hu, rfl⟩ := List.mem_map.mp hx
  have hetd : ∃ b ∈ ((P.stage u).data P.lo P.hi).bounds, b.1 = .etd := by
    cases P.stage u <;>
      simp [Stage.data, newData, Stage.variables, newBounds_eq, NewData.addInterval,
        NewData.addSize, NewData.addVar, NewData.names, bind, Except.bind]
  obtain ⟨⟨name, bound⟩, hb, rfl⟩ := hetd
  exact ⟨((.etd, u), bound),
    List.mem_flatMap.mpr ⟨_, hx, List.mem_map.mpr ⟨_, hb, rfl⟩⟩, rfl⟩

/-- The model has a solution if and only if the problem has a plan. -/
theorem satisfiable_iff (hP : P.Asks obj S cfg) :
    (assemble obj S cfg P.datas).Satisfiable ↔ ∃ p, P.Feasible p :=
  ⟨fun ⟨_, hs⟩ => ⟨_, feasible_of_sat hP hs⟩, fun ⟨_, hp⟩ => ⟨_, sat_of_feasible hP hp⟩⟩

variable (P obj S cfg) in
/-- The model's cost is the plan's, up to the offset. -/
theorem cost_planOf (s : Cp.Assignment Var) :
    P.cost (planOf P.lo s)
      = (assemble obj S cfg P.datas).cost s + P.keys.length * P.lo := by
  have hobjective : (assemble obj S cfg P.datas).objective = P.keys.map fun u => (.etd, u) := by
    simp [assemble, datas, Function.comp_def]
  have key : ∀ us : List Nat, (us.map fun u => (planOf P.lo s u).etd).sum
      = (us.map fun u => s (.etd, u)).sum + us.length * P.lo := by
    intro us
    induction us with
    | nil => simp
    | cons u rest ih =>
      rw [List.map_cons, List.map_cons, List.sum_cons, List.sum_cons, ih, List.length_cons]
      simp only [planOf, Slot.ofNames]
      push_cast
      ring
  rw [Cp.Model.cost, hobjective, List.map_map]
  exact key P.keys

/-- The optimal solutions of the model are the cheapest plans. -/
theorem cheapest_of_optimal {s : Cp.Assignment Var} (hP : P.Asks obj S cfg)
    (h : (assemble obj S cfg P.datas).Optimal s) : P.Cheapest (planOf P.lo s) where
  feasible := feasible_of_sat hP h.sat
  least := by
    intro q hq
    have hle := h.least _ (sat_of_feasible hP hq)
    have hs := cost_planOf P obj S cfg s
    have hq' := cost_planOf P obj S cfg (assignmentOf P.lo q)
    rw [planOf_assignmentOf] at hq'
    omega

theorem optimal_of_cheapest {p : Plan} (hP : P.Asks obj S cfg) (h : P.Cheapest p) :
    (assemble obj S cfg P.datas).Optimal (assignmentOf P.lo p) where
  sat := sat_of_feasible hP h.feasible
  least := by
    intro s hs
    have hle := h.least _ (feasible_of_sat hP hs)
    have hs' := cost_planOf P obj S cfg s
    have hp := cost_planOf P obj S cfg (assignmentOf P.lo p)
    rw [planOf_assignmentOf] at hp
    omega

end Problem

end Connection

end Iams.Scheduler
