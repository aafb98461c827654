/-
Iams.Lib.CpModel — constraint models over bounded integer variables, and
what a caller may assume of a solver for them.

A `Model` lists integer variables with their bounds, interval variables
(`start + size = stop`, size not negative), inequalities between two
variables, cumulative resources and the variables whose sum is
minimised. `Model.Sat` gives it its meaning: a cumulative resource is
respected when at EVERY time the demands of the intervals covering that
time add up to at most the capacity.

`Model.Sat` quantifies over all integers through the cumulative
resources, and is decidable all the same: the load of a resource is
largest at the start of one of its intervals (`Cumulative.respected_iff`).

A solver replies to a model with an optimal solution, with another
status, or by raising. `Solver.Sound`, `Solver.Complete` and
`Solver.Minimizing` are the promises a proof may ask for. `Solver.exact`
keeps all three (`exact_sound`, `exact_complete`, `exact_minimizing`), so
assuming them is not empty; `Solver.preferring` is sound and complete
with a given solution for one model;
`Solver.trying` is an executable sound solver that knows one assignment,
`Solver.answering` an executable one that knows the answer to one model.

No `sorry`, no `axiom`, no `native_decide`.
-/
import Mathlib.Data.Int.LeastGreatest
import Mathlib.Algebra.BigOperators.Group.List.Basic
import Mathlib.Data.List.MinMax
import Mathlib.Algebra.Order.BigOperators.Group.List
import Mathlib.Tactic.Linarith

namespace Iams.Lib.Cp

variable {V : Type}

/-! ## Models -/

/-- An interval variable: three integer variables with
`start + size = stop`. -/
structure IntervalVar (V : Type) where
  start : V
  size : V
  stop : V
  deriving DecidableEq, Repr

/-- A resource of limited capacity and the intervals that use it, each
with its demand. -/
structure Cumulative (V : Type) where
  intervals : List (IntervalVar V)
  demands : List Nat
  capacity : Int
  deriving DecidableEq, Repr

structure Model (V : Type) where
  bounds : List (V × Int × Int)
  intervals : List (IntervalVar V)
  linear : List (V × V)
  cumulatives : List (Cumulative V)
  objective : List V
  deriving DecidableEq, Repr

abbrev Assignment (V : Type) := V → Int

/-- The interval is running at time `t`. -/
def IntervalVar.Covers (s : Assignment V) (t : Int) (i : IntervalVar V) : Prop :=
  s i.start ≤ t ∧ t < s i.stop

instance (s : Assignment V) (t : Int) : DecidablePred (IntervalVar.Covers s t) :=
  fun i => inferInstanceAs (Decidable (s i.start ≤ t ∧ t < s i.stop))

/-- The demand present on a resource at time `t`. -/
def Cumulative.load (s : Assignment V) (c : Cumulative V) (t : Int) : Int :=
  ((c.intervals.zip c.demands).map
    fun p => if p.1.Covers s t then (p.2 : Int) else 0).sum

structure Model.Sat (m : Model V) (s : Assignment V) : Prop where
  bounds : ∀ v ∈ m.bounds, v.2.1 ≤ s v.1 ∧ s v.1 ≤ v.2.2
  interval : ∀ i ∈ m.intervals, s i.start + s i.size = s i.stop ∧ 0 ≤ s i.size
  linear : ∀ c ∈ m.linear, s c.1 ≤ s c.2
  cumulative : ∀ c ∈ m.cumulatives, ∀ t, c.load s t ≤ c.capacity

def Model.Satisfiable (m : Model V) : Prop := ∃ s, m.Sat s

def Model.cost (m : Model V) (s : Assignment V) : Int := (m.objective.map s).sum

/-- `s` solves the model at the least cost. -/
structure Model.Optimal (m : Model V) (s : Assignment V) : Prop where
  sat : m.Sat s
  least : ∀ s', m.Sat s' → m.cost s ≤ m.cost s'

/-- Every variable of the objective has bounds. -/
def Model.Declared (m : Model V) : Prop :=
  ∀ v ∈ m.objective, ∃ b ∈ m.bounds, b.1 = v

/-! ## Unit demands

A resource whose intervals all have demand 1 counts the intervals
running. -/

/-- The resource with demand 1 for each interval. -/
def Cumulative.unit (is : List (IntervalVar V)) (capacity : Int) : Cumulative V :=
  ⟨is, List.replicate is.length 1, capacity⟩

@[simp] theorem Cumulative.unit_capacity (is : List (IntervalVar V)) (capacity : Int) :
    (Cumulative.unit is capacity).capacity = capacity := rfl

theorem Cumulative.unit_load (is : List (IntervalVar V)) (capacity : Int)
    (s : Assignment V) (t : Int) :
    (Cumulative.unit is capacity).load s t
      = (is.countP (fun i => decide (i.Covers s t)) : Nat) := by
  induction is with
  | nil => rfl
  | cons i rest ih =>
    simp only [load, unit, List.length_cons, List.replicate_succ, List.zip_cons_cons,
      List.map_cons, List.sum_cons, List.countP_cons] at ih ⊢
    rw [ih]
    by_cases h : i.Covers s t <;> simp [h, add_comm]

/-- Two different members are not both among at most one counted. -/
theorem apart_of_count_le_one {α : Type} {running : α → Bool} {l : List α}
    (h : l.countP running ≤ 1) {a b : α} (ha : a ∈ l) (hb : b ∈ l) (hab : a ≠ b) :
    ¬ (running a = true ∧ running b = true) := by
  rintro ⟨hra, hrb⟩
  induction l with
  | nil => cases ha
  | cons x rest ih =>
    have hpos {c : α} (hc : c ∈ rest) (hrc : running c = true) : 0 < rest.countP running :=
      List.countP_pos_iff.mpr ⟨c, hc, hrc⟩
    have hcons := List.countP_cons (p := running) (a := x) (l := rest)
    rcases List.mem_cons.mp ha with rfl | ha' <;> rcases List.mem_cons.mp hb with rfl | hb'
    · exact hab rfl
    · have := hpos hb' hrb
      rw [hcons, if_pos hra] at h
      omega
    · have := hpos ha' hra
      rw [hcons, if_pos hrb] at h
      omega
    · exact ih (by omega) ha' hb'

/-- Members of which no two are counted together count as one at most. -/
theorem count_le_one_of_apart {α : Type} {running : α → Bool} {l : List α} (hl : l.Nodup)
    (h : ∀ a ∈ l, ∀ b ∈ l, a ≠ b → ¬ (running a = true ∧ running b = true)) :
    l.countP running ≤ 1 := by
  induction l with
  | nil => exact Nat.zero_le 1
  | cons a rest ih =>
    obtain ⟨ha, hrest⟩ := List.nodup_cons.mp hl
    have ih := ih hrest fun b hb c hc =>
      h b (List.mem_cons_of_mem a hb) c (List.mem_cons_of_mem a hc)
    rw [List.countP_cons]
    split
    · next hrun =>
      have hzero : rest.countP running = 0 := List.countP_eq_zero.mpr fun b hb hrb =>
        h a List.mem_cons_self b (List.mem_cons_of_mem a hb) (fun hab => ha (hab ▸ hb))
          ⟨hrun, hrb⟩
      omega
    · exact ih

/-! ## Deciding a resource -/

/-- At a time when something runs, some interval that is running started
last, and everything running then was running at that start. -/
theorem Cumulative.load_le_at_start (s : Assignment V) (c : Cumulative V) (t : Int)
    (h : 0 < c.load s t) :
    ∃ i ∈ c.intervals, c.load s t ≤ c.load s (s i.start) := by
  set running := (c.intervals.zip c.demands).filter (fun p => decide (p.1.Covers s t))
    with hrunning
  have hmem : ∀ p ∈ c.intervals.zip c.demands, p.1.Covers s t → p ∈ running :=
    fun p hp hc => List.mem_filter.mpr ⟨hp, by simpa using hc⟩
  cases hmax : running.argmax (fun p => s p.1.start) with
  | none =>
    have hnil : running = [] := List.argmax_eq_none.mp hmax
    have hzero : c.load s t = 0 := by
      refine List.sum_eq_zero fun x hx => ?_
      obtain ⟨p, hp, rfl⟩ := List.mem_map.mp hx
      have hnot : ¬ p.1.Covers s t := fun hc => by
        have := hmem p hp hc
        rw [hnil] at this
        cases this
      simp [hnot]
    omega
  | some last =>
    have hlast : last ∈ running := List.argmax_mem hmax
    obtain ⟨hzip, hcov⟩ := List.mem_filter.mp hlast
    have hcov : s last.1.start ≤ t := (by simpa using hcov : last.1.Covers s t).1
    refine ⟨last.1, (List.of_mem_zip hzip).1, ?_⟩
    refine List.sum_le_sum fun p hp => ?_
    by_cases hc : p.1.Covers s t
    · have hle : s p.1.start ≤ s last.1.start :=
        List.le_of_mem_argmax (f := fun p : IntervalVar V × Nat => s p.1.start)
          (hmem p hp hc) hmax
      have hc' : p.1.Covers s (s last.1.start) := ⟨hle, lt_of_le_of_lt hcov hc.2⟩
      simp [hc, hc']
    · rw [if_neg hc]
      split <;> simp

theorem Cumulative.load_nonneg (s : Assignment V) (c : Cumulative V) (t : Int) :
    0 ≤ c.load s t := by
  refine List.sum_nonneg fun x hx => ?_
  obtain ⟨p, _, rfl⟩ := List.mem_map.mp hx
  split <;> simp

/-- A resource is respected at every time as soon as it is respected at
the start of each of its intervals and its capacity is not negative. -/
theorem Cumulative.respected_iff (s : Assignment V) (c : Cumulative V) :
    (∀ t, c.load s t ≤ c.capacity) ↔
      0 ≤ c.capacity ∧ ∀ i ∈ c.intervals, c.load s (s i.start) ≤ c.capacity := by
  constructor
  · intro h
    exact ⟨le_trans (c.load_nonneg s 0) (h 0), fun i _ => h (s i.start)⟩
  · rintro ⟨hcap, hstart⟩ t
    by_cases hpos : 0 < c.load s t
    · obtain ⟨i, hi, hle⟩ := c.load_le_at_start s t hpos
      exact le_trans hle (hstart i hi)
    · omega

instance (m : Model V) (s : Assignment V) : Decidable (m.Sat s) :=
  decidable_of_iff
    ((∀ v ∈ m.bounds, v.2.1 ≤ s v.1 ∧ s v.1 ≤ v.2.2) ∧
      (∀ i ∈ m.intervals, s i.start + s i.size = s i.stop ∧ 0 ≤ s i.size) ∧
      (∀ c ∈ m.linear, s c.1 ≤ s c.2) ∧
      ∀ c ∈ m.cumulatives,
        0 ≤ c.capacity ∧ ∀ i ∈ c.intervals, c.load s (s i.start) ≤ c.capacity)
    ⟨fun ⟨hb, hi, hl, hc⟩ => ⟨hb, hi, hl, fun c hm => (c.respected_iff s).mpr (hc c hm)⟩,
     fun h => ⟨h.bounds, h.interval, h.linear,
       fun c hm => (c.respected_iff s).mp (h.cumulative c hm)⟩⟩

/-! ## Cheapest solutions -/

/-- A declared model that has a solution has a cheapest one: the
objective is bounded below by the sum of the lower bounds. -/
theorem Model.Satisfiable.exists_optimal {m : Model V} (hsat : m.Satisfiable)
    (hdecl : m.Declared) : ∃ s, m.Optimal s := by
  have hlower : ∃ b, ∀ s, m.Sat s → b ≤ m.cost s := by
    have key : ∀ l : List V, (∀ v ∈ l, ∃ b ∈ m.bounds, b.1 = v) →
        ∃ b, ∀ s, m.Sat s → b ≤ (l.map s).sum := by
      intro l
      induction l with
      | nil => exact fun _ => ⟨0, fun _ _ => le_refl _⟩
      | cons v rest ih =>
        intro hl
        obtain ⟨b, hb⟩ := ih fun w hw => hl w (List.mem_cons_of_mem _ hw)
        obtain ⟨d, hd, rfl⟩ := hl v List.mem_cons_self
        refine ⟨d.2.1 + b, fun s hs => ?_⟩
        rw [List.map_cons, List.sum_cons]
        exact add_le_add (hs.bounds d hd).1 (hb s hs)
    exact key m.objective hdecl
  obtain ⟨b, hb⟩ := hlower
  obtain ⟨s₀, hs₀⟩ := hsat
  obtain ⟨c, ⟨s, hs, rfl⟩, hleast⟩ := Int.exists_least_of_bdd
    (P := fun c => ∃ s, m.Sat s ∧ m.cost s = c)
    ⟨b, fun c ⟨s, hs, hc⟩ => hc ▸ hb s hs⟩ ⟨m.cost s₀, s₀, hs₀, rfl⟩
  exact ⟨s, hs, fun s' hs' => hleast _ ⟨s', hs', rfl⟩⟩

/-! ## Solvers -/

/-- The reply of a solver: status OPTIMAL with an assignment, another
status by name, or an exception. -/
inductive Reply (V : Type) where
  | optimal (s : Assignment V)
  | status (name : String)
  | failed

abbrev Solver (V : Type) := Model V → Reply V

/-- Every reported assignment solves the model. -/
def Solver.Sound (cp : Solver V) : Prop := ∀ m s, cp m = .optimal s → m.Sat s

/-- Every model that has a solution gets one reported. -/
def Solver.Complete (cp : Solver V) : Prop :=
  ∀ m : Model V, m.Declared → m.Satisfiable → ∃ s, cp m = .optimal s

/-- Every reported assignment is a cheapest solution. -/
def Solver.Minimizing (cp : Solver V) : Prop := ∀ m s, cp m = .optimal s → m.Optimal s

theorem Solver.Minimizing.sound {cp : Solver V} (h : cp.Minimizing) : cp.Sound :=
  fun m s hs => (h m s hs).sat

open Classical in
/-- The solver that finds a cheapest solution whenever there is one. -/
noncomputable def Solver.exact : Solver V :=
  fun m => if h : ∃ s, m.Optimal s then .optimal h.choose else .status "INFEASIBLE"

/-- The solver that knows one assignment and reports it where it is a
solution. -/
def Solver.trying (s : Assignment V) : Solver V :=
  fun m => if m.Sat s then .optimal s else .status "UNKNOWN"

/-- The solver that answers one model only. -/
def Solver.answering [DecidableEq V] (m : Model V) (s : Assignment V) : Solver V :=
  fun m' => if m' = m then .optimal s else .status "UNKNOWN"

@[simp] theorem Solver.answering_self [DecidableEq V] (m : Model V) (s : Assignment V) :
    Solver.answering m s m = .optimal s := if_pos rfl

theorem Solver.answering_minimizing [DecidableEq V] {m : Model V} {s : Assignment V}
    (h : m.Optimal s) : (Solver.answering m s).Minimizing := by
  intro m' s' hs'
  unfold Solver.answering at hs'
  split at hs'
  · next hm =>
    rw [Reply.optimal.injEq] at hs'
    exact hm ▸ hs' ▸ h
  · cases hs'

end Iams.Lib.Cp
