/-
Iams.Scheduler.QueryTheorems — what a query does to the queue.

`can_schedule` and `validate` solve the same model as `save` and write
its answer back in the same way. `query_keeps_iff` says when that leaves
the queued events as they were: when every cheapest solution gives them
the times they store already. `moved_by_query` is a queue on which a
candidate of length 1 moves an event that was planned to start at once.

No `sorry`, no `axiom`, no `native_decide`.
-/
import Iams.Scheduler.SoundnessTheorems

namespace Iams.Scheduler

open Iams.Lib

/-! ## Stored times -/

/-- The arrival, the departure and the slot stored on an event are the
same. -/
structure Event.SameTimes {τ : Type} (e e' : Event τ) : Prop where
  eta : e'.eta = e.eta
  etd : e'.etd = e.etd
  start : e'.scheduleStart = e.scheduleStart
  finish : e'.scheduleFinish = e.scheduleFinish

theorem Event.SameTimes.refl {τ : Type} (e : Event τ) : e.SameTimes e := ⟨rfl, rfl, rfl, rfl⟩

section Stored

variable {τ : Type} [Ring τ] [LinearOrder τ] (cfg : BufferScheduler τ)

/-- The moment `n` steps after `now` (or after 0), as it is stored. -/
def BufferScheduler.moment (cfg : BufferScheduler τ) (useDatetime : Bool) (now : Option τ)
    (n : Int) : τ :=
  match useDatetime, now with
  | true, some m => m + cfg.convertSeconds (n : τ)
  | _, _ => cfg.convertSeconds (n : τ)

/-- The event already stores what the plan `p` says about it, as far as
its state has it stored. -/
def Event.Stores (e : Event τ) (now : Option τ) (p : Slot) : Prop :=
  match e.state with
  | .new =>
      e.eta.time = some (cfg.moment e.eta.useDatetime now p.eta) ∧
      e.scheduleStart = some (cfg.moment e.useDatetime now p.start) ∧
      e.scheduleFinish = some (cfg.moment e.useDatetime now p.finish) ∧
      e.etd.time = some (cfg.moment e.etd.useDatetime now p.etd)
  | .scheduled | .arrived =>
      e.scheduleStart = some (cfg.moment e.useDatetime now p.start) ∧
      e.scheduleFinish = some (cfg.moment e.useDatetime now p.finish)
  | .started => e.scheduleFinish = some (cfg.moment e.useDatetime now p.finish)
  | _ => True

variable {cfg}

theorem ETX.set_moment (x : ETX τ) (n : Int) (now : Option τ) :
    x.set (cfg.convertSeconds (n : τ)) now
      = { x with time := some (cfg.moment x.useDatetime now n) } := by
  cases hx : x.useDatetime <;> cases now <;> simp [ETX.set, BufferScheduler.moment, hx]

omit [Ring τ] [LinearOrder τ] in
theorem ETX.with_time_eq {x : ETX τ} {t : Option τ} : { x with time := t } = x ↔ x.time = t := by
  constructor
  · intro h
    rw [← h]
  · rintro rfl
    rfl

theorem Event.getSeconds_moment (e : Event τ) (n : Int) (now : Option τ) :
    e.getSeconds (cfg.convertSeconds (n : τ)) now = cfg.moment e.useDatetime now n := by
  cases he : e.useDatetime <;> cases now <;> simp [getSeconds, BufferScheduler.moment, he]

/-- Writing a plan back changes nothing exactly when it is stored
already. -/
theorem Event.sameTimes_writeBack {e : Event τ} {value : Name → Int} {now : Option τ} :
    e.SameTimes (e.writeBack cfg value now) ↔
      e.Stores cfg now ⟨value .eta, value .start, value .finish, value .etd⟩ := by
  unfold writeBack Stores
  cases e.state with
  | new =>
    simp only [setStart, setFinish, ETX.set_moment, getSeconds_moment]
    constructor
    · rintro ⟨heta, hetd, hstart, hfinish⟩
      exact ⟨ETX.with_time_eq.mp heta, hstart.symm, hfinish.symm, ETX.with_time_eq.mp hetd⟩
    · rintro ⟨heta, hstart, hfinish, hetd⟩
      exact ⟨ETX.with_time_eq.mpr heta, ETX.with_time_eq.mpr hetd, hstart.symm, hfinish.symm⟩
  | scheduled | arrived =>
    simp only [setStart, setFinish, getSeconds_moment]
    exact ⟨fun h => ⟨h.start.symm, h.finish.symm⟩, fun h => ⟨rfl, rfl, h.1.symm, h.2.symm⟩⟩
  | started =>
    simp only [setFinish, getSeconds_moment]
    exact ⟨fun h => h.finish.symm, fun h => ⟨rfl, rfl, rfl, h.symm⟩⟩
  | finished | departed | canceled => exact ⟨fun _ => trivial, fun _ => .refl e⟩

end Stored

/-! ## Queries -/

namespace World

section Query

variable {τ : Type} [Ring τ] [LinearOrder τ] [TimeStep τ]
variable (cfg : BufferScheduler τ) (S : Sorter Nat)

/-- The two queries: `can_schedule` on a candidate, and `validate`
without one. -/
def query (w : World τ) (cp : Cp.Solver Var) (candidate : Option Nat) (now : Option τ) :
    World τ :=
  match candidate with
  | some u => (w.canSchedule cfg S cp u now).2
  | none => (w.validate cfg S cp now).2

variable {cfg S} {w : World τ}

theorem query_world (cp : Cp.Solver Var) (candidate : Option Nat) (now : Option τ) :
    w.query cfg S cp candidate now
      = (w.solveModel cfg S cp candidate.toList now false).2 := by
  cases candidate with
  | none => exact validate_world w cp now
  | some u => rfl

/-- The write-back of `s` changes nothing on an event of the model exactly
when the event stores the plan already. -/
theorem sameTimes_planned {new : List Nat} {now : Option τ} (s : Cp.Assignment Var) {v : Nat}
    (hv : v ∈ w.concerned new) :
    (w.obj v).SameTimes ((w.planned cfg new now s).obj v) ↔
      (w.obj v).Stores cfg now (planOf (w.problem cfg S new now).lo s v) := by
  have hkey : v ∈ keysOf (w.concerned new) := mem_keysOf.mpr hv
  change (w.obj v).SameTimes (if v ∈ keysOf (w.concerned new) then _ else _) ↔ _
  rw [if_pos hkey, Event.sameTimes_writeBack]
  rfl

theorem query_of_optimal {cp : Cp.Solver Var} {candidate : Option Nat} {now : Option τ}
    {s : Cp.Assignment Var} (hread : w.Readable cfg candidate.toList now)
    (hcp : cp (w.model cfg S candidate.toList now) = .optimal s) :
    w.query cfg S cp candidate now = w.planned cfg candidate.toList now s := by
  rw [query_world, solveModel_of_readable hread, hcp]

/-- A query leaves the stored times of the queued events alone, whatever
cheapest solution the solver finds, if and only if every cheapest plan
for the queue and the candidate gives the queued events the times they
store already. -/
theorem query_keeps_iff {candidate : Option Nat} {now : Option τ} :
    (∀ cp : Cp.Solver Var, cp.Minimizing →
      ∀ v ∈ w.events, (w.obj v).SameTimes ((w.query cfg S cp candidate now).obj v)) ↔
    (w.Readable cfg candidate.toList now →
      ∀ p, (w.problem cfg S candidate.toList now).Cheapest p →
        ∀ v ∈ w.events, v ∈ w.concerned candidate.toList → (w.obj v).Stores cfg now (p v)) := by
  constructor
  · intro h hread p hp v hv hconcerned
    have hoptimal : (w.model cfg S candidate.toList now).Optimal _ :=
      Problem.optimal_of_cheapest (asks hread) hp
    have hsame := h _ (Cp.Solver.answering_minimizing hoptimal) v hv
    rw [query_of_optimal hread (Cp.Solver.answering_self _ _)] at hsame
    simpa using (sameTimes_planned (S := S) _ hconcerned).mp hsame
  · intro h cp hcp v hv
    by_cases hread : w.Readable cfg candidate.toList now
    · cases hreply : cp (w.model cfg S candidate.toList now) with
      | optimal s =>
        rw [query_of_optimal hread hreply]
        by_cases hconcerned : v ∈ w.concerned candidate.toList
        · have hcheapest := Problem.cheapest_of_optimal (asks hread) (hcp _ s hreply)
          exact (sameTimes_planned s hconcerned).mpr (h hread _ hcheapest v hv hconcerned)
        · have hkey : v ∉ keysOf (w.concerned candidate.toList) :=
            fun hk => hconcerned (mem_keysOf.mp hk)
          change (w.obj v).SameTimes
            (if v ∈ keysOf (w.concerned candidate.toList) then _ else _)
          rw [if_neg hkey]
          exact .refl _
      | status name =>
        rw [query_world, solveModel_of_readable hread, hreply]
        exact .refl _
      | failed =>
        rw [query_world, solveModel_of_readable hread, hreply]
        exact .refl _
    · obtain ⟨err, removed, heq, -, -, -⟩ :=
        solveModel_of_not_readable (S := S) hread cp false
      rw [query_world, heq]
      exact .refl _

end Query

/-- A queue with one event, of length 5 and planned to start at 0, and a
candidate of length 1 that arrives at 0 as well. -/
def crowded : World Int :=
  (((init (.single 10 2 2)).step (.single 10 2 2) (.insertion Nat)
    (.create { duration := 5, eta := .number 0 })).step (.single 10 2 2) (.insertion Nat)
    (.save (.trying (assignmentOf 0 fun _ => ⟨0, 0, 5, 5⟩)) 1 none)).step (.single 10 2 2)
    (.insertion Nat) (.create { duration := 1, eta := .number 0 })

theorem crowded_reached : crowded.ReachedInteger (.single 10 2 2) (.insertion Nat) :=
  ((ReachedInteger.init.step _ (by decide) (by exact ⟨rfl, trivial, trivial⟩)).step _
    (by decide) (by exact trivial)).step _ (by decide) (by exact ⟨rfl, trivial, trivial⟩)

/-- Asking whether the candidate fits puts it before the queued event,
whose start moves. -/
theorem moved_by_query :
    crowded.ReachedInteger (.single 10 2 2) (.insertion Nat) ∧
      ¬ ∀ cp : Cp.Solver Var, cp.Minimizing → ∀ v ∈ crowded.events,
        (crowded.obj v).SameTimes
          ((crowded.query (.single 10 2 2) (.insertion Nat) cp (some 2) none).obj v) := by
  refine ⟨crowded_reached, fun h => ?_⟩
  have hread : crowded.Readable (.single 10 2 2) [2] none := by
    intro u hu
    have hu : u ∈ [1, 2] := hu
    simp only [List.mem_cons, List.not_mem_nil, or_false] at hu
    rcases hu with rfl | rfl <;> exact ⟨_, rfl⟩
  have hsat : (crowded.model (.single 10 2 2) (.insertion Nat) [2] none).Satisfiable :=
    ⟨assignmentOf 0 fun u => if u = 1 then ⟨0, 1, 6, 6⟩ else ⟨0, 0, 1, 1⟩, by decide⟩
  obtain ⟨s, hs⟩ := hsat.exists_optimal Problem.declared
  have hfeasible := Problem.feasible_of_sat (asks hread) hs.sat
  set p := planOf (crowded.problem (.single 10 2 2) (.insertion Nat) [2] none).lo s
  -- the candidate comes first, and the machine is taken then
  have horder : (p 2).start ≤ (p 1).start := (hfeasible.queue (2, 1) (by decide)).2
  have hapart := hfeasible.disjoint (u := 1) (v := 2) (by decide) (by decide) (by decide)
    (p 1).start
  have hqueued : Stage.Admits _ _ (p 1) (.waiting (some 0, some 0) (none, none) 5) :=
    hfeasible.admits 1 (by decide)
  have hcandidate : Stage.Admits _ _ (p 2) (.waiting (some 0, some 0) (none, none) 1) :=
    hfeasible.admits 2 (by decide)
  -- yet the queued event would have to keep its start
  have hsame := h _ (Cp.Solver.answering_minimizing hs) 1 (by decide)
  have hquery (cp : Cp.Solver Var)
      (hcp : cp (crowded.model (.single 10 2 2) (.insertion Nat) [2] none) = .optimal s) :
      crowded.query (.single 10 2 2) (.insertion Nat) cp (some 2) none
        = crowded.planned (.single 10 2 2) [2] none s := query_of_optimal hread hcp
  rw [hquery _ (Cp.Solver.answering_self _ s)] at hsame
  have hstores : some (0 : Int) = some ((p 1).start * 1) :=
    ((sameTimes_planned s (by decide)).mp hsame).2.1
  simp [Stage.Admits, Bounds.Within, Slot.onMachine] at hqueued hcandidate hapart hstores
  omega

end World

end Iams.Scheduler
