/-
Iams.Scheduler.Window — the window `get_event_variables` computes.

`makespan_covers` and `problem_covers` say that the window contains the
makespan of every event it was computed from, whatever the horizon and
whichever sides are open. `Stage.Admits.move` is what that is good for:
times admitted in one window are admitted in every later one that covers
the event.

No `sorry`, no `axiom`, no `native_decide`.
-/
import Iams.Scheduler.Integer

namespace Iams.Scheduler

open Iams.Lib

/-! ## The window covers the makespans -/

/-- The makespan `get_variables` hands out for a stage. -/
def Stage.makespan (st : Stage) : Bounds := (st.variables 0).makespan

theorem Stage.variables_makespan (number : Nat) (st : Stage) :
    (st.variables number).makespan = st.makespan := by
  cases st <;> rfl

theorem intRoundDiv_nonneg {v : Int} (h : 0 ≤ v) : 0 ≤ intRoundDiv v 2 :=
  Binary64.roundQuotient_nonneg h (by decide)

/-- A non-empty list has a least and a greatest member. -/
theorem exists_min_max {xs : List Int} (h : xs ≠ []) :
    ∃ m M, xs.min? = some m ∧ xs.max? = some M ∧ (∀ x ∈ xs, m ≤ x) ∧ ∀ x ∈ xs, x ≤ M := by
  cases hm : xs.min? with
  | none => exact absurd (List.min?_eq_none_iff.mp hm) h
  | some m =>
    cases hM : xs.max? with
    | none => exact absurd (List.max?_eq_none_iff.mp hM) h
    | some M =>
      exact ⟨m, M, rfl, rfl, (List.min?_eq_some_iff.mp hm).2, (List.max?_eq_some_iff.mp hM).2⟩

/-- Both sides of the window are outside the collected bounds. -/
theorem Collected.makespan_covers (horizon : Int) (c : Collected) :
    (∀ x ∈ c.eventsMin, (c.makespan horizon).1 ≤ x) ∧
      ∀ y ∈ c.eventsMax, y ≤ (c.makespan horizon).2 := by
  unfold makespan
  by_cases hmin : c.eventsMin = [] <;> by_cases hmax : c.eventsMax = []
  · simp [hmin, hmax]
  · obtain ⟨m, M, hm, hM, -, hle⟩ := exists_min_max hmax
    simp only [hmin, hm, hM, List.min?_nil, List.max?_nil]
    exact ⟨by simp, hle⟩
  · obtain ⟨m, M, hm, hM, hle, -⟩ := exists_min_max hmin
    simp only [hmax, hm, hM, List.min?_nil, List.max?_nil]
    exact ⟨hle, by simp⟩
  · obtain ⟨m, _, hm, hM, hmins, -⟩ := exists_min_max hmin
    obtain ⟨_, M, hm', hM', -, hmaxs⟩ := exists_min_max hmax
    simp only [hm, hM, hm', hM']
    have hdiff : M - m < horizon → 0 ≤ intRoundDiv (horizon - (M - m)) 2 :=
      fun h => intRoundDiv_nonneg (by omega)
    constructor
    · intro x hx
      have := hmins x hx
      split_ifs <;> dsimp only <;> omega
    · intro y hy
      have := hmaxs y hy
      split_ifs <;> dsimp only <;> omega

section Gathered

variable {τ : Type} [Ring τ] [LinearOrder τ] [TimeStep τ]
variable (cfg : BufferScheduler τ) (obj : Nat → Event τ) (now : Option τ)

/-- The bounds collected from the events are those of their makespans. -/
theorem gather_bounds (us : List Nat) (c : Collected) :
    (gather cfg obj now c us).eventsMin
        = c.eventsMin ++ us.flatMap (fun u => ((obj u).stageD cfg now).makespan.1.toList) ∧
      (gather cfg obj now c us).eventsMax
        = c.eventsMax ++ us.flatMap (fun u => ((obj u).stageD cfg now).makespan.2.toList) := by
  induction us generalizing c with
  | nil => simp [gather]
  | cons u rest ih =>
    obtain ⟨hmin, hmax⟩ := ih (c.add u (((obj u).stageD cfg now).variables (obj u).uid))
    have hstep : gather cfg obj now c (u :: rest) = gather cfg obj now
        (c.add u (((obj u).stageD cfg now).variables (obj u).uid)) rest := rfl
    rw [hstep, hmin, hmax]
    simp only [Collected.add, Stage.variables_makespan, List.flatMap_cons, List.append_assoc]
    exact ⟨trivial, trivial⟩

end Gathered

/-- The window from `lo` to `hi` covers the makespan of a stage. -/
structure Stage.CoveredBy (st : Stage) (lo hi : Int) : Prop where
  low : ∀ x, st.makespan.1 = some x → lo ≤ x
  high : ∀ y, st.makespan.2 = some y → y ≤ hi

/-- The window of a call covers all its events. -/
theorem World.problem_covers {τ : Type} [Ring τ] [LinearOrder τ] [TimeStep τ]
    (cfg : BufferScheduler τ) (S : Sorter Nat) (w : World τ) (new : List Nat)
    (now : Option τ) {u : Nat} (hu : u ∈ (w.problem cfg S new now).keys) :
    ((w.problem cfg S new now).stage u).CoveredBy (w.problem cfg S new now).lo
      (w.problem cfg S new now).hi := by
  have hmem : u ∈ w.concerned new := mem_keysOf.mp hu
  obtain ⟨hmin, hmax⟩ := gather_bounds cfg w.obj now (w.concerned new) .empty
  obtain ⟨hlow, hhigh⟩ :=
    (gather cfg w.obj now .empty (w.concerned new)).makespan_covers cfg.horizon
  constructor
  · intro x hx
    refine hlow x ?_
    rw [hmin]
    exact List.mem_append_right _ (List.mem_flatMap.mpr ⟨u, hmem, Option.mem_toList.mpr hx⟩)
  · intro y hy
    refine le_trans (hhigh y ?_) (le_max_right _ _)
    rw [hmax]
    exact List.mem_append_right _ (List.mem_flatMap.mpr ⟨u, hmem, Option.mem_toList.mpr hy⟩)

/-! ## Moving to another window -/

/-- Both sides of the arrival are given. -/
def Stage.Anchored : Stage → Prop
  | .waiting eta _ _ => eta.1.isSome ∧ eta.2.isSome
  | _ => True

theorem Event.HasStage.anchored {e : Event Int} {st : Stage} (hst : e.HasStage st)
    (h : e.Numeric) : st.Anchored := by
  obtain ⟨low, -, hlow, -⟩ := h.window
  cases hst with
  | waiting => simp [Stage.Anchored, hlow]
  | arrived | started | finished | departed => trivial

/-- Every admitted departure is after the processing. -/
theorem Stage.Admits.finish_le_etd {lo hi : Int} {p : Slot} {st : Stage}
    (h : st.Admits lo hi p) : p.finish ≤ p.etd := by
  cases st with
  | waiting => exact h.2.2.2.2.2.2.1
  | arrived => exact h.2.2.2.2.2.2.ge
  | started => exact h.2.2.2.2.1
  | finished => exact h.2.2.2.1
  | departed =>
    obtain ⟨⟨-, hfinish, hetd⟩, -, hle⟩ := h
    rw [hfinish, hetd]
    exact hle

/-- No admitted departure is after the window. -/
theorem Stage.Admits.etd_le {lo hi : Int} {p : Slot} {st : Stage} (h : st.Admits lo hi p)
    (hcov : st.CoveredBy lo hi) : p.etd ≤ hi := by
  have key {x : Int} {b : Bounds} (hb : ∀ y, b.2 = some y → y ≤ hi) (hx : x ≤ b.2.getD hi) :
      x ≤ hi := by
    cases hb' : b.2 with
    | none => simpa [hb'] using hx
    | some y =>
      rw [hb', Option.getD_some] at hx
      exact le_trans hx (hb y hb')
  cases st with
  | waiting eta etd duration => exact key (b := etd) hcov.high h.2.2.2.1.2
  | arrived eta etd duration canceled => exact key (b := etd) hcov.high h.2.2.2.1.2
  | started eta start etd duration canceled => exact key (b := etd) hcov.high h.2.1.2
  | finished start finish etd => exact key (b := etd) hcov.high h.2.1.2
  | departed start finish etd =>
    rw [h.1.2.2]
    exact hcov.high etd rfl

/-- An upper bound that is open at `hi` is open at every later time. -/
theorem le_getD_of_le {x hi hi' : Int} {b : Option Int} (hle : hi ≤ hi') (hx : x ≤ b.getD hi) :
    x ≤ b.getD hi' := by
  cases b with
  | none => exact le_trans hx hle
  | some y => exact hx

/-- A lower bound that is open at `lo` may be open at any time before. -/
theorem getD_le_of_le {x lo lo' : Int} {b : Option Int} (hlo : lo' ≤ x) (hx : b.getD lo ≤ x) :
    b.getD lo' ≤ x := by
  cases b with
  | none => exact hlo
  | some y => exact hx

/-- Times admitted in one window are admitted in every window that
reaches at least as far and starts no later than the event does. -/
theorem Stage.Admits.move {lo hi lo' hi' : Int} {p : Slot} {st : Stage}
    (h : st.Admits lo hi p) (hst : st.Anchored) (hcov : st.CoveredBy lo hi)
    (hcov' : st.CoveredBy lo' hi') (hle : hi ≤ hi') : st.Admits lo' hi' p := by
  have hetd := h.etd_le hcov
  have upper {x : Int} {b : Option Int} (hx : x ≤ b.getD hi) : x ≤ b.getD hi' :=
    le_getD_of_le hle hx
  cases st with
  | waiting eta etd duration =>
    obtain ⟨heta, hstart, hfinish, hdeparture, hiqt, hsize, hoqt⟩ := h
    obtain ⟨a, ha⟩ := Option.isSome_iff_exists.mp hst.1
    have hlow : lo' ≤ p.eta := by
      refine le_trans (hcov'.low a ha) ?_
      have := heta.1
      rwa [ha, Option.getD_some] at this
    exact ⟨⟨getD_le_of_le hlow heta.1, upper heta.2⟩,
      ⟨getD_le_of_le (by omega) hstart.1, upper hstart.2⟩,
      ⟨getD_le_of_le (by omega) hfinish.1, upper hfinish.2⟩,
      ⟨getD_le_of_le (by omega) hdeparture.1, upper hdeparture.2⟩, ⟨hiqt.1, by omega⟩, hsize,
      ⟨hoqt.1, by omega⟩⟩
  | arrived eta etd duration canceled =>
    obtain ⟨heta, hstart, hfinish, hdeparture, hiqt, hsize, hoqt⟩ := h
    have hlow : lo' ≤ eta := hcov'.low eta rfl
    have hle' : eta ≤ p.start := hstart.1
    exact ⟨heta, ⟨hstart.1, upper hstart.2⟩, ⟨hfinish.1, upper hfinish.2⟩,
      ⟨hdeparture.1, upper hdeparture.2⟩, by omega, hsize, hoqt⟩
  | started eta start etd duration canceled =>
    obtain ⟨hfixed, hdeparture, hiqt, hsize, hoqt⟩ := h
    have hlow : lo' ≤ eta := hcov'.low eta rfl
    exact ⟨hfixed, ⟨hdeparture.1, upper hdeparture.2⟩, hiqt, hsize, ⟨hoqt.1, by omega⟩⟩
  | finished start finish etd =>
    obtain ⟨hfixed, hdeparture, hsize, hoqt⟩ := h
    have hlow : lo' ≤ start := hcov'.low start rfl
    exact ⟨hfixed, ⟨hdeparture.1, upper hdeparture.2⟩, hsize, ⟨hoqt.1, by omega⟩⟩
  | departed start finish etd => exact h

end Iams.Scheduler
