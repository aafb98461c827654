/-
Iams.Scheduler.CapacityTheorems — what the model says about the buffers.

`build_model` gives both buffers the capacity of the input buffer.
`loads_of_sat` is what a solution therefore keeps to, and
`keepsBuffers_iff` says which schedulers keep to their own two
capacities: those whose output buffer is at least as large as the input
buffer, and those without any solution. For every other one
`departedWorld` is a set of events that overfills the output buffer.

No `sorry`, no `axiom`, no `native_decide`.
-/
import Iams.Scheduler.Runs

namespace Iams.Scheduler

open Iams.Lib

namespace World

variable {τ : Type} [Ring τ] [LinearOrder τ] [TimeStep τ]
variable (cfg : BufferScheduler τ) (S : Sorter Nat)

/-- Every solution of every model about this scheduler's events respects
the input buffer, the machine and the output buffer, each with its own
capacity. -/
def KeepsBuffers (w : World τ) : Prop :=
  ∀ new now, w.Readable cfg new now → ∀ s, (w.model cfg S new now).Sat s → ∀ t,
    let P := w.problem cfg S new now
    let p := planOf P.lo s
    (P.inputLoad p t : Int) ≤ cfg.bufferInput.first ∧ P.machineLoad p t ≤ 1 ∧
      (P.outputLoad p t : Int) ≤ cfg.bufferOutput.first

variable {cfg S} {w : World τ}

/-- A solution keeps the input capacity in both buffers, and one event at
a time on the machine. -/
theorem loads_of_sat {new : List Nat} {now : Option τ} {s : Cp.Assignment Var}
    (hread : w.Readable cfg new now) (hs : (w.model cfg S new now).Sat s) (t : Int) :
    ((w.problem cfg S new now).inputLoad (planOf (w.problem cfg S new now).lo s) t : Int)
        ≤ cfg.bufferInput.first ∧
      (w.problem cfg S new now).machineLoad (planOf (w.problem cfg S new now).lo s) t ≤ 1 ∧
      ((w.problem cfg S new now).outputLoad (planOf (w.problem cfg S new now).lo s) t : Int)
        ≤ cfg.bufferInput.first := by
  have hfeasible := Problem.feasible_of_sat (asks hread) hs
  exact ⟨hfeasible.input t, hfeasible.machine t, hfeasible.output t⟩

theorem keepsBuffers_of_le (h : cfg.bufferInput.first ≤ cfg.bufferOutput.first) :
    w.KeepsBuffers cfg S := by
  intro new now hread s hs t
  obtain ⟨hinput, hmachine, houtput⟩ := loads_of_sat hread hs t
  exact ⟨hinput, hmachine, le_trans houtput h⟩

/-- With a negative input capacity no model has a solution. -/
theorem keepsBuffers_of_neg (h : cfg.bufferInput.first < 0) : w.KeepsBuffers cfg S := by
  intro new now hread s hs t
  obtain ⟨hinput, -, -⟩ := loads_of_sat hread hs t
  omega

/-! ## Departed events

Events of no duration that have departed one step after their processing:
all their times are fixed, and all of them are in the output buffer
during the first step. -/

/-- The event number `u` of `departedWorld`. -/
def departedEvent (cfg : BufferScheduler τ) (u : Nat) : Event τ :=
  { blank u with
    state := .departed
    eta := { ETX.fields (some 0) (some 0) (some 0) with
      timeHigh := some 0, timeLow := some 0 }
    etd := { ETX.fields none none none with time := some cfg.resolution }
    scheduleStart := some 0
    scheduleFinish := some 0
    activityFinish := some cfg.resolution }

omit [TimeStep τ] in
theorem postInit_zero (u : Nat) :
    Event.postInit u { duration := (0 : τ), eta := .number 0 }
      = .ok { blank u with
          eta := { ETX.fields (some 0) (some 0) (some 0) with
            timeHigh := some 0, timeLow := some 0 } } := by
  simp [Event.postInit, Event.buildEtx, ETX.postInit, ETX.fields, ETX.firstSet, ETX.defaults,
    ETX.validate, ETX.less, ETX.pushHigh, ETX.pushLow, ETX.bool, blank]

/-- `n` events are created, started, finished and departed. -/
def departedWorld (cfg : BufferScheduler τ) (S : Sorter Nat) : Nat → World τ
  | 0 => init cfg
  | n + 1 =>
      let u := n + 1
      let w := (departedWorld cfg S n).step cfg S (.create { duration := 0, eta := .number 0 })
      ((w.step cfg S (.start u 0)).step cfg S (.finish u 0)).step cfg S
        (.depart u cfg.resolution)

variable (cfg S) in
theorem departedWorld_reached (n : Nat) :
    (departedWorld cfg S n).Reached cfg S ∧ (departedWorld cfg S n).counter = n + 1 ∧
      (departedWorld cfg S n).events = [] ∧
      ∀ u, 1 ≤ u → u ≤ n → (departedWorld cfg S n).obj u = departedEvent cfg u := by
  induction n with
  | zero => exact ⟨.init, rfl, rfl, fun u h1 h2 => by omega⟩
  | succ n ih =>
    obtain ⟨hreach, hcounter, hevents, hobj⟩ := ih
    have hcreate : (departedWorld cfg S n).step cfg S
        (.create { duration := 0, eta := .number 0 })
          = { (departedWorld cfg S n).setObj (n + 1) { blank (n + 1) with
                eta := { ETX.fields (some 0) (some 0) (some 0) with
                  timeHigh := some 0, timeLow := some 0 } } with
              counter := n + 2 } := by
      change ((departedWorld cfg S n).create _).2 = _
      simp only [create, hcounter, postInit_zero]
    refine ⟨?_, ?_, ?_, fun u h1 h2 => ?_⟩
    · have hrefers {w : World τ} (hw : w.counter = n + 2) {op : Op τ} (hop : op.refs = [n + 1]) :
          w.Refers op := by
        intro u hu
        rw [hop, List.mem_singleton] at hu
        subst hu
        exact ⟨by omega, by omega⟩
      have hcount : ((departedWorld cfg S n).step cfg S
          (.create { duration := 0, eta := .number 0 })).counter = n + 2 := by rw [hcreate]
      exact (((hreach.step _ fun _ h => absurd h List.not_mem_nil).step _
        (hrefers hcount rfl)).step _ (hrefers (by exact hcount) rfl)).step _
          (hrefers (by exact hcount) rfl)
    · simp only [departedWorld, hcreate]
      rfl
    · simp only [departedWorld, hcreate]
      exact hevents
    · simp only [departedWorld, hcreate]
      by_cases hu : u = n + 1
      · subst hu
        simp [step, exec, setObj, Event.start, Event.finish, Event.depart, Event.setStart,
          Event.setFinish, Event.getSeconds, BufferScheduler.convertSeconds, departedEvent, blank,
          ETX.fields]
      · simp only [step, exec, setObj, Function.update_of_ne hu]
        exact hobj u h1 (by omega)

theorem departedEvent_stage (u : Nat) :
    (departedEvent cfg u).stage cfg none = .ok (.departed 0 0 1) := by
  have hzero : cfg.convertResolution 0 = 0 := by
    have h := TimeStep.roundDiv_mul 0 cfg.resolution (by decide) cfg.resolution_pos
    simpa [BufferScheduler.convertResolution] using h
  have hone : cfg.convertResolution cfg.resolution = 1 := by
    have h := TimeStep.roundDiv_mul 1 cfg.resolution (by decide) cfg.resolution_pos
    simpa [BufferScheduler.convertResolution] using h
  simp [Event.stage, departedEvent, blank, Event.getStart, Event.getFinish, Event.getTime,
    Event.convertSteps, Event.convertTime, ETX.get, ETX.fields, hzero, hone]

/-- Departed events load the output buffer only, so their times are
feasible together as long as no more than the capacity are asked for. -/
theorem feasible_of_departed {P : Problem}
    (hstages : ∀ u ∈ P.keys, P.stage u = .departed 0 0 1)
    (hlength : (P.keys.length : Int) ≤ P.capacity) :
    P.Feasible fun _ => ⟨0, 0, 0, 1⟩ := by
  constructor
  · intro u hu
    rw [hstages u hu]
    exact ⟨⟨rfl, rfl, rfl⟩, le_refl 0, by omega⟩
  · exact fun c _ => ⟨le_refl _, le_refl _⟩
  · intro t
    have hzero : P.inputLoad (fun _ => ⟨0, 0, 0, 1⟩) t = 0 := by
      refine List.countP_eq_zero.mpr fun u hu => ?_
      rw [hstages u hu]
      simp [Stage.hasInput]
    rw [hzero]
    exact le_trans (Int.natCast_nonneg _) hlength
  · intro t
    have hzero : P.machineLoad (fun _ => ⟨0, 0, 0, 1⟩) t = 0 := by
      refine List.countP_eq_zero.mpr fun u _ => ?_
      simp only [Slot.onMachine, decide_eq_true_eq]
      omega
    rw [hzero]
    exact Nat.zero_le 1
  · intro t
    exact le_trans (Int.ofNat_le.mpr List.countP_le_length) hlength

variable (cfg S) in
/-- `n` departed events fill the output buffer with `n` events, and the
model about them has a solution as long as `n` is at most the input
capacity. -/
theorem departedWorld_overfills {n : Nat} (h : (n : Int) ≤ cfg.bufferInput.first) :
    ∃ new s, (departedWorld cfg S n).Readable cfg new none ∧
      ((departedWorld cfg S n).model cfg S new none).Sat s ∧
      ((departedWorld cfg S n).problem cfg S new none).outputLoad
        (planOf ((departedWorld cfg S n).problem cfg S new none).lo s) 0 = n := by
  obtain ⟨-, -, hevents, hobj⟩ := departedWorld_reached cfg S n
  set w := departedWorld cfg S n with hw
  set new := List.range' 1 n with hnew
  have hconcerned : w.concerned new = new := by
    simp [concerned, hevents, live, kept, gone]
  have hstage : ∀ u ∈ new, (w.obj u).stage cfg none = .ok (.departed 0 0 1) := by
    intro u hu
    rw [hnew, List.mem_range'_1] at hu
    rw [hobj u hu.1 (by omega), departedEvent_stage]
  have hread : w.Readable cfg new none := by
    intro u hu
    rw [hconcerned] at hu
    exact ⟨_, hstage u hu⟩
  have hkeys : (w.problem cfg S new none).keys = new := by
    change keysOf (w.concerned new) = new
    rw [hconcerned, keysOf_of_nodup List.nodup_range']
  set P := w.problem cfg S new none with hP
  have hstages : ∀ u ∈ P.keys, P.stage u = .departed 0 0 1 := by
    intro u hu
    rw [hkeys] at hu
    exact Event.stageD_eq (hstage u hu)
  have hlength : P.keys.length = n := by rw [hkeys, hnew, List.length_range']
  have hfeasible := feasible_of_departed hstages (by rw [hlength]; exact h)
  refine ⟨new, assignmentOf P.lo fun _ => ⟨0, 0, 0, 1⟩, hread,
    Problem.sat_of_feasible (asks hread) hfeasible, ?_⟩
  rw [planOf_assignmentOf, ← hlength]
  exact List.countP_eq_length.mpr fun u _ => rfl

/-! ## Which schedulers keep to their buffers -/

/-- In every run, every solution keeps to the buffers, if and only if the
output buffer is at least as large as the input buffer (or no model has a
solution, with a negative input capacity). -/
theorem keepsBuffers_iff :
    (∀ w : World τ, w.Reached cfg S → w.KeepsBuffers cfg S) ↔
      cfg.bufferInput.first < 0 ∨ cfg.bufferInput.first ≤ cfg.bufferOutput.first := by
  constructor
  · intro h
    by_contra hcond
    rw [not_or, not_lt, not_le] at hcond
    -- one event more than the output buffer holds, if it holds any
    obtain ⟨n, hn⟩ : ∃ n : Nat, (n : Int) = max 0 (cfg.bufferOutput.first + 1) :=
      ⟨(max 0 (cfg.bufferOutput.first + 1)).toNat, Int.toNat_of_nonneg (le_max_left _ _)⟩
    obtain ⟨new, s, hread, hs, hload⟩ :=
      departedWorld_overfills cfg S (n := n) (by omega)
    obtain ⟨-, -, houtput⟩ := h _ (departedWorld_reached cfg S n).1 new none hread s hs 0
    rw [hload] at houtput
    omega
  · rintro (h | h) w -
    · exact keepsBuffers_of_neg h
    · exact keepsBuffers_of_le h

/-- Two events of length 1, arriving at 0 and 1, that are both collected
at 3. -/
def collectedWorld (cfg : BufferScheduler Int) (S : Sorter Nat) : World Int :=
  ((init cfg).step cfg S (.create { duration := 1, eta := .number 0, etd := .number 3 })).step
    cfg S (.create { duration := 1, eta := .number 1, etd := .number 3 })

/-- They wait for their departure in an output buffer of capacity 1, next
to an input buffer of capacity 2. -/
theorem collected_overfills :
    ¬ ∀ w : World Int, w.Reached (.single 20 2 1) (.insertion Nat) →
      w.KeepsBuffers (.single 20 2 1) (.insertion Nat) := by
  intro h
  have hreach : (collectedWorld (.single 20 2 1) (.insertion Nat)).Reached
      (.single 20 2 1) (.insertion Nat) :=
    (Reached.init.step _ fun _ h => absurd h List.not_mem_nil).step _
      fun _ h => absurd h List.not_mem_nil
  have hread : (collectedWorld (.single 20 2 1) (.insertion Nat)).Readable
      (.single 20 2 1) [1, 2] none := by
    intro u hu
    have hu : u ∈ [1, 2] := hu
    simp only [List.mem_cons, List.not_mem_nil, or_false] at hu
    rcases hu with rfl | rfl <;> exact ⟨_, rfl⟩
  have hsat : ((collectedWorld (.single 20 2 1) (.insertion Nat)).model (.single 20 2 1)
      (.insertion Nat) [1, 2] none).Sat
        (assignmentOf 0 fun u => if u = 1 then ⟨0, 0, 1, 3⟩ else ⟨1, 1, 2, 3⟩) := by decide
  have hload := (h _ hreach [1, 2] none hread _ hsat 2).2.2
  exact absurd hload (by decide)

end World

end Iams.Scheduler
