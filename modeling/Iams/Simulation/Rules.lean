/-
Iams.Simulation.Rules — the invariant rule of a simulation.

`Program.Keeps` lists what a property of a simulation needs to hold after
every call, however the call ends: it is kept by what the code around the
loop does to the queue, by one pass through the loop, and by a change of
the count of events. `Used` are the states of a simulation that was used
in any way, with no restriction on what is scheduled.

No `sorry`, no `axiom`, no `native_decide`.
-/
import Iams.Simulation.Safety

namespace Iams.Simulation

open Iams.Lib

variable {σ τ β : Type} [AddCommGroup τ] [LinearOrder τ]

namespace Program

variable (prog : Program σ τ β)

/-- The states of a simulation that was used. -/
abbrev Used (start : τ) (stop : Option τ) (world : σ) : Run σ τ β → Prop :=
  Reachable prog.use (fun _ _ => True) (.init start stop world)

/-- Every call keeps the property. -/
structure Keeps (P : Run σ τ β → Prop) : Prop where
  setup : ∀ run, P run → P (run.play (prog.setup run.world run.sim))
  agent : ∀ name run, P run → P (run.play (prog.agent name run.world run.sim))
  pass : ∀ run, P run → P (prog.iterate run).1
  count : ∀ run (events : Int), P run → P { run with sim := { run.sim with events := events } }

namespace Keeps

variable {prog} {P : Run σ τ β → Prop} {run run' : Run σ τ β} {ending : Ending} {fuel : Nat}

theorem loop (h : prog.Keeps P) (hrun : P run) (hloop : prog.loop fuel run = some (run', ending)) :
    P run' := by
  have hpass {run next : Run σ τ β} {passed : Option Ending} (hrun : P run)
      (hiter : prog.iterate run = (next, passed)) : P next := by
    have hnext := h.pass run hrun
    rwa [hiter] at hnext
  exact loop_keeps (Q := fun run _ => P run) (fun _ _ => hpass) (fun _ _ _ => hpass) hrun hloop

theorem prepare (h : prog.Keeps P) (hrun : P run) : P (prog.prepare run).1 :=
  prepare_keeps h.setup h.agent hrun

theorem settle (h : prog.Keeps P) (hrun : P run) (ending : Ending) :
    P (Program.settle (run, ending)).1 := by
  cases ending with
  | raised => exact hrun
  | drained | limit | stopped => exact h.count run _ hrun

theorem call (h : prog.Keeps P) (hrun : P run) (hcall : prog.call fuel run = some (run', ending)) :
    P run' := by
  have hready := h.prepare hrun
  rw [Program.call] at hcall
  split at hcall
  · next ready hprepare =>
    rw [hprepare] at hready
    obtain ⟨⟨last, ending'⟩, hloop, hsettle⟩ := Option.map_eq_some_iff.mp hcall
    have hlast := h.settle (h.loop hready hloop) ending'
    rwa [hsettle] at hlast
  · next last outcome hprepare =>
    rw [hprepare] at hready
    obtain ⟨rfl, rfl⟩ := Prod.mk.inj (Option.some.inj hcall)
    exact hready

/-- It holds in every state of a simulation that starts with it, if it is
kept from outside as well. -/
theorem used (h : prog.Keeps P) {start : τ} {stop : Option τ} {world : σ}
    (hinit : P (.init start stop world)) (houtside : ∀ run turn, P run → P (run.play turn))
    (hrun : prog.Used start stop world run) : P run := by
  refine hrun.invariant P hinit ?_
  rintro run (turn | fuel) hP -
  · exact houtside run turn hP
  · rw [use]
    cases hcall : prog.call fuel run with
    | none => exact hP
    | some r => exact h.call hP hcall

end Keeps

end Program

end Iams.Simulation
