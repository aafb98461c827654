/-
Iams.Lib.Transition — runs of a deterministic machine.

`step s i` is the state after input `i`, `ok s i` says which inputs a
run may take in which state, and `Reachable` are the states of all such
runs. `Reachable.invariant` is the one induction a safety proof needs:
what holds at the start and is kept by every permitted step holds in
every reachable state. `Permitted` is a run given by its inputs, and
`reachable_of_permitted` says that it leads to a reachable state.

No `sorry`, no `axiom`, no `native_decide`.
-/

namespace Iams.Lib

variable {σ ι : Type}

/-- The states that permitted inputs lead to. -/
inductive Reachable (step : σ → ι → σ) (ok : σ → ι → Prop) (init : σ) : σ → Prop where
  | init : Reachable step ok init init
  | step {s : σ} (i : ι) : Reachable step ok init s → ok s i →
      Reachable step ok init (step s i)

namespace Reachable

variable {step : σ → ι → σ} {ok : σ → ι → Prop} {init s : σ}

/-- The invariant rule. -/
theorem invariant (P : σ → Prop) (hinit : P init)
    (hstep : ∀ s i, P s → ok s i → P (step s i)) (h : Reachable step ok init s) : P s := by
  induction h with
  | init => exact hinit
  | step i _ hok ih => exact hstep _ i ih hok

end Reachable

/-- The inputs may be taken one after the other. -/
def Permitted (step : σ → ι → σ) (ok : σ → ι → Prop) : σ → List ι → Prop
  | _, [] => True
  | s, i :: rest => ok s i ∧ Permitted step ok (step s i) rest

theorem reachable_of_permitted {step : σ → ι → σ} {ok : σ → ι → Prop} {init s : σ}
    (h : Reachable step ok init s) (inputs : List ι) (hrun : Permitted step ok s inputs) :
    Reachable step ok init (inputs.foldl step s) := by
  induction inputs generalizing s with
  | nil => exact h
  | cons i rest ih => exact ih (.step i h hrun.1) hrun.2

/-- Where no step takes away an input that was permitted before it, only
the first state matters. -/
theorem permitted_of_forall {step : σ → ι → σ} {ok : σ → ι → Prop} {s : σ}
    (hkeep : ∀ s i j, ok s i → ok s j → ok (step s i) j) (inputs : List ι)
    (h : ∀ i ∈ inputs, ok s i) : Permitted step ok s inputs := by
  induction inputs generalizing s with
  | nil => trivial
  | cons i rest ih =>
    have hi := h i List.mem_cons_self
    exact ⟨hi, ih fun j hj => hkeep s i j hi (h j (List.mem_cons_of_mem i hj))⟩

theorem permitted_append {step : σ → ι → σ} {ok : σ → ι → Prop} {s : σ} {xs ys : List ι} :
    Permitted step ok s (xs ++ ys) ↔
      Permitted step ok s xs ∧ Permitted step ok (xs.foldl step s) ys := by
  induction xs generalizing s with
  | nil => simp [Permitted]
  | cons i rest ih => rw [List.cons_append, Permitted, Permitted, ih, List.foldl_cons, and_assoc]

end Iams.Lib
