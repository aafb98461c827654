/-
Iams.Lib.Retry — loops that try again.

A loop makes an attempt, and returns or raises with what comes of it, or it
sleeps and tries again, each time a little longer. A run is given by what
the environment does in every round; a run whose rounds are used up before
the loop has ended is still going on.

`Loop.run_spec` is the rule for an invariant and for the end of the loop,
`Loop.run_sum` the one for what every round adds, and `Loop.run_waits` says
how long the loop has slept.

No `sorry`, no `axiom`, no `native_decide`.
-/
import Mathlib.Logic.Function.Iterate
import Mathlib.Algebra.BigOperators.Group.List.Basic
import Mathlib.Algebra.Ring.Nat

namespace Iams.Lib.Retry

variable {σ ν ε α : Type}

/-- How an attempt ends. -/
inductive Attempt (ε α : Type) where
  | done (result : Except ε α)
  | again
  deriving Repr

/-- `next` is the new wait after a failure, and `sleep` what happens to the
state in that time. -/
structure Loop (σ ν ε α : Type) where
  attempt : ν → σ → σ × Attempt ε α
  next : Nat → Nat
  sleep : Nat → σ → σ

/-- A loop so far: how often it has slept for how long, and its result. -/
structure Progress (σ ε α : Type) where
  state : σ
  waits : List Nat
  result : Option (Except ε α)

namespace Progress

/-- The number of attempts. -/
def attempts (p : Progress σ ε α) : Nat := p.waits.length + p.result.toList.length

end Progress

namespace Loop

variable (loop : Loop σ ν ε α)

/-- The rounds, from the last wait and the state. -/
def run : Nat → σ → List ν → Progress σ ε α
  | _, s, [] => ⟨s, [], none⟩
  | wait, s, n :: rest =>
    match loop.attempt n s with
    | (t, .done r) => ⟨t, [], some r⟩
    | (t, .again) =>
      let p := run (loop.next wait) (loop.sleep (loop.next wait) t) rest
      { p with waits := loop.next wait :: p.waits }

variable {loop}

theorem run_done {wait : Nat} {s t : σ} {n : ν} {r : Except ε α} (rest : List ν)
    (h : loop.attempt n s = (t, .done r)) : loop.run wait s (n :: rest) = ⟨t, [], some r⟩ := by
  rw [run, h]

theorem run_again {wait : Nat} {s t : σ} {n : ν} (rest : List ν)
    (h : loop.attempt n s = (t, .again)) :
    loop.run wait s (n :: rest) =
      { loop.run (loop.next wait) (loop.sleep (loop.next wait) t) rest with
        waits := loop.next wait ::
          (loop.run (loop.next wait) (loop.sleep (loop.next wait) t) rest).waits } := by
  rw [run, h]

/-- An invariant of the rounds, and what it gives at the end. -/
theorem run_spec {I : σ → Prop} {Q : σ → Except ε α → Prop} {rounds : List ν}
    (hdone : ∀ n ∈ rounds, ∀ s t r, I s → loop.attempt n s = (t, .done r) → I t ∧ Q t r)
    (hagain : ∀ n ∈ rounds, ∀ s t, I s → loop.attempt n s = (t, .again) → I t)
    (hsleep : ∀ s wait, I s → I (loop.sleep wait s)) {wait : Nat} {s : σ} (h : I s) :
    I (loop.run wait s rounds).state ∧
      ∀ r, (loop.run wait s rounds).result = some r → Q (loop.run wait s rounds).state r := by
  induction rounds generalizing wait s with
  | nil => exact ⟨h, by simp [run]⟩
  | cons n rest ih =>
    rcases hn : loop.attempt n s with ⟨t, r | -⟩
    · obtain ⟨hI, hQ⟩ := hdone n List.mem_cons_self s t r h hn
      rw [run_done rest hn]
      exact ⟨hI, fun r' hr => Option.some.inj hr ▸ hQ⟩
    · have hI := hsleep t (loop.next wait) (hagain n List.mem_cons_self s t h hn)
      rw [run_again rest hn]
      exact ih (fun n hmem => hdone n (List.mem_cons_of_mem _ hmem))
        (fun n hmem => hagain n (List.mem_cons_of_mem _ hmem)) hI

/-- What the attempts add up to. -/
theorem run_sum {f : σ → Nat} {g : ν → Nat} {rounds : List ν}
    (hattempt : ∀ n ∈ rounds, ∀ s, f (loop.attempt n s).1 = f s + g n)
    (hsleep : ∀ s wait, f (loop.sleep wait s) = f s) {wait : Nat} {s : σ} :
    f (loop.run wait s rounds).state =
      f s + ((rounds.take (loop.run wait s rounds).attempts).map g).sum := by
  induction rounds generalizing wait s with
  | nil => simp [run]
  | cons n rest ih =>
    have hn' := hattempt n List.mem_cons_self s
    rcases hn : loop.attempt n s with ⟨t, r | -⟩ <;> rw [hn] at hn'
    · rw [run_done rest hn]
      simpa [Progress.attempts] using hn'
    · rw [run_again rest hn]
      simp only [Progress.attempts, List.length_cons, Nat.succ_add, List.take_succ_cons,
        List.map_cons, List.sum_cons]
      rw [ih fun n hmem => hattempt n (List.mem_cons_of_mem _ hmem), hsleep, hn',
        Progress.attempts, Nat.add_assoc]

/-- The waits do not depend on what fails. -/
theorem run_waits {wait : Nat} {s : σ} {rounds : List ν} :
    (loop.run wait s rounds).waits =
      (List.range (loop.run wait s rounds).waits.length).map fun i => loop.next^[i + 1] wait := by
  induction rounds generalizing wait s with
  | nil => rfl
  | cons n rest ih =>
    rcases hn : loop.attempt n s with ⟨t, r | -⟩
    · rw [run_done rest hn]
      rfl
    · rw [run_again rest hn, List.length_cons, List.range_succ_eq_map, List.map_cons, List.map_map]
      refine congrArg (loop.next wait :: ·) ?_
      rw [ih, List.length_map, List.length_range]
      rfl

end Loop

/-- `wait = min(cap, wait + 1)` -/
def backoff (cap wait : Nat) : Nat := min cap (wait + 1)

theorem iterate_backoff (cap n : Nat) : (backoff cap)^[n] 0 = min cap n := by
  induction n with
  | zero => simp
  | succ n ih =>
    rw [Function.iterate_succ_apply', ih, backoff]
    omega

end Iams.Lib.Retry
