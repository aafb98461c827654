/-
Iams.Lib.Asyncio — coroutines, futures and cancellation.

`Code φ η ε α` is the code of a coroutine: it awaits futures of `φ`, looks
at them and sets them, performs effects of `η`, and returns an `α` or
raises. `Machine` is a task that runs such code, with its futures.

`cancel` is `task.cancel()`: a task that awaits a pending future has it
cancelled, and goes on with a `CancelledError`; any other one gets the
exception when it goes on.

`Silent known code` says that the code performs nothing when the futures
in `known` are done, whatever its futures and its cancellation turn out to
be. It is a property of the code alone, and `Machine.Quiet` is kept by
every step of a task that runs silent code.

No `sorry`, no `axiom`, no `native_decide`.
-/
import Mathlib.Logic.Function.Basic

namespace Iams.Lib.Asyncio

/-- `CancelledError`, `InvalidStateError`, and the exceptions of the
program. -/
inductive Raised (ε : Type) where
  | cancelled
  | invalidState
  | error (e : ε)
  deriving DecidableEq, Repr

/-- How an `await` ends. -/
abbrev Result (ε α : Type) := Except (Raised ε) α

inductive Code (φ η ε α : Type) where
  | finish (result : Result ε α)
  | await (future : φ) (next : Result ε Unit → Code φ η ε α)
  | done (future : φ) (next : Bool → Code φ η ε α)
  | setResult (future : φ) (next : Result ε Unit → Code φ η ε α)
  | perform (effect : η) (next : Code φ η ε α)

namespace Code

variable {φ η ε α β : Type}

/-- Go on with the value or the exception. -/
def andThen : Code φ η ε α → (Result ε α → Code φ η ε β) → Code φ η ε β
  | finish r, f => f r
  | await future next, f => await future fun r => (next r).andThen f
  | done future next, f => done future fun b => (next b).andThen f
  | setResult future next, f => setResult future fun r => (next r).andThen f
  | perform e next, f => perform e (next.andThen f)

instance : Monad (Code φ η ε) where
  pure a := finish (.ok a)
  bind x f := x.andThen fun
    | .ok a => f a
    | .error e => finish (.error e)

instance : MonadExceptOf (Raised ε) (Code φ η ε) where
  throw e := finish (.error e)
  tryCatch x handle := x.andThen fun
    | .ok a => finish (.ok a)
    | .error e => handle e

/-- `await future` -/
def wait (future : φ) : Code φ η ε Unit := await future finish

/-- `future.done()` -/
def isDone (future : φ) : Code φ η ε Bool := done future fun b => finish (.ok b)

/-- `future.set_result(…)` -/
def set (future : φ) : Code φ η ε Unit := setResult future finish

/-- An effect. -/
def emit (e : η) : Code φ η ε Unit := perform e (finish (.ok ()))

/-- Nothing is performed, if the futures in `known` are done. -/
def Silent (known : φ → Prop) : Code φ η ε α → Prop
  | finish _ => True
  | await future next => ∀ r, Silent (fun f => f = future ∨ known f) (next r)
  | done future next => Silent known (next true) ∧ (¬ known future → Silent known (next false))
  | setResult future next => ∀ r, Silent (fun f => f = future ∨ known f) (next r)
  | perform _ _ => False

end Code

/-! ## Tasks -/

/-- A task that has not begun, that awaits a future, or that is done. -/
inductive Task (φ η ε α : Type) where
  | created (code : Code φ η ε α)
  | waiting (future : φ) (next : Result ε Unit → Code φ η ε α)
  | finished (result : Result ε α)

/-- A task, its futures, where `none` is a pending one, and what it has
performed. -/
structure Machine (φ η ε α : Type) where
  task : Task φ η ε α
  futures : φ → Option (Result ε Unit) := fun _ => none
  mustCancel : Bool := false
  log : List η := []

namespace Machine

variable {φ η ε α : Type} [DecidableEq φ] (m : Machine φ η ε α)

def isFinished : Bool := match m.task with
  | .finished _ => true
  | _ => false

/-- A future that is pending is completed. -/
def complete (future : φ) (r : Result ε Unit) : Machine φ η ε α :=
  match m.futures future with
  | none => { m with futures := Function.update m.futures future (some r) }
  | some _ => m

theorem complete_task (future : φ) (r : Result ε Unit) : (m.complete future r).task = m.task := by
  unfold complete
  split <;> rfl

theorem complete_log (future : φ) (r : Result ε Unit) : (m.complete future r).log = m.log := by
  unfold complete
  split <;> rfl

theorem complete_mustCancel (future : φ) (r : Result ε Unit) :
    (m.complete future r).mustCancel = m.mustCancel := by
  unfold complete
  split <;> rfl

/-- A future that is done stays as it is, and no other one is touched. -/
theorem complete_futures (future : φ) (r : Result ε Unit) (f : φ) :
    (m.complete future r).futures f =
      if f = future ∧ m.futures future = none then some r else m.futures f := by
  unfold complete
  cases hfuture : m.futures future with
  | some _ => simp
  | none => by_cases heq : f = future <;> simp [heq]

/-- Run code up to the next future that is pending. -/
def run : Code φ η ε α → Machine φ η ε α → Machine φ η ε α
  | .finish r, m => { m with task := .finished r }
  | .await future next, m =>
    match m.futures future with
    | none => { m with task := .waiting future next }
    | some r => run (next r) m
  | .done future next, m => run (next (m.futures future).isSome) m
  | .setResult future next, m =>
    match m.futures future with
    | none => run (next (.ok ())) (m.complete future (.ok ()))
    | some _ => run (next (.error .invalidState)) m
  | .perform e next, m => run next { m with log := m.log ++ [e] }

theorem run_await_pending {future : φ} (h : m.futures future = none)
    (next : Result ε Unit → Code φ η ε α) :
    run (.await future next) m = { m with task := .waiting future next } := by
  rw [run, h]

theorem run_await_done {future : φ} {r : Result ε Unit} (h : m.futures future = some r)
    (next : Result ε Unit → Code φ η ε α) : run (.await future next) m = run (next r) m := by
  rw [run, h]

/-- The task goes on, if it can. -/
def resume : Machine φ η ε α :=
  match m.task with
  | .finished _ => m
  | .created code =>
    if m.mustCancel then { m with task := .finished (.error .cancelled) } else run code m
  | .waiting future next =>
    match m.futures future with
    | none => m
    | some r =>
      if m.mustCancel then run (next (.error .cancelled)) { m with mustCancel := false }
      else run (next r) m

theorem resume_of_finished {r : Result ε α} (h : m.task = .finished r) : m.resume = m := by
  rw [resume, h]

theorem resume_of_created {code : Code φ η ε α} (h : m.task = .created code) :
    m.resume = if m.mustCancel then { m with task := .finished (.error .cancelled) }
      else run code m := by
  rw [resume, h]

theorem resume_of_pending {future : φ} {next : Result ε Unit → Code φ η ε α}
    (h : m.task = .waiting future next) (hpending : m.futures future = none) : m.resume = m := by
  rw [resume, h]
  dsimp only
  rw [hpending]

/-- The task goes on with the exception, if it has been cancelled. -/
theorem resume_of_done {future : φ} {next : Result ε Unit → Code φ η ε α} {r : Result ε Unit}
    (h : m.task = .waiting future next) (hdone : m.futures future = some r) :
    m.resume = run (next (if m.mustCancel then .error .cancelled else r))
      { m with mustCancel := false } := by
  obtain ⟨task, futures, mustCancel, log⟩ := m
  cases h
  change futures future = some r at hdone
  rw [resume]
  dsimp only
  rw [hdone]
  cases mustCancel <;> simp

/-- `task.cancel()` -/
def cancel : Machine φ η ε α :=
  match m.task with
  | .finished _ => m
  | .created _ => { m with mustCancel := true }
  | .waiting future _ =>
    match m.futures future with
    | none => m.complete future (.error .cancelled)
    | some _ => { m with mustCancel := true }

theorem cancel_task : m.cancel.task = m.task := by
  unfold cancel
  split
  · rfl
  · rfl
  · split
    · exact m.complete_task _ _
    · rfl

theorem cancel_log : m.cancel.log = m.log := by
  unfold cancel
  split
  · rfl
  · rfl
  · split
    · exact m.complete_log _ _
    · rfl

/-- A future that has been pending may have been cancelled with the task. -/
theorem cancel_futures (f : φ) : m.cancel.futures f = m.futures f ∨
    m.futures f = none ∧ m.cancel.futures f = some (.error .cancelled) := by
  unfold cancel
  split
  · exact .inl rfl
  · exact .inl rfl
  · next future _ _ =>
    split
    · next hpending =>
      rw [complete_futures]
      by_cases heq : f = future
      · subst heq
        exact .inr ⟨hpending, if_pos ⟨rfl, hpending⟩⟩
      · exact .inl (if_neg fun h => heq h.1)
    · exact .inl rfl

/-! ## Silent code -/

/-- These futures are done. -/
def Knows (known : φ → Prop) : Prop := ∀ f, known f → (m.futures f).isSome

/-- The task has performed nothing, and what it has left to do is
silent. -/
structure Quiet : Prop where
  log_eq : m.log = []
  task : match m.task with
    | .created code => code.Silent fun _ => False
    | .waiting future next => ∃ known, m.Knows known ∧
      ∀ r, (next r).Silent fun f => f = future ∨ known f
    | .finished _ => True

variable {m} {known : φ → Prop}

theorem Knows.complete (h : m.Knows known) (future : φ) (r : Result ε Unit) :
    (m.complete future r).Knows fun f => f = future ∨ known f := by
  unfold Machine.complete
  intro f hf
  cases hfuture : m.futures future with
  | some _ =>
    rcases hf with rfl | hf
    · rw [hfuture]; rfl
    · exact h f hf
  | none =>
    by_cases heq : f = future
    · subst heq
      simp
    · rcases hf with hf | hf
      · exact absurd hf heq
      · simpa [heq] using h f hf

/-- Running silent code performs nothing. -/
theorem quiet_run {code : Code φ η ε α} (hcode : code.Silent known) (hknows : m.Knows known)
    (hlog : m.log = []) : (run code m).Quiet := by
  induction code generalizing known m with
  | finish r => exact ⟨hlog, trivial⟩
  | await future next ih =>
    unfold run
    cases hfuture : m.futures future with
    | none => exact ⟨hlog, known, hknows, hcode⟩
    | some r =>
      refine ih r (hcode r) (fun f hf => ?_) hlog
      rcases hf with rfl | hf
      · rw [hfuture]; rfl
      · exact hknows f hf
  | done future next ih =>
    unfold run
    cases hfuture : m.futures future with
    | some r => exact ih true hcode.1 hknows hlog
    | none =>
      have hnot : ¬ known future := fun hk => by
        have hsome := hknows future hk
        rw [hfuture] at hsome
        cases hsome
      exact ih false (hcode.2 hnot) hknows hlog
  | setResult future next ih =>
    unfold run
    cases hfuture : m.futures future with
    | none =>
      refine ih _ (hcode _) (hknows.complete future _) ?_
      rw [Machine.complete, hfuture]
      exact hlog
    | some r =>
      refine ih _ (hcode _) (fun f hf => ?_) hlog
      rcases hf with rfl | hf
      · rw [hfuture]; rfl
      · exact hknows f hf
  | perform e next ih => exact hcode.elim

theorem Quiet.resume (h : m.Quiet) : m.resume.Quiet := by
  have htask := h.task
  unfold Machine.resume
  cases hm : m.task with
  | finished r => exact h
  | created code =>
    rw [hm] at htask
    dsimp only
    split
    · exact ⟨h.log_eq, trivial⟩
    · exact quiet_run htask (fun _ hf => hf.elim) h.log_eq
  | waiting future next =>
    rw [hm] at htask
    obtain ⟨known, hknows, hnext⟩ := htask
    dsimp only
    cases hfuture : m.futures future with
    | none => exact h
    | some r =>
      have hknows' : m.Knows fun f => f = future ∨ known f := by
        rintro f (rfl | hf)
        · rw [hfuture]; rfl
        · exact hknows f hf
      dsimp only
      split
      · exact quiet_run (hnext _) hknows' h.log_eq
      · exact quiet_run (hnext r) hknows' h.log_eq

theorem Quiet.complete (h : m.Quiet) (future : φ) (r : Result ε Unit) :
    (m.complete future r).Quiet := by
  refine ⟨(complete_log m future r).trans h.log_eq, ?_⟩
  have htask := h.task
  rw [complete_task]
  cases hm : m.task with
  | finished | created => rw [hm] at htask; exact htask
  | waiting future' next =>
    rw [hm] at htask
    obtain ⟨known, hknows, hnext⟩ := htask
    exact ⟨known, fun f hf => hknows.complete future r f (.inr hf), hnext⟩

theorem Quiet.cancel (h : m.Quiet) : m.cancel.Quiet := by
  have htask := h.task
  unfold Machine.cancel
  cases hm : m.task with
  | finished r => exact h
  | created code =>
    rw [hm] at htask
    exact ⟨h.log_eq, htask⟩
  | waiting future next =>
    rw [hm] at htask
    dsimp only
    split
    · exact h.complete future _
    · exact ⟨h.log_eq, htask⟩

end Machine

end Iams.Lib.Asyncio
