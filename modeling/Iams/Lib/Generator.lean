/-
Iams.Lib.Generator — asynchronous generators and the context managers that
`asynccontextmanager` makes of them.

`Gen σ ν ε α` is code with the state `σ` that yields values in `ν`. It is
suspended at an `await`, where the state may change, and at a `yield`,
which is resumed by `__anext__` or with an exception by `athrow`. A
coroutine is a generator that yields nothing; `awaits` runs one.

`asyncWith` is the statement `async with`. An exception of its body is
thrown into the generator (`exit`), and is raised again if it comes out of
it as it was. `exit_propagated` is the rule for generators that leave it
alone.

`Reaches g s s' p` says that `g`, started in `s`, may come to its next
`yield` or to its end `p` in the state `s'`.

No `sorry`, no `axiom`, no `native_decide`.
-/

namespace Iams.Lib

/-- The classes of exceptions that matter here; `StopIteration` stands for
`StopAsyncIteration` as well. -/
inductive ExcClass where
  | stopIteration
  | keyError
  | other
  deriving DecidableEq, Repr

/-- An exception object: one of the program, with its class, one that Python
raises by itself, or the `RuntimeError` into which a `StopIteration` is
turned when it leaves a generator. -/
inductive Exc (ε : Type) where
  | object (e : ε) (cls : ExcClass)
  | keyError
  | attributeError
  | didNotYield
  | didNotStop
  | leftGenerator (cause : Exc ε)
  deriving DecidableEq, Repr

namespace Exc

variable {ε : Type}

def isStop : Exc ε → Bool
  | object _ .stopIteration => true
  | _ => false

def isKeyError : Exc ε → Bool
  | object _ .keyError | keyError => true
  | _ => false

/-- What an exception is when it has left a generator. -/
def leave (e : Exc ε) : Exc ε := if e.isStop then .leftGenerator e else e

end Exc

/-- The code of a generator. -/
inductive Gen (σ ν ε α : Type) where
  | finish (result : Except (Exc ε) α)
  | read (next : σ → Gen σ ν ε α)
  | write (s : σ) (next : Gen σ ν ε α)
  | await (next : Option (Exc ε) → Gen σ ν ε α)
  | yield (value : ν) (next : Option (Exc ε) → Gen σ ν ε α)

/-- A coroutine. -/
abbrev Gen.Co (σ ε α : Type) := Gen σ Empty ε α

namespace Gen

variable {σ ν μ ε α β : Type}

/-! ## Code -/

/-- Go on with the value or the exception. -/
def andThen : Gen σ ν ε α → (Except (Exc ε) α → Gen σ ν ε β) → Gen σ ν ε β
  | finish r, f => f r
  | read next, f => read fun s => (next s).andThen f
  | write s next, f => write s (next.andThen f)
  | await next, f => await fun e => (next e).andThen f
  | yield v next, f => yield v fun e => (next e).andThen f

instance : Monad (Gen σ ν ε) where
  pure a := finish (.ok a)
  bind x f := x.andThen fun
    | .ok a => f a
    | .error e => finish (.error e)

instance : MonadExceptOf (Exc ε) (Gen σ ν ε) where
  throw e := finish (.error e)
  tryCatch x handle := x.andThen fun
    | .ok a => finish (.ok a)
    | .error e => handle e

/-- `yield value` -/
def yields (value : ν) : Gen σ ν ε Unit :=
  yield value fun
    | none => finish (.ok ())
    | some e => finish (.error e)

/-- `await` of something that changes the state only from outside. -/
def suspend : Gen σ ν ε Unit :=
  await fun
    | none => finish (.ok ())
    | some e => finish (.error e)

/-- `await` of a coroutine. -/
def awaits : Co σ ε α → Gen σ ν ε α
  | finish r => finish r
  | read next => read fun s => (next s).awaits
  | write s next => write s next.awaits
  | await next => await fun e => (next e).awaits
  | yield v _ => v.elim

/-! ## Context managers -/

/-- `__aenter__`: the generator runs to its `yield`, and then the statement
goes on with the value. -/
def enter : Gen σ μ ε Unit → (μ → (Option (Exc ε) → Gen σ μ ε Unit) → Gen σ ν ε α) → Gen σ ν ε α
  | finish (.ok ()), _ => finish (.error .didNotYield)
  | finish (.error e), _ => finish (.error e.leave)
  | read next, f => read fun s => (next s).enter f
  | write s next, f => write s (next.enter f)
  | await next, f => await fun e => (next e).enter f
  | yield v next, f => f v next

/-! ## Runs -/

/-- The next `yield`, with what follows it, or the end. -/
inductive Point (σ ν ε α : Type) where
  | finished (result : Except (Exc ε) α)
  | yielded (value : ν) (next : Option (Exc ε) → Gen σ ν ε α)

/-- At an `await` the state may change in any way. -/
inductive Reaches : Gen σ ν ε α → σ → σ → Point σ ν ε α → Prop where
  | finish {s : σ} {r : Except (Exc ε) α} : Reaches (.finish r) s s (.finished r)
  | yield {s : σ} {v : ν} {next : Option (Exc ε) → Gen σ ν ε α} :
      Reaches (.yield v next) s s (.yielded v next)
  | read {s s' : σ} {next : σ → Gen σ ν ε α} {p : Point σ ν ε α} :
      Reaches (next s) s s' p → Reaches (.read next) s s' p
  | write {s t s' : σ} {next : Gen σ ν ε α} {p : Point σ ν ε α} :
      Reaches next t s' p → Reaches (.write t next) s s' p
  | await {s s' : σ} {next : Option (Exc ε) → Gen σ ν ε α} {p : Point σ ν ε α} (t : σ)
      (e : Option (Exc ε)) : Reaches (next e) t s' p → Reaches (.await next) s s' p

/-- The run in which every `await` returns at once. -/
def run : Gen σ ν ε α → σ → σ × Point σ ν ε α
  | finish r, s => (s, .finished r)
  | read next, s => (next s).run s
  | write t next, _ => next.run t
  | await next, s => (next none).run s
  | yield v next, s => (s, .yielded v next)

theorem reaches_run (g : Gen σ ν ε α) (s : σ) : Reaches g s (g.run s).1 (g.run s).2 := by
  induction g generalizing s with
  | finish r => exact .finish
  | read next ih => exact .read (ih s s)
  | write t next ih => exact .write (ih t)
  | await next ih => exact .await s none (ih none s)
  | yield v next => exact .yield

theorem reaches_finish_iff {r : Except (Exc ε) α} {s s' : σ} {p : Point σ ν ε α} :
    Reaches (.finish r) s s' p ↔ s' = s ∧ p = .finished r := by
  constructor
  · rintro ⟨⟩
    exact ⟨rfl, rfl⟩
  · rintro ⟨rfl, rfl⟩
    exact .finish

theorem reaches_yield_iff {v : ν} {next : Option (Exc ε) → Gen σ ν ε α} {s s' : σ}
    {p : Point σ ν ε α} : Reaches (.yield v next) s s' p ↔ s' = s ∧ p = .yielded v next := by
  constructor
  · rintro ⟨⟩
    exact ⟨rfl, rfl⟩
  · rintro ⟨rfl, rfl⟩
    exact .yield

theorem reaches_read_iff {next : σ → Gen σ ν ε α} {s s' : σ} {p : Point σ ν ε α} :
    Reaches (.read next) s s' p ↔ Reaches (next s) s s' p :=
  ⟨fun h => by cases h; assumption, .read⟩

theorem reaches_write_iff {next : Gen σ ν ε α} {t s s' : σ} {p : Point σ ν ε α} :
    Reaches (.write t next) s s' p ↔ Reaches next t s' p :=
  ⟨fun h => by cases h; assumption, .write⟩

/-- A coroutine runs to its end before what follows it. -/
theorem reaches_awaits_andThen {x : Co σ ε α} {f : Except (Exc ε) α → Gen σ ν ε β} {s s' : σ}
    {p : Point σ ν ε β} :
    Reaches (x.awaits.andThen f) s s' p ↔
      ∃ t r, Reaches x s t (.finished r) ∧ Reaches (f r) t s' p := by
  constructor
  · intro h
    induction x generalizing s with
    | finish r => exact ⟨s, r, .finish, h⟩
    | read next ih =>
      obtain ⟨t, r, hx, hf⟩ := ih s (reaches_read_iff.mp h)
      exact ⟨t, r, .read hx, hf⟩
    | write u next ih =>
      obtain ⟨t, r, hx, hf⟩ := ih (reaches_write_iff.mp h)
      exact ⟨t, r, .write hx, hf⟩
    | await next ih =>
      cases h with
      | await u e h =>
        obtain ⟨t, r, hx, hf⟩ := ih e h
        exact ⟨t, r, .await u e hx, hf⟩
    | yield v => exact v.elim
  · rintro ⟨t, r, hx, hf⟩
    induction x generalizing s with
    | finish r' =>
      obtain ⟨rfl, heq⟩ := reaches_finish_iff.mp hx
      cases heq
      exact hf
    | read next ih => exact .read (ih s (reaches_read_iff.mp hx))
    | write u next ih => exact .write (ih (reaches_write_iff.mp hx))
    | await next ih =>
      cases hx with
      | await u e hx => exact .await u e (ih e hx)
    | yield v => exact v.elim

/-- `__aenter__` awaits what the generator awaits. -/
theorem enter_awaits_andThen (x : Co σ ε β) (f : Except (Exc ε) β → Gen σ μ ε Unit)
    (k : μ → (Option (Exc ε) → Gen σ μ ε Unit) → Gen σ ν ε α) :
    (x.awaits.andThen f).enter k = x.awaits.andThen fun r => (f r).enter k := by
  induction x with
  | finish r => rfl
  | read next ih => exact congrArg read (funext ih)
  | write s next ih => exact congrArg (write s) ih
  | await next ih => exact congrArg await (funext ih)
  | yield v => exact v.elim

/-! ## The end of a context -/

variable [DecidableEq ε]

/-- What `__aexit__` returns when the generator has ended: whether the
exception of the body is suppressed. -/
def outcome : Option (Exc ε) → Except (Exc ε) Unit → Except (Exc ε) Bool
  | none, .ok () => .ok false
  | none, .error e => .error e.leave
  | some _, .ok () => .ok true
  | some value, .error e =>
    if e.leave = value then .ok false
    else if value.isStop ∧ e.leave = .leftGenerator value then .ok false
    else .error e.leave

/-- `__aexit__`, where the generator is resumed already. -/
def exit (value : Option (Exc ε)) : Gen σ μ ε Unit → Gen σ ν ε Bool
  | finish r => finish (outcome value r)
  | read next => read fun s => (next s).exit value
  | write s next => write s (next.exit value)
  | await next => await fun e => (next e).exit value
  | yield _ _ => finish (.error .didNotStop)

/-- The end of the statement, after the body has ended with `r`. -/
def leaveWith (next : Option (Exc ε) → Gen σ μ ε Unit) : Except (Exc ε) Unit → Gen σ ν ε Unit
  | .ok () => do
    let _ ← (next none).exit none
    return ()
  | .error e => do
    if ← (next (some e)).exit (some e) then return () else throw e

/-- `async with manager as value: body` -/
def asyncWith (manager : Gen σ μ ε Unit) (body : μ → Gen σ ν ε Unit) : Gen σ ν ε Unit :=
  manager.enter fun value next => (body value).andThen (leaveWith next)

/-- An exception that comes out of a generator as it was thrown into it is
not suppressed. -/
theorem outcome_same (e : Exc ε) : outcome (some e) (.error e) = .ok false := by
  unfold outcome Exc.leave
  by_cases h : e.isStop = true
  · simp [h]
  · simp [h]

/-- A generator that leaves the exception alone leaves it to the
statement. -/
theorem exit_propagated {next : Option (Exc ε) → Gen σ μ ε Unit} {e : Exc ε}
    (h : next (some e) = finish (.error e)) :
    (leaveWith next (.error e) : Gen σ ν ε Unit) = finish (.error e) := by
  change ((next (some e)).exit (some e)).andThen _ = _
  rw [h]
  change (finish (outcome (some e) (.error e))).andThen _ = _
  rw [outcome_same]
  rfl

/-- The generator ends, and the statement goes on. -/
theorem exit_reaches {value : Option (Exc ε)} {g : Gen σ μ ε Unit} {r : Except (Exc ε) Unit}
    {f : Except (Exc ε) Bool → Gen σ ν ε α} {s t s' : σ} {p : Point σ ν ε α}
    (h : Reaches g s t (.finished r)) (hf : Reaches (f (outcome value r)) t s' p) :
    Reaches ((g.exit value).andThen f) s s' p := by
  generalize hq : Point.finished r = q at h
  induction h with
  | finish =>
    cases hq
    exact hf
  | yield => cases hq
  | read _ ih => exact .read (ih hf hq)
  | write _ ih => exact .write (ih hf hq)
  | await u e _ ih => exact .await u e (ih hf hq)

/-- The exception that is thrown into the generator comes out of the
statement as it was, and the generator does not yield again. -/
structure Transparent (next : Option (Exc ε) → Gen σ μ ε Unit) (e : Exc ε) (s : σ) : Prop where
  ends : ∃ s' p, Reaches (leaveWith next (.error e) : Co σ ε Unit) s s' p
  same : ∀ s' p, Reaches (leaveWith next (.error e) : Co σ ε Unit) s s' p →
    p = .finished (.error e)
  once : ∀ s' v k, ¬ Reaches (next (some e)) s s' (.yielded v k)

theorem transparent_of_propagated {next : Option (Exc ε) → Gen σ μ ε Unit} {e : Exc ε}
    (h : next (some e) = finish (.error e)) (s : σ) : Transparent next e s := by
  have hleave : (leaveWith next (.error e) : Co σ ε Unit) = finish (.error e) := exit_propagated h
  refine ⟨⟨s, .finished (.error e), ?_⟩, fun s' p hp => ?_, fun s' v k hk => ?_⟩
  · rw [hleave]
    exact .finish
  · rw [hleave] at hp
    exact (reaches_finish_iff.mp hp).2
  · rw [h] at hk
    cases hk

end Gen

end Iams.Lib
