/-
Iams.Simulation.Random — managed random states: `manage_random_state` in
`iams/interfaces/simulation.py`.

A decorated function returns a generator that keeps a state of the global
module `random` of its own. It is seeded with a number drawn from the
module when it is created; each `next` puts the generator's state in place
of the module's, advances the iterator of the function, and keeps the
state that this leaves. The module is left with it as well.

`RandomModule` is what is used of the module: `R` are its states, as
`getstate` and `setstate` handle them, and `F` its floats. `Func` is a
decorated function with its arguments. It draws from the module only: all
it gets is the module's state and the state of its own iterator.

A `Process` is the module's state with the generators that there are, and
what was drawn and yielded so far. A `Caller` is a program that creates
generators, advances them, and draws from the module or reseeds it; what
it does next may depend on what it has drawn.

No `sorry`, no `axiom`, no `native_decide`.
-/
import Mathlib.Data.List.Basic

namespace Iams.Simulation

/-! ## The module and the decorated functions -/

/-- The module `random`. -/
structure RandomModule (R F : Type) where
  /-- `random.random()` -/
  random : R → F × R
  /-- `random.seed(seed)` -/
  seed : F → R

/-- The exceptions that leave a generator. -/
inductive GeneratorError where
  | stopIteration
  | runtimeError (text : String)
  | other (text : String)
  deriving DecidableEq, Repr

/-- An exception inside a generator: a `StopIteration` becomes a
`RuntimeError`. -/
def GeneratorError.escape : GeneratorError → GeneratorError
  | stopIteration => runtimeError "generator raised StopIteration"
  | e => e

/-- `func(*args, **kwargs)`, and `next` on the iterator it returns. -/
structure Func (R σ α : Type) where
  call : R → Except GeneratorError σ × R
  next : σ → R → Except GeneratorError (α × σ) × R

/-- `generator(seed, args, kwargs)`: not started yet, at its `yield`, or
done. -/
inductive Generator (R F σ α : Type) where
  | created (func : Func R σ α) (seed : F)
  | suspended (func : Func R σ α) (state : R) (iterator : σ)
  | finished

namespace Generator

variable {R F σ α : Type}

/-- One pass through `while True`: what `next` returns, the generator, and
the module's state. -/
def resume (func : Func R σ α) (state : R) (iterator : σ) :
    Except GeneratorError α × Generator R F σ α × R :=
  match func.next iterator state with
  | (.ok (result, iterator), state) => (.ok result, .suspended func state iterator, state)
  | (.error e, state) => (.error e.escape, .finished, state)

/-- `next` on a generator, with the module in the state `random`. -/
def next (rng : RandomModule R F) (random : R) :
    Generator R F σ α → Except GeneratorError α × Generator R F σ α × R
  | created func seed =>
    let state := rng.seed seed
    match func.call state with
    | (.ok iterator, _) => resume func state iterator
    | (.error e, random) => (.error e.escape, .finished, random)
  | suspended func state iterator => resume func state iterator
  | finished => (.error .stopIteration, .finished, random)

end Generator

/-! ## Programs -/

structure Process (R F σ α β : Type) where
  random : R
  generators : List (Generator R F σ α)
  outputs : List (Nat × Except GeneratorError α)
  drawn : List (F ⊕ β)

namespace Process

variable {R F σ α β : Type}

/-- No generator is there yet. -/
def init (random : R) : Process R F σ α β := ⟨random, [], [], []⟩

/-- `wrapper(*args, **kwargs)` -/
def create (rng : RandomModule R F) (func : Func R σ α) (p : Process R F σ α β) :
    Process R F σ α β :=
  let (seed, random) := rng.random p.random
  { p with
    random := random
    generators := p.generators ++ [.created func seed]
    drawn := p.drawn ++ [.inl seed] }

/-- `next` on the generator with this number. -/
def advance (rng : RandomModule R F) (i : Nat) (p : Process R F σ α β) :
    Process R F σ α β :=
  match p.generators[i]? with
  | none => p
  | some generator =>
    let (output, generator, random) := generator.next rng p.random
    { p with
      random := random
      generators := p.generators.set i generator
      outputs := p.outputs ++ [(i, output)] }

/-- A method of the module. -/
def draw (method : R → β × R) (p : Process R F σ α β) : Process R F σ α β :=
  let (value, random) := method p.random
  { p with random := random, drawn := p.drawn ++ [.inr value] }

/-- `random.seed` or `random.setstate`, with the state that it leaves. -/
def reseed (random : R) (p : Process R F σ α β) : Process R F σ α β :=
  { p with random := random }

/-- What `next` on the generator `i` has returned, in order. -/
def yielded (i : Nat) (p : Process R F σ α β) : List (Except GeneratorError α) :=
  (p.outputs.filter fun o => o.1 = i).map Prod.snd

end Process

/-- A step of a program; `ι` names the decorated functions with their
arguments. -/
inductive Op (R ι β : Type) where
  | create (func : ι)
  | next (i : Nat)
  | draw (method : R → β × R)
  | reseed (random : R)

namespace Process

variable {R F σ α β ι : Type}

def step (rng : RandomModule R F) (funcs : ι → Func R σ α) (p : Process R F σ α β) :
    Op R ι β → Process R F σ α β
  | .create func => p.create rng (funcs func)
  | .next i => p.advance rng i
  | .draw method => p.draw method
  | .reseed random => p.reseed random

def run (rng : RandomModule R F) (funcs : ι → Func R σ α) (p : Process R F σ α β)
    (ops : List (Op R ι β)) : Process R F σ α β :=
  ops.foldl (step rng funcs) p

end Process

/-- A program whose steps may depend on what it has drawn. -/
inductive Caller (R F ι β : Type) where
  | done
  | create (func : ι) (rest : F → Caller R F ι β)
  | next (i : Nat) (rest : Caller R F ι β)
  | draw (method : R → β × R) (rest : β → Caller R F ι β)
  | reseed (random : R) (rest : Caller R F ι β)

namespace Caller

variable {R F σ α β ι : Type}

/-- The process after the program. -/
def run (rng : RandomModule R F) (funcs : ι → Func R σ α) :
    Caller R F ι β → Process R F σ α β → Process R F σ α β
  | done, p => p
  | create func rest, p =>
    (rest (rng.random p.random).1).run rng funcs (p.create rng (funcs func))
  | next i rest, p => rest.run rng funcs (p.advance rng i)
  | draw method rest, p => (rest (method p.random).1).run rng funcs (p.draw method)
  | reseed random rest, p => rest.run rng funcs (p.reseed random)

/-- The program without its calls of `next`. -/
def quiet : Caller R F ι β → Caller R F ι β
  | done => done
  | create func rest => create func fun seed => (rest seed).quiet
  | next _ rest => rest.quiet
  | draw method rest => draw method fun value => (rest value).quiet
  | reseed random rest => reseed random rest.quiet

/-- With `n` generators there, `next` is called on a generator that the
program has created. -/
def Valid : Nat → Caller R F ι β → Prop
  | _, done => True
  | n, create _ rest => ∀ seed, (rest seed).Valid (n + 1)
  | n, next i rest => i < n ∧ rest.Valid n
  | n, draw _ rest => ∀ value, (rest value).Valid n
  | n, reseed _ rest => rest.Valid n

end Caller

end Iams.Simulation
