/-
Iams.Simulation.RandomTheorems — what managed generators have in common.

`yielded_alone` says that a generator does not notice what happens to the
module between its steps, since the state that it keeps replaces the
module's. But what it leaves there is its own state: `undisturbed_iff`
says for which programs the values they draw do not depend on the calls of
`next` in between.

§1 one generator, §2 streams, §3 the program, §4 a disturbed program.

No `sorry`, no `axiom`, no `native_decide`.
-/
import Iams.Simulation.Random

namespace Iams.Simulation

variable {R F σ α β ι : Type} {rng : RandomModule R F}

/-! ## §1 One generator -/

namespace Generator

/-- What `next` returns does not depend on the state of the module, and
neither does the generator afterwards. -/
theorem next_eq (rng : RandomModule R F) (g : Generator R F σ α) (r r' : R) :
    (g.next rng r).1 = (g.next rng r').1 ∧ (g.next rng r).2.1 = (g.next rng r').2.1 := by
  cases g with
  | created func seed =>
    dsimp only [next]
    split <;> exact ⟨rfl, rfl⟩
  | suspended func state iterator => exact ⟨rfl, rfl⟩
  | finished => exact ⟨rfl, rfl⟩

/-- The first `n` values of a generator, with the module in the state `r`. -/
def stream (rng : RandomModule R F) (r : R) :
    Generator R F σ α → Nat → List (Except GeneratorError α)
  | _, 0 => []
  | g, n + 1 => (g.next rng r).1 :: stream rng r (g.next rng r).2.1 n

end Generator

/-! ## §2 Streams -/

/-- `next` on generator `i` -/
def Op.isNext (i : Nat) : Op R ι β → Bool
  | .next j => j = i
  | _ => false

/-- How often these steps advance generator `i`. -/
def nexts (i : Nat) (ops : List (Op R ι β)) : Nat := ops.countP (Op.isNext i)

namespace Process

variable {p : Process R F σ α β} {i j : Nat} {g : Generator R F σ α}
  {funcs : ι → Func R σ α}

theorem advance_of_some (h : p.generators[j]? = some g) :
    p.advance rng j = { p with
      random := (g.next rng p.random).2.2
      generators := p.generators.set j (g.next rng p.random).2.1
      outputs := p.outputs ++ [(j, (g.next rng p.random).1)] } := by
  rw [advance, h]

/-- A step that does not advance generator `i` leaves it alone. -/
theorem step_other {op : Op R ι β} (hop : op.isNext i = false)
    (h : p.generators[i]? = some g) :
    (p.step rng funcs op).generators[i]? = some g ∧
      (p.step rng funcs op).yielded i = p.yielded i := by
  cases op with
  | create func =>
    obtain ⟨hi, -⟩ := List.getElem?_eq_some_iff.mp h
    exact ⟨by rw [← h]; exact List.getElem?_append_left hi, rfl⟩
  | next j =>
    have hji : j ≠ i := by simpa [Op.isNext] using hop
    rw [step]
    cases hj : p.generators[j]? with
    | none => rw [advance, hj]; exact ⟨h, rfl⟩
    | some other =>
      rw [advance_of_some hj]
      exact ⟨by rw [List.getElem?_set_ne hji, h], by simp [yielded, hji]⟩
  | draw method => exact ⟨h, rfl⟩
  | reseed random => exact ⟨h, rfl⟩

/-- What generator `i` yields in any run is the beginning of its stream. -/
theorem yielded_run (r : R) (h : p.generators[i]? = some g) (ops : List (Op R ι β)) :
    (p.run rng funcs ops).yielded i = p.yielded i ++ g.stream rng r (nexts i ops) := by
  induction ops generalizing p g with
  | nil => simp [run, nexts, Generator.stream]
  | cons op rest ih =>
    have hrun : p.run rng funcs (op :: rest) = (p.step rng funcs op).run rng funcs rest := rfl
    rw [hrun]
    cases hop : op.isNext i with
    | true =>
      obtain rfl : op = .next i := by
        cases op <;> simp_all [Op.isNext]
      obtain ⟨hi, -⟩ := List.getElem?_eq_some_iff.mp h
      obtain ⟨hout, hgen⟩ := g.next_eq rng p.random r
      have hnext : (p.step rng funcs (.next i)).generators[i]? = some (g.next rng r).2.1 := by
        rw [step, advance_of_some h, List.getElem?_set_self hi, hgen]
      have hyielded :
          (p.step rng funcs (.next i)).yielded i = p.yielded i ++ [(g.next rng r).1] := by
        rw [step, advance_of_some h, ← hout]
        simp [yielded]
      have hcount : nexts i (.next i :: rest) = nexts i rest + 1 := List.countP_cons_of_pos hop
      rw [ih hnext, hyielded, hcount, Generator.stream, List.append_assoc]
      rfl
    | false =>
      obtain ⟨hgen, hyielded⟩ : (p.step rng funcs op).generators[i]? = some g ∧
          (p.step rng funcs op).yielded i = p.yielded i := step_other hop h
      have hcount : nexts i (op :: rest) = nexts i rest :=
        List.countP_cons_of_neg (Bool.eq_false_iff.mp hop)
      rw [ih hgen, hyielded, hcount]

/-- What any generator yields in any run, it yields when it is advanced as
often alone. -/
theorem yielded_alone (p : Process R F σ α β) (funcs : ι → Func R σ α) (ops : List (Op R ι β))
    (hi : i < p.generators.length) :
    (p.run rng funcs ops).yielded i =
      (p.run rng funcs (List.replicate (nexts i ops) (.next i) : List (Op R ι β))).yielded i := by
  have h : p.generators[i]? = some p.generators[i] := List.getElem?_eq_getElem hi
  have hcount : nexts i (List.replicate (nexts i ops) (.next i) : List (Op R ι β)) =
      nexts i ops := by
    rw [nexts, List.countP_replicate, if_pos (by simp [Op.isNext])]
  rw [yielded_run p.random h, yielded_run p.random h, hcount]

/-- Random streams do not interfere: a family of generators is created
from one state of the module, and whatever happens then, each of them
yields what it yields when it is advanced alone. -/
theorem family_alone (random : R) (funcs : ι → Func R σ α) (family : List ι)
    (ops : List (Op R ι β)) (hi : i < family.length) :
    let p : Process R F σ α β := (init random).run rng funcs (family.map .create)
    (p.run rng funcs ops).yielded i =
      (p.run rng funcs (List.replicate (nexts i ops) (.next i) : List (Op R ι β))).yielded i := by
  have hlength (family : List ι) (p : Process R F σ α β) :
      (p.run rng funcs (family.map .create : List (Op R ι β))).generators.length =
        p.generators.length + family.length := by
    induction family generalizing p with
    | nil => rfl
    | cons func rest ih =>
      have hcreate : (p.create rng (funcs func)).generators.length = p.generators.length + 1 :=
        List.length_append
      have hrest := ih (p.create rng (funcs func))
      rw [hcreate, Nat.add_assoc, Nat.add_comm 1] at hrest
      exact hrest
  refine yielded_alone _ funcs ops ?_
  rw [hlength]
  exact Nat.lt_add_left _ hi

end Process

/-- A module that counts. -/
def counting : RandomModule Nat Nat where
  random := fun n => (n, n + 1)
  seed := fun seed => 10 * seed

/-- A function that yields numbers it draws. -/
def drawing : Func Nat Unit Nat where
  call := fun n => (.ok (), n)
  next := fun _ n => (.ok (n, ()), n + 1)

theorem Process.family_alone_two :
    let p : Process Nat Nat Unit Nat Nat :=
      (init 5).run counting (fun _ : Unit => drawing) ([(), ()].map .create)
    let ops : List (Op Nat Unit Nat) := [.next 0, .next 1, .draw counting.random, .next 0]
    (p.run counting (fun _ => drawing) ops).yielded 0 =
      (p.run counting (fun _ => drawing)
        (List.replicate (nexts 0 ops) (.next 0) : List (Op Nat Unit Nat))).yielded 0 :=
  family_alone 5 (fun _ => drawing) [(), ()] _ (by decide)

/-! ## §3 The program's own values -/

namespace Caller

/-- What the program draws from the state `r` on when it calls no `next`. -/
def values (rng : RandomModule R F) : R → Caller R F ι β → List (F ⊕ β)
  | _, done => []
  | r, create _ rest =>
    .inl (rng.random r).1 :: values rng (rng.random r).2 (rest (rng.random r).1)
  | r, next _ rest => values rng r rest
  | r, draw method rest => .inr (method r).1 :: values rng (method r).2 (rest (method r).1)
  | _, reseed random rest => values rng random rest

/-- After each call of `next`, what the program goes on to draw is the same
from every state of the module: it reseeds the module first. -/
def Guarded (rng : RandomModule R F) : R → Caller R F ι β → Prop
  | _, done => True
  | r, create _ rest => Guarded rng (rng.random r).2 (rest (rng.random r).1)
  | r, next _ rest =>
    (∀ r', values rng r' rest = values rng r rest) ∧ ∀ r', Guarded rng r' rest
  | r, draw method rest => Guarded rng (method r).2 (rest (method r).1)
  | _, reseed random rest => Guarded rng random rest

/-- Whatever the decorated functions are, the program draws the same values
with its calls of `next` as without them. -/
def Undisturbed (rng : RandomModule R F) (r : R) (c : Caller R F ι β) : Prop :=
  ∀ (σ α : Type) (funcs : ι → Func R σ α),
    (c.run rng funcs (.init r)).drawn = (c.quiet.run rng funcs (.init r)).drawn

variable {p : Process R F σ α β} {funcs : ι → Func R σ α}

/-- Without calls of `next` the program draws its own values. -/
theorem drawn_quiet (c : Caller R F ι β) (p : Process R F σ α β) :
    (c.quiet.run rng funcs p).drawn = p.drawn ++ c.values rng p.random := by
  induction c generalizing p with
  | done => simp [quiet, run, values]
  | create func rest ih => simp [quiet, run, values, ih, Process.create]
  | next i rest ih => exact ih p
  | draw method rest ih => simp [quiet, run, values, ih, Process.draw]
  | reseed random rest ih => simp [quiet, run, values, ih, Process.reseed]

theorem drawn_advance (p : Process R F σ α β) (i : Nat) :
    (p.advance rng i).drawn = p.drawn := by
  unfold Process.advance
  split <;> rfl

/-- A guarded program draws its own values in any case. -/
theorem Guarded.drawn {c : Caller R F ι β} (h : c.Guarded rng p.random) :
    (c.run rng funcs p).drawn = p.drawn ++ c.values rng p.random := by
  induction c generalizing p with
  | done => simp [run, values]
  | create func rest ih =>
    have hrest := ih _ (p := p.create rng (funcs func)) h
    simpa [run, values, Process.create] using hrest
  | next i rest ih =>
    have hrest := ih (p := p.advance rng i) (h.2 _)
    rw [drawn_advance, h.1] at hrest
    exact hrest
  | draw method rest ih =>
    have hrest := ih _ (p := p.draw method) h
    simpa [run, values, Process.draw] using hrest
  | reseed random rest ih =>
    have hrest := ih (p := p.reseed random) h
    simpa [run, values, Process.reseed] using hrest

/-- A function whose iterator always leaves the module in the state `r`. -/
def leaving (r : R) : Func R Unit Unit where
  call := fun random => (.ok (), random)
  next := fun _ _ => (.ok ((), ()), r)

/-- What the program draws when every call of `next` leaves the module in
the state `left`. -/
def valuesLeaving (rng : RandomModule R F) (left : R) : R → Caller R F ι β → List (F ⊕ β)
  | _, done => []
  | r, create _ rest =>
    .inl (rng.random r).1 :: valuesLeaving rng left (rng.random r).2 (rest (rng.random r).1)
  | _, next _ rest => valuesLeaving rng left left rest
  | r, draw method rest =>
    .inr (method r).1 :: valuesLeaving rng left (method r).2 (rest (method r).1)
  | _, reseed random rest => valuesLeaving rng left random rest

/-- A generator of such a function that has not ended. -/
def Leaves (r : R) (g : Generator R F Unit Unit) : Prop :=
  (∃ seed, g = .created (leaving r) seed) ∨ ∃ state, g = .suspended (leaving r) state ()

theorem Leaves.next {r : R} {g : Generator R F Unit Unit} (h : Leaves r g)
    (rng : RandomModule R F) (random : R) :
    (g.next rng random).2.2 = r ∧ Leaves r (g.next rng random).2.1 := by
  rcases h with ⟨seed, rfl⟩ | ⟨state, rfl⟩
  · exact ⟨rfl, .inr ⟨_, rfl⟩⟩
  · exact ⟨rfl, .inr ⟨_, rfl⟩⟩

theorem drawn_leaving {left : R} {c : Caller R F ι β} {p : Process R F Unit Unit β}
    (hvalid : c.Valid p.generators.length) (hleaves : ∀ g ∈ p.generators, Leaves left g) :
    (c.run rng (fun _ => leaving left) p).drawn =
      p.drawn ++ c.valuesLeaving rng left p.random := by
  induction c generalizing p with
  | done => simp [run, valuesLeaving]
  | create func rest ih =>
    have hrest := ih (rng.random p.random).1 (p := p.create rng (leaving left)) ?_ ?_
    · simpa [run, valuesLeaving, Process.create] using hrest
    · simpa [Process.create] using hvalid (rng.random p.random).1
    · intro g hg
      rcases List.mem_append.mp hg with hg | hg
      · exact hleaves g hg
      · exact .inl ⟨_, List.mem_singleton.mp hg⟩
  | next i rest ih =>
    obtain ⟨hi, hvalid⟩ := hvalid
    have hsome : p.generators[i]? = some p.generators[i] := List.getElem?_eq_getElem hi
    obtain ⟨hrandom, hnext⟩ :=
      (hleaves _ (List.getElem_mem hi)).next rng p.random
    have hrest := ih (p := p.advance rng i) ?_ ?_
    · rw [Process.advance_of_some hsome] at hrest
      rw [run, Process.advance_of_some hsome, hrest, hrandom]
      rfl
    · simpa [Process.advance_of_some hsome] using hvalid
    · rw [Process.advance_of_some hsome]
      intro g hg
      rcases List.mem_or_eq_of_mem_set hg with hg | rfl
      · exact hleaves g hg
      · exact hnext
  | draw method rest ih =>
    have hrest := ih (method p.random).1 (p := p.draw method) (hvalid _) hleaves
    simpa [run, valuesLeaving, Process.draw] using hrest
  | reseed random rest ih =>
    have hrest := ih (p := p.reseed random) hvalid hleaves
    simpa [run, valuesLeaving, Process.reseed] using hrest

/-- A list that is always the same has the same head and the same tail. -/
theorem cons_const {γ : Type} {inject : γ → F ⊕ β} (hinject : Function.Injective inject)
    {value : R → γ} {tail : R → List (F ⊕ β)} {vs : List (F ⊕ β)}
    (h : ∀ left, inject (value left) :: tail left = vs) (left₀ left : R) :
    value left = value left₀ ∧ tail left = tail left₀ := by
  obtain ⟨hvalue, htail⟩ := List.cons.inj ((h left).trans (h left₀).symm)
  exact ⟨hinject hvalue, htail⟩

/-- If the values are the same whatever state `next` leaves, the program is
guarded. The state it is in may depend on what was left before. -/
theorem guarded_of_valuesLeaving {c : Caller R F ι β} (state : R → R) {vs : List (F ⊕ β)}
    (h : ∀ left, c.valuesLeaving rng left (state left) = vs) :
    (∀ left, c.values rng (state left) = vs) ∧ ∀ left, c.Guarded rng (state left) := by
  induction c generalizing state vs with
  | done => exact ⟨h, fun _ => trivial⟩
  | create func rest ih =>
    have hrest (left₀ : R) := ih (rng.random (state left₀)).1
      (fun left => (rng.random (state left)).2) fun left => by
        obtain ⟨hseed, htail⟩ := cons_const (fun _ _ => Sum.inl.inj) h left₀ left
        rw [← hseed]
        exact htail
    refine ⟨fun left => ?_, fun left => (hrest left).2 left⟩
    rw [← h left]
    exact congrArg _ ((hrest left).1 left)
  | next i rest ih =>
    obtain ⟨hvalues, hguarded⟩ := ih id h
    refine ⟨fun left => hvalues _, fun left => ⟨fun r' => ?_, hguarded⟩⟩
    exact (hvalues r').trans (hvalues _).symm
  | draw method rest ih =>
    have hrest (left₀ : R) := ih (method (state left₀)).1
      (fun left => (method (state left)).2) fun left => by
        obtain ⟨hvalue, htail⟩ := cons_const (fun _ _ => Sum.inr.inj) h left₀ left
        rw [← hvalue]
        exact htail
    refine ⟨fun left => ?_, fun left => (hrest left).2 left⟩
    rw [← h left]
    exact congrArg _ ((hrest left).1 left)
  | reseed random rest ih => exact ih (fun _ => random) h

/-- The values a program draws do not depend on its calls of `next`, whatever
the decorated functions are, if and only if the program is guarded. -/
theorem undisturbed_iff {r : R} {c : Caller R F ι β} (hvalid : c.Valid 0) :
    c.Undisturbed rng r ↔ c.Guarded rng r := by
  constructor
  · intro h
    have hvalues (left : R) : c.valuesLeaving rng left r = c.values rng r := by
      have hdrawn := h Unit Unit fun _ => leaving left
      rw [drawn_quiet, drawn_leaving (p := .init r) hvalid fun g hg => absurd hg List.not_mem_nil]
        at hdrawn
      exact List.append_cancel_left hdrawn
    exact (guarded_of_valuesLeaving (fun _ => r) hvalues).2 r
  · intro h σ α funcs
    rw [drawn_quiet]
    exact Guarded.drawn (p := .init r) h

end Caller

/-! ## §4 A disturbed program -/

namespace Caller

/-- A generator is created and advanced, and then the program draws. -/
def advancing : Caller Nat Nat Unit Nat :=
  .create () fun _ => .next 0 (.draw counting.random fun _ => .done)

/-- The same, but the program reseeds the module first. -/
def reseeding : Caller Nat Nat Unit Nat :=
  .create () fun _ => .next 0 (.reseed 7 (.draw counting.random fun _ => .done))

theorem undisturbed_iff_reseeding : reseeding.Undisturbed counting 5 := by
  have hvalid : reseeding.Valid 0 := fun _ => ⟨by decide, fun _ => trivial⟩
  exact (undisturbed_iff hvalid).mpr ⟨fun _ => rfl, fun _ => trivial⟩

/-- The program draws what comes after the generator's value, and not what
comes after the seed. -/
theorem advancing_disturbed :
    ¬ ∀ (rng : RandomModule Nat Nat) (r : Nat) (c : Caller Nat Nat Unit Nat), c.Valid 0 →
      c.Undisturbed rng r := by
  intro h
  have hdrawn := h counting 5 advancing (fun _ => ⟨by decide, fun _ => trivial⟩) Unit Nat
    fun _ => drawing
  exact absurd hdrawn (by decide)

end Caller

end Iams.Simulation
