/-
Iams.Simulation.Queue — the events of a simulation: `Priority` and
`Queue` in `iams/interfaces/simulation.py`.

A queue entry compares by its time, then by the value of its priority,
and then by the delay it was scheduled with, which is taken crosswise:
`Queue.__lt__` puts `other.dt` on the left and `self.dt` on the right, so
that of two entries for the same time the one with the longer delay comes
first. `compareTo_eq_compare` shows that this is the order of a rank, a
linear one, and `weakOrderOn_lt` what `heapq` needs of it.

`obj`, `callback`, `args` and `kwargs` do not take part in a comparison.
Together they say what to call when the event is due, and are one field
`call` of any type `β`. The `deleted` flag is the only part of an entry
that changes; it is kept by the simulation, under the entry's `number`.

No `sorry`, no `axiom`, no `native_decide`.
-/
import Iams.Lib.Sorting
import Mathlib.Data.Prod.Lex

namespace Iams.Simulation

open Iams.Lib

/-! ## Priority -/

/-- `Priority` -/
inductive Priority where
  | highest
  | high
  | normal
  | low
  | lowest
  deriving DecidableEq, Repr

namespace Priority

def value : Priority → Nat
  | highest => 1
  | high => 3
  | normal => 5
  | low => 7
  | lowest => 9

theorem value_injective : Function.Injective value := by
  intro p q
  cases p <;> cases q <;> decide

/-- `Priority[name]`, where `none` stands for the `KeyError`. -/
def byName (name : List Char) : Option Priority :=
  [("HIGHEST", highest), ("HIGH", high), ("NORMAL", normal), ("LOW", low),
    ("LOWEST", lowest)].findSome? fun (known, p) => if known.toList = name then some p else none

/-- `str.upper` on one character, as far as a name of a priority can tell:
no further character has a capital form made of the letters A to Z. -/
def upper (c : Char) : List Char :=
  match c with
  | 'ß' => ['S', 'S']
  | 'ı' => ['I']
  | 'ſ' => ['S']
  | 'ﬀ' => ['F', 'F']
  | 'ﬁ' => ['F', 'I']
  | 'ﬂ' => ['F', 'L']
  | 'ﬃ' => ['F', 'F', 'I']
  | 'ﬄ' => ['F', 'F', 'L']
  | 'ﬅ' => ['S', 'T']
  | 'ﬆ' => ['S', 'T']
  | c => [c.toUpper]

/-- What the `priority` argument of `schedule` may be. -/
inductive Arg where
  | member (p : Priority)
  | str (name : String)
  deriving DecidableEq, Repr

/-- `__post_init__`: a string is looked up in capitals, and an unknown one
means `NORMAL`. -/
def ofArg : Arg → Priority
  | .member p => p
  | .str name => (byName (name.toList.flatMap upper)).getD normal

end Priority

/-! ## Queue -/

/-- An entry of the queue. `number` is the identity of the Python object:
how many entries were made before it. -/
structure Queue (τ β : Type) where
  number : Nat
  time : τ
  call : β
  dt : τ
  priority : Priority
  deriving DecidableEq, Repr

namespace Queue

variable {τ β : Type} [LinearOrder τ]

/-- The two tuples of a comparison, place by place. -/
def compareTo (self other : Queue τ β) : Ordering :=
  (compare self.time other.time).then
    ((compare self.priority.value other.priority.value).then (compare other.dt self.dt))

/-- `__lt__` -/
def lt (self other : Queue τ β) : Bool := (compareTo self other).isLT

/-- `__le__` -/
def le (self other : Queue τ β) : Bool := (compareTo self other).isLE

/-- `__eq__` -/
def eq (self other : Queue τ β) : Bool := (compareTo self other).isEq

/-- `__ne__` -/
def ne (self other : Queue τ β) : Bool := (compareTo self other).isNe

/-- `__ge__` -/
def ge (self other : Queue τ β) : Bool := (compareTo self other).isGE

/-- `__gt__` -/
def gt (self other : Queue τ β) : Bool := (compareTo self other).isGT

/-- What an entry is ordered by: the time, the value of the priority, and
the delay backwards. -/
def rank (q : Queue τ β) : τ ×ₗ Nat ×ₗ τᵒᵈ :=
  toLex (q.time, toLex (q.priority.value, OrderDual.toDual q.dt))

/-- The crossed comparison is the comparison of the ranks. -/
theorem compareTo_eq_compare (self other : Queue τ β) :
    self.compareTo other = compare self.rank other.rank := rfl

theorem lt_iff {a b : Queue τ β} : a.lt b = true ↔ a.rank < b.rank := by
  rw [lt, compareTo_eq_compare, Ordering.isLT_iff_eq_lt, compare_lt_iff_lt]

example : (⟨0, 0, (), 1, .normal⟩ : Queue Int Unit).lt ⟨1, 0, (), 0, .normal⟩ = true := by decide

theorem weakOrderOn_lt (l : List (Queue τ β)) : WeakOrderOn lt l :=
  .of_rank rank fun _ _ _ _ => lt_iff

/-- What an entry that is not less than another one is later in. -/
theorem not_lt_iff {a b : Queue τ β} :
    a.lt b = false ↔ b.time < a.time ∨ b.time = a.time ∧
      (b.priority.value < a.priority.value ∨ b.priority = a.priority ∧ a.dt ≤ b.dt) := by
  rw [Bool.eq_false_iff, ne_eq, lt_iff, not_lt, rank, rank, Prod.Lex.toLex_le_toLex,
    Prod.Lex.toLex_le_toLex, OrderDual.toDual_le_toDual, Priority.value_injective.eq_iff]

variable {a b : Queue τ β}

theorem time_le_of_not_lt (h : a.lt b = false) : b.time ≤ a.time := by
  rcases not_lt_iff.mp h with hlt | ⟨heq, -⟩
  · exact le_of_lt hlt
  · exact le_of_eq heq

/-- By time and priority alone it does not come first either. -/
theorem not_before_of_not_lt (h : a.lt b = false) :
    ¬ toLex (a.time, a.priority.value) < toLex (b.time, b.priority.value) := by
  rw [not_lt, Prod.Lex.toLex_le_toLex]
  rcases not_lt_iff.mp h with htime | ⟨htime, hlt | ⟨heq, -⟩⟩
  · exact .inl htime
  · exact .inr ⟨htime, le_of_lt hlt⟩
  · exact .inr ⟨htime, le_of_eq (congrArg Priority.value heq)⟩

/-- Of two entries for one time, with one priority, the delays decide. -/
theorem dt_le_of_not_lt (h : a.lt b = false) (htime : a.time = b.time)
    (hpriority : a.priority = b.priority) : a.dt ≤ b.dt := by
  rcases not_lt_iff.mp h with hlt | ⟨-, hlt | ⟨-, hdt⟩⟩
  · exact absurd hlt (htime ▸ lt_irrefl _)
  · exact absurd hlt (hpriority ▸ lt_irrefl _)
  · exact hdt

end Queue

end Iams.Simulation
