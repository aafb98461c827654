/-
Iams.Lib.Heap — objects that are reached through references.

A reference is a number, and every number below `next` is one. Two names
for one object are two uses of one reference: what is written through the
one is read through the other, and through no third
(`read_write_self`, `read_write_of_ne`).

No `sorry`, no `axiom`, no `native_decide`.
-/

namespace Iams.Lib

/-- The object of each reference, and the next reference. -/
structure Heap (α : Type) where
  cells : Nat → α
  next : Nat

namespace Heap

variable {α : Type} (h : Heap α) {q r : Nat}

def read (r : Nat) : α := h.cells r

def write (r : Nat) (a : α) : Heap α := { h with cells := fun q => if q = r then a else h.cells q }

/-- A new object; its reference is `next`. -/
def alloc (a : α) : Heap α := { h.write h.next a with next := h.next + 1 }

@[simp] theorem read_write_self (a : α) : (h.write r a).read r = a := if_pos rfl

theorem read_write_of_ne (hne : q ≠ r) (a : α) : (h.write r a).read q = h.read q := if_neg hne

@[simp] theorem read_alloc_self (a : α) : (h.alloc a).read h.next = a := if_pos rfl

theorem read_alloc_of_lt (hlt : q < h.next) (a : α) : (h.alloc a).read q = h.read q :=
  if_neg (Nat.ne_of_lt hlt)

/-- An object that is written as it is. -/
theorem write_read (r : Nat) : h.write r (h.read r) = h := by
  obtain ⟨cells, next⟩ := h
  unfold write read
  congr 1
  funext q
  split
  · next hq => rw [hq]
  · rfl

/-- Only the last of two writes counts. -/
theorem write_write (r : Nat) (a b : α) : (h.write r a).write r b = h.write r b := by
  unfold write
  congr 1
  funext q
  by_cases hq : q = r
  · rw [if_pos hq, if_pos hq]
  · rw [if_neg hq, if_neg hq]
    exact if_neg hq

end Heap

end Iams.Lib
