/-
Iams.Lib.SingleServer — jobs that one server takes in a given order.

A job arrives at some time and needs some length of service. `Serves`
says that every job starts as soon as it has arrived and the server is
free: the first at its arrival, each later one at the maximum of its
arrival and the end of the job before it. `Admissible` is what any
service of the jobs in that order satisfies.

There is exactly one such service (`exists_serves`, `Serves.map_start`),
and no admissible one starts any job earlier (`Serves.least`).

No `sorry`, no `axiom`, no `native_decide`.
-/
import Mathlib.Algebra.Order.Monoid.Defs
import Mathlib.Data.List.Chain

namespace Iams.Lib

variable {ι α : Type} [LinearOrder α] [AddCommMonoid α]

/-- When a server that is free from some time on can start a job. -/
def ready (free : Option α) (arrival : α) : α :=
  match free with
  | none => arrival
  | some time => max arrival time

/-- Each job starts as early as the ones before it allow. -/
def Serves (arrival length start : ι → α) : Option α → List ι → Prop
  | _, [] => True
  | free, i :: rest =>
      start i = ready free (arrival i) ∧
        Serves arrival length start (some (start i + length i)) rest

/-- No job starts before it arrives, or before the one before it ends. -/
structure Admissible (arrival length start : ι → α) (is : List ι) : Prop where
  arrived : ∀ i ∈ is, arrival i ≤ start i
  chain : is.IsChain fun i j => start i + length i ≤ start j

namespace Serves

variable {arrival length start start' : ι → α} {is : List ι}

theorem congr {free : Option α} (h : ∀ i ∈ is, start i = start' i) :
    Serves arrival length start free is ↔ Serves arrival length start' free is := by
  induction is generalizing free with
  | nil => exact Iff.rfl
  | cons i rest ih =>
    have hi := h i List.mem_cons_self
    rw [Serves, Serves, hi, ih fun j hj => h j (List.mem_cons_of_mem i hj)]

/-- Jobs can always be served, one after the other. -/
theorem exists_serves (arrival length : ι → α) (free : Option α) {is : List ι} (his : is.Nodup) :
    ∃ start, Serves arrival length start free is := by
  induction is generalizing free with
  | nil => exact ⟨arrival, trivial⟩
  | cons i rest ih =>
    obtain ⟨hi, hrest⟩ := List.nodup_cons.mp his
    obtain ⟨start, hstart⟩ := ih (some (ready free (arrival i) + length i)) hrest
    classical
    refine ⟨Function.update start i (ready free (arrival i)), by simp, ?_⟩
    rw [Function.update_self]
    refine (congr fun j hj => ?_).mp hstart
    rw [Function.update_of_ne fun hji : j = i => hi (hji ▸ hj)]

/-- The start times depend on the sequence of arrivals and lengths
only. -/
theorem map_start {κ : Type} {arrival' length' start' : κ → α} {js : List κ}
    {free : Option α} (h : Serves arrival length start free is)
    (h' : Serves arrival' length' start' free js)
    (heq : is.map (fun i => (arrival i, length i)) = js.map fun j => (arrival' j, length' j)) :
    is.map (fun i => (arrival i, length i, start i))
      = js.map fun j => (arrival' j, length' j, start' j) := by
  induction is generalizing free js with
  | nil =>
    cases js with
    | nil => rfl
    | cons j rest' => cases heq
  | cons i rest ih =>
    cases js with
    | nil => cases heq
    | cons j rest' =>
      simp only [List.map_cons, List.cons.injEq, Prod.mk.injEq] at heq
      obtain ⟨⟨harrival, hlength⟩, htail⟩ := heq
      have hstart : start i = start' j := by rw [h.1, h'.1, harrival]
      have hrest' := h'.2
      rw [← hstart, ← hlength] at hrest'
      simp only [List.map_cons, harrival, hlength, hstart, ih h.2 hrest' htail]

/-- A service never starts a job before it arrives, or before an earlier
job ends. -/
theorem admissible {free : Option α} (h : Serves arrival length start free is) :
    Admissible arrival length start is := by
  induction is generalizing free with
  | nil => exact ⟨fun i hi => absurd hi List.not_mem_nil, .nil⟩
  | cons i rest ih =>
    obtain ⟨hi, hrest⟩ := h
    have hready : arrival i ≤ start i := by
      rw [hi]
      cases free with
      | none => exact le_refl _
      | some time => exact le_max_left _ _
    refine ⟨fun j hj => ?_, ?_⟩
    · rcases List.mem_cons.mp hj with rfl | hj
      · exact hready
      · exact (ih hrest).arrived j hj
    · cases rest with
      | nil => exact .singleton i
      | cons j rest =>
        refine .cons_cons ?_ (ih hrest).chain
        rw [hrest.1]
        exact le_max_right _ _

/-- No admissible service starts a job earlier. -/
theorem least [IsOrderedAddMonoid α] (h : Serves arrival length start none is)
    (h' : Admissible arrival length start' is) : ∀ i ∈ is, start i ≤ start' i := by
  have key : ∀ (free : Option α) (js : List ι), Serves arrival length start free js →
      Admissible arrival length start' js →
      (∀ time ∈ free, ∀ i ∈ js.head?, time ≤ start' i) → ∀ i ∈ js, start i ≤ start' i := by
    intro free js
    induction js generalizing free with
    | nil => exact fun _ _ _ i hi => absurd hi List.not_mem_nil
    | cons i rest ih =>
      intro hserves hadm hfree
      have hi : start i ≤ start' i := by
        rw [hserves.1]
        have harrived := hadm.arrived i List.mem_cons_self
        cases free with
        | none => exact harrived
        | some time => exact max_le harrived (hfree time rfl i rfl)
      have hrest : Admissible arrival length start' rest :=
        ⟨fun j hj => hadm.arrived j (List.mem_cons_of_mem i hj), hadm.chain.tail⟩
      have hnext : ∀ time ∈ some (start i + length i), ∀ j ∈ rest.head?, time ≤ start' j := by
        rintro _ ⟨⟩ j hj
        cases rest with
        | nil => cases hj
        | cons k rest =>
          cases hj
          cases hadm.chain with
          | cons_cons hstep _ => exact le_trans (add_le_add_left hi _) hstep
      intro j hj
      rcases List.mem_cons.mp hj with rfl | hj
      · exact hi
      · exact ih _ hserves.2 hrest hnext j hj
  exact key none is h h' fun time htime => by cases htime

end Serves

/-- Of two jobs the earlier one ends before the later one starts. -/
theorem Admissible.pairwise [IsOrderedAddMonoid α] {arrival length start : ι → α} {is : List ι}
    (h : Admissible arrival length start is) (hlength : ∀ i ∈ is, 0 ≤ length i) :
    is.Pairwise fun i j => start i + length i ≤ start j := by
  induction is with
  | nil => exact .nil
  | cons i rest ih =>
    have ih := ih ⟨fun j hj => h.arrived j (List.mem_cons_of_mem i hj), h.chain.tail⟩
      fun j hj => hlength j (List.mem_cons_of_mem i hj)
    refine List.pairwise_cons.mpr ⟨?_, ih⟩
    cases rest with
    | nil => exact fun k hk => absurd hk List.not_mem_nil
    | cons j rest =>
      cases h.chain with
      | cons_cons hstep _ =>
        intro k hk
        rcases List.mem_cons.mp hk with rfl | hk
        · exact hstep
        · calc start i + length i ≤ start j := hstep
            _ ≤ start j + length j :=
              le_add_of_nonneg_right (hlength j (List.mem_cons_of_mem i List.mem_cons_self))
            _ ≤ start k := (List.pairwise_cons.mp ih).1 k hk

end Iams.Lib
