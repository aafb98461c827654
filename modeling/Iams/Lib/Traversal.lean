/-
Iams.Lib.Traversal — searches in a graph that go on from some vertices
only.

`Reaches next inside start n v` says that `n` edges lead from `start` to
`v`, and that each of them starts at a vertex inside. The search ends at the
`Border`: the vertices outside that so many edges lead to. Where the edges
and the vertices inside are kept, the paths are as well (`Reaches.mono`),
and names of the vertices do not matter (`border_map`).

`search` finds these vertices level by level, each of them once
(`mem_search`).

No `sorry`, no `axiom`, no `native_decide`.
-/
import Mathlib.Data.List.Dedup

namespace Iams.Lib

variable {V W : Type}

/-! ## Paths -/

/-- `n` edges lead from `start` to `v`, each from a vertex inside. -/
inductive Reaches (next : V → V → Prop) (inside : V → Prop) (start : V) : Nat → V → Prop where
  | start : Reaches next inside start 0 start
  | step {n : Nat} {u v : V} : Reaches next inside start n u → inside u → next u v →
      Reaches next inside start (n + 1) v

/-- The vertices outside that at most `bound` edges lead to. -/
def Border (next : V → V → Prop) (inside : V → Prop) (start : V) (bound : Nat) (v : V) : Prop :=
  ¬ inside v ∧ ∃ n ≤ bound, Reaches next inside start n v

variable {next next' : V → V → Prop} {inside inside' : V → Prop} {start v : V} {bound n : Nat}

theorem Reaches.mono (h : Reaches next inside start n v) (hinside : ∀ u, inside u → inside' u)
    (hnext : ∀ u v, inside u → next u v → next' u v) : Reaches next' inside' start n v := by
  induction h with
  | start => exact .start
  | step _ hu huv ih => exact .step ih (hinside _ hu) (hnext _ _ hu huv)

section Names

variable {f : V → W} {next' : W → W → Prop} {inside' : W → Prop} {named : V → Prop}
  (hstart : named start) (hnamed : ∀ u v, named u → next u v → named v)
  (hinside : ∀ u, named u → (inside' (f u) ↔ inside u))
  (hnext : ∀ u w, named u → (next' (f u) w ↔ ∃ v, next u v ∧ f v = w))
include hstart hnamed hinside hnext

/-- The same search under other names, where `named` are the vertices that
have one. -/
theorem reaches_map {w : W} : Reaches next' inside' (f start) n w ↔
    ∃ v, named v ∧ Reaches next inside start n v ∧ f v = w := by
  constructor
  · intro h
    induction h with
    | start => exact ⟨start, hstart, .start, rfl⟩
    | step _ hu huv ih =>
      obtain ⟨u, hname, hreaches, rfl⟩ := ih
      obtain ⟨v, hstep, hv⟩ := (hnext u _ hname).mp huv
      exact ⟨v, hnamed u v hname hstep, .step hreaches ((hinside u hname).mp hu) hstep, hv⟩
  · rintro ⟨v, -, h, rfl⟩
    suffices named v ∧ Reaches next' inside' (f start) n (f v) from this.2
    induction h with
    | start => exact ⟨hstart, .start⟩
    | step _ hu huv ih =>
      refine ⟨hnamed _ _ ih.1 huv, .step ih.2 ((hinside _ ih.1).mpr hu) ?_⟩
      exact (hnext _ _ ih.1).mpr ⟨_, huv, rfl⟩

theorem border_map {w : W} : Border next' inside' (f start) bound w ↔
    ∃ v, named v ∧ Border next inside start bound v ∧ f v = w := by
  have hreaches {m : Nat} {w : W} : Reaches next' inside' (f start) m w ↔ _ :=
    reaches_map hstart hnamed hinside hnext
  constructor
  · rintro ⟨hw, m, hm, h⟩
    obtain ⟨v, hname, hv, rfl⟩ := hreaches.mp h
    exact ⟨v, hname, ⟨fun hin => hw ((hinside v hname).mpr hin), m, hm, hv⟩, rfl⟩
  · rintro ⟨v, hname, ⟨hv, m, hm, h⟩, rfl⟩
    exact ⟨fun hin => hv ((hinside v hname).mp hin), m, hm, hreaches.mpr ⟨v, hname, h, rfl⟩⟩

end Names

/-! ## Finding them -/

variable [DecidableEq V]

/-- So many more levels, where `seen` has been found and `front` last. -/
def search (next : V → List V) (inside : V → Bool) : Nat → List V → List V → List V
  | 0, seen, _ => seen
  | n + 1, seen, front =>
    let found := ((front.filter inside).flatMap next).dedup.filter fun v => v ∉ seen
    search next inside n (seen ++ found) found

section Search

variable {next : V → List V} {inside : V → Bool} {seen front : List V} {k : Nat}

/-- What has been found after `k` levels. -/
structure Searched (next : V → List V) (inside : V → Bool) (start : V) (k : Nat)
    (seen front : List V) : Prop where
  mem_seen : ∀ v, v ∈ seen ↔
    ∃ m ≤ k, Reaches (fun u v => v ∈ next u) (fun u => inside u = true) start m v
  front_subset : ∀ v ∈ front, v ∈ seen
  closed : ∀ u ∈ seen, inside u = true → u ∈ front ∨ ∀ v ∈ next u, v ∈ seen

theorem Searched.step (h : Searched next inside start k seen front) :
    Searched next inside start (k + 1)
      (seen ++ ((front.filter inside).flatMap next).dedup.filter fun v => v ∉ seen)
      (((front.filter inside).flatMap next).dedup.filter fun v => v ∉ seen) := by
  have hfound (v : V) : v ∈ ((front.filter inside).flatMap next).dedup.filter
      (fun v => v ∉ seen) ↔ (∃ u ∈ front, inside u = true ∧ v ∈ next u) ∧ v ∉ seen := by
    simp [List.mem_filter, List.mem_dedup, List.mem_flatMap, and_assoc]
  have hnext {u v : V} (hu : u ∈ seen) (hin : inside u = true) (hv : v ∈ next u) :
      v ∈ seen ∨ (∃ u ∈ front, inside u = true ∧ v ∈ next u) ∧ v ∉ seen := by
    by_cases hseen : v ∈ seen
    · exact .inl hseen
    · rcases h.closed u hu hin with hfront | hclosed
      · exact .inr ⟨⟨u, hfront, hin, hv⟩, hseen⟩
      · exact .inl (hclosed v hv)
  refine ⟨fun v => ?_, fun v hv => List.mem_append_right _ hv, fun u hu hin => ?_⟩
  · rw [List.mem_append, hfound, h.mem_seen]
    constructor
    · rintro (⟨m, hm, hreaches⟩ | ⟨⟨u, hu, hin, hv⟩, -⟩)
      · exact ⟨m, Nat.le_succ_of_le hm, hreaches⟩
      · obtain ⟨m, hm, hreaches⟩ := (h.mem_seen u).mp (h.front_subset u hu)
        exact ⟨m + 1, Nat.succ_le_succ hm, .step hreaches hin hv⟩
    · rintro ⟨m, hm, hreaches⟩
      rw [← h.mem_seen]
      cases hreaches with
      | start => exact .inl ((h.mem_seen _).mpr ⟨0, Nat.zero_le k, .start⟩)
      | @step m u _ hu hin huv =>
        exact hnext ((h.mem_seen u).mpr ⟨m, Nat.le_of_succ_le_succ hm, hu⟩) hin huv
  · rcases List.mem_append.mp hu with hseen | hnew
    · refine .inr fun v hv => List.mem_append.mpr ?_
      rw [hfound]
      exact hnext hseen hin hv
    · exact .inl hnew

theorem Searched.mem_search (h : Searched next inside start k seen front) (n : Nat) (v : V) :
    v ∈ search next inside n seen front ↔ ∃ m ≤ k + n,
      Reaches (fun u v => v ∈ next u) (fun u => inside u = true) start m v := by
  induction n generalizing k seen front with
  | zero => exact h.mem_seen v
  | succ n ih =>
    rw [search, ih h.step]
    exact exists_congr fun m => by rw [Nat.add_right_comm, Nat.add_assoc]

omit [DecidableEq V] in
theorem searched_start (next : V → List V) (inside : V → Bool) (start : V) :
    Searched next inside start 0 [start] [start] where
  mem_seen v := by
    rw [List.mem_singleton]
    constructor
    · rintro rfl
      exact ⟨0, Nat.le_refl 0, .start⟩
    · rintro ⟨m, hm, hreaches⟩
      cases hreaches with
      | start => rfl
      | step => cases hm
  front_subset _ hv := hv
  closed _ hu _ := .inl hu

/-- The search finds what so many edges lead to. -/
theorem mem_search (next : V → List V) (inside : V → Bool) (start : V) (bound : Nat) (v : V) :
    v ∈ search next inside bound [start] [start] ↔ ∃ m ≤ bound,
      Reaches (fun u v => v ∈ next u) (fun u => inside u = true) start m v := by
  rw [(searched_start next inside start).mem_search, Nat.zero_add]

end Search

end Iams.Lib
