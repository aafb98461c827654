/-
Iams.Scheduler.ShiftTheorems — the origin of time and what `get_events`
keeps.

A departed or canceled event stays in the queue as long as its activity
overlaps the times of the live events (`OverlapsLive`). The loop reads
those times through `Event.__iter__`, which skips the number 0, so what it
finds is the overlap with the live times other than 0. `retained_iff` says
so, and `getEvents_shift_iff` says when moving all times by a constant
makes no difference: when 0 and the number that moves to 0 decide about
the same events.

No `sorry`, no `axiom`, no `native_decide`.
-/
import Iams.Scheduler.Queue
import Mathlib.Algebra.Order.Ring.Defs
import Mathlib.Data.List.ReduceOption

namespace Iams.Scheduler

variable {τ : Type} [LinearOrder τ]

/-! ## The earliest and the latest of some times -/

/-- `pick` finds a member that is extreme for `le` in every list that has
one. -/
structure Picks (pick : List τ → Option τ) (le : τ → τ → Prop) : Prop where
  nil : pick [] = none
  eq_nil : ∀ xs, pick xs = none → xs = []
  extreme : ∀ xs m, pick xs = some m → m ∈ xs ∧ ∀ t ∈ xs, le m t

theorem picks_min : Picks (List.min? (α := τ)) (· ≤ ·) where
  nil := rfl
  eq_nil _ := List.min?_eq_none_iff.mp
  extreme _ _ := List.min?_eq_some_iff.mp

theorem picks_max : Picks (List.max? (α := τ)) (· ≥ ·) where
  nil := rfl
  eq_nil _ := List.max?_eq_none_iff.mp
  extreme _ _ := List.max?_eq_some_iff.mp

/-- What holds of the extreme of the extremes holds of some time, where
every list has one. -/
theorem Picks.exists_reduceTimes_iff {pick : List τ → Option τ} {le : τ → τ → Prop}
    (h : Picks pick le) {P : τ → Prop} (hP : ∀ m t, le m t → P t → P m) (ls : List (List τ)) :
    (∃ m, reduceTimes pick (ls.map pick) = some m ∧ P m) ↔
      (∀ xs ∈ ls, xs ≠ []) ∧ ∃ xs ∈ ls, ∃ t ∈ xs, P t := by
  have hmem (m : τ) : m ∈ (ls.map pick).reduceOption ↔ ∃ xs ∈ ls, pick xs = some m := by
    rw [List.reduceOption_mem_iff, List.mem_map]
  by_cases hnil : [] ∈ ls
  · have hnone : reduceTimes pick (ls.map pick) = none := by
      unfold reduceTimes
      rw [if_pos]
      simpa using Or.inr ⟨[], hnil, h.nil⟩
    rw [hnone]
    constructor
    · rintro ⟨_, hm, -⟩
      cases hm
    · rintro ⟨hne, -⟩
      exact absurd rfl (hne [] hnil)
  · have hne : ∀ xs ∈ ls, xs ≠ [] := fun xs hxs heq => hnil (heq ▸ hxs)
    have hpick : ∀ xs ∈ ls, ∃ m, pick xs = some m := fun xs hxs =>
      Option.ne_none_iff_exists'.mp fun hnone => hne xs hxs (h.eq_nil xs hnone)
    constructor
    · rintro ⟨m, hm, hPm⟩
      refine ⟨hne, ?_⟩
      unfold reduceTimes at hm
      split at hm
      · cases hm
      · obtain ⟨xs, hxs, heq⟩ := (hmem m).mp (h.extreme _ m hm).1
        exact ⟨xs, hxs, m, (h.extreme xs m heq).1, hPm⟩
    · rintro ⟨-, xs, hxs, t, ht, hPt⟩
      obtain ⟨x, hx⟩ := hpick xs hxs
      have hxmem : x ∈ (ls.map pick).reduceOption := (hmem x).mpr ⟨xs, hxs, hx⟩
      obtain ⟨m, hm⟩ := Option.ne_none_iff_exists'.mp fun hnone =>
        List.ne_nil_of_mem hxmem (h.eq_nil _ hnone)
      refine ⟨m, ?_, hP m x ((h.extreme _ m hm).2 x hxmem)
        (hP x t ((h.extreme xs x hx).2 t ht) hPt)⟩
      unfold reduceTimes
      rw [if_neg, hm]
      simp only [List.isEmpty_map, Bool.or_eq_true, List.isEmpty_iff, List.contains_iff_mem,
        List.mem_map, not_or, not_exists, not_and]
      refine ⟨List.ne_nil_of_mem hxs, fun ys hys hnone => ?_⟩
      exact hne ys hys (h.eq_nil ys hnone)

/-! ## Overlaps -/

/-- All recorded and scheduled times of an event. -/
def Event.times {τ : Type} (e : Event τ) : List τ :=
  e.activityStart.toList ++ e.scheduleStart.toList ++ e.scheduleFinish.toList ++
    e.activityFinish.toList

/-- An activity that overlaps the times `near` of some events, each of which
has a time. -/
structure Overlaps (near : List (List τ)) (e : Event τ) : Prop where
  timed : ∀ times ∈ near, times ≠ []
  finish : ∃ f, e.activityFinish = some f ∧ ∃ times ∈ near, ∃ t ∈ times, t < f
  start : ∃ s, e.activityStart = some s ∧ ∃ times ∈ near, ∃ t ∈ times, s < t

/-- The times other than `z`. -/
def without (z : τ) (near : List (List τ)) : List (List τ) := near.map (List.filter (· ≠ z))

/-- Some event has no other time than `z`, or only `z` is before the end of
the activity, or only `z` is after its start. -/
def Decides (near : List (List τ)) (e : Event τ) (z : τ) : Prop :=
  (∃ times ∈ near, ∀ t ∈ times, t = z) ∨
    (∀ f, e.activityFinish = some f → ∀ times ∈ near, ∀ t ∈ times, t < f → t = z) ∨
    ∀ s, e.activityStart = some s → ∀ times ∈ near, ∀ t ∈ times, s < t → t = z

/-- An activity overlaps the times other than `z` if and only if it overlaps
all of them and `z` does not decide about that. -/
theorem overlaps_without_iff (near : List (List τ)) (e : Event τ) (z : τ) :
    Overlaps (without z near) e ↔ Overlaps near e ∧ ¬ Decides near e z := by
  have hexists (P : τ → Prop) : (∃ times ∈ without z near, ∃ t ∈ times, P t) ↔
      ∃ times ∈ near, ∃ t ∈ times, t ≠ z ∧ P t := by
    simp [without, and_assoc]
  have htimed : (∀ times ∈ without z near, times ≠ []) ↔
      ∀ times ∈ near, ∃ t ∈ times, t ≠ z := by
    simp [without]
  constructor
  · rintro ⟨hne, ⟨f, hf, hfinish⟩, s, hs, hstart⟩
    have hne := htimed.mp hne
    obtain ⟨xs, hxs, x, hx, hxz, hxf⟩ := (hexists (· < f)).mp hfinish
    obtain ⟨ys, hys, y, hy, hyz, hys'⟩ := (hexists (s < ·)).mp hstart
    refine ⟨⟨fun times htimes => ?_, ⟨f, hf, xs, hxs, x, hx, hxf⟩,
      s, hs, ys, hys, y, hy, hys'⟩, ?_⟩
    · obtain ⟨t, ht, -⟩ := hne times htimes
      exact List.ne_nil_of_mem ht
    · rintro (⟨times, htimes, hall⟩ | hall | hall)
      · obtain ⟨t, ht, htz⟩ := hne times htimes
        exact htz (hall t ht)
      · exact hxz (hall f hf xs hxs x hx hxf)
      · exact hyz (hall s hs ys hys y hy hys')
  · rintro ⟨⟨-, ⟨f, hf, -⟩, s, hs, -⟩, hdecides⟩
    simp only [Decides, hf, hs, Option.some.injEq, forall_eq', not_or, not_exists, not_and,
      not_forall] at hdecides
    obtain ⟨hne, ⟨xs, hxs, x, hx, hxf, hxz⟩, ys, hys, y, hy, hys', hyz⟩ := hdecides
    refine ⟨htimed.mpr fun times htimes => ?_, ⟨f, hf, ?_⟩, s, hs, ?_⟩
    · obtain ⟨t, ht, htz⟩ := hne times htimes
      exact ⟨t, ht, htz⟩
    · exact (hexists (· < f)).mpr ⟨xs, hxs, x, hx, hxz, hxf⟩
    · exact (hexists (s < ·)).mpr ⟨ys, hys, y, hy, hyz, hys'⟩

section Queue

variable (obj : Nat → Event τ) (events : List Nat)

/-- The times of each live event. -/
def liveTimes {τ : Type} (obj : Nat → Event τ) (events : List Nat) : List (List τ) :=
  (live obj events).map fun u => (obj u).times

/-- All events of the queue have numeric times. -/
def NumericTimes {τ : Type} (obj : Nat → Event τ) (events : List Nat) : Prop :=
  ∀ u ∈ events, (obj u).useDatetime = false

theorem less_eq_true {a b : Option τ} :
    ETX.less a b = true ↔ ∃ x, a = some x ∧ ∃ y, b = some y ∧ x < y := by
  cases a <;> cases b <;> simp [ETX.less]

variable [Ring τ] {obj events}

/-- `__iter__` skips the number 0. -/
theorem Event.iter_eq {e : Event τ} (h : e.useDatetime = false) :
    e.iter = e.times.filter (· ≠ 0) := by
  have htruthy (t : Option τ) : e.truthy t = t.toList.filter (· ≠ 0) := by
    cases t with
    | none => rfl
    | some t => by_cases ht : t = 0 <;> simp [truthy, h, ht]
  simp only [iter, times, htruthy, List.filter_append]

/-- `get_events` keeps a departed event if it overlaps the live times that
are not 0. -/
theorem retained_iff (h : NumericTimes obj events) (e : Event τ) :
    retained (timeMin obj events) (timeMax obj events) e = true ↔
      Overlaps (without 0 (liveTimes obj events)) e := by
  have hiter (pick : List τ → Option τ) : ((live obj events).map fun u => pick (obj u).iter) =
      (without 0 (liveTimes obj events)).map pick := by
    rw [without, liveTimes, List.map_map, List.map_map]
    refine List.map_congr_left fun u hu => ?_
    rw [Event.iter_eq (h u (List.mem_of_mem_filter hu))]
    rfl
  have hmin (f : τ) := picks_min.exists_reduceTimes_iff (P := (· < f))
    (fun _ _ hle hlt => lt_of_le_of_lt hle hlt) (without 0 (liveTimes obj events))
  have hmax (s : τ) := picks_max.exists_reduceTimes_iff (P := (s < ·))
    (fun _ _ hle hlt => lt_of_lt_of_le hlt hle) (without 0 (liveTimes obj events))
  unfold retained timeMin timeMax
  rw [hiter, hiter, Bool.and_eq_true, less_eq_true, less_eq_true]
  constructor
  · rintro ⟨⟨m, hm, f, hf, hlt⟩, s, hs, M, hM, hgt⟩
    obtain ⟨htimed, hfinish⟩ := (hmin f).mp ⟨m, hm, hlt⟩
    exact ⟨htimed, ⟨f, hf, hfinish⟩, ⟨s, hs, ((hmax s).mp ⟨M, hM, hgt⟩).2⟩⟩
  · rintro ⟨htimed, ⟨f, hf, hfinish⟩, s, hs, hstart⟩
    obtain ⟨m, hm, hlt⟩ := (hmin f).mpr ⟨htimed, hfinish⟩
    obtain ⟨M, hM, hgt⟩ := (hmax s).mpr ⟨htimed, hstart⟩
    exact ⟨⟨m, hm, f, hf, hlt⟩, s, hs, M, hM, hgt⟩

/-! ## Another origin of time -/

/-- The event with all recorded and scheduled times moved by `c`. -/
def Event.shift {τ : Type} [Add τ] (c : τ) (e : Event τ) : Event τ :=
  { e with
    activityStart := e.activityStart.map (· + c)
    scheduleStart := e.scheduleStart.map (· + c)
    scheduleFinish := e.scheduleFinish.map (· + c)
    activityFinish := e.activityFinish.map (· + c) }

/-- All events moved by `c`. -/
def shiftAll {τ : Type} [Add τ] (c : τ) (obj : Nat → Event τ) (u : Nat) : Event τ :=
  (obj u).shift c

omit [LinearOrder τ] in
theorem Event.times_shift (c : τ) (e : Event τ) : (e.shift c).times = e.times.map (· + c) := by
  simp [times, shift, Option.toList_map]

omit [LinearOrder τ] in
/-- Which events are live does not depend on the origin of time. -/
theorem live_shiftAll (c : τ) (us : List Nat) : live (shiftAll c obj) us = live obj us := rfl

omit [LinearOrder τ] in
theorem gone_shiftAll (c : τ) (us : List Nat) : gone (shiftAll c obj) us = gone obj us := rfl

/-- Once all times have been moved by `c`, the number 0 is what `-c` was. -/
theorem without_shiftAll (c : τ) : without 0 (liveTimes (shiftAll c obj) events) =
    (without (-c) (liveTimes obj events)).map (List.map (· + c)) := by
  unfold without liveTimes
  rw [live_shiftAll, List.map_map, List.map_map, List.map_map]
  refine List.map_congr_left fun u _ => ?_
  have htimes : (shiftAll c obj u).times = (obj u).times.map (· + c) := Event.times_shift c (obj u)
  simp only [Function.comp_def, htimes, List.filter_map, ne_eq, eq_neg_iff_add_eq_zero]

section Ordered

variable [IsStrictOrderedRing τ]

/-- Overlaps do not depend on the origin of time. -/
theorem overlaps_shift (c : τ) (near : List (List τ)) (e : Event τ) :
    Overlaps (near.map (List.map (· + c))) (e.shift c) ↔ Overlaps near e := by
  constructor
  · rintro ⟨htimed, ⟨f', hf, hfinish⟩, s', hs, hstart⟩
    obtain ⟨f, hf', rfl⟩ := Option.map_eq_some_iff.mp hf
    obtain ⟨s, hs', rfl⟩ := Option.map_eq_some_iff.mp hs
    refine ⟨?_, ⟨f, hf', ?_⟩, s, hs', ?_⟩
    · simpa using htimed
    · simpa using hfinish
    · simpa using hstart
  · rintro ⟨htimed, ⟨f, hf, hfinish⟩, s, hs, hstart⟩
    refine ⟨?_, ⟨f + c, Option.map_eq_some_iff.mpr ⟨f, hf, rfl⟩, ?_⟩, s + c,
      Option.map_eq_some_iff.mpr ⟨s, hs, rfl⟩, ?_⟩
    · simpa using htimed
    · simpa using hfinish
    · simpa using hstart

/-- `get_events` keeps a departed event after the move if it overlaps the
live times other than `-c`. -/
theorem retained_shift_iff (h : NumericTimes obj events) (c : τ) (u : Nat) :
    retained (timeMin (shiftAll c obj) events) (timeMax (shiftAll c obj) events)
        (shiftAll c obj u) = true ↔
      Overlaps (without (-c) (liveTimes obj events)) (obj u) := by
  have hshift : NumericTimes (shiftAll c obj) events := h
  rw [retained_iff hshift, without_shiftAll]
  exact overlaps_shift c _ (obj u)

/-- Moving the origin of time changes nothing in what `get_events` yields
and removes if and only if, for every departed event that overlaps the live
ones, 0 decides about the overlap exactly if `-c` does. -/
theorem getEvents_shift_iff (h : NumericTimes obj events) (new : List Nat) (c : τ) :
    getEvents (shiftAll c obj) events new = getEvents obj events new ↔
      ∀ u ∈ gone obj events, Overlaps (liveTimes obj events) (obj u) →
        (Decides (liveTimes obj events) (obj u) 0 ↔
          Decides (liveTimes obj events) (obj u) (-c)) := by
  have haction (u : Nat) : goneAction (shiftAll c obj) (timeMin (shiftAll c obj) events)
        (timeMax (shiftAll c obj) events) u =
      goneAction obj (timeMin obj events) (timeMax obj events) u ↔
        (Overlaps (without (-c) (liveTimes obj events)) (obj u) ↔
          Overlaps (without 0 (liveTimes obj events)) (obj u)) := by
    rw [← retained_shift_iff h, ← retained_iff h]
    unfold goneAction
    split <;> split <;> simp_all
  unfold getEvents
  rw [live_shiftAll, gone_shiftAll, List.append_left_inj, List.append_right_inj,
    List.map_inj_left]
  refine forall₂_congr fun u _ => ?_
  rw [haction, overlaps_without_iff, overlaps_without_iff, and_congr_right_iff, not_iff_not]
  exact imp_congr_right fun _ => Iff.comm

end Ordered

end Queue

/-- An event that is scheduled from 0 to 5, and one that came at 0 and left
at 3. -/
def originObj (u : Nat) : Event Int :=
  { duration := 3, uid := u
    state := if u = 1 then .scheduled else .departed
    eta := .fields (some 0) (some 0) (some 0)
    etd := .fields none none none
    scheduleStart := some 0
    scheduleFinish := if u = 1 then some 5 else some 3
    activityStart := if u = 1 then none else some 0
    activityFinish := if u = 1 then none else some 3
    useDatetime := false, canceled := false }

/-- One second later it does not matter any more where the times are
counted from; at the origin it does. -/
theorem getEvents_shift_iff_origin :
    getEvents (shiftAll 7 (shiftAll 1 originObj)) [1, 2] []
        = getEvents (shiftAll 1 originObj) [1, 2] [] ∧
      getEvents (shiftAll 1 originObj) [1, 2] [] ≠ getEvents originObj [1, 2] [] := by
  -- no time decides that is not one of the event scheduled
  have hother (c z : Int) (hz : z ≠ c ∧ z ≠ c + 5) :
      ¬ Decides [[c, c + 5]] ((originObj 2).shift c) z := by
    rintro (⟨times, htimes, hall⟩ | hfinish | hstart)
    · rw [List.mem_singleton.mp htimes] at hall
      exact hz.1 (hall c (by simp)).symm
    · exact hz.1 (hfinish (3 + c) rfl _ List.mem_cons_self c (by simp) (by omega)).symm
    · exact hz.2 (hstart (0 + c) rfl _ List.mem_cons_self (c + 5) (by simp) (by omega)).symm
  constructor
  · refine (getEvents_shift_iff (fun _ _ => rfl) [] 7).mpr fun u hu _ => ?_
    rw [List.mem_singleton.mp (show u ∈ [2] from hu)]
    exact iff_of_false (hother 1 0 (by decide)) (hother 1 (-7) (by decide))
  · intro h
    have hdecides := (getEvents_shift_iff (fun _ _ => rfl) [] 1).mp h 2 (by decide)
      ⟨by decide, ⟨3, rfl, [0, 5], by decide, 0, by decide, by decide⟩,
        0, rfl, [0, 5], by decide, 5, by decide, by decide⟩
    refine hother 0 (-1) (by decide) (hdecides.mp (Or.inr (Or.inl ?_)))
    rintro _ ⟨⟩
    decide

/-- The event that left is removed when the other one starts at 0, and kept
when everything happens one second later. -/
theorem origin_matters :
    getEvents originObj [1, 2] [] = [.yield 1, .remove 2] ∧
      getEvents (shiftAll 1 originObj) [1, 2] [] = [.yield 1, .yield 2] ∧
      ¬ ∀ (obj : Nat → Event Int) (events new : List Nat) (c : Int), NumericTimes obj events →
        getEvents (shiftAll c obj) events new = getEvents obj events new := by
  refine ⟨by decide, by decide, fun h => ?_⟩
  exact absurd (h originObj [1, 2] [] 1 fun _ _ => rfl) (by decide)

end Iams.Scheduler
