/-
Iams.Scheduler.AdmissionTheorems — which legitimate schedules the model
admits.

`Legitimate` is a schedule that the events' windows, the machine and the
buffers allow. The model asks for more: every event arrives at the start
of its window and departs at the start of its departure window, the
output buffer has the capacity of the input buffer, and the queue keeps
the order in which the events compare. `Punctual` is a schedule of that
kind, and `admitted_iff` says that the model asks for nothing else, and
which legitimate schedules are punctual once they are moved to the starts
of their windows (`Accommodated`), for times that a float holds.
`turned_away` is a legitimate schedule for a model without any solution.

No `sorry`, no `axiom`, no `native_decide`.
-/
import Iams.Scheduler.SoundnessTheorems
import Iams.Scheduler.Window

namespace Iams.Scheduler

open Iams.Lib

namespace World

/-- A schedule for planned events that respects their windows, inside the
window of the model. -/
structure Legitimate (cfg : BufferScheduler Int) (S : Sorter Nat) (w : World Int)
    (new : List Nat) (now : Option Int) (p : Plan) : Prop where
  inside : ∀ u ∈ (w.problem cfg S new now).keys,
    ∀ t ∈ [(p u).eta, (p u).start, (p u).finish, (p u).etd],
      (w.problem cfg S new now).lo ≤ t ∧ t ≤ (w.problem cfg S new now).hi
  arrival : ∀ u ∈ (w.problem cfg S new now).keys,
    (∀ low, (w.obj u).eta.constraintLow = some low → low ≤ (p u).eta) ∧
      ∀ high, (w.obj u).eta.constraintHigh = some high →
        (p u).eta ≤ high ∧ high ≤ (p u).start
  lasting : ∀ u ∈ (w.problem cfg S new now).keys,
    (p u).finish = (p u).start + (w.obj u).duration
  departure : ∀ u ∈ (w.problem cfg S new now).keys, (p u).finish ≤ (p u).etd ∧
    (∀ low, (w.obj u).etd.constraintLow = some low → (p u).finish ≤ low ∧ low ≤ (p u).etd) ∧
      ∀ high, (w.obj u).etd.constraintHigh = some high → (p u).etd ≤ high
  machine : ∀ u ∈ (w.problem cfg S new now).keys, ∀ v ∈ (w.problem cfg S new now).keys,
    u ≠ v → ∀ t, ¬ ((p u).onMachine t = true ∧ (p v).onMachine t = true)
  input : ∀ t, ((w.problem cfg S new now).inputLoad p t : Int) ≤ cfg.bufferInput.first
  output : ∀ t, ((w.problem cfg S new now).outputLoad p t : Int) ≤ cfg.bufferOutput.first
  order : ∀ u ∈ (w.problem cfg S new now).keys, ∀ v ∈ (w.problem cfg S new now).keys,
    (p u).eta < (p v).eta → (p u).start ≤ (p v).start

/-- The schedule with every arrival and every departure moved to the start
of its window; a departure window that is open above stays as it is. -/
def early (w : World Int) (p : Plan) : Plan := fun u =>
  { p u with
    eta := (w.obj u).eta.constraintLow.getD (p u).eta
    etd := match (w.obj u).etd.constraintHigh with
      | some _ => (w.obj u).etd.constraintLow.getD (p u).etd
      | none => (p u).etd }

/-- A schedule of the kind the model asks for. -/
structure Punctual (cfg : BufferScheduler Int) (S : Sorter Nat) (w : World Int)
    (new : List Nat) (now : Option Int) (q : Plan) : Prop where
  /-- No departure window has an upper side only. -/
  lower : ∀ u ∈ (w.problem cfg S new now).keys, (w.obj u).EtdOk
  inside : ∀ u ∈ (w.problem cfg S new now).keys,
    ∀ t ∈ [(q u).eta, (q u).start, (q u).finish, (q u).etd],
      (w.problem cfg S new now).lo ≤ t ∧ t ≤ (w.problem cfg S new now).hi
  /-- Every event arrives at the start of its window. -/
  arrival : ∀ u ∈ (w.problem cfg S new now).keys,
    (w.obj u).eta.constraintLow = some (q u).eta ∧ (q u).eta ≤ (q u).start
  lasting : ∀ u ∈ (w.problem cfg S new now).keys,
    (q u).finish = (q u).start + (w.obj u).duration ∧ 0 ≤ (w.obj u).duration
  /-- Every event departs at the start of a window that is closed
  above. -/
  departure : ∀ u ∈ (w.problem cfg S new now).keys, (q u).finish ≤ (q u).etd ∧
    (∀ low, (w.obj u).etd.constraintLow = some low → (q u).finish ≤ low ∧ low ≤ (q u).etd) ∧
      ((w.obj u).etd.constraintHigh.isSome → (w.obj u).etd.constraintLow = some (q u).etd)
  machine : ∀ u ∈ (w.problem cfg S new now).keys, ∀ v ∈ (w.problem cfg S new now).keys,
    u ≠ v → ∀ t, ¬ ((q u).onMachine t = true ∧ (q v).onMachine t = true)
  input : ∀ t, ((w.problem cfg S new now).inputLoad q t : Int) ≤ cfg.bufferInput.first
  /-- The output buffer is never fuller than the input buffer may be. -/
  output : ∀ t, ((w.problem cfg S new now).outputLoad q t : Int) ≤ cfg.bufferInput.first
  /-- The events arrive and start in the order in which they compare. -/
  order : (w.problem cfg S new now).InOrder q

/-- What a legitimate schedule needs beyond that to become punctual. -/
structure Accommodated (cfg : BufferScheduler Int) (S : Sorter Nat) (w : World Int)
    (new : List Nat) (now : Option Int) (p : Plan) : Prop where
  lower : ∀ u ∈ (w.problem cfg S new now).keys, (w.obj u).EtdOk
  lasting : ∀ u ∈ (w.problem cfg S new now).keys, 0 ≤ (w.obj u).duration
  /-- The input buffer has room for events that arrive at the start of
  their windows. -/
  input : ∀ t, ((w.problem cfg S new now).inputLoad (w.early p) t : Int)
    ≤ cfg.bufferInput.first
  output : ∀ t, ((w.problem cfg S new now).outputLoad (w.early p) t : Int)
    ≤ cfg.bufferInput.first
  order : (w.problem cfg S new now).InOrder (w.early p)

variable {cfg : BufferScheduler Int} {S : Sorter Nat} {w : World Int}
variable {new : List Nat} {now : Option Int} {p q : Plan}

/-! ## The model asks for punctual schedules -/

/-- The stage of a planned event. -/
def plannedStage (e : Event Int) : Stage :=
  .waiting (e.eta.constraintLow, e.eta.constraintLow) e.etdBounds e.duration

/-- A planned event that has a stage has this one. -/
theorem hasStage_planned {e : Event Int} {st : Stage}
    (hs : e.state = .new ∨ e.state = .scheduled) (hst : e.HasStage st) :
    e.EtdOk ∧ st = plannedStage e := by
  cases hst with
  | waiting _ hok => exact ⟨hok, rfl⟩
  | arrived h | started h | finished h | departed h => simp [h] at hs

/-- What the stage of a planned event admits, in terms of its windows. -/
theorem admits_planned {e : Event Int} {lo hi : Int} {s : Slot} (hnum : e.Numeric)
    (hok : e.EtdOk) (hcov : (plannedStage e).CoveredBy lo hi) :
    (plannedStage e).Admits lo hi s ↔
      (∀ t ∈ [s.eta, s.start, s.finish, s.etd], lo ≤ t ∧ t ≤ hi) ∧
      (e.eta.constraintLow = some s.eta ∧ s.eta ≤ s.start) ∧
      (s.finish = s.start + e.duration ∧ 0 ≤ e.duration) ∧
      s.finish ≤ s.etd ∧
      (∀ low, e.etd.constraintLow = some low → s.finish ≤ low ∧ low ≤ s.etd) ∧
      (e.etd.constraintHigh.isSome → e.etd.constraintLow = some s.etd) := by
  obtain ⟨low, -, hlow, -⟩ := hnum.window
  have hlo : lo ≤ low := hcov.low low hlow
  have hetd (h : (plannedStage e).Admits lo hi s) : s.etd ≤ hi := h.etd_le hcov
  simp only [List.mem_cons, List.not_mem_nil, or_false, forall_eq_or_imp, forall_eq, hlow,
    Option.some.injEq]
  unfold Event.EtdOk at hok
  simp only [plannedStage, Stage.Admits, Bounds.Within, Event.etdBounds, hlow,
    Option.getD_some] at hetd ⊢
  cases hl : e.etd.constraintLow with
  | none =>
    cases hh : e.etd.constraintHigh with
    | none =>
      simp only [hl, hh, Option.bind_none, Option.getD_none] at hetd ⊢
      simp
      omega
    | some b => simp [hl, hh] at hok
  | some a =>
    cases hh : e.etd.constraintHigh with
    | none =>
      simp only [hl, hh, Option.bind_none, Option.getD_none, Option.getD_some] at hetd ⊢
      simp
      omega
    | some b =>
      simp only [hl, hh, Option.bind_some, Option.getD_some] at hetd ⊢
      simp
      omega

/-- The plans of the model are the punctual schedules. -/
theorem feasible_iff_punctual (hr : cfg.resolution = 1) (hw : w.Integer) (hexact : w.Exact new)
    (hplanned : ∀ u ∈ w.concerned new, (w.obj u).state = .new ∨ (w.obj u).state = .scheduled) :
    (w.Readable cfg new now ∧ (w.problem cfg S new now).Feasible q) ↔
      w.Punctual cfg S new now q := by
  have hconcerned {u : Nat} (hu : u ∈ (w.problem cfg S new now).keys) :
      u ∈ w.concerned new := mem_keysOf.mp hu
  have hstage {u : Nat} (hu : u ∈ (w.problem cfg S new now).keys) (hok : (w.obj u).EtdOk) :
      (w.problem cfg S new now).stage u = plannedStage (w.obj u) :=
    (Event.HasStage.waiting (hplanned u (hconcerned hu)) hok).stageD_eq hr (hw.numeric u)
      (hexact u (hconcerned hu))
  have hadmits {u : Nat} (hu : u ∈ (w.problem cfg S new now).keys) (hok : (w.obj u).EtdOk) :=
    admits_planned (s := q u) (hw.numeric u) hok
      (hstage hu hok ▸ problem_covers cfg S w new now hu)
  constructor
  · rintro ⟨hread, hfeasible⟩
    have hok : ∀ u ∈ (w.problem cfg S new now).keys, (w.obj u).EtdOk := fun u hu =>
      (hasStage_planned (hplanned u (hconcerned hu)) (hw.hasStage hr hexact hread hu)).1
    have hslot : ∀ u ∈ (w.problem cfg S new now).keys, _ := fun u hu =>
      (hadmits hu (hok u hu)).mp (hstage hu (hok u hu) ▸ hfeasible.admits u hu)
    exact {
      lower := hok
      inside := fun u hu => (hslot u hu).1
      arrival := fun u hu => (hslot u hu).2.1
      lasting := fun u hu => (hslot u hu).2.2.1
      departure := fun u hu => (hslot u hu).2.2.2
      machine := fun u hu v hv huv t => hfeasible.disjoint hu hv huv t
      input := hfeasible.input
      output := hfeasible.output
      order := hfeasible.queue }
  · intro h
    refine ⟨fun u hu => ?_, fun u hu => ?_, h.order, h.input, fun t => ?_, h.output⟩
    · have hok := h.lower u (mem_keysOf.mpr hu)
      exact (Event.HasStage.waiting (hplanned u hu) hok).readable hr (hw.numeric u) (hexact u hu)
    · rw [hstage hu (h.lower u hu)]
      exact (hadmits hu (h.lower u hu)).mpr ⟨h.inside u hu, h.arrival u hu, h.lasting u hu,
        h.departure u hu⟩
    · exact Cp.count_le_one_of_apart (nodup_keysOf _)
        fun a ha b hb hab => h.machine a ha b hb hab t

/-- The times of one event, moved to the starts of its windows. -/
theorem Legitimate.early_slot (h : w.Legitimate cfg S new now p) {u : Nat}
    (hu : u ∈ (w.problem cfg S new now).keys) (hnum : (w.obj u).Numeric)
    (hok : (w.obj u).EtdOk)
    (hcov : (plannedStage (w.obj u)).CoveredBy (w.problem cfg S new now).lo
        (w.problem cfg S new now).hi) (hdur : 0 ≤ (w.obj u).duration) :
    (plannedStage (w.obj u)).Admits (w.problem cfg S new now).lo
      (w.problem cfg S new now).hi (w.early p u) := by
  obtain ⟨low, high, hlow, hhigh, hle⟩ := hnum.window
  obtain ⟨hetaHigh, hstart⟩ := (h.arrival u hu).2 high hhigh
  have hlast := h.lasting u hu
  obtain ⟨hfinish, hetdLow, hetdHigh⟩ := h.departure u hu
  have hinside := h.inside u hu
  have hlo : (w.problem cfg S new now).lo ≤ low := hcov.low low hlow
  refine (admits_planned hnum hok hcov).mpr ?_
  simp only [List.mem_cons, List.not_mem_nil, or_false, forall_eq_or_imp, forall_eq]
    at hinside ⊢
  simp only [early, hlow, Option.getD_some]
  unfold Event.EtdOk at hok
  cases hl : (w.obj u).etd.constraintLow with
  | none =>
    cases hh : (w.obj u).etd.constraintHigh with
    | none =>
      simp
      omega
    | some b => simp [hl, hh] at hok
  | some a =>
    have := hetdLow a hl
    cases (w.obj u).etd.constraintHigh <;> simp <;> omega

/-- Moved to the starts of its windows, a legitimate schedule is punctual
exactly if it is accommodated. -/
theorem Legitimate.punctual_iff (hr : cfg.resolution = 1) (hw : w.Integer) (hexact : w.Exact new)
    (hplanned : ∀ u ∈ w.concerned new, (w.obj u).state = .new ∨ (w.obj u).state = .scheduled)
    (h : w.Legitimate cfg S new now p) :
    w.Punctual cfg S new now (w.early p) ↔ w.Accommodated cfg S new now p := by
  constructor
  · intro hq
    exact ⟨hq.lower, fun u hu => (hq.lasting u hu).2, hq.input, hq.output, hq.order⟩
  · intro hacc
    have hstage : ∀ u ∈ (w.problem cfg S new now).keys,
        (w.problem cfg S new now).stage u = plannedStage (w.obj u) := fun u hu =>
      (Event.HasStage.waiting (hplanned u (mem_keysOf.mp hu)) (hacc.lower u hu)).stageD_eq hr
        (hw.numeric u) (hexact u (mem_keysOf.mp hu))
    have hslot : ∀ u ∈ (w.problem cfg S new now).keys, _ := fun u hu =>
      have hcov := hstage u hu ▸ problem_covers cfg S w new now hu
      (admits_planned (hw.numeric u) (hacc.lower u hu) hcov).mp
        (h.early_slot hu (hw.numeric u) (hacc.lower u hu) hcov (hacc.lasting u hu))
    exact {
      lower := hacc.lower
      inside := fun u hu => (hslot u hu).1
      arrival := fun u hu => (hslot u hu).2.1
      lasting := fun u hu => (hslot u hu).2.2.1
      departure := fun u hu => (hslot u hu).2.2.2
      machine := h.machine
      input := hacc.input
      output := hacc.output
      order := hacc.order }

/-- A set of planned events, with times that a float holds, has a model
with a solution if and only if it has a punctual schedule; a legitimate
schedule yields one by moving to the starts of its windows if and only if
it is accommodated. -/
theorem admitted_iff (hr : cfg.resolution = 1) (hw : w.Integer) (hexact : w.Exact new)
    (hplanned : ∀ u ∈ w.concerned new, (w.obj u).state = .new ∨ (w.obj u).state = .scheduled) :
    ((w.Readable cfg new now ∧ (w.model cfg S new now).Satisfiable) ↔
      ∃ q, w.Punctual cfg S new now q) ∧
    ∀ p, w.Legitimate cfg S new now p →
      (w.Punctual cfg S new now (w.early p) ↔ w.Accommodated cfg S new now p) := by
  refine ⟨⟨?_, ?_⟩, fun p hp => hp.punctual_iff hr hw hexact hplanned⟩
  · rintro ⟨hread, hsat⟩
    obtain ⟨q, hq⟩ := (Problem.satisfiable_iff (asks hread)).mp hsat
    exact ⟨q, (feasible_iff_punctual hr hw hexact hplanned).mp ⟨hread, hq⟩⟩
  · rintro ⟨q, hq⟩
    obtain ⟨hread, hfeasible⟩ := (feasible_iff_punctual hr hw hexact hplanned).mpr hq
    exact ⟨hread, (Problem.satisfiable_iff (asks hread)).mpr ⟨q, hfeasible⟩⟩

/-- Three events of length 1 that may arrive late, with one place in the
input buffer. -/
def windowed : World Int :=
  let cfg := BufferScheduler.single 20 1 1
  let create (w : World Int) (high : Int) : World Int :=
    w.step cfg (.insertion Nat)
      (.create { duration := 1, eta := .list [some 0, some high] })
  create (create (create (init cfg) 10) 11) 12

theorem windowed_reached : windowed.ReachedInteger (.single 20 1 1) (.insertion Nat) :=
  ((ReachedInteger.init.step _ (by decide) (by exact ⟨rfl, trivial, trivial⟩)).step _
    (by decide) (by exact ⟨rfl, trivial, trivial⟩)).step _ (by decide)
    (by exact ⟨rfl, trivial, trivial⟩)

/-- Each event arrives at the end of its window and is processed at
once. -/
def lateArrivals : Plan := fun u => ⟨9 + u, 9 + u, 10 + u, 10 + u⟩

theorem admitted_iff_windowed :
    ((windowed.Readable (.single 20 1 1) [1, 2] none ∧
        (windowed.model (.single 20 1 1) (.insertion Nat) [1, 2] none).Satisfiable) ↔
      ∃ q, windowed.Punctual (.single 20 1 1) (.insertion Nat) [1, 2] none q) ∧
    ∀ p, windowed.Legitimate (.single 20 1 1) (.insertion Nat) [1, 2] none p →
      (windowed.Punctual (.single 20 1 1) (.insertion Nat) [1, 2] none (windowed.early p) ↔
        windowed.Accommodated (.single 20 1 1) (.insertion Nat) [1, 2] none p) :=
  admitted_iff rfl (integer_of_reached windowed_reached) (by decide) (by decide)

theorem lateArrivals_legitimate :
    windowed.Legitimate (.single 20 1 1) (.insertion Nat) [1, 2, 3] none lateArrivals where
  inside := by decide
  arrival := by
    intro u hu
    have hu : u ∈ [1, 2, 3] := hu
    simp only [List.mem_cons, List.not_mem_nil, or_false] at hu
    rcases hu with rfl | rfl | rfl <;> constructor <;> rintro _ ⟨⟩ <;> decide
  lasting := by decide
  departure := by
    intro u hu
    have hu : u ∈ [1, 2, 3] := hu
    simp only [List.mem_cons, List.not_mem_nil, or_false] at hu
    rcases hu with rfl | rfl | rfl <;> refine ⟨by decide, ?_, ?_⟩ <;> rintro _ ⟨⟩
  machine := by
    intro u _ v _ huv t
    simp only [Slot.onMachine, decide_eq_true_eq]
    simp only [lateArrivals]
    omega
  input := by
    intro t
    have hzero : (windowed.problem (.single 20 1 1) (.insertion Nat) [1, 2, 3] none).inputLoad
        lateArrivals t = 0 :=
      List.countP_eq_zero.mpr fun u _ => by
        simp only [Slot.inInput, Bool.and_eq_true, decide_eq_true_eq]
        simp only [lateArrivals]
        omega
    rw [hzero]
    decide
  output := by
    intro t
    have hzero : (windowed.problem (.single 20 1 1) (.insertion Nat) [1, 2, 3] none).outputLoad
        lateArrivals t = 0 :=
      List.countP_eq_zero.mpr fun u _ => by
        simp only [Slot.inOutput, decide_eq_true_eq]
        simp only [lateArrivals]
        omega
    rw [hzero]
    decide
  order := by
    intro u _ v _
    simp only [lateArrivals]
    omega

/-- The model has all three events arrive at 0, where only one of them
may wait. -/
theorem turned_away :
    windowed.ReachedInteger (.single 20 1 1) (.insertion Nat) ∧
      (∀ u ∈ windowed.concerned [1, 2, 3], (windowed.obj u).state = .new) ∧
      windowed.Legitimate (.single 20 1 1) (.insertion Nat) [1, 2, 3] none lateArrivals ∧
      ¬ (windowed.model (.single 20 1 1) (.insertion Nat) [1, 2, 3] none).Satisfiable := by
  refine ⟨windowed_reached, by decide, lateArrivals_legitimate, ?_⟩
  rintro ⟨s, hs⟩
  have hread : windowed.Readable (.single 20 1 1) [1, 2, 3] none := by
    intro u hu
    have hu : u ∈ [1, 2, 3] := hu
    simp only [List.mem_cons, List.not_mem_nil, or_false] at hu
    rcases hu with rfl | rfl | rfl <;> exact ⟨_, rfl⟩
  have hfeasible := Problem.feasible_of_sat (asks hread) hs
  set q := planOf (windowed.problem (.single 20 1 1) (.insertion Nat) [1, 2, 3] none).lo s
  have hadmits (u : Nat) (hu : u ∈ [1, 2, 3]) :
      Stage.Admits 0 20 (q u) (.waiting (some 0, some 0) (none, none) 1) := by
    have h := hfeasible.admits u hu
    simp only [List.mem_cons, List.not_mem_nil, or_false] at hu
    rcases hu with rfl | rfl | rfl <;> exact h
  have hinput (u v : Nat) (hu : u ∈ [1, 2, 3]) (hv : v ∈ [1, 2, 3]) (huv : u ≠ v) :
      ¬ ((q u).inInput 0 = true ∧ (q v).inInput 0 = true) := by
    have hload : Problem.inputLoad _ q 0 ≤ 1 := Int.ofNat_le.mp (hfeasible.input 0)
    have hapart := Cp.apart_of_count_le_one hload hu hv huv
    simp only [List.mem_cons, List.not_mem_nil, or_false] at hu hv
    rcases hu with rfl | rfl | rfl <;> rcases hv with rfl | rfl | rfl <;> exact hapart
  have hmachine (u v : Nat) (hu : u ∈ [1, 2, 3]) (hv : v ∈ [1, 2, 3]) (huv : u ≠ v) :=
    hfeasible.disjoint hu hv huv 0
  have h₁ := hadmits 1 (by decide)
  have h₂ := hadmits 2 (by decide)
  have h₃ := hadmits 3 (by decide)
  have hi₁ := hinput 1 2 (by decide) (by decide) (by decide)
  have hi₂ := hinput 1 3 (by decide) (by decide) (by decide)
  have hi₃ := hinput 2 3 (by decide) (by decide) (by decide)
  have hm₁ := hmachine 1 2 (by decide) (by decide) (by decide)
  have hm₂ := hmachine 1 3 (by decide) (by decide) (by decide)
  have hm₃ := hmachine 2 3 (by decide) (by decide) (by decide)
  simp [Stage.Admits, Bounds.Within, Slot.onMachine, Slot.inInput] at *
  omega

end World

end Iams.Scheduler
