/-
Iams.Scheduler.MakespanTheorems — which events the solver's window covers.

`get_event_variables` takes the end of the window from the upper bounds of
the events, and the beginning from the lower ones. An event with one bound
only may lie past the other end. `Collected.room` is what the horizon adds
on the two sides, `Begins` and `Reaches` compare a time with the collected
bounds and that room, and `begins_iff` and `reaches_iff` say that these
are the two sides of the window. `covers_iff` is the exact condition under
which the window covers every event.

No `sorry`, no `axiom`, no `native_decide`.
-/
import Iams.Scheduler.ConversionTheorems
import Iams.Scheduler.Window

namespace Iams.Scheduler

open Iams.Lib.Fallible

/-! ## The two sides of the window -/

namespace Collected

/-- The bounds the beginning of the window is taken from. -/
def starts (c : Collected) : List Int := if c.eventsMin = [] then c.eventsMax else c.eventsMin

/-- The bounds the end of the window is taken from. -/
def ends (c : Collected) : List Int := if c.eventsMax = [] then c.eventsMin else c.eventsMax

/-- What the horizon adds before the first of the `starts` and after the
last of the `ends`: everything where one kind of bound is missing, else
the part of the horizon that the bounds do not span, on the open side or
half of it on each of two open sides. -/
def room (horizon : Int) (c : Collected) : Int × Int :=
  match c.eventsMin.min?, c.eventsMax.max? with
  | some first, some last =>
    let missing := horizon - (last - first)
    if missing ≤ 0 then (0, 0)
    else
      match c.noneMin, c.noneMax with
      | true, true => (intRoundDiv missing 2, intRoundDiv missing 2)
      | true, false => (missing, 0)
      | false, true => (0, missing)
      | false, false => (0, 0)
  | some _, none => (0, horizon)
  | none, some _ => (horizon, 0)
  | none, none => (0, 0)

/-- The time is at most the room before one of the `starts`. -/
def Begins (horizon : Int) (c : Collected) (x : Int) : Prop :=
  ∃ y ∈ c.starts, y ≤ x + (c.room horizon).1

/-- The time is within the horizon kept so far, or at most the room after
one of the `ends`. -/
def Reaches (horizon maxHorizon : Int) (c : Collected) (x : Int) : Prop :=
  x ≤ maxHorizon ∨ ∃ y ∈ c.ends, x ≤ y + (c.room horizon).2

theorem exists_le_iff {xs : List Int} {m k : Int} (hm : xs.min? = some m) :
    (∃ y ∈ xs, y ≤ k) ↔ m ≤ k := by
  obtain ⟨hmem, hle⟩ := List.min?_eq_some_iff.mp hm
  exact ⟨fun ⟨y, hy, hk⟩ => le_trans (hle y hy) hk, fun hk => ⟨m, hmem, hk⟩⟩

theorem exists_ge_iff {xs : List Int} {M k : Int} (hM : xs.max? = some M) :
    (∃ y ∈ xs, k ≤ y) ↔ k ≤ M := by
  obtain ⟨hmem, hle⟩ := List.max?_eq_some_iff.mp hM
  exact ⟨fun ⟨y, hy, hk⟩ => le_trans hk (hle y hy), fun hk => ⟨M, hmem, hk⟩⟩

/-- The window is the span of the bounds with the room on both sides. -/
theorem makespan_eq (horizon : Int) {c : Collected} (h : c.eventsMin ≠ [] ∨ c.eventsMax ≠ []) :
    ∃ first last, c.starts.min? = some first ∧ c.ends.max? = some last ∧
      c.makespan horizon = (first - (c.room horizon).1, last + (c.room horizon).2) := by
  unfold makespan starts ends room
  by_cases hmin : c.eventsMin = [] <;> by_cases hmax : c.eventsMax = []
  · exact absurd h (by simp [hmin, hmax])
  · obtain ⟨m, M, hm, hM, -, -⟩ := exists_min_max hmax
    exact ⟨m, M, by simp [hmin, hm], by simp [hmax, hM], by simp [hmin, hm, hM]⟩
  · obtain ⟨m, M, hm, hM, -, -⟩ := exists_min_max hmin
    exact ⟨m, M, by simp [hmin, hm], by simp [hmax, hM], by simp [hmax, hm, hM]⟩
  · obtain ⟨m, _, hm, hM, -, -⟩ := exists_min_max hmin
    obtain ⟨_, M, hm', hM', -, -⟩ := exists_min_max hmax
    refine ⟨m, M, by simp [hmin, hm], by simp [hmax, hM'], ?_⟩
    simp only [hm, hM, hm', hM']
    by_cases hspan : M - m < horizon
    · have hmissing : ¬ horizon - (M - m) ≤ 0 := by omega
      rw [if_pos hspan, if_neg hmissing]
      cases c.noneMin <;> cases c.noneMax <;> simp <;> omega
    · have hmissing : horizon - (M - m) ≤ 0 := by omega
      rw [if_neg hspan, if_pos hmissing]
      simp

theorem begins_iff {horizon x : Int} {c : Collected} (h : c.eventsMin ≠ [] ∨ c.eventsMax ≠ []) :
    c.Begins horizon x ↔ (c.makespan horizon).1 ≤ x := by
  obtain ⟨first, _, hfirst, -, heq⟩ := makespan_eq horizon h
  rw [Begins, exists_le_iff hfirst, heq]
  dsimp only
  omega

theorem reaches_iff {horizon maxHorizon x : Int} {c : Collected}
    (h : c.eventsMin ≠ [] ∨ c.eventsMax ≠ []) :
    c.Reaches horizon maxHorizon x ↔ x ≤ max maxHorizon (c.makespan horizon).2 := by
  obtain ⟨_, last, -, hlast, heq⟩ := makespan_eq horizon h
  have hend : (∃ y ∈ c.ends, x ≤ y + (c.room horizon).2) ↔
      ∃ y ∈ c.ends, x - (c.room horizon).2 ≤ y := by
    simp only [sub_le_iff_le_add]
  rw [Reaches, hend, exists_ge_iff hlast, heq, le_max_iff]
  dsimp only
  omega

end Collected

/-! ## Events without a departure bound -/

section Events

variable {τ : Type} [Ring τ] [LinearOrder τ]

/-- The arrival window is set and there is no departure bound. -/
def Event.OpenEnded (e : Event τ) : Prop :=
  e.eta.bool = true ∧ e.etd.constraintLow = none ∧ e.etd.constraintHigh = none

/-- `build_model` gives the variable of this range a non-empty domain
between 0 and the length of the window. -/
def Inside (lo hi : Int) (range : Name × Bounds) : Prop :=
  0 ≤ (newBounds lo (hi - lo) range).2.1 ∧
    (newBounds lo (hi - lo) range).2.1 ≤ (newBounds lo (hi - lo) range).2.2 ∧
    (newBounds lo (hi - lo) range).2.2 ≤ hi - lo

/-- Both sides of the makespan are within the window. -/
def Stage.Spanned (lo hi : Int) (st : Stage) : Prop :=
  ∀ x ∈ st.makespan.1.toList ++ st.makespan.2.toList, lo ≤ x ∧ x ≤ hi

/-- The arrival window is in order and its end reached; a start that is
fixed is after the beginning and reached. -/
def Stage.Fits (begins reaches : Int → Prop) : Stage → Prop
  | .waiting eta _ _ => ∀ a b, eta = (some a, some b) → a ≤ b ∧ reaches b
  | .started _ start _ _ _ => begins start ∧ reaches start
  | _ => True

variable [TimeStep τ] {cfg : BufferScheduler τ}

/-- Converting a hard window keeps which of its sides are set. -/
theorem Event.convertConstraints_isSome {useDatetime : Bool} {now : Option τ}
    {constraints : Option τ × Option τ} {b : Bounds}
    (h : convertConstraints cfg useDatetime now constraints = .ok b) :
    b.1.isSome = constraints.1.isSome ∧ b.2.isSome = constraints.2.isSome := by
  obtain ⟨low, high⟩ := constraints
  cases low with
  | none =>
    cases high with
    | none =>
      cases h
      exact ⟨rfl, rfl⟩
    | some high => cases h
  | some low =>
    cases hlow : convertTime cfg useDatetime now (some low) with
    | error err => simp [convertConstraints, hlow] at h
    | ok v => cases high <;> simp [convertConstraints, hlow, convertSteps] at h <;> simp [← h]

/-- What such an event hands to the solver while it waits. -/
theorem Event.OpenEnded.waiting {e : Event τ} {now : Option τ} {eta etd : Bounds}
    {duration : Int} (h : e.OpenEnded) (hst : e.stage cfg now = .ok (.waiting eta etd duration)) :
    ∃ a b, eta = (some a, some b) ∧ etd = (none, none) := by
  have hread : e.etaConstraints cfg now = .ok eta ∧ e.etdConstraints cfg now = .ok etd := by
    unfold stage at hst
    cases hs : e.state <;> simp [hs, bind_eq_ok, -Prod.exists] at hst
    · exact ⟨hst.1, hst.2.1⟩
    · exact ⟨hst.1, hst.2.1⟩
  obtain ⟨hset, hlow, hhigh⟩ := h
  obtain ⟨ha, hb⟩ := convertConstraints_isSome hread.1
  obtain ⟨hc, hd⟩ := convertConstraints_isSome hread.2
  simp only [getConstraints_eq, Option.isSome_map, hlow, hhigh, Option.isSome_none,
    Option.isSome_eq_false_iff, Option.isNone_iff_eq_none] at ha hb hc hd
  simp only [ETX.bool, Bool.and_eq_true] at hset
  obtain ⟨a, ha⟩ := Option.isSome_iff_exists.mp (ha.trans hset.2)
  obtain ⟨b, hb⟩ := Option.isSome_iff_exists.mp (hb.trans hset.1)
  exact ⟨a, b, Prod.ext ha hb, Prod.ext hc hd⟩

/-- The upper departure bound of such an event is open in every stage
before the departure. -/
theorem Event.OpenEnded.arrived {e : Event τ} {now : Option τ} {eta duration : Int}
    {etd : Bounds} {canceled : Bool} (h : e.OpenEnded)
    (hst : e.stage cfg now = .ok (.arrived eta etd duration canceled)) : etd.2 = none := by
  have hread : e.etdConstraints cfg now = .ok etd := by
    unfold stage at hst
    cases hs : e.state <;> simp [hs, bind_eq_ok, -Prod.exists] at hst
    exact hst.2.1
  obtain ⟨-, hd⟩ := convertConstraints_isSome hread
  simpa [getConstraints_eq, h.2.2] using hd

/-- The domains of `eta` and `start` of such an event are as they should
be if and only if the stage fits the window. -/
theorem Event.OpenEnded.inside_iff {e : Event τ} {now : Option τ} {st : Stage} {lo hi : Int}
    (h : e.OpenEnded) (hst : e.stage cfg now = .ok st) (hspan : st.Spanned lo hi) (uid : Nat) :
    (∀ range ∈ (st.variables uid).ranges, range.1 = .eta ∨ range.1 = .start →
        Inside lo hi range) ↔ st.Fits (lo ≤ ·) (· ≤ hi) := by
  cases st with
  | waiting eta etd duration =>
    obtain ⟨a, b, rfl, rfl⟩ := h.waiting hst
    have ha : lo ≤ a ∧ a ≤ hi := hspan a (by simp [Stage.makespan, Stage.variables])
    simp [Stage.variables, Stage.Fits, Inside, newBounds]
    omega
  | arrived eta etd duration canceled =>
    have hetd := h.arrived hst
    have heta : lo ≤ eta ∧ eta ≤ hi := hspan eta (by simp [Stage.makespan, Stage.variables])
    simp [Stage.variables, Stage.Fits, Inside, newBounds, hetd]
    omega
  | started eta start etd duration canceled =>
    have heta : lo ≤ eta ∧ eta ≤ hi := hspan eta (by simp [Stage.makespan, Stage.variables])
    simp [Stage.variables, Stage.Fits, Inside, newBounds]
    omega
  | finished start finish etd =>
    have hstart : lo ≤ start ∧ start ≤ hi :=
      hspan start (by simp [Stage.makespan, Stage.variables])
    simp [Stage.variables, Stage.Fits, Inside, newBounds]
    omega
  | departed start finish etd =>
    have hstart : lo ≤ start ∧ start ≤ hi :=
      hspan start (by simp [Stage.makespan, Stage.variables])
    simp [Stage.variables, Stage.Fits, Inside, newBounds]
    omega

end Events

/-! ## The window of a call -/

namespace World

open Iams.Lib

variable {τ : Type} [Ring τ] [LinearOrder τ] [TimeStep τ]
variable (cfg : BufferScheduler τ) (w : World τ) (new : List Nat) (now : Option τ)

/-- The bounds that a call collects from its events. -/
def bounds : Collected := gather cfg w.obj now .empty (w.concerned new)

/-- The window from `lo` to `hi` contains every bound of every event, and
gives the arrival and the start of an event without a departure bound a
domain inside it. -/
structure Covers (data : List (Nat × Variables)) (lo hi : Int) : Prop where
  bounds : ∀ p ∈ data, ∀ x ∈ p.2.makespan.1.toList ++ p.2.makespan.2.toList, lo ≤ x ∧ x ≤ hi
  domains : ∀ p ∈ data, (w.obj p.1).OpenEnded → ∀ range ∈ p.2.ranges,
    range.1 = .eta ∨ range.1 = .start → Inside lo hi range

/-- Each lower bound is near enough to the end and each upper bound to the
beginning, and so is what an event without a departure bound hands to the
solver besides its makespan. -/
structure InReach : Prop where
  late : ∀ x ∈ (w.bounds cfg new now).eventsMin,
    (w.bounds cfg new now).Reaches cfg.horizon w.maxHorizon x
  early : ∀ y ∈ (w.bounds cfg new now).eventsMax, (w.bounds cfg new now).Begins cfg.horizon y
  openEnded : ∀ u ∈ w.concerned new, (w.obj u).OpenEnded → ((w.obj u).stageD cfg now).Fits
    ((w.bounds cfg new now).Begins cfg.horizon)
    ((w.bounds cfg new now).Reaches cfg.horizon w.maxHorizon)

variable {cfg w new now}

theorem mem_eventsMin {x : Int} : x ∈ (w.bounds cfg new now).eventsMin ↔
    ∃ u ∈ w.concerned new, ((w.obj u).stageD cfg now).makespan.1 = some x := by
  rw [bounds, (gather_bounds cfg w.obj now (w.concerned new) .empty).1]
  simp [Collected.empty]

theorem mem_eventsMax {y : Int} : y ∈ (w.bounds cfg new now).eventsMax ↔
    ∃ u ∈ w.concerned new, ((w.obj u).stageD cfg now).makespan.2 = some y := by
  rw [bounds, (gather_bounds cfg w.obj now (w.concerned new) .empty).2]
  simp [Collected.empty]

/-- `get_event_variables` returns a value only if it can read all events. -/
theorem readable_of_getEventVariables {value : List (Nat × Variables) × (Int × Int)}
    {w' : World τ} (h : w.getEventVariables cfg new now = (.ok value, w')) :
    w.Readable cfg new now := by
  by_contra hread
  have hread' : ¬ AllReadable cfg w.obj now (yields (getEvents w.obj w.events new)) := by
    rw [yields_getEvents]
    exact hread
  obtain ⟨err, removed, heq, -⟩ := consume_of_not_readable .empty w.events hread'
  rw [getEventVariables, heq] at h
  cases h

/-- The two sides of the window of a call, as conditions on a time. -/
theorem reaches_iff {u : Nat} {x : Int} (hu : u ∈ w.concerned new)
    (hx : ((w.obj u).stageD cfg now).makespan.1 = some x) (z : Int) :
    (w.bounds cfg new now).Reaches cfg.horizon w.maxHorizon z ↔
      z ≤ max w.maxHorizon (w.span cfg new now).2 :=
  Collected.reaches_iff (Or.inl (List.ne_nil_of_mem (mem_eventsMin.mpr ⟨u, hu, hx⟩)))

theorem begins_iff {u : Nat} {x : Int} (hu : u ∈ w.concerned new)
    (hx : ((w.obj u).stageD cfg now).makespan.1 = some x ∨
      ((w.obj u).stageD cfg now).makespan.2 = some x) (z : Int) :
    (w.bounds cfg new now).Begins cfg.horizon z ↔ (w.span cfg new now).1 ≤ z :=
  Collected.begins_iff (hx.imp (fun hx => List.ne_nil_of_mem (mem_eventsMin.mpr ⟨u, hu, hx⟩))
    fun hx => List.ne_nil_of_mem (mem_eventsMax.mpr ⟨u, hu, hx⟩))

/-- Every makespan is within the window if and only if the lower bounds
reach its end and the upper ones its beginning; the other two sides always
hold. -/
theorem spanned_iff :
    (∀ u ∈ w.concerned new, ((w.obj u).stageD cfg now).Spanned (w.span cfg new now).1
        (max w.maxHorizon (w.span cfg new now).2)) ↔
      (∀ x ∈ (w.bounds cfg new now).eventsMin,
          (w.bounds cfg new now).Reaches cfg.horizon w.maxHorizon x) ∧
        ∀ y ∈ (w.bounds cfg new now).eventsMax, (w.bounds cfg new now).Begins cfg.horizon y := by
  obtain ⟨hlow, hhigh⟩ := (w.bounds cfg new now).makespan_covers cfg.horizon
  constructor
  · intro h
    constructor
    · intro x hx
      obtain ⟨u, hu, hux⟩ := mem_eventsMin.mp hx
      exact (reaches_iff hu hux x).mpr (h u hu x (by simp [hux])).2
    · intro y hy
      obtain ⟨u, hu, huy⟩ := mem_eventsMax.mp hy
      exact (begins_iff hu (Or.inr huy) y).mpr (h u hu y (by simp [huy])).1
  · rintro ⟨hlate, hearly⟩ u hu x hx
    rcases List.mem_append.mp hx with hx | hx
    · have hux := Option.mem_toList.mp hx
      have hmem := mem_eventsMin.mpr ⟨u, hu, hux⟩
      exact ⟨hlow x hmem, (reaches_iff hu hux x).mp (hlate x hmem)⟩
    · have hux := Option.mem_toList.mp hx
      have hmem := mem_eventsMax.mpr ⟨u, hu, hux⟩
      exact ⟨(begins_iff hu (Or.inr hux) x).mp (hearly x hmem),
        le_trans (hhigh x hmem) (le_max_right _ _)⟩

/-- The stage of an event without a departure bound fits the window if and
only if it fits the collected bounds. -/
theorem fits_iff {u : Nat} (hu : u ∈ w.concerned new) (hread : (w.obj u).Readable cfg now)
    (h : (w.obj u).OpenEnded) :
    ((w.obj u).stageD cfg now).Fits ((w.span cfg new now).1 ≤ ·)
        (· ≤ max w.maxHorizon (w.span cfg new now).2) ↔
      ((w.obj u).stageD cfg now).Fits ((w.bounds cfg new now).Begins cfg.horizon)
        ((w.bounds cfg new now).Reaches cfg.horizon w.maxHorizon) := by
  have hst := hread.stage_eq
  have hbegins {x : Int} (hx : ((w.obj u).stageD cfg now).makespan.1 = some x) :=
    begins_iff hu (Or.inl hx)
  have hreaches {x : Int} (hx : ((w.obj u).stageD cfg now).makespan.1 = some x) :=
    reaches_iff hu hx
  generalize (w.obj u).stageD cfg now = st at hst hbegins hreaches ⊢
  cases st with
  | waiting eta etd duration =>
    obtain ⟨a, b, rfl, rfl⟩ := h.waiting hst
    simp [Stage.Fits, hreaches (x := a) rfl]
  | started eta start etd duration canceled =>
    simp [Stage.Fits, hreaches (x := eta) rfl, hbegins (x := eta) rfl]
  | arrived => exact Iff.rfl
  | finished => exact Iff.rfl
  | departed => exact Iff.rfl

/-- The window of a call covers its events if and only if they are in
reach. -/
theorem covers_iff {data : List (Nat × Variables)} {lo hi : Int} {w' : World τ}
    (h : w.getEventVariables cfg new now = (.ok (data, (lo, hi)), w')) :
    w.Covers data lo hi ↔ w.InReach cfg new now := by
  have hread := readable_of_getEventVariables h
  rw [getEventVariables_of_readable (S := Sorter.insertion Nat) hread] at h
  simp only [Prod.mk.injEq, Except.ok.injEq] at h
  obtain ⟨⟨rfl, rfl, rfl⟩, -⟩ := h
  have hmem {u : Nat} (hu : u ∈ w.concerned new) := List.mem_map_of_mem
    (f := fun u => (u, ((w.obj u).stageD cfg now).variables (w.obj u).uid))
    (mem_keysOf.mpr hu)
  constructor
  · intro hcov
    have hspan : ∀ u ∈ w.concerned new, ((w.obj u).stageD cfg now).Spanned
        (w.span cfg new now).1 (max w.maxHorizon (w.span cfg new now).2) := by
      intro u hu
      have hbounds := hcov.bounds _ (hmem hu)
      rw [Stage.variables_makespan] at hbounds
      exact hbounds
    obtain ⟨hlate, hearly⟩ := spanned_iff.mp hspan
    refine ⟨hlate, hearly, fun u hu hopen => ?_⟩
    have hinside := hcov.domains _ (hmem hu) hopen
    exact (fits_iff hu (hread u hu) hopen).mp
      ((hopen.inside_iff (hread u hu).stage_eq (hspan u hu) _).mp hinside)
  · intro hreach
    have hspan := spanned_iff.mpr ⟨hreach.late, hreach.early⟩
    constructor
    · intro p hp
      obtain ⟨u, hu, rfl⟩ := List.mem_map.mp hp
      dsimp only
      rw [Stage.variables_makespan]
      exact hspan u (mem_keysOf.mp hu)
    · intro p hp hopen
      obtain ⟨u, hu, rfl⟩ := List.mem_map.mp hp
      have hu := mem_keysOf.mp hu
      have hfits := (fits_iff hu (hread u hu) hopen).mpr (hreach.openEnded u hu hopen)
      exact (hopen.inside_iff (hread u hu).stage_eq (hspan u hu) _).mpr hfits

/-- Two new events: one that departs at 5, and one that arrives at 100. -/
def mixedWorld : World Int :=
  (((World.init (.single 10 1 1)).create (.mk 1 (.number 0) (.number 5) .new false)).2.create
    (.mk 1 (.number 100) .none .new false)).2

def mixedData : List (Nat × Variables) :=
  [(1, Stage.variables 1 (.waiting (some 0, some 0) (some 5, some 5) 1)),
    (2, Stage.variables 2 (.waiting (some 100, some 100) (none, none) 1))]

/-- With a horizon of 10 the second event is in reach, but not next to the
first one. -/
theorem covers_iff_mixed :
    ((mixedWorld.getEventVariables (.single 10 1 1) [2] none).1 =
        .ok (mixedData.drop 1, (100, 110)) ∧
      mixedWorld.Covers (mixedData.drop 1) 100 110) ∧
    (mixedWorld.getEventVariables (.single 10 1 1) [1, 2] none).1 = .ok (mixedData, (0, 10)) ∧
      ¬ mixedWorld.Covers mixedData 0 10 := by
  have hsecond : (mixedWorld.getEventVariables (.single 10 1 1) [2] none).1 =
      .ok (mixedData.drop 1, (100, 110)) := by decide
  have hboth : (mixedWorld.getEventVariables (.single 10 1 1) [1, 2] none).1 =
      .ok (mixedData, (0, 10)) := by decide
  refine ⟨⟨hsecond, (covers_iff (Prod.ext hsecond rfl)).mpr ?_⟩, hboth, fun h => ?_⟩
  · refine ⟨by unfold Collected.Reaches; decide, by unfold Collected.Begins; decide, ?_⟩
    intro u hu _
    rw [List.mem_singleton.mp (show u ∈ [2] from hu)]
    rintro a b ⟨⟩
    unfold Collected.Reaches
    decide
  · have hlate := ((covers_iff (Prod.ext hboth rfl)).mp h).late 100 (by decide)
    unfold Collected.Reaches at hlate
    exact absurd hlate (by decide)

/-- The window ends at 10, and the second event arrives at 100. -/
theorem mixed_not_covered :
    (mixedWorld.getEventVariables (.single 10 1 1) [1, 2] none).1 = .ok (mixedData, (0, 10)) ∧
      ¬ ∀ (cfg : BufferScheduler Int) (w : World Int) (new : List Nat) (now : Option Int)
        (data : List (Nat × Variables)) (lo hi : Int) (w' : World Int),
        w.getEventVariables cfg new now = (.ok (data, (lo, hi)), w') → w.Covers data lo hi := by
  have hvalue : (mixedWorld.getEventVariables (.single 10 1 1) [1, 2] none).1 =
      .ok (mixedData, (0, 10)) := by decide
  refine ⟨hvalue, fun h => ?_⟩
  have hcovers := h _ _ _ _ mixedData 0 10 _ (Prod.ext hvalue rfl)
  have hlate := hcovers.bounds _ (List.mem_cons_of_mem _ List.mem_cons_self) 100 (by decide)
  exact absurd hlate.2 (by decide)

end World

end Iams.Scheduler
