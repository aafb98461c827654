/-
Iams.Utils.Outliner — `quartiles` in `iams/utils/outliner.py`.

The numbers are those of an ordered field, and calculated with exactly. The
quartiles are `np.percentile`s and need not be numbers of the list, so the
largest number up to the upper fence may be less than the third quartile:
then that quartile is the end of the whisker. `quartiles_isWellFormed` says
what is left of a box plot: its five values are in order, the whiskers end
within the fences, and all that is between the fences is between the
whiskers' ends.

No `sorry`, no `axiom`, no `native_decide`.
-/
import Iams.Lib.Quantile

namespace Iams.Utils.Outliner

open Iams.Lib

/-- What numpy raises. -/
inductive Error where
  | indexError (text : String)
  | valueError (text : String)
  deriving DecidableEq, Repr

/-- `whislo, q1, med, q3, whishi` -/
structure Quartiles (K : Type) where
  whislo : K
  q1 : K
  med : K
  q3 : K
  whishi : K
  deriving DecidableEq, Repr

variable {K : Type} [LinearOrder K] {x : List K}

/-! ## numpy -/

/-- `np.max` -/
def npMax (x : List K) : Except Error K :=
  match x.max? with
  | some a => .ok a
  | none => .error (.valueError
      "zero-size array to reduction operation maximum which has no identity")

/-- `np.min` -/
def npMin (x : List K) : Except Error K :=
  match x.min? with
  | some a => .ok a
  | none => .error (.valueError
      "zero-size array to reduction operation minimum which has no identity")

theorem npMax_ok (hx : x ≠ []) : ∃ a, npMax x = .ok a ∧ a ∈ x ∧ ∀ b ∈ x, b ≤ a := by
  obtain ⟨a, ha⟩ := Option.isSome_iff_exists.mp (List.isSome_max?_of_ne_nil hx)
  obtain ⟨hmem, hle⟩ := List.max?_eq_some_iff.mp ha
  exact ⟨a, by rw [npMax, ha], hmem, hle⟩

theorem npMin_ok (hx : x ≠ []) : ∃ a, npMin x = .ok a ∧ a ∈ x ∧ ∀ b ∈ x, a ≤ b := by
  obtain ⟨a, ha⟩ := Option.isSome_iff_exists.mp (List.isSome_min?_of_ne_nil hx)
  obtain ⟨hmem, hle⟩ := List.min?_eq_some_iff.mp ha
  exact ⟨a, by rw [npMin, ha], hmem, hle⟩

/-- The largest number up to the fence, where there is one up to the
quartile. -/
theorem npMax_filter {q3 fence : K} (hfence : q3 ≤ fence) (hx : ∃ a ∈ x, a ≤ q3) :
    ∃ extrema, npMax (x.filter (· ≤ fence)) = .ok extrema ∧ extrema ≤ fence ∧
      ∀ a ∈ x, a ≤ fence → a ≤ extrema := by
  obtain ⟨a, ha, hle⟩ := hx
  have hmem : a ∈ x.filter (· ≤ fence) :=
    List.mem_filter.mpr ⟨ha, decide_eq_true (hle.trans hfence)⟩
  obtain ⟨extrema, hmax, hin, hall⟩ := npMax_ok (List.ne_nil_of_mem hmem)
  refine ⟨extrema, hmax, of_decide_eq_true (List.mem_filter.mp hin).2, fun b hb hbf => ?_⟩
  exact hall b (List.mem_filter.mpr ⟨hb, decide_eq_true hbf⟩)

/-- The smallest number from the fence on, where there is one from the
quartile on. -/
theorem npMin_filter {q1 fence : K} (hfence : fence ≤ q1) (hx : ∃ a ∈ x, q1 ≤ a) :
    ∃ extrema, npMin (x.filter (fence ≤ ·)) = .ok extrema ∧ fence ≤ extrema ∧
      ∀ a ∈ x, fence ≤ a → extrema ≤ a := by
  obtain ⟨a, ha, hle⟩ := hx
  have hmem : a ∈ x.filter (fence ≤ ·) :=
    List.mem_filter.mpr ⟨ha, decide_eq_true (hfence.trans hle)⟩
  obtain ⟨extrema, hmin, hin, hall⟩ := npMin_ok (List.ne_nil_of_mem hmem)
  refine ⟨extrema, hmin, of_decide_eq_true (List.mem_filter.mp hin).2, fun b hb hbf => ?_⟩
  exact hall b (List.mem_filter.mpr ⟨hb, decide_eq_true hbf⟩)

variable [Field K]

/-- `np.percentile(x, p)` -/
def percentile (x : List K) (p : Nat) : Except Error K :=
  match quantile p 100 x with
  | some q => .ok q
  | none => .error (.indexError "index -1 is out of bounds for axis 0 with size 0")

theorem percentile_ok (p : Nat) (hx : x ≠ []) :
    ∃ q, percentile x p = .ok q ∧ quantile p 100 x = some q := by
  obtain ⟨q, hq⟩ := exists_quantile p 100 hx
  exact ⟨q, by rw [percentile, hq], hq⟩

/-! ## The box plot -/

/-- `quartiles` -/
def quartiles (x : List K) (whiskers : K := 3 / 2) : Except Error (Quartiles K) := do
  let q1 ← percentile x 25
  let med ← percentile x 50
  let q3 ← percentile x 75
  let iqr := q3 - q1
  -- get high extreme
  let extrema ← npMax (x.filter (· ≤ q3 + whiskers * iqr))
  let whishi := if extrema < q3 then q3 else extrema
  -- get low extreme
  let extrema ← npMin (x.filter (q1 - whiskers * iqr ≤ ·))
  let whislo := if q1 < extrema then q1 else extrema
  return ⟨whislo, q1, med, q3, whishi⟩

/-- What a box plot of the list, with whiskers of this length, has to be. -/
structure IsWellFormed (x : List K) (whiskers : K) (r : Quartiles K) : Prop where
  whislo_le : r.whislo ≤ r.q1
  q1_le : r.q1 ≤ r.med
  med_le : r.med ≤ r.q3
  q3_le : r.q3 ≤ r.whishi
  whishi_le : r.whishi ≤ r.q3 + whiskers * (r.q3 - r.q1)
  le_whislo : r.q1 - whiskers * (r.q3 - r.q1) ≤ r.whislo
  covers : ∀ a ∈ x, r.q1 - whiskers * (r.q3 - r.q1) ≤ a →
    a ≤ r.q3 + whiskers * (r.q3 - r.q1) → r.whislo ≤ a ∧ a ≤ r.whishi

variable [IsStrictOrderedRing K]

/-- A list that is not empty has a well-formed box plot. -/
theorem quartiles_isWellFormed {whiskers : K} (hx : x ≠ []) (hwhiskers : 0 ≤ whiskers) :
    ∃ r, quartiles x whiskers = .ok r ∧ IsWellFormed x whiskers r := by
  obtain ⟨q1, hpercentile1, hq1⟩ := percentile_ok 25 hx
  obtain ⟨med, hpercentile2, hmed⟩ := percentile_ok 50 hx
  obtain ⟨q3, hpercentile3, hq3⟩ := percentile_ok 75 hx
  have hlower : q1 ≤ med := quantile_mono (by decide) (by decide) hq1 hmed
  have hupper : med ≤ q3 := quantile_mono (by decide) (by decide) hmed hq3
  have hwidth : 0 ≤ whiskers * (q3 - q1) :=
    mul_nonneg hwhiskers (sub_nonneg.mpr (hlower.trans hupper))
  have hhigh : q3 ≤ q3 + whiskers * (q3 - q1) := le_add_of_nonneg_right hwidth
  have hlow : q1 - whiskers * (q3 - q1) ≤ q1 := sub_le_self q1 hwidth
  -- the quartiles need not be in the list, but numbers on either side of them are
  obtain ⟨high, hmax, hhighle, hallhigh⟩ := npMax_filter hhigh (exists_le_quantile hq3)
  obtain ⟨low, hmin, hlowle, halllow⟩ := npMin_filter hlow (exists_quantile_le (by decide) hq1)
  have hquartiles : quartiles x whiskers = .ok ⟨min q1 low, q1, med, q3, max high q3⟩ := by
    unfold quartiles
    rw [hpercentile1, hpercentile2, hpercentile3]
    simp only [bind, Except.bind, hmax, hmin, min_def_lt, max_def_lt]
    rfl
  refine ⟨_, hquartiles, ?_⟩
  constructor
  · exact min_le_left q1 low
  · exact hlower
  · exact hupper
  · exact le_max_right high q3
  · exact max_le hhighle hhigh
  · exact le_min hlow hlowle
  · intro a ha hfromLow huptoHigh
    constructor
    · exact (min_le_right q1 low).trans (halllow a ha hfromLow)
    · exact (hallhigh a ha huptoHigh).trans (le_max_left high q3)

/-- Neither the first quartile of these numbers nor their median is among
them. Without whiskers the ends are the quartiles. -/
theorem quartiles_isWellFormed_four :
    quartiles ([0, 1, 2, 2] : List ℚ) 0 = .ok ⟨3 / 4, 3 / 4, 3 / 2, 2, 2⟩ ∧
      IsWellFormed ([0, 1, 2, 2] : List ℚ) 0 ⟨3 / 4, 3 / 4, 3 / 2, 2, 2⟩ := by
  have hvalue : quartiles ([0, 1, 2, 2] : List ℚ) 0 = .ok ⟨3 / 4, 3 / 4, 3 / 2, 2, 2⟩ := by
    decide +kernel
  obtain ⟨r, hr, hwell⟩ := quartiles_isWellFormed (K := ℚ) (x := [0, 1, 2, 2]) (by decide) le_rfl
  cases hvalue.symm.trans hr
  exact ⟨hvalue, hwell⟩

end Iams.Utils.Outliner
