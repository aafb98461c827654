/-
Iams.Lib.Quantile — quantiles by linear interpolation between order
statistics.

`interpolate f den` is a sequence between whose members there are `den`
equal steps. Over a monotone sequence it is monotone
(`interpolate_mono`), and it stays between two neighbours of the sequence
(`le_interpolate`, `interpolate_le`).

The members of a list, smallest first and with the largest repeated for
ever, are a monotone sequence (`clamped_mono`). `quantile num den x`
is the value at `num / den` of the way from its first to its last member:
the quantiles of a list are ordered (`quantile_mono`) and lie between two
of its members (`exists_le_quantile`, `exists_quantile_le`).

No `sorry`, no `axiom`, no `native_decide`.
-/
import Mathlib.Algebra.Order.Field.Basic
import Mathlib.Data.List.Sort
import Mathlib.Tactic.Linarith
import Mathlib.Tactic.Positivity
import Mathlib.Tactic.Ring

namespace Iams.Lib

variable {K : Type} [Field K]

/-! ## Interpolation -/

/-- The point at the part `t` of the way from `a` to `b`. -/
def lerp (a b t : K) : K := a + (b - a) * t

/-- The sequence `f` with `den` steps between two members. -/
def interpolate (f : Nat → K) (den pos : Nat) : K :=
  lerp (f (pos / den)) (f (pos / den + 1)) ((pos % den : Nat) / den)

variable [LinearOrder K] [IsStrictOrderedRing K]

theorem le_lerp {a b t : K} (hab : a ≤ b) (ht : 0 ≤ t) : a ≤ lerp a b t := by
  have h : 0 ≤ (b - a) * t := mul_nonneg (sub_nonneg.mpr hab) ht
  rw [lerp]
  linarith

theorem lerp_le {a b t : K} (hab : a ≤ b) (ht : t ≤ 1) : lerp a b t ≤ b := by
  have h : (b - a) * t ≤ (b - a) * 1 := mul_le_mul_of_nonneg_left ht (sub_nonneg.mpr hab)
  rw [lerp]
  linarith

theorem lerp_mono {a b t t' : K} (hab : a ≤ b) (ht : t ≤ t') : lerp a b t ≤ lerp a b t' := by
  have h : (b - a) * t ≤ (b - a) * t' := mul_le_mul_of_nonneg_left ht (sub_nonneg.mpr hab)
  rw [lerp, lerp]
  linarith

section Sequence

variable {f : Nat → K} {den : Nat}

theorem le_interpolate (hf : Monotone f) (pos : Nat) : f (pos / den) ≤ interpolate f den pos :=
  le_lerp (hf (Nat.le_succ _)) (by positivity)

theorem interpolate_le (hf : Monotone f) (hden : 0 < den) (pos : Nat) :
    interpolate f den pos ≤ f (pos / den + 1) := by
  refine lerp_le (hf (Nat.le_succ _)) ?_
  rw [div_le_one (Nat.cast_pos.mpr hden)]
  exact Nat.cast_le.mpr (Nat.mod_lt pos hden).le

/-- Within one cell the part grows; a later cell starts where this one has
ended, or after it. -/
theorem interpolate_mono (hf : Monotone f) (hden : 0 < den) : Monotone (interpolate f den) := by
  intro pos pos' hpos
  have hcell : pos / den ≤ pos' / den := Nat.div_le_div_right hpos
  rcases hcell.eq_or_lt with heq | hlt
  · have hmod : pos % den ≤ pos' % den := by
      have h := Nat.div_add_mod pos den
      have h' := Nat.div_add_mod pos' den
      rw [heq] at h
      omega
    unfold interpolate
    rw [heq]
    refine lerp_mono (hf (Nat.le_succ _)) ?_
    exact div_le_div_of_nonneg_right (Nat.cast_le.mpr hmod) (Nat.cast_nonneg den)
  · calc interpolate f den pos ≤ f (pos / den + 1) := interpolate_le hf hden pos
      _ ≤ f (pos' / den) := hf hlt
      _ ≤ interpolate f den pos' := le_interpolate hf pos'

end Sequence

/-! ## Order statistics -/

section Clamped

variable {α : Type} {first : α} {rest : List α}

/-- The member of a list at this place, or the last one. -/
def clamped (first : α) (rest : List α) (k : Nat) : α :=
  (first :: rest).get ⟨min k rest.length, Nat.lt_succ_of_le (Nat.min_le_right _ _)⟩

theorem clamped_mem (k : Nat) : clamped first rest k ∈ first :: rest := List.get_mem _ _

theorem clamped_mono [Preorder α] (h : (first :: rest).Pairwise (· ≤ ·)) :
    Monotone (clamped first rest) := by
  intro k k' hk
  have hmin : min k rest.length ≤ min k' rest.length := min_le_min_right _ hk
  exact h.rel_get_of_le hmin

end Clamped

/-! ## Quantiles -/

/-- The value at `num / den` of the way through the list in order. -/
def quantile (num den : Nat) (x : List K) : Option K :=
  match x.insertionSort (· ≤ ·) with
  | [] => none
  | first :: rest => some (interpolate (clamped first rest) den (num * rest.length))

variable {num num' den : Nat} {x : List K} {q q' : K}

omit [IsStrictOrderedRing K] in
/-- Only an empty list has no quantiles. -/
theorem exists_quantile (num den : Nat) (hx : x ≠ []) : ∃ q, quantile num den x = some q := by
  have hperm := List.perm_insertionSort (· ≤ ·) x
  unfold quantile
  cases hsort : x.insertionSort (· ≤ ·) with
  | nil =>
    rw [hsort] at hperm
    exact absurd hperm.symm.eq_nil hx
  | cons first rest => exact ⟨_, rfl⟩

omit [IsStrictOrderedRing K] in
/-- What is behind a quantile: a monotone sequence of members. -/
theorem quantile_eq_some (h : quantile num den x = some q) :
    ∃ first rest, x.insertionSort (· ≤ ·) = first :: rest ∧ Monotone (clamped first rest) ∧
      (∀ k, clamped first rest k ∈ x) ∧
      q = interpolate (clamped first rest) den (num * rest.length) := by
  unfold quantile at h
  have hordered := List.pairwise_insertionSort (· ≤ ·) x
  have hperm := List.perm_insertionSort (· ≤ ·) x
  cases hsort : x.insertionSort (· ≤ ·) with
  | nil =>
    rw [hsort] at h
    cases h
  | cons first rest =>
    rw [hsort] at h hordered hperm
    cases h
    exact ⟨first, rest, rfl, clamped_mono hordered, fun k => hperm.mem_iff.mp (clamped_mem k), rfl⟩

theorem quantile_mono (hden : 0 < den) (hnum : num ≤ num') (h : quantile num den x = some q)
    (h' : quantile num' den x = some q') : q ≤ q' := by
  obtain ⟨first, rest, hsort, hmono, -, rfl⟩ := quantile_eq_some h
  obtain ⟨first', rest', hsort', -, -, rfl⟩ := quantile_eq_some h'
  cases hsort.symm.trans hsort'
  exact interpolate_mono hmono hden (Nat.mul_le_mul_right _ hnum)

theorem exists_le_quantile (h : quantile num den x = some q) : ∃ a ∈ x, a ≤ q := by
  obtain ⟨first, rest, -, hmono, hmem, rfl⟩ := quantile_eq_some h
  exact ⟨_, hmem _, le_interpolate hmono _⟩

theorem exists_quantile_le (hden : 0 < den) (h : quantile num den x = some q) :
    ∃ a ∈ x, q ≤ a := by
  obtain ⟨first, rest, -, hmono, hmem, rfl⟩ := quantile_eq_some h
  exact ⟨_, hmem _, interpolate_le hmono hden _⟩

end Iams.Lib
