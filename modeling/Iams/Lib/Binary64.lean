/-
Iams.Lib.Binary64 — quotients of integers as floats.

`v / r` of two integers is the float nearest to the quotient: its first 53
binary digits, rounded (`digits`, `exponent`). `round` of a float is the
nearest integer. Both go to the even one of two. `roundQuotient v r` is
`round(v / r)`. A whole quotient up to `2 ^ 53` comes out as it is
(`roundQuotient_mul`); of `2 ^ 53 + 1` the last digit is lost.

The exponent is unbounded here. What is too small for a float rounds to 0
either way; a quotient from `2 ^ 1024` on raises `OverflowError` in Python
and is not covered.

No `sorry`, no `axiom`, no `native_decide`.
-/
import Mathlib.Algebra.Order.Group.Abs
import Mathlib.Algebra.Order.Ring.Int
import Mathlib.Tactic.Linarith
import Mathlib.Tactic.Ring

namespace Iams.Lib.Binary64

/-- The integer nearest to `v / r`, the even one of two. -/
def nearest (v r : Int) : Int :=
  let below := v / r
  let rest := v % r
  if 2 * rest < r then below
  else if r < 2 * rest then below + 1
  else if below % 2 = 0 then below else below + 1

/-- The exponent of the first binary digit of `v / r`. -/
def exponent (v r : Int) : Int :=
  let e : Int := v.natAbs.log2 - r.natAbs.log2
  if v.natAbs * 2 ^ (-e).toNat < r.natAbs * 2 ^ e.toNat then e - 1 else e

/-- `v / r` in units of `2 ^ e`. -/
def digits (v r e : Int) : Int := nearest (v * 2 ^ (-e).toNat) (r * 2 ^ e.toNat)

/-- `round(v / r)` -/
def roundQuotient (v r : Int) : Int :=
  let e := exponent v r - 52
  nearest (digits v r e * 2 ^ e.toNat) (2 ^ (-e).toNat)

/-! ## Rounding -/

theorem nearest_mul (n : Int) {r : Int} (hr : 0 < r) : nearest (n * r) r = n := by
  have hdiv : n * r / r = n := Int.mul_ediv_cancel n (Int.ne_of_gt hr)
  have hmod : n * r % r = 0 := Int.mul_emod_left n r
  simp only [nearest, hdiv, hmod]
  rw [if_pos (by omega)]

theorem nearest_nonneg {v r : Int} (hv : 0 ≤ v) (hr : 0 < r) : 0 ≤ nearest v r := by
  have hdiv : 0 ≤ v / r := Int.ediv_nonneg hv (Int.le_of_lt hr)
  unfold nearest
  dsimp only
  split
  · exact hdiv
  · split
    · omega
    · split <;> omega

theorem two_pow_pos (n : Nat) : (0 : Int) < 2 ^ n := Int.pow_pos (by decide)

theorem roundQuotient_nonneg {v r : Int} (hv : 0 ≤ v) (hr : 0 < r) : 0 ≤ roundQuotient v r := by
  have hdigits (e : Int) : 0 ≤ digits v r e :=
    nearest_nonneg (Int.mul_nonneg hv (Int.le_of_lt (two_pow_pos _)))
      (Int.mul_pos hr (two_pow_pos _))
  exact nearest_nonneg (Int.mul_nonneg (hdigits _) (Int.le_of_lt (two_pow_pos _))) (two_pow_pos _)

/-! ## Whole quotients -/

/-- The first digit is not above the quotient. -/
theorem exponent_le {v r : Int} (hv : v ≠ 0) :
    r.natAbs * 2 ^ (exponent v r).toNat ≤ v.natAbs * 2 ^ (-exponent v r).toNat := by
  have hlow : 2 ^ v.natAbs.log2 ≤ v.natAbs := Nat.log2_self_le (Int.natAbs_ne_zero.mpr hv)
  have hhigh : r.natAbs < 2 ^ (r.natAbs.log2 + 1) := Nat.lt_log2_self
  unfold exponent
  dsimp only
  generalize v.natAbs.log2 = a at hlow ⊢
  generalize r.natAbs.log2 = b at hhigh ⊢
  split
  · -- one digit less is enough in any case
    rcases Nat.lt_or_ge b a with hab | hab
    · have he : ((a : Int) - b - 1).toNat = a - b - 1 := by omega
      have he' : (-((a : Int) - b - 1)).toNat = 0 := by omega
      rw [he, he', Nat.pow_zero, Nat.mul_one]
      calc r.natAbs * 2 ^ (a - b - 1)
          ≤ 2 ^ (b + 1) * 2 ^ (a - b - 1) := Nat.mul_le_mul_right _ (Nat.le_of_lt hhigh)
        _ = 2 ^ a := by rw [← Nat.pow_add]; congr 1; omega
        _ ≤ v.natAbs := hlow
    · have he : ((a : Int) - b - 1).toNat = 0 := by omega
      have he' : (-((a : Int) - b - 1)).toNat = b + 1 - a := by omega
      rw [he, he', Nat.pow_zero, Nat.mul_one]
      calc r.natAbs
          ≤ 2 ^ (b + 1) := Nat.le_of_lt hhigh
        _ = 2 ^ a * 2 ^ (b + 1 - a) := by rw [← Nat.pow_add]; congr 1; omega
        _ ≤ v.natAbs * 2 ^ (b + 1 - a) := Nat.mul_le_mul_right _ hlow
  · next hle => exact Nat.le_of_not_lt hle

/-- A quotient up to `2 ^ 53` has its first digit there at most. -/
theorem exponent_mul_le {n r : Int} (hn : n ≠ 0) (hr : 0 < r) {k : Nat}
    (hbound : n.natAbs < 2 ^ (k + 1)) : exponent (n * r) r ≤ k := by
  by_contra hlt
  have hle := exponent_le (r := r) (Int.mul_ne_zero hn (Int.ne_of_gt hr))
  obtain ⟨e, he⟩ : ∃ e : Nat, exponent (n * r) r = e := ⟨_, (Int.toNat_of_nonneg (by omega)).symm⟩
  rw [he] at hle hlt
  rw [Int.toNat_natCast, show (-(e : Int)).toNat = 0 by omega, Nat.pow_zero, Nat.mul_one,
    Int.natAbs_mul, Nat.mul_comm] at hle
  have hpow : 2 ^ (k + 1) ≤ 2 ^ e := Nat.pow_le_pow_right (by decide) (by omega)
  have hcancel : 2 ^ e ≤ n.natAbs := Nat.le_of_mul_le_mul_right hle (Int.natAbs_pos.mpr hr.ne')
  omega

/-- No digit is lost of a whole quotient up to `2 ^ 53`. -/
theorem roundQuotient_mul {n r : Int} (hn : |n| ≤ 2 ^ 53) (hr : 0 < r) :
    roundQuotient (n * r) r = n := by
  by_cases hzero : n = 0
  · subst hzero
    simp only [roundQuotient, digits, Int.zero_mul]
    have h : ∀ s : Int, 0 < s → nearest 0 s = 0 := fun s hs => by
      have h := nearest_mul 0 hs
      rwa [Int.zero_mul] at h
    rw [h _ (Int.mul_pos hr (two_pow_pos _)), Int.zero_mul, h _ (two_pow_pos _)]
  have hexact (e : Int) (he : e ≤ 0) :
      nearest (digits (n * r) r e * 2 ^ e.toNat) (2 ^ (-e).toNat) = n := by
    have hdigits : digits (n * r) r e = n * 2 ^ (-e).toNat := by
      rw [digits, Int.toNat_of_nonpos he, Int.pow_zero, Int.mul_one, Int.mul_right_comm]
      exact nearest_mul _ hr
    rw [hdigits, Int.toNat_of_nonpos he, Int.pow_zero, Int.mul_one]
    exact nearest_mul n (two_pow_pos _)
  have habs : (n.natAbs : Int) ≤ 2 ^ 53 := by rwa [Int.natCast_natAbs]
  unfold roundQuotient
  dsimp only
  by_cases htop : n.natAbs = 2 ^ 53
  · have hle : exponent (n * r) r ≤ (53 : Nat) :=
      exponent_mul_le hzero hr (by rw [htop]; decide)
    rcases Int.lt_or_le 52 (exponent (n * r) r) with hone | hsmall
    · have he : exponent (n * r) r - 52 = 1 := by omega
      rw [he]
      have hn' : n = (n / 2) * 2 := by omega
      have hdigits : digits (n * r) r 1 = n / 2 := by
        rw [digits, show (-(1 : Int)).toNat = 0 from rfl, show (1 : Int).toNat = 1 from rfl,
          Int.pow_zero, Int.mul_one, Int.pow_succ, Int.pow_zero, Int.one_mul]
        conv_lhs => rw [hn', Int.mul_assoc, Int.mul_comm 2 r]
        exact nearest_mul _ (Int.mul_pos hr (by decide))
      rw [hdigits, show (-(1 : Int)).toNat = 0 from rfl, show (1 : Int).toNat = 1 from rfl,
        Int.pow_zero, Int.pow_succ, Int.pow_zero, Int.one_mul, ← hn']
      simpa using nearest_mul n (r := 1) (by decide)
    · exact hexact _ (by omega)
  · have hlt : n.natAbs < 2 ^ (52 + 1) := by
      have hle : n.natAbs ≤ 2 ^ 53 := by exact_mod_cast habs
      omega
    have hle : exponent (n * r) r ≤ (52 : Nat) := exponent_mul_le hzero hr hlt
    exact hexact _ (by omega)

example : roundQuotient (2 ^ 53 + 1) 1 = 2 ^ 53 ∧ roundQuotient (-7) 2 = -4 := by decide

end Iams.Lib.Binary64
