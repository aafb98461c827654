/-
Iams.Lib.Decimal — decimals with leading zeros, and their order as texts.

`zeroPad width n` is `n` with zeros before it up to a width. The numbers
below `10 ^ width` all have that many digits there (`zeroPad_eq`), so that
their order as texts is the order of the numbers (`zeroPad_lt`). The largest
of them has `Nat.log 10 n + 1` digits, which is one more than the logarithm
rounded down (`natFloor_logb_ten`).

No `sorry`, no `axiom`, no `native_decide`.
-/
import Mathlib.Analysis.SpecialFunctions.Log.Base
import Mathlib.Data.Nat.Log

namespace Iams.Lib.Decimal

/-- The decimal of a number, with zeros before it up to this width. -/
def zeroPad (width n : Nat) : List Char := (Nat.toDigits 10 n).leftpad width '0'

/-- The last `width` digits of a number. -/
def fixedDigits : Nat → Nat → List Char
  | 0, _ => []
  | width + 1, n => fixedDigits width (n / 10) ++ [Nat.digitChar (n % 10)]

@[simp] theorem length_fixedDigits (width n : Nat) : (fixedDigits width n).length = width := by
  induction width generalizing n with
  | zero => rfl
  | succ width ih => rw [fixedDigits, List.length_append, ih, List.length_singleton]

theorem fixedDigits_zero (width : Nat) : fixedDigits width 0 = List.replicate width '0' := by
  induction width with
  | zero => rfl
  | succ width ih =>
    rw [fixedDigits, Nat.zero_div, ih, List.replicate_succ']
    rfl

/-- A number that is not too long has exactly the digits of that width. -/
theorem zeroPad_eq {width n : Nat} (hwidth : 0 < width) (h : n < 10 ^ width) :
    zeroPad width n = fixedDigits width n := by
  induction width generalizing n with
  | zero => cases hwidth
  | succ width ih =>
    unfold zeroPad List.leftpad
    by_cases hn : n < 10
    · rw [Nat.toDigits_of_lt_base hn, fixedDigits, Nat.div_eq_of_lt hn, Nat.mod_eq_of_lt hn,
        fixedDigits_zero, List.length_singleton, Nat.add_sub_cancel]
    · have hlt : n / 10 < 10 ^ width := by
        rw [Nat.pow_succ] at h
        omega
      have hpos : 0 < width := by
        rcases width with _ | width
        · rw [Nat.pow_zero] at hlt
          omega
        · exact Nat.succ_pos width
      have hrest := ih hpos hlt
      unfold zeroPad List.leftpad at hrest
      rw [Nat.toDigits_of_base_le (by decide) (Nat.not_lt.mp hn), fixedDigits, ← hrest,
        List.length_append, List.length_singleton, Nat.add_sub_add_right, List.append_assoc]

theorem digitChar_lt {i j : Nat} (h : i < j) (hj : j < 10) : Nat.digitChar i < Nat.digitChar j := by
  have hi := Nat.toNat_digitChar_of_lt_ten (Nat.lt_trans h hj)
  have hj := Nat.toNat_digitChar_of_lt_ten hj
  rw [Char.lt_def, UInt32.lt_iff_toNat_lt]
  change (Nat.digitChar i).toNat < (Nat.digitChar j).toNat
  omega

/-- Texts of one length are compared by what differs first. -/
theorem append_lt {a b : List Char} (hlength : a.length = b.length) (h : a < b) (c d : List Char) :
    a ++ c < b ++ d := by
  induction a generalizing b with
  | nil =>
    obtain rfl : b = [] := List.eq_nil_of_length_eq_zero hlength.symm
    exact absurd h (List.lt_irrefl [])
  | cons x rest ih =>
    cases b with
    | nil => cases hlength
    | cons y rest' =>
      rw [List.cons_append, List.cons_append, List.cons_lt_cons_iff]
      rcases List.cons_lt_cons_iff.mp h with hxy | ⟨rfl, hrest⟩
      · exact .inl hxy
      · exact .inr ⟨rfl, ih (Nat.succ.inj hlength) hrest⟩

/-- Digits are compared from the first on; numbers that agree there differ
in the last digit. -/
theorem fixedDigits_lt {width i j : Nat} (h : i < j) (hj : j < 10 ^ width) :
    fixedDigits width i < fixedDigits width j := by
  induction width generalizing i j with
  | zero =>
    rw [Nat.pow_zero] at hj
    omega
  | succ width ih =>
    rw [Nat.pow_succ] at hj
    unfold fixedDigits
    rcases Nat.lt_or_eq_of_le (Nat.div_le_div_right (c := 10) (Nat.le_of_lt h)) with hlt | heq
    · refine append_lt ?_ (ih hlt (by omega)) _ _
      rw [length_fixedDigits, length_fixedDigits]
    · rw [heq]
      refine List.append_left_lt (List.cons_lt_cons_iff.mpr (.inl (digitChar_lt ?_ ?_))) <;> omega

theorem zeroPad_lt {width i j : Nat} (hwidth : 0 < width) (h : i < j) (hj : j < 10 ^ width) :
    zeroPad width i < zeroPad width j := by
  rw [zeroPad_eq hwidth (Nat.lt_trans h hj), zeroPad_eq hwidth hj]
  exact fixedDigits_lt h hj

/-- `floor(log10(n))` -/
theorem natFloor_logb_ten (n : Nat) : ⌊Real.logb 10 n⌋₊ = Nat.log 10 n := by
  exact_mod_cast Real.natFloor_logb_natCast 10 n

end Iams.Lib.Decimal
