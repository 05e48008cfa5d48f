import Cose2.Cbor.Double
import Cose2.Cbor.Value
import Cose2.Error

/-! # Dates of CWT claims

`NumericDate` of `src/cwt.rs`: a number of seconds, an integer or a double.
Comparing the two forms goes through a truncation; it gives the order of the numbers.
-/
namespace Cose2

open Cbor

/-- `i128`. -/
abbrev Int128 := { i : Int // -2 ^ 127 ≤ i ∧ i < 2 ^ 127 }

/-- `i128::from` of an integer of CBOR. -/
def Int128.ofInteger (i : Integer) : Int128 :=
  ⟨i.val, by have := i.lower; omega, by have := i.upper; omega⟩

/-- The `i128` that arithmetic without overflow checks yields. -/
def Int128.wrap (i : Int) : Int128 :=
  ⟨i.bmod (2 ^ 128), by have := Int.le_bmod (x := i) (m := 2 ^ 128) (by decide); omega,
    by have := Int.bmod_lt (x := i) (m := 2 ^ 128) (by decide); omega⟩

theorem Int128.wrap_val {i : Int} (hlower : -2 ^ 127 ≤ i) (hupper : i < 2 ^ 127) :
    (Int128.wrap i).val = i :=
  Int.bmod_eq_of_le (by omega) (by omega)

/-- `NumericDate`. -/
inductive NumericDate where
  | integer (value : Int128)
  | float (bits : UInt64)
deriving DecidableEq

/-- A finite double `as i128`, which saturates. -/
def asInt128 (value : UInt64) : Int :=
  max (-2 ^ 127) (min (2 ^ 127 - 1) (Double.trunc (Double.toRat value)))

/-- `compare_f64_to_i128`. -/
def compareF64ToI128 (value : UInt64) (other : Int128) : Option Ordering :=
  if ¬ Double.IsFinite value then none
  else if Double.roundInt (2 ^ 127 - 1) ≤ Double.toRat value then some .gt
  else if Double.toRat value < Double.roundInt (-2 ^ 127) then some .lt
  else
    match compare (asInt128 value) other.val with
    | .eq =>
      if Double.toRat value = Double.roundInt (asInt128 value) then some .eq
      else if Double.negative value = true then some .lt
      else some .gt
    | ordering => some ordering

namespace NumericDate

/-- `NumericDate::compare`. -/
def compare : NumericDate → NumericDate → Option Ordering
  | .integer left, .integer right => some (Ord.compare left.val right.val)
  | .integer left, .float right => (compareF64ToI128 right left).map Ordering.swap
  | .float left, .integer right => compareF64ToI128 left right
  | .float left, .float right => Double.partialCmp left right

/-- `NumericDate::partial_cmp_integer`. -/
def partialCmpInteger (date : NumericDate) (other : Int128) : Option Ordering :=
  date.compare (.integer other)

/-- `NumericDate::from_f64`. -/
def fromF64 (value : UInt64) : Except Error NumericDate :=
  if ¬ Double.IsFinite value then
    .error (.unexpectedType "NumericDate must be a finite number")
  else .ok (.float value)

/-- `NumericDate::validate`. -/
def validate : NumericDate → Except Error NumericDate
  | .float value =>
    if ¬ Double.IsFinite value then
      .error (.unexpectedType "NumericDate must be a finite number")
    else .ok (.float value)
  | .integer value =>
    if value.val < -1 - 18446744073709551615 ∨ 18446744073709551615 < value.val then
      .error (.unexpectedType "NumericDate integer out of CBOR range")
    else .ok (.integer value)

/-- The date is not an infinity or not-a-number. -/
def IsFinite : NumericDate → Prop
  | .integer _ => True
  | .float bits => Double.IsFinite bits

/-- The number of seconds. -/
def toRat : NumericDate → ℚ
  | .integer value => value.val
  | .float bits => Double.toRat bits

/-- The date can be written: an integer that CBOR has, or a finite double. -/
def InRange : NumericDate → Prop
  | .integer value => -18446744073709551616 ≤ value.val ∧ value.val < 18446744073709551616
  | .float bits => Double.IsFinite bits

theorem InRange.isFinite {date : NumericDate} (h : date.InRange) : date.IsFinite := by
  cases date with
  | integer => exact trivial
  | float => exact h

theorem validate_ok {date date' : NumericDate} :
    date.validate = .ok date' ↔ date.InRange ∧ date' = date := by
  cases date with
  | integer value =>
    rw [validate, InRange]
    split_ifs with h
    · exact iff_of_false (by rintro ⟨⟩) (by omega)
    · simp only [Except.ok.injEq]
      exact ⟨fun he => ⟨by omega, he.symm⟩, fun he => he.2.symm⟩
  | float bits =>
    rw [validate, InRange]
    by_cases h : Double.IsFinite bits
    · rw [if_neg (not_not.mpr h), Except.ok.injEq]
      exact ⟨fun he => ⟨h, he.symm⟩, fun he => he.2.symm⟩
    · rw [if_pos h]
      exact iff_of_false (by rintro ⟨⟩) fun he => h he.1

end NumericDate

/-! ### Doubles and integers -/

/-- An integer is on the same side of a number as of its whole part. -/
theorem lt_of_trunc_lt {q : ℚ} {i : Int} (h : Double.trunc q < i) : q < i := by
  rcases le_or_gt 0 q with hq | hq
  · rw [Double.trunc_of_nonneg hq] at h
    exact Int.floor_lt.mp h
  · rw [Double.trunc_of_neg hq] at h
    exact (Int.le_ceil q).trans_lt (Int.cast_lt.mpr h)

theorem lt_of_lt_trunc {q : ℚ} {i : Int} (h : i < Double.trunc q) : i < q := by
  rcases le_or_gt 0 q with hq | hq
  · rw [Double.trunc_of_nonneg hq] at h
    exact (Int.cast_lt.mpr h).trans_le (Int.floor_le q)
  · rw [Double.trunc_of_neg hq] at h
    exact Int.lt_ceil.mp h

/-- The sign bit says on which side of its whole part a double is. -/
theorem toRat_lt_trunc {value : UInt64} (hsign : Double.negative value = true)
    (hne : Double.toRat value ≠ Double.trunc (Double.toRat value)) :
    Double.toRat value < Double.trunc (Double.toRat value) := by
  have hle := Double.toRat_nonpos hsign
  rcases hle.lt_or_eq with hneg | hzero
  · refine lt_of_le_of_ne ?_ hne
    rw [Double.trunc_of_neg hneg]
    exact Int.le_ceil _
  · rw [hzero] at hne
    exact absurd (by decide) hne

theorem trunc_lt_toRat {value : UInt64} (hsign : ¬ Double.negative value = true)
    (hne : Double.toRat value ≠ Double.trunc (Double.toRat value)) :
    Double.trunc (Double.toRat value) < Double.toRat value := by
  have hnonneg := Double.toRat_nonneg (Bool.eq_false_iff.mpr hsign)
  refine lt_of_le_of_ne ?_ hne.symm
  rw [Double.trunc_of_nonneg hnonneg]
  exact Int.floor_le _

/-- Between the bounds of `i128` nothing saturates. -/
theorem asInt128_eq {value : UInt64} (hlower : -2 ^ 127 ≤ Double.toRat value)
    (hupper : Double.toRat value < 2 ^ 127) :
    asInt128 value = Double.trunc (Double.toRat value) := by
  have hge : -2 ^ 127 ≤ Double.trunc (Double.toRat value) := by
    by_contra hlt
    have hbelow := lt_of_trunc_lt (not_le.mp hlt)
    push_cast at hbelow
    exact absurd hlower (not_le.mpr hbelow)
  have hle : Double.trunc (Double.toRat value) ≤ 2 ^ 127 - 1 := by
    rcases le_or_gt 0 (Double.toRat value) with hsign | hsign
    · rw [Double.trunc_of_nonneg hsign]
      have hfloor : ⌊Double.toRat value⌋ < 2 ^ 127 := Int.floor_lt.mpr (by exact_mod_cast hupper)
      omega
    · rw [Double.trunc_of_neg hsign]
      have hceil : ⌈Double.toRat value⌉ ≤ 0 := Int.ceil_le.mpr (by exact_mod_cast hsign.le)
      omega
  rw [asInt128, min_eq_right hle, max_eq_right hge]

/-- A double is compared with an integer as a number. -/
theorem compareF64ToI128_spec {value : UInt64} (h : Double.IsFinite value) (other : Int128) :
    compareF64ToI128 value other = some (compare (Double.toRat value) (other.val : ℚ)) := by
  obtain ⟨other, hlower, hupper⟩ := other
  have hmax : (Double.roundInt (2 ^ 127 - 1) : ℚ) = 2 ^ 127 := by
    rw [(by decide : Double.roundInt (2 ^ 127 - 1) = 2 ^ 127)]
    norm_num
  have hmin : (Double.roundInt (-2 ^ 127) : ℚ) = -2 ^ 127 := by
    rw [(by decide : Double.roundInt (-2 ^ 127) = -2 ^ 127)]
    norm_num
  have hother : -2 ^ 127 ≤ (other : ℚ) ∧ (other : ℚ) < 2 ^ 127 :=
    ⟨by exact_mod_cast hlower, by exact_mod_cast hupper⟩
  rw [compareF64ToI128, if_neg (not_not.mpr h), hmax, hmin]
  by_cases hhigh : 2 ^ 127 ≤ Double.toRat value
  · rw [if_pos hhigh, compare_gt_iff_gt.mpr (hother.2.trans_le hhigh)]
  by_cases hlow : Double.toRat value < -2 ^ 127
  · rw [if_neg hhigh, if_pos hlow, compare_lt_iff_lt.mpr (hlow.trans_le hother.1)]
  rw [if_neg hhigh, if_neg hlow, asInt128_eq (not_lt.mp hlow) (not_le.mp hhigh),
    Double.roundInt_trunc]
  rcases lt_trichotomy (Double.trunc (Double.toRat value)) other with hlt | heq | hgt
  · rw [compare_lt_iff_lt.mpr hlt, compare_lt_iff_lt.mpr (lt_of_trunc_lt hlt)]
  · rw [compare_eq_iff_eq.mpr heq]
    by_cases hwhole : Double.toRat value = Double.trunc (Double.toRat value)
    · rw [heq] at hwhole
      simp only [heq, if_pos hwhole, compare_eq_iff_eq.mpr hwhole]
    · by_cases hsign : Double.negative value = true
      · have hlt := toRat_lt_trunc hsign hwhole
        simp only [if_neg hwhole, if_pos hsign]
        rw [heq] at hlt
        rw [compare_lt_iff_lt.mpr hlt]
      · have hgt := trunc_lt_toRat hsign hwhole
        simp only [if_neg hwhole, if_neg hsign]
        rw [heq] at hgt
        rw [compare_gt_iff_gt.mpr hgt]
  · rw [compare_gt_iff_gt.mpr hgt, compare_gt_iff_gt.mpr (lt_of_lt_trunc hgt)]

namespace NumericDate

/-- Finite dates are compared as numbers, whatever their forms. -/
theorem compare_spec {left right : NumericDate} (hl : left.IsFinite) (hr : right.IsFinite) :
    left.compare right = some (Ord.compare left.toRat right.toRat) := by
  cases left with
  | integer left =>
    cases right with
    | integer right =>
      rw [compare, toRat, toRat]
      rcases lt_trichotomy left.val right.val with hlt | heq | hgt
      · rw [compare_lt_iff_lt.mpr hlt, compare_lt_iff_lt.mpr (Int.cast_lt.mpr hlt)]
      · rw [heq, compare_eq_iff_eq.mpr rfl, compare_eq_iff_eq.mpr rfl]
      · rw [compare_gt_iff_gt.mpr hgt, compare_gt_iff_gt.mpr (Int.cast_lt.mpr hgt)]
    | float right =>
      rw [compare, compareF64ToI128_spec hr, Option.map_some, toRat, toRat,
        ← cmp_eq_compare, cmp_swap, cmp_eq_compare]
  | float left =>
    cases right with
    | integer right => exact compareF64ToI128_spec hl right
    | float right => exact Double.partialCmp_of_finite hl hr

theorem compare_ne_gt {left right : NumericDate} (hl : left.IsFinite) (hr : right.IsFinite) :
    left.compare right ≠ some .gt ↔ left.toRat ≤ right.toRat := by
  rw [compare_spec hl hr, ne_eq, Option.some.injEq, compare_gt_iff_gt, not_lt]

theorem compare_eq_eq {left right : NumericDate} (hl : left.IsFinite) (hr : right.IsFinite) :
    left.compare right = some .eq ↔ left.toRat = right.toRat := by
  rw [compare_spec hl hr, Option.some.injEq, compare_eq_iff_eq]

/-- Dates change places. -/
theorem compare_swap {left right : NumericDate} (hl : left.IsFinite) (hr : right.IsFinite) :
    right.compare left = (left.compare right).map Ordering.swap := by
  rw [compare_spec hl hr, compare_spec hr hl, Option.map_some, ← cmp_eq_compare,
    ← cmp_eq_compare, cmp_swap]

end NumericDate
end Cose2
