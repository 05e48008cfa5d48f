import Mathlib.Tactic
import Mathlib.Data.Rat.Floor
import Mathlib.Algebra.Order.Floor.Div

/-! # Doubles as numbers

A double is given by its bits.  A finite one is a dyadic rational (`Double.toRat`),
and the operations on doubles are given by what they do to these numbers.
-/
namespace Cbor.Double

/-- `is_sign_negative`: the sign bit. -/
def negative (bits : UInt64) : Bool := decide (2 ^ 63 ≤ bits.toNat)

/-- The biased exponent. -/
def exponent (bits : UInt64) : Nat := bits.toNat / 2 ^ 52 % 2 ^ 11

/-- The stored digits of the fraction. -/
def fraction (bits : UInt64) : Nat := bits.toNat % 2 ^ 52

/-- `is_finite`. -/
def IsFinite (bits : UInt64) : Prop := exponent bits ≠ 2047

instance (bits : UInt64) : Decidable (IsFinite bits) := inferInstanceAs (Decidable (_ ≠ _))

/-- The significant digits, with the leading one of a normal number. -/
def mantissa (bits : UInt64) : Nat :=
  if exponent bits = 0 then fraction bits else 2 ^ 52 + fraction bits

/-- The power of two that the digits are multiplied with. -/
def scale (bits : UInt64) : Int := if exponent bits = 0 then -1074 else exponent bits - 1075

/-- The size of a finite double. -/
def magnitude (bits : UInt64) : ℚ := mantissa bits * 2 ^ scale bits

/-- The number a finite double stands for. -/
def toRat (bits : UInt64) : ℚ := if negative bits = true then -magnitude bits else magnitude bits

theorem mantissa_lt (bits : UInt64) : mantissa bits < 2 ^ 53 := by
  have hfraction : fraction bits < 2 ^ 52 := Nat.mod_lt _ (by decide)
  rw [mantissa]
  split_ifs <;> omega

theorem magnitude_nonneg (bits : UInt64) : 0 ≤ magnitude bits := by
  rw [magnitude]
  positivity

/-! ### Integers and doubles -/

/-- Cut off towards zero. -/
def trunc (q : ℚ) : Int := if q < 0 then ⌈q⌉ else ⌊q⌋

/-- The double nearest to an integer, of two the one with even digits. -/
def roundInt (i : Int) : Int :=
  let cut := Nat.log2 i.natAbs - 52
  let digits := i.natAbs / 2 ^ cut
  let rest := i.natAbs % 2 ^ cut
  let up := 2 ^ cut < 2 * rest ∨ (2 * rest = 2 ^ cut ∧ digits % 2 = 1)
  i.sign * ((if up then digits + 1 else digits) * 2 ^ cut : Nat)

/-- An integer of at most 53 digits and zeros behind them is a double. -/
theorem roundInt_eq_self {i : Int} {m e : Nat} (hm : m < 2 ^ 53) (hi : i.natAbs = m * 2 ^ e) :
    roundInt i = i := by
  have hcut : Nat.log2 i.natAbs - 52 ≤ e := by
    by_cases hzero : i.natAbs = 0
    · rw [hzero]
      exact Nat.zero_le e
    · have hlt : i.natAbs < 2 ^ (53 + e) := by
        rw [hi, pow_add]
        exact Nat.mul_lt_mul_of_pos_right hm (Nat.two_pow_pos e)
      have hlog := (Nat.log2_lt hzero).mpr hlt
      omega
  have hdvd : 2 ^ (Nat.log2 i.natAbs - 52) ∣ i.natAbs := by
    have hpow : 2 ^ (Nat.log2 i.natAbs - 52) ∣ m * 2 ^ e :=
      (pow_dvd_pow 2 hcut).trans (Nat.dvd_mul_left _ _)
    rwa [← hi] at hpow
  have hrest : i.natAbs % 2 ^ (Nat.log2 i.natAbs - 52) = 0 := Nat.mod_eq_zero_of_dvd hdvd
  have hpos := Nat.two_pow_pos (Nat.log2 i.natAbs - 52)
  rw [roundInt, hrest, if_neg (by omega), Nat.div_mul_cancel hdvd]
  exact Int.sign_mul_natAbs i

theorem natAbs_trunc_toRat (bits : UInt64) :
    (trunc (toRat bits)).natAbs = ⌊magnitude bits⌋₊ := by
  have hnonneg := magnitude_nonneg bits
  rw [trunc, toRat]
  by_cases hsign : negative bits = true
  · rw [if_pos hsign]
    by_cases hzero : magnitude bits = 0
    · rw [hzero]
      simp
    · have hpos : 0 < magnitude bits := lt_of_le_of_ne hnonneg (Ne.symm hzero)
      rw [if_pos (by linarith), Int.ceil_neg, Int.natAbs_neg, ← Int.natCast_floor_eq_floor hnonneg,
        Int.natAbs_natCast]
  · rw [if_neg hsign, if_neg (not_lt.mpr hnonneg), ← Int.natCast_floor_eq_floor hnonneg,
      Int.natAbs_natCast]

/-- The whole part of a double is a double. -/
theorem roundInt_trunc (bits : UInt64) : roundInt (trunc (toRat bits)) = trunc (toRat bits) := by
  have hm := mantissa_lt bits
  rcases le_or_gt 0 (scale bits) with hscale | hscale
  · obtain ⟨e, he⟩ := Int.eq_ofNat_of_zero_le hscale
    refine roundInt_eq_self (e := e) hm ?_
    rw [natAbs_trunc_toRat, magnitude, he, zpow_natCast]
    exact_mod_cast Nat.floor_natCast (R := ℚ) (mantissa bits * 2 ^ e)
  · have hle : magnitude bits ≤ mantissa bits := by
      rw [magnitude]
      exact mul_le_of_le_one_right (Nat.cast_nonneg _)
        (zpow_le_one_of_nonpos₀ one_le_two hscale.le)
    have hfloor : ⌊magnitude bits⌋₊ ≤ mantissa bits := by
      have hmono := Nat.floor_le_floor hle
      rwa [Nat.floor_natCast] at hmono
    refine roundInt_eq_self (e := 0) (hfloor.trans_lt hm) ?_
    rw [natAbs_trunc_toRat, pow_zero, mul_one]

theorem trunc_of_nonneg {q : ℚ} (h : 0 ≤ q) : trunc q = ⌊q⌋ := if_neg (not_lt.mpr h)

theorem trunc_of_neg {q : ℚ} (h : q < 0) : trunc q = ⌈q⌉ := if_pos h

theorem toRat_nonneg {bits : UInt64} (h : negative bits = false) : 0 ≤ toRat bits := by
  rw [toRat, h]
  exact magnitude_nonneg bits

theorem toRat_nonpos {bits : UInt64} (h : negative bits = true) : toRat bits ≤ 0 := by
  rw [toRat, if_pos h]
  exact neg_nonpos.mpr (magnitude_nonneg bits)

/-! ### Comparing -/

/-- `is_nan`. -/
def IsNan (bits : UInt64) : Prop := exponent bits = 2047 ∧ fraction bits ≠ 0

instance (bits : UInt64) : Decidable (IsNan bits) := inferInstanceAs (Decidable (_ ∧ _))

/-- The side of all numbers an infinity is on. -/
def rank (bits : UInt64) : Int :=
  if IsFinite bits then 0 else if negative bits = true then -1 else 1

/-- `partial_cmp` of doubles. -/
def partialCmp (a b : UInt64) : Option Ordering :=
  if IsNan a ∨ IsNan b then none
  else some ((compare (rank a) (rank b)).then (compare (toRat a) (toRat b)))

theorem IsFinite.not_isNan {bits : UInt64} (h : IsFinite bits) : ¬ IsNan bits :=
  fun hnan => h hnan.1

/-- Finite doubles are compared as numbers. -/
theorem partialCmp_of_finite {a b : UInt64} (ha : IsFinite a) (hb : IsFinite b) :
    partialCmp a b = some (compare (toRat a) (toRat b)) := by
  have hnan : ¬ (IsNan a ∨ IsNan b) := not_or.mpr ⟨ha.not_isNan, hb.not_isNan⟩
  rw [partialCmp, if_neg hnan, rank, if_pos ha, rank, if_pos hb]
  rfl

end Cbor.Double
