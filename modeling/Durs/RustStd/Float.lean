/-
# Floating-point numbers

The numbers of `f64`, with the rounding of a decimal to the nearest of them.  A magnitude is kept as
the rational number that it is; a number of at most 53 bits is its own rounding.
-/

import Mathlib.Algebra.Order.Field.Power
import Mathlib.Data.Int.Log
import Mathlib.Data.Rat.Floor
import Mathlib.Tactic.Linarith
import Mathlib.Tactic.Positivity

namespace RustStd

/-! ## Magnitudes -/

/-- The magnitudes of the finite numbers: 53 bits at an exponent that is not too small, below the
bound from which a number is infinite. -/
def IsDouble (q : ℚ) : Prop :=
  ∃ (m : ℕ) (e : ℤ), m < 2 ^ 53 ∧ -1074 ≤ e ∧ q = m * 2 ^ e ∧ q < 2 ^ 1024

theorem IsDouble.nonneg {q : ℚ} (h : IsDouble q) : 0 ≤ q := by
  rcases h with ⟨m, e, -, -, rfl, -⟩
  positivity

theorem IsDouble.lt {q : ℚ} (h : IsDouble q) : q < 2 ^ 1024 := by
  rcases h with ⟨m, e, -, -, -, hlt⟩
  exact hlt

/-- The natural numbers of at most 53 bits, and those that these give with zero bits behind. -/
theorem isDouble_natCast {n m e : ℕ} (hm : m < 2 ^ 53) (hn : n = m * 2 ^ e) (hlt : n < 2 ^ 1024) :
    IsDouble n := by
  refine ⟨m, e, hm, by omega, ?_, by exact_mod_cast hlt⟩
  rw [hn, zpow_natCast]
  push_cast
  rfl

/-! ## Rounding -/

/-- The nearest integer, the even one of two. -/
def roundEven (q : ℚ) : ℤ :=
  if q - ⌊q⌋ < 1 / 2 ∨ q - ⌊q⌋ = 1 / 2 ∧ ⌊q⌋ % 2 = 0 then ⌊q⌋ else ⌊q⌋ + 1

theorem roundEven_intCast (n : ℤ) : roundEven n = n := by
  rw [roundEven, Int.floor_intCast, if_pos]
  left
  rw [sub_self]
  norm_num

theorem floor_le_roundEven (q : ℚ) : ⌊q⌋ ≤ roundEven q := by
  rw [roundEven]
  split
  case isTrue => exact le_refl _
  case isFalse => exact Int.le_add_one (le_refl _)

theorem roundEven_le (q : ℚ) : roundEven q ≤ ⌊q⌋ + 1 := by
  rw [roundEven]
  split
  case isTrue => exact Int.le_add_one (le_refl _)
  case isFalse => exact le_refl _

/-- The exponent of the last of the 53 bits of a magnitude. -/
def ulpExponent (q : ℚ) : ℤ := max (Int.log 2 q - 52) (-1074)

/-- The nearest magnitude of 53 bits. -/
def roundDouble (q : ℚ) : ℚ := roundEven (q / 2 ^ ulpExponent q) * 2 ^ ulpExponent q

theorem two_zpow_pos (e : ℤ) : (0 : ℚ) < 2 ^ e := zpow_pos (by norm_num) e

theorem lt_two_zpow_ulpExponent {q : ℚ} : q < 2 ^ (ulpExponent q + 53) := by
  have hlog : q < 2 ^ (Int.log 2 q + 1) := by
    exact_mod_cast Int.lt_zpow_succ_log_self (b := 2) (by decide) q
  refine lt_of_lt_of_le hlog (zpow_le_zpow_right₀ (by norm_num) ?_)
  have hle : Int.log 2 q - 52 ≤ ulpExponent q := le_max_left _ _
  omega

/-- The bits of a rounded magnitude. -/
theorem roundEven_ulp_le {q : ℚ} (hq : 0 ≤ q) :
    0 ≤ roundEven (q / 2 ^ ulpExponent q) ∧ roundEven (q / 2 ^ ulpExponent q) ≤ 2 ^ 53 := by
  have hpos := two_zpow_pos (ulpExponent q)
  have hlow : 0 ≤ q / 2 ^ ulpExponent q := div_nonneg hq hpos.le
  have hhigh : q / 2 ^ ulpExponent q < 2 ^ 53 := by
    rw [div_lt_iff₀ hpos, ← zpow_natCast, ← zpow_add₀ (by norm_num), add_comm]
    exact lt_two_zpow_ulpExponent
  have hfloor : ⌊q / 2 ^ ulpExponent q⌋ < 2 ^ 53 := Int.floor_lt.2 (by exact_mod_cast hhigh)
  exact ⟨le_trans (Int.floor_nonneg.2 hlow) (floor_le_roundEven _),
    le_trans (roundEven_le _) hfloor⟩

/-- The rounded magnitude is the one of a number, unless it is too large. -/
theorem isDouble_roundDouble {q : ℚ} (hq : 0 ≤ q) (h : roundDouble q < 2 ^ 1024) :
    IsDouble (roundDouble q) := by
  rcases roundEven_ulp_le hq with ⟨hlow, hhigh⟩
  have hexp : -1074 ≤ ulpExponent q := le_max_right _ _
  obtain ⟨m, hm⟩ := Int.eq_ofNat_of_zero_le hlow
  have hvalue : roundDouble q = m * 2 ^ ulpExponent q := by
    rw [roundDouble, hm]
    rfl
  rw [hm] at hhigh
  rcases Nat.lt_or_eq_of_le (show m ≤ 2 ^ 53 by exact_mod_cast hhigh) with hlt | rfl
  · exact ⟨m, _, hlt, hexp, hvalue, h⟩
  · -- the carry gives one more bit
    refine ⟨2 ^ 52, ulpExponent q + 1, by norm_num, by omega, ?_, h⟩
    rw [hvalue, zpow_add₀ (by norm_num)]
    push_cast
    ring

/-- A magnitude of at most 53 bits is its own rounding. -/
theorem roundDouble_of_isDouble {q : ℚ} (h : IsDouble q) : roundDouble q = q := by
  rcases h with ⟨m, e, hm, he, rfl, -⟩
  have hle : m = 0 ∨ ulpExponent (m * 2 ^ e) ≤ e := by
    rcases Nat.eq_zero_or_pos m with rfl | hpos
    · exact Or.inl rfl
    · right
      have hq : (0 : ℚ) < m * 2 ^ e := mul_pos (by exact_mod_cast hpos) (two_zpow_pos e)
      have hlog : (2 : ℚ) ^ Int.log 2 ((m : ℚ) * 2 ^ e) ≤ m * 2 ^ e := by
        exact_mod_cast Int.zpow_log_le_self (b := 2) (by decide) hq
      have hlt : (m : ℚ) * 2 ^ e < 2 ^ (e + 53) := by
        rw [add_comm, zpow_add₀ (by norm_num)]
        refine mul_lt_mul_of_pos_right ?_ (two_zpow_pos e)
        exact_mod_cast hm
      have hexp := (zpow_lt_zpow_iff_right₀ (by norm_num : (1 : ℚ) < 2)).1 (lt_of_le_of_lt hlog hlt)
      exact max_le (by omega) he
  rcases hle with rfl | hle
  · rw [Nat.cast_zero, zero_mul, roundDouble, zero_div]
    have hzero : roundEven 0 = 0 := roundEven_intCast 0
    rw [hzero, Int.cast_zero, zero_mul]
  · obtain ⟨k, hk⟩ := Int.eq_ofNat_of_zero_le (sub_nonneg.2 hle)
    have hbits : (m : ℚ) * 2 ^ e / 2 ^ ulpExponent (m * 2 ^ e) = ((m * 2 ^ k : ℤ) : ℚ) := by
      rw [mul_div_assoc, ← zpow_sub₀ (by norm_num), hk]
      push_cast
      rw [zpow_natCast]
    rw [roundDouble, hbits, roundEven_intCast, ← hbits]
    exact div_mul_cancel₀ _ (two_zpow_pos _).ne'

/-- A rounded magnitude keeps the highest bit. -/
theorem zpow_log_le_roundDouble {q : ℚ} (hq : 0 < q) (hlog : -1022 ≤ Int.log 2 q) :
    2 ^ Int.log 2 q ≤ roundDouble q := by
  have hpow : ((2 ^ 52 : ℤ) : ℚ) * 2 ^ ulpExponent q = 2 ^ Int.log 2 q := by
    have hexp : ulpExponent q = Int.log 2 q - 52 := max_eq_left (by omega)
    have hbits : ((2 ^ 52 : ℤ) : ℚ) = 2 ^ (52 : ℤ) := by norm_num
    rw [hexp, hbits, ← zpow_add₀ (by norm_num), add_sub_cancel]
  have hle : (2 : ℚ) ^ Int.log 2 q ≤ q := by
    exact_mod_cast Int.zpow_log_le_self (b := 2) (by decide) hq
  have hbits : (2 : ℤ) ^ 52 ≤ ⌊q / 2 ^ ulpExponent q⌋ := by
    rw [Int.le_floor, le_div_iff₀ (two_zpow_pos _), hpow]
    exact hle
  have hround : ((2 ^ 52 : ℤ) : ℚ) ≤ roundEven (q / 2 ^ ulpExponent q) := by
    exact_mod_cast le_trans hbits (floor_le_roundEven _)
  calc (2 : ℚ) ^ Int.log 2 q = ((2 ^ 52 : ℤ) : ℚ) * 2 ^ ulpExponent q := hpow.symm
    _ ≤ roundDouble q := mul_le_mul_of_nonneg_right hround (two_zpow_pos _).le

/-! ## Numbers -/

/-- A number of 64 bits. -/
inductive Float64
  | finite (negative : Bool) (magnitude : ℚ) (isDouble : IsDouble magnitude)
  | infinite (negative : Bool)
  | nan

namespace Float64

theorem natCast_nonneg (n : ℕ) : (0 : ℚ) ≤ n := Nat.cast_nonneg n

/-- The nearest number of a sign and a magnitude. -/
def nearest (negative : Bool) (q : ℚ) (hq : 0 ≤ q) : Float64 :=
  if h : roundDouble q < 2 ^ 1024 then
    finite negative (roundDouble q) (isDouble_roundDouble hq h)
  else infinite negative

/-- A magnitude is the nearest to itself. -/
theorem nearest_of_isDouble (negative : Bool) {q : ℚ} (h : IsDouble q) :
    nearest negative q h.nonneg = finite negative q h := by
  have hround := roundDouble_of_isDouble h
  have hlt : roundDouble q < 2 ^ 1024 := by
    rw [hround]
    exact h.lt
  rw [nearest, dif_pos hlt]
  congr

/-- A magnitude with a sign. -/
def signed (negative : Bool) (q : ℚ) : ℚ := if negative then -q else q

/-- `==`: the two zeros are equal, and what is no number is equal to nothing. -/
def beq : Float64 → Float64 → Bool
  | finite negative q _, finite negative' q' _ => signed negative q = signed negative' q'
  | infinite negative, infinite negative' => negative = negative'
  | _, _ => false

theorem beq_finite_self {negative : Bool} {q : ℚ} {h : IsDouble q} :
    beq (finite negative q h) (finite negative q h) = true := decide_eq_true rfl

theorem isDouble_of_lt {n : ℕ} (h : n < 2 ^ 53) : IsDouble n := by
  have hbound : (2 : ℕ) ^ 53 ≤ 2 ^ 1024 := pow_le_pow_right₀ one_le_two (by norm_num)
  exact isDouble_natCast (e := 0) h (by simp) (lt_of_lt_of_le h hbound)

theorem isDouble_floor {q : ℚ} (h : IsDouble q) : IsDouble ⌊q⌋ := by
  have hlow : 0 ≤ ⌊q⌋ := Int.floor_nonneg.2 h.nonneg
  have hle : (⌊q⌋ : ℚ) ≤ q := Int.floor_le q
  obtain ⟨n, hn⟩ := Int.eq_ofNat_of_zero_le hlow
  rcases h with ⟨m, e, hm, he, rfl, hlt⟩
  rcases le_or_gt 0 e with hexp | hexp
  · obtain ⟨k, rfl⟩ := Int.eq_ofNat_of_zero_le hexp
    have hwhole : (m : ℚ) * 2 ^ (k : ℤ) = ((m * 2 ^ k : ℤ) : ℚ) := by
      push_cast
      rw [zpow_natCast]
    rw [hwhole, Int.floor_intCast, ← hwhole]
    exact ⟨m, k, hm, he, rfl, hlt⟩
  · have hbits : (m : ℚ) * 2 ^ e ≤ m :=
      mul_le_of_le_one_right (Nat.cast_nonneg m) (zpow_le_one_of_nonpos₀ (by norm_num) hexp.le)
    rw [hn] at hle ⊢
    have hlt' : n ≤ m := by exact_mod_cast le_trans hle hbits
    have hbound : (2 : ℕ) ^ 53 ≤ 2 ^ 1024 := pow_le_pow_right₀ one_le_two (by norm_num)
    have hn' := lt_of_le_of_lt hlt' hm
    exact isDouble_natCast (e := 0) hn' (by simp) (lt_of_lt_of_le hn' hbound)

/-- `f64::trunc`. -/
def trunc : Float64 → Float64
  | finite negative q h => finite negative ⌊q⌋ (isDouble_floor h)
  | infinite negative => infinite negative
  | nan => nan

/-- `as`, to an unsigned type: the nearest value of the type. -/
def asUnsigned (bits : ℕ) : Float64 → ℕ
  | finite negative q _ => if negative then 0 else min ⌊q⌋₊ (2 ^ bits - 1)
  | infinite negative => if negative then 0 else 2 ^ bits - 1
  | nan => 0

theorem asUnsigned_lt (x : Float64) (bits : ℕ) : x.asUnsigned bits < 2 ^ bits := by
  have hpos : 0 < 2 ^ bits := Nat.two_pow_pos bits
  cases x with
  | finite negative q _ =>
      rw [asUnsigned]
      split <;> omega
  | infinite negative =>
      rw [asUnsigned]
      split <;> omega
  | nan => exact hpos

/-- `as`, to a signed type: the nearest value of the type. -/
def asSigned (bits : ℕ) : Float64 → ℤ
  | finite negative q _ =>
      if negative then max (-⌊q⌋) (-2 ^ (bits - 1)) else min ⌊q⌋ (2 ^ (bits - 1) - 1)
  | infinite negative => if negative then -2 ^ (bits - 1) else 2 ^ (bits - 1) - 1
  | nan => 0

end Float64

end RustStd
