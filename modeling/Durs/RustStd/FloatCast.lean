/-
# Integers through floating-point numbers

What is left of an integer that is read as a floating-point number and cast back.  It is kept when
53 bits hold it up to zeros behind, and when it is the greatest value of its type: what is rounded
above that value is cast to it.
-/

import Durs.RustStd.Float

namespace RustStd.Float64

/-- An integer that is read as a number and cast to an unsigned type. -/
def readUnsigned (bits n : ℕ) : ℕ := (nearest false n (natCast_nonneg n)).trunc.asUnsigned bits

/-- An integer that is read as a number and cast to a signed type. -/
def readSigned (bits : ℕ) (n : ℤ) : ℤ :=
  (nearest (n < 0) n.natAbs (natCast_nonneg n.natAbs)).trunc.asSigned bits

/-! ## Rounding -/

/-- An integer is rounded to at most the power of two above it. -/
theorem roundDouble_le_two_pow {n bits : ℕ} (hbits : 0 < bits) (h : n < 2 ^ bits) :
    roundDouble n ≤ 2 ^ bits := by
  have hlog : Int.log 2 (n : ℚ) < bits := by
    rcases Nat.eq_zero_or_pos n with rfl | hpos
    · rw [Nat.cast_zero, Int.log_of_right_le_zero 2 (le_refl _)]
      exact_mod_cast hbits
    · refine (Int.lt_zpow_iff_log_lt (b := 2) (by decide) (by exact_mod_cast hpos)).1 ?_
      exact_mod_cast h
  have hexp : ulpExponent n ≤ bits - 53 := max_le (by omega) (by omega)
  have hround : (roundEven ((n : ℚ) / 2 ^ ulpExponent n) : ℚ) ≤ 2 ^ (53 : ℤ) := by
    exact_mod_cast (roundEven_ulp_le (Nat.cast_nonneg n)).2
  calc roundDouble n ≤ 2 ^ (53 : ℤ) * 2 ^ ulpExponent n :=
        mul_le_mul_of_nonneg_right hround (two_zpow_pos _).le
    _ ≤ 2 ^ (53 : ℤ) * 2 ^ ((bits : ℤ) - 53) :=
        mul_le_mul_of_nonneg_left (zpow_le_zpow_right₀ (by norm_num) hexp) (two_zpow_pos _).le
    _ = 2 ^ bits := by
        rw [← zpow_add₀ (by norm_num), add_sub_cancel, zpow_natCast]

theorem roundDouble_lt {n bits : ℕ} (hbits : 0 < bits ∧ bits ≤ 64) (h : n < 2 ^ bits) :
    roundDouble n < 2 ^ 1024 := by
  refine lt_of_le_of_lt (roundDouble_le_two_pow hbits.1 h) ?_
  exact pow_lt_pow_right₀ (by norm_num) (by omega)

/-- Rounding down what an integer is rounded to gives the integer when 53 bits hold it. -/
theorem floor_roundDouble_eq_iff {n : ℕ} (h : roundDouble n < 2 ^ 1024) :
    ⌊roundDouble n⌋₊ = n ↔ IsDouble n := by
  constructor
  · intro heq
    have hround := isDouble_roundDouble (natCast_nonneg n) h
    have hfloor : ((⌊roundDouble n⌋ : ℤ) : ℚ) = n := by
      rw [← natCast_floor_eq_intCast_floor hround.nonneg, heq]
    exact hfloor ▸ isDouble_floor hround
  · intro hn
    rw [roundDouble_of_isDouble hn, Nat.floor_natCast]

/-! ## Casts -/

/-- The greatest value of a type is not rounded below itself. -/
def KeepsMax (bits : ℕ) : Prop :=
  0 < bits ∧ bits ≤ 64 ∧ ((2 ^ bits - 1 : ℕ) : ℚ) ≤ roundDouble ((2 ^ bits - 1 : ℕ) : ℚ)

theorem keepsMax_63 : KeepsMax 63 := by
  refine ⟨by decide, by decide, ?_⟩
  decide +kernel

theorem keepsMax_64 : KeepsMax 64 := by
  refine ⟨by decide, by decide, ?_⟩
  decide +kernel

theorem min_floor_roundDouble_eq_iff {bits n : ℕ} (hbits : KeepsMax bits) (h : n < 2 ^ bits) :
    min ⌊roundDouble n⌋₊ (2 ^ bits - 1) = n ↔ IsDouble n ∨ n = 2 ^ bits - 1 := by
  rcases hbits with ⟨hpos, hle, hmax⟩
  have hfloor := floor_roundDouble_eq_iff (roundDouble_lt ⟨hpos, hle⟩ h)
  rcases Nat.lt_or_eq_of_le (Nat.le_sub_one_of_lt h) with hlt | rfl
  · rw [or_iff_left hlt.ne, ← hfloor]
    omega
  · refine iff_of_true (min_eq_right ?_) (Or.inr rfl)
    exact Nat.le_floor hmax

theorem readUnsigned_eq {bits n : ℕ} (hbits : 0 < bits ∧ bits ≤ 64) (h : n < 2 ^ bits) :
    readUnsigned bits n = min ⌊roundDouble n⌋₊ (2 ^ bits - 1) := by
  have hfloor : ⌊((⌊roundDouble n⌋ : ℤ) : ℚ)⌋₊ = ⌊roundDouble n⌋₊ := by
    rw [← Int.floor_toNat, Int.floor_intCast, Int.floor_toNat]
  rw [readUnsigned, nearest, dif_pos (roundDouble_lt hbits h), ← hfloor]
  rfl

/-- An unsigned integer of 64 bits is kept exactly when 53 bits hold it up to zeros behind, or when
all of its bits are ones. -/
theorem readUnsigned_eq_iff {n : ℕ} (h : n < 2 ^ 64) :
    readUnsigned 64 n = n ↔ IsDouble n ∨ n = 2 ^ 64 - 1 := by
  rw [readUnsigned_eq ⟨by decide, by decide⟩ h, min_floor_roundDouble_eq_iff keepsMax_64 h]

/-- An unsigned integer of 32 bits is kept. -/
theorem readUnsigned_of_lt {n : ℕ} (h : n < 2 ^ 32) : readUnsigned 32 n = n := by
  have hn : ⌊roundDouble n⌋₊ = n :=
    (floor_roundDouble_eq_iff (roundDouble_lt ⟨by decide, by decide⟩ h)).2
      (isDouble_of_lt (lt_trans h (by norm_num)))
  rw [readUnsigned_eq ⟨by decide, by decide⟩ h, hn]
  exact min_eq_left (Nat.le_sub_one_of_lt h)

/-- A signed integer of 64 bits is kept exactly when 53 bits hold its absolute value up to zeros
behind, or when it is the greatest one. -/
theorem readSigned_eq_iff {n : ℤ} (hlow : -2 ^ 63 ≤ n) (hhigh : n < 2 ^ 63) :
    readSigned 64 n = n ↔ IsDouble n.natAbs ∨ n = 2 ^ 63 - 1 := by
  have hbits : n.natAbs < 2 ^ 64 := by omega
  have hlt : roundDouble n.natAbs < 2 ^ 1024 := roundDouble_lt ⟨by decide, by decide⟩ hbits
  have hfloor := floor_roundDouble_eq_iff hlt
  have hnat : (⌊roundDouble n.natAbs⌋ : ℤ) = ⌊roundDouble n.natAbs⌋₊ :=
    (Int.natCast_floor_eq_floor (isDouble_roundDouble (natCast_nonneg _) hlt).nonneg).symm
  rw [readSigned, nearest, dif_pos hlt]
  have hfloor' : ((⌊((⌊roundDouble n.natAbs⌋ : ℤ) : ℚ)⌋ : ℤ)) = ⌊roundDouble n.natAbs⌋₊ := by
    rw [Int.floor_intCast, hnat]
  by_cases hneg : n < 0
  · have hcast : (finite (decide (n < 0)) (roundDouble n.natAbs)
        (isDouble_roundDouble (natCast_nonneg _) hlt)).trunc.asSigned 64 =
        max (-(⌊roundDouble n.natAbs⌋₊ : ℤ)) (-2 ^ 63) := by
      rw [decide_eq_true hneg, ← hfloor']
      rfl
    have hmin : IsDouble ((2 ^ 63 : ℕ) : ℚ) := by
      refine isDouble_natCast (m := 1) (e := 63) (by norm_num) (by norm_num) ?_
      exact pow_lt_pow_right₀ (by norm_num) (by norm_num)
    rw [hcast, or_iff_left (by omega), ← hfloor]
    rcases Nat.lt_or_ge n.natAbs (2 ^ 63) with hbits | hbits
    · omega
    · have hn : n.natAbs = 2 ^ 63 := by omega
      rw [hn, roundDouble_of_isDouble hmin, Nat.floor_natCast]
      omega
  · have hcast : (finite (decide (n < 0)) (roundDouble n.natAbs)
        (isDouble_roundDouble (natCast_nonneg _) hlt)).trunc.asSigned 64 =
        min (⌊roundDouble n.natAbs⌋₊ : ℤ) (2 ^ 63 - 1) := by
      rw [decide_eq_false hneg, ← hfloor']
      rfl
    have hmin := min_floor_roundDouble_eq_iff keepsMax_63 (show n.natAbs < 2 ^ 63 by omega)
    rw [hcast]
    have hmax : n.natAbs = 2 ^ 63 - 1 ↔ n = 2 ^ 63 - 1 := by omega
    rw [← hmax, ← hmin]
    omega

end RustStd.Float64
