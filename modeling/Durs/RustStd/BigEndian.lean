/-
# Big-endian numbers

Writing and reading numbers as byte strings of a fixed width, most significant byte first.
-/

import Mathlib.Algebra.Order.Ring.Int
import Mathlib.Data.List.Induction

namespace RustStd

/-- The low `width` bytes of a number. -/
def bigEndian : Nat → Nat → List UInt8
  | 0, _ => []
  | width + 1, n => bigEndian width (n / 256) ++ [UInt8.ofNat n]

/-- The number that a byte string stands for. -/
def readBigEndian (bytes : List UInt8) : Nat :=
  bytes.foldl (fun n byte => 256 * n + byte.toNat) 0

@[simp]
theorem bigEndian_length (width n : Nat) : (bigEndian width n).length = width := by
  induction width generalizing n with
  | zero => rfl
  | succ width ih => rw [bigEndian, List.length_append, ih, List.length_singleton]

theorem readBigEndian_append_singleton (bytes : List UInt8) (byte : UInt8) :
    readBigEndian (bytes ++ [byte]) = 256 * readBigEndian bytes + byte.toNat := by
  rw [readBigEndian, List.foldl_append]
  rfl

/-- A number is read back modulo the range of the width. -/
theorem readBigEndian_bigEndian (width n : Nat) :
    readBigEndian (bigEndian width n) = n % 256 ^ width := by
  induction width generalizing n with
  | zero =>
      rw [bigEndian, Nat.pow_zero, Nat.mod_one]
      rfl
  | succ width ih =>
      rw [bigEndian, readBigEndian_append_singleton, ih, Nat.pow_succ, Nat.mul_comm (256 ^ width),
        Nat.mod_mul, UInt8.toNat_ofNat']
      omega

theorem readBigEndian_bigEndian_of_lt {width n : Nat} (h : n < 256 ^ width) :
    readBigEndian (bigEndian width n) = n := by
  rw [readBigEndian_bigEndian, Nat.mod_eq_of_lt h]

/-- A byte string is the writing of the number it stands for. -/
theorem bigEndian_readBigEndian (bytes : List UInt8) :
    bigEndian bytes.length (readBigEndian bytes) = bytes := by
  induction bytes using List.reverseRecOn with
  | nil => rfl
  | append_singleton bytes byte ih =>
      rw [List.length_append, List.length_singleton, readBigEndian_append_singleton, bigEndian]
      have hlt := byte.toNat_lt
      have hquotient : (256 * readBigEndian bytes + byte.toNat) / 256 = readBigEndian bytes := by
        omega
      have hbyte : UInt8.ofNat (256 * readBigEndian bytes + byte.toNat) = byte := by
        rw [← UInt8.toNat_inj, UInt8.toNat_ofNat']
        omega
      rw [hquotient, ih, hbyte]

end RustStd
