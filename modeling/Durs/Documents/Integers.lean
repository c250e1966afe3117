/-
# Machine integers

The unsigned operations that wrap in the release profile, on natural numbers.
-/

namespace Durs

/-- Addition of `u32`. -/
def addU32 (a b : Nat) : Nat := (a + b) % 4294967296

/-- Addition of `u64`. -/
def addU64 (a b : Nat) : Nat := (a + b) % 18446744073709551616

/-- Subtraction of `u64`. -/
def subU64 (a b : Nat) : Nat :=
  if b ≤ a then a - b else a + 18446744073709551616 - b

end Durs
