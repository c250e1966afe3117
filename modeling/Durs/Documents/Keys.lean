/-
# Hashes, keys and signatures

The byte strings that the documents carry.  Only the Ed25519 variant of a key and of a signature
can be built, so it stands for the whole type.
-/

import Mathlib.Algebra.Order.Ring.Int

namespace Durs

/-- A hash of 32 bytes. -/
abbrev Hash := BitVec 256

/-- A digit of the upper-case hexadecimal text. -/
def hexDigit (n : Nat) : Char :=
  if n < 10 then Char.ofNat (48 + n) else Char.ofNat (55 + n)

/-- `Hash::to_hex`: two digits for each byte, the first byte first. -/
def Hash.toHex (hash : Hash) : String :=
  String.ofList ((List.range 64).map fun i => hexDigit (hash.toNat / 16 ^ (63 - i) % 16))

/-- A public key of 32 bytes. -/
structure PubKey where
  bytes : BitVec 256
deriving DecidableEq, Repr

/-- A signature of 64 bytes. -/
structure Sig where
  bytes : BitVec 512
deriving DecidableEq, Repr

end Durs
