/-
# Blockstamps

A block is identified by its number and its hash.
-/

import Durs.Documents.Keys

namespace Durs

/-- The hash of a block. -/
abbrev BlockHash := Hash

/-- The number of a block, a `u32` in the source. -/
abbrev BlockNumber := Nat

/-- `number - 1` on `u32`, which wraps in the release profile. -/
def previousBlockNumber (number : BlockNumber) : BlockNumber :=
  if number = 0 then 4294967295 else number - 1

/-- A block identifier. -/
structure Blockstamp where
  id : BlockNumber
  hash : BlockHash
deriving DecidableEq, Repr

namespace Blockstamp

/-- `Blockstamp::default()`: the current blockstamp of a node without blocks. -/
instance : Inhabited Blockstamp :=
  ⟨⟨0, 0⟩⟩

end Blockstamp

end Durs
