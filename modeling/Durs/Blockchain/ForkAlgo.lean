/-
# The fork resolution algorithm

Which fork branch, if any, the node should switch to: the first, from the highest sheet down, that
is far enough ahead of the current block.
-/

import Durs.Dal.Databases
import Durs.Documents.Integers
import Mathlib.Data.List.Sort

namespace Durs

open RustStd

/-- Number of advance blocks required. -/
def advanceBlocks : Nat := 3

/-- Advance blockchain time required, in seconds. -/
def advanceTime : Nat := 900

/-- A sheet of the fork tree with its blockstamp. -/
abbrev Sheet := TreeNodeId × Blockstamp

/-- `sort_unstable_by` with the higher block first: nothing is said of the sheets at the same
height. -/
structure SheetSort where
  sort : List Sheet → List Sheet
  perm : ∀ sheets, (sort sheets).Perm sheets
  sorted : ∀ sheets, (sort sheets).Pairwise fun s1 s2 => s2.2.id ≤ s1.2.id

/-- A sort that keeps the order of the sheets at the same height. -/
def SheetSort.insertion : SheetSort where
  sort := List.insertionSort fun s1 s2 => s2.2.id ≤ s1.2.id
  perm := List.perm_insertionSort _
  sorted := by
    intro sheets
    have : Std.Total fun s1 s2 : Sheet => s2.2.id ≤ s1.2.id := ⟨fun _ _ => Nat.le_total _ _⟩
    have : IsTrans Sheet fun s1 s2 => s2.2.id ≤ s1.2.id := ⟨fun _ _ _ h h' => Nat.le_trans h' h⟩
    exact List.pairwise_insertionSort _ _

/-- What the switch to a branch requires: its head is far enough ahead of the current block, in
number and in time, its first block is within the fork window, and no block of it is invalid. -/
def Advanced (currentBlockstamp : Blockstamp) (currentBcTime : Nat)
    (invalidBlocks : HashSet Blockstamp) (branch : List Blockstamp)
    (first branchHead : Blockstamp) (branchHeadMedianTime : Nat) : Prop :=
  branchHead.id ≥ addU32 currentBlockstamp.id advanceBlocks ∧
    branchHeadMedianTime ≥ addU64 currentBcTime advanceTime ∧
    addU32 first.id forkWindowSize > currentBlockstamp.id ∧
    branch.all fun blockstamp => !invalidBlocks.contains blockstamp

instance (currentBlockstamp : Blockstamp) (currentBcTime : Nat) (invalidBlocks : HashSet Blockstamp)
    (branch : List Blockstamp) (first branchHead : Blockstamp) (branchHeadMedianTime : Nat) :
    Decidable (Advanced currentBlockstamp currentBcTime invalidBlocks branch first branchHead
      branchHeadMedianTime) :=
  inferInstanceAs (Decidable (_ ∧ _))

variable (S : SheetSort) (forks : ForksDBs) (currentBlockstamp : Blockstamp)
  (currentBcTime : Nat) (invalidBlocks : HashSet Blockstamp)

/-- The branch of a sheet, if the switch to it is due. -/
def selectBranch (sheet : Sheet) : Run (Option (List Blockstamp)) := do
  let branch ← forks.forkTreeDb.getForkBranch sheet.1
  match branch.head?, branch.getLast? with
  | some first, some branchHead => do
      let headBlock ← expect (forks.forkBlocksDb.get? branchHead) "safe unwrap"
      return if Advanced currentBlockstamp currentBcTime invalidBlocks branch first branchHead
        headBlock.block.medianTime then some branch else none
  | _, _ => return none

/-- The loop over the sheets. -/
def resolveSheets : List Sheet → Run (Option (List Blockstamp))
  | [] => return none
  | sheet :: sheets => do
      let selected ←
        if sheet.2 ≠ currentBlockstamp then
          selectBranch forks currentBlockstamp currentBcTime invalidBlocks sheet
        else pure none
      match selected with
      | some branch => return some branch
      | none => resolveSheets sheets

/-- The branch to switch to, if any. -/
def forkResolutionAlgo : Run (Option (List Blockstamp)) := do
  let currentBlock ← expect (forks.forkBlocksDb.get? currentBlockstamp) "safe unwrap"
  let sheets ← forks.forkTreeDb.getSheets
  resolveSheets forks currentBlockstamp currentBlock.block.medianTime invalidBlocks (S.sort sheets)

end Durs
