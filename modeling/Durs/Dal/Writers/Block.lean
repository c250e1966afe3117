/-
# Writing blocks

How blocks enter the local blockchain, the fork tree, the fork store and the orphan store, and how
the main branch changes after a rollback.
-/

import Durs.Dal.Databases

namespace Durs

open RustStd

/-! ## The fork tree -/

namespace ForkTree

/-- The parent of a new head block: the main block of the number before, unless the block has
number zero or the tree is empty. -/
def headParentId (t : ForkTree) (blockstamp : Blockstamp) : Run (Option TreeNodeId) :=
  if blockstamp.id > 0 ∧ t.size > 0 then do
    let id ← expect (t.getMainBranchNodeId (blockstamp.id - 1))
      "Fatal error: fail to insert new head block : previous block not exist in main branch"
    return some id
  else return none

/-- Insert a new head block in the fork tree; returns the removed blockstamps. -/
def insertNewHeadBlock (t : ForkTree) (blockstamp : Blockstamp) :
    Run (ForkTree × List Blockstamp) := do
  let parentId ← t.headParentId blockstamp
  let t ← t.insertNewNode blockstamp parentId true
  return (t, t.getRemovedBlockstamps)

/-- Insert a new fork block in the fork tree only if its parent is there; returns whether it
was. -/
def insertNewForkBlock (t : ForkTree) (blockstamp : Blockstamp) (previousHash : Hash) :
    Run (ForkTree × Bool) :=
  let previousBlockstamp : Blockstamp :=
    { id := previousBlockNumber blockstamp.id, hash := previousHash }
  match t.findNodeWithBlockstamp previousBlockstamp with
  | some parentId => do
      let t ← t.insertNewNode blockstamp (some parentId) false
      return (t, true)
  | none => return (t, false)

end ForkTree

/-! ## The fork store -/

/-- Modify the main branch after a successful rollback, and remove the too old blocks. -/
def changeMainBranch (forks : ForksDBs) (oldCurrent newCurrent : Blockstamp) : Run ForksDBs := do
  let tree ← forks.forkTreeDb.changeMainBranch oldCurrent newCurrent
  return { forks with
    forkTreeDb := tree
    forkBlocksDb := forks.forkBlocksDb.removeAll tree.getRemovedBlockstamps }

/-- Insert a new head block in the databases. -/
def insertNewHeadBlock (blocks : BlocksV10DBs) (forks : ForksDBs) (dalBlock : DALBlock) :
    Run (BlocksV10DBs × ForksDBs) := do
  let blocks := { blocks with
    blockchainDb := blocks.blockchainDb.insert dalBlock.block.number dalBlock }
  let blockstamp ← dalBlock.blockstamp
  let (tree, removed) ← forks.forkTreeDb.insertNewHeadBlock blockstamp
  return (blocks, { forks with
    forkTreeDb := tree
    forkBlocksDb := (forks.forkBlocksDb.insert blockstamp dalBlock).removeAll removed })

/-- Store an orphan block under the blockstamp of its missing parent. -/
def insertOrphanBlock (forks : ForksDBs) (dalBlock : DALBlock) : ForksDBs :=
  let previousBlockstamp := dalBlock.previousBlockstamp
  let orphanBlocks := (forks.orphanBlocksDb.get? previousBlockstamp).getD []
  { forks with
    orphanBlocksDb := forks.orphanBlocksDb.insert previousBlockstamp (orphanBlocks ++ [dalBlock]) }

/-- Insert a fork block, then the orphan blocks that succeed it, then theirs. -/
def insertNewForkBlockAux : Nat → ForksDBs → DALBlock → Run (ForksDBs × Bool)
  | 0, _, _ => .error .outOfFuel
  | fuel + 1, forks, dalBlock => do
      let blockstamp ← dalBlock.blockstamp
      let (tree, inserted) ←
        forks.forkTreeDb.insertNewForkBlock blockstamp dalBlock.block.previousHash
      if inserted then
        let forks := { forks with
          forkTreeDb := tree
          forkBlocksDb := forks.forkBlocksDb.insert blockstamp dalBlock }
        let stackables := (forks.orphanBlocksDb.get? blockstamp).getD []
        let forks ← stackables.foldlM (fun forks stackable => do
          let (forks, _) ← insertNewForkBlockAux fuel forks stackable
          return forks) forks
        return (forks, true)
      else
        return (insertOrphanBlock forks dalBlock, false)

/-- Insert a new fork block in the databases.  Block numbers grow along a chain of orphans, so the
chain meets each key of the orphan store at most once. -/
def insertNewForkBlock (forks : ForksDBs) (dalBlock : DALBlock) : Run (ForksDBs × Bool) :=
  insertNewForkBlockAux (forks.orphanBlocksDb.len + 1) forks dalBlock

end Durs
