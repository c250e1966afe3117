/-
# The blockchain module

The state of the module, and what it does with the blocks it receives: it applies the next block of
the chain, keeps the others in the fork tree or among the orphans, switches to a fork branch that
is far enough ahead, and applies orphans that have become the next block.
-/

import Durs.Blockchain.ForkAlgo
import Durs.Blockchain.RevertBlock

namespace Durs

open RustStd

/-- The databases of the module. -/
structure Databases where
  blocks : BlocksV10DBs
  forks : ForksDBs
  wots : WotsV10DBs
  currency : CurrencyV10DBs
deriving DecidableEq

instance : Inhabited Databases := ⟨⟨default, default, default, default⟩⟩

/-- The state of the module: its databases in memory, and as they were last saved in files. -/
structure BlockchainModule where
  dbs : Databases
  files : Databases
  wotIndex : HashMap PubKey NodeId
  currencyParams : CurrencyParameters
  currentBlockstamp : Blockstamp
  invalidForks : HashSet Blockstamp
deriving DecidableEq

/-- The module of a node that has no files yet. -/
instance : Inhabited BlockchainModule := ⟨⟨default, default, ∅, default, default, ∅⟩⟩

namespace BlockchainModule

/-- The graph and its index. -/
def memory (bc : BlockchainModule) : WotMemory := ⟨bc.wotIndex, bc.dbs.wots.wotDb⟩

/-- Change the graph and its index. -/
def withMemory (bc : BlockchainModule) (memory : WotMemory) : BlockchainModule :=
  { bc with wotIndex := memory.wotIndex, dbs.wots.wotDb := memory.wotDb }

/-- Save all the databases. -/
def save (bc : BlockchainModule) : BlockchainModule := { bc with files := bc.dbs }

/-- Reload all the databases. -/
def reload (bc : BlockchainModule) : BlockchainModule := { bc with dbs := bc.files }

/-- Load the module from the files of the node. -/
def load (files : Databases) : Run BlockchainModule := do
  let currentBlockstamp ← getCurrentBlockstamp files.blocks
  let currencyParams ← getCurrencyParams files.blocks
  return {
    dbs := files
    files
    wotIndex := getWotIndex files.wots.identitiesDb
    currencyParams := currencyParams.getD default
    currentBlockstamp := currentBlockstamp.getD default
    invalidForks := ∅ }

/-- Apply the requests of a block that is applied or reverted. -/
def applyQueries (C : TxCrypto) (bc : BlockchainModule) (blocksQuery : BlocksDBsWriteQuery)
    (wotQueries : List WotsDBsWriteQuery) (currencyQueries : List CurrencyDBsWriteQuery) :
    Run BlockchainModule := do
  let (blocks, forks) ← blocksQuery.apply bc.dbs.blocks bc.dbs.forks none
  let wots ← wotQueries.foldlM (WotsDBsWriteQuery.apply bc.currencyParams) bc.dbs.wots
  let currency ← currencyQueries.foldlM (CurrencyDBsWriteQuery.apply C) bc.dbs.currency
  return { bc with dbs := { blocks, forks, wots, currency } }

end BlockchainModule

/-- What becomes of a block that is taken. -/
inductive CheckAndApplyBlockReturn
  | validBlock (reqs : ValidBlockApplyReqs)
  | forkBlock
  | orphanBlock
deriving DecidableEq

variable (C : Crypto)

/-- Apply a block that is the next one of the chain. -/
def checkAndApplyChainable (bc : BlockchainModule) (block : BlockDocument) :
    Run (BlockchainModule × Except BlockError CheckAndApplyBlockReturn) :=
  let expireCerts := findExpireCerts bc.dbs.wots.certsDb []
  match verifyBlockValidity block bc.dbs.blocks with
  | .error error => return (bc, .error (.invalidBlock error))
  | .ok () =>
      match applyValidBlock C block bc.memory expireCerts with
      | .ok (memory, reqs) => return (bc.withMemory memory, .ok (.validBlock reqs))
      | .error (.refused error memory) =>
          return (bc.withMemory memory, .error (.applyValidBlockError error))
      | .error (.abort reason) => .error reason

/-- Keep a block that is not the next one of the chain, if it is new and within the fork window. -/
def storeForkBlock (bc : BlockchainModule) (block : BlockDocument) (alreadyHaveBlock : Bool) :
    Run (BlockchainModule × Except BlockError CheckAndApplyBlockReturn) :=
  if alreadyHaveBlock = false ∧ (block.number ≥ bc.currentBlockstamp.id ∨
      bc.currentBlockstamp.id - block.number < forkWindowSize) then do
    let (forks, inserted) ← insertNewForkBlock bc.dbs.forks ⟨block, none⟩
    return ({ bc with dbs.forks := forks }, .ok (if inserted then .forkBlock else .orphanBlock))
  else return (bc, .error .alreadyHaveBlockOrOutForkWindow)

/-- Check and apply a block. -/
def checkAndApplyBlock (bc : BlockchainModule) (block : BlockDocument) :
    Run (BlockchainModule × Except BlockError CheckAndApplyBlockReturn) := do
  let blockstamp ← block.blockstamp
  let alreadyHaveBlock ←
    Durs.alreadyHaveBlock bc.dbs.blocks bc.dbs.forks blockstamp block.previousHash
  match ← verifyBlockHashs C block with
  | .error error => return (bc, .error (.verifyBlockHashsError error))
  | .ok () =>
      if Chainable bc.currentBlockstamp block then checkAndApplyChainable C bc block
      else storeForkBlock bc block alreadyHaveBlock

/-! ## Rollbacks -/

/-- Revert the current block. -/
def revertCurrentBlock (bc : BlockchainModule) : Run BlockchainModule := do
  let dalBlock ← expect (bc.dbs.forks.forkBlocksDb.get? bc.currentBlockstamp)
    "apply_rollback(): Not found current block in forks blocks DB !"
  let (memory, reqs) ← revertBlock C dalBlock bc.memory bc.dbs.currency.txDb
  (bc.withMemory memory).applyQueries C.toTxCrypto reqs.blocksQuery reqs.wotQueries
    reqs.currencyQueries

/-- The loop that reverts the old branch: it goes on as long as the current blockstamp, which no
step changes, is above the last common block. -/
def revertOldBranch : Nat → BlockNumber → BlockchainModule → Run BlockchainModule
  | 0, _, _ => .error .outOfFuel
  | fuel + 1, lastCommonBlockNumber, bc =>
      if bc.currentBlockstamp.id > lastCommonBlockNumber then do
        let bc ← revertCurrentBlock C bc
        revertOldBranch fuel lastCommonBlockNumber bc
      else return bc

/-- Apply the blocks of a new branch, up to the first that is not valid; returns whether all of them
are. -/
def applyNewBranch : List Blockstamp → BlockchainModule → Run (BlockchainModule × Bool)
  | [], bc => return (bc, true)
  | blockstamp :: branch, bc => do
      let dalBlock ← expect (bc.dbs.forks.forkBlocksDb.get? blockstamp)
        "apply_rollback(): Fail to get block \x7b\x7d on new branch in forks blocks DB !"
      match ← checkAndApplyBlock C bc dalBlock.block with
      | (bc, .ok (.validBlock reqs)) => do
          let bc := { bc with currentBlockstamp := blockstamp }
          let bc ← bc.applyQueries C.toTxCrypto reqs.blocksQuery reqs.wotQueries
            reqs.currencyQueries
          applyNewBranch branch bc
      | (bc, _) => return ({ bc with invalidForks := bc.invalidForks.insert blockstamp }, false)

/-- Update the main branch of the fork tree and save the databases; the events to send read the
blocks of the new branch back. -/
def switchMainBranch (bc : BlockchainModule) (oldCurrentBlockstamp : Blockstamp)
    (newBcBranch : List Blockstamp) : Run BlockchainModule := do
  let forks ← changeMainBranch bc.dbs.forks oldCurrentBlockstamp bc.currentBlockstamp
  let _ ← newBcBranch.mapM fun blockstamp =>
    expect (forks.forkBlocksDb.get? blockstamp) "safe unwrap"
  return { bc with dbs.forks := forks }.save

/-- Switch to a new branch: the current blockstamp and the index of the web of trust are not
reloaded with the databases when the new branch is invalid. -/
def applyRollback (fuel : Nat) (bc : BlockchainModule) (newBcBranch : List Blockstamp) :
    Run BlockchainModule :=
  match newBcBranch with
  | [] => return bc
  | first :: _ => do
      let oldCurrentBlockstamp := bc.currentBlockstamp
      let bc ← revertOldBranch C fuel first.id bc
      let (bc, newBranchIsValid) ← applyNewBranch C newBcBranch bc
      if newBranchIsValid then switchMainBranch bc oldCurrentBlockstamp newBcBranch
      else return bc.reload

/-! ## Receiving blocks -/

/-- Which databases are to be saved after some blocks. -/
structure SaveFlags where
  blocks : Bool
  wots : Bool
  currency : Bool
deriving DecidableEq

/-- Save the databases that the flags name. -/
def SaveFlags.apply (flags : SaveFlags) (bc : BlockchainModule) : BlockchainModule :=
  { bc with files := {
      blocks := if flags.blocks then bc.dbs.blocks else bc.files.blocks
      forks := if flags.blocks then bc.dbs.forks else bc.files.forks
      wots := if flags.wots then bc.dbs.wots else bc.files.wots
      currency := if flags.currency then bc.dbs.currency else bc.files.currency } }

variable (S : SheetSort) (fuel : Nat)

/-- Receive one block. -/
def receiveBlock (acc : BlockchainModule × SaveFlags) (block : BlockDocument) :
    Run (BlockchainModule × SaveFlags) := do
  let (bc, flags) := acc
  match ← checkAndApplyBlock C bc block with
  | (bc, .ok (.validBlock reqs)) => do
      let currentBlockstamp ← reqs.blocksQuery.getBlockDocCopy.blockstamp
      let bc ← { bc with currentBlockstamp }.applyQueries C.toTxCrypto reqs.blocksQuery
        reqs.wotQueries reqs.currencyQueries
      return (bc, {
        blocks := true
        wots := flags.wots || !reqs.wotQueries.isEmpty
        currency := flags.currency || !reqs.currencyQueries.isEmpty })
  | (bc, .ok .forkBlock) => do
      match ← forkResolutionAlgo S bc.dbs.forks bc.currentBlockstamp bc.invalidForks with
      | some newBcBranch => do
          let bc ← applyRollback C fuel bc newBcBranch
          return (bc, flags)
      | none => return (bc, flags)
  | (bc, _) => return (bc, flags)

/-- Receive blocks. -/
def receiveBlocks (bc : BlockchainModule) (blocks : List BlockDocument) : Run BlockchainModule := do
  let (bc, flags) ← blocks.foldlM (receiveBlock C S fuel) (bc, ⟨false, false, false⟩)
  return flags.apply bc

/-! ## Stackable blocks -/

/-- Try the blocks that succeed the current block, up to the first that is valid; returns whether
there was one. -/
def tryStackables : List DALBlock → BlockchainModule → Run (BlockchainModule × Bool)
  | [], bc => return (bc, false)
  | stackableBlock :: stackableBlocks, bc => do
      let blockstamp ← stackableBlock.blockstamp
      match ← checkAndApplyBlock C bc stackableBlock.block with
      | (bc, .ok (.validBlock reqs)) => do
          let bc ← bc.applyQueries C.toTxCrypto reqs.blocksQuery reqs.wotQueries
            reqs.currencyQueries
          return ({ bc with currentBlockstamp := blockstamp }, true)
      | (bc, _) => tryStackables stackableBlocks bc

/-- Apply stackable blocks, as long as one is valid.  The databases are saved when some blocks
succeed the current one and none of them is valid. -/
def applyStackableBlocks : Nat → BlockchainModule → Run BlockchainModule
  | 0, _ => .error .outOfFuel
  | fuel + 1, bc => do
      let stackableBlocks := getStackablesBlocks bc.dbs.forks bc.currentBlockstamp
      if stackableBlocks.isEmpty then return bc
      else
        let (bc, stacked) ← tryStackables C stackableBlocks bc
        if stacked then applyStackableBlocks fuel bc else return bc.save

end Durs
