/-
# The local chain over whole runs

In any run of the module the main blocks are the chain to the current block, as long as no rollback
reloads the databases of another block than the current one.  A rollback does so when the new branch
is refused after some of it was applied, or when blocks were applied since the last save.
-/

import Durs.Blockchain.LocalChain
import Durs.Lib.Reached

namespace Durs

open RustStd Lib

variable {C : Crypto} {S : SheetSort} {fuel : Nat}

/-! ## The stored blocks -/

/-- The blocks of the fork store are under their own blockstamps, and none of the blocks kept is
numbered past the last block number. -/
structure ForkStamps (forks : ForksDBs) : Prop where
  stored : ∀ blockstamp dalBlock, forks.forkBlocksDb.get? blockstamp = some dalBlock →
    dalBlock.blockstamp = .ok blockstamp ∧ dalBlock.block.number ≤ lastBlockNumber
  orphans : ∀ blockstamp dalBlocks, forks.orphanBlocksDb.get? blockstamp = some dalBlocks →
    ∀ dalBlock ∈ dalBlocks, dalBlock.block.number ≤ lastBlockNumber

namespace ForkStamps

variable {forks forks' : ForksDBs} {blocks blocks' : BlocksV10DBs} {dalBlock : DALBlock}
  {blockstamp : Blockstamp}

theorem default : ForkStamps default where
  stored _ _ hget := by cases hget
  orphans _ _ hget := by cases hget

/-- Adding a block to the store keeps it. -/
theorem insert (h : ForkStamps forks) (hstamp : dalBlock.blockstamp = .ok blockstamp)
    (hnumber : dalBlock.block.number ≤ lastBlockNumber) (tree : ForkTree) :
    ForkStamps { forks with
      forkTreeDb := tree
      forkBlocksDb := forks.forkBlocksDb.insert blockstamp dalBlock } where
  stored b stored hget := by
    change (forks.forkBlocksDb.insert blockstamp dalBlock).get? b = some stored at hget
    rw [HashMap.get?_insert] at hget
    split at hget
    case isTrue hb =>
      obtain rfl := Option.some.inj hget
      exact ⟨hb ▸ hstamp, hnumber⟩
    case isFalse => exact h.stored b stored hget
  orphans := h.orphans

/-- Removing blocks from the store keeps it. -/
theorem removeAll (h : ForkStamps forks) (tree : ForkTree) (removed : List Blockstamp) :
    ForkStamps { forks with
      forkTreeDb := tree
      forkBlocksDb := forks.forkBlocksDb.removeAll removed } where
  stored b stored hget := by
    change (forks.forkBlocksDb.removeAll removed).get? b = some stored at hget
    rw [HashMap.get?_removeAll] at hget
    split at hget
    case isTrue => cases hget
    case isFalse => exact h.stored b stored hget
  orphans := h.orphans

/-- Setting an orphan aside keeps it. -/
theorem orphan (h : ForkStamps forks) (hnumber : dalBlock.block.number ≤ lastBlockNumber) :
    ForkStamps (insertOrphanBlock forks dalBlock) where
  stored := h.stored
  orphans b dalBlocks hget stored hmem := by
    simp only [insertOrphanBlock, HashMap.get?_insert] at hget
    split at hget
    case isFalse => exact h.orphans b dalBlocks hget stored hmem
    case isTrue =>
      obtain rfl := Option.some.inj hget
      rcases List.mem_append.1 hmem with hmem | hmem
      · cases hold : forks.orphanBlocksDb.get? dalBlock.previousBlockstamp with
        | none =>
            rw [hold] at hmem
            cases hmem
        | some dalBlocks =>
            rw [hold] at hmem
            exact h.orphans _ dalBlocks hold stored hmem
      · rw [List.mem_singleton.1 hmem]
        exact hnumber

/-- A new head block keeps it, and is written in the local blockchain. -/
theorem head (h : ForkStamps forks) (hnumber : dalBlock.block.number ≤ lastBlockNumber)
    (hrun : insertNewHeadBlock blocks forks dalBlock = .ok (blocks', forks')) :
    ForkStamps forks' ∧
      blocks' = ⟨blocks.blockchainDb.insert dalBlock.block.number dalBlock⟩ := by
  rw [insertNewHeadBlock, bind_eq_ok_iff] at hrun
  rcases hrun with ⟨blockstamp, hstamp, hrun⟩
  rw [bind_eq_ok_iff] at hrun
  rcases hrun with ⟨⟨tree, removed⟩, -, hrun⟩
  rcases Prod.mk.inj (Except.ok.inj hrun) with ⟨rfl, rfl⟩
  exact ⟨(h.insert hstamp hnumber tree).removeAll tree removed, rfl⟩

/-- A new fork block keeps it, with the orphans that follow it. -/
theorem fork (h : ForkStamps forks) (hnumber : dalBlock.block.number ≤ lastBlockNumber)
    {inserted : Bool} (hrun : insertNewForkBlock forks dalBlock = .ok (forks', inserted)) :
    ForkStamps forks' := by
  refine insertNewForkBlockAux_preserves (P := ForkStamps)
    (Q := fun dalBlock => dalBlock.block.number ≤ lastBlockNumber) ?_ ?_ ?_ h hnumber hrun
  · intro forks dalBlock blockstamp tree hforks hnumber hstamp _
    exact hforks.insert hstamp hnumber tree
  · intro forks dalBlock hforks hnumber
    exact hforks.orphan hnumber
  · intro forks blockstamp dalBlocks hforks hget dalBlock hmem
    exact hforks.orphans blockstamp dalBlocks hget dalBlock hmem

/-- A change of the main branch keeps it. -/
theorem change (h : ForkStamps forks) {oldCurrent newCurrent : Blockstamp}
    (hrun : changeMainBranch forks oldCurrent newCurrent = .ok forks') : ForkStamps forks' := by
  rw [changeMainBranch, bind_eq_ok_iff] at hrun
  rcases hrun with ⟨tree, -, hrun⟩
  obtain rfl := Except.ok.inj hrun
  exact h.removeAll tree _

end ForkStamps

/-! ## The invariant of the module -/

/-- The main blocks in memory end at the current block, those on disk end at some block. -/
structure ModuleInv (bc : BlockchainModule) : Prop where
  chained : Chained bc.dbs.blocks bc.currentBlockstamp
  bounded : bc.currentBlockstamp.id ≤ lastBlockNumber
  forks : ForkStamps bc.dbs.forks
  saved : ∃ head, Chained bc.files.blocks head ∧ head.id ≤ lastBlockNumber
  savedForks : ForkStamps bc.files.forks

namespace ModuleInv

variable {bc bc' : BlockchainModule} {block : BlockDocument}

theorem default : ModuleInv default where
  chained := Or.inl ⟨fun _ => rfl, rfl⟩
  bounded := by decide
  forks := .default
  saved := ⟨_, Or.inl ⟨fun _ => rfl, rfl⟩, by decide⟩
  savedForks := .default

theorem localChain (h : ModuleInv bc) : LocalChain bc := h.chained.localChain h.bounded

theorem withMemory (h : ModuleInv bc) (memory : WotMemory) : ModuleInv (bc.withMemory memory) :=
  ⟨h.chained, h.bounded, h.forks, h.saved, h.savedForks⟩

theorem save (h : ModuleInv bc) : ModuleInv bc.save :=
  ⟨h.chained, h.bounded, h.forks, ⟨_, h.chained, h.bounded⟩, h.forks⟩

/-- Saving some of the databases saves the blocks with the fork blocks. -/
theorem applyFlags (h : ModuleInv bc) (flags : SaveFlags) : ModuleInv (flags.apply bc) := by
  cases hblocks : flags.blocks with
  | true =>
      have hfiles : (flags.apply bc).files.blocks = bc.dbs.blocks ∧
          (flags.apply bc).files.forks = bc.dbs.forks := by
        rw [SaveFlags.apply, hblocks]
        exact ⟨rfl, rfl⟩
      exact ⟨h.chained, h.bounded, h.forks, ⟨_, hfiles.1 ▸ h.chained, h.bounded⟩,
        hfiles.2 ▸ h.forks⟩
  | false =>
      have hfiles : (flags.apply bc).files.blocks = bc.files.blocks ∧
          (flags.apply bc).files.forks = bc.files.forks := by
        rw [SaveFlags.apply, hblocks]
        exact ⟨rfl, rfl⟩
      exact ⟨h.chained, h.bounded, h.forks, hfiles.1 ▸ h.saved, hfiles.2 ▸ h.savedForks⟩

/-- Reloading the databases keeps the invariant when those on disk end at the current block. -/
theorem reload (h : ModuleInv bc)
    (hread : getCurrentBlockstamp bc.files.blocks = .ok (some bc.currentBlockstamp)) :
    ModuleInv bc.reload := by
  rcases h.saved with ⟨head, hchained, hbounded⟩
  exact ⟨Or.inr (hchained.chainTo_of_getCurrentBlockstamp hbounded hread), h.bounded, h.savedForks,
    h.saved, h.savedForks⟩

/-- A node that restarts from its files meets the invariant. -/
theorem load (h : ModuleInv bc) (hload : BlockchainModule.load bc.files = .ok bc') :
    ModuleInv bc' := by
  rw [BlockchainModule.load, bind_eq_ok_iff] at hload
  rcases hload with ⟨current, hread, hload⟩
  rw [bind_eq_ok_iff] at hload
  rcases hload with ⟨params, -, hload⟩
  obtain rfl := Except.ok.inj hload
  rcases h.saved with ⟨head, hchained, hbounded⟩
  rcases hchained with ⟨hempty, rfl⟩ | hchain
  · rw [getCurrentBlockstamp, HashMap.len_eq_zero_of_forall _ hempty] at hread
    obtain rfl := Except.ok.inj hread
    exact ⟨Or.inl ⟨hempty, rfl⟩, hbounded, h.savedForks,
      ⟨_, Or.inl ⟨hempty, rfl⟩, hbounded⟩, h.savedForks⟩
  · rw [hchain.getCurrentBlockstamp hbounded] at hread
    obtain rfl := Except.ok.inj hread
    exact ⟨Or.inr hchain, hbounded, h.savedForks, ⟨_, Or.inr hchain, hbounded⟩, h.savedForks⟩

/-- Checking a block keeps the invariant, whatever becomes of the block. -/
theorem check (h : ModuleInv bc) (hnumber : block.number ≤ lastBlockNumber)
    {result : Except BlockError CheckAndApplyBlockReturn}
    (hrun : checkAndApplyBlock C bc block = .ok (bc', result)) :
    ModuleInv bc' ∧ bc'.currentBlockstamp = bc.currentBlockstamp ∧ bc'.files = bc.files := by
  rcases checkAndApplyBlock_cases hrun with ⟨memory, _, -, -, -, rfl, -⟩ | ⟨memory, _, rfl, -⟩ |
    ⟨forks, inserted, hinsert, rfl, -⟩
  · exact ⟨h.withMemory memory, rfl, rfl⟩
  · exact ⟨h.withMemory memory, rfl, rfl⟩
  · exact ⟨⟨h.chained, h.bounded, h.forks.fork hnumber hinsert, h.saved, h.savedForks⟩, rfl, rfl⟩

/-- The block that is asked to be written has the blockstamp of the block that is checked. -/
theorem blockstamp_of_getBlockDocCopy {reqs : ValidBlockApplyReqs} {blockstamp : Blockstamp}
    (hrun : checkAndApplyBlock C bc block = .ok (bc', .ok (.validBlock reqs)))
    (hstamp : reqs.blocksQuery.getBlockDocCopy.blockstamp = .ok blockstamp) :
    block.blockstamp = .ok blockstamp := by
  rcases checkAndApplyBlock_cases hrun with ⟨memory, reqs', -, -, happly, -, hreqs⟩ |
    ⟨_, _, -, hreqs⟩ | ⟨_, inserted, -, -, hreqs⟩
  · obtain rfl := CheckAndApplyBlockReturn.validBlock.inj (Except.ok.inj hreqs)
    rcases applyValidBlock_eq_ok happly with ⟨_, _, _, reduced, -, -, -, hreduced, -, rfl⟩
    rcases reduce_eq_ok hreduced with ⟨hnum, hhash, -, -⟩
    rw [BlockDocument.blockstamp_eq_ok_iff] at hstamp ⊢
    rw [← hnum, ← hhash]
    exact hstamp
  · cases hreqs
  · cases inserted with
    | false => cases Except.ok.inj hreqs
    | true => cases Except.ok.inj hreqs

/-- A valid block whose requests are applied becomes the current block. -/
theorem accept (h : ModuleInv bc) (hnumber : block.number ≤ lastBlockNumber)
    {reqs : ValidBlockApplyReqs} {blockstamp : Blockstamp}
    (hrun : checkAndApplyBlock C bc block = .ok (bc', .ok (.validBlock reqs)))
    (hstamp : block.blockstamp = .ok blockstamp) {blocks : BlocksV10DBs} {forks : ForksDBs}
    (hquery : reqs.blocksQuery.apply bc'.dbs.blocks bc'.dbs.forks none = .ok (blocks, forks))
    (wots : WotsV10DBs) (currency : CurrencyV10DBs) :
    ModuleInv { bc' with
      dbs := { blocks, forks, wots, currency }
      currentBlockstamp := blockstamp } := by
  rcases checkAndApplyBlock_cases hrun with ⟨memory, reqs', hchainable, hvalid, happly, rfl, hreqs⟩ |
    ⟨_, _, -, hreqs⟩ | ⟨_, inserted, -, -, hreqs⟩
  · obtain rfl := CheckAndApplyBlockReturn.validBlock.inj (Except.ok.inj hreqs)
    rcases applyValidBlock_eq_ok happly with ⟨_, _, _, reduced, -, -, -, hreduced, -, rfl⟩
    rcases reduce_eq_ok hreduced with ⟨hnum, hhash, hprevious, -⟩
    have hreducedStamp : reduced.blockstamp = .ok blockstamp := by
      rw [BlockDocument.blockstamp_eq_ok_iff] at hstamp ⊢
      rw [hnum, hhash]
      exact hstamp
    have hid : blockstamp.id = block.number := (BlockDocument.blockstamp_eq_ok_iff.1 hstamp).1.symm
    rcases h.forks.head (by rw [hnum]; exact hnumber) hquery with ⟨hforks, rfl⟩
    have hchain := h.chained.extend h.bounded hchainable hvalid
      ⟨reduced, some (findExpireCerts bc.dbs.wots.certsDb [])⟩ hreducedStamp hid hprevious
    rw [hid, ← hnum] at hchain
    exact ⟨Or.inr hchain, hid ▸ hnumber, hforks, h.saved, h.savedForks⟩
  · cases hreqs
  · cases inserted with
    | false => cases Except.ok.inj hreqs
    | true => cases Except.ok.inj hreqs

/-- Applying a new branch keeps the invariant, also where it stops, and saves nothing. -/
theorem applyNewBranch {branch : List Blockstamp} {newBranchIsValid : Bool} (h : ModuleInv bc)
    (hrun : applyNewBranch C branch bc = .ok (bc', newBranchIsValid)) :
    ModuleInv bc' ∧ bc'.files = bc.files := by
  induction branch generalizing bc with
  | nil =>
      rcases Prod.mk.inj (Except.ok.inj hrun) with ⟨rfl, -⟩
      exact ⟨h, rfl⟩
  | cons blockstamp branch ih =>
      rw [Durs.applyNewBranch, bind_eq_ok_iff] at hrun
      rcases hrun with ⟨dalBlock, hget, hrun⟩
      rw [bind_eq_ok_iff] at hrun
      rcases hrun with ⟨⟨mid, result⟩, hcheck, hrun⟩
      rcases h.forks.stored blockstamp dalBlock (expect_eq_ok_iff.1 hget) with ⟨hstamp, hnumber⟩
      rcases h.check hnumber hcheck with ⟨hmid, -, hfiles⟩
      split at hrun
      case h_1 reqs heq =>
        obtain ⟨rfl, rfl⟩ := Prod.mk.inj heq
        rw [bind_eq_ok_iff] at hrun
        rcases hrun with ⟨applied, hqueries, hrun⟩
        rcases BlockchainModule.applyQueries_eq_ok hqueries with
          ⟨blocks, forks, wots, currency, hquery, -, -, rfl⟩
        rcases ih (h.accept hnumber hcheck hstamp hquery wots currency) hrun with ⟨hinv, heq⟩
        exact ⟨hinv, heq.trans hfiles⟩
      case h_2 heq =>
        obtain ⟨rfl, -⟩ := Prod.mk.inj heq
        rcases Prod.mk.inj (Except.ok.inj hrun) with ⟨rfl, -⟩
        exact ⟨⟨hmid.chained, hmid.bounded, hmid.forks, hmid.saved, hmid.savedForks⟩, hfiles⟩

end ModuleInv

/-! ## Operations of the module -/

/-- Whether the chain on disk ends at the current block. -/
def endsAtCurrent (bc : BlockchainModule) : Bool :=
  match getCurrentBlockstamp bc.files.blocks with
  | .ok (some head) => head = bc.currentBlockstamp
  | _ => false

/-- Whether the first block of a branch is refused. -/
def refusesFirst (C : Crypto) (bc : BlockchainModule) (branch : List Blockstamp) : Bool :=
  match applyNewBranch C (branch.take 1) bc with
  | .ok (_, true) => false
  | _ => true

/-- Whether the switch to a branch keeps the current block with its chain: the branch is applied to
its end, or its first block is refused and the chain on disk ends at the current block. -/
def switchHolds (C : Crypto) (bc : BlockchainModule) (branch : List Blockstamp) : Bool :=
  match applyNewBranch C branch bc with
  | .ok (_, false) => refusesFirst C bc branch && endsAtCurrent bc
  | _ => true

/-- Whether receiving a block keeps the current block with its chain: it is numbered below the last
number, and the switch that it leads to, if any, keeps them. -/
def receiveHolds (C : Crypto) (S : SheetSort) (bc : BlockchainModule) (block : BlockDocument) :
    Bool :=
  decide (block.number ≤ lastBlockNumber) &&
    match checkAndApplyBlock C bc block with
    | .ok (bc, .ok .forkBlock) =>
        match forkResolutionAlgo S bc.dbs.forks bc.currentBlockstamp bc.invalidForks with
        | .ok (some branch) => switchHolds C bc branch
        | _ => true
    | _ => true

/-- What the module does: it receives the blocks of a chunk and saves the databases at its end,
applies the stackable blocks, and starts again from its files. -/
inductive ModuleOp
  | receiveBlock (block : BlockDocument)
  | saveReceived
  | applyStackableBlocks
  | restart

/-- The flags at the start of a chunk. -/
def SaveFlags.none : SaveFlags := ⟨false, false, false⟩

/-- Perform an operation. -/
def ModuleOp.apply (C : Crypto) (S : SheetSort) (fuel : Nat) (s : BlockchainModule × SaveFlags) :
    ModuleOp → Run (BlockchainModule × SaveFlags)
  | .receiveBlock block => Durs.receiveBlock C S fuel s block
  | .saveReceived => return (s.2.apply s.1, .none)
  | .applyStackableBlocks => do
      let bc ← Durs.applyStackableBlocks C fuel s.1
      return (bc, s.2)
  | .restart => do
      let bc ← BlockchainModule.load s.1.files
      return (bc, .none)

/-- The operations that keep the current block with its chain. -/
def ModuleOp.Holds (C : Crypto) (S : SheetSort) (s : BlockchainModule × SaveFlags) :
    ModuleOp → Prop
  | .receiveBlock block => receiveHolds C S s.1 block = true
  | .saveReceived | .applyStackableBlocks | .restart => True

instance (s : BlockchainModule × SaveFlags) (op : ModuleOp) : Decidable (op.Holds C S s) :=
  match op with
  | .receiveBlock _ => inferInstanceAs (Decidable (_ = true))
  | .saveReceived | .applyStackableBlocks | .restart => inferInstanceAs (Decidable True)

/-- Receiving a chunk of blocks is receiving each of them, then saving. -/
theorem receiveBlocks_eq_foldlM (bc : BlockchainModule) (blocks : List BlockDocument) :
    receiveBlocks C S fuel bc blocks = do
      let s ← (blocks.map ModuleOp.receiveBlock ++ [ModuleOp.saveReceived]).foldlM
        (ModuleOp.apply C S fuel) (bc, .none)
      return s.1 := by
  rw [List.foldlM_append, List.foldlM_map, receiveBlocks]
  change (blocks.foldlM (receiveBlock C S fuel) (bc, .none) >>= _) =
    ((blocks.foldlM (receiveBlock C S fuel) (bc, .none)) >>= _) >>= _
  cases blocks.foldlM (receiveBlock C S fuel) (bc, .none) with
  | error reason => rfl
  | ok s => rfl

namespace ModuleInv

variable {bc bc' : BlockchainModule}

/-- A branch whose first block is refused leaves the current block where it is. -/
theorem currentBlockstamp_of_refusesFirst {branch : List Blockstamp} (h : ModuleInv bc)
    (hrun : Durs.applyNewBranch C branch bc = .ok (bc', false))
    (hrefuses : refusesFirst C bc branch = true) :
    bc'.currentBlockstamp = bc.currentBlockstamp := by
  cases branch with
  | nil => cases (Prod.mk.inj (Except.ok.inj hrun)).2
  | cons blockstamp branch =>
      rw [refusesFirst, List.take_succ_cons, List.take_zero] at hrefuses
      rw [Durs.applyNewBranch, bind_eq_ok_iff] at hrun
      rcases hrun with ⟨dalBlock, hget, hrun⟩
      rw [bind_eq_ok_iff] at hrun
      rcases hrun with ⟨⟨mid, result⟩, hcheck, hrun⟩
      rcases h.forks.stored blockstamp dalBlock (expect_eq_ok_iff.1 hget) with ⟨-, hnumber⟩
      rcases h.check hnumber hcheck with ⟨-, hcurrent, -⟩
      split at hrun
      case h_1 reqs heq =>
        -- a first block that is applied is not refused
        obtain ⟨rfl, rfl⟩ := Prod.mk.inj heq
        rw [bind_eq_ok_iff] at hrun
        rcases hrun with ⟨applied, hqueries, -⟩
        rw [Durs.applyNewBranch, hget, ok_bind, hcheck, ok_bind] at hrefuses
        simp only [hqueries, ok_bind, Durs.applyNewBranch] at hrefuses
        cases hrefuses
      case h_2 heq =>
        obtain ⟨rfl, -⟩ := Prod.mk.inj heq
        rcases Prod.mk.inj (Except.ok.inj hrun) with ⟨rfl, -⟩
        exact hcurrent

/-- A rollback to a branch whose switch holds keeps the invariant. -/
theorem applyRollback {branch : List Blockstamp} (h : ModuleInv bc)
    (hholds : switchHolds C bc branch = true)
    (hrun : applyRollback C fuel bc branch = .ok bc') : ModuleInv bc' := by
  cases branch with
  | nil => exact Except.ok.inj hrun ▸ h
  | cons first branch =>
      rcases applyRollback_eq_ok hrun with ⟨applied, newBranchIsValid, happly,
        ⟨rfl, forks, hforks, rfl⟩ | ⟨rfl, rfl⟩⟩
      · rcases h.applyNewBranch happly with ⟨hinv, -⟩
        exact ModuleInv.save
          ⟨hinv.chained, hinv.bounded, hinv.forks.change hforks, hinv.saved, hinv.savedForks⟩
      · rcases h.applyNewBranch happly with ⟨hinv, hfiles⟩
        rw [switchHolds, happly] at hholds
        rcases Bool.and_eq_true_iff.1 hholds with ⟨hrefuses, hends⟩
        have hcurrent := h.currentBlockstamp_of_refusesFirst happly hrefuses
        refine hinv.reload ?_
        rw [hfiles, hcurrent]
        rw [endsAtCurrent] at hends
        split at hends
        case h_1 head hread => exact of_decide_eq_true hends ▸ hread
        case h_2 => cases hends

/-- Receiving a block that keeps the current block with its chain keeps the invariant. -/
theorem receiveBlock {flags flags' : SaveFlags} {block : BlockDocument} (h : ModuleInv bc)
    (hholds : receiveHolds C S bc block = true)
    (hrun : receiveBlock C S fuel (bc, flags) block = .ok (bc', flags')) : ModuleInv bc' := by
  rcases Bool.and_eq_true_iff.1 hholds with ⟨hnumber, hswitch⟩
  have hnumber := of_decide_eq_true hnumber
  rw [Durs.receiveBlock, bind_eq_ok_iff] at hrun
  rcases hrun with ⟨⟨mid, result⟩, hcheck, hrun⟩
  rcases h.check hnumber hcheck with ⟨hmid, -, -⟩
  split at hrun
  case h_1 reqs heq =>
    obtain ⟨rfl, rfl⟩ := Prod.mk.inj heq
    rw [bind_eq_ok_iff] at hrun
    rcases hrun with ⟨current, hcurrent, hrun⟩
    rw [bind_eq_ok_iff] at hrun
    rcases hrun with ⟨applied, hqueries, hrun⟩
    rcases Prod.mk.inj (Except.ok.inj hrun) with ⟨rfl, -⟩
    rcases BlockchainModule.applyQueries_eq_ok hqueries with
      ⟨blocks, forks, wots, currency, hquery, -, -, rfl⟩
    exact h.accept hnumber hcheck (blockstamp_of_getBlockDocCopy hcheck hcurrent) hquery wots
      currency
  case h_2 heq =>
    obtain ⟨rfl, rfl⟩ := Prod.mk.inj heq
    rw [hcheck] at hswitch
    rw [bind_eq_ok_iff] at hrun
    rcases hrun with ⟨selected, hselected, hrun⟩
    cases selected with
    | some branch =>
        change (Durs.applyRollback C fuel mid branch >>= _) = _ at hrun
        rw [bind_eq_ok_iff] at hrun
        rcases hrun with ⟨rolled, hroll, hrun⟩
        rcases Prod.mk.inj (Except.ok.inj hrun) with ⟨rfl, -⟩
        simp only [hselected] at hswitch
        exact hmid.applyRollback hswitch hroll
    | none =>
        rcases Prod.mk.inj (Except.ok.inj hrun) with ⟨rfl, -⟩
        exact hmid
  case h_3 heq =>
    obtain ⟨rfl, -⟩ := Prod.mk.inj heq
    rcases Prod.mk.inj (Except.ok.inj hrun) with ⟨rfl, -⟩
    exact hmid

/-- Trying the stackable blocks keeps the invariant. -/
theorem tryStackables {stackableBlocks : List DALBlock} {stacked : Bool} (h : ModuleInv bc)
    (hnumbers : ∀ dalBlock ∈ stackableBlocks, dalBlock.block.number ≤ lastBlockNumber)
    (hrun : tryStackables C stackableBlocks bc = .ok (bc', stacked)) : ModuleInv bc' := by
  induction stackableBlocks generalizing bc with
  | nil => exact (Prod.mk.inj (Except.ok.inj hrun)).1 ▸ h
  | cons stackableBlock stackableBlocks ih =>
      rw [Durs.tryStackables, bind_eq_ok_iff] at hrun
      rcases hrun with ⟨blockstamp, hstamp, hrun⟩
      rw [bind_eq_ok_iff] at hrun
      rcases hrun with ⟨⟨mid, result⟩, hcheck, hrun⟩
      have hnumber := hnumbers stackableBlock List.mem_cons_self
      split at hrun
      case h_1 reqs heq =>
        obtain ⟨rfl, rfl⟩ := Prod.mk.inj heq
        rw [bind_eq_ok_iff] at hrun
        rcases hrun with ⟨applied, hqueries, hrun⟩
        rcases Prod.mk.inj (Except.ok.inj hrun) with ⟨rfl, -⟩
        rcases BlockchainModule.applyQueries_eq_ok hqueries with
          ⟨blocks, forks, wots, currency, hquery, -, -, rfl⟩
        exact h.accept hnumber hcheck hstamp hquery wots currency
      case h_2 heq =>
        obtain ⟨rfl, -⟩ := Prod.mk.inj heq
        exact ih (h.check hnumber hcheck).1
          (fun dalBlock hmem => hnumbers dalBlock (List.mem_cons_of_mem _ hmem)) hrun

/-- Applying the stackable blocks keeps the invariant. -/
theorem applyStackableBlocks (h : ModuleInv bc)
    (hrun : applyStackableBlocks C fuel bc = .ok bc') : ModuleInv bc' := by
  induction fuel generalizing bc with
  | zero => cases hrun
  | succ fuel ih =>
      rw [Durs.applyStackableBlocks] at hrun
      simp only at hrun
      split at hrun
      case isTrue => exact Except.ok.inj hrun ▸ h
      case isFalse =>
        rw [bind_eq_ok_iff] at hrun
        rcases hrun with ⟨⟨mid, stacked⟩, htry, hrun⟩
        have hnumbers : ∀ dalBlock ∈ getStackablesBlocks bc.dbs.forks bc.currentBlockstamp,
            dalBlock.block.number ≤ lastBlockNumber := by
          intro dalBlock hmem
          rw [getStackablesBlocks] at hmem
          cases hget : bc.dbs.forks.orphanBlocksDb.get? bc.currentBlockstamp with
          | none =>
              rw [hget] at hmem
              cases hmem
          | some dalBlocks =>
              rw [hget] at hmem
              exact h.forks.orphans _ dalBlocks hget dalBlock hmem
        have hmid := h.tryStackables hnumbers htry
        cases stacked with
        | true => exact ih hmid hrun
        | false => exact Except.ok.inj hrun ▸ hmid.save

/-- An operation that keeps the current block with its chain keeps the invariant. -/
theorem step {s s' : BlockchainModule × SaveFlags} {op : ModuleOp} (h : ModuleInv s.1)
    (hholds : op.Holds C S s) (hrun : op.apply C S fuel s = .ok s') : ModuleInv s'.1 := by
  cases op with
  | receiveBlock block => exact h.receiveBlock hholds hrun
  | saveReceived => exact Except.ok.inj hrun ▸ h.applyFlags s.2
  | applyStackableBlocks =>
      rw [ModuleOp.apply, bind_eq_ok_iff] at hrun
      rcases hrun with ⟨bc, hstack, hrun⟩
      exact Except.ok.inj hrun ▸ h.applyStackableBlocks hstack
  | restart =>
      rw [ModuleOp.apply, bind_eq_ok_iff] at hrun
      rcases hrun with ⟨bc, hload, hrun⟩
      exact Except.ok.inj hrun ▸ h.load hload

end ModuleInv

/-! ## Runs -/

/-- In every run whose received blocks all keep the current block with its chain, the main blocks
are the chain to the current block in every state reached, and it reads back. -/
theorem localChain_of_reached {s : BlockchainModule × SaveFlags}
    (h : Reached (default, .none) (ModuleOp.apply C S fuel) (fun s op => op.Holds C S s) s) :
    LocalChain s.1 := by
  have hinv : ModuleInv s.1 := h.invariant (I := fun s => ModuleInv s.1) ModuleInv.default
    fun _ _ _ hinv hholds hrun => ModuleInv.step hinv hholds hrun
  exact hinv.localChain

/-- A toy cryptography for concrete runs: different contents have different hashes. -/
def mockCrypto : Crypto where
  base58 _ := ""
  txHash _ _ := 0
  hashInnerText text := BitVec.ofNat 256 text.number
  hashSignedText innerHash nonce _ := BitVec.ofNat 256 (100 * innerHash.toNat + nonce + 1)

/-- The hash of a block of a branch above the first block of branch zero. -/
def mockBlockHash (branch k : Nat) : Hash := BitVec.ofNat 256 (100 * k + branch + 1)

/-- A block of a branch above the first block of branch zero, with its hashes. -/
def mockBlock (branch k : Nat) : BlockDocument :=
  { genEmptyTimedBlock ⟨k, mockBlockHash branch k⟩ (300 * k)
      (mockBlockHash (if k = 1 then 0 else branch) (k - 1)) with
    nonce := branch
    issuers := [⟨1⟩]
    signatures := [⟨1⟩]
    previousIssuer := some ⟨1⟩
    innerHash := some (BitVec.ofNat 256 k) }

/-- Two blocks that are saved, four of another branch, which is refused, an orphan and its parent,
and the application of the orphan. -/
def localChainOps : List ModuleOp :=
  [.receiveBlock (mockBlock 0 0), .receiveBlock (mockBlock 0 1), .saveReceived,
    .receiveBlock (mockBlock 1 1), .receiveBlock (mockBlock 1 2), .receiveBlock (mockBlock 1 3),
    .receiveBlock (mockBlock 1 4), .receiveBlock (mockBlock 0 3), .receiveBlock (mockBlock 0 2),
    .applyStackableBlocks]

/-- After this run the chain ends at the orphan. -/
theorem localChain_localChainOps :
    ∃ s, localChainOps.foldlM (ModuleOp.apply mockCrypto .insertion 10) (default, .none) = .ok s ∧
      s.1.currentBlockstamp = ⟨3, mockBlockHash 0 3⟩ ∧ LocalChain s.1 := by
  rcases Option.isSome_iff_exists.1
    (show (guardedRun (ModuleOp.apply mockCrypto .insertion 10)
      (fun s op => op.Holds mockCrypto .insertion s) localChainOps (default, .none)).isSome by
        decide +kernel) with ⟨s, hguarded⟩
  have hrun := foldlM_of_guardedRun hguarded
  have hchain : LocalChain s.1 := localChain_of_reached (.of_guardedRun .init hguarded)
  refine ⟨s, hrun, ?_, hchain⟩
  have hcurrent : (guardedRun (ModuleOp.apply mockCrypto .insertion 10)
      (fun s op => op.Holds mockCrypto .insertion s) localChainOps (default, .none)).map
        (fun s => s.1.currentBlockstamp) = some ⟨3, mockBlockHash 0 3⟩ := by decide +kernel
  rw [hguarded] at hcurrent
  exact Option.some.inj hcurrent

/-- Two blocks and four of another branch, received in one chunk. -/
def reloadedChunk : List BlockDocument :=
  [mockBlock 0 0, mockBlock 0 1, mockBlock 1 1, mockBlock 1 2, mockBlock 1 3, mockBlock 1 4]

/-- The other branch is refused and the databases are reloaded from empty files, while the current
block remains the second one. -/
theorem not_localChain_reloadedChunk :
    ∃ bc, receiveBlocks mockCrypto .insertion 10 default reloadedChunk = .ok bc ∧
      ¬ LocalChain bc := by
  have hrun : ∃ bc, receiveBlocks mockCrypto .insertion 10 default reloadedChunk = .ok bc ∧
      bc.currentBlockstamp = ⟨1, mockBlockHash 0 1⟩ ∧
      bc.dbs.blocks.blockchainDb.get? 0 = none := ⟨_, rfl, by decide +kernel⟩
  rcases hrun with ⟨bc, hrun, hcurrent, hempty⟩
  refine ⟨bc, hrun, ?_⟩
  rintro (⟨-, hdefault⟩ | ⟨hchain, -⟩)
  · rw [hcurrent] at hdefault
    revert hdefault
    decide
  · rcases (hchain.numbers 0).2 (Nat.zero_le _) with ⟨dalBlock, hget⟩
    rw [hempty] at hget
    cases hget

end Durs
