/-
# Rollbacks

What the switch to a new branch reverts before it applies the branch, and what it leaves of the
module when a block of the branch is refused.  The loop that reverts never moves the current
blockstamp, so it ends only where it has nothing to do; and the databases that are reloaded are those
that were saved last.
-/

import Durs.Blockchain.Refusals
import Durs.ForkTree.Arrival

namespace Durs

open RustStd

variable {C : Crypto} {fuel : Nat} {lastCommonBlockNumber : BlockNumber}
  {bc bc' applied : BlockchainModule} {first : Blockstamp} {branch reverted : List Blockstamp}

/-! ## Reverting the old branch -/

/-- The turns of the loop that reverts the old branch, with the blocks that they revert. -/
inductive RevertsOldBranch (C : Crypto) (lastCommonBlockNumber : BlockNumber) :
    BlockchainModule → List Blockstamp → BlockchainModule → Prop
  | done {bc : BlockchainModule} : bc.currentBlockstamp.id ≤ lastCommonBlockNumber →
      RevertsOldBranch C lastCommonBlockNumber bc [] bc
  | revert {bc mid bc' : BlockchainModule} {reverted : List Blockstamp} :
      lastCommonBlockNumber < bc.currentBlockstamp.id → revertCurrentBlock C bc = .ok mid →
      RevertsOldBranch C lastCommonBlockNumber mid reverted bc' →
      RevertsOldBranch C lastCommonBlockNumber bc (bc.currentBlockstamp :: reverted) bc'

/-- The turns are those of the loop, which returns when there are finitely many. -/
theorem exists_revertsOldBranch_iff :
    (∃ reverted, RevertsOldBranch C lastCommonBlockNumber bc reverted bc') ↔
      ∃ fuel, revertOldBranch C fuel lastCommonBlockNumber bc = .ok bc' := by
  constructor
  · rintro ⟨reverted, h⟩
    induction h with
    | done hle => exact ⟨1, if_neg (Nat.not_lt.2 hle)⟩
    | revert hlt hrevert _ ih =>
        rcases ih with ⟨fuel, hrun⟩
        refine ⟨fuel + 1, ?_⟩
        rw [revertOldBranch, if_pos hlt, hrevert]
        exact hrun
  · rintro ⟨fuel, hrun⟩
    rcases revertOldBranch_eq_ok hrun with ⟨hle, rfl⟩
    exact ⟨[], .done hle⟩

/-- A loop that ends has had nothing to revert. -/
theorem RevertsOldBranch.eq_nil
    (h : RevertsOldBranch C lastCommonBlockNumber bc reverted bc') :
    reverted = [] ∧ bc' = bc ∧ bc.currentBlockstamp.id ≤ lastCommonBlockNumber := by
  induction h with
  | done hle => exact ⟨rfl, rfl, hle⟩
  | revert hlt hrevert _ ih =>
      -- the current blockstamp of the next turn is still above the last common block
      rw [revertCurrentBlock_currentBlockstamp hrevert] at ih
      exact absurd ih.2.2 (Nat.not_le.2 hlt)

/-- A block of the main branch of the fork tree. -/
def BlockchainModule.OnMainBranch (bc : BlockchainModule) (blockstamp : Blockstamp) : Prop :=
  ∃ blockId id node, bc.dbs.forks.forkTreeDb.mainBranch.get? blockId = some id ∧
    bc.dbs.forks.forkTreeDb.node? id = some node ∧ node.data = blockstamp

/-- Whether a rollback to a branch goes back to the block below it: its loop ends there, and reverts
the blocks of the main branch above it, each once and from the highest down. -/
def RevertsTo (C : Crypto) (bc : BlockchainModule) (first ancestor : Blockstamp) : Prop :=
  ∃ reverted bc', RevertsOldBranch C first.id bc reverted bc' ∧
    bc'.currentBlockstamp = ancestor ∧
    reverted.Pairwise (fun higher lower => lower.id < higher.id) ∧
    ∀ blockstamp, blockstamp ∈ reverted ↔ bc.OnMainBranch blockstamp ∧ ancestor.id < blockstamp.id

/-- There is nothing to revert: the new branch is above the current block, and the main branch ends
there. -/
structure NothingToRevert (bc : BlockchainModule) (first ancestor : Blockstamp) : Prop where
  current : bc.currentBlockstamp = ancestor
  above : ancestor.id ≤ first.id
  highest : ∀ blockstamp, bc.OnMainBranch blockstamp → blockstamp.id ≤ ancestor.id

/-- A rollback goes back to the block below the new branch exactly when there is nothing to
revert. -/
theorem revertsTo_iff (C : Crypto) (bc : BlockchainModule) (first ancestor : Blockstamp) :
    RevertsTo C bc first ancestor ↔ NothingToRevert bc first ancestor := by
  constructor
  · rintro ⟨reverted, bc', hrun, hcurrent, -, hreverted⟩
    rcases hrun.eq_nil with ⟨rfl, rfl, hle⟩
    refine ⟨hcurrent, hcurrent ▸ hle, fun blockstamp hmain => Nat.not_lt.1 fun hlt => ?_⟩
    cases (hreverted blockstamp).2 ⟨hmain, hlt⟩
  · rintro ⟨rfl, habove, hhighest⟩
    refine ⟨[], bc, .done habove, rfl, List.Pairwise.nil, fun blockstamp => ?_⟩
    refine iff_of_false List.not_mem_nil fun h => ?_
    exact Nat.not_le.2 h.2 (hhighest blockstamp h.1)

/-- The blocks of another branch above the first block. -/
def otherBranch : List Blockstamp := [1, 2, 3, 4].map fun k => ⟨k, mockBlockHash 1 k⟩

/-- A module that has received two blocks, some operations later the first three blocks of another
branch above the first, and stores the fourth. -/
def forkedModule (between : List ModuleOp) : Run BlockchainModule := do
  let chunk := [.receiveBlock (mockBlock 0 0), .receiveBlock (mockBlock 0 1)] ++ between ++
    [.receiveBlock (mockBlock 1 1), .receiveBlock (mockBlock 1 2), .receiveBlock (mockBlock 1 3)]
  let (bc, _) ← chunk.foldlM (ModuleOp.apply mockCrypto .insertion 10) (default, .none)
  let (bc, _) ← checkAndApplyBlock mockCrypto bc (mockBlock 1 4)
  return bc

/-- The algorithm selects the other branch, whose parent is the first block; the rollback to it does
not revert the second block. -/
theorem not_revertsTo_otherBranch : ∃ bc, forkedModule [] = .ok bc ∧
    forkResolutionAlgo .insertion bc.dbs.forks bc.currentBlockstamp bc.invalidForks =
      .ok (some otherBranch) ∧
    bc.dbs.forks.forkTreeDb.HasNode ⟨1, mockBlockHash 1 1⟩ (some ⟨0, mockBlockHash 0 0⟩) ∧
    bc.OnMainBranch ⟨1, mockBlockHash 0 1⟩ ∧
    ¬ RevertsTo mockCrypto bc ⟨1, mockBlockHash 1 1⟩ ⟨0, mockBlockHash 0 0⟩ := by
  have hrun : ∃ bc, forkedModule [] = .ok bc ∧
      (forkResolutionAlgo .insertion bc.dbs.forks bc.currentBlockstamp bc.invalidForks =
          .ok (some otherBranch) ∧
        bc.currentBlockstamp = ⟨1, mockBlockHash 0 1⟩ ∧
        bc.dbs.forks.forkTreeDb.mainBranch.get? 1 = some 1 ∧
        (bc.dbs.forks.forkTreeDb.node? 0).map TreeNode.data = some ⟨0, mockBlockHash 0 0⟩ ∧
        (bc.dbs.forks.forkTreeDb.node? 1).map TreeNode.data = some ⟨1, mockBlockHash 0 1⟩ ∧
        (bc.dbs.forks.forkTreeDb.node? 2).map (fun node => (node.data, node.parent)) =
          some (⟨1, mockBlockHash 1 1⟩, some 0)) := by
    decide +kernel
  rcases hrun with ⟨bc, hrun, hselected, hcurrent, hmain, hroot, hold, hnew⟩
  rcases Option.map_eq_some_iff.1 hold with ⟨old, hold, hdata⟩
  rcases Option.map_eq_some_iff.1 hnew with ⟨new, hnew, heq⟩
  rcases Prod.mk.inj heq with ⟨hstamp, hparent⟩
  refine ⟨bc, hrun, hselected, ⟨2, new, hnew, hstamp, ?_⟩, ⟨1, 1, old, hmain, hold, hdata⟩, ?_⟩
  · rw [hparent]
    exact hroot
  · rintro ⟨reverted, bc', hreverts, hancestor, -⟩
    rw [hreverts.eq_nil.2.1, hcurrent] at hancestor
    exact absurd hancestor (by decide)

/-! ## Refused branches -/

/-- The current blockstamp is that of a block of the branch as soon as one is applied. -/
theorem currentBlockstamp_of_applyNewBranch {newBranchIsValid : Bool}
    (h : applyNewBranch C branch bc = .ok (bc', newBranchIsValid)) :
    bc'.files = bc.files ∧ (bc'.currentBlockstamp = bc.currentBlockstamp ∨
      bc'.currentBlockstamp ∈ branch) := by
  induction branch generalizing bc with
  | nil =>
      obtain ⟨rfl, -⟩ := Prod.mk.inj (Except.ok.inj h)
      exact ⟨rfl, .inl rfl⟩
  | cons blockstamp branch ih =>
      rw [applyNewBranch, bind_eq_ok_iff] at h
      rcases h with ⟨dalBlock, -, h⟩
      rw [bind_eq_ok_iff] at h
      rcases h with ⟨⟨mid, result⟩, hcheck, h⟩
      have hmid := kept_of_checkAndApplyBlock hcheck
      split at h
      case h_1 reqs heq =>
        obtain ⟨rfl, rfl⟩ := Prod.mk.inj heq
        rw [bind_eq_ok_iff] at h
        rcases h with ⟨queried, hqueries, h⟩
        rcases BlockchainModule.applyQueries_eq_ok hqueries with
          ⟨blocks, forks, wots, currency, -, -, -, rfl⟩
        rcases ih h with ⟨hfiles, hcurrent⟩
        refine ⟨hfiles.trans hmid.1, .inr ?_⟩
        rcases hcurrent with hcurrent | hmem
        · exact hcurrent ▸ List.mem_cons_self
        · exact List.mem_cons_of_mem _ hmem
      case h_2 heq =>
        obtain ⟨rfl, -⟩ := Prod.mk.inj heq
        obtain ⟨rfl, -⟩ := Prod.mk.inj (Except.ok.inj h)
        exact ⟨hmid.1, .inl hmid.2⟩

/-- A block that is not applied leaves the current blockstamp and the files as they are, and the
index too unless newcomers were added to it before the block was refused. -/
theorem wotIndex_of_not_valid {block : BlockDocument}
    {result : Except BlockError CheckAndApplyBlockReturn}
    (h : checkAndApplyBlock C bc block = .ok (bc', result))
    (hresult : ∀ reqs, result ≠ .ok (.validBlock reqs)) :
    bc'.wotIndex = bc.wotIndex ↔
      (ReachesApplication C bc block →
        (bc.memory.withNewcomers block).wotIndex = bc.wotIndex) := by
  cases result with
  | error error =>
      rcases checkAndApplyBlock_eq_error h with ⟨hnot, rfl⟩ |
        ⟨hreach, blockstamp, error, memory', hwot, rfl⟩
      · exact iff_of_true rfl fun hreach => absurd hreach hnot
      · rw [imp_iff_right hreach, ← (applyWot_eq_refused hwot).1.index]
        rfl
  | ok taken =>
      rcases checkAndApplyBlock_cases h with ⟨_, reqs, -, -, -, -, heq⟩ | ⟨_, _, -, heq⟩ |
        ⟨forks, inserted, -, rfl, -⟩
      · exact absurd heq (hresult reqs)
      · cases heq
      · refine iff_of_true rfl fun hreach => ?_
        -- a block that is applied is not stored with the fork blocks
        rw [checkAndApplyBlock, bind_eq_ok_iff] at h
        rcases h with ⟨blockstamp, -, h⟩
        rw [bind_eq_ok_iff] at h
        rcases h with ⟨already, -, h⟩
        rw [hreach.1, ok_bind] at h
        change (if Chainable bc.currentBlockstamp block then checkAndApplyChainable C bc block
          else storeForkBlock bc block already) = _ at h
        rw [if_pos hreach.2.1] at h
        rcases checkAndApplyChainable_cases h with ⟨_, reqs, -, -, -, heq⟩ | ⟨_, _, -, heq⟩
        · exact absurd heq (hresult reqs)
        · cases heq

/-- The module is as it was, apart from the fork tree and from the branches known to be invalid. -/
structure Restored (bc bc' : BlockchainModule) : Prop where
  blocks : bc'.dbs.blocks = bc.dbs.blocks
  wots : bc'.dbs.wots = bc.dbs.wots
  currency : bc'.dbs.currency = bc.dbs.currency
  wotIndex : bc'.wotIndex = bc.wotIndex
  currentBlockstamp : bc'.currentBlockstamp = bc.currentBlockstamp

/-- What lets a rollback to a branch that is refused leave the module as it was: the databases are
as they were last saved, and the first block of the branch is already refused, before its newcomers
are added to the index. -/
structure LeavesAsSaved (C : Crypto) (bc : BlockchainModule) (first : Blockstamp) : Prop where
  blocks : bc.files.blocks = bc.dbs.blocks
  wots : bc.files.wots = bc.dbs.wots
  currency : bc.files.currency = bc.dbs.currency
  refused : ∀ dalBlock, bc.dbs.forks.forkBlocksDb.get? first = some dalBlock →
    (∀ mid reqs, checkAndApplyBlock C bc dalBlock.block ≠ .ok (mid, .ok (.validBlock reqs))) ∧
    (ReachesApplication C bc dalBlock.block →
      (bc.memory.withNewcomers dalBlock.block).wotIndex = bc.wotIndex)

/-- Whether a rollback meets a block of the branch that is refused. -/
def MeetsRefused (C : Crypto) (fuel : Nat) (bc : BlockchainModule) (branch : List Blockstamp) :
    Prop :=
  ∃ first ∈ branch.head?, ∃ reverted applied,
    revertOldBranch C fuel first.id bc = .ok reverted ∧
      applyNewBranch C branch reverted = .ok (applied, false)

/-- The rollback of the example has nothing to revert and meets a refused block. -/
theorem meetsRefused_otherBranch {bc : BlockchainModule}
    (hcurrent : bc.currentBlockstamp = ⟨1, mockBlockHash 0 1⟩)
    (happly : ∃ result, applyNewBranch mockCrypto otherBranch bc = .ok result ∧
      result.2 = false) : MeetsRefused mockCrypto 10 bc otherBranch := by
  rcases happly with ⟨⟨applied, valid⟩, happly, rfl⟩
  have hguard : ¬ bc.currentBlockstamp.id > 1 := by rw [hcurrent]; decide
  exact ⟨⟨1, mockBlockHash 1 1⟩, rfl, bc, applied, if_neg hguard, happly⟩

end Durs
