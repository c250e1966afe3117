/-
# What the steps of the module do

Inversion lemmas for the functions of the module: how a block that is taken was checked, and which
part of the state each step changes.
-/

import Durs.Blockchain.Module
import Durs.ForkTree.Store

namespace Durs

open RustStd

variable {C : Crypto} {bc bc' : BlockchainModule} {block : BlockDocument}

namespace BlockchainModule

@[simp] theorem withMemory_currentBlockstamp (bc : BlockchainModule) (memory : WotMemory) :
    (bc.withMemory memory).currentBlockstamp = bc.currentBlockstamp := rfl

@[simp] theorem withMemory_files (bc : BlockchainModule) (memory : WotMemory) :
    (bc.withMemory memory).files = bc.files := rfl

@[simp] theorem withMemory_blocks (bc : BlockchainModule) (memory : WotMemory) :
    (bc.withMemory memory).dbs.blocks = bc.dbs.blocks := rfl

@[simp] theorem withMemory_forks (bc : BlockchainModule) (memory : WotMemory) :
    (bc.withMemory memory).dbs.forks = bc.dbs.forks := rfl

/-- The requests of a block change the databases only. -/
theorem applyQueries_eq_ok {blocksQuery : BlocksDBsWriteQuery}
    {wotQueries : List WotsDBsWriteQuery} {currencyQueries : List CurrencyDBsWriteQuery}
    (h : bc.applyQueries C.toTxCrypto blocksQuery wotQueries currencyQueries = .ok bc') :
    ∃ blocks forks wots currency, blocksQuery.apply bc.dbs.blocks bc.dbs.forks none =
        .ok (blocks, forks) ∧
      wotQueries.foldlM (WotsDBsWriteQuery.apply bc.currencyParams) bc.dbs.wots = .ok wots ∧
      currencyQueries.foldlM (CurrencyDBsWriteQuery.apply C.toTxCrypto) bc.dbs.currency =
        .ok currency ∧
      bc' = { bc with dbs := { blocks, forks, wots, currency } } := by
  rw [applyQueries, bind_eq_ok_iff] at h
  rcases h with ⟨⟨blocks, forks⟩, hblocks, h⟩
  rw [bind_eq_ok_iff] at h
  rcases h with ⟨wots, hwots, h⟩
  rw [bind_eq_ok_iff] at h
  rcases h with ⟨currency, hcurrency, h⟩
  exact ⟨blocks, forks, wots, currency, hblocks, hwots, hcurrency, (Except.ok.inj h).symm⟩

end BlockchainModule

/-! ## Checking a block -/

theorem Applying.ofRun_eq_ok {α : Type} {x : Run α} {a : α} :
    Applying.ofRun x = .ok a ↔ x = .ok a := by
  cases x with
  | error e =>
      constructor
      · intro h
        cases h
      · intro h
        cases h
  | ok b =>
      constructor
      · intro h
        exact congrArg Except.ok (Except.ok.inj h)
      · intro h
        exact congrArg Except.ok (Except.ok.inj h)

/-- The block that a valid block asks to write is the block, lightened. -/
theorem applyValidBlock_eq_ok {memory memory' : WotMemory}
    {expireCerts : HashMap (NodeId × NodeId) BlockNumber} {reqs : ValidBlockApplyReqs}
    (h : applyValidBlock C block memory expireCerts = .ok (memory', reqs)) :
    ∃ blockstamp s currencyQueries reduced, block.blockstamp = .ok blockstamp ∧
      applyWot block memory blockstamp = .ok s ∧
      currencyRequests block (expireCerts.iter.foldl applyExpiry (s, ∅)).1.memory =
        .ok currencyQueries ∧
      block.reduce C = .ok reduced ∧
      memory' = (expireCerts.iter.foldl applyExpiry (s, ∅)).1.memory ∧
      reqs = {
        blocksQuery := .writeBlock ⟨reduced, some expireCerts⟩
        wotQueries := (expireCerts.iter.foldl applyExpiry (s, ∅)).1.requests
        currencyQueries } := by
  rw [applyValidBlock, bind_eq_ok_iff] at h
  rcases h with ⟨blockstamp, hstamp, h⟩
  rw [bind_eq_ok_iff] at h
  rcases h with ⟨s, hwot, h⟩
  rw [bind_eq_ok_iff] at h
  rcases h with ⟨currencyQueries, hcurrency, h⟩
  rw [bind_eq_ok_iff] at h
  rcases h with ⟨reduced, hreduced, h⟩
  rcases Prod.mk.inj (Except.ok.inj h) with ⟨rfl, rfl⟩
  exact ⟨blockstamp, s, currencyQueries, reduced, Applying.ofRun_eq_ok.1 hstamp, hwot,
    Applying.ofRun_eq_ok.1 hcurrency, Applying.ofRun_eq_ok.1 hreduced, rfl, rfl⟩

/-- Lightening a block keeps what identifies it and its place in the chain. -/
theorem reduce_eq_ok {reduced : BlockDocument} (h : block.reduce C = .ok reduced) :
    reduced.number = block.number ∧ reduced.hash = block.hash ∧
      reduced.previousHash = block.previousHash ∧ reduced.version = block.version := by
  rw [BlockDocument.reduce, bind_eq_ok_iff] at h
  rcases h with ⟨_, _, h⟩
  obtain rfl := Except.ok.inj h
  exact ⟨rfl, rfl, rfl, rfl⟩

/-- What becomes of the next block of the chain: it is valid, or it is refused. -/
theorem checkAndApplyChainable_cases {result : Except BlockError CheckAndApplyBlockReturn}
    (h : checkAndApplyChainable C bc block = .ok (bc', result)) :
    (∃ memory reqs, verifyBlockValidity block bc.dbs.blocks = .ok () ∧
      applyValidBlock C block bc.memory (findExpireCerts bc.dbs.wots.certsDb []) =
        .ok (memory, reqs) ∧
      bc' = bc.withMemory memory ∧ result = .ok (.validBlock reqs)) ∨
    (∃ memory error, bc' = bc.withMemory memory ∧ result = .error error) := by
  rw [checkAndApplyChainable] at h
  cases hvalid : verifyBlockValidity block bc.dbs.blocks with
  | error error =>
      rw [hvalid] at h
      rcases Prod.mk.inj (Except.ok.inj h) with ⟨rfl, rfl⟩
      exact Or.inr ⟨bc.memory, _, rfl, rfl⟩
  | ok _ =>
      rw [hvalid] at h
      cases happly : applyValidBlock C block bc.memory (findExpireCerts bc.dbs.wots.certsDb [])
        with
      | ok memoryReqs =>
          rcases memoryReqs with ⟨memory, reqs⟩
          simp only [happly] at h
          rcases Prod.mk.inj (Except.ok.inj h) with ⟨rfl, rfl⟩
          exact Or.inl ⟨memory, reqs, rfl, rfl, rfl, rfl⟩
      | error ending =>
          cases ending with
          | abort reason =>
              simp only [happly] at h
              cases h
          | refused error memory =>
              simp only [happly] at h
              rcases Prod.mk.inj (Except.ok.inj h) with ⟨rfl, rfl⟩
              exact Or.inr ⟨memory, _, rfl, rfl⟩

/-- What becomes of a block that is not the next one: it is stored, or it is refused. -/
theorem storeForkBlock_cases {alreadyHaveBlock : Bool}
    {result : Except BlockError CheckAndApplyBlockReturn}
    (h : storeForkBlock bc block alreadyHaveBlock = .ok (bc', result)) :
    (∃ error, bc' = bc ∧ result = .error error) ∨
    (∃ forks inserted, insertNewForkBlock bc.dbs.forks ⟨block, none⟩ = .ok (forks, inserted) ∧
      bc' = { bc with dbs.forks := forks } ∧
      result = .ok (if inserted then .forkBlock else .orphanBlock)) := by
  rw [storeForkBlock] at h
  split at h
  case isTrue =>
    rw [bind_eq_ok_iff] at h
    rcases h with ⟨⟨forks, inserted⟩, hinsert, h⟩
    rcases Prod.mk.inj (Except.ok.inj h) with ⟨rfl, rfl⟩
    exact Or.inr ⟨forks, inserted, hinsert, rfl, rfl⟩
  case isFalse =>
    rcases Prod.mk.inj (Except.ok.inj h) with ⟨rfl, rfl⟩
    exact Or.inl ⟨_, rfl, rfl⟩

/-- A block is refused for its hashes, applied as the next one of the chain, or stored. -/
theorem checkAndApplyBlock_eq_ok {result : Except BlockError CheckAndApplyBlockReturn}
    (h : checkAndApplyBlock C bc block = .ok (bc', result)) :
    (∃ error, verifyBlockHashs C block = .ok (.error error) ∧ bc' = bc ∧
      result = .error (.verifyBlockHashsError error)) ∨
    (verifyBlockHashs C block = .ok (.ok ()) ∧ Chainable bc.currentBlockstamp block ∧
      checkAndApplyChainable C bc block = .ok (bc', result)) ∨
    (verifyBlockHashs C block = .ok (.ok ()) ∧ ¬ Chainable bc.currentBlockstamp block ∧
      ∃ blockstamp already, block.blockstamp = .ok blockstamp ∧
        alreadyHaveBlock bc.dbs.blocks bc.dbs.forks blockstamp block.previousHash = .ok already ∧
        storeForkBlock bc block already = .ok (bc', result)) := by
  rw [checkAndApplyBlock, bind_eq_ok_iff] at h
  rcases h with ⟨blockstamp, hstamp, h⟩
  rw [bind_eq_ok_iff] at h
  rcases h with ⟨already, halready, h⟩
  rw [bind_eq_ok_iff] at h
  rcases h with ⟨verified, hverified, h⟩
  cases verified with
  | error error =>
      rcases Prod.mk.inj (Except.ok.inj h) with ⟨rfl, rfl⟩
      exact Or.inl ⟨error, hverified, rfl, rfl⟩
  | ok _ =>
      change (if Chainable bc.currentBlockstamp block then checkAndApplyChainable C bc block
        else storeForkBlock bc block already) = .ok (bc', result) at h
      split at h
      case isTrue hchain => exact Or.inr (Or.inl ⟨hverified, hchain, h⟩)
      case isFalse hchain =>
        exact Or.inr (Or.inr ⟨hverified, hchain, blockstamp, already, hstamp, halready, h⟩)

/-- What becomes of a block that is checked: it is valid and its requests are to be applied, it is
refused, or it is stored with the fork blocks. -/
theorem checkAndApplyBlock_cases {result : Except BlockError CheckAndApplyBlockReturn}
    (h : checkAndApplyBlock C bc block = .ok (bc', result)) :
    (∃ memory reqs, Chainable bc.currentBlockstamp block ∧
      verifyBlockValidity block bc.dbs.blocks = .ok () ∧
      applyValidBlock C block bc.memory (findExpireCerts bc.dbs.wots.certsDb []) =
        .ok (memory, reqs) ∧
      bc' = bc.withMemory memory ∧ result = .ok (.validBlock reqs)) ∨
    (∃ memory error, bc' = bc.withMemory memory ∧ result = .error error) ∨
    (∃ forks inserted, insertNewForkBlock bc.dbs.forks ⟨block, none⟩ = .ok (forks, inserted) ∧
      bc' = { bc with dbs.forks := forks } ∧
      result = .ok (if inserted then .forkBlock else .orphanBlock)) := by
  rcases checkAndApplyBlock_eq_ok h with ⟨error, -, rfl, hresult⟩ | ⟨-, hchain, h⟩ |
    ⟨-, -, _, _, -, -, h⟩
  · exact Or.inr (Or.inl ⟨bc'.memory, _, rfl, hresult⟩)
  · rcases checkAndApplyChainable_cases h with ⟨memory, reqs, hvalid⟩ | hrefused
    · exact Or.inl ⟨memory, reqs, hchain, hvalid⟩
    · exact Or.inr (Or.inl hrefused)
  · rcases storeForkBlock_cases h with ⟨error, rfl, hresult⟩ | hstored
    · exact Or.inr (Or.inl ⟨bc'.memory, error, rfl, hresult⟩)
    · exact Or.inr (Or.inr hstored)

/-- Checking a block saves nothing and does not move the current blockstamp. -/
theorem kept_of_checkAndApplyBlock {result : Except BlockError CheckAndApplyBlockReturn}
    (h : checkAndApplyBlock C bc block = .ok (bc', result)) :
    bc'.files = bc.files ∧ bc'.currentBlockstamp = bc.currentBlockstamp := by
  rcases checkAndApplyBlock_cases h with ⟨memory, _, -, -, -, rfl, -⟩ | ⟨memory, _, rfl, -⟩ |
    ⟨forks, _, -, rfl, -⟩
  · exact ⟨rfl, rfl⟩
  · exact ⟨rfl, rfl⟩
  · exact ⟨rfl, rfl⟩

/-! ## Rollbacks -/

theorem revertCurrentBlock_currentBlockstamp (h : revertCurrentBlock C bc = .ok bc') :
    bc'.currentBlockstamp = bc.currentBlockstamp := by
  rw [revertCurrentBlock, bind_eq_ok_iff] at h
  rcases h with ⟨dalBlock, hblock, h⟩
  rw [bind_eq_ok_iff] at h
  rcases h with ⟨⟨memory, reqs⟩, hrevert, h⟩
  rcases BlockchainModule.applyQueries_eq_ok h with ⟨blocks, forks, wots, currency, -, -, -, rfl⟩
  rfl

/-- The loop that reverts the old branch only ends when there is nothing to revert. -/
theorem revertOldBranch_eq_ok {fuel : Nat} {lastCommonBlockNumber : BlockNumber}
    (h : revertOldBranch C fuel lastCommonBlockNumber bc = .ok bc') :
    bc.currentBlockstamp.id ≤ lastCommonBlockNumber ∧ bc' = bc := by
  induction fuel generalizing bc with
  | zero => cases h
  | succ fuel ih =>
      rw [revertOldBranch] at h
      split at h
      case isTrue habove =>
        rw [bind_eq_ok_iff] at h
        rcases h with ⟨mid, hmid, h⟩
        have hcurrent := revertCurrentBlock_currentBlockstamp hmid
        -- the current blockstamp of the next turn is still above the last common block
        exact absurd (hcurrent ▸ (ih h).1) (Nat.not_le.2 habove)
      case isFalse hbelow => exact ⟨Nat.not_lt.1 hbelow, (Except.ok.inj h).symm⟩

/-- A rollback that returns has reverted nothing: it has applied the new branch and changed the main
branch, or reloaded the databases. -/
theorem applyRollback_eq_ok {fuel : Nat} {first : Blockstamp} {branch : List Blockstamp}
    (h : applyRollback C fuel bc (first :: branch) = .ok bc') :
    ∃ applied newBranchIsValid,
      applyNewBranch C (first :: branch) bc = .ok (applied, newBranchIsValid) ∧
      (newBranchIsValid = true ∧ (∃ forks, changeMainBranch applied.dbs.forks bc.currentBlockstamp
          applied.currentBlockstamp = .ok forks ∧
        bc' = { applied with dbs.forks := forks }.save) ∨
      newBranchIsValid = false ∧ bc' = applied.reload) := by
  rw [applyRollback, bind_eq_ok_iff] at h
  rcases h with ⟨reverted, hrevert, h⟩
  rw [(revertOldBranch_eq_ok hrevert).2, bind_eq_ok_iff] at h
  rcases h with ⟨⟨applied, newBranchIsValid⟩, happly, h⟩
  refine ⟨applied, newBranchIsValid, happly, ?_⟩
  cases newBranchIsValid with
  | true =>
      change switchMainBranch applied bc.currentBlockstamp (first :: branch) = .ok _ at h
      rw [switchMainBranch, bind_eq_ok_iff] at h
      rcases h with ⟨forks, hforks, h⟩
      rw [bind_eq_ok_iff] at h
      rcases h with ⟨_, _, h⟩
      exact Or.inl ⟨rfl, forks, hforks, (Except.ok.inj h).symm⟩
  | false => exact Or.inr ⟨rfl, (Except.ok.inj h).symm⟩

end Durs
