/-
# The local chain

The main blocks are numbered from zero to the current block, and each holds the hash of the one
before.  Taking the next block of the chain keeps this.
-/

import Durs.Blockchain.ModuleSteps

namespace Durs

open RustStd

/-- The main blocks are the chain from the genesis block to this one. -/
structure ChainTo (blocks : BlocksV10DBs) (head : Blockstamp) : Prop where
  numbers : ∀ k, (∃ dalBlock, blocks.blockchainDb.get? k = some dalBlock) ↔ k ≤ head.id
  numbered : ∀ k dalBlock, blocks.blockchainDb.get? k = some dalBlock → dalBlock.block.number = k
  linked : ∀ k dalBlock next, blocks.blockchainDb.get? k = some dalBlock →
    blocks.blockchainDb.get? (k + 1) = some next →
    dalBlock.block.hash = some next.block.previousHash
  last : ∃ dalBlock, blocks.blockchainDb.get? head.id = some dalBlock ∧
    dalBlock.blockstamp = .ok head

/-- There is no main block, or they form the chain to the current one. -/
def Chained (blocks : BlocksV10DBs) (currentBlockstamp : Blockstamp) : Prop :=
  (∀ k, blocks.blockchainDb.get? k = none) ∧ currentBlockstamp = default ∨
    ChainTo blocks currentBlockstamp

/-- The local chain of the module, read from its main blocks and from its current blockstamp. -/
def LocalChain (bc : BlockchainModule) : Prop :=
  (∀ k, bc.dbs.blocks.blockchainDb.get? k = none) ∧ bc.currentBlockstamp = default ∨
    ChainTo bc.dbs.blocks bc.currentBlockstamp ∧
      getCurrentBlockstamp bc.dbs.blocks = .ok (some bc.currentBlockstamp)

/-- The last block number whose successor is a block number. -/
def lastBlockNumber : BlockNumber := 4294967294

variable {blocks : BlocksV10DBs} {head current : Blockstamp}

/-! ## Reading the current blockstamp back -/

theorem ChainTo.len (h : ChainTo blocks head) : blocks.blockchainDb.len = head.id + 1 := by
  have hperm : blocks.blockchainDb.keys.Perm (List.range (head.id + 1)) := by
    refine (List.perm_ext_iff_of_nodup blocks.blockchainDb.keys_nodup List.nodup_range).2
      fun k => ?_
    rw [HashMap.mem_keys_iff, h.numbers, List.mem_range, Nat.lt_succ_iff]
  rw [HashMap.len, hperm.length_eq, List.length_range]

theorem ChainTo.getCurrentBlockstamp (h : ChainTo blocks head) (hid : head.id ≤ lastBlockNumber) :
    getCurrentBlockstamp blocks = .ok (some head) := by
  rcases h.last with ⟨dalBlock, hget, hstamp⟩
  have hlen : blocks.blockchainDb.len % 4294967296 = head.id + 1 := by
    rw [h.len]
    exact Nat.mod_eq_of_lt (Nat.lt_of_le_of_lt (Nat.succ_le_succ hid) (by decide))
  rw [Durs.getCurrentBlockstamp, hlen, if_neg (Nat.succ_ne_zero _), Nat.add_sub_cancel, hget]
  change (dalBlock.blockstamp >>= fun blockstamp => pure (some blockstamp)) = .ok (some head)
  rw [hstamp]
  rfl

/-- The chain that a saved database holds ends where the current blockstamp is read. -/
theorem Chained.chainTo_of_getCurrentBlockstamp (h : Chained blocks head)
    (hid : head.id ≤ lastBlockNumber) (hread : getCurrentBlockstamp blocks = .ok (some current)) :
    ChainTo blocks current := by
  rcases h with ⟨hempty, -⟩ | hchain
  · rw [Durs.getCurrentBlockstamp, HashMap.len_eq_zero_of_forall _ hempty] at hread
    cases Except.ok.inj hread
  · rw [hchain.getCurrentBlockstamp hid] at hread
    exact Option.some.inj (Except.ok.inj hread) ▸ hchain

theorem Chained.localChain {bc : BlockchainModule}
    (h : Chained bc.dbs.blocks bc.currentBlockstamp)
    (hid : bc.currentBlockstamp.id ≤ lastBlockNumber) : LocalChain bc := by
  rcases h with hempty | hchain
  · exact Or.inl hempty
  · exact Or.inr ⟨hchain, hchain.getCurrentBlockstamp hid⟩

/-! ## Extending the chain -/

/-- The genesis block is a chain. -/
theorem chainTo_genesis {dalBlock : DALBlock} (hstamp : dalBlock.blockstamp = .ok head)
    (hid : head.id = 0) (honly : ∀ k, blocks.blockchainDb.get? (k + 1) = none) :
    ChainTo ⟨blocks.blockchainDb.insert head.id dalBlock⟩ head where
  numbers k := by
    cases k with
    | zero =>
        rw [hid, HashMap.get?_insert_self]
        exact ⟨fun _ => Nat.le_refl 0, fun _ => ⟨dalBlock, rfl⟩⟩
    | succ k =>
        rw [hid, HashMap.get?_insert_of_ne _ _ (Nat.succ_ne_zero k), honly]
        exact ⟨fun h => (nomatch h), fun h => absurd h (Nat.not_succ_le_zero k)⟩
  numbered k stored hget := by
    rw [HashMap.get?_insert] at hget
    split at hget
    case isTrue hk =>
      obtain rfl := Option.some.inj hget
      exact (BlockDocument.blockstamp_eq_ok_iff.1 hstamp).1.trans hk.symm
    case isFalse hk =>
      cases k with
      | zero => exact absurd hid.symm hk
      | succ k =>
          rw [honly] at hget
          cases hget
  linked k stored next _ hnext := by
    rw [hid, HashMap.get?_insert_of_ne _ _ (Nat.succ_ne_zero k), honly] at hnext
    cases hnext
  last := ⟨dalBlock, HashMap.get?_insert_self _ _ _, hstamp⟩

/-- The block that follows the last one extends the chain. -/
theorem ChainTo.extend (h : ChainTo blocks current) {dalBlock : DALBlock}
    (hstamp : dalBlock.blockstamp = .ok head) (hid : head.id = current.id + 1)
    (hprevious : dalBlock.block.previousHash = current.hash) :
    ChainTo ⟨blocks.blockchainDb.insert head.id dalBlock⟩ head where
  numbers k := by
    rw [HashMap.get?_insert, hid]
    by_cases hk : k = current.id + 1
    · rw [if_pos hk]
      exact ⟨fun _ => Nat.le_of_eq hk, fun _ => ⟨dalBlock, rfl⟩⟩
    · rw [if_neg hk, h.numbers]
      exact ⟨fun hle => Nat.le_succ_of_le hle,
        fun hle => Nat.le_of_lt_succ (Nat.lt_of_le_of_ne hle hk)⟩
  numbered k stored hget := by
    rw [HashMap.get?_insert] at hget
    split at hget
    case isTrue hk =>
      obtain rfl := Option.some.inj hget
      exact (BlockDocument.blockstamp_eq_ok_iff.1 hstamp).1.trans hk.symm
    case isFalse => exact h.numbered k stored hget
  linked k stored next hget hnext := by
    rcases h.last with ⟨lastBlock, hlast, hlastStamp⟩
    by_cases hk : k = current.id
    · subst hk
      rw [hid, HashMap.get?_insert_of_ne _ _ (Nat.ne_of_lt (Nat.lt_succ_self _)), hlast] at hget
      rw [hid, HashMap.get?_insert_self] at hnext
      obtain rfl := Option.some.inj hget
      obtain rfl := Option.some.inj hnext
      rw [hprevious]
      exact (BlockDocument.blockstamp_eq_ok_iff.1 hlastStamp).2
    · have hbelow : k < current.id := by
        -- above the new head there is no block
        by_contra hnot
        have habove : ¬ k + 1 ≤ current.id := fun hle => hnot hle
        have hne : k + 1 ≠ head.id := fun heq => hk (Nat.succ.inj (heq.trans hid))
        rw [HashMap.get?_insert_of_ne _ _ hne] at hnext
        exact habove ((h.numbers _).1 ⟨next, hnext⟩)
      have hk' : k ≠ head.id := fun heq => by
        rw [heq, hid] at hbelow
        exact absurd hbelow (Nat.not_lt.2 (Nat.le_succ _))
      have hnext' : k + 1 ≠ head.id := fun heq => hk (Nat.succ.inj (heq.trans hid))
      rw [HashMap.get?_insert_of_ne _ _ hk'] at hget
      rw [HashMap.get?_insert_of_ne _ _ hnext'] at hnext
      exact h.linked k stored next hget hnext
  last := ⟨dalBlock, HashMap.get?_insert_self _ _ _, hstamp⟩

/-- The next block of the chain extends it. -/
theorem Chained.extend (h : Chained blocks current) (hcurrent : current.id ≤ lastBlockNumber)
    {block : BlockDocument} (hchain : Chainable current block)
    (hvalid : verifyBlockValidity block blocks = .ok ()) (dalBlock : DALBlock)
    (hstamp : dalBlock.blockstamp = .ok head) (hnumber : head.id = block.number)
    (hprevious : dalBlock.block.previousHash = block.previousHash) :
    ChainTo ⟨blocks.blockchainDb.insert head.id dalBlock⟩ head := by
  have hnext : addU32 current.id 1 = current.id + 1 :=
    Nat.mod_eq_of_lt (Nat.lt_of_le_of_lt (Nat.succ_le_succ hcurrent) (by decide))
  rcases h with ⟨hempty, rfl⟩ | hchainTo
  · rcases hchain with ⟨hnum, -⟩ | ⟨hnum, -⟩
    · -- without a genesis block, a first block numbered one has no previous block
      have hone : block.number = 1 := hnum.trans hnext
      rw [verifyBlockValidity, hone, getBlockInLocalBlockchain, hempty] at hvalid
      cases hvalid
    · exact chainTo_genesis hstamp (hnumber.trans hnum) fun k => hempty (k + 1)
  · rcases hchain with ⟨hnum, hprev⟩ | ⟨hnum, rfl⟩
    · exact hchainTo.extend hstamp (hnumber.trans (hnum.trans hnext)) (hprevious.trans hprev)
    · refine chainTo_genesis hstamp (hnumber.trans hnum) fun k => ?_
      cases hget : blocks.blockchainDb.get? (k + 1) with
      | none => rfl
      | some stored => exact absurd ((hchainTo.numbers _).1 ⟨stored, hget⟩) (Nat.not_succ_le_zero k)

end Durs
