/-
# Blocks that stop the node

A received block stops the process when it lacks the issuer of its previous block, when it is the
next block and cannot be applied, or when it brings in a circle of orphans; it is taken or refused
in all other cases, whatever the module did before.
-/

import Durs.Blockchain.Applicable
import Durs.Blockchain.ForksInvariant
import Durs.ForkTree.OrphanCycles

namespace Durs

open RustStd Lib

variable {C : Crypto} {S : SheetSort} {fuel : Nat} {bc bc' : BlockchainModule}
  {block : BlockDocument}

/-! ## The orphans of the module -/

/-- The orphans after a block is set aside are those before and the block, under its parent. -/
theorem mem_insertOrphanBlock {forks : ForksDBs} {dalBlock x : DALBlock} {key : Blockstamp}
    (hx : x ∈ ((insertOrphanBlock forks dalBlock).orphanBlocksDb.get? key).getD []) :
    x ∈ (forks.orphanBlocksDb.get? key).getD [] ∨
      x = dalBlock ∧ dalBlock.previousBlockstamp = key := by
  simp only [insertOrphanBlock, HashMap.get?_insert] at hx
  split at hx
  case isTrue hkey =>
    rcases List.mem_append.1 hx with hx | hx
    · exact Or.inl (hkey ▸ hx)
    · exact Or.inr ⟨List.mem_singleton.1 hx, hkey.symm⟩
  case isFalse => exact Or.inl hx

namespace OrphansKeyed

variable {forks forks' : ForksDBs} {dalBlock : DALBlock}

theorem empty : OrphansKeyed ∅ where
  hashed _ _ hmem := by cases hmem
  keyed _ _ hmem := by cases hmem

/-- Setting a block aside stores it under its parent. -/
theorem orphan (h : OrphansKeyed forks.orphanBlocksDb) (hhash : dalBlock.block.hash.isSome = true) :
    OrphansKeyed (insertOrphanBlock forks dalBlock).orphanBlocksDb := by
  constructor
  case hashed =>
    intro key x hx
    rcases mem_insertOrphanBlock hx with hx | ⟨rfl, -⟩
    · exact h.hashed key x hx
    · exact hhash
  case keyed =>
    intro key x hx
    rcases mem_insertOrphanBlock hx with hx | ⟨rfl, hkey⟩
    · exact h.keyed key x hx
    · exact hkey

/-- Inserting a fork block keeps it. -/
theorem fork (h : OrphansKeyed forks.orphanBlocksDb) (hhash : dalBlock.block.hash.isSome = true)
    {inserted : Bool} (hrun : insertNewForkBlock forks dalBlock = .ok (forks', inserted)) :
    OrphansKeyed forks'.orphanBlocksDb := by
  refine insertNewForkBlockAux_preserves (P := fun forks => OrphansKeyed forks.orphanBlocksDb)
    (Q := fun dalBlock => dalBlock.block.hash.isSome = true) ?_ ?_ ?_ h hhash hrun
  · exact fun _ _ _ _ hforks _ _ _ => hforks
  · exact fun _ _ hforks hhash => hforks.orphan hhash
  · intro forks blockstamp dalBlocks hforks hget x hx
    refine hforks.hashed blockstamp x ?_
    rw [hget]
    exact hx

end OrphansKeyed

/-- The requests for the blocks databases leave the orphans where they are. -/
theorem BlocksDBsWriteQuery.apply_orphans {blocksQuery : BlocksDBsWriteQuery}
    {blocks blocks' : BlocksV10DBs} {forks forks' : ForksDBs}
    (h : blocksQuery.apply blocks forks none = .ok (blocks', forks')) :
    forks'.orphanBlocksDb = forks.orphanBlocksDb := by
  cases blocksQuery with
  | writeBlock dalBlock =>
      change insertNewHeadBlock blocks forks dalBlock = _ at h
      rw [insertNewHeadBlock, bind_eq_ok_iff] at h
      rcases h with ⟨blockstamp, -, h⟩
      rw [bind_eq_ok_iff] at h
      rcases h with ⟨⟨tree, removed⟩, -, h⟩
      obtain ⟨-, rfl⟩ := Prod.mk.inj (Except.ok.inj h)
      rfl
  | revertBlock dalBlock =>
      obtain ⟨-, rfl⟩ := Prod.mk.inj (Except.ok.inj h)
      rfl

/-- The orphans in memory and those on disk carry their hash, under the blockstamp of their
parent. -/
structure OrphansInv (bc : BlockchainModule) : Prop where
  dbs : OrphansKeyed bc.dbs.forks.orphanBlocksDb
  files : OrphansKeyed bc.files.forks.orphanBlocksDb

/-- The module keeps the orphans so, whichever blocks it receives. -/
theorem keptByModule_orphansKeyed (C : Crypto) :
    KeptByModule C (fun forks => OrphansKeyed forks.orphanBlocksDb) (fun _ => True) := by
  have hcheck : ∀ {bc bc' : BlockchainModule} {block : BlockDocument}
      {result : Except BlockError CheckAndApplyBlockReturn},
      OrphansKeyed bc.dbs.forks.orphanBlocksDb →
      checkAndApplyBlock C bc block = .ok (bc', result) →
      OrphansKeyed bc'.dbs.forks.orphanBlocksDb := by
    intro bc bc' block result h hrun
    rcases checkAndApplyBlock_cases hrun with ⟨memory, _, -, -, -, rfl, -⟩ | ⟨memory, _, rfl, -⟩ |
      ⟨forks, inserted, hinsert, rfl, -⟩
    · exact h
    · exact h
    · refine h.fork ?_ hinsert
      rw [checkAndApplyBlock, bind_eq_ok_iff] at hrun
      rcases hrun with ⟨blockstamp, hstamp, -⟩
      exact Option.isSome_iff_exists.2 ⟨_, (BlockDocument.blockstamp_eq_ok_iff.1 hstamp).2⟩
  constructor
  case initial => exact .empty
  case orphans => exact fun _ _ => trivial
  case received => exact fun h _ hrun => hcheck h hrun
  case stored => exact fun h _ hrun => hcheck h hrun
  case queried => exact fun h hrun => BlocksDBsWriteQuery.apply_orphans hrun ▸ h
  case changed =>
    intro forks forks' oldCurrent newCurrent h hrun
    rw [changeMainBranch, bind_eq_ok_iff] at hrun
    rcases hrun with ⟨tree, -, hrun⟩
    obtain rfl := Except.ok.inj hrun
    exact h

/-- The orphans carry their hash, under the blockstamp of their parent, whatever the module has
done. -/
theorem orphansInv_of_reached {s : BlockchainModule × SaveFlags}
    (h : Reached (default, .none) (ModuleOp.apply C S fuel) (fun _ _ => True) s) :
    OrphansInv s.1 := by
  have hreceives : ∀ (s : BlockchainModule × SaveFlags) (op : ModuleOp), True →
      op.Receives fun _ => True := by
    intro s op _
    cases op <;> exact trivial
  have hhold := (keptByModule_orphansKeyed C).of_reached (h.mono hreceives)
  exact ⟨hhold.dbs, hhold.files⟩

/-! ## Blocks that the module withstands -/

/-- Whether a block is close enough to the current one to be stored. -/
def InForkWindow (currentBlockstamp : Blockstamp) (block : BlockDocument) : Prop :=
  block.number ≥ currentBlockstamp.id ∨ currentBlockstamp.id - block.number < forkWindowSize

/-- Whether the node does not know a block yet. -/
def IsNew (bc : BlockchainModule) (block : BlockDocument) : Prop :=
  ∃ blockstamp, block.blockstamp = .ok blockstamp ∧
    alreadyHaveBlock bc.dbs.blocks bc.dbs.forks blockstamp block.previousHash = .ok false

/-- A block that the module withstands.  One whose hashes are right can be applied when it is the
next one and valid, and otherwise, when it is stored below a block of the tree, brings in no circle
of orphans. -/
structure Withstood (C : Crypto) (bc : BlockchainModule) (block : BlockDocument) : Prop where
  previousIssuer : block.number > 0 → block.previousIssuer.isSome = true
  applicable : verifyBlockHashs C block = .ok (.ok ()) →
    Chainable bc.currentBlockstamp block → verifyBlockValidity block bc.dbs.blocks = .ok () →
    Applicable block bc.memory
  insertable : verifyBlockHashs C block = .ok (.ok ()) →
    ¬ Chainable bc.currentBlockstamp block → IsNew bc block →
    InForkWindow bc.currentBlockstamp block →
    bc.dbs.forks.forkTreeDb.Carries (DALBlock.previousBlockstamp ⟨block, none⟩) →
    ¬ BringsCircle bc.dbs.forks.orphanBlocksDb ⟨block, none⟩

/-- The inner text of a parsed block can be printed exactly when the issuer of its previous block is
there. -/
theorem returns_generateCompactInnerText_iff (hparsed : block.Parsed) :
    Returns block.generateCompactInnerText ↔
      (block.number > 0 → block.previousIssuer.isSome = true) := by
  rcases List.exists_cons_of_ne_nil hparsed.issuers with ⟨issuer, issuers, hissuers⟩
  rw [BlockDocument.generateCompactInnerText, hissuers]
  by_cases hnumber : block.number > 0
  · rw [if_pos hnumber]
    refine (returns_bind_iff_of_forall fun _ => ⟨_, rfl⟩).trans ?_
    rw [returns_expect_iff]
    exact ⟨fun h _ => h, fun h => h hnumber⟩
  · rw [if_neg hnumber]
    exact iff_of_true ⟨_, rfl⟩ fun h => absurd h hnumber

/-- The hashes of a parsed block can be verified exactly when the issuer of its previous block is
there. -/
theorem returns_verifyBlockHashs_iff (hparsed : block.Parsed) :
    Returns (verifyBlockHashs C block) ↔
      (block.number > 0 → block.previousIssuer.isSome = true) := by
  rcases Option.isSome_iff_exists.1 hparsed.innerHash with ⟨innerHash, hinner⟩
  rcases Option.isSome_iff_exists.1 hparsed.hash with ⟨hash, hhash⟩
  rcases List.exists_cons_of_ne_nil hparsed.signatures with ⟨signature, signatures, hsignatures⟩
  rw [verifyBlockHashs, if_neg (by rw [hinner]; exact Option.some_ne_none _),
    ← returns_generateCompactInnerText_iff hparsed, BlockDocument.verifyInnerHash, hinner]
  rw [returns_bind_iff_of_forall, returns_bind_iff_of_forall fun _ => returns_pure _]
  intro innerOk
  cases innerOk with
  | false => exact returns_pure _
  | true =>
      rw [if_pos rfl, BlockDocument.verifyHash, hhash, hinner, hsignatures]
      change Returns ((Except.ok _ : Run Bool) >>= _)
      rw [ok_bind]
      split
      case isTrue => exact returns_pure _
      case isFalse => exact returns_pure _

/-- Whether the node knows a block is found out when the orphans carry their hash. -/
theorem returns_alreadyHaveBlock {blocks : BlocksV10DBs} {forks : ForksDBs}
    (hkeyed : OrphansKeyed forks.orphanBlocksDb) (blockstamp : Blockstamp) (previousHash : Hash) :
    Returns (alreadyHaveBlock blocks forks blockstamp previousHash) := by
  rw [alreadyHaveBlock]
  split
  case isTrue => exact returns_pure _
  case isFalse =>
    split
    case h_1 orphanBlocks hget =>
      rw [returns_bind_iff_of_forall fun _ => returns_pure _]
      refine exists_mapM fun orphan hmem => ?_
      have hhash := hkeyed.hashed _ orphan (by rw [hget]; exact hmem)
      exact ⟨_, DALBlock.blockstamp_eq_stamp hhash⟩
    case h_2 =>
      split
      case h_1 => exact returns_pure _
      case h_2 => exact returns_pure _

/-- The next block of the chain is taken or refused exactly when it is not valid or can be
applied. -/
theorem returns_checkAndApplyChainable_iff (hparsed : block.Parsed) :
    Returns (checkAndApplyChainable C bc block) ↔
      (verifyBlockValidity block bc.dbs.blocks = .ok () → Applicable block bc.memory) := by
  have hexpire : findExpireCerts bc.dbs.wots.certsDb [] = ∅ := rfl
  rw [checkAndApplyChainable, hexpire, ← notAborted_applyValidBlock_iff (C := C) hparsed]
  cases verifyBlockValidity block bc.dbs.blocks with
  | error error => exact iff_of_true (returns_pure _) fun h => by cases h
  | ok _ =>
      cases applyValidBlock C block bc.memory ∅ with
      | ok memoryReqs => exact iff_of_true (returns_pure _) fun _ => notAborted_ok _
      | error ending =>
          simp only [notAborted_error_iff, forall_const]
          cases ending with
          | abort reason =>
              refine iff_of_false ?_ fun h => h (stops_abort reason)
              rintro ⟨_, h⟩
              cases h
          | refused error memory =>
              exact iff_of_true (returns_pure _) (not_stops_refused error memory)

/-- Another block is stored or refused exactly when it is not to be stored or brings in no circle of
orphans. -/
theorem returns_storeForkBlock_iff (hkeyed : OrphansKeyed bc.dbs.forks.orphanBlocksDb)
    (hparsed : block.Parsed) (already : Bool) :
    Returns (storeForkBlock bc block already) ↔
      (already = false → InForkWindow bc.currentBlockstamp block →
        bc.dbs.forks.forkTreeDb.Carries (DALBlock.previousBlockstamp ⟨block, none⟩) →
        ¬ BringsCircle bc.dbs.forks.orphanBlocksDb ⟨block, none⟩) := by
  rw [storeForkBlock]
  split
  case isTrue hstore =>
    rw [returns_bind_iff_of_forall fun _ => returns_pure _,
      returns_insertNewForkBlock_iff hkeyed hparsed.hash]
    constructor
    · exact fun h _ _ hcarries hcircle => h ⟨hcarries, hcircle⟩
    · exact fun h hboth => h hstore.1 hstore.2 hboth.1 hboth.2
  case isFalse hstore =>
    exact iff_of_true (returns_pure _) fun hnew hwindow => absurd ⟨hnew, hwindow⟩ hstore

/-- While the orphans carry their hash, a parsed block is taken or refused exactly when the module
withstands it. -/
theorem returns_check_iff (hkeyed : OrphansKeyed bc.dbs.forks.orphanBlocksDb)
    (hparsed : block.Parsed) :
    Returns (checkAndApplyBlock C bc block) ↔ Withstood C bc block := by
  rcases hparsed.returns_blockstamp with ⟨blockstamp, hstamp⟩
  have hreturns : Returns (alreadyHaveBlock bc.dbs.blocks bc.dbs.forks blockstamp
      block.previousHash) := returns_alreadyHaveBlock hkeyed _ _
  rcases hreturns with ⟨already, halready⟩
  have hnew : IsNew bc block ↔ already = false := by
    constructor
    · rintro ⟨blockstamp', hstamp', hfalse⟩
      obtain rfl := Except.ok.inj (hstamp.symm.trans hstamp')
      exact Except.ok.inj (halready.symm.trans hfalse)
    · rintro rfl
      exact ⟨blockstamp, hstamp, halready⟩
  rw [checkAndApplyBlock, hstamp, ok_bind, halready, ok_bind]
  by_cases hissuer : block.number > 0 → block.previousIssuer.isSome = true
  case neg =>
    refine iff_of_false (fun h => hissuer ?_) fun h => hissuer h.previousIssuer
    rw [← returns_verifyBlockHashs_iff (C := C) hparsed]
    rcases returns_bind_iff.1 h with ⟨verified, hverified, -⟩
    exact ⟨verified, hverified⟩
  rcases (returns_verifyBlockHashs_iff (C := C) hparsed).2 hissuer with ⟨verified, hverified⟩
  rw [hverified, ok_bind]
  cases verified with
  | error error =>
      have hnot : ¬ verifyBlockHashs C block = .ok (.ok ()) := by
        rw [hverified]
        exact fun h => by cases Except.ok.inj h
      exact iff_of_true (returns_pure _)
        ⟨hissuer, fun h => absurd h hnot, fun h => absurd h hnot⟩
  | ok _ =>
      change Returns (if Chainable bc.currentBlockstamp block then
        checkAndApplyChainable C bc block else storeForkBlock bc block already) ↔ _
      split
      case isTrue hchain =>
        rw [returns_checkAndApplyChainable_iff hparsed]
        constructor
        · exact fun h => ⟨hissuer, fun _ _ => h, fun _ hnot => absurd hchain hnot⟩
        · exact fun h => h.applicable hverified hchain
      case isFalse hchain =>
        rw [returns_storeForkBlock_iff hkeyed hparsed already]
        constructor
        · intro h
          exact ⟨hissuer, fun _ hnot => absurd hnot hchain,
            fun _ _ hisnew => h (hnew.1 hisnew)⟩
        · exact fun h hfalse => h.insertable hverified hchain (hnew.2 hfalse)

/-- In every state that the module reaches, a parsed block is taken or refused exactly when the
module withstands it. -/
theorem returns_checkAndApplyBlock_iff {s : BlockchainModule × SaveFlags}
    (hreached : Reached (default, .none) (ModuleOp.apply C S fuel) (fun _ _ => True) s)
    (hparsed : block.Parsed) :
    Returns (checkAndApplyBlock C s.1 block) ↔ Withstood C s.1 block :=
  returns_check_iff (orphansInv_of_reached hreached).dbs hparsed

theorem parsed_mockBlock (branch k : Nat) : (mockBlock branch k).Parsed where
  hash := rfl
  innerHash := rfl
  issuers := List.cons_ne_nil _ _
  signatures := List.cons_ne_nil _ _
  transactions := List.forall_mem_nil _

/-- After two blocks of a chain, the third. -/
theorem returns_thirdBlock_iff : ∃ s,
    [ModuleOp.receiveBlock (mockBlock 0 0), .receiveBlock (mockBlock 0 1)].foldlM
      (ModuleOp.apply mockCrypto .insertion 10) (default, .none) = .ok s ∧
    (Returns (checkAndApplyBlock mockCrypto s.1 (mockBlock 0 2)) ↔
      Withstood mockCrypto s.1 (mockBlock 0 2)) := by
  have hreturns : Returns
      ([ModuleOp.receiveBlock (mockBlock 0 0), .receiveBlock (mockBlock 0 1)].foldlM
        (ModuleOp.apply mockCrypto .insertion 10) (default, .none)) := by decide +kernel
  rcases hreturns with ⟨s, hrun⟩
  exact ⟨s, hrun, returns_checkAndApplyBlock_iff
    (Reached.of_foldlM .init (fun _ _ _ => trivial) hrun) (parsed_mockBlock 0 2)⟩

/-- The first block above the genesis block, without the issuer of its previous block, stops a node
that has no block yet. -/
theorem not_forall_returns_checkAndApplyBlock :
    ¬ ∀ (s : BlockchainModule × SaveFlags) (block : BlockDocument),
      Reached (default, .none) (ModuleOp.apply mockCrypto .insertion 10) (fun _ _ => True) s →
      block.Parsed → Returns (checkAndApplyBlock mockCrypto s.1 block) := by
  intro h
  have hparsed : ({ mockBlock 0 1 with previousIssuer := none } : BlockDocument).Parsed :=
    ⟨rfl, rfl, List.cons_ne_nil _ _, List.cons_ne_nil _ _, List.forall_mem_nil _⟩
  have hreturns := h (default, .none) _ .init hparsed
  revert hreturns
  decide +kernel

end Durs
