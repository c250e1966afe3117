/-
# Properties of the fork databases over whole runs

The fork databases change when a block is received, when the requests of a block are applied and
when the main branch is changed.  A property that these keep holds of the databases in memory and of
those on disk in every state that the module reaches.
-/

import Durs.Blockchain.LocalChainRuns

namespace Durs

open RustStd Lib

/-- The fork databases in memory and those on disk have a property. -/
structure ForksHold (P : ForksDBs → Prop) (bc : BlockchainModule) : Prop where
  dbs : P bc.dbs.forks
  files : P bc.files.forks

/-- A property of the fork databases that the module keeps, where the blocks that it receives have
another one, which the orphans have, too. -/
structure KeptByModule (C : Crypto) (P : ForksDBs → Prop) (Q : BlockDocument → Prop) : Prop where
  initial : P default
  orphans : ∀ {forks : ForksDBs} {blockstamp : Blockstamp} {dalBlock : DALBlock}, P forks →
    dalBlock ∈ getStackablesBlocks forks blockstamp → Q dalBlock.block
  received : ∀ {bc bc' : BlockchainModule} {block : BlockDocument}
    {result : Except BlockError CheckAndApplyBlockReturn}, P bc.dbs.forks → Q block →
    checkAndApplyBlock C bc block = .ok (bc', result) → P bc'.dbs.forks
  stored : ∀ {bc bc' : BlockchainModule} {blockstamp : Blockstamp} {dalBlock : DALBlock}
    {result : Except BlockError CheckAndApplyBlockReturn}, P bc.dbs.forks →
    bc.dbs.forks.forkBlocksDb.get? blockstamp = some dalBlock →
    checkAndApplyBlock C bc dalBlock.block = .ok (bc', result) → P bc'.dbs.forks
  queried : ∀ {blocksQuery : BlocksDBsWriteQuery} {blocks blocks' : BlocksV10DBs}
    {forks forks' : ForksDBs}, P forks →
    blocksQuery.apply blocks forks none = .ok (blocks', forks') → P forks'
  changed : ∀ {forks forks' : ForksDBs} {oldCurrent newCurrent : Blockstamp}, P forks →
    changeMainBranch forks oldCurrent newCurrent = .ok forks' → P forks'

/-- The operations whose received blocks have a property. -/
def ModuleOp.Receives (Q : BlockDocument → Prop) : ModuleOp → Prop
  | .receiveBlock block => Q block
  | .saveReceived | .applyStackableBlocks | .restart => True

namespace KeptByModule

variable {C : Crypto} {S : SheetSort} {fuel : Nat} {P : ForksDBs → Prop}
  {Q : BlockDocument → Prop} {bc bc' : BlockchainModule}

/-- The requests of a block keep it. -/
theorem queries {blocksQuery : BlocksDBsWriteQuery} {wotQueries : List WotsDBsWriteQuery}
    {currencyQueries : List CurrencyDBsWriteQuery} (hkept : KeptByModule C P Q)
    (h : ForksHold P bc)
    (hrun : bc.applyQueries C.toTxCrypto blocksQuery wotQueries currencyQueries = .ok bc') :
    ForksHold P bc' := by
  rcases BlockchainModule.applyQueries_eq_ok hrun with ⟨blocks, forks, _, _, hquery, -, -, rfl⟩
  exact ⟨hkept.queried h.dbs hquery, h.files⟩

/-- Checking a received block keeps it, whatever becomes of the block. -/
theorem check {block : BlockDocument} {result : Except BlockError CheckAndApplyBlockReturn}
    (hkept : KeptByModule C P Q) (h : ForksHold P bc) (hblock : Q block)
    (hrun : checkAndApplyBlock C bc block = .ok (bc', result)) : ForksHold P bc' :=
  ⟨hkept.received h.dbs hblock hrun, (kept_of_checkAndApplyBlock hrun).1 ▸ h.files⟩

/-- Applying a new branch keeps it, also where it stops. -/
theorem applyNewBranch {branch : List Blockstamp} {newBranchIsValid : Bool}
    (hkept : KeptByModule C P Q) (h : ForksHold P bc)
    (hrun : applyNewBranch C branch bc = .ok (bc', newBranchIsValid)) : ForksHold P bc' := by
  induction branch generalizing bc with
  | nil => exact (Prod.mk.inj (Except.ok.inj hrun)).1 ▸ h
  | cons blockstamp branch ih =>
      rw [Durs.applyNewBranch, bind_eq_ok_iff] at hrun
      rcases hrun with ⟨dalBlock, hget, hrun⟩
      rw [bind_eq_ok_iff] at hrun
      rcases hrun with ⟨⟨mid, result⟩, hcheck, hrun⟩
      have hmid : ForksHold P mid := ⟨hkept.stored h.dbs (expect_eq_ok_iff.1 hget) hcheck,
        (kept_of_checkAndApplyBlock hcheck).1 ▸ h.files⟩
      split at hrun
      case h_1 reqs heq =>
        obtain ⟨rfl, rfl⟩ := Prod.mk.inj heq
        rw [bind_eq_ok_iff] at hrun
        rcases hrun with ⟨applied, hqueries, hrun⟩
        have hmoved : ForksHold P { mid with currentBlockstamp := blockstamp } :=
          ⟨hmid.dbs, hmid.files⟩
        exact ih (hkept.queries hmoved hqueries) hrun
      case h_2 heq =>
        obtain ⟨rfl, -⟩ := Prod.mk.inj heq
        rcases Prod.mk.inj (Except.ok.inj hrun) with ⟨rfl, -⟩
        exact ⟨hmid.dbs, hmid.files⟩

/-- A rollback keeps it. -/
theorem applyRollback {branch : List Blockstamp} (hkept : KeptByModule C P Q)
    (h : ForksHold P bc) (hrun : applyRollback C fuel bc branch = .ok bc') : ForksHold P bc' := by
  cases branch with
  | nil => exact Except.ok.inj hrun ▸ h
  | cons first branch =>
      rcases applyRollback_eq_ok hrun with ⟨applied, newBranchIsValid, happly,
        ⟨-, forks, hforks, rfl⟩ | ⟨-, rfl⟩⟩
      · have hchanged := hkept.changed (hkept.applyNewBranch h happly).dbs hforks
        exact ⟨hchanged, hchanged⟩
      · have hfiles := (hkept.applyNewBranch h happly).files
        exact ⟨hfiles, hfiles⟩

/-- Receiving a block keeps it. -/
theorem receiveBlock {block : BlockDocument} {flags flags' : SaveFlags}
    (hkept : KeptByModule C P Q) (h : ForksHold P bc) (hblock : Q block)
    (hrun : receiveBlock C S fuel (bc, flags) block = .ok (bc', flags')) : ForksHold P bc' := by
  rw [Durs.receiveBlock, bind_eq_ok_iff] at hrun
  rcases hrun with ⟨⟨mid, result⟩, hcheck, hrun⟩
  have hmid := hkept.check h hblock hcheck
  split at hrun
  case h_1 reqs heq =>
    obtain ⟨rfl, rfl⟩ := Prod.mk.inj heq
    rw [bind_eq_ok_iff] at hrun
    rcases hrun with ⟨current, -, hrun⟩
    rw [bind_eq_ok_iff] at hrun
    rcases hrun with ⟨applied, hqueries, hrun⟩
    rcases Prod.mk.inj (Except.ok.inj hrun) with ⟨rfl, -⟩
    have hmoved : ForksHold P { mid with currentBlockstamp := current } :=
      ⟨hmid.dbs, hmid.files⟩
    exact hkept.queries hmoved hqueries
  case h_2 heq =>
    obtain ⟨rfl, rfl⟩ := Prod.mk.inj heq
    rw [bind_eq_ok_iff] at hrun
    rcases hrun with ⟨selected, -, hrun⟩
    cases selected with
    | some branch =>
        change (Durs.applyRollback C fuel mid branch >>= _) = _ at hrun
        rw [bind_eq_ok_iff] at hrun
        rcases hrun with ⟨rolled, hroll, hrun⟩
        rcases Prod.mk.inj (Except.ok.inj hrun) with ⟨rfl, -⟩
        exact hkept.applyRollback hmid hroll
    | none =>
        rcases Prod.mk.inj (Except.ok.inj hrun) with ⟨rfl, -⟩
        exact hmid
  case h_3 heq =>
    obtain ⟨rfl, -⟩ := Prod.mk.inj heq
    rcases Prod.mk.inj (Except.ok.inj hrun) with ⟨rfl, -⟩
    exact hmid

/-- Trying the stackable blocks keeps it. -/
theorem tryStackables {stackableBlocks : List DALBlock} {stacked : Bool}
    (hkept : KeptByModule C P Q) (h : ForksHold P bc)
    (hblocks : ∀ dalBlock ∈ stackableBlocks, Q dalBlock.block)
    (hrun : tryStackables C stackableBlocks bc = .ok (bc', stacked)) : ForksHold P bc' := by
  induction stackableBlocks generalizing bc with
  | nil => exact (Prod.mk.inj (Except.ok.inj hrun)).1 ▸ h
  | cons stackableBlock stackableBlocks ih =>
      rw [Durs.tryStackables, bind_eq_ok_iff] at hrun
      rcases hrun with ⟨blockstamp, -, hrun⟩
      rw [bind_eq_ok_iff] at hrun
      rcases hrun with ⟨⟨mid, result⟩, hcheck, hrun⟩
      rcases List.forall_mem_cons.1 hblocks with ⟨hblock, hrest⟩
      have hmid := hkept.check h hblock hcheck
      split at hrun
      case h_1 reqs heq =>
        obtain ⟨rfl, rfl⟩ := Prod.mk.inj heq
        rw [bind_eq_ok_iff] at hrun
        rcases hrun with ⟨applied, hqueries, hrun⟩
        rcases Prod.mk.inj (Except.ok.inj hrun) with ⟨rfl, -⟩
        have happlied := hkept.queries hmid hqueries
        exact ⟨happlied.dbs, happlied.files⟩
      case h_2 heq =>
        obtain ⟨rfl, -⟩ := Prod.mk.inj heq
        exact ih hmid hrest hrun

/-- Applying the stackable blocks keeps it. -/
theorem applyStackableBlocks (hkept : KeptByModule C P Q) (h : ForksHold P bc)
    (hrun : applyStackableBlocks C fuel bc = .ok bc') : ForksHold P bc' := by
  induction fuel generalizing bc with
  | zero => cases hrun
  | succ fuel ih =>
      rw [Durs.applyStackableBlocks] at hrun
      simp only at hrun
      split at hrun
      case isTrue => exact Except.ok.inj hrun ▸ h
      case isFalse =>
        rw [bind_eq_ok_iff] at hrun
        rcases hrun with ⟨⟨mid, stacked⟩, htry, hrun⟩
        have hmid := hkept.tryStackables h (fun _ hmem => hkept.orphans h.dbs hmem) htry
        cases stacked with
        | true => exact ih hmid hrun
        | false => exact Except.ok.inj hrun ▸ ⟨hmid.dbs, hmid.dbs⟩

/-- Whatever the module does keeps it. -/
theorem step {s s' : BlockchainModule × SaveFlags} {op : ModuleOp} (hkept : KeptByModule C P Q)
    (h : ForksHold P s.1) (hreceives : op.Receives Q) (hrun : op.apply C S fuel s = .ok s') :
    ForksHold P s'.1 := by
  cases op with
  | receiveBlock block => exact hkept.receiveBlock h hreceives hrun
  | saveReceived =>
      obtain rfl := Except.ok.inj hrun
      refine ⟨h.dbs, ?_⟩
      change P (if s.2.blocks then s.1.dbs.forks else s.1.files.forks)
      split
      case isTrue => exact h.dbs
      case isFalse => exact h.files
  | applyStackableBlocks =>
      rw [ModuleOp.apply, bind_eq_ok_iff] at hrun
      rcases hrun with ⟨bc, hstack, hrun⟩
      exact Except.ok.inj hrun ▸ hkept.applyStackableBlocks h hstack
  | restart =>
      rw [ModuleOp.apply, bind_eq_ok_iff] at hrun
      rcases hrun with ⟨bc, hload, hrun⟩
      obtain rfl := Except.ok.inj hrun
      rw [BlockchainModule.load, bind_eq_ok_iff] at hload
      rcases hload with ⟨current, -, hload⟩
      rw [bind_eq_ok_iff] at hload
      rcases hload with ⟨params, -, hload⟩
      obtain rfl := Except.ok.inj hload
      exact ⟨h.files, h.files⟩

/-- The fork databases have it in every state that the module reaches. -/
theorem of_reached {s : BlockchainModule × SaveFlags} (hkept : KeptByModule C P Q)
    (h : Reached (default, .none) (ModuleOp.apply C S fuel) (fun _ op => op.Receives Q) s) :
    ForksHold P s.1 :=
  h.invariant (I := fun s => ForksHold P s.1) ⟨hkept.initial, hkept.initial⟩
    fun _ _ _ hinv hreceives hrun => hkept.step hinv hreceives hrun

end KeptByModule

end Durs
