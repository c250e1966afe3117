/-
# Kept properties

Properties of the blocks and of the currency databases that every request for them keeps: they hold,
in memory and on disk, in every state that the module reaches.
-/

import Durs.Blockchain.LocalChainRuns

namespace Durs

open RustStd Lib

/-! ## Properties of the databases -/

/-- The blocks and the currency databases have each a property, in memory and on disk. -/
structure PartsHold (B : BlocksV10DBs → Prop) (P : CurrencyV10DBs → Prop)
    (bc : BlockchainModule) : Prop where
  blocks : B bc.dbs.blocks
  currency : P bc.dbs.currency
  savedBlocks : B bc.files.blocks
  savedCurrency : P bc.files.currency

namespace PartsHold

variable {B : BlocksV10DBs → Prop} {P : CurrencyV10DBs → Prop} {bc bc' : BlockchainModule}

/-- What is beside the databases does not matter. -/
theorem congr (h : PartsHold B P bc) (hdbs : bc'.dbs = bc.dbs) (hfiles : bc'.files = bc.files) :
    PartsHold B P bc' where
  blocks := hdbs ▸ h.blocks
  currency := hdbs ▸ h.currency
  savedBlocks := hfiles ▸ h.savedBlocks
  savedCurrency := hfiles ▸ h.savedCurrency

theorem save (h : PartsHold B P bc) : PartsHold B P bc.save :=
  ⟨h.blocks, h.currency, h.blocks, h.currency⟩

theorem reload (h : PartsHold B P bc) : PartsHold B P bc.reload :=
  ⟨h.savedBlocks, h.savedCurrency, h.savedBlocks, h.savedCurrency⟩

/-- Saving some of the databases keeps the properties of each. -/
theorem applyFlags (h : PartsHold B P bc) (flags : SaveFlags) :
    PartsHold B P (flags.apply bc) := by
  refine ⟨h.blocks, h.currency, ?_, ?_⟩
  · change B (if flags.blocks then bc.dbs.blocks else bc.files.blocks)
    split
    case isTrue => exact h.blocks
    case isFalse => exact h.savedBlocks
  · change P (if flags.currency then bc.dbs.currency else bc.files.currency)
    split
    case isTrue => exact h.currency
    case isFalse => exact h.savedCurrency

end PartsHold

/-- Whether the request for the blocks is to write a block that has been lightened. -/
def WritesReduced (C : Crypto) (reqs : ValidBlockApplyReqs) : Prop :=
  ∃ block reduced expireCerts, BlockDocument.reduce C block = .ok reduced ∧
    reqs.blocksQuery = .writeBlock ⟨reduced, expireCerts⟩

/-- Properties that the requests keep: that of the blocks is kept by the writing of a lightened
block, that of the currency databases by every request for them. -/
structure KeptByQueries (C : Crypto) (B : BlocksV10DBs → Prop) (P : CurrencyV10DBs → Prop) :
    Prop where
  block : ∀ {blocks : BlocksV10DBs} {block reduced : BlockDocument}
    {expireCerts : Option (HashMap (NodeId × NodeId) BlockNumber)}, block.reduce C = .ok reduced →
    B blocks → B { blocks with
      blockchainDb := blocks.blockchainDb.insert reduced.number ⟨reduced, expireCerts⟩ }
  query : ∀ {dbs dbs' : CurrencyV10DBs} {query : CurrencyDBsWriteQuery}, P dbs →
    query.apply C.toTxCrypto dbs = .ok dbs' → P dbs'

namespace KeptByQueries

variable {C : Crypto} {S : SheetSort} {fuel : Nat} {B : BlocksV10DBs → Prop}
  {P : CurrencyV10DBs → Prop} {bc bc' : BlockchainModule}

/-- The requests of a valid block keep them. -/
theorem queries {reqs : ValidBlockApplyReqs} (hkept : KeptByQueries C B P) (h : PartsHold B P bc)
    (hreqs : WritesReduced C reqs)
    (hrun : bc.applyQueries C.toTxCrypto reqs.blocksQuery reqs.wotQueries reqs.currencyQueries =
      .ok bc') : PartsHold B P bc' := by
  obtain ⟨blocks, forks, wots, currency, hblocks, -, hcurrency, rfl⟩ :=
    BlockchainModule.applyQueries_eq_ok hrun
  obtain ⟨block, reduced, expireCerts, hreduced, hquery⟩ := hreqs
  rw [hquery] at hblocks
  change insertNewHeadBlock bc.dbs.blocks bc.dbs.forks ⟨reduced, expireCerts⟩ = _ at hblocks
  rw [insertNewHeadBlock, bind_eq_ok_iff] at hblocks
  obtain ⟨blockstamp, -, hblocks⟩ := hblocks
  rw [bind_eq_ok_iff] at hblocks
  obtain ⟨⟨tree, removed⟩, -, hblocks⟩ := hblocks
  obtain ⟨rfl, -⟩ := Prod.mk.inj (Except.ok.inj hblocks)
  exact {
    blocks := hkept.block hreduced h.blocks
    currency :=
      foldlM_preserves (fun _ _ _ _ hmid hstep => hkept.query hmid hstep) h.currency hcurrency
    savedBlocks := h.savedBlocks
    savedCurrency := h.savedCurrency }

/-- Checking a block does not touch the databases; a valid block asks to write it lightened. -/
theorem check {block : BlockDocument} {result : Except BlockError CheckAndApplyBlockReturn}
    (h : PartsHold B P bc) (hrun : checkAndApplyBlock C bc block = .ok (bc', result)) :
    PartsHold B P bc' ∧ ∀ reqs, result = .ok (.validBlock reqs) → WritesReduced C reqs := by
  have hparts (wots : WotsV10DBs) (forks : ForksDBs) (wotIndex : HashMap PubKey NodeId) :
      PartsHold B P { bc with wotIndex, dbs.wots := wots, dbs.forks := forks } :=
    ⟨h.blocks, h.currency, h.savedBlocks, h.savedCurrency⟩
  rcases checkAndApplyBlock_cases hrun with ⟨memory, reqs, -, -, happly, rfl, rfl⟩ |
    ⟨memory, error, rfl, rfl⟩ | ⟨forks, inserted, -, rfl, rfl⟩
  · refine ⟨hparts _ _ _, ?_⟩
    rintro _ heq
    obtain rfl := CheckAndApplyBlockReturn.validBlock.inj (Except.ok.inj heq)
    obtain ⟨_, _, _, reduced, -, -, -, hreduced, -, rfl⟩ := applyValidBlock_eq_ok happly
    exact ⟨block, reduced, _, hreduced, rfl⟩
  · exact ⟨hparts _ _ _, fun _ heq => by cases heq⟩
  · refine ⟨hparts _ _ _, ?_⟩
    intro reqs heq
    cases inserted with
    | true => cases heq
    | false => cases heq

/-- Applying a new branch keeps them, also where it stops. -/
theorem applyNewBranch {branch : List Blockstamp} {newBranchIsValid : Bool}
    (hkept : KeptByQueries C B P) (h : PartsHold B P bc)
    (hrun : applyNewBranch C branch bc = .ok (bc', newBranchIsValid)) : PartsHold B P bc' := by
  induction branch generalizing bc with
  | nil => exact (Prod.mk.inj (Except.ok.inj hrun)).1 ▸ h
  | cons blockstamp branch ih =>
      rw [Durs.applyNewBranch, bind_eq_ok_iff] at hrun
      obtain ⟨dalBlock, -, hrun⟩ := hrun
      rw [bind_eq_ok_iff] at hrun
      obtain ⟨⟨mid, result⟩, hcheck, hrun⟩ := hrun
      obtain ⟨hmid, hreqs⟩ := check h hcheck
      split at hrun
      case h_1 reqs heq =>
        obtain ⟨rfl, rfl⟩ := Prod.mk.inj heq
        rw [bind_eq_ok_iff] at hrun
        obtain ⟨applied, hqueries, hrun⟩ := hrun
        have hmoved : PartsHold B P { mid with currentBlockstamp := blockstamp } :=
          hmid.congr rfl rfl
        exact ih (hkept.queries hmoved (hreqs _ rfl) hqueries) hrun
      case h_2 heq =>
        obtain ⟨rfl, -⟩ := Prod.mk.inj heq
        obtain ⟨rfl, -⟩ := Prod.mk.inj (Except.ok.inj hrun)
        exact hmid.congr rfl rfl

/-- A rollback keeps them. -/
theorem applyRollback {branch : List Blockstamp} (hkept : KeptByQueries C B P)
    (h : PartsHold B P bc) (hrun : applyRollback C fuel bc branch = .ok bc') :
    PartsHold B P bc' := by
  cases branch with
  | nil => exact Except.ok.inj hrun ▸ h
  | cons first branch =>
      obtain ⟨applied, newBranchIsValid, happly, ⟨-, forks, -, rfl⟩ | ⟨-, rfl⟩⟩ :=
        applyRollback_eq_ok hrun
      · have happlied := hkept.applyNewBranch h happly
        exact ⟨happlied.blocks, happlied.currency, happlied.blocks, happlied.currency⟩
      · exact (hkept.applyNewBranch h happly).reload

/-- Receiving a block keeps them. -/
theorem receiveBlock {block : BlockDocument} {flags flags' : SaveFlags}
    (hkept : KeptByQueries C B P) (h : PartsHold B P bc)
    (hrun : receiveBlock C S fuel (bc, flags) block = .ok (bc', flags')) : PartsHold B P bc' := by
  rw [Durs.receiveBlock, bind_eq_ok_iff] at hrun
  obtain ⟨⟨mid, result⟩, hcheck, hrun⟩ := hrun
  obtain ⟨hmid, hreqs⟩ := check h hcheck
  split at hrun
  case h_1 reqs heq =>
    obtain ⟨rfl, rfl⟩ := Prod.mk.inj heq
    rw [bind_eq_ok_iff] at hrun
    obtain ⟨current, -, hrun⟩ := hrun
    rw [bind_eq_ok_iff] at hrun
    obtain ⟨applied, hqueries, hrun⟩ := hrun
    obtain ⟨rfl, -⟩ := Prod.mk.inj (Except.ok.inj hrun)
    have hmoved : PartsHold B P { mid with currentBlockstamp := current } :=
      hmid.congr rfl rfl
    exact hkept.queries hmoved (hreqs _ rfl) hqueries
  case h_2 heq =>
    obtain ⟨rfl, rfl⟩ := Prod.mk.inj heq
    rw [bind_eq_ok_iff] at hrun
    obtain ⟨selected, -, hrun⟩ := hrun
    cases selected with
    | some branch =>
        change (Durs.applyRollback C fuel mid branch >>= _) = _ at hrun
        rw [bind_eq_ok_iff] at hrun
        obtain ⟨rolled, hroll, hrun⟩ := hrun
        obtain ⟨rfl, -⟩ := Prod.mk.inj (Except.ok.inj hrun)
        exact hkept.applyRollback hmid hroll
    | none =>
        obtain ⟨rfl, -⟩ := Prod.mk.inj (Except.ok.inj hrun)
        exact hmid
  case h_3 heq =>
    obtain ⟨rfl, -⟩ := Prod.mk.inj heq
    obtain ⟨rfl, -⟩ := Prod.mk.inj (Except.ok.inj hrun)
    exact hmid

/-- Trying the stackable blocks keeps them. -/
theorem tryStackables {stackableBlocks : List DALBlock} {stacked : Bool}
    (hkept : KeptByQueries C B P) (h : PartsHold B P bc)
    (hrun : tryStackables C stackableBlocks bc = .ok (bc', stacked)) : PartsHold B P bc' := by
  induction stackableBlocks generalizing bc with
  | nil => exact (Prod.mk.inj (Except.ok.inj hrun)).1 ▸ h
  | cons stackableBlock stackableBlocks ih =>
      rw [Durs.tryStackables, bind_eq_ok_iff] at hrun
      obtain ⟨blockstamp, -, hrun⟩ := hrun
      rw [bind_eq_ok_iff] at hrun
      obtain ⟨⟨mid, result⟩, hcheck, hrun⟩ := hrun
      obtain ⟨hmid, hreqs⟩ := check h hcheck
      split at hrun
      case h_1 reqs heq =>
        obtain ⟨rfl, rfl⟩ := Prod.mk.inj heq
        rw [bind_eq_ok_iff] at hrun
        obtain ⟨applied, hqueries, hrun⟩ := hrun
        obtain ⟨rfl, -⟩ := Prod.mk.inj (Except.ok.inj hrun)
        exact (hkept.queries hmid (hreqs _ rfl) hqueries).congr rfl rfl
      case h_2 heq =>
        obtain ⟨rfl, -⟩ := Prod.mk.inj heq
        exact ih hmid hrun

/-- Applying the stackable blocks keeps them. -/
theorem applyStackableBlocks (hkept : KeptByQueries C B P)
    (h : PartsHold B P bc) (hrun : applyStackableBlocks C fuel bc = .ok bc') :
    PartsHold B P bc' := by
  induction fuel generalizing bc with
  | zero => cases hrun
  | succ fuel ih =>
      rw [Durs.applyStackableBlocks] at hrun
      simp only at hrun
      split at hrun
      case isTrue => exact Except.ok.inj hrun ▸ h
      case isFalse =>
        rw [bind_eq_ok_iff] at hrun
        obtain ⟨⟨mid, stacked⟩, htry, hrun⟩ := hrun
        have hmid := hkept.tryStackables h htry
        cases stacked with
        | true => exact ih hmid hrun
        | false => exact Except.ok.inj hrun ▸ hmid.save

/-- Whatever the module does keeps them. -/
theorem step {s s' : BlockchainModule × SaveFlags} {op : ModuleOp}
    (hkept : KeptByQueries C B P) (h : PartsHold B P s.1)
    (hrun : op.apply C S fuel s = .ok s') : PartsHold B P s'.1 := by
  cases op with
  | receiveBlock block => exact hkept.receiveBlock h hrun
  | saveReceived => exact Except.ok.inj hrun ▸ h.applyFlags s.2
  | applyStackableBlocks =>
      rw [ModuleOp.apply, bind_eq_ok_iff] at hrun
      obtain ⟨bc, hstack, hrun⟩ := hrun
      exact Except.ok.inj hrun ▸ hkept.applyStackableBlocks h hstack
  | restart =>
      rw [ModuleOp.apply, bind_eq_ok_iff] at hrun
      obtain ⟨bc, hload, hrun⟩ := hrun
      obtain rfl := Except.ok.inj hrun
      rw [BlockchainModule.load, bind_eq_ok_iff] at hload
      obtain ⟨current, -, hload⟩ := hload
      rw [bind_eq_ok_iff] at hload
      obtain ⟨params, -, hload⟩ := hload
      obtain rfl := Except.ok.inj hload
      exact h.reload.congr rfl rfl

/-- They hold in every state that the module reaches. -/
theorem of_reached {s : BlockchainModule × SaveFlags} (hkept : KeptByQueries C B P)
    (hblocks : B default) (hcurrency : P default)
    (h : Reached (default, .none) (ModuleOp.apply C S fuel) (fun _ _ => True) s) :
    PartsHold B P s.1 :=
  h.invariant (I := fun s => PartsHold B P s.1) ⟨hblocks, hcurrency, hblocks, hcurrency⟩
    fun _ _ _ hinv _ hrun => hkept.step hinv hrun

end KeptByQueries

end Durs
