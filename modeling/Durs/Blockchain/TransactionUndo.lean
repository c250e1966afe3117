/-
# Undoing transactions

A transaction is stored without its text and without its hash, and undoing it asks for its hash:
what undoes a block is written exactly when the block has no transaction.
-/

import Durs.Blockchain.KeptParts

namespace Durs

open RustStd Lib

variable {C : TxCrypto} {dbs dbs' : CurrencyV10DBs}

/-! ## Stored transactions -/

/-- The stored transactions have been lightened. -/
def TxsReduced (dbs : CurrencyV10DBs) : Prop :=
  ∀ txHash dalTx, dbs.txDb.get? txHash = some dalTx →
    dalTx.txDoc.text = none ∧ dalTx.txDoc.hash = none

theorem txsReduced_default : TxsReduced default := by
  intro txHash dalTx hget
  cases hget

theorem TxsReduced.congr (h : TxsReduced dbs) (htxDb : dbs'.txDb = dbs.txDb) : TxsReduced dbs' := by
  intro txHash dalTx hget
  exact h txHash dalTx (htxDb ▸ hget)

theorem txDb_foldl_removeSource (dbs : CurrencyV10DBs) (sources : List SourceIndexV10) :
    (sources.foldl removeSource dbs).txDb = dbs.txDb := by
  induction sources generalizing dbs with
  | nil => rfl
  | cons source sources ih =>
      rw [List.foldl_cons, ih]
      cases source with
      | utxo utxoIndex => rfl
      | ud pubkey blockId => rfl

/-- Applying a transaction stores it lightened, and no other. -/
theorem txDb_of_applyAndWriteTx {txDoc : TransactionDocument}
    (h : applyAndWriteTx C dbs txDoc = .ok dbs') :
    ∃ txHash dalTx, dbs'.txDb = dbs.txDb.insert txHash dalTx ∧ dalTx.txDoc.text = none ∧
      dalTx.txDoc.hash = none := by
  rw [applyAndWriteTx, bind_eq_ok_iff] at h
  obtain ⟨⟨hashed, txHash⟩, -, h⟩ := h
  rw [bind_eq_ok_iff] at h
  obtain ⟨⟨spent, sourcesDestroyed⟩, hconsume, h⟩ := h
  obtain rfl := Except.ok.inj h
  rw [consumeInputs, bind_eq_ok_iff] at hconsume
  obtain ⟨consumedAdress, -, hconsume⟩ := hconsume
  rw [bind_eq_ok_iff] at hconsume
  obtain ⟨⟨_, newBalances⟩, -, hconsume⟩ := hconsume
  obtain ⟨rfl, -⟩ := Prod.mk.inj (Except.ok.inj hconsume)
  refine ⟨txHash, _, congrArg (fun txDb => HashMap.insert txDb txHash _) ?_, rfl, rfl⟩
  exact txDb_foldl_removeSource _ _

/-- Undoing a transaction stores none. -/
theorem txDb_of_recreateSource {sources : List SourceIndexV10}
    (h : sources.foldlM recreateSource dbs = .ok dbs') : dbs'.txDb = dbs.txDb := by
  refine foldlM_preserves (P := fun d => d.txDb = dbs.txDb) ?_ rfl h
  intro mid source mid' _ hmid hstep
  cases source with
  | utxo utxoIndex =>
      rw [recreateSource, bind_eq_ok_iff] at hstep
      obtain ⟨tx, -, hstep⟩ := hstep
      rw [bind_eq_ok_iff] at hstep
      obtain ⟨output, -, hstep⟩ := hstep
      exact Except.ok.inj hstep ▸ hmid
  | ud pubkey blockId => exact Except.ok.inj hstep ▸ hmid

/-- The hash of a lightened transaction cannot be computed. -/
theorem revertTx_of_reduced {dalTx : DALTxV10} (htext : dalTx.txDoc.text = none)
    (hhash : dalTx.txDoc.hash = none) : revertTx C dbs dalTx ≠ .ok dbs' := by
  intro h
  rw [revertTx, bind_eq_ok_iff] at h
  obtain ⟨_, hget, -⟩ := h
  rw [TransactionDocument.getHash, hhash] at hget
  change dalTx.txDoc.computeHash C = _ at hget
  rw [TransactionDocument.computeHash, htext] at hget
  cases hget

/-- Each request for the currency databases keeps the stored transactions lightened. -/
theorem TxsReduced.apply {query : CurrencyDBsWriteQuery} (h : TxsReduced dbs)
    (hrun : query.apply C dbs = .ok dbs') : TxsReduced dbs' := by
  cases query with
  | writeTx txDoc =>
      obtain ⟨txHash, dalTx, htxDb, htext, hhash⟩ := txDb_of_applyAndWriteTx hrun
      intro txHash' dalTx' hget
      rw [htxDb, HashMap.get?_insert] at hget
      split at hget
      case isTrue =>
        obtain rfl := Option.some.inj hget
        exact ⟨htext, hhash⟩
      case isFalse => exact h txHash' dalTx' hget
  | revertTx dalTx =>
      change Durs.revertTx C dbs dalTx = .ok dbs' at hrun
      rw [Durs.revertTx, bind_eq_ok_iff] at hrun
      obtain ⟨⟨txDoc, txHash⟩, -, hrun⟩ := hrun
      rw [bind_eq_ok_iff] at hrun
      obtain ⟨newBalances, -, hrun⟩ := hrun
      rw [bind_eq_ok_iff] at hrun
      obtain ⟨sourcesDestroyed, -, hrun⟩ := hrun
      rw [bind_eq_ok_iff] at hrun
      obtain ⟨recreatedAdress, -, hrun⟩ := hrun
      have htxDb : dbs'.txDb = dbs.txDb := (txDb_of_recreateSource hrun :)
      exact h.congr htxDb
  | createUd duAmount blockId members => exact Except.ok.inj hrun ▸ h.congr rfl
  | revertUd duAmount blockId members => exact Except.ok.inj hrun ▸ h.congr rfl

theorem TxsReduced.applyAll {queries : List CurrencyDBsWriteQuery} (h : TxsReduced dbs)
    (hrun : queries.foldlM (CurrencyDBsWriteQuery.apply C) dbs = .ok dbs') : TxsReduced dbs' :=
  foldlM_preserves (fun _ _ _ _ hmid hstep => TxsReduced.apply hmid hstep) h hrun

/-! ## Undoing a block -/

/-- The stored transactions of a block are those of the transaction database. -/
theorem stored_of_mapM {txDb : HashMap Hash DALTxV10} {transactions : List TxDocOrTxHash}
    {dalTxs : List DALTxV10} (h : transactions.mapM (storedTx txDb) = .ok dalTxs) :
    ∀ dalTx ∈ dalTxs, ∃ txHash, txDb.get? txHash = some dalTx := by
  induction transactions generalizing dalTxs with
  | nil =>
      obtain rfl := Except.ok.inj h
      exact fun _ hmem => absurd hmem List.not_mem_nil
  | cons transaction transactions ih =>
      rw [List.mapM_cons, bind_eq_ok_iff] at h
      obtain ⟨dalTx, hstored, h⟩ := h
      rw [bind_eq_ok_iff] at h
      obtain ⟨rest, hrest, h⟩ := h
      obtain rfl := Except.ok.inj h
      refine List.forall_mem_cons.2 ⟨?_, ih hrest⟩
      cases transaction with
      | txHash txHash => exact ⟨txHash, expect_eq_ok_iff.1 hstored⟩
      | txDoc txDoc => cases hstored

/-- Undoing lightened transactions stops at the first. -/
theorem TxsReduced.eq_nil_of_revert (h : TxsReduced dbs) {dalTxs : List DALTxV10}
    {uds : List CurrencyDBsWriteQuery}
    (hstored : ∀ dalTx ∈ dalTxs, ∃ txHash, dbs.txDb.get? txHash = some dalTx)
    (hrun : (dalTxs.map CurrencyDBsWriteQuery.revertTx ++ uds).foldlM
      (CurrencyDBsWriteQuery.apply C) dbs = .ok dbs') : dalTxs = [] := by
  cases dalTxs with
  | nil => rfl
  | cons dalTx dalTxs =>
      rw [List.map_cons, List.cons_append, List.foldlM_cons, bind_eq_ok_iff] at hrun
      obtain ⟨mid, hmid, -⟩ := hrun
      obtain ⟨txHash, hget⟩ := hstored dalTx List.mem_cons_self
      exact absurd hmid (revertTx_of_reduced (h txHash dalTx hget).1 (h txHash dalTx hget).2)

/-- Undoing a block, and writing what undoes it to the currency databases. -/
def revertsBlock (C : Crypto) (dalBlock : DALBlock) (memory : WotMemory) (dbs : CurrencyV10DBs) :
    Run CurrencyV10DBs := do
  let (_, reqs) ← revertBlock C dalBlock memory dbs.txDb
  reqs.currencyQueries.foldlM (CurrencyDBsWriteQuery.apply C.toTxCrypto) dbs

/-- A block is undone in the currency databases exactly when it has no transaction. -/
theorem TxsReduced.revertsBlock_iff {C : Crypto} (h : TxsReduced dbs) {dalBlock : DALBlock}
    {memory : WotMemory} : Returns (revertsBlock C dalBlock memory dbs) ↔
      dalBlock.block.transactions = [] ∧ Returns (revertBlock C dalBlock memory dbs.txDb) := by
  constructor
  · rintro ⟨dbs', hrun⟩
    rw [revertsBlock, bind_eq_ok_iff] at hrun
    obtain ⟨⟨memory', reqs⟩, hrevert, hrun⟩ := hrun
    refine ⟨?_, _, hrevert⟩
    rw [revertBlock, bind_eq_ok_iff] at hrevert
    obtain ⟨expireCerts, -, hrevert⟩ := hrevert
    rw [bind_eq_ok_iff] at hrevert
    obtain ⟨dalTxs, htxs, hrevert⟩ := hrevert
    rw [bind_eq_ok_iff] at hrevert
    obtain ⟨block, -, hrevert⟩ := hrevert
    rw [bind_eq_ok_iff] at hrevert
    obtain ⟨blockstamp, -, hrevert⟩ := hrevert
    rw [bind_eq_ok_iff] at hrevert
    obtain ⟨s, -, hrevert⟩ := hrevert
    obtain ⟨rfl, rfl⟩ := Prod.mk.inj (Except.ok.inj hrevert)
    have hstored : ∀ dalTx ∈ dalTxs.reverse, ∃ txHash, dbs.txDb.get? txHash = some dalTx :=
      fun dalTx hmem => stored_of_mapM htxs dalTx (List.mem_reverse.1 hmem)
    have hnil : dalTxs = [] := List.reverse_eq_nil_iff.1 (h.eq_nil_of_revert hstored hrun)
    exact List.eq_nil_of_length_eq_zero
      ((length_of_mapM htxs).symm.trans (congrArg List.length hnil))
  · rintro ⟨hnil, ⟨memory', reqs⟩, hrevert⟩
    rw [revertsBlock, hrevert, ok_bind]
    rw [revertBlock, hnil, bind_eq_ok_iff] at hrevert
    obtain ⟨expireCerts, -, hrevert⟩ := hrevert
    rw [List.mapM_nil, pure_bind, bind_eq_ok_iff] at hrevert
    obtain ⟨block, -, hrevert⟩ := hrevert
    rw [bind_eq_ok_iff] at hrevert
    obtain ⟨blockstamp, -, hrevert⟩ := hrevert
    rw [bind_eq_ok_iff] at hrevert
    obtain ⟨s, -, hrevert⟩ := hrevert
    obtain ⟨rfl, rfl⟩ := Prod.mk.inj (Except.ok.inj hrevert)
    -- only the dividend is left
    cases block.duAmount with
    | none => exact ⟨dbs, rfl⟩
    | some duAmount => exact ⟨_, rfl⟩

/-! ## Reached states -/

/-- Reverting the current block does this to the currency databases. -/
theorem revertsBlock_of_revertCurrentBlock {C : Crypto} {bc bc' : BlockchainModule}
    (h : revertCurrentBlock C bc = .ok bc') :
    ∃ dalBlock, bc.dbs.forks.forkBlocksDb.get? bc.currentBlockstamp = some dalBlock ∧
      revertsBlock C dalBlock bc.memory bc.dbs.currency = .ok bc'.dbs.currency := by
  rw [revertCurrentBlock, bind_eq_ok_iff] at h
  obtain ⟨dalBlock, hget, h⟩ := h
  rw [bind_eq_ok_iff] at h
  obtain ⟨⟨memory, reqs⟩, hrevert, h⟩ := h
  obtain ⟨blocks, forks, wots, currency, -, -, hcurrency, rfl⟩ :=
    BlockchainModule.applyQueries_eq_ok h
  refine ⟨dalBlock, expect_eq_ok_iff.1 hget, ?_⟩
  rw [revertsBlock, hrevert, ok_bind]
  exact hcurrency

/-- In every state that the module reaches, a block is undone in the currency databases exactly when
it has no transaction; the current block is reverted only then. -/
theorem returns_revertsBlock_iff {C : Crypto} {S : SheetSort} {fuel : Nat}
    {s : BlockchainModule × SaveFlags}
    (hreached : Reached (default, .none) (ModuleOp.apply C S fuel) (fun _ _ => True) s) :
    (∀ (dalBlock : DALBlock) (memory : WotMemory),
      Returns (revertsBlock C dalBlock memory s.1.dbs.currency) ↔
        dalBlock.block.transactions = [] ∧
          Returns (revertBlock C dalBlock memory s.1.dbs.currency.txDb)) ∧
    (Returns (revertCurrentBlock C s.1) →
      ∃ dalBlock, s.1.dbs.forks.forkBlocksDb.get? s.1.currentBlockstamp = some dalBlock ∧
        dalBlock.block.transactions = []) := by
  have hkept : KeptByQueries C (fun _ => True) TxsReduced := ⟨fun _ _ => trivial, TxsReduced.apply⟩
  have hreduced := (hkept.of_reached trivial txsReduced_default hreached).currency
  refine ⟨fun dalBlock memory => hreduced.revertsBlock_iff, ?_⟩
  rintro ⟨bc', hrevert⟩
  obtain ⟨dalBlock, hget, hundo⟩ := revertsBlock_of_revertCurrentBlock hrevert
  exact ⟨dalBlock, hget, (hreduced.revertsBlock_iff.1 ⟨_, hundo⟩).1⟩

/-- After two blocks of a chain, the second is reverted. -/
theorem returns_revertsBlock_secondBlock : ∃ s,
    [ModuleOp.receiveBlock (mockBlock 0 0), .receiveBlock (mockBlock 0 1)].foldlM
      (ModuleOp.apply mockCrypto .insertion 10) (default, .none) = .ok s ∧
    ∃ dalBlock, s.1.dbs.forks.forkBlocksDb.get? s.1.currentBlockstamp = some dalBlock ∧
      dalBlock.block.transactions = [] := by
  have hreturns : ∃ s,
      [ModuleOp.receiveBlock (mockBlock 0 0), .receiveBlock (mockBlock 0 1)].foldlM
        (ModuleOp.apply mockCrypto .insertion 10) (default, .none) = .ok s ∧
      Returns (revertCurrentBlock mockCrypto s.1) := by
    decide +kernel
  obtain ⟨s, hrun, hrevert⟩ := hreturns
  have hreached : Reached (default, .none) (ModuleOp.apply mockCrypto .insertion 10)
      (fun _ _ => True) s := Reached.of_foldlM .init (fun _ _ _ => trivial) hrun
  exact ⟨s, hrun, (returns_revertsBlock_iff hreached).2 hrevert⟩

end Durs
