/-
# The ledger over whole runs

In every run whose calls find their inputs, create new sources and lose no part of an amount, the
balances agree with the sources.  The sets of the balances never hold dividends, and a call that
rounds, leaves dust or subtracts from a balance in a larger base breaks the agreement.
-/

import Durs.Currency.Dividends

namespace Durs

open RustStd

namespace Ledger

variable {C : TxCrypto} {s s' : Ledger} {tx : TransactionDocument}

/-! ## A transaction -/

/-- The hash that is computed for a document changes neither its inputs nor its outputs. -/
theorem getHash_eq_ok {txDoc : TransactionDocument} {txHash : Hash}
    (h : tx.getHash C = .ok (txDoc, txHash)) :
    txDoc.inputs = tx.inputs ∧ txDoc.outputs = tx.outputs := by
  rw [TransactionDocument.getHash] at h
  split at h
  case h_1 =>
    obtain ⟨rfl, rfl⟩ := Prod.mk.inj (Except.ok.inj h)
    exact ⟨rfl, rfl⟩
  case h_2 =>
    rcases bind_eq_ok_iff.1 h with ⟨text, -, hreturn⟩
    obtain ⟨rfl, rfl⟩ := Prod.mk.inj (Except.ok.inj hreturn)
    exact ⟨rfl, rfl⟩

theorem spentAt_congr {txDoc : TransactionDocument} (h : txDoc.inputs = tx.inputs) :
    s.spentAt txDoc = s.spentAt tx := by
  funext address
  rw [spentAt, spentAt, TransactionDocument.inputSources, TransactionDocument.inputSources, h]

/-- What a transaction consumes is read off its inputs. -/
theorem Spends.congr (h : s.Spends tx) {txDoc : TransactionDocument}
    (hinputs : txDoc.inputs = tx.inputs) : s.Spends txDoc where
  available := hinputs ▸ h.available
  fits := spentAt_congr hinputs ▸ h.fits
  keeps := spentAt_congr hinputs ▸ h.keeps

theorem nodup_createdUtxos (tx : TransactionDocument) (txHash : Hash) :
    ((tx.createdUtxos txHash).map UTXOV10.index).Nodup := by
  have hindexes : (tx.createdUtxos txHash).map (fun utxo => utxo.index.txIndex) =
      List.range tx.outputs.length := by
    refine List.ext_getElem (by simp [TransactionDocument.createdUtxos]) fun i h₁ h₂ => ?_
    simp [TransactionDocument.createdUtxos]
  refine List.Nodup.of_map UTXOIndexV10.txIndex ?_
  rw [List.map_map]
  exact hindexes ▸ List.nodup_range

/-- An address that a transaction consumes from is among the addresses it touches. -/
theorem mem_addresses_of_spentAt {address : UTXOConditionsGroup} (h : s.spentAt tx address ≠ []) :
    address ∈ tx.inputSources.keys.filterMap (sourceAddress? s.dbs.utxosDb) := by
  rcases List.exists_mem_of_ne_nil _ h with ⟨amount, hmem⟩
  rcases List.mem_map.1 hmem with ⟨source, hsource, -⟩
  rcases List.mem_filter.1 hsource with ⟨hiter, howner⟩
  refine List.mem_filterMap.2 ⟨source.1, ?_, of_decide_eq_true howner⟩
  rw [← map_fst_iter_inputSources]
  exact List.mem_map_of_mem hiter

/-- An address that outputs are created for is the address of one. -/
theorem mem_addresses_of_createdAt {utxos : List UTXOV10} {address : UTXOConditionsGroup}
    (h : createdAt utxos address ≠ []) : address ∈ utxos.map UTXOV10.getConditions := by
  rcases List.exists_mem_of_ne_nil _ h with ⟨amount, hmem⟩
  rcases List.mem_map.1 hmem with ⟨utxo, hutxo, -⟩
  rcases List.mem_filter.1 hutxo with ⟨hin, howner⟩
  exact List.mem_map.2 ⟨utxo, hin, of_decide_eq_true howner⟩

theorem spends_of_allowed (h : s.Allowed C (.applyAndWriteTx tx)) : s.Spends tx where
  available := h.available
  fits address hne := by
    have htouched := h.lossFree address
      (List.mem_append_left _ (mem_addresses_of_spentAt hne))
    exact ⟨_, htouched.1 _ List.mem_cons_self, fun amount hmem =>
      htouched.1 amount (List.mem_cons_of_mem _ (List.mem_append_left _ hmem))⟩
  keeps address hne :=
    (h.lossFree address (List.mem_append_left _ (mem_addresses_of_spentAt hne))).2.2 hne

/-- The outputs of a transaction after its inputs are consumed. -/
theorem creates_of_allowed (h : s.Allowed C (.applyAndWriteTx tx)) (hs : s.Balanced)
    {txDoc : TransactionDocument} {txHash : Hash} (hhash : tx.getHash C = .ok (txDoc, txHash))
    (hspent : s.Spent txDoc s') : s'.Creates (txDoc.createdUtxos txHash) := by
  have hinputs := (getHash_eq_ok hhash).1
  have hspends := (spends_of_allowed h).congr hinputs
  have hcreated : tx.created C = txDoc.createdUtxos txHash := by
    rw [TransactionDocument.created, hhash]
  have hlossFree := fun address (hne : createdAt (txDoc.createdUtxos txHash) address ≠ []) =>
    h.lossFree address (List.mem_append_right _ (mem_addresses_of_createdAt (hcreated.symm ▸ hne)))
  rw [hcreated, ← spentAt_congr hinputs] at hlossFree
  refine ⟨?_, nodup_createdUtxos txDoc txHash, ?_, ?_⟩
  · intro utxo hutxo
    rw [hspent.amount?]
    split
    case isTrue => rfl
    case isFalse => exact h.new utxo (hcreated.symm ▸ hutxo)
  · intro address hne
    have hfits := (hlossFree address hne).1
    have hbalance := hfits _ List.mem_cons_self
    have hspentFits : ∀ amount ∈ s.spentAt txDoc address, amount.Fits _ := fun amount hmem =>
      hfits amount (List.mem_cons_of_mem _ (List.mem_append_left _ hmem))
    refine ⟨_, ?_, fun amount hmem =>
      hfits amount (List.mem_cons_of_mem _ (List.mem_append_right _ hmem))⟩
    by_cases hspentAt : s.spentAt txDoc address = []
    · rw [hspent.untouched address hspentAt]
      exact hbalance
    · exact (hspent.touched_fst hs hspends hspentAt hbalance hspentFits
        (sourcesValue_nonneg (hspent.balanced hs hspends).nonneg address)).1
  · intro address hne
    have hrange := (hlossFree address hne).2.1
    have hvalue := hspent.value address
    omega

/-! ## Every call -/

/-- A call that is allowed keeps the invariant. -/
theorem balanced_of_step {op : LedgerOp} (hs : s.Balanced) (h : s.Allowed C op)
    (hrun : s.step C op = .ok s') : s'.Balanced := by
  cases op with
  | createDu duAmount duBlockId members revert =>
      obtain rfl := Except.ok.inj hrun
      refine (show s.AllowsDu duAmount duBlockId members revert from ⟨?_, ?_, ?_⟩).balanced hs
      · intro pubkey hmem
        have hfits := (h.lossFree pubkey hmem).1
        exact ⟨_, hfits _ List.mem_cons_self,
          hfits _ (List.mem_cons_of_mem _ List.mem_cons_self)⟩
      · rintro rfl pubkey hmem
        exact ⟨h.new pubkey hmem, (h.lossFree pubkey hmem).2⟩
      · rintro rfl pubkey hmem
        exact ⟨h.available pubkey hmem, (h.lossFree pubkey hmem).2⟩
  | applyAndWriteTx tx =>
      rcases bind_eq_ok_iff.1 hrun with ⟨dbs, hdbs, hreturn⟩
      obtain rfl := Except.ok.inj hreturn
      rcases bind_eq_ok_iff.1 hdbs with ⟨⟨txDoc, txHash⟩, hhash, hrest⟩
      rcases bind_eq_ok_iff.1 hrest with ⟨⟨spentDbs, destroyed⟩, hconsume, hcreate⟩
      obtain rfl := Except.ok.inj hcreate
      have hspends := (spends_of_allowed h).congr (getHash_eq_ok hhash).1
      have hspent := spent_of_consumeInputs hspends hconsume
      have hcreates := creates_of_allowed h hs hhash hspent
      have hbalanced := hcreates.balanced (hspent.balanced hs hspends)
      rw [← createOutputs_eq] at hbalanced
      -- the store of transactions plays no part in the balances
      exact ⟨hbalanced.amount, hbalanced.sources, hbalanced.entries, hbalanced.nonneg,
        hbalanced.range⟩

end Ledger

/-- In every run of allowed calls from empty databases, the balances agree with the sources. -/
theorem ledgerInv_of_reached {C : TxCrypto} {s : Ledger}
    (h : Lib.Reached default (Ledger.step C) (Ledger.Allowed C) s) : LedgerInv s := by
  have hbalanced : s.Balanced := h.invariant Ledger.balanced_default
    fun _ _ _ hs hallowed hrun => Ledger.balanced_of_step hs hallowed hrun
  exact hbalanced.ledgerInv

/-! ## Runs -/

/-- A toy cryptography for concrete runs. -/
def mockTxCrypto : TxCrypto where
  base58 _ := ""
  txHash _ _ := 0

/-- A transaction with a known hash. -/
def mockTx (hash : Hash) (inputs : List TransactionInput)
    (outputs : List (TxAmount × TxBase × PubKey)) : TransactionDocument where
  text := none
  currency := "g1"
  blockstamp := ⟨0, 0⟩
  locktime := 0
  issuers := []
  inputs := inputs
  unlocks := []
  outputs := outputs.map fun (amount, base, pubkey) => ⟨amount, base, none, addressOf pubkey⟩
  comment := ""
  signatures := []
  hash := some hash

/-- Two dividends in two bases, one of them reverted, and two payments: the first takes a dividend
and gives change, the second takes one output of a member who owns more. -/
def ledgerOps : List LedgerOp :=
  [.createDu ⟨1000, 0⟩ 1 [⟨1⟩, ⟨2⟩] false,
    .applyAndWriteTx (mockTx 1 [.D 1000 0 ⟨1⟩ 1] [(300, 0, ⟨2⟩), (70, 1, ⟨1⟩)]),
    .applyAndWriteTx (mockTx 2 [.T 300 0 1 0] [(120, 0, ⟨3⟩), (180, 0, ⟨2⟩)]),
    .createDu ⟨50, 1⟩ 2 [⟨1⟩, ⟨2⟩] false,
    .createDu ⟨50, 1⟩ 2 [⟨1⟩, ⟨2⟩] true]

/-- The run ends in balances that agree with the sources: those of the second member are a dividend
of one thousand and an output of one hundred and eighty. -/
theorem ledgerInv_ledgerOps : ∃ s, ledgerOps.foldlM (Ledger.step mockTxCrypto) default = .ok s ∧
    LedgerInv s ∧ (s.dbs.balance (addressOf ⟨2⟩)).1 = ⟨118, 1⟩ := by
  rcases Option.isSome_iff_exists.1 (show (Lib.guardedRun (Ledger.step mockTxCrypto)
    (Ledger.Allowed mockTxCrypto) ledgerOps default).isSome by decide +kernel) with ⟨s, hguarded⟩
  have hrun := Lib.foldlM_of_guardedRun hguarded
  refine ⟨s, hrun, ledgerInv_of_reached (.of_guardedRun .init hguarded), ?_⟩
  obtain rfl := Except.ok.inj hrun
  decide +kernel

/-- The balances agree with all the sources, the dividends included. -/
def BalancesHoldSources (s : Ledger) : Prop :=
  ∀ address balance utxos, s.dbs.balancesDb.get? address = some (balance, utxos) →
    balance.value = s.sourcesValue address ∧
      ∀ source, s.Owns address source ↔ ∃ index ∈ utxos, source = .utxo index

/-- The states reached by calls that find their inputs and create new sources. -/
def ReachedByAvailable : Ledger → Prop :=
  Lib.Reached default (Ledger.step mockTxCrypto) fun s op =>
    s.InputsAvailable op ∧ s.CreatesNewSources mockTxCrypto op

/-- Dividends in two bases that are rounded when they are added. -/
def roundingOps : List LedgerOp :=
  [.createDu ⟨1005, 0⟩ 1 [⟨1⟩] false, .createDu ⟨300, 1⟩ 2 [⟨1⟩] false]

/-- A payment from one of two dividends that leaves less than one hundred. -/
def dustOps : List LedgerOp :=
  [.createDu ⟨60, 0⟩ 1 [⟨1⟩] false, .createDu ⟨60, 0⟩ 2 [⟨1⟩] false,
    .applyAndWriteTx (mockTx 1 [.D 60 0 ⟨1⟩ 1] [(60, 0, ⟨2⟩)])]

/-- A payment of a small base from a balance in a larger one, which is subtracted the wrong way. -/
def largerBaseOps : List LedgerOp :=
  [.createDu ⟨5000, 0⟩ 1 [⟨1⟩] false, .createDu ⟨300, 1⟩ 2 [⟨1⟩] false,
    .applyAndWriteTx (mockTx 1 [.D 5000 0 ⟨1⟩ 1] [(5000, 0, ⟨2⟩)])]

/-- After a first dividend the entry of a member holds its value but not the source.  Where amounts
are rounded, dust is left, or a balance has a larger base, the value is not the one of the sources
either. -/
theorem not_balancesHoldSources_duOps :
    (∃ s, [LedgerOp.createDu ⟨1000, 0⟩ 1 [⟨1⟩] false].foldlM (Ledger.step mockTxCrypto) default =
        .ok s ∧ ReachedByAvailable s ∧ ¬ BalancesHoldSources s) ∧
      ∀ ops ∈ [roundingOps, dustOps, largerBaseOps], ∃ s,
        ops.foldlM (Ledger.step mockTxCrypto) default = .ok s ∧ ReachedByAvailable s ∧
          ∃ balance, s.dbs.balancesDb.get? (addressOf ⟨1⟩) = some balance ∧
            balance.1.value ≠ s.sourcesValue (addressOf ⟨1⟩) := by
  have hreached : ∀ ops : List LedgerOp, (Lib.guardedRun (Ledger.step mockTxCrypto)
      (fun s op => s.InputsAvailable op ∧ s.CreatesNewSources mockTxCrypto op) ops default).isSome →
      ∃ s, ops.foldlM (Ledger.step mockTxCrypto) default = .ok s ∧ ReachedByAvailable s := by
    intro ops hsome
    rcases Option.isSome_iff_exists.1 hsome with ⟨s, hguarded⟩
    exact ⟨s, Lib.foldlM_of_guardedRun hguarded, .of_guardedRun .init hguarded⟩
  constructor
  · rcases hreached [.createDu ⟨1000, 0⟩ 1 [⟨1⟩] false] (by decide +kernel) with
      ⟨s, hrun, hs⟩
    have howns : s.Owns (addressOf ⟨1⟩) (.ud ⟨1⟩ 1) := by
      obtain rfl := Except.ok.inj hrun
      exact ⟨⟨⟨1000, 0⟩, by decide +kernel⟩, rfl⟩
    have hentry : s.dbs.balancesDb.get? (addressOf ⟨1⟩) = some (⟨1000, 0⟩, ∅) := by
      obtain rfl := Except.ok.inj hrun
      rfl
    refine ⟨s, hrun, hs, fun hclaim => ?_⟩
    rcases (hclaim (addressOf ⟨1⟩) ⟨1000, 0⟩ ∅ hentry).2 (.ud ⟨1⟩ 1) |>.1 howns with
      ⟨index, hmem, -⟩
    exact HashSet.not_mem_empty index hmem
  · intro ops hops
    simp only [List.mem_cons, List.not_mem_nil, or_false] at hops
    rcases hops with rfl | rfl | rfl
    · rcases hreached roundingOps (by decide +kernel) with ⟨s, hrun, hs⟩
      refine ⟨s, hrun, hs, (⟨400, 1⟩, ∅), ?_⟩
      obtain rfl := Except.ok.inj hrun
      exact ⟨rfl, by decide +kernel⟩
    · rcases hreached dustOps (by decide +kernel) with ⟨s, hrun, hs⟩
      refine ⟨s, hrun, hs, (⟨0, 0⟩, ∅), ?_⟩
      obtain rfl := Except.ok.inj hrun
      exact ⟨rfl, by decide +kernel⟩
    · rcases hreached largerBaseOps (by decide +kernel) with ⟨s, hrun, hs⟩
      refine ⟨s, hrun, hs, (⟨0, 1⟩, ∅), ?_⟩
      obtain rfl := Except.ok.inj hrun
      exact ⟨rfl, by decide +kernel⟩

end Durs
