/-
# Spending sources once

A transaction takes its inputs out of the databases, but only an output that it consumes is looked
up: a dividend that was never created or is already consumed, and an amount that is not that of the
source, are not noticed.  No source is spent twice as long as the inputs are recorded with their
amounts and no source that has been consumed is created again.
-/

import Durs.Currency.LedgerRuns

namespace Durs

open RustStd Lib

/-! ## Histories -/

/-- The sources that a call consumes. -/
def LedgerOp.consumed : LedgerOp → List SourceIndexV10
  | .createDu _ _ _ _ => []
  | .applyAndWriteTx txDoc => txDoc.inputs.map (·.source.1)

/-- The sources that a call creates, with their amounts. -/
def LedgerOp.created (C : TxCrypto) : LedgerOp → List (SourceIndexV10 × SourceAmount)
  | .createDu duAmount duBlockId members false =>
      members.map fun pubkey => (.ud pubkey duBlockId, duAmount)
  | .createDu _ _ _ true => []
  | .applyAndWriteTx txDoc => (txDoc.created C).map fun utxo => (.utxo utxo.index, utxo.getAmount)

/-- The calls that have been made, the oldest first, and the ledger after them. -/
structure LedgerHistory where
  ledger : Ledger
  calls : List LedgerOp

instance : Inhabited LedgerHistory := ⟨⟨default, []⟩⟩

/-- Make a call. -/
def LedgerHistory.step (C : TxCrypto) (s : LedgerHistory) (op : LedgerOp) :
    Run LedgerHistory := do
  let ledger ← s.ledger.step C op
  return ⟨ledger, s.calls ++ [op]⟩

/-- No source is consumed by two transactions, and each input of a transaction states the amount with
which an earlier call created its source. -/
structure NoDoubleSpend (C : TxCrypto) (calls : List LedgerOp) : Prop where
  once : calls.Pairwise fun op op' => ∀ source ∈ op.consumed, source ∉ op'.consumed
  created : ∀ before txDoc after, calls = before ++ .applyAndWriteTx txDoc :: after →
    ∀ input ∈ txDoc.inputs, ∃ op ∈ before, input.source ∈ op.created C

/-- Whether the inputs of a call are recorded with their amounts, and none of the sources that it
creates has been consumed. -/
structure LedgerHistory.SpendsRecorded (C : TxCrypto) (s : LedgerHistory) (op : LedgerOp) :
    Prop where
  available : ∀ txDoc, op = .applyAndWriteTx txDoc → s.ledger.InputsAvailable op
  unspent : ∀ source ∈ op.created C, ∀ op' ∈ s.calls ++ [op], source.1 ∉ op'.consumed

/-! ## What a call records -/

section Step

variable {C : TxCrypto} {s s' : Ledger} {op : LedgerOp}

/-- What is recorded after the inputs of a transaction are consumed is none of them. -/
theorem Ledger.amount?_of_consumeInputs {tx : TransactionDocument} {dbs : CurrencyV10DBs}
    {destroyed : HashSet UTXOIndexV10} (h : consumeInputs s.dbs tx = .ok (dbs, destroyed))
    (source : SourceIndexV10) : ({ s with dbs } : Ledger).amount? source =
      if source ∈ tx.inputs.map (·.source.1) then none else s.amount? source := by
  rcases consumeInputs_eq_ok h with ⟨consumed, -, rfl⟩
  have hremoved := amount?_foldl_remove { s with
      dbs.balancesDb := s.dbs.balancesDb.insertAll
        (consumed.iter.map fun entry => (entry.1, spendFrom (s.dbs.balance entry.1) entry.2)) }
    tx.inputSources.keys source
  rw [foldl_remove_eq] at hremoved
  have hkeys : source ∈ tx.inputSources.keys ↔ source ∈ tx.inputs.map (·.source.1) := by
    rw [TransactionDocument.inputSources, HashMap.mem_keys_ofList_iff, List.map_map]
    rfl
  refine hremoved.trans (if_congr hkeys rfl ?_)
  -- the balances play no part in what is recorded
  cases source <;> rfl

/-- What is recorded after the outputs of a transaction are created was recorded before or is one of
them. -/
theorem Ledger.amount?_of_createOutputs {tx : TransactionDocument} {txHash : Hash}
    {source : SourceIndexV10} {amount : SourceAmount}
    (h : ({ s with dbs := createOutputs s.dbs tx txHash } : Ledger).amount? source = some amount) :
    s.amount? source = some amount ∨
      ∃ utxo ∈ tx.createdUtxos txHash, source = .utxo utxo.index ∧ amount = utxo.getAmount := by
  cases source with
  | ud pubkey blockId => exact .inl h
  | utxo index =>
      rcases Option.map_eq_some_iff.1 h with ⟨output, hget, rfl⟩
      rcases HashMap.mem_of_get?_insertAll _ hget with hmem | hold
      · rcases List.mem_map.1 hmem with ⟨utxo, hutxo, heq⟩
        rcases Prod.mk.inj heq with ⟨rfl, rfl⟩
        exact .inr ⟨utxo, hutxo, rfl, rfl⟩
      · exact .inl (Option.map_eq_some_iff.2 ⟨output, hold, rfl⟩)

/-- What is recorded after a call is not consumed by it and was recorded before, or is created by
it. -/
theorem Ledger.amount?_of_step (h : s.step C op = .ok s') {source : SourceIndexV10}
    {amount : SourceAmount} (hamount : s'.amount? source = some amount) :
    (source ∉ op.consumed ∧ s.amount? source = some amount) ∨ (source, amount) ∈ op.created C := by
  cases op with
  | createDu duAmount duBlockId members revert =>
      obtain rfl := Except.ok.inj h
      rcases amount?_withDu source amount hamount with hold | ⟨rfl, rfl, pubkey, hmem, rfl⟩
      · exact .inl ⟨List.not_mem_nil, hold⟩
      · exact .inr (List.mem_map.2 ⟨pubkey, hmem, rfl⟩)
  | applyAndWriteTx tx =>
      rcases bind_eq_ok_iff.1 h with ⟨dbs, hdbs, hreturn⟩
      obtain rfl := Except.ok.inj hreturn
      rcases bind_eq_ok_iff.1 hdbs with ⟨⟨txDoc, txHash⟩, hhash, hrest⟩
      rcases bind_eq_ok_iff.1 hrest with ⟨⟨spentDbs, destroyed⟩, hconsume, hcreate⟩
      obtain rfl := Except.ok.inj hcreate
      -- the store of transactions plays no part in what is recorded
      have hcreated : ({ s with dbs := createOutputs spentDbs txDoc txHash } : Ledger).amount?
          source = some amount := by
        rw [← hamount]
        cases source <;> rfl
      rcases amount?_of_createOutputs (s := { s with dbs := spentDbs }) hcreated with
        hold | ⟨utxo, hutxo, rfl, rfl⟩
      · rw [amount?_of_consumeInputs hconsume, (getHash_eq_ok hhash).1] at hold
        split at hold
        case isTrue => cases hold
        case isFalse hnot => exact .inl ⟨hnot, hold⟩
      · refine .inr (List.mem_map.2 ⟨utxo, ?_, rfl⟩)
        rw [TransactionDocument.created, hhash]
        exact hutxo

end Step

/-! ## Runs -/

section Runs

variable {C : TxCrypto} {s s' : LedgerHistory}

/-- The invariant of the runs: what has been consumed is no longer recorded, and what is recorded has
been created by a call. -/
structure LedgerHistory.SpentOnce (C : TxCrypto) (s : LedgerHistory) : Prop where
  noDoubleSpend : NoDoubleSpend C s.calls
  consumed : ∀ op ∈ s.calls, ∀ source ∈ op.consumed, s.ledger.amount? source = none
  created : ∀ source amount, s.ledger.amount? source = some amount →
    ∃ op ∈ s.calls, (source, amount) ∈ op.created C

theorem LedgerHistory.spentOnce_default (C : TxCrypto) : (default : LedgerHistory).SpentOnce C where
  noDoubleSpend := {
    once := .nil
    created := fun _ _ _ h => absurd h.symm (List.append_ne_nil_of_right_ne_nil _
      (List.cons_ne_nil _ _)) }
  consumed := List.forall_mem_nil _
  created source amount h := by
    cases source with
    | utxo index => cases h
    | ud pubkey blockId => cases h

/-- A call whose inputs are recorded, and that creates nothing that has been consumed, keeps the
invariant. -/
theorem LedgerHistory.SpentOnce.step (h : s.SpentOnce C) {op : LedgerOp}
    (hguard : s.SpendsRecorded C op) (hrun : s.step C op = .ok s') : s'.SpentOnce C := by
  rcases bind_eq_ok_iff.1 hrun with ⟨ledger, hstep, hreturn⟩
  obtain rfl := Except.ok.inj hreturn
  -- an input is recorded, so no earlier transaction has consumed it and an earlier call created it
  have hrecorded : ∀ txDoc, op = .applyAndWriteTx txDoc → ∀ input ∈ txDoc.inputs,
      s.ledger.amount? input.source.1 = some input.source.2 := by
    rintro txDoc rfl
    exact hguard.available txDoc rfl
  constructor
  case noDoubleSpend =>
    constructor
    case once =>
      refine List.pairwise_append.2 ⟨h.noDoubleSpend.once, List.pairwise_singleton _ _, ?_⟩
      intro earlier hearlier last hlast source hconsumed hagain
      obtain rfl := List.mem_singleton.1 hlast
      cases last with
      | createDu => exact List.not_mem_nil hagain
      | applyAndWriteTx txDoc =>
          rcases List.mem_map.1 hagain with ⟨input, hinput, rfl⟩
          have hnone := h.consumed earlier hearlier _ hconsumed
          rw [hrecorded txDoc rfl input hinput] at hnone
          cases hnone
    case created =>
      intro before txDoc after heq input hinput
      rcases List.eq_nil_or_concat after with rfl | ⟨rest, last, rfl⟩
      · rcases List.append_inj' heq rfl with ⟨rfl, hlast⟩
        exact h.created _ _ (hrecorded txDoc (List.singleton_inj.1 hlast) input hinput)
      · rw [List.concat_eq_append, ← List.cons_append, ← List.append_assoc] at heq
        rcases List.append_inj' heq rfl with ⟨hcalls, -⟩
        exact h.noDoubleSpend.created before txDoc rest hcalls input hinput
  case consumed =>
    intro earlier hearlier source hconsumed
    by_contra hsome
    rcases Option.ne_none_iff_exists'.1 hsome with ⟨amount, hamount⟩
    rcases Ledger.amount?_of_step hstep hamount with ⟨hnot, hold⟩ | hcreated
    · rcases List.mem_append.1 hearlier with hearlier | hlast
      · rw [h.consumed earlier hearlier source hconsumed] at hold
        cases hold
      · exact hnot (List.mem_singleton.1 hlast ▸ hconsumed)
    · exact hguard.unspent _ hcreated earlier hearlier hconsumed
  case created =>
    intro source amount hamount
    rcases Ledger.amount?_of_step hstep hamount with ⟨-, hold⟩ | hcreated
    · rcases h.created source amount hold with ⟨op', hmem, hcreated⟩
      exact ⟨op', List.mem_append_left _ hmem, hcreated⟩
    · exact ⟨op, List.mem_append_right _ (List.mem_singleton_self op), hcreated⟩

/-- In every run from empty databases whose transactions consume recorded sources with their amounts,
and that creates no consumed source again, no source is spent twice. -/
theorem noDoubleSpend_of_reached
    (h : Reached default (LedgerHistory.step C) (LedgerHistory.SpendsRecorded C) s) :
    NoDoubleSpend C s.calls := by
  have hspent : s.SpentOnce C := h.invariant (LedgerHistory.spentOnce_default C)
    fun _ _ _ hs hguard hrun => hs.step hguard hrun
  exact hspent.noDoubleSpend

end Runs

instance (C : TxCrypto) (s : LedgerHistory) (op : LedgerOp) : Decidable (s.SpendsRecorded C op) :=
  match op with
  | .createDu duAmount duBlockId members revert =>
      decidable_of_iff (∀ source ∈ (LedgerOp.createDu duAmount duBlockId members revert).created C,
          ∀ op' ∈ s.calls ++ [.createDu duAmount duBlockId members revert],
            source.1 ∉ op'.consumed)
        ⟨fun h => ⟨nofun, h⟩, fun h => h.unspent⟩
  | .applyAndWriteTx txDoc =>
      decidable_of_iff (s.ledger.InputsAvailable (.applyAndWriteTx txDoc) ∧
          ∀ source ∈ (LedgerOp.applyAndWriteTx txDoc).created C,
            ∀ op' ∈ s.calls ++ [.applyAndWriteTx txDoc], source.1 ∉ op'.consumed)
        ⟨fun h => ⟨fun _ _ => h.1, h.2⟩, fun h => ⟨h.available txDoc rfl, h.unspent⟩⟩

/-- A run in which a dividend and a part of its change are spent. -/
theorem noDoubleSpend_ledgerOps :
    ∃ s, ledgerOps.foldlM (LedgerHistory.step mockTxCrypto) default = .ok s ∧
      s.calls.length = 5 ∧ NoDoubleSpend mockTxCrypto s.calls := by
  rcases Option.isSome_iff_exists.1 (show (guardedRun (LedgerHistory.step mockTxCrypto)
    (LedgerHistory.SpendsRecorded mockTxCrypto) ledgerOps default).isSome by decide +kernel) with
    ⟨s, hguarded⟩
  have hrun := foldlM_of_guardedRun hguarded
  refine ⟨s, hrun, ?_, noDoubleSpend_of_reached (.of_guardedRun .init hguarded)⟩
  obtain rfl := Except.ok.inj hrun
  rfl

/-- Two transactions that consume the same dividend. -/
def spentTwiceOps : List LedgerOp :=
  [.createDu ⟨1000, 0⟩ 1 [⟨1⟩] false,
    .applyAndWriteTx (mockTx 1 [.D 1000 0 ⟨1⟩ 1] [(1000, 0, ⟨1⟩)]),
    .applyAndWriteTx (mockTx 2 [.D 1000 0 ⟨1⟩ 1] [(1000, 0, ⟨2⟩)])]

/-- Both transactions are written. -/
theorem not_noDoubleSpend_spentTwiceOps :
    ∃ s, spentTwiceOps.foldlM (LedgerHistory.step mockTxCrypto) default = .ok s ∧
      ¬ NoDoubleSpend mockTxCrypto s.calls := by
  have hrun : ∃ s, spentTwiceOps.foldlM (LedgerHistory.step mockTxCrypto) default = .ok s ∧
      s.calls = spentTwiceOps := ⟨_, rfl, rfl⟩
  rcases hrun with ⟨s, hrun, hcalls⟩
  refine ⟨s, hrun, fun hno => ?_⟩
  have honce := hno.once
  rw [hcalls] at honce
  have hsecond := (List.pairwise_cons.1 (List.pairwise_cons.1 honce).2).1 _
    (List.mem_singleton_self _) (.ud ⟨1⟩ 1)
  exact hsecond (by decide) (by decide)

end Durs
