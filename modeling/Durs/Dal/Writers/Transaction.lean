/-
# Writing transactions

A transaction consumes its inputs and creates its outputs in the store of unused outputs, the store
of dividends and the balances, which are grouped by address.
-/

import Durs.Dal.Writers.Dividend

namespace Durs

open RustStd

/-- The balance of an address: its amount and its unused outputs. -/
abbrev AddressBalance := SourceAmount × HashSet UTXOIndexV10

/-- The source that an input consumes. -/
def TransactionInput.source : TransactionInput → SourceIndexV10 × SourceAmount
  | .D amount base pubkey blockId => (.ud pubkey blockId, ⟨amount, base⟩)
  | .T amount base txHash txIndex => (.utxo ⟨txHash, txIndex⟩, ⟨amount, base⟩)

/-- Index the sources of the inputs of a transaction. -/
def TransactionDocument.inputSources (tx : TransactionDocument) :
    HashMap SourceIndexV10 SourceAmount :=
  HashMap.ofList (tx.inputs.map TransactionInput.source)

/-- The unused outputs that a transaction creates. -/
def TransactionDocument.createdUtxos (tx : TransactionDocument) (txHash : Hash) : List UTXOV10 :=
  tx.outputs.mapIdx fun txIndex output => ⟨⟨txHash, txIndex⟩, output⟩

/-- Find the address of a source and add the source to what is known of that address. -/
def addSourceToAddress (utxosDb : HashMap UTXOIndexV10 TransactionOutput)
    (addresses : HashMap UTXOConditionsGroup AddressBalance)
    (source : SourceIndexV10 × SourceAmount) :
    Run (HashMap UTXOConditionsGroup AddressBalance) :=
  match source.1 with
  | .utxo utxoIndex => do
      let utxo ← expect (utxosDb.get? utxoIndex)
        "ApplyBLockError \x7b\x7d : unknow UTXO in inputs : \x7b:?\x7d !"
      let conditions := utxo.conditions.conditions
      let (balance, utxosIndex) := (addresses.get? conditions).getD (default, ∅)
      return addresses.insert conditions (balance + source.2, utxosIndex.insert utxoIndex)
  | .ud pubkey _ =>
      let (balance, utxosIndex) := (addresses.get? (addressOf pubkey)).getD (default, ∅)
      return addresses.insert (addressOf pubkey) (balance + source.2, utxosIndex)

/-- Find the addresses of some sources. -/
def findAddresses (utxosDb : HashMap UTXOIndexV10 TransactionOutput)
    (sources : HashMap SourceIndexV10 SourceAmount) :
    Run (HashMap UTXOConditionsGroup AddressBalance) :=
  sources.iter.foldlM (addSourceToAddress utxosDb) ∅

/-! ## Applying a transaction -/

/-- Recalculate the balance of an address that sources are consumed from; a balance below one
hundred is destroyed. -/
def consumeFromAddress (balancesDb : HashMap UTXOConditionsGroup AddressBalance)
    (acc : HashSet UTXOIndexV10 × List (UTXOConditionsGroup × AddressBalance))
    (entry : UTXOConditionsGroup × AddressBalance) :
    Run (HashSet UTXOIndexV10 × List (UTXOConditionsGroup × AddressBalance)) := do
  let (sourcesDestroyed, newBalances) := acc
  let (conditions, amountConsumed, adressConsumedSources) := entry
  let (balance, sources) ← expect (balancesDb.get? conditions)
    "Apply Tx : try to consume a source, but the owner address is not found in balances db : \x7b:?\x7d"
  let newBalance := balance - amountConsumed
  let isDust := newBalance.amount < 100
  let newSourcesIndex := adressConsumedSources.iter.foldl HashSet.remove sources
  return (if isDust then sources.union sourcesDestroyed else sourcesDestroyed,
    newBalances ++ [(conditions,
      (if isDust then ⟨0, newBalance.base⟩ else newBalance, newSourcesIndex))])

/-- Remove a consumed source. -/
def removeSource (dbs : CurrencyV10DBs) : SourceIndexV10 → CurrencyV10DBs
  | .utxo utxoIndex => { dbs with utxosDb := dbs.utxosDb.remove utxoIndex }
  | .ud pubkey blockId => { dbs with duDb := writeMemberDu blockId true dbs.duDb pubkey }

/-- Recalculate the balance of the address that an output supplies. -/
def supplyAddress (balancesDb newBalances : HashMap UTXOConditionsGroup AddressBalance)
    (utxo : UTXOV10) : HashMap UTXOConditionsGroup AddressBalance :=
  let conditions := utxo.getConditions
  let (balance, sourcesIndex) := (newBalances.get? conditions).getD
    ((balancesDb.get? conditions).getD (default, ∅))
  newBalances.insert conditions (balance + utxo.getAmount, sourcesIndex.insert utxo.index)

/-- Consume the inputs of a transaction: returns the databases and the destroyed sources. -/
def consumeInputs (dbs : CurrencyV10DBs) (tx : TransactionDocument) :
    Run (CurrencyV10DBs × HashSet UTXOIndexV10) := do
  let consumedSources := tx.inputSources
  let consumedAdress ← findAddresses dbs.utxosDb consumedSources
  let (sourcesDestroyed, newBalances) ←
    consumedAdress.iter.foldlM (consumeFromAddress dbs.balancesDb) (∅, [])
  let dbs := { dbs with balancesDb := dbs.balancesDb.insertAll newBalances }
  return (consumedSources.keys.foldl removeSource dbs, sourcesDestroyed)

/-- Create the outputs of a transaction. -/
def createOutputs (dbs : CurrencyV10DBs) (tx : TransactionDocument) (txHash : Hash) :
    CurrencyV10DBs :=
  let createdUtxos := tx.createdUtxos txHash
  let newBalances := createdUtxos.foldl (supplyAddress dbs.balancesDb) ∅
  { dbs with
    utxosDb := dbs.utxosDb.insertAll (createdUtxos.map fun utxo => (utxo.index, utxo.content))
    balancesDb := dbs.balancesDb.insertAll newBalances.iter }

variable (C : TxCrypto)

/-- Apply and write transaction in databases. -/
def applyAndWriteTx (dbs : CurrencyV10DBs) (txDoc : TransactionDocument) : Run CurrencyV10DBs := do
  let (txDoc, txHash) ← txDoc.getHash C
  let (dbs, sourcesDestroyed) ← consumeInputs dbs txDoc
  let dbs := createOutputs dbs txDoc txHash
  return { dbs with txDb := dbs.txDb.insert txHash ⟨txDoc.reduce C, sourcesDestroyed⟩ }

/-! ## Reverting a transaction -/

/-- Recalculate the balance of the address of an output that is taken back. -/
def withdrawFromAddress (balancesDb newBalances : HashMap UTXOConditionsGroup AddressBalance)
    (utxo : UTXOV10) : Run (HashMap UTXOConditionsGroup AddressBalance) := do
  let conditions := utxo.getConditions
  let (balance, sourcesIndex) ← expect ((newBalances.get? conditions).or
    (balancesDb.get? conditions))
    "Fail to revert tx : an output conditions don't exist in BalancesDB."
  if balance.ge utxo.getAmount then
    return newBalances.insert conditions
      (balance - utxo.getAmount, sourcesIndex.remove utxo.index)
  else fatalError "Fail to revert tx : an output revert cause negative balance."

/-- Find the output that a destroyed source was, and group it by address. -/
def completeDestroyed (txDb : HashMap Hash DALTxV10)
    (completed : HashMap UTXOConditionsGroup (List (UTXOIndexV10 × SourceAmount)))
    (index : UTXOIndexV10) :
    Run (HashMap UTXOConditionsGroup (List (UTXOIndexV10 × SourceAmount))) := do
  let tx ← expect (txDb.get? index.txHash) "Not find tx"
  let output ← expect tx.txDoc.outputs[index.txIndex]? "index out of bounds"
  let conditions := output.conditions.conditions
  let sameAddress := (completed.get? conditions).getD []
  return completed.insert conditions (sameAddress ++ [(index, ⟨output.amount, output.base⟩)])

/-- Recalculate the balance of an address that gets back its consumed and its destroyed sources. -/
def recreateOnAddress (balancesDb : HashMap UTXOConditionsGroup AddressBalance)
    (sourcesDestroyed : HashMap UTXOConditionsGroup (List (UTXOIndexV10 × SourceAmount)))
    (entry : UTXOConditionsGroup × AddressBalance) : UTXOConditionsGroup × AddressBalance :=
  let (conditions, amountRecreated, adressRecreatedSources) := entry
  let (balance, sourcesIndexs) := (balancesDb.get? conditions).getD (default, ∅)
  let recreated : AddressBalance :=
    (balance + amountRecreated, adressRecreatedSources.iter.foldl HashSet.insert sourcesIndexs)
  (conditions, ((sourcesDestroyed.get? conditions).getD []).foldl (fun acc destroyed =>
    (acc.1 + destroyed.2, acc.2.insert destroyed.1)) recreated)

/-- Recreate a source that the transaction had consumed. -/
def recreateSource (dbs : CurrencyV10DBs) : SourceIndexV10 → Run CurrencyV10DBs
  | .utxo utxoIndex => do
      let tx ← expect (dbs.txDb.get? utxoIndex.txHash)
        "Fatal error : not found Source TX of this utxo !"
      let output ← expect tx.txDoc.outputs[utxoIndex.txIndex]? "index out of bounds"
      return { dbs with utxosDb := dbs.utxosDb.insert utxoIndex output }
  | .ud pubkey blockId => return { dbs with duDb := writeMemberDu blockId false dbs.duDb pubkey }

/-- Apply transaction backwards. -/
def revertTx (dbs : CurrencyV10DBs) (dalTx : DALTxV10) : Run CurrencyV10DBs := do
  let (txDoc, txHash) ← dalTx.txDoc.getHash C
  let consumedUtxos := txDoc.createdUtxos txHash
  let newBalances ← consumedUtxos.foldlM (withdrawFromAddress dbs.balancesDb) ∅
  let dbs := { dbs with
    utxosDb := dbs.utxosDb.removeAll (consumedUtxos.map UTXOV10.index)
    balancesDb := dbs.balancesDb.insertAll newBalances.iter }
  let sourcesDestroyed ← dalTx.sourcesDestroyed.iter.foldlM (completeDestroyed dbs.txDb) ∅
  let recreatedSources := txDoc.inputSources
  let recreatedAdress ← findAddresses dbs.utxosDb recreatedSources
  let dbs := { dbs with
    balancesDb := dbs.balancesDb.insertAll
      (recreatedAdress.iter.map (recreateOnAddress dbs.balancesDb sourcesDestroyed)) }
  recreatedSources.keys.foldlM recreateSource dbs

end Durs
