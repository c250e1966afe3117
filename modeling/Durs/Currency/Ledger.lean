/-
# The ledger

The currency databases, the dividends and the transactions that are written in them, and what it
means that the balances agree with the recorded sources.
-/

import Durs.Currency.Amounts
import Durs.Dal.Writers.Transaction
import Durs.Lib.Reached
import Durs.RustStd.Sum

namespace Durs

open RustStd

/-- The address of an output. -/
def TransactionOutput.address (output : TransactionOutput) : UTXOConditionsGroup :=
  output.conditions.conditions

/-- The amount of an output. -/
def TransactionOutput.sourceAmount (output : TransactionOutput) : SourceAmount :=
  ⟨output.amount, output.base⟩

/-- The address of a source. -/
def sourceAddress? (utxosDb : HashMap UTXOIndexV10 TransactionOutput) :
    SourceIndexV10 → Option UTXOConditionsGroup
  | .utxo index => (utxosDb.get? index).map TransactionOutput.address
  | .ud pubkey _ => some (addressOf pubkey)

/-- The dividends of a member that are not consumed. -/
def CurrencyV10DBs.dus (dbs : CurrencyV10DBs) (pubkey : PubKey) : HashSet BlockNumber :=
  (dbs.duDb.get? pubkey).getD ∅

/-- The balance of an address; an address without an entry has nothing. -/
def CurrencyV10DBs.balance (dbs : CurrencyV10DBs) (address : UTXOConditionsGroup) :
    AddressBalance :=
  (dbs.balancesDb.get? address).getD (default, ∅)

/-- The databases, with the amounts of the dividends, which no database records. -/
structure Ledger where
  dbs : CurrencyV10DBs
  dividends : PubKey → BlockNumber → SourceAmount

instance : Inhabited Ledger := ⟨⟨default, fun _ _ => default⟩⟩

namespace Ledger

/-- The amount of a recorded source. -/
def amount? (s : Ledger) : SourceIndexV10 → Option SourceAmount
  | .utxo index => (s.dbs.utxosDb.get? index).map TransactionOutput.sourceAmount
  | .ud pubkey blockId =>
      if blockId ∈ s.dbs.dus pubkey then some (s.dividends pubkey blockId) else none

/-- A source is recorded in the databases, at this address. -/
def Owns (s : Ledger) (address : UTXOConditionsGroup) (source : SourceIndexV10) : Prop :=
  (∃ amount, s.amount? source = some amount) ∧
    sourceAddress? s.dbs.utxosDb source = some address

/-- The value of the unused outputs of an address. -/
def utxosValue (s : Ledger) (address : UTXOConditionsGroup) : Int :=
  s.dbs.utxosDb.sumOf fun _ output =>
    if output.address = address then output.sourceAmount.value else 0

/-- The value of the dividends of a member. -/
def memberDusValue (s : Ledger) (pubkey : PubKey) : Int :=
  (s.dbs.dus pubkey).sumOf fun blockId => (s.dividends pubkey blockId).value

/-- The value of the dividends of an address. -/
def dusValue (s : Ledger) : UTXOConditionsGroup → Int
  | .single (.sig pubkey) => s.memberDusValue pubkey
  | _ => 0

/-- The value of the sources of an address. -/
def sourcesValue (s : Ledger) (address : UTXOConditionsGroup) : Int :=
  s.utxosValue address + s.dusValue address

end Ledger

/-! ## The calls -/

/-- A call that writes in the currency databases. -/
inductive LedgerOp
  | createDu (duAmount : SourceAmount) (duBlockId : BlockNumber) (members : List PubKey)
      (revert : Bool)
  | applyAndWriteTx (txDoc : TransactionDocument)

/-- The unused outputs that a transaction creates. -/
def TransactionDocument.created (C : TxCrypto) (txDoc : TransactionDocument) : List UTXOV10 :=
  match txDoc.getHash C with
  | .ok (txDoc, txHash) => txDoc.createdUtxos txHash
  | .error _ => []

/-- The amounts that created outputs add to an address. -/
def createdAt (utxos : List UTXOV10) (address : UTXOConditionsGroup) : List SourceAmount :=
  (utxos.filter (·.getConditions = address)).map UTXOV10.getAmount

/-- What is left of a balance after an amount is consumed loses nothing: the amount has a base that
is not smaller, and no dust is left. -/
def KeepsRemainder (balance spent : SourceAmount) : Prop :=
  balance.base ≤ spent.base ∧ ((balance - spent).amount = 0 ∨ 100 ≤ (balance - spent).amount)

namespace Ledger

variable (C : TxCrypto)

/-- Make a call; a dividend that is created is recorded with its amount. -/
def step (s : Ledger) : LedgerOp → Run Ledger
  | .createDu duAmount duBlockId members revert =>
      return {
        dbs := createDu s.dbs duAmount duBlockId members revert
        dividends := fun pubkey blockId =>
          if revert = false ∧ pubkey ∈ members ∧ blockId = duBlockId then duAmount
          else s.dividends pubkey blockId }
  | .applyAndWriteTx txDoc => do
      let dbs ← Durs.applyAndWriteTx C s.dbs txDoc
      return { s with dbs }

/-- The sources that a call consumes are recorded, with the amounts that the call gives. -/
def InputsAvailable (s : Ledger) : LedgerOp → Prop
  | .createDu _ _ _ false => True
  | .createDu duAmount duBlockId members true =>
      ∀ pubkey ∈ members, s.amount? (.ud pubkey duBlockId) = some duAmount
  | .applyAndWriteTx txDoc =>
      ∀ input ∈ txDoc.inputs, s.amount? input.source.1 = some input.source.2

/-- The sources that a call creates are not recorded yet. -/
def CreatesNewSources (s : Ledger) : LedgerOp → Prop
  | .createDu _ duBlockId members false =>
      ∀ pubkey ∈ members, s.amount? (.ud pubkey duBlockId) = none
  | .createDu _ _ _ true => True
  | .applyAndWriteTx txDoc => ∀ utxo ∈ txDoc.created C, s.amount? (.utxo utxo.index) = none

/-- The amounts that a transaction consumes at an address. -/
def spentAt (s : Ledger) (txDoc : TransactionDocument) (address : UTXOConditionsGroup) :
    List SourceAmount :=
  (txDoc.inputSources.iter.filter
    (sourceAddress? s.dbs.utxosDb ·.1 = some address)).map Prod.snd

/-- No call loses a part of an amount.  At each address that is touched, the balance and the amounts
that are added to it or consumed fit one base, what is left after a consumption is no dust, and the
value that results is in the range of the machine integers. -/
def LossFree (s : Ledger) : LedgerOp → Prop
  | .createDu duAmount _ members revert =>
      ∀ pubkey ∈ members, SourceAmount.FitTogether [(s.dbs.balance (addressOf pubkey)).1, duAmount] ∧
        if revert then (s.dbs.balance (addressOf pubkey)).1.base ≤ duAmount.base
        else s.sourcesValue (addressOf pubkey) + duAmount.value < 2 ^ 63
  | .applyAndWriteTx txDoc =>
      let utxos := txDoc.created C
      ∀ address ∈ txDoc.inputSources.keys.filterMap (sourceAddress? s.dbs.utxosDb) ++
          utxos.map UTXOV10.getConditions,
        let balance := (s.dbs.balance address).1
        let spent := s.spentAt txDoc address
        SourceAmount.FitTogether (balance :: (spent ++ createdAt utxos address)) ∧
          s.sourcesValue address - SourceAmount.totalValue spent +
            SourceAmount.totalValue (createdAt utxos address) < 2 ^ 63 ∧
          (spent ≠ [] → KeepsRemainder balance (spent.foldl (· + ·) default))

/-- The calls after which the balances are asked to agree with the sources. -/
structure Allowed (s : Ledger) (op : LedgerOp) : Prop where
  available : s.InputsAvailable op
  new : s.CreatesNewSources C op
  lossFree : s.LossFree C op

instance (op : LedgerOp) (s : Ledger) : Decidable (s.InputsAvailable op) :=
  match op with
  | .createDu _ _ _ false => inferInstanceAs (Decidable True)
  | .createDu _ _ members true => inferInstanceAs (Decidable (∀ pubkey ∈ members, _))
  | .applyAndWriteTx txDoc => inferInstanceAs (Decidable (∀ input ∈ txDoc.inputs, _))

instance (op : LedgerOp) (s : Ledger) : Decidable (s.CreatesNewSources C op) :=
  match op with
  | .createDu _ _ members false => inferInstanceAs (Decidable (∀ pubkey ∈ members, _))
  | .createDu _ _ _ true => inferInstanceAs (Decidable True)
  | .applyAndWriteTx txDoc => inferInstanceAs (Decidable (∀ utxo ∈ txDoc.created C, _))

instance (balance spent : SourceAmount) : Decidable (KeepsRemainder balance spent) :=
  inferInstanceAs (Decidable (_ ∧ _))

instance (op : LedgerOp) (s : Ledger) : Decidable (s.LossFree C op) :=
  match op with
  | .createDu _ _ members _ => inferInstanceAs (Decidable (∀ pubkey ∈ members, _ ∧ ite _ _ _))
  | .applyAndWriteTx _ =>
      inferInstanceAs (Decidable (∀ address ∈ (_ : List UTXOConditionsGroup), _ ∧ _ ∧ (_ → _)))

instance (s : Ledger) (op : LedgerOp) : Decidable (s.Allowed C op) :=
  decidable_of_iff (s.InputsAvailable op ∧ s.CreatesNewSources C op ∧ s.LossFree C op)
    ⟨fun h => ⟨h.1, h.2.1, h.2.2⟩, fun h => ⟨h.available, h.new, h.lossFree⟩⟩

end Ledger

/-! ## The balances and the sources -/

/-- The balances agree with the recorded sources. -/
structure LedgerInv (s : Ledger) : Prop where
  /-- The amount of an entry is worth the sources of the address. -/
  amount : ∀ address balance utxos, s.dbs.balancesDb.get? address = some (balance, utxos) →
    balance.value = s.sourcesValue address
  /-- The set of an entry holds the unused outputs of the address. -/
  sources : ∀ address balance utxos, s.dbs.balancesDb.get? address = some (balance, utxos) →
    ∀ index, index ∈ utxos ↔ s.Owns address (.utxo index)
  /-- An address that owns a source has an entry. -/
  entries : ∀ address source, s.Owns address source →
    s.dbs.balancesDb.containsKey address = true
  /-- No unused output is in the entries of two addresses. -/
  separate : ∀ address balance utxos address' balance' utxos' index,
    s.dbs.balancesDb.get? address = some (balance, utxos) →
    s.dbs.balancesDb.get? address' = some (balance', utxos') →
    index ∈ utxos → index ∈ utxos' → address = address'

end Durs
