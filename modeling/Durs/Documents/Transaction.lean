/-
# Transaction documents

Amounts, conditions, inputs and outputs, and the document with its hash.  A stored transaction is
reduced: its text and its hash are dropped.
-/

import Durs.Documents.Blockstamp
import Durs.Run

namespace Durs

/-- `TxAmount`, an `isize` in the source. -/
abbrev TxAmount := Int

/-- `TxBase`: the power of ten of an amount. -/
abbrev TxBase := Nat

/-- `TxIndex`: the position of an output in its transaction. -/
abbrev TxIndex := Nat

/-- A transaction input. -/
inductive TransactionInput
  /-- Universal dividend input. -/
  | D (amount : TxAmount) (base : TxBase) (pubkey : PubKey) (blockNumber : BlockNumber)
  /-- Previous transaction input. -/
  | T (amount : TxAmount) (base : TxBase) (txHash : Hash) (txIndex : TxIndex)
deriving DecidableEq, Repr

/-- A transaction unlock proof. -/
inductive TransactionUnlockProof
  | sig (index : Nat)
  | xhx (code : String)
deriving DecidableEq, Repr

/-- The proofs that unlock one input. -/
structure TransactionInputUnlocks where
  index : Nat
  unlocks : List TransactionUnlockProof
deriving DecidableEq, Repr

/-- A transaction output condition. -/
inductive TransactionOutputCondition
  | sig (pubkey : PubKey)
  | xhx (hash : Hash)
  | cltv (timestamp : Nat)
  | csv (duration : Nat)
deriving DecidableEq, Repr

/-- A transaction output condition group, which is also the address of a balance. -/
inductive UTXOConditionsGroup
  | single (condition : TransactionOutputCondition)
  | brackets (group : UTXOConditionsGroup)
  | and (left right : UTXOConditionsGroup)
  | or (left right : UTXOConditionsGroup)
deriving DecidableEq, Repr

/-- The conditions of an output, with their original text when it is kept. -/
structure UTXOConditions where
  originStr : Option String
  conditions : UTXOConditionsGroup
deriving DecidableEq, Repr

/-- A transaction output. -/
structure TransactionOutput where
  amount : TxAmount
  base : TxBase
  conditions : UTXOConditions
deriving DecidableEq, Repr

/-- A transaction document. -/
structure TransactionDocument where
  text : Option String
  currency : String
  blockstamp : Blockstamp
  locktime : Nat
  issuers : List PubKey
  inputs : List TransactionInput
  unlocks : List TransactionInputUnlocks
  outputs : List TransactionOutput
  comment : String
  signatures : List Sig
  hash : Option Hash
deriving DecidableEq, Repr

/-- The primitives that transactions take from the cryptographic library: the printed form of a
public key, and the hash of a text followed by one line for each signature. -/
structure TxCrypto where
  base58 : PubKey → String
  txHash : String → List Sig → Hash

variable (C : TxCrypto)

/-- The printed form of an output condition. -/
def TransactionOutputCondition.toText : TransactionOutputCondition → String
  | .sig pubkey => "SIG(" ++ C.base58 pubkey ++ ")"
  | .xhx hash => "XHX(" ++ hash.toHex ++ ")"
  | .cltv timestamp => "CLTV(" ++ toString timestamp ++ ")"
  | .csv duration => "CSV(" ++ toString duration ++ ")"

/-- The printed form of a condition group. -/
def UTXOConditionsGroup.toText : UTXOConditionsGroup → String
  | .single condition => condition.toText C
  | .brackets group => "(" ++ group.toText ++ ")"
  | .and left right => left.toText ++ " && " ++ right.toText
  | .or left right => left.toText ++ " || " ++ right.toText

/-- Drop the original text when it is the printed form of the conditions. -/
def UTXOConditions.reduce (c : UTXOConditions) : UTXOConditions :=
  if c.originStr.isSome ∧ c.originStr = some (c.conditions.toText C) then
    { c with originStr := none }
  else c

/-- `TransactionOutput::reduce`. -/
def TransactionOutput.reduce (output : TransactionOutput) : TransactionOutput :=
  { output with conditions := output.conditions.reduce C }

namespace TransactionDocument

/-- Compute the transaction hash: stored in the document and returned. -/
def computeHash (tx : TransactionDocument) : Run (TransactionDocument × Hash) := do
  let text ← expect tx.text "Try to compute_hash of tx with None text !"
  let hash := C.txHash text tx.signatures
  return ({ tx with hash := some hash }, hash)

/-- Get the transaction hash, computing it when the document does not hold it. -/
def getHash (tx : TransactionDocument) : Run (TransactionDocument × Hash) :=
  match tx.hash with
  | some hash => return (tx, hash)
  | none => tx.computeHash C

/-- Lighten the transaction. -/
def reduce (tx : TransactionDocument) : TransactionDocument :=
  { tx with text := none, hash := none, outputs := tx.outputs.map (·.reduce C) }

end TransactionDocument

/-- A transaction document or just its hash. -/
inductive TxDocOrTxHash
  | txDoc (doc : TransactionDocument)
  | txHash (hash : Hash)
deriving DecidableEq, Repr

namespace TxDocOrTxHash

/-- Replace the document by its hash. -/
def reduce : TxDocOrTxHash → Run TxDocOrTxHash
  | .txDoc doc =>
      match doc.hash with
      | some hash => return .txHash hash
      | none => do
          let (_, hash) ← doc.computeHash C
          return .txHash hash
  | .txHash hash => return .txHash hash

/-- Get the document. -/
def unwrapDoc : TxDocOrTxHash → Run TransactionDocument
  | .txDoc doc => return doc
  | .txHash _ => fatalError "Try to unwrap_doc() in a TxHash() variant of TxDocOrTxHash !"

/-- Whether the document is there. -/
def IsDoc : TxDocOrTxHash → Prop
  | .txDoc _ => True
  | .txHash _ => False

instance (tx : TxDocOrTxHash) : Decidable tx.IsDoc :=
  match tx with
  | .txDoc _ => isTrue trivial
  | .txHash _ => isFalse id

end TxDocOrTxHash

end Durs
