/-
# Entities of the databases

What the databases of the blockchain module store: blocks, identities, sources and transactions.
-/

import Durs.Documents.Block
import Durs.Wot.Rusty

namespace Durs

open RustStd

/-- A block as it is saved in a database. -/
structure DALBlock where
  block : BlockDocument
  /-- The certifications that expire in this block, with their emission block. -/
  expireCerts : Option (HashMap (NodeId × NodeId) BlockNumber)
deriving DecidableEq

namespace DALBlock

/-- Get the blockstamp. -/
def blockstamp (dalBlock : DALBlock) : Run Blockstamp := dalBlock.block.blockstamp

/-- Get the previous blockstamp; for a genesis block the number wraps. -/
def previousBlockstamp (dalBlock : DALBlock) : Blockstamp :=
  { id := previousBlockNumber dalBlock.block.number, hash := dalBlock.block.previousHash }

end DALBlock

/-- Identity state, with the renewal counts of each period of membership. -/
inductive DALIdentityState
  | member (renewedCounts : List Nat)
  | expireMember (renewedCounts : List Nat)
  | explicitRevoked (renewedCounts : List Nat)
  | explicitExpireRevoked (renewedCounts : List Nat)
  | implicitRevoked (renewedCounts : List Nat)
deriving DecidableEq, Repr

/-- An identity in its database. -/
structure DALIdentity where
  hash : String
  state : DALIdentityState
  joinedOn : Blockstamp
  expiredOn : Option Blockstamp
  revokedOn : Option Blockstamp
  idtyDoc : IdentityDocument
  wotId : NodeId
  msCreatedBlockId : BlockNumber
  msChainableOn : List Nat
  certChainableOn : List Nat
deriving DecidableEq

/-- `CurrencyParameters`, the fields that the writers and the synchronisation read. -/
structure CurrencyParameters where
  sigPeriod : Nat
  sigValidity : Nat
  msPeriod : Nat
deriving DecidableEq, Repr

namespace CurrencyParameters

/-- The minimum time between two memberships of the same issuer. -/
def msPeriodOf (currency : CurrencyName) : Nat :=
  if currency = "g1-test" then 1051920 else 5259600

/-- The currency parameters that a genesis block gives. -/
def ofGenesis (currency : CurrencyName) (params : BlockV10Parameters) : CurrencyParameters :=
  { sigPeriod := params.sigPeriod
    sigValidity := params.sigValidity
    msPeriod := msPeriodOf currency }

/-- `CurrencyParameters::default()`: those of a node that has no genesis block. -/
instance : Inhabited CurrencyParameters :=
  ⟨{ sigPeriod := 432000, sigValidity := 63115200, msPeriod := 5259600 }⟩

end CurrencyParameters

/-- Source amount: an amount and its power of ten. -/
structure SourceAmount where
  amount : TxAmount
  base : TxBase
deriving DecidableEq, Repr

namespace SourceAmount

instance : Inhabited SourceAmount :=
  ⟨⟨0, 0⟩⟩

/-- The result of an addition or a subtraction of `isize`, which wraps in the release profile. -/
def wrap (amount : Int) : TxAmount := amount.bmod (2 ^ 64)

/-- Divide an amount by ten a number of times, towards zero. -/
def divideByTen : Nat → TxAmount → TxAmount
  | 0, amount => amount
  | times + 1, amount => divideByTen times (amount.tdiv 10)

/-- The loop of the two operations: divide by ten as long as the base is below the other one. -/
def raiseBase (s : SourceAmount) (base : TxBase) : SourceAmount :=
  { amount := divideByTen (base - s.base) s.amount, base := max s.base base }

/-- Both amounts, the one of the smaller base first and raised to the base of the other. -/
def align (s s' : SourceAmount) : SourceAmount × SourceAmount :=
  if s.base > s'.base then (s'.raiseBase s.base, s) else (s.raiseBase s'.base, s')

instance : Add SourceAmount where
  add s s' := let (sMin, sMax) := s.align s'; ⟨wrap (sMin.amount + sMax.amount), sMax.base⟩

/-- Subtraction takes the amount of the larger base from the other one, whichever was on the
left. -/
instance : Sub SourceAmount where
  sub s s' := let (sMin, sMax) := s.align s'; ⟨wrap (sMin.amount - sMax.amount), sMax.base⟩

/-- The derived `>=`: amounts are compared first, then bases. -/
def ge (s s' : SourceAmount) : Bool :=
  s.amount > s'.amount || (s.amount = s'.amount && s.base ≥ s'.base)

/-- The derived comparison behind the operators, which compares the fields in their order. -/
def partialCmp (s s' : SourceAmount) : Ordering :=
  (compare s.amount s'.amount).then (compare s.base s'.base)

/-- The comparison of `Ord`, which is written by hand. -/
def cmp (s s' : SourceAmount) : Ordering :=
  if s.base = s'.base then compare s.amount s'.amount else compare s.base s'.base

end SourceAmount

/-- Index of an output: the hash of its transaction and its position there. -/
structure UTXOIndexV10 where
  txHash : Hash
  txIndex : TxIndex
deriving DecidableEq, Repr

/-- An unused transaction output with its index. -/
structure UTXOV10 where
  index : UTXOIndexV10
  content : TransactionOutput
deriving DecidableEq, Repr

namespace UTXOV10

/-- UTXO conditions. -/
def getConditions (utxo : UTXOV10) : UTXOConditionsGroup := utxo.content.conditions.conditions

/-- UTXO amount. -/
def getAmount (utxo : UTXOV10) : SourceAmount := ⟨utxo.content.amount, utxo.content.base⟩

end UTXOV10

/-- Index of a source. -/
inductive SourceIndexV10
  | utxo (index : UTXOIndexV10)
  | ud (pubkey : PubKey) (blockNumber : BlockNumber)
deriving DecidableEq, Repr

/-- A transaction in its database, with the sources the dust rule destroyed. -/
structure DALTxV10 where
  txDoc : TransactionDocument
  sourcesDestroyed : HashSet UTXOIndexV10
deriving DecidableEq

end Durs
