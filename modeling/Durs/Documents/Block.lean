/-
# Block documents

The document of a block, the content its inner hash covers, and the reduction applied before a
block is stored.
-/

import Durs.Documents.Transaction

namespace Durs

/-- `CurrencyName`. -/
abbrev CurrencyName := String

/-- A 64-bit floating point number, of which only the bits are kept. -/
abbrev F64 := BitVec 64

/-- Currency parameters, in the genesis block only. -/
structure BlockV10Parameters where
  c : F64
  dt : Nat
  ud0 : Nat
  sigPeriod : Nat
  sigStock : Nat
  sigWindow : Nat
  sigValidity : Nat
  sigQty : Nat
  idtyWindow : Nat
  msWindow : Nat
  xPercent : F64
  msValidity : Nat
  stepMax : Nat
  medianTimeBlocks : Nat
  avgGenTime : Nat
  dtDiffEval : Nat
  percentRot : F64
  udTime0 : Nat
  udReevalTime0 : Nat
  dtReeval : Nat
deriving DecidableEq, Repr

/-- An identity document.  Every constructor gives it one issuer, and the block parser one
signature. -/
structure IdentityDocument where
  text : Option String
  currency : String
  username : String
  blockstamp : Blockstamp
  issuer : PubKey
  signature : Sig
deriving DecidableEq, Repr

/-- Lighten the identity. -/
def IdentityDocument.reduce (idty : IdentityDocument) : IdentityDocument :=
  { idty with text := none }

/-- `MembershipType`. -/
inductive MembershipType
  | in
  | out
deriving DecidableEq, Repr

/-- A membership document, with one issuer and one signature. -/
structure MembershipDocument where
  text : Option String
  currency : String
  issuer : PubKey
  blockstamp : Blockstamp
  membership : MembershipType
  identityUsername : String
  identityBlockstamp : Blockstamp
  signature : Sig
deriving DecidableEq, Repr

/-- Lighten the membership. -/
def MembershipDocument.reduce (ms : MembershipDocument) : MembershipDocument :=
  { ms with text := none }

/-- A revocation, which blocks only use in its compact form. -/
structure CompactRevocationDocument where
  issuer : PubKey
  signature : Sig
deriving DecidableEq, Repr

/-- A certification, which blocks only use in its compact form. -/
structure CompactCertificationDocument where
  issuer : PubKey
  target : PubKey
  blockNumber : BlockNumber
  signature : Sig
deriving DecidableEq, Repr

/-- A block document. -/
structure BlockDocument where
  version : Nat
  nonce : Nat
  number : BlockNumber
  powMin : Nat
  time : Nat
  medianTime : Nat
  membersCount : Nat
  monetaryMass : Nat
  unitBase : Nat
  issuersCount : Nat
  issuersFrame : Int
  issuersFrameVar : Int
  currency : CurrencyName
  issuers : List PubKey
  signatures : List Sig
  hash : Option BlockHash
  parameters : Option BlockV10Parameters
  previousHash : Hash
  previousIssuer : Option PubKey
  innerHash : Option Hash
  dividend : Option Nat
  identities : List IdentityDocument
  joiners : List MembershipDocument
  actives : List MembershipDocument
  leavers : List MembershipDocument
  revoked : List CompactRevocationDocument
  excluded : List PubKey
  certifications : List CompactCertificationDocument
  transactions : List TxDocOrTxHash
  innerHashAndNonceStr : String
deriving DecidableEq, Repr

/-- The line of an identity in the text of a block. -/
structure IdentityLine where
  issuer : PubKey
  signature : Sig
  blockstamp : Blockstamp
  username : String
deriving DecidableEq, Repr

/-- The line of a membership in the text of a block. -/
structure MembershipLine where
  issuer : PubKey
  signature : Sig
  blockstamp : Blockstamp
  identityBlockstamp : Blockstamp
  username : String
deriving DecidableEq, Repr

/-- The lines of a transaction in the text of a block; the counts that the first line holds are
the lengths of the lists. -/
structure TransactionLines where
  locktime : Nat
  blockstamp : Blockstamp
  issuers : List PubKey
  inputs : List TransactionInput
  unlocks : List TransactionInputUnlocks
  outputs : List TransactionOutput
  comment : String
  signatures : List Sig
deriving DecidableEq, Repr

/-- `generate_compact_text` of an identity. -/
def IdentityDocument.line (idty : IdentityDocument) : IdentityLine :=
  { issuer := idty.issuer, signature := idty.signature, blockstamp := idty.blockstamp,
    username := idty.username }

/-- `generate_compact_text` of a membership. -/
def MembershipDocument.line (ms : MembershipDocument) : MembershipLine :=
  { issuer := ms.issuer, signature := ms.signature, blockstamp := ms.blockstamp,
    identityBlockstamp := ms.identityBlockstamp, username := ms.identityUsername }

/-- `generate_compact_text` of a transaction. -/
def TransactionDocument.lines (tx : TransactionDocument) : TransactionLines :=
  { locktime := tx.locktime, blockstamp := tx.blockstamp, issuers := tx.issuers,
    inputs := tx.inputs, unlocks := tx.unlocks, outputs := tx.outputs, comment := tx.comment,
    signatures := tx.signatures }

/-- The fields printed in the inner text of a block, in the order they are printed.  The text is
determined by them. -/
structure InnerText where
  version : Nat
  currency : CurrencyName
  number : BlockNumber
  powMin : Nat
  time : Nat
  medianTime : Nat
  dividend : Option Nat
  unitBase : Nat
  issuer : PubKey
  issuersFrame : Int
  issuersFrameVar : Int
  issuersCount : Nat
  parameters : Option BlockV10Parameters
  previous : Option (Hash × PubKey)
  membersCount : Nat
  identities : List IdentityLine
  joiners : List MembershipLine
  actives : List MembershipLine
  leavers : List MembershipLine
  revoked : List CompactRevocationDocument
  excluded : List PubKey
  certifications : List CompactCertificationDocument
  transactions : List TransactionLines
deriving DecidableEq, Repr

/-- An empty block, of which only the blockstamp, the time and the previous hash matter. -/
def genEmptyTimedBlock (blockstamp : Blockstamp) (time : Nat) (previousHash : Hash) :
    BlockDocument :=
  { version := 10
    nonce := 0
    number := blockstamp.id
    powMin := 0
    time := 0
    medianTime := time
    membersCount := 0
    monetaryMass := 0
    unitBase := 0
    issuersCount := 0
    issuersFrame := 0
    issuersFrameVar := 0
    currency := ""
    issuers := []
    signatures := []
    hash := some blockstamp.hash
    parameters := none
    previousHash
    previousIssuer := none
    dividend := none
    identities := []
    joiners := []
    actives := []
    leavers := []
    revoked := []
    excluded := []
    certifications := []
    transactions := []
    innerHash := none
    innerHashAndNonceStr := "" }

/-- The primitives that blocks take from the cryptographic library: the hash of the inner text, and
the hash of the text made of an inner hash, a nonce and a signature. -/
structure Crypto extends TxCrypto where
  hashInnerText : InnerText → Hash
  hashSignedText : Hash → Nat → Sig → Hash

variable (C : Crypto)

namespace BlockDocument

/-- The unique identifier of the block. -/
def blockstamp (block : BlockDocument) : Run Blockstamp := do
  let hash ← expect block.hash
    "Fatal error : try to get blockstamp of an uncomplete or reduce block !"
  return { id := block.number, hash }

theorem blockstamp_eq_ok_iff {block : BlockDocument} {blockstamp : Blockstamp} :
    block.blockstamp = .ok blockstamp ↔
      block.number = blockstamp.id ∧ block.hash = some blockstamp.hash := by
  simp only [BlockDocument.blockstamp, RustStd.bind_eq_ok_iff, expect_eq_ok_iff,
    RustStd.pure_eq_ok_iff]
  constructor
  · rintro ⟨hash, hhash, rfl⟩
    exact ⟨rfl, hhash⟩
  · rintro ⟨hnumber, hhash⟩
    exact ⟨blockstamp.hash, hhash, by rw [hnumber]⟩

/-- Generate the inner text; the transactions that are only hashes are not printed. -/
def generateCompactInnerText (block : BlockDocument) : Run InnerText := do
  let previous ←
    if block.number > 0 then do
      let issuer ← expect block.previousIssuer "No genesis block must have previous issuer"
      pure (some (block.previousHash, issuer))
    else pure none
  let issuer ← expect block.issuers.head? "index out of bounds"
  return {
    version := block.version
    currency := block.currency
    number := block.number
    powMin := block.powMin
    time := block.time
    medianTime := block.medianTime
    dividend := block.dividend.filter (· > 0)
    unitBase := block.unitBase
    issuer
    issuersFrame := block.issuersFrame
    issuersFrameVar := block.issuersFrameVar
    issuersCount := block.issuersCount
    parameters := block.parameters
    previous
    membersCount := block.membersCount
    identities := block.identities.map IdentityDocument.line
    joiners := block.joiners.map MembershipDocument.line
    actives := block.actives.map MembershipDocument.line
    leavers := block.leavers.map MembershipDocument.line
    revoked := block.revoked
    excluded := block.excluded
    certifications := block.certifications
    transactions := block.transactions.filterMap fun
      | .txDoc doc => some doc.lines
      | .txHash _ => none }

/-- Compute the inner hash. -/
def computeInnerHash (block : BlockDocument) : Run BlockDocument := do
  let text ← block.generateCompactInnerText
  return { block with innerHash := some (C.hashInnerText text) }

/-- Check the inner hash. -/
def verifyInnerHash (block : BlockDocument) : Run Bool :=
  match block.innerHash with
  | some innerHash => do
      let text ← block.generateCompactInnerText
      return innerHash = C.hashInnerText text
  | none => return false

/-- Check the block hash. -/
def verifyHash (block : BlockDocument) : Run Bool :=
  match block.hash with
  | some hash => do
      let innerHash ← expect block.innerHash
        "Try to get inner_hash of an uncompleted or reduce block !"
      let signature ← expect block.signatures.head? "index out of bounds"
      return hash = C.hashSignedText innerHash block.nonce signature
  | none => return false

/-- Lighten the block.  The transactions are visited too, but their reduced form is dropped, so
the visit only shows when it aborts. -/
def reduce (block : BlockDocument) : Run BlockDocument := do
  let _ ← block.transactions.mapM (TxDocOrTxHash.reduce C.toTxCrypto)
  return { block with
    innerHash := none
    innerHashAndNonceStr := ""
    identities := block.identities.map IdentityDocument.reduce
    joiners := block.joiners.map MembershipDocument.reduce
    actives := block.actives.map MembershipDocument.reduce
    leavers := block.leavers.map MembershipDocument.reduce }

end BlockDocument

end Durs
