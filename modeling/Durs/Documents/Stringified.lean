/-
# Stringified documents

The documents of a block with each of their fields printed, which is the form that the serializers
of the network modules start from.
-/

import Durs.Documents.CompactTexts

namespace Durs

open RustStd

/-! ## Documents of a block -/

/-- An identity with its fields printed. -/
structure IdentityStringDocument where
  currency : String
  username : String
  blockstamp : String
  issuer : String
  signature : String
deriving DecidableEq, Repr

/-- A membership with its fields printed. -/
structure MembershipStringDocument where
  currency : String
  issuer : String
  blockstamp : String
  membership : String
  username : String
  identityBlockstamp : String
  signature : String
deriving DecidableEq, Repr

/-- A compact revocation with its fields printed. -/
structure CompactRevocationStringDocument where
  issuer : String
  signature : String
deriving DecidableEq, Repr

/-- A compact certification with its fields printed, but for the block number. -/
structure CompactCertificationStringDocument where
  issuer : String
  target : String
  blockNumber : Nat
  signature : String
deriving DecidableEq, Repr

/-- A transaction with its fields printed, but for the locktime. -/
structure TransactionDocumentStringified where
  currency : String
  blockstamp : String
  locktime : Nat
  issuers : List String
  inputs : List String
  unlocks : List String
  outputs : List String
  comment : String
  signatures : List String
  hash : Option String
deriving DecidableEq, Repr

variable (C : DocCrypto)

/-- `to_string_object` of an identity. -/
def IdentityDocument.toStringObject (doc : IdentityDocument) : IdentityStringDocument where
  currency := doc.currency
  username := doc.username
  blockstamp := doc.blockstamp.toText
  issuer := C.base58 doc.issuer
  signature := C.base64 doc.signature

/-- `to_string_object` of a membership. -/
def MembershipDocument.toStringObject (doc : MembershipDocument) : MembershipStringDocument where
  currency := doc.currency
  issuer := C.base58 doc.issuer
  blockstamp := doc.blockstamp.toText
  membership := doc.membership.toText
  username := doc.identityUsername
  identityBlockstamp := doc.identityBlockstamp.toText
  signature := C.base64 doc.signature

/-- `to_string_object` of a compact revocation. -/
def CompactRevocationDocument.toStringObject (doc : CompactRevocationDocument) :
    CompactRevocationStringDocument where
  issuer := C.base58 doc.issuer
  signature := C.base64 doc.signature

/-- `to_string_object` of a compact certification. -/
def CompactCertificationDocument.toStringObject (doc : CompactCertificationDocument) :
    CompactCertificationStringDocument where
  issuer := C.base58 doc.issuer
  target := C.base58 doc.target
  blockNumber := doc.blockNumber
  signature := C.base64 doc.signature

/-- `to_string_object` of a transaction. -/
def TransactionDocument.toStringObject (doc : TransactionDocument) :
    TransactionDocumentStringified where
  currency := doc.currency
  blockstamp := doc.blockstamp.toText
  locktime := doc.locktime
  issuers := doc.issuers.map C.base58
  inputs := doc.inputs.map (TransactionInput.toText C)
  unlocks := doc.unlocks.map TransactionInputUnlocks.toText
  outputs := doc.outputs.map (TransactionOutput.toText C)
  comment := doc.comment
  signatures := doc.signatures.map C.base64
  hash := doc.hash.map Hash.toHex

/-- The transaction of a block as a document: a mere hash stops the process. -/
def TxDocOrTxHash.toStringObject : TxDocOrTxHash → Run TransactionDocumentStringified
  | .txDoc doc => return doc.toStringObject C
  | .txHash _ => fatalError "Try to stringify block without their tx documents"

/-! ## Currency parameters -/

/-- The printed parameters, in the order in which they are printed. -/
def BlockV10Parameters.texts (printF64 : F64 → String) (params : BlockV10Parameters) :
    List String :=
  [printF64 params.c, toString params.dt, toString params.ud0, toString params.sigPeriod,
    toString params.sigStock, toString params.sigWindow, toString params.sigValidity,
    toString params.sigQty, toString params.idtyWindow, toString params.msWindow,
    printF64 params.xPercent, toString params.msValidity, toString params.stepMax,
    toString params.medianTimeBlocks, toString params.avgGenTime, toString params.dtDiffEval,
    printF64 params.percentRot, toString params.udTime0, toString params.udReevalTime0,
    toString params.dtReeval]

/-- `to_string` of the parameters. -/
def BlockV10Parameters.toText (printF64 : F64 → String) (params : BlockV10Parameters) : String :=
  ":".intercalate (params.texts printF64)

/-! ## Blocks -/

/-- A block with its fields printed, but for the numbers. -/
structure BlockDocumentStringified where
  version : Nat
  nonce : Nat
  number : Nat
  powMin : Nat
  time : Nat
  medianTime : Nat
  membersCount : Nat
  monetaryMass : Nat
  unitBase : Nat
  issuersCount : Nat
  issuersFrame : Int
  issuersFrameVar : Int
  currency : String
  issuers : List String
  signatures : List String
  hash : Option String
  parameters : Option String
  previousHash : String
  previousIssuer : Option String
  innerHash : Option String
  dividend : Option Nat
  identities : List IdentityStringDocument
  joiners : List MembershipStringDocument
  actives : List MembershipStringDocument
  leavers : List MembershipStringDocument
  revoked : List CompactRevocationStringDocument
  excluded : List String
  certifications : List CompactCertificationStringDocument
  transactions : List TransactionDocumentStringified
deriving DecidableEq, Repr

/-- The block with its fields printed, and its transactions. -/
def BlockDocument.stringified (printF64 : F64 → String) (block : BlockDocument)
    (transactions : List TransactionDocumentStringified) : BlockDocumentStringified where
  version := block.version
  nonce := block.nonce
  number := block.number
  powMin := block.powMin
  time := block.time
  medianTime := block.medianTime
  membersCount := block.membersCount
  monetaryMass := block.monetaryMass
  unitBase := block.unitBase
  issuersCount := block.issuersCount
  issuersFrame := block.issuersFrame
  issuersFrameVar := block.issuersFrameVar
  currency := block.currency
  issuers := block.issuers.map C.base58
  signatures := block.signatures.map C.base64
  hash := block.hash.map Hash.toHex
  parameters := block.parameters.map (BlockV10Parameters.toText printF64)
  previousHash := block.previousHash.toHex
  previousIssuer := block.previousIssuer.map C.base58
  innerHash := block.innerHash.map Hash.toHex
  dividend := block.dividend
  identities := block.identities.map (IdentityDocument.toStringObject C)
  joiners := block.joiners.map (MembershipDocument.toStringObject C)
  actives := block.actives.map (MembershipDocument.toStringObject C)
  leavers := block.leavers.map (MembershipDocument.toStringObject C)
  revoked := block.revoked.map (CompactRevocationDocument.toStringObject C)
  excluded := block.excluded.map C.base58
  certifications := block.certifications.map (CompactCertificationDocument.toStringObject C)
  transactions

/-- `to_string_object` of a block. -/
def BlockDocument.toStringObject (printF64 : F64 → String) (block : BlockDocument) :
    Run BlockDocumentStringified := do
  let transactions ← block.transactions.mapM (TxDocOrTxHash.toStringObject C)
  return block.stringified C printF64 transactions

end Durs
