/-
# Database write requests

What applying or reverting a block asks of the databases, as requests that are applied one after
the other.
-/

import Durs.Dal.Writers.Block
import Durs.Dal.Writers.Certification
import Durs.Dal.Writers.Identity
import Durs.Dal.Writers.Transaction

namespace Durs

open RustStd

/-- A pending write request for the blocks databases. -/
inductive BlocksDBsWriteQuery
  | writeBlock (dalBlock : DALBlock)
  | revertBlock (dalBlock : DALBlock)
deriving DecidableEq

namespace BlocksDBsWriteQuery

/-- Get copy of block document. -/
def getBlockDocCopy : BlocksDBsWriteQuery → BlockDocument
  | .writeBlock dalBlock => dalBlock.block
  | .revertBlock dalBlock => dalBlock.block

/-- Apply the request.  A synchronisation keeps the blocks far below its target out of the fork
tree. -/
def apply (blocks : BlocksV10DBs) (forks : ForksDBs) (syncTarget : Option Blockstamp) :
    BlocksDBsWriteQuery → Run (BlocksV10DBs × ForksDBs)
  | .writeBlock dalBlock => do
      let near ← match syncTarget with
        | none => pure true
        | some target => do
            let blockstamp ← dalBlock.blockstamp
            pure (decide (addU32 blockstamp.id forkWindowSize ≥ target.id))
      if near then insertNewHeadBlock blocks forks dalBlock
      else return ({ blocks with
        blockchainDb := blocks.blockchainDb.insert dalBlock.block.number dalBlock }, forks)
  | .revertBlock dalBlock =>
      return ({ blocks with
        blockchainDb := blocks.blockchainDb.remove dalBlock.block.number }, forks)

end BlocksDBsWriteQuery

/-- A pending write request for the wots databases. -/
inductive WotsDBsWriteQuery
  | createIdentity (wotId : NodeId) (blockstamp : Blockstamp) (currentBcTime : Nat)
      (idtyDoc : IdentityDocument) (msCreatedBlockId : BlockNumber)
  | revertCreateIdentity (pubkey : PubKey)
  | renewalIdentity (pubkey : PubKey) (idtyWotId : NodeId) (currentBcTime : Nat)
      (msCreatedBlockId : BlockNumber)
  | revertRenewalIdentity (pubkey : PubKey) (idtyWotId : NodeId) (currentBcTime : Nat)
      (msCreatedBlockId : BlockNumber)
  | excludeIdentity (pubkey : PubKey) (blockstamp : Blockstamp)
  | revertExcludeIdentity (pubkey : PubKey) (blockstamp : Blockstamp)
  | revokeIdentity (pubkey : PubKey) (blockstamp : Blockstamp) (explicit : Bool)
  | revertRevokeIdentity (pubkey : PubKey) (blockstamp : Blockstamp) (explicit : Bool)
  | createCert (sourcePubkey : PubKey) (source target : NodeId) (createdBlockId : BlockNumber)
      (medianTime : Nat)
  | revertCert (compactDoc : CompactCertificationDocument) (source target : NodeId)
  | expireCerts (createdBlockId : BlockNumber)
  | revertExpireCert (source target : NodeId) (createdBlockId : BlockNumber)
deriving DecidableEq

/-- Apply a request for the wots databases. -/
def WotsDBsWriteQuery.apply (params : CurrencyParameters) (dbs : WotsV10DBs) :
    WotsDBsWriteQuery → Run WotsV10DBs
  | .createIdentity wotId blockstamp currentBcTime idtyDoc msCreatedBlockId =>
      return Durs.createIdentity params dbs idtyDoc msCreatedBlockId wotId blockstamp currentBcTime
  | .revertCreateIdentity pubkey => Durs.revertCreateIdentity dbs pubkey
  | .renewalIdentity pubkey idtyWotId currentBcTime msCreatedBlockId =>
      Durs.renewalIdentity params dbs pubkey idtyWotId currentBcTime msCreatedBlockId false
  | .revertRenewalIdentity pubkey idtyWotId currentBcTime msCreatedBlockId =>
      Durs.renewalIdentity params dbs pubkey idtyWotId currentBcTime msCreatedBlockId true
  | .excludeIdentity pubkey blockstamp => Durs.excludeIdentity dbs pubkey blockstamp false
  | .revertExcludeIdentity pubkey blockstamp => Durs.excludeIdentity dbs pubkey blockstamp true
  | .revokeIdentity pubkey blockstamp explicit =>
      Durs.revokeIdentity dbs pubkey blockstamp explicit false
  | .revertRevokeIdentity pubkey blockstamp explicit =>
      Durs.revokeIdentity dbs pubkey blockstamp explicit true
  | .createCert sourcePubkey source target createdBlockId medianTime =>
      writeCertification params dbs sourcePubkey source target createdBlockId medianTime
  | .revertCert compactDoc source target => return revertWriteCert dbs compactDoc source target
  | .expireCerts createdBlockId => return Durs.expireCerts dbs createdBlockId
  | .revertExpireCert source target createdBlockId =>
      return Durs.revertExpireCert dbs source target createdBlockId

/-- A pending write request for the currency databases. -/
inductive CurrencyDBsWriteQuery
  | writeTx (txDoc : TransactionDocument)
  | revertTx (dalTx : DALTxV10)
  | createUd (duAmount : SourceAmount) (blockId : BlockNumber) (members : List PubKey)
  | revertUd (duAmount : SourceAmount) (blockId : BlockNumber) (members : List PubKey)
deriving DecidableEq

/-- Apply a request for the currency databases. -/
def CurrencyDBsWriteQuery.apply (C : TxCrypto) (dbs : CurrencyV10DBs) :
    CurrencyDBsWriteQuery → Run CurrencyV10DBs
  | .writeTx txDoc => applyAndWriteTx C dbs txDoc
  | .revertTx dalTx => Durs.revertTx C dbs dalTx
  | .createUd duAmount blockId members => return createDu dbs duAmount blockId members false
  | .revertUd duAmount blockId members => return createDu dbs duAmount blockId members true

end Durs
