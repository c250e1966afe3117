/-
# Applying a block backwards

Reverts the content of a stored block in the web of trust and in its index, and collects the
requests for the databases.  The only caller turns each error of it into the stop of the process.
-/

import Durs.Blockchain.Apply

namespace Durs

open RustStd

/-- All the queries to apply in database to revert the block. -/
structure ValidBlockRevertReqs where
  blocksQuery : BlocksDBsWriteQuery
  wotQueries : List WotsDBsWriteQuery
  currencyQueries : List CurrencyDBsWriteQuery
deriving DecidableEq

/-- Find a stored transaction from what a stored block holds of it. -/
def storedTx (txDb : HashMap Hash DALTxV10) : TxDocOrTxHash → Run DALTxV10
  | .txHash txHash => expect (txDb.get? txHash) "revert_block(): tx \x7b\x7d not found !"
  | .txDoc _ => fatalError "Try to revert not reduce block !"

/-- `wot_index[&pubkey]`. -/
def WotMemory.index (memory : WotMemory) (pubkey : PubKey) : Run NodeId :=
  expect (memory.wotIndex.get? pubkey) "no entry found for key"

/-- Add the link of a certification that had expired. -/
def revertExpiry (s : ApplyState) (expireCert : (NodeId × NodeId) × BlockNumber) :
    Run ApplyState :=
  let ((source, target), createdBlockId) := expireCert
  match s.memory.wotDb.addLink source target with
  | (wotDb, .ok _) =>
      return {
        memory := { s.memory with wotDb }
        requests := s.requests ++ [.revertExpireCert source target createdBlockId] }
  | _ => fatalError "Fail to add_link \x7b\x7d->\x7b\x7d : \x7b:?\x7d"

/-- Remove the link of a certification. -/
def revertCertification (s : ApplyState) (certification : CompactCertificationDocument) :
    Run ApplyState := do
  let wotNodeFrom ← s.memory.index certification.issuer
  let wotNodeTo ← s.memory.index certification.target
  match s.memory.wotDb.remLink wotNodeFrom wotNodeTo with
  | (wotDb, .removed _) =>
      return {
        memory := { s.memory with wotDb }
        requests := s.requests ++ [.revertCert certification wotNodeFrom wotNodeTo] }
  | _ => fatalError "Fail to rem_link \x7b\x7d->\x7b\x7d : \x7b:?\x7d"

/-- Revert a revocation; the node stays disabled. -/
def revertRevocation (blockstamp : Blockstamp) (s : ApplyState)
    (revocation : CompactRevocationDocument) : Run ApplyState :=
  match s.memory.wotIndex.get? revocation.issuer with
  | some wotId =>
      return s.setEnabled wotId false (.revertRevokeIdentity revocation.issuer blockstamp true)
  | none => fatalError "revert block \x7b\x7d fail !"

/-- Revert an exclusion; the node stays disabled. -/
def revertExclusion (blockstamp : Blockstamp) (s : ApplyState) (exclusion : PubKey) :
    Run ApplyState :=
  match s.memory.wotIndex.get? exclusion with
  | some wotId => return s.setEnabled wotId false (.revertExcludeIdentity exclusion blockstamp)
  | none => fatalError "revert block \x7b\x7d fail !"

variable (C : Crypto) (block : BlockDocument)

/-- Revert the renewal of an active member; the node stays enabled. -/
def revertActive (s : ApplyState) (active : MembershipDocument) : Run ApplyState :=
  if block.newIdentities.containsKey active.issuer then return s
  else do
    let wotId ← s.memory.index active.issuer
    return s.setEnabled wotId true
      (.revertRenewalIdentity active.issuer wotId block.medianTime active.blockstamp.id)

/-- Revert a joiner: a newcomer loses the last node of the graph, a renewer stays enabled. -/
def revertJoiner (s : ApplyState) (joiner : MembershipDocument) : Run ApplyState :=
  if block.newIdentities.containsKey joiner.issuer then
    return {
      memory := { wotIndex := s.memory.wotIndex.remove joiner.issuer
                  wotDb := s.memory.wotDb.remNode }
      requests := s.requests ++ [.revertCreateIdentity joiner.issuer] }
  else do
    let wotId ← s.memory.index joiner.issuer
    return s.setEnabled wotId true
      (.revertRenewalIdentity joiner.issuer wotId block.medianTime joiner.blockstamp.id)

/-- Revert the part of a block that concerns the web of trust. -/
def revertWot (memory : WotMemory) (blockstamp : Blockstamp)
    (expireCerts : HashMap (NodeId × NodeId) BlockNumber) : Run ApplyState := do
  let s ← expireCerts.iter.foldlM revertExpiry ⟨memory, []⟩
  let s ← block.certifications.foldlM revertCertification s
  let s ← block.revoked.foldlM (revertRevocation blockstamp) s
  let s ← block.excluded.foldlM (revertExclusion blockstamp) s
  let s ← block.actives.foldlM (revertActive block) s
  block.joiners.reverse.foldlM (revertJoiner block) s

/-- Revert a block: the graph and its index before it, and the queries for the databases. -/
def revertBlock (dalBlock : DALBlock) (memory : WotMemory) (txDb : HashMap Hash DALTxV10) :
    Run (WotMemory × ValidBlockRevertReqs) := do
  let expireCerts ← expect dalBlock.expireCerts
    "Try to get expire_certs of an uncompleted block !"
  let dalTxs ← dalBlock.block.transactions.mapM (storedTx txDb)
  let block ← dalBlock.block.computeInnerHash C
  let blockstamp ← block.blockstamp
  let uds := match block.duAmount with
    | some duAmount => [.revertUd duAmount block.number memory.members]
    | none => []
  let s ← revertWot block memory blockstamp expireCerts
  return (s.memory, {
    blocksQuery := .revertBlock dalBlock
    wotQueries := s.requests
    currencyQueries := dalTxs.reverse.map .revertTx ++ uds })

end Durs
