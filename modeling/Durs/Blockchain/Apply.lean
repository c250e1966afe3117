/-
# Applying a valid block

Applies the content of a block to the web of trust and to its index, and collects the requests for
the databases.  The graph and the index change at once, so a block that is refused half-way leaves
its first changes behind.
-/

import Durs.Blockchain.Check
import Durs.Dal.Writers.Requests

namespace Durs

open RustStd

/-- The graph and its index, which are changed in memory. -/
structure WotMemory where
  wotIndex : HashMap PubKey NodeId
  wotDb : WebOfTrust
deriving DecidableEq

/-- How the application of a block ends without its requests. -/
inductive ApplyEnd
  /-- The process stops. -/
  | abort (reason : Abort)
  /-- The block is refused; the graph and its index stay as they are at that moment. -/
  | refused (error : ApplyValidBlockError) (memory : WotMemory)

/-- A computation that applies a part of a block. -/
abbrev Applying := Except ApplyEnd

/-- A computation that may stop the process, as a part of the application of a block. -/
def Applying.ofRun {α : Type} (x : Run α) : Applying α := x.mapError .abort

/-- The graph, its index and the requests collected so far. -/
structure ApplyState where
  memory : WotMemory
  requests : List WotsDBsWriteQuery
deriving DecidableEq

namespace ApplyState

/-- Change the enabled flag of a node and collect a request. -/
def setEnabled (s : ApplyState) (wotId : NodeId) (enabled : Bool) (request : WotsDBsWriteQuery) :
    ApplyState :=
  { memory := { s.memory with wotDb := s.memory.wotDb.setEnabled wotId enabled }
    requests := s.requests ++ [request] }

/-- `wot_index[&pubkey]`. -/
def index (s : ApplyState) (pubkey : PubKey) : Applying NodeId :=
  .ofRun (expect (s.memory.wotIndex.get? pubkey) "no entry found for key")

end ApplyState

/-- The new identities of a block by public key. -/
def BlockDocument.newIdentities (block : BlockDocument) : HashMap PubKey IdentityDocument :=
  HashMap.ofList (block.identities.map fun identity => (identity.issuer, identity))

variable (C : Crypto) (block : BlockDocument)

/-- A joiner is a newcomer, who gets a node, or renews the membership. -/
def applyJoiner (blockstamp : Blockstamp) (s : ApplyState) (joiner : MembershipDocument) :
    Applying ApplyState :=
  match block.newIdentities.get? joiner.issuer with
  | some idtyDoc =>
      let wotId := s.memory.wotDb.size
      return {
        memory := { wotIndex := s.memory.wotIndex.insert joiner.issuer wotId
                    wotDb := s.memory.wotDb.addNode }
        requests := s.requests ++ [.createIdentity wotId blockstamp block.medianTime idtyDoc
          joiner.blockstamp.id] }
  | none => do
      let wotId ← s.index joiner.issuer
      return s.setEnabled wotId true
        (.renewalIdentity joiner.issuer wotId block.medianTime joiner.blockstamp.id)

/-- An active member renews the membership. -/
def applyActive (s : ApplyState) (active : MembershipDocument) : Applying ApplyState :=
  if block.newIdentities.containsKey active.issuer then return s
  else do
    let wotId ← s.index active.issuer
    return s.setEnabled wotId true
      (.renewalIdentity active.issuer wotId block.medianTime active.blockstamp.id)

/-- Exclude a member. -/
def applyExclusion (blockstamp : Blockstamp) (s : ApplyState) (exclusion : PubKey) :
    Applying ApplyState :=
  match s.memory.wotIndex.get? exclusion with
  | some wotId => return s.setEnabled wotId false (.excludeIdentity exclusion blockstamp)
  | none => .error (.refused .excludeUnknowNodeId s.memory)

/-- Revoke an identity. -/
def applyRevocation (blockstamp : Blockstamp) (s : ApplyState)
    (revocation : CompactRevocationDocument) : Applying ApplyState :=
  match s.memory.wotIndex.get? revocation.issuer with
  | some wotId => return s.setEnabled wotId false (.revokeIdentity revocation.issuer blockstamp true)
  | none => .error (.refused .revokeUnknowNodeId s.memory)

/-- Apply a certification. -/
def applyCertification (s : ApplyState) (certification : CompactCertificationDocument) :
    Applying ApplyState :=
  match s.memory.wotIndex.get? certification.issuer, s.memory.wotIndex.get? certification.target with
  | some wotNodeFrom, some wotNodeTo =>
      match s.memory.wotDb.addLink wotNodeFrom wotNodeTo with
      | (wotDb, .ok _) =>
          return {
            memory := { s.memory with wotDb }
            requests := s.requests ++ [.createCert certification.issuer wotNodeFrom wotNodeTo
              certification.blockNumber block.medianTime] }
      | _ => .ofRun (fatalError "Fail to add_link \x7b\x7d->\x7b\x7d : \x7b:?\x7d")
  | _, _ => .error (.refused .dbsCorrupted s.memory)

/-- Expire a certification; the certifications of an emission block expire together. -/
def applyExpiry (acc : ApplyState × HashSet BlockNumber)
    (expireCert : (NodeId × NodeId) × BlockNumber) : ApplyState × HashSet BlockNumber :=
  let (s, blocksAlreadyExpire) := acc
  let ((source, target), createdBlockId) := expireCert
  let memory := { s.memory with wotDb := (s.memory.wotDb.remLink source target).1 }
  if blocksAlreadyExpire.contains createdBlockId then ({ s with memory }, blocksAlreadyExpire)
  else ({ memory, requests := s.requests ++ [.expireCerts createdBlockId] },
    blocksAlreadyExpire.insert createdBlockId)

/-- Apply the part of a block that concerns the web of trust, its expiring certifications apart. -/
def applyWot (memory : WotMemory) (blockstamp : Blockstamp) : Applying ApplyState := do
  let s ← block.joiners.foldlM (applyJoiner block blockstamp) ⟨memory, []⟩
  let s ← block.actives.foldlM (applyActive block) s
  let s ← block.excluded.foldlM (applyExclusion blockstamp) s
  let s ← block.revoked.foldlM (applyRevocation blockstamp) s
  block.certifications.foldlM (applyCertification block) s

/-- The members, as the enabled nodes in the index. -/
def WotMemory.members (memory : WotMemory) : List PubKey :=
  memory.wotIndex.iter.filterMap fun (pubkey, wotId) =>
    if memory.wotDb.getEnabled.contains wotId then some pubkey else none

/-- The dividend of a block, if it has one. -/
def BlockDocument.duAmount (block : BlockDocument) : Option SourceAmount :=
  match block.dividend with
  | some duAmount =>
      if duAmount > 0 then some ⟨SourceAmount.wrap duAmount, block.unitBase⟩ else none
  | none => none

/-- The requests for the currency databases. -/
def currencyRequests (memory : WotMemory) : Run (List CurrencyDBsWriteQuery) := do
  let txs ← block.transactions.mapM TxDocOrTxHash.unwrapDoc
  let uds := match block.duAmount with
    | some duAmount => [.createUd duAmount block.number memory.members]
    | none => []
  return uds ++ txs.map .writeTx

/-- All the queries to apply in database to apply the block. -/
structure ValidBlockApplyReqs where
  blocksQuery : BlocksDBsWriteQuery
  wotQueries : List WotsDBsWriteQuery
  currencyQueries : List CurrencyDBsWriteQuery
deriving DecidableEq

/-- Apply a valid block: the graph and its index after it, and the queries for the databases. -/
def applyValidBlock (memory : WotMemory) (expireCerts : HashMap (NodeId × NodeId) BlockNumber) :
    Applying (WotMemory × ValidBlockApplyReqs) := do
  let blockstamp ← .ofRun block.blockstamp
  let s ← applyWot block memory blockstamp
  let (s, _) := expireCerts.iter.foldl applyExpiry (s, ∅)
  let currencyQueries ← .ofRun (currencyRequests block s.memory)
  let reduced ← .ofRun (block.reduce C)
  return (s.memory, {
    blocksQuery := .writeBlock ⟨reduced, some expireCerts⟩
    wotQueries := s.requests
    currencyQueries })

end Durs
