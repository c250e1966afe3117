/-
# Writing identities

How an identity is created, renewed, excluded and revoked in the databases, and how each of these
is reverted.
-/

import Durs.Dal.Databases
import Durs.Documents.Integers

namespace Durs

open RustStd

/-- Record that a membership was emitted in a block. -/
def insertMembership (msDb : HashMap BlockNumber (HashSet NodeId)) (msCreatedBlockId : BlockNumber)
    (wotId : NodeId) : HashMap BlockNumber (HashSet NodeId) :=
  let memberships := (msDb.get? msCreatedBlockId).getD ∅
  msDb.insert msCreatedBlockId (memberships.insert wotId)

/-- Write identity in databases. -/
def createIdentity (params : CurrencyParameters) (dbs : WotsV10DBs) (idtyDoc : IdentityDocument)
    (msCreatedBlockId : BlockNumber) (wotId : NodeId) (currentBlockstamp : Blockstamp)
    (currentBcTime : Nat) : WotsV10DBs :=
  let idtyDoc := idtyDoc.reduce
  let idty : DALIdentity :=
    { hash := "0"
      state := .member [0]
      joinedOn := currentBlockstamp
      expiredOn := none
      revokedOn := none
      idtyDoc
      wotId
      msCreatedBlockId
      msChainableOn := [addU64 currentBcTime params.msPeriod]
      certChainableOn := [] }
  { dbs with
    identitiesDb := dbs.identitiesDb.insert idtyDoc.issuer idty
    msDb := insertMembership dbs.msDb msCreatedBlockId wotId }

/-- Remove identity from databases. -/
def revertCreateIdentity (dbs : WotsV10DBs) (pubkey : PubKey) : Run WotsV10DBs := do
  let dalIdty ← expect (dbs.identitiesDb.get? pubkey)
    "Fatal error : try to revert unknow identity !"
  let memberships ← expect (dbs.msDb.get? dalIdty.msCreatedBlockId)
    "Try to revert a membership that does not exist !"
  return { dbs with
    msDb := dbs.msDb.insert dalIdty.msCreatedBlockId (memberships.remove dalIdty.wotId)
    identitiesDb := dbs.identitiesDb.remove dalIdty.idtyDoc.issuer }

/-- The state of an identity after its exclusion, or before it. -/
def DALIdentityState.exclude (revert : Bool) : DALIdentityState → Run DALIdentityState
  | .expireMember renewedCounts =>
      if revert then return .member renewedCounts
      else fatalError "Try to exclude for an already excluded/revoked identity !"
  | .member renewedCounts =>
      if revert then fatalError "Try to revert exclusion for a no excluded identity !"
      else return .expireMember renewedCounts
  | _ =>
      if revert then fatalError "Try to revert exclusion for a no excluded identity !"
      else fatalError "Try to exclude for an already excluded/revoked identity !"

/-- Apply "exclude identity" event. -/
def excludeIdentity (dbs : WotsV10DBs) (pubkey : PubKey) (exclusionBlockstamp : Blockstamp)
    (revert : Bool) : Run WotsV10DBs := do
  let idtyDatas ← expect (dbs.identitiesDb.get? pubkey)
    "Fatal error : try to renewal unknow identity !"
  let state ← idtyDatas.state.exclude revert
  let idtyDatas := { idtyDatas with
    state, expiredOn := if revert then none else some exclusionBlockstamp }
  return { dbs with identitiesDb := dbs.identitiesDb.insert pubkey idtyDatas }

/-- The state of an identity after its revocation, or before it. -/
def DALIdentityState.revoke (explicit revert : Bool) : DALIdentityState → Run DALIdentityState
  | .explicitRevoked renewedCounts =>
      if revert then return .member renewedCounts
      else fatalError "Try to revert revoke an already revoked idty !"
  | .explicitExpireRevoked renewedCounts =>
      if revert then return .expireMember renewedCounts
      else fatalError "Try to revert revoke an already revoked idty !"
  | .implicitRevoked renewedCounts =>
      if revert then return .expireMember renewedCounts
      else fatalError "Try to revert revoke an already revoked idty !"
  | .expireMember renewedCounts =>
      if revert then fatalError "Try to revert revoke_identity() for a no revoked idty !"
      else return .explicitExpireRevoked renewedCounts
  | .member renewedCounts =>
      if revert then fatalError "Try to revert revoke_identity() for a no revoked idty !"
      else if explicit then return .explicitRevoked renewedCounts
      else return .implicitRevoked renewedCounts

/-- Apply "revoke identity" event. -/
def revokeIdentity (dbs : WotsV10DBs) (pubkey : PubKey) (renewalBlockstamp : Blockstamp)
    (explicit revert : Bool) : Run WotsV10DBs := do
  let memberDatas ← expect (dbs.identitiesDb.get? pubkey)
    "Fatal error : Try to revoke unknow idty !"
  let state ← memberDatas.state.revoke explicit revert
  let memberDatas := { memberDatas with
    state, revokedOn := if revert then none else some renewalBlockstamp }
  return { dbs with identitiesDb := dbs.identitiesDb.insert pubkey memberDatas }

/-- The state of an identity after its renewal, or before it.  The count of the current period of
membership is the last one. -/
def DALIdentityState.renew (revert : Bool) : DALIdentityState → Run DALIdentityState
  | .member renewedCounts => do
      let last ← expect renewedCounts.getLast? "index out of bounds"
      if revert then
        let count := decrementCount last
        let newRenewedCounts := renewedCounts.dropLast ++ [count]
        if count > 0 then return .member newRenewedCounts
        else return .expireMember newRenewedCounts
      else return .member (renewedCounts.dropLast ++ [addU64 last 1])
  | .expireMember renewedCounts =>
      if revert then
        fatalError "Try to revert renewal_identity() for an excluded or revoked idty !"
      else return .member (renewedCounts ++ [0])
  | _ =>
      if revert then
        fatalError "Try to revert renewal_identity() for an excluded or revoked idty !"
      else fatalError "Try to renewed a revoked identity !"

/-- Apply "renewal identity" event in databases.  The membership is recorded also when the renewal
is reverted. -/
def renewalIdentity (params : CurrencyParameters) (dbs : WotsV10DBs) (pubkey : PubKey)
    (idtyWotId : NodeId) (renewalTimestamp : Nat) (msCreatedBlockId : BlockNumber)
    (revert : Bool) : Run WotsV10DBs := do
  let idtyDatas ← expect (dbs.identitiesDb.get? pubkey)
    "Fatal error : try to renewal unknow identity !"
  let state ← idtyDatas.state.renew revert
  let msChainableOn :=
    if revert then idtyDatas.msChainableOn.dropLast
    else idtyDatas.msChainableOn ++ [addU64 renewalTimestamp params.msPeriod]
  return { dbs with
    identitiesDb := dbs.identitiesDb.insert pubkey { idtyDatas with state, msChainableOn }
    msDb := insertMembership dbs.msDb msCreatedBlockId idtyWotId }

end Durs
