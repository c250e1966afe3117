/-
# Writing certifications

How a certification is written and expires in the databases, and how both are reverted.  A
certification is kept under the block that emitted it.
-/

import Durs.Dal.Databases
import Durs.Documents.Integers

namespace Durs

open RustStd

/-- The certifications of the web of trust by emission block. -/
abbrev CertsDb := HashMap BlockNumber (HashSet (NodeId × NodeId))

/-- Add a certification to those of its emission block. -/
def insertCert (certsDb : CertsDb) (source target : NodeId) (createdBlockId : BlockNumber) :
    CertsDb :=
  let createdCerts := (certsDb.get? createdBlockId).getD ∅
  certsDb.insert createdBlockId (createdCerts.insert (source, target))

/-- Apply "certification" event in databases. -/
def writeCertification (params : CurrencyParameters) (dbs : WotsV10DBs) (sourcePubkey : PubKey)
    (source target : NodeId) (createdBlockId : BlockNumber) (writtenTimestamp : Nat) :
    Run WotsV10DBs := do
  let memberDatas ← expect (dbs.identitiesDb.get? sourcePubkey)
    "Database Corrupted, please reset data !"
  let certChainableOn :=
    memberDatas.certChainableOn ++ [addU64 writtenTimestamp params.sigPeriod]
  return { dbs with
    identitiesDb := dbs.identitiesDb.insert sourcePubkey { memberDatas with certChainableOn }
    certsDb := insertCert dbs.certsDb source target createdBlockId }

/-- Revert writtent certification. -/
def revertWriteCert (dbs : WotsV10DBs) (compactDoc : CompactCertificationDocument)
    (source target : NodeId) : WotsV10DBs :=
  let certs := (dbs.certsDb.get? compactDoc.blockNumber).getD ∅
  { dbs with
    certsDb := dbs.certsDb.insert compactDoc.blockNumber (certs.remove (source, target))
    identitiesDb := match dbs.identitiesDb.get? compactDoc.issuer with
      | some memberDatas => dbs.identitiesDb.insert compactDoc.issuer
          { memberDatas with certChainableOn := memberDatas.certChainableOn.dropLast }
      | none => dbs.identitiesDb }

/-- Revert "certification expiry" event in databases. -/
def revertExpireCert (dbs : WotsV10DBs) (source target : NodeId) (createdBlockId : BlockNumber) :
    WotsV10DBs :=
  { dbs with certsDb := insertCert dbs.certsDb source target createdBlockId }

/-- Apply "certification expiry" event in databases. -/
def expireCerts (dbs : WotsV10DBs) (createdBlockId : BlockNumber) : WotsV10DBs :=
  { dbs with certsDb := dbs.certsDb.remove createdBlockId }

end Durs
