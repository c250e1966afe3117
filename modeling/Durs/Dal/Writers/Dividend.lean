/-
# Writing dividends

The dividend of a block becomes a source of each member, and the balance of the member grows by its
amount; reverting the block takes both back.
-/

import Durs.Dal.Databases

namespace Durs

open RustStd

/-- The address of a public key. -/
def addressOf (pubkey : PubKey) : UTXOConditionsGroup := .single (.sig pubkey)

/-- Insert or remove the dividend source of a member. -/
def writeMemberDu (blockId : BlockNumber) (revert : Bool)
    (duDb : HashMap PubKey (HashSet BlockNumber)) (pubkey : PubKey) :
    HashMap PubKey (HashSet BlockNumber) :=
  let pubkeyDus := (duDb.get? pubkey).getD ∅
  duDb.insert pubkey (if revert then pubkeyDus.remove blockId else pubkeyDus.insert blockId)

/-- Apply UD creation in databases. -/
def createDu (dbs : CurrencyV10DBs) (duAmount : SourceAmount) (duBlockId : BlockNumber)
    (members : List PubKey) (revert : Bool) : CurrencyV10DBs :=
  let duDb := members.foldl (writeMemberDu duBlockId revert) dbs.duDb
  let membersBalances : HashMap PubKey (SourceAmount × HashSet UTXOIndexV10) :=
    HashMap.ofList (members.map fun pubkey =>
      (pubkey, (dbs.balancesDb.get? (addressOf pubkey)).getD (default, ∅)))
  let newBalances := membersBalances.iter.map fun (pubkey, balance, utxosIndexs) =>
    (addressOf pubkey,
      (if revert then balance - duAmount else balance + duAmount, utxosIndexs))
  { dbs with duDb, balancesDb := dbs.balancesDb.insertAll newBalances }

end Durs
