/-
# The databases

The four groups of databases of the blockchain module.  Each database is the value it holds in
memory; the errors of the storage layer are not modelled.
-/

import Durs.Dal.Entities
import Durs.Dal.ForkTree

namespace Durs

open RustStd

/-- All blocks of the local blockchain, indexed by block number. -/
structure BlocksV10DBs where
  blockchainDb : HashMap BlockNumber DALBlock
deriving DecidableEq

instance : Inhabited BlocksV10DBs := ⟨⟨∅⟩⟩

/-- The fork tree, the blocks referenced in it, and the orphan blocks indexed by the blockstamp
of their missing parent. -/
structure ForksDBs where
  forkTreeDb : ForkTree
  forkBlocksDb : HashMap Blockstamp DALBlock
  orphanBlocksDb : HashMap Blockstamp (List DALBlock)
deriving DecidableEq

instance : Inhabited ForksDBs := ⟨⟨default, ∅, ∅⟩⟩

/-- The web of trust, the identities, and the memberships and certifications by emission block. -/
structure WotsV10DBs where
  wotDb : WebOfTrust
  identitiesDb : HashMap PubKey DALIdentity
  msDb : HashMap BlockNumber (HashSet NodeId)
  certsDb : HashMap BlockNumber (HashSet (NodeId × NodeId))
deriving DecidableEq

instance : Inhabited WotsV10DBs := ⟨⟨default, ∅, ∅, ∅⟩⟩

/-- The dividend sources, the transactions, the unused outputs and the balance of each address with
its outputs. -/
structure CurrencyV10DBs where
  duDb : HashMap PubKey (HashSet BlockNumber)
  txDb : HashMap Hash DALTxV10
  utxosDb : HashMap UTXOIndexV10 TransactionOutput
  balancesDb : HashMap UTXOConditionsGroup (SourceAmount × HashSet UTXOIndexV10)
deriving DecidableEq

instance : Inhabited CurrencyV10DBs := ⟨⟨∅, ∅, ∅, ∅⟩⟩

end Durs
