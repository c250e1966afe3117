/-
# Reading the databases

Queries on the local blockchain, the fork store and the certifications.
-/

import Durs.Dal.Databases
import Durs.Documents.Integers

namespace Durs

open RustStd

/-- Get the current blockstamp: that of the block numbered one below the number of blocks, which is
cut to `u32`. -/
def getCurrentBlockstamp (blocks : BlocksV10DBs) : Run (Option Blockstamp) :=
  let blockchainLen := blocks.blockchainDb.len % 4294967296
  if blockchainLen = 0 then return none
  else match blocks.blockchainDb.get? (blockchainLen - 1) with
    | some dalBlock => do
        let blockstamp ← dalBlock.blockstamp
        return some blockstamp
    | none => return none

/-- Whether the node already knows a block. -/
def alreadyHaveBlock (blocks : BlocksV10DBs) (forks : ForksDBs) (blockstamp : Blockstamp)
    (previousHash : Hash) : Run Bool :=
  let previousBlockstamp : Blockstamp :=
    { id := previousBlockNumber blockstamp.id, hash := previousHash }
  if forks.forkBlocksDb.containsKey blockstamp then return true
  else match forks.orphanBlocksDb.get? previousBlockstamp with
    | some orphanBlocks => do
        let orphanBlockstamps ← orphanBlocks.mapM DALBlock.blockstamp
        return orphanBlockstamps.contains blockstamp
    | none =>
        match blocks.blockchainDb.get? blockstamp.id with
        | some dalBlock => return dalBlock.block.hash.getD 0 = blockstamp.hash
        | none => return false

/-- Get a block of the local blockchain. -/
def getBlockInLocalBlockchain (blocks : BlocksV10DBs) (blockId : BlockNumber) :
    Option BlockDocument :=
  (blocks.blockchainDb.get? blockId).map DALBlock.block

/-- Get a block: the one of the local blockchain with the number of the blockstamp, or else the one
of the fork store, if it is given. -/
def getBlock (blocks : BlocksV10DBs) (forkBlocksDb : Option (HashMap Blockstamp DALBlock))
    (blockstamp : Blockstamp) : Option DALBlock :=
  let dalBlock := blocks.blockchainDb.get? blockstamp.id
  match dalBlock, forkBlocksDb with
  | none, some forkBlocksDb => forkBlocksDb.get? blockstamp
  | _, _ => dalBlock

/-- Collect the blocks of the local blockchain from a number on, as long as there is one. -/
def collectBlocks (blocks : BlocksV10DBs) :
    Nat → BlockNumber → List BlockDocument → Run (List BlockDocument)
  | 0, _, _ => .error .outOfFuel
  | fuel + 1, currentBlockNumber, collected =>
      match blocks.blockchainDb.get? currentBlockNumber with
      | some dalBlock =>
          collectBlocks blocks fuel (addU32 currentBlockNumber 1) (collected ++ [dalBlock.block])
      | none => return collected

/-- Get several blocks of the local blockchain.  The count only sets the capacity of the vector. -/
def getBlocksInLocalBlockchain (blocks : BlocksV10DBs) (firstBlockNumber : BlockNumber)
    (_count : Nat) (fuel : Nat) : Run (List BlockDocument) :=
  collectBlocks blocks fuel firstBlockNumber []

/-- Get the currency parameters, from the genesis block. -/
def getCurrencyParams (blocks : BlocksV10DBs) : Run (Option CurrencyParameters) :=
  match blocks.blockchainDb.get? 0 with
  | some genesisBlock => do
      let params ← expect genesisBlock.block.parameters
        "The genesis block are None parameters !"
      return some (.ofGenesis genesisBlock.block.currency params)
  | none => return none

/-- Get the index of the web of trust. -/
def getWotIndex (identitiesDb : HashMap PubKey DALIdentity) : HashMap PubKey NodeId :=
  HashMap.ofList (identitiesDb.iter.map fun (pubkey, memberDatas) => (pubkey, memberDatas.wotId))

/-- The orphan blocks that succeed the current block. -/
def getStackablesBlocks (forks : ForksDBs) (currentBlockstamp : Blockstamp) : List DALBlock :=
  (forks.orphanBlocksDb.get? currentBlockstamp).getD []

/-- Find the certifications that were emitted in the expiring blocks. -/
def findExpireCerts (certsDb : HashMap BlockNumber (HashSet (NodeId × NodeId)))
    (blocksExpiring : List BlockNumber) : HashMap (NodeId × NodeId) BlockNumber :=
  blocksExpiring.foldl (fun all blockId =>
    match certsDb.get? blockId with
    | some expireCerts => expireCerts.iter.foldl (fun all cert => all.insert cert blockId) all
    | none => all) ∅

end Durs
