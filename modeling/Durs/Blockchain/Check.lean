/-
# Checking blocks

What a block is checked for before it is applied: its two hashes, that its previous block is there
and that its version does not decrease.
-/

import Durs.Dal.Readers
import Durs.Documents.Integers

namespace Durs

open RustStd

/-- Error returned by `verify_block_hashs`. -/
inductive VerifyBlockHashsError
  | invalidInnerHash
  | invalidHash (number : BlockNumber) (hash : Option BlockHash)
deriving DecidableEq, Repr

/-- Error returned by `verify_block_validity`. -/
inductive InvalidBlockError
  | noPreviousBlock
  | versionDecrease
deriving DecidableEq, Repr

/-- Error of the application of a valid block. -/
inductive ApplyValidBlockError
  | dbsCorrupted
  | excludeUnknowNodeId
  | revokeUnknowNodeId
deriving DecidableEq, Repr

/-- Why a block is not taken. -/
inductive BlockError
  | alreadyHaveBlockOrOutForkWindow
  | verifyBlockHashsError (error : VerifyBlockHashsError)
  | invalidBlock (error : InvalidBlockError)
  | applyValidBlockError (error : ApplyValidBlockError)
deriving DecidableEq, Repr

/-- Verify block hashs. -/
def verifyBlockHashs (C : Crypto) (block : BlockDocument) :
    Run (Except VerifyBlockHashsError Unit) :=
  if block.innerHash = none then
    fatalError "BlockchainModule : verify_block_hashs() : fatal error : block.inner_hash = None"
  else do
    let innerOk ← block.verifyInnerHash C
    if innerOk then
      let hashOk ← block.verifyHash C
      if hashOk then return .ok () else return .error (.invalidHash block.number block.hash)
    else return .error .invalidInnerHash

/-- The rules of the protocol that are checked: they do not concern the genesis block. -/
def verifyBlockValidity (block : BlockDocument) (blocks : BlocksV10DBs) :
    Except InvalidBlockError Unit :=
  if block.number > 0 then
    match getBlockInLocalBlockchain blocks (block.number - 1) with
    | none => .error .noPreviousBlock
    | some previousBlock =>
        if previousBlock.version > block.version then .error .versionDecrease else .ok ()
  else .ok ()

/-- Whether a block is the next one of the local blockchain. -/
def Chainable (currentBlockstamp : Blockstamp) (block : BlockDocument) : Prop :=
  block.number = addU32 currentBlockstamp.id 1 ∧ block.previousHash = currentBlockstamp.hash ∨
    block.number = 0 ∧ currentBlockstamp = default

instance (currentBlockstamp : Blockstamp) (block : BlockDocument) :
    Decidable (Chainable currentBlockstamp block) :=
  inferInstanceAs (Decidable (_ ∨ _))

end Durs
