/-
# Parsers of text documents

What the parsers build from the rules that the grammar matches.  They unwrap each conversion, since
the grammar is held to exclude the texts that do not convert.
-/

import Durs.Documents.Grammar
import Durs.Documents.TextDocument
import Durs.RustStd.ParseInt

namespace Durs

open RustStd Lib.Peg

/-- `Pair::as_str`. -/
def DocPair.asStr (pair : DocPair) : String := String.ofList pair.text

/-- `Result::unwrap` of a conversion. -/
def unwrap {α : Type} (x : Option α) : Run α :=
  expect x "called Result::unwrap() on an Err value"

@[simp]
theorem unwrap_eq_ok_iff {α : Type} {x : Option α} {a : α} : unwrap x = .ok a ↔ x = some a :=
  expect_eq_ok_iff

@[simp]
theorem returns_unwrap_iff {α : Type} {x : Option α} : Returns (unwrap x) ↔ x.isSome :=
  returns_expect_iff

/-- The next rule of an iterator, unwrapped. -/
def nextPair (pairs : List DocPair) : Run (DocPair × List DocPair) :=
  match pairs with
  | pair :: pairs => return (pair, pairs)
  | [] => fatalError "called Option::unwrap() on a None value"

/-- `vec[i]`. -/
def indexVec {α : Type} (vec : List α) (i : Nat) : Run α := expect vec[i]? "index out of bounds"

/-- Errors of the text parsers, without their texts. -/
inductive TextDocumentParseError
  | invalidInnerFormat
  | pestError
  | unexpectedVersion
  | unknownType
deriving DecidableEq, Repr

variable (C : DocCrypto)

/-! ## Fields -/

/-- Read a blockstamp. -/
def readBlockstamp (field : DocPair) : Run Blockstamp := do
  let (blockId, innerRules) ← nextPair field.inner
  let (blockHash, _) ← nextPair innerRules
  let id ← unwrap (parseUnsigned 32 blockId.text)
  let hash ← unwrap (Hash.fromHex blockHash.text)
  return { id, hash }

/-- Read a public key. -/
def readPubkey (field : DocPair) : Run PubKey := unwrap (C.fromBase58 (DocPair.asStr field))

/-- Read a signature. -/
def readSig (field : DocPair) : Run Sig := unwrap (C.fromBase64 (DocPair.asStr field))

/-! ## Identities -/

namespace IdentityDocumentParser

/-- The fields found so far. -/
structure Fields where
  currency : String
  pubkeyStr : String
  uid : String
  blockstamp : Blockstamp
  sigStr : String

/-- Take a field. -/
def step (f : Fields) (field : DocPair) : Run Fields :=
  match field.rule with
  | .currency => return { f with currency := DocPair.asStr field }
  | .pubkey => return { f with pubkeyStr := DocPair.asStr field }
  | .uid => return { f with uid := DocPair.asStr field }
  | .blockstamp => do
      let blockstamp ← readBlockstamp field
      return { f with blockstamp }
  | .ed25519Sig => return { f with sigStr := DocPair.asStr field }
  | .eoi => return f
  | _ => fatalError "unexpected rule"

/-- Build the document. -/
def fromPestPair (pair : DocPair) : Run IdentityDocument := do
  let f ← pair.inner.foldlM step
    { currency := "", pubkeyStr := "", uid := "", blockstamp := default, sigStr := "" }
  let issuer ← unwrap (C.fromBase58 f.pubkeyStr)
  let signature ← unwrap (C.fromBase64 f.sigStr)
  return {
    text := some (DocPair.asStr pair)
    currency := f.currency
    username := f.uid
    blockstamp := f.blockstamp
    issuer
    signature }

end IdentityDocumentParser

/-! ## Memberships -/

namespace MembershipDocumentParser

/-- The fields found so far. -/
structure Fields where
  currency : String
  pubkeyStr : String
  uid : String
  blockstamps : List Blockstamp
  membership : MembershipType
  sigStr : String

/-- Take a field. -/
def step (f : Fields) (field : DocPair) : Run Fields :=
  match field.rule with
  | .currency => return { f with currency := DocPair.asStr field }
  | .uid => return { f with uid := DocPair.asStr field }
  | .pubkey => return { f with pubkeyStr := DocPair.asStr field }
  | .membershipIn => return { f with membership := .in }
  | .membershipOut => return { f with membership := .out }
  | .blockstamp => do
      let blockstamp ← readBlockstamp field
      return { f with blockstamps := f.blockstamps ++ [blockstamp] }
  | .ed25519Sig => return { f with sigStr := DocPair.asStr field }
  | .eoi => return f
  | _ => fatalError "unexpected rule"

/-- Build the document. -/
def fromPestPair (pair : DocPair) : Run MembershipDocument := do
  let f ← pair.inner.foldlM step
    { currency := "", pubkeyStr := "", uid := "", blockstamps := [], membership := .in,
      sigStr := "" }
  let issuer ← unwrap (C.fromBase58 f.pubkeyStr)
  let blockstamp ← indexVec f.blockstamps 0
  let identityBlockstamp ← indexVec f.blockstamps 1
  let signature ← unwrap (C.fromBase64 f.sigStr)
  return {
    text := some (DocPair.asStr pair)
    issuer
    currency := f.currency
    blockstamp
    membership := f.membership
    identityUsername := f.uid
    identityBlockstamp
    signature }

end MembershipDocumentParser

/-! ## Certifications and revocations -/

/-- The fields of a certification or a revocation found so far. -/
structure CertFields where
  currency : String
  pubkeys : List PubKey
  uid : String
  sigs : List Sig
  blockstamps : List Blockstamp

/-- No field. -/
def CertFields.empty : CertFields :=
  { currency := "", pubkeys := [], uid := "", sigs := [], blockstamps := [] }

/-- Take a field of a certification or a revocation. -/
def CertFields.step (f : CertFields) (field : DocPair) : Run CertFields :=
  match field.rule with
  | .currency => return { f with currency := DocPair.asStr field }
  | .pubkey => do
      let pubkey ← readPubkey C field
      return { f with pubkeys := f.pubkeys ++ [pubkey] }
  | .uid => return { f with uid := DocPair.asStr field }
  | .blockstamp => do
      let blockstamp ← readBlockstamp field
      return { f with blockstamps := f.blockstamps ++ [blockstamp] }
  | .ed25519Sig => do
      let sig ← readSig C field
      return { f with sigs := f.sigs ++ [sig] }
  | .eoi => return f
  | _ => fatalError "unexpected rule"

/-- Build the document. -/
def CertificationDocumentParser.fromPestPair (pair : DocPair) : Run CertificationDocument := do
  let f ← pair.inner.foldlM (CertFields.step C) .empty
  let issuer ← indexVec f.pubkeys 0
  let target ← indexVec f.pubkeys 1
  let identityBlockstamp ← indexVec f.blockstamps 0
  let identitySig ← indexVec f.sigs 0
  let blockstamp ← indexVec f.blockstamps 1
  let signature ← indexVec f.sigs 1
  return {
    text := DocPair.asStr pair
    issuer
    currency := f.currency
    target
    identityUsername := f.uid
    identityBlockstamp
    identitySig
    blockstamp
    signature }

/-- Build the document. -/
def RevocationDocumentParser.fromPestPair (pair : DocPair) : Run RevocationDocument := do
  let f ← pair.inner.foldlM (CertFields.step C) .empty
  let issuer ← indexVec f.pubkeys 0
  let identityBlockstamp ← indexVec f.blockstamps 0
  let identitySig ← indexVec f.sigs 0
  let signature ← indexVec f.sigs 1
  return {
    text := DocPair.asStr pair
    issuer
    currency := f.currency
    identityUsername := f.uid
    identityBlockstamp
    identitySig
    signature }

/-! ## Transactions -/

/-- Build an input from the rules within it. -/
def TransactionInput.fromPestPair (pairs : List DocPair) : Run TransactionInput := do
  let (typePair, _) ← nextPair pairs
  match typePair.rule with
  | .txInputDu => do
      let (amountPair, rules) ← nextPair typePair.inner
      let amount ← unwrap (parseSigned 64 amountPair.text)
      let (basePair, rules) ← nextPair rules
      let base ← unwrap (parseUnsigned 64 basePair.text)
      let (pubkeyPair, rules) ← nextPair rules
      let pubkey ← readPubkey C pubkeyPair
      let (blockPair, _) ← nextPair rules
      let blockNumber ← unwrap (parseUnsigned 32 blockPair.text)
      return .D amount base pubkey blockNumber
  | .txInputTx => do
      let (amountPair, rules) ← nextPair typePair.inner
      let amount ← unwrap (parseSigned 64 amountPair.text)
      let (basePair, rules) ← nextPair rules
      let base ← unwrap (parseUnsigned 64 basePair.text)
      let (hashPair, rules) ← nextPair rules
      let txHash ← unwrap (Hash.fromHex hashPair.text)
      let (indexPair, _) ← nextPair rules
      let txIndex ← unwrap (parseUnsigned 64 indexPair.text)
      return .T amount base txHash txIndex
  | _ => fatalError "unexpected rule: \x7b:?\x7d"

/-- Take a rule within the unlocks of an input. -/
def TransactionInputUnlocks.step (unlocks : TransactionInputUnlocks) (field : DocPair) :
    Run TransactionInputUnlocks :=
  match field.rule with
  | .inputIndex => do
      let index ← unwrap (parseUnsigned 64 field.text)
      return { unlocks with index }
  | .unlockSig => do
      let (indexPair, _) ← nextPair field.inner
      let index ← unwrap (parseUnsigned 64 indexPair.text)
      return { unlocks with unlocks := unlocks.unlocks ++ [.sig index] }
  | .unlockXhx => do
      let (secretPair, _) ← nextPair field.inner
      return { unlocks with unlocks := unlocks.unlocks ++ [.xhx (DocPair.asStr secretPair)] }
  | _ => fatalError "unexpected rule: \x7b:?\x7d"

/-- Build the unlocks of an input from the rules within them. -/
def TransactionInputUnlocks.fromPestPair (pairs : List DocPair) : Run TransactionInputUnlocks :=
  pairs.foldlM step { index := 0, unlocks := [] }

namespace UTXOConditionsGroup

/-- `new_and_chain` and `new_or_chain`: the last two groups are popped and the operator between them
is pushed, until two groups are left. -/
def newChain (op : UTXOConditionsGroup → UTXOConditionsGroup → UTXOConditionsGroup)
    (condsSubgroups : List UTXOConditionsGroup) : Run UTXOConditionsGroup :=
  match condsSubgroups.reverse with
  | lastSubgroup :: previousLastSubgroup :: subgroups =>
      return (previousLastSubgroup :: subgroups).foldl (fun chain group => op group chain)
        lastSubgroup
  | _ => fatalError
      "Grammar should ensure that and chain contains at least two conditions subgroups !"

mutual

/-- Wrap UTXO conditions. -/
def wrapUtxoConds : DocPair → Run UTXOConditionsGroup
  | .node rule _ inner =>
      match rule with
      | .outputAndGroup => do
          let condsSubgroups ← wrapAll inner
          let chain ← newChain .and condsSubgroups
          return .brackets chain
      | .outputOrGroup => do
          let condsSubgroups ← wrapAll inner
          let chain ← newChain .or condsSubgroups
          return .brackets chain
      | .outputCondSig => do
          let (pubkeyPair, _) ← nextPair inner
          let pubkey ← readPubkey C pubkeyPair
          return .single (.sig pubkey)
      | .outputCondXhx => do
          let (hashPair, _) ← nextPair inner
          let hash ← unwrap (Hash.fromHex hashPair.text)
          return .single (.xhx hash)
      | .outputCondCsv => do
          let (durationPair, _) ← nextPair inner
          let duration ← unwrap (parseUnsigned 64 durationPair.text)
          return .single (.csv duration)
      | .outputCondCltv => do
          let (timestampPair, _) ← nextPair inner
          let timestamp ← unwrap (parseUnsigned 64 timestampPair.text)
          return .single (.cltv timestamp)
      | _ => fatalError "unexpected rule: \x7b:?\x7d"

/-- Wrap the conditions of each of some rules. -/
def wrapAll : List DocPair → Run (List UTXOConditionsGroup)
  | [] => return []
  | pair :: pairs => do
      let group ← wrapUtxoConds pair
      let groups ← wrapAll pairs
      return group :: groups

end

end UTXOConditionsGroup

/-- Build an output from the rules within it. -/
def TransactionOutput.fromPestPair (pairs : List DocPair) : Run TransactionOutput := do
  let (amountPair, pairs) ← nextPair pairs
  let amount ← unwrap (parseSigned 64 amountPair.text)
  let (basePair, pairs) ← nextPair pairs
  let base ← unwrap (parseUnsigned 64 basePair.text)
  let (conditionsPair, _) ← nextPair pairs
  let conditions ← UTXOConditionsGroup.wrapUtxoConds C conditionsPair
  return {
    amount
    base
    conditions := { originStr := some (DocPair.asStr conditionsPair), conditions } }

namespace TransactionDocumentParser

/-- The fields found so far. -/
structure Fields where
  currency : String
  blockstamp : Blockstamp
  locktime : Nat
  issuers : List PubKey
  inputs : List TransactionInput
  unlocks : List TransactionInputUnlocks
  outputs : List TransactionOutput
  comment : String
  sigs : List Sig

/-- No field. -/
def Fields.empty : Fields :=
  { currency := "", blockstamp := default, locktime := 0, issuers := [], inputs := [],
    unlocks := [], outputs := [], comment := "", sigs := [] }

/-- Take a field. -/
def step (f : Fields) (field : DocPair) : Run Fields :=
  match field.rule with
  | .currency => return { f with currency := DocPair.asStr field }
  | .blockstamp => do
      let blockstamp ← readBlockstamp field
      return { f with blockstamp }
  | .txLocktime => do
      let locktime ← unwrap (parseUnsigned 64 field.text)
      return { f with locktime }
  | .pubkey => do
      let issuer ← readPubkey C field
      return { f with issuers := f.issuers ++ [issuer] }
  | .txInput => do
      let input ← TransactionInput.fromPestPair C field.inner
      return { f with inputs := f.inputs ++ [input] }
  | .txUnlock => do
      let unlock ← TransactionInputUnlocks.fromPestPair field.inner
      return { f with unlocks := f.unlocks ++ [unlock] }
  | .txOutput => do
      let output ← TransactionOutput.fromPestPair C field.inner
      return { f with outputs := f.outputs ++ [output] }
  | .txComment => return { f with comment := DocPair.asStr field }
  | .ed25519Sig => do
      let sig ← readSig C field
      return { f with sigs := f.sigs ++ [sig] }
  | .eoi => return f
  | _ => fatalError "unexpected rule: \x7b:?\x7d"

/-- Build the document. -/
def fromPestPair (pair : DocPair) : Run TransactionDocument := do
  let f ← pair.inner.foldlM (step C) .empty
  return {
    text := some (DocPair.asStr pair)
    currency := f.currency
    blockstamp := f.blockstamp
    locktime := f.locktime
    issuers := f.issuers
    inputs := f.inputs
    unlocks := f.unlocks
    outputs := f.outputs
    comment := f.comment
    signatures := f.sigs
    hash := none }

end TransactionDocumentParser

/-! ## Texts -/

/-- `parse` of a parser: the rule of the document, and within it that of its version. -/
def parseVersion {α : Type} (e : Lib.Peg.Expr Rule) (version : Rule)
    (fromPestPair : DocPair → Run α) (onPestError : Run (Except TextDocumentParseError α))
    (text : String) : Run (Except TextDocumentParseError α) :=
  match DocumentsParser.parse e text with
  | some pairs => do
      let (pair, _) ← nextPair pairs
      let (versionPair, _) ← nextPair pair.inner
      if versionPair.rule = version then do
        let doc ← fromPestPair versionPair
        return .ok doc
      else return .error .unexpectedVersion
  | none => onPestError

def IdentityDocumentParser.parse :
    String → Run (Except TextDocumentParseError IdentityDocument) :=
  parseVersion Grammar.idty .idtyV10 (fromPestPair C) (return .error .pestError)

def MembershipDocumentParser.parse :
    String → Run (Except TextDocumentParseError MembershipDocument) :=
  parseVersion Grammar.membership .membershipV10 (fromPestPair C) (return .error .pestError)

/-- A text that the grammar does not match stops the process, unlike in the other parsers. -/
def CertificationDocumentParser.parse :
    String → Run (Except TextDocumentParseError CertificationDocument) :=
  parseVersion Grammar.cert .certV10 (fromPestPair C) (fatalError "\x7b\x7d")

def RevocationDocumentParser.parse :
    String → Run (Except TextDocumentParseError RevocationDocument) :=
  parseVersion Grammar.revoc .revocV10 (fromPestPair C) (return .error .pestError)

def TransactionDocumentParser.parse :
    String → Run (Except TextDocumentParseError TransactionDocument) :=
  parseVersion Grammar.tx .txV10 (fromPestPair C) (return .error .pestError)

namespace DUBPDocument

/-- Build a document of the version 10. -/
def fromPestPairV10 (pair : DocPair) : Run DUBPDocument := do
  let (typePair, _) ← nextPair pair.inner
  match typePair.rule with
  | .idtyV10 => identity <$> IdentityDocumentParser.fromPestPair C typePair
  | .membershipV10 => membership <$> MembershipDocumentParser.fromPestPair C typePair
  | .certV10 => certification <$> CertificationDocumentParser.fromPestPair C typePair
  | .revocV10 => revocation <$> RevocationDocumentParser.fromPestPair C typePair
  | .txV10 => transaction <$> TransactionDocumentParser.fromPestPair C typePair
  | _ => fatalError "unexpected rule: \x7b:?\x7d"

/-- Build a document. -/
def fromPestPair (pair : DocPair) : Run DUBPDocument := do
  let (versionPair, _) ← nextPair pair.inner
  match versionPair.rule with
  | .documentV10 => fromPestPairV10 C versionPair
  | _ => fatalError "unexpected rule: \x7b:?\x7d"

/-- Parse a document of any type. -/
def parse (text : String) : Run (Except TextDocumentParseError DUBPDocument) :=
  match DocumentsParser.parse Grammar.document text with
  | some pairs => do
      let (pair, _) ← nextPair pairs
      let doc ← fromPestPair C pair
      return .ok doc
  | none => return .error .pestError

end DUBPDocument

end Durs
