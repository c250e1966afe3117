/-
# Text documents

The text of a document without its signatures, the verification of the signatures, and the texts
that the builders generate.
-/

import Durs.Documents.Block
import Durs.Documents.Integers

namespace Durs

/-- A private key of 64 bytes. -/
structure PrivKey where
  bytes : BitVec 512
deriving DecidableEq, Repr

/-- A public key with its private key. -/
structure KeyPair where
  pubkey : PubKey
  privkey : PrivKey
deriving DecidableEq, Repr

/-- A line for each of some texts. -/
def printLines (texts : List String) : String :=
  texts.foldl (fun lines text => lines ++ (text ++ "\n")) ""

/-- The primitives that text documents take from the cryptographic library: reading and printing
keys and signatures, hashing a text, signing and verifying one.  The hash of a transaction is that
of its text followed by one line for each signature. -/
structure DocCrypto extends TxCrypto where
  fromBase58 : String → Option PubKey
  fromBase64 : String → Option Sig
  base64 : Sig → String
  hashStr : String → Hash
  sign : PrivKey → String → Sig
  verify : PubKey → String → Sig → Bool
  txHash_eq : ∀ text sigs, txHash text sigs = hashStr (text ++ printLines (sigs.map base64))

/-! ## Documents and their signatures -/

/-- The number of bytes of a text. -/
def byteLen (text : List Char) : Nat := (text.map Char.utf8Size).sum

/-- `&text[0..len]`. -/
def sliceTo : List Char → Nat → Run (List Char)
  | _, 0 => return []
  | [], _ + 1 => fatalError "byte index is out of bounds"
  | c :: text, len + 1 =>
      if c.utf8Size ≤ len + 1 then do
        let front ← sliceTo text (len + 1 - c.utf8Size)
        return c :: front
      else fatalError "byte index is not a char boundary"

/-- `text.split('\n')`. -/
def splitLines (text : List Char) : List (List Char) := text.splitOn '\n'

/-- The text of a document without its signatures: as many lines as there are signatures are dropped
from the end, with the line breaks between them. -/
def asTextWithoutSignature (text : List Char) (signatures : List Sig) : Run (List Char) :=
  let lines := splitLines text
  let sigsStrLen := subU64 signatures.length 1 +
    ((lines.reverse.take signatures.length).map byteLen).sum
  sliceTo text (subU64 (byteLen text) sigsStrLen)

/-- List of possible results for signature verification. -/
inductive VerificationResult
  | valid
  | incompletePairs (issuers signatures : Nat)
  | invalid (mismatches : List Nat)
deriving DecidableEq, Repr

variable (C : DocCrypto)

/-- The indexes of the signatures that do not match. -/
def findMismatches (asBytes : Run String) : Nat → List (PubKey × Sig) → Run (List Nat)
  | _, [] => return []
  | i, (key, signature) :: pairs => do
      let bytes ← asBytes
      let mismatches ← findMismatches asBytes (i + 1) pairs
      return if C.verify key bytes signature then mismatches else i :: mismatches

/-- Verify signatures of document content. -/
def verifySignatures (text : Run String) (issuers : List PubKey) (signatures : List Sig) :
    Run VerificationResult :=
  if issuers.length ≠ signatures.length then
    return .incompletePairs issuers.length signatures.length
  else do
    let asBytes : Run String := do
      let text ← text
      let body ← asTextWithoutSignature text.toList signatures
      return String.ofList body
    let mismatches ← findMismatches C asBytes 0 (issuers.zip signatures)
    return if mismatches.isEmpty then .valid else .invalid mismatches

/-- A certification document, with one issuer and one signature. -/
structure CertificationDocument where
  text : String
  currency : String
  issuer : PubKey
  target : PubKey
  identityUsername : String
  identityBlockstamp : Blockstamp
  identitySig : Sig
  blockstamp : Blockstamp
  signature : Sig
deriving DecidableEq, Repr

/-- A revocation document, with one issuer and one signature. -/
structure RevocationDocument where
  text : String
  currency : String
  issuer : PubKey
  identityUsername : String
  identityBlockstamp : Blockstamp
  identitySig : Sig
  signature : Sig
deriving DecidableEq, Repr

/-- Document of the protocol, other than a block. -/
inductive DUBPDocument
  | transaction (doc : TransactionDocument)
  | identity (doc : IdentityDocument)
  | membership (doc : MembershipDocument)
  | certification (doc : CertificationDocument)
  | revocation (doc : RevocationDocument)
deriving DecidableEq, Repr

def IdentityDocument.asText (idty : IdentityDocument) : Run String :=
  expect idty.text "Try to get text of reduce identity !"

def IdentityDocument.verifySignatures (idty : IdentityDocument) : Run VerificationResult :=
  Durs.verifySignatures C idty.asText [idty.issuer] [idty.signature]

def MembershipDocument.asText (ms : MembershipDocument) : Run String :=
  expect ms.text "Try to get text of reduce membership !"

def MembershipDocument.verifySignatures (ms : MembershipDocument) : Run VerificationResult :=
  Durs.verifySignatures C ms.asText [ms.issuer] [ms.signature]

def CertificationDocument.verifySignatures (cert : CertificationDocument) :
    Run VerificationResult :=
  Durs.verifySignatures C (pure cert.text) [cert.issuer] [cert.signature]

def RevocationDocument.verifySignatures (revoc : RevocationDocument) : Run VerificationResult :=
  Durs.verifySignatures C (pure revoc.text) [revoc.issuer] [revoc.signature]

def TransactionDocument.asText (tx : TransactionDocument) : Run String :=
  expect tx.text "Try to get text of tx whti None text !"

/-- The text of a transaction without its signatures. -/
def TransactionDocument.asTextWithoutSignature (tx : TransactionDocument) : Run (List Char) := do
  let text ← tx.asText
  Durs.asTextWithoutSignature text.toList tx.signatures

def TransactionDocument.verifySignatures (tx : TransactionDocument) : Run VerificationResult :=
  Durs.verifySignatures C tx.asText tx.issuers tx.signatures

def DUBPDocument.verifySignatures : DUBPDocument → Run VerificationResult
  | transaction doc => doc.verifySignatures C
  | identity doc => doc.verifySignatures C
  | membership doc => doc.verifySignatures C
  | certification doc => doc.verifySignatures C
  | revocation doc => doc.verifySignatures C

/-! ## Printing -/

/-- The printed form of a blockstamp. -/
def Blockstamp.toText (blockstamp : Blockstamp) : String :=
  toString blockstamp.id ++ "-" ++ blockstamp.hash.toHex

/-- The printed form of an input. -/
def TransactionInput.toText : TransactionInput → String
  | .D amount base pubkey blockNumber =>
      toString amount ++ ":" ++ toString base ++ ":D:" ++ C.base58 pubkey ++ ":" ++
        toString blockNumber
  | .T amount base txHash txIndex =>
      toString amount ++ ":" ++ toString base ++ ":T:" ++ txHash.toHex ++ ":" ++ toString txIndex

/-- The printed form of an unlock proof. -/
def TransactionUnlockProof.toText : TransactionUnlockProof → String
  | .sig index => "SIG(" ++ toString index ++ ")"
  | .xhx code => "XHX(" ++ code ++ ")"

/-- The printed form of the proofs for an input: the blank after each of them is printed, and the
last character is dropped. -/
def TransactionInputUnlocks.toText (unlocks : TransactionInputUnlocks) : String :=
  let result := unlocks.unlocks.foldl (fun result unlock => result ++ (unlock.toText ++ " "))
    (toString unlocks.index ++ ":")
  String.ofList result.toList.dropLast

/-- The printed form of conditions: their original text when it is kept. -/
def UTXOConditions.toText (c : UTXOConditions) : String :=
  match c.originStr with
  | some originStr => originStr
  | none => c.conditions.toText C.toTxCrypto

/-- The printed form of an output. -/
def TransactionOutput.toText (output : TransactionOutput) : String :=
  toString output.amount ++ ":" ++ toString output.base ++ ":" ++ output.conditions.toText C

/-- The printed form of a membership type. -/
def MembershipType.toText : MembershipType → String
  | .in => "IN"
  | .out => "OUT"

/-! ## Builders -/

/-- Identity document builder. -/
structure IdentityDocumentBuilder where
  currency : String
  username : String
  blockstamp : Blockstamp
  issuer : PubKey

/-- Generate document text. -/
def IdentityDocumentBuilder.generateText (b : IdentityDocumentBuilder) : String :=
  "Version: 10\nType: Identity\nCurrency: " ++ b.currency ++ "\nIssuer: " ++ C.base58 b.issuer ++
    "\nUniqueID: " ++ b.username ++ "\nTimestamp: " ++ b.blockstamp.toText ++ "\n"

/-- Membership document builder. -/
structure MembershipDocumentBuilder where
  currency : String
  issuer : PubKey
  blockstamp : Blockstamp
  membership : MembershipType
  identityUsername : String
  identityBlockstamp : Blockstamp

/-- Generate document text. -/
def MembershipDocumentBuilder.generateText (b : MembershipDocumentBuilder) : String :=
  "Version: 10\nType: Membership\nCurrency: " ++ b.currency ++ "\nIssuer: " ++
    C.base58 b.issuer ++ "\nBlock: " ++ b.blockstamp.toText ++ "\nMembership: " ++
    b.membership.toText ++ "\nUserID: " ++ b.identityUsername ++ "\nCertTS: " ++
    b.identityBlockstamp.toText ++ "\n"

/-- Transaction document builder. -/
structure TransactionDocumentBuilder where
  currency : String
  blockstamp : Blockstamp
  locktime : Nat
  issuers : List PubKey
  inputs : List TransactionInput
  unlocks : List TransactionInputUnlocks
  outputs : List TransactionOutput
  comment : String
  hash : Option Hash

namespace TransactionDocumentBuilder

/-- Generate document text. -/
def generateText (b : TransactionDocumentBuilder) : String :=
  "Version: 10\nType: Transaction\nCurrency: " ++ b.currency ++ "\nBlockstamp: " ++
    b.blockstamp.toText ++ "\nLocktime: " ++ toString b.locktime ++
    "\nIssuers:\n" ++ printLines (b.issuers.map C.base58) ++
    "Inputs:\n" ++ printLines (b.inputs.map (TransactionInput.toText C)) ++
    "Unlocks:\n" ++ printLines (b.unlocks.map TransactionInputUnlocks.toText) ++
    "Outputs:\n" ++ printLines (b.outputs.map (TransactionOutput.toText C)) ++
    "Comment: " ++ b.comment ++ "\n"

/-- Build the document with a text and signatures. -/
def buildWithTextAndSigs (b : TransactionDocumentBuilder) (text : String)
    (signatures : List Sig) : TransactionDocument :=
  { text := some text
    currency := b.currency
    blockstamp := b.blockstamp
    locktime := b.locktime
    issuers := b.issuers
    inputs := b.inputs
    unlocks := b.unlocks
    outputs := b.outputs
    comment := b.comment
    signatures
    hash := b.hash }

/-- Build a document with provided signatures. -/
def buildWithSignature (b : TransactionDocumentBuilder) (signatures : List Sig) :
    TransactionDocument :=
  b.buildWithTextAndSigs (b.generateText C) signatures

/-- The generated text, and its signatures by some keys. -/
def buildSignedText (b : TransactionDocumentBuilder) (privateKeys : List PrivKey) :
    String × List Sig :=
  let text := b.generateText C
  (text, privateKeys.map fun key => C.sign key text)

/-- Build a document and sign it with the private keys. -/
def buildAndSign (b : TransactionDocumentBuilder) (privateKeys : List PrivKey) :
    TransactionDocument :=
  let (text, signatures) := b.buildSignedText C privateKeys
  b.buildWithTextAndSigs text signatures

end TransactionDocumentBuilder

end Durs
