/-
# Reading the parts of a block from their texts

The conversions that the readers of a block apply to the texts that it holds: hashes, blockstamps,
currency parameters, the parts of a transaction, and the compact forms of revocations and
certifications.  A result that is an error is only told from a value; an index out of bounds and an
unwrapped error stop the process.
-/

import Durs.Documents.Parsers
import Durs.Lib.Readings

namespace Durs

open RustStd

/-- `text.split(c)`. -/
def split (c : Char) (text : String) : List String := (text.toList.splitOn c).map String.ofList

/-! ## Hashes and blockstamps -/

/-- The digits of so many bytes; both characters of a byte are indexed before they are looked at. -/
def hexBytes : Nat → List Char → OptionT Run (List Nat)
  | 0, _ => return []
  | count + 1, c :: c' :: chars => do
      let digit ← hexValue c
      let digit' ← hexValue c'
      let digits ← hexBytes count chars
      return digit :: digit' :: digits
  | _ + 1, _ => OptionT.lift (fatalError "index out of bounds")

/-- `Hash::from_hex`, on any text: 64 bytes are asked for, and as many characters are indexed. -/
def Hash.fromHexText (text : String) : OptionT Run Hash :=
  if byteLen text.toList ≠ 64 then failure
  else do
    let digits ← hexBytes 32 text.toList
    return BitVec.ofNat 256 (hexNumber digits)

/-- `Blockstamp::from_string`: the hash is read even when the number is not one. -/
def Blockstamp.fromString (src : String) : OptionT Run Blockstamp :=
  match split '-' src with
  | [id, hash] => do
      let hash ← OptionT.lift (Hash.fromHexText hash).run
      let id ← parseUnsigned 32 id.toList
      let hash ← hash
      return { id, hash }
  | _ => failure

/-! ## Currency parameters -/

/-- `params[i].parse()?`. -/
def readParam {α : Type} (params : List String) (i : Nat) (parse : List Char → Option α) :
    OptionT Run α := do
  let param ← OptionT.lift (indexVec params i)
  parse param.toList

/-- `BlockV10Parameters::from_str`. -/
def BlockV10Parameters.fromStr (parseF64 : List Char → Option F64) (source : String) :
    OptionT Run BlockV10Parameters := do
  let params := split ':' source
  let c ← readParam params 0 parseF64
  let dt ← readParam params 1 (parseUnsigned 64)
  let ud0 ← readParam params 2 (parseUnsigned 64)
  let sigPeriod ← readParam params 3 (parseUnsigned 64)
  let sigStock ← readParam params 4 (parseUnsigned 64)
  let sigWindow ← readParam params 5 (parseUnsigned 64)
  let sigValidity ← readParam params 6 (parseUnsigned 64)
  let sigQty ← readParam params 7 (parseUnsigned 64)
  let idtyWindow ← readParam params 8 (parseUnsigned 64)
  let msWindow ← readParam params 9 (parseUnsigned 64)
  let xPercent ← readParam params 10 parseF64
  let msValidity ← readParam params 11 (parseUnsigned 64)
  let stepMax ← readParam params 12 (parseUnsigned 64)
  let medianTimeBlocks ← readParam params 13 (parseUnsigned 64)
  let avgGenTime ← readParam params 14 (parseUnsigned 64)
  let dtDiffEval ← readParam params 15 (parseUnsigned 64)
  let percentRot ← readParam params 16 parseF64
  let udTime0 ← readParam params 17 (parseUnsigned 64)
  let udReevalTime0 ← readParam params 18 (parseUnsigned 64)
  let dtReeval ← readParam params 19 (parseUnsigned 64)
  return {
    c, dt, ud0, sigPeriod, sigStock, sigWindow, sigValidity, sigQty, idtyWindow, msWindow
    xPercent, msValidity, stepMax, medianTimeBlocks, avgGenTime, dtDiffEval, percentRot
    udTime0, udReevalTime0, dtReeval }

variable (C : DocCrypto)

/-! ## Builders -/

/-- Build a document with provided signatures, of which a block gives one. -/
def IdentityDocumentBuilder.buildWithSignature (b : IdentityDocumentBuilder) (signature : Sig) :
    IdentityDocument :=
  { text := some (b.generateText C)
    currency := b.currency
    username := b.username
    blockstamp := b.blockstamp
    issuer := b.issuer
    signature }

/-- Build a document with provided signatures, of which a block gives one. -/
def MembershipDocumentBuilder.buildWithSignature (b : MembershipDocumentBuilder)
    (signature : Sig) : MembershipDocument :=
  { text := some (b.generateText C)
    currency := b.currency
    issuer := b.issuer
    blockstamp := b.blockstamp
    membership := b.membership
    identityUsername := b.identityUsername
    identityBlockstamp := b.identityBlockstamp
    signature }

/-! ## Parts of a transaction -/

/-- What is built from the rules within the first rule that the grammar matches. -/
def parseInner {α : Type} (e : Lib.Peg.Expr Rule) (fromPestPair : List DocPair → Run α)
    (source : String) : OptionT Run α := do
  let pairs ← DocumentsParser.parse e source
  let (pair, _) ← OptionT.lift (nextPair pairs)
  OptionT.lift (fromPestPair pair.inner)

/-- `TransactionInput::from_str`. -/
def TransactionInput.fromStr : String → OptionT Run TransactionInput :=
  parseInner Grammar.txInput (fromPestPair C)

/-- `TransactionInputUnlocks::from_str`. -/
def TransactionInputUnlocks.fromStr : String → OptionT Run TransactionInputUnlocks :=
  parseInner Grammar.txUnlock fromPestPair

/-- The text of an output that is parsed first: brackets are put around its third part. -/
def TransactionOutput.strToParse (source : String) : String :=
  match split ':' source with
  | amount :: base :: conditions :: _ => amount ++ ":" ++ base ++ ":(" ++ conditions ++ ")"
  | _ => source

/-- `TransactionOutput::from_str`: the text with brackets, or else the text as it is.  The original
text of the conditions is the third part in both cases. -/
def TransactionOutput.fromStr (source : String) : OptionT Run TransactionOutput := do
  let strToParse := strToParse source
  let text :=
    if (DocumentsParser.parse Grammar.txOutput strToParse).isSome then strToParse else source
  let output ← parseInner Grammar.txOutput (fromPestPair C) text
  return { output with
    conditions := { output.conditions with originStr := (split ':' source)[2]? } }

/-! ## Compact revocations and certifications -/

/-- The compact form of a revocation, when the text has two parts. -/
def parseCompactRevocation (revocation : String) : Run (Option CompactRevocationDocument) :=
  match split ':' revocation with
  | [issuer, signature] => do
      let issuer ← expect (C.fromBase58 issuer) "Receive block in wrong format !"
      let signature ← expect (C.fromBase64 signature) "Receive block in wrong format !"
      return some { issuer, signature }
  | _ => return none

/-- `parse_revocations_into_compact`. -/
def parseRevocationsIntoCompact (strRevocations : List String) :
    Run (List CompactRevocationDocument) := do
  let revocations ← strRevocations.mapM (parseCompactRevocation C)
  return revocations.filterMap id

/-- The compact form of a certification, when the text has four parts. -/
def parseCompactCertification (certification : String) :
    Run (Option CompactCertificationDocument) :=
  match split ':' certification with
  | [issuer, target, blockNumber, signature] => do
      let issuer ← expect (C.fromBase58 issuer)
        "Receive block in wrong format : fail to parse issuer !"
      let target ← expect (C.fromBase58 target)
        "Receive block in wrong format : fail to parse target !"
      let blockNumber ← expect (parseUnsigned 32 blockNumber.toList)
        "Receive block in wrong format : fail to parse block number !"
      let signature ← expect (C.fromBase64 signature)
        "Receive block in wrong format : fail to parse signature !"
      return some { issuer, target, blockNumber, signature }
  | _ => return none

/-- `parse_certifications_into_compact`. -/
def parseCertificationsIntoCompact (strCerts : List String) :
    Run (List CompactCertificationDocument) := do
  let certifications ← strCerts.mapM (parseCompactCertification C)
  return certifications.filterMap id

end Durs
