/-
# Blocks in JSON

How the module reads a block that a peer sends.  A field that is missing or of another type makes
the block invalid; some of the texts within it are converted without a check, which stops the
process when they do not convert.
-/

import Durs.Documents.FromStr
import Durs.Ws2pV1.Json

namespace Durs

variable (C : DocCrypto)

/-! ## Identities, memberships and exclusions -/

/-- `parse_compact_identity`: the parts of the text are indexed without a look at how many there
are. -/
def parseCompactIdentity (currency : String) (source : Json) : OptionT Run IdentityDocument := do
  let text ← source.asStr
  let idtyElements := split ':' text
  let issuer ← OptionT.lift (indexVec idtyElements 0)
  let issuer ← C.fromBase58 issuer
  let signature ← OptionT.lift (indexVec idtyElements 1)
  let signature ← C.fromBase64 signature
  let blockstamp ← OptionT.lift (indexVec idtyElements 2)
  let blockstamp ← Blockstamp.fromString blockstamp
  let username ← OptionT.lift (indexVec idtyElements 3)
  let builder : IdentityDocumentBuilder := { currency, username, blockstamp, issuer }
  return builder.buildWithSignature C signature

/-- A blockstamp that is unwrapped. -/
def unwrapBlockstamp (src : String) : Run Blockstamp := do
  let blockstamp ← (Blockstamp.fromString src).run
  unwrap blockstamp

/-- Read one of the memberships: an error unless the text has five parts. -/
def parseCompactMembership (currency : String) (membershipType : MembershipType)
    (membership : Json) : Run (Option MembershipDocument) := do
  let text ← unwrap membership.asStr
  match split ':' text with
  | [issuer, signature, blockstamp, identityBlockstamp, username] => do
      let issuer ← unwrap (C.fromBase58 issuer)
      let blockstamp ← unwrapBlockstamp blockstamp
      let identityBlockstamp ← unwrapBlockstamp identityBlockstamp
      let builder : MembershipDocumentBuilder :=
        { currency, issuer, blockstamp, membership := membershipType,
          identityUsername := username, identityBlockstamp }
      let signature ← unwrap (C.fromBase64 signature)
      return some (builder.buildWithSignature C signature)
  | _ => return none

/-- `parse_memberships_from_json_value`. -/
def parseMembershipsFromJsonValue (currency : String) (membershipType : MembershipType)
    (arrayMemberships : List Json) : Run (List (Option MembershipDocument)) :=
  arrayMemberships.mapM (parseCompactMembership C currency membershipType)

/-- `parse_memberships`: the memberships that are errors are left out. -/
def parseMemberships (currency : String) (membershipType : MembershipType)
    (jsonMemberships : Json) : OptionT Run (List MembershipDocument) := do
  let elems ← jsonMemberships.asArray
  let memberships ← OptionT.lift (parseMembershipsFromJsonValue C currency membershipType elems)
  return memberships.filterMap id

/-- Read one of the exclusions. -/
def parseExclusion (exclusion : Json) : Run PubKey := do
  let text ← unwrap exclusion.asStr
  unwrap (C.fromBase58 text)

/-- `parse_exclusions_from_json_value`. -/
def parseExclusionsFromJsonValue (arrayExclusions : List Json) : Run (List PubKey) :=
  arrayExclusions.mapM (parseExclusion C)

/-! ## Transactions -/

/-- `parse_transaction`. -/
def parseTransaction (currency : String) (source : Json) : OptionT Run TransactionDocument := do
  let blockstamp ← source.str "blockstamp"
  let blockstamp ← Blockstamp.fromString blockstamp
  let locktime ← source.i64 "locktime"
  let issuers ← source.arr "issuers"
  let issuers ← issuers.mapM fun issuer => do
    let issuer ← issuer.asStr
    C.fromBase58 issuer
  let inputs ← source.arr "inputs"
  let inputs ← inputs.mapM fun input => do
    let input ← input.asStr
    TransactionInput.fromStr C input
  let unlocks ← source.arr "unlocks"
  let unlocks ← unlocks.mapM fun unlock => do
    let unlock ← unlock.asStr
    TransactionInputUnlocks.fromStr unlock
  let outputs ← source.arr "outputs"
  let outputs ← outputs.mapM fun output => do
    let output ← output.asStr
    TransactionOutput.fromStr C output
  let signatures ← source.arr "signatures"
  let signatures ← signatures.mapM fun signature => do
    let signature ← signature.asStr
    C.fromBase64 signature
  let comment ← source.str "comment"
  let hash ← source.str "hash"
  let hash ← Hash.fromHexText hash
  let builder : TransactionDocumentBuilder :=
    { currency, blockstamp, locktime := asU64 locktime, issuers, inputs, unlocks, outputs, comment,
      hash := some hash }
  return builder.buildWithSignature C signatures

/-! ## Blocks -/

/-- `parse_previous_hash`: only the genesis block may hold something else than a text. -/
def parsePreviousHash (blockNumber : BlockNumber) (source : Json) : OptionT Run Hash := do
  let previousHash ← source.get "previousHash"
  match previousHash.asStr with
  | some hashStr => Hash.fromHexText hashStr
  | none => if blockNumber > 0 then failure else return 0

/-- `parse_previous_issuer`. -/
def parsePreviousIssuer (source : Json) : Option PubKey := do
  let pubkeyStr ← source.str "previousIssuer"
  C.fromBase58 pubkeyStr

/-- Read the parameters: those of a text that is not the one of parameters are left out. -/
def parseParameters (parseF64 : List Char → Option F64) (source : Json) :
    OptionT Run (Option BlockV10Parameters) :=
  match source.get "parameters" with
  | some paramsJson => do
      let params ← paramsJson.asStr
      OptionT.lift (BlockV10Parameters.fromStr parseF64 params).run
  | none => return none

/-- `inner_hash_and_nonce_str`. -/
def innerHashAndNonceStr (innerHash : Hash) (nonce : Nat) : String :=
  "InnerHash: " ++ innerHash.toHex ++ "\nNonce: " ++ toString nonce ++ "\n"

/-- `parse_json_block`. -/
def parseJsonBlock (parseF64 : List Char → Option F64) (source : Json) :
    OptionT Run BlockDocument := do
  let number ← source.u64 "number"
  let currency ← source.str "currency"
  let issuer ← source.str "issuer"
  let issuer ← C.fromBase58 issuer
  let sig ← source.str "signature"
  let sig ← C.fromBase64 sig
  let hash ← source.str "hash"
  let hash ← Hash.fromHexText hash
  let parameters ← parseParameters parseF64 source
  let previousHash ← parsePreviousHash (asU32 number) source
  let innerHash ← source.str "inner_hash"
  let innerHash ← Hash.fromHexText innerHash
  let dividend ← source.get "dividend"
  let identities ← source.arr "identities"
  let identities ← identities.mapM (parseCompactIdentity C currency)
  let joiners ← source.get "joiners"
  let joiners ← parseMemberships C currency .in joiners
  let actives ← source.get "actives"
  let actives ← parseMemberships C currency .in actives
  let leavers ← source.get "leavers"
  let leavers ← parseMemberships C currency .out leavers
  let revoked ← source.arr "revoked"
  let certifications ← source.arr "certifications"
  let transactions ← source.arr "transactions"
  let transactions ← transactions.mapM (parseTransaction C "g1")
  let nonce ← source.i64 "nonce"
  let version ← source.u64 "version"
  let powMin ← source.u64 "powMin"
  let time ← source.u64 "time"
  let medianTime ← source.u64 "medianTime"
  let membersCount ← source.u64 "membersCount"
  let monetaryMass ← source.u64 "monetaryMass"
  let unitBase ← source.u64 "unitbase"
  let issuersCount ← source.u64 "issuersCount"
  let issuersFrame ← source.i64 "issuersFrame"
  let issuersFrameVar ← source.i64 "issuersFrameVar"
  let revoked ← OptionT.lift
    (parseRevocationsIntoCompact C (revoked.map fun v => v.asStr.getD ""))
  let excluded ← source.arr "excluded"
  let excluded ← OptionT.lift (parseExclusionsFromJsonValue C excluded)
  let certifications ← OptionT.lift
    (parseCertificationsIntoCompact C (certifications.map fun v => v.asStr.getD ""))
  let printedNonce ← source.u64 "nonce"
  return {
    nonce := asU64 nonce
    version := asU32 version
    number := asU32 number
    powMin
    time
    medianTime
    membersCount
    monetaryMass
    unitBase
    issuersCount
    issuersFrame
    issuersFrameVar
    currency
    issuers := [issuer]
    signatures := [sig]
    hash := some hash
    parameters
    previousHash
    previousIssuer := parsePreviousIssuer C source
    innerHash := some innerHash
    dividend := dividend.asU64
    identities
    joiners
    actives
    leavers
    revoked
    excluded
    certifications
    transactions := transactions.map .txDoc
    innerHashAndNonceStr := innerHashAndNonceStr innerHash printedNonce }

end Durs
