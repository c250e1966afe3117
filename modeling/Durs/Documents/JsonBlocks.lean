/-
# Blocks in the JSON of chunks

How a block of a chunk of JSON is read.  Every number of the text is read as a floating-point number
and cast to the type of its field.
-/

import Durs.Documents.CompactTexts
import Durs.JsonParser.Fields

namespace Durs.Parsers

open RustStd Lib JsonObject

/-- `?` on an error of a field, of which only is kept that it is one. -/
instance liftResult : MonadLift (Except ParseJsonError) (OptionT Run) :=
  ⟨fun x => OptionT.mk (pure x.toOption)⟩

/-- A field is read when its reading is no error. -/
theorem run_result_eq_some_iff {α : Type} {x : Except ParseJsonError α} {a : α} :
    (liftM x : OptionT Run α).run = .ok (some a) ↔ x = .ok a := by
  cases x with
  | error e => exact iff_of_false nofun nofun
  | ok b =>
      constructor
      · intro h
        exact congrArg Except.ok (Option.some.inj (Except.ok.inj h))
      · rintro h
        exact congrArg (fun b => Except.ok (some b)) (Except.ok.inj h)

/-- A field is read, and what comes after it. -/
theorem run_field_bind {α β : Type} {x : Except ParseJsonError α} {a : α} {f : α → OptionT Run β}
    {b : β} (h : x = .ok a) (hf : (f a).run = .ok (some b)) :
    ((liftM x : OptionT Run α) >>= f).run = .ok (some b) :=
  run_bind_eq_some_iff.2 ⟨a, run_result_eq_some_iff.2 h, hf⟩

variable (C : DocCrypto)

/-! ## Transactions -/

/-- Unescape backslashes, after a character. -/
def unescapeFrom (previous : Option Char) : List Char → List Char
  | [] => []
  | current :: chars =>
      if previous = some '\\' ∧ current = '\\' then unescapeFrom (some current) chars
      else current :: unescapeFrom (some current) chars

/-- `unescape_str`. -/
def unescapeStr (source : String) : String := String.ofList (unescapeFrom none source.toList)

/-- The hash of a transaction, if there is one. -/
def readTransactionHash (jsonTx : JsonObject) : OptionT Run (Option Hash) := do
  let hash ← getOptionalStr jsonTx "hash"
  match hash with
  | some hashStr => do
      let hash ← Hash.fromHexText hashStr
      return some hash
  | none => return none

/-- `parse_json_transaction`. -/
def parseJsonTransaction (jsonTx : JSONValue) : OptionT Run TransactionDocument := do
  let jsonTx ← jsonTx.toObject
  let currency ← getStr jsonTx "currency"
  let blockstamp ← getStr jsonTx "blockstamp"
  let blockstamp ← Blockstamp.fromString blockstamp
  let locktime ← getUnsigned jsonTx "locktime" 64
  let issuers ← getStrArray jsonTx "issuers"
  let issuers ← (issuers.mapM C.fromBase58 : Option (List PubKey))
  let inputs ← getStrArray jsonTx "inputs"
  let inputs ← inputs.mapM (TransactionInput.fromStr C)
  let unlocks ← getStrArray jsonTx "unlocks"
  let unlocks ← unlocks.mapM TransactionInputUnlocks.fromStr
  let outputs ← getStrArray jsonTx "outputs"
  let outputs ← outputs.mapM (TransactionOutput.fromStr C)
  let comment ← getStr jsonTx "comment"
  let hash ← readTransactionHash jsonTx
  let builder : TransactionDocumentBuilder :=
    { currency, blockstamp, locktime, issuers, inputs, unlocks, outputs,
      comment := unescapeStr comment, hash }
  let signatures ← getStrArray jsonTx "signatures"
  let signatures ← (signatures.mapM C.fromBase64 : Option (List Sig))
  return builder.buildWithSignature C signatures

/-! ## Blocks -/

/-- The parameters, if their text is there and not empty. -/
def readParameters (parseF64 : List Char → Option F64) (jsonBlock : JsonObject) :
    OptionT Run (Option BlockV10Parameters) := do
  let params ← getOptionalStrNotEmpty jsonBlock "parameters"
  match params with
  | some params => do
      let params ← BlockV10Parameters.fromStr parseF64 params
      return some params
  | none => return none

/-- The hash of the previous block, of another block than the first. -/
def readPreviousHash (jsonBlock : JsonObject) (number : BlockNumber) : OptionT Run Hash :=
  if number = 0 then return 0
  else do
    let previousHash ← getStr jsonBlock "previousHash"
    Hash.fromHexText previousHash

/-- The issuer of the previous block, of another block than the first. -/
def readPreviousIssuer (jsonBlock : JsonObject) (number : BlockNumber) :
    OptionT Run (Option PubKey) :=
  if number = 0 then return none
  else do
    let previousIssuer ← getStr jsonBlock "previousIssuer"
    let previousIssuer ← C.fromBase58 previousIssuer
    return some previousIssuer

/-- Memberships of a type. -/
def readMemberships (jsonBlock : JsonObject) (currency field : String) (type : MembershipType) :
    OptionT Run (List MembershipDocument) := do
  let memberships ← getStrArray jsonBlock field
  parseCompactMemberships C currency type memberships

/-- `parse_json_block`. -/
def parseJsonBlock (parseF64 : List Char → Option F64) (jsonBlock : JSONValue) :
    OptionT Run BlockDocument := do
  let jsonBlock ← jsonBlock.toObject
  let currency ← getStr jsonBlock "currency"
  let number ← getUnsigned jsonBlock "number" 32
  let version ← getUnsigned jsonBlock "version" 32
  let nonce ← getUnsigned jsonBlock "nonce" 64
  let powMin ← getUnsigned jsonBlock "powMin" 64
  let time ← getUnsigned jsonBlock "time" 64
  let medianTime ← getUnsigned jsonBlock "medianTime" 64
  let membersCount ← getUnsigned jsonBlock "membersCount" 64
  -- what is no number here counts as zero
  let monetaryMass := (getUnsigned jsonBlock "monetaryMass" 64).toOption.getD 0
  let unitBase ← getUnsigned jsonBlock "unitbase" 64
  let issuersCount ← getUnsigned jsonBlock "issuersCount" 64
  let issuersFrame ← getSigned jsonBlock "issuersFrame" 64
  let issuersFrameVar ← getSigned jsonBlock "issuersFrameVar" 64
  let issuer ← getStr jsonBlock "issuer"
  let issuer ← C.fromBase58 issuer
  let signature ← getStr jsonBlock "signature"
  let signature ← C.fromBase64 signature
  let hash ← getStr jsonBlock "hash"
  let hash ← Hash.fromHexText hash
  let parameters ← readParameters parseF64 jsonBlock
  let previousHash ← readPreviousHash jsonBlock number
  let previousIssuer ← readPreviousIssuer C jsonBlock number
  let innerHash ← getStr jsonBlock "inner_hash"
  let innerHash ← Hash.fromHexText innerHash
  let dividend ← getOptionalUsize jsonBlock "dividend"
  let identities ← getStrArray jsonBlock "identities"
  let identities ← parseCompactIdentities C currency identities
  let joiners ← readMemberships C jsonBlock currency "joiners" .in
  let actives ← readMemberships C jsonBlock currency "actives" .in
  let leavers ← readMemberships C jsonBlock currency "leavers" .out
  let revoked ← getStrArray jsonBlock "revoked"
  let revoked ← OptionT.lift (parseRevocationsIntoCompact C revoked)
  let excluded ← getStrArray jsonBlock "excluded"
  let excluded ← (excluded.mapM C.fromBase58 : Option (List PubKey))
  let certifications ← getStrArray jsonBlock "certifications"
  let certifications ← OptionT.lift (parseCertificationsIntoCompact C certifications)
  let transactions ← jsonBlock.lookup "transactions"
  let transactions ← transactions.toArray
  let transactions ← transactions.mapM (parseJsonTransaction C)
  return {
    version
    nonce
    number
    powMin
    time
    medianTime
    membersCount
    monetaryMass
    unitBase
    issuersCount
    issuersFrame
    issuersFrameVar
    currency
    issuers := [issuer]
    signatures := [signature]
    hash := some hash
    parameters
    previousHash
    previousIssuer
    innerHash := some innerHash
    dividend
    identities
    joiners
    actives
    leavers
    revoked
    excluded
    certifications
    transactions := transactions.map .txDoc
    innerHashAndNonceStr := "" }

/-- A block that is parsed has its hash, and a number of its type. -/
theorem hash_of_parseJsonBlock {C : DocCrypto} {parseF64 : List Char → Option F64}
    {jsonBlock : JSONValue} {block : BlockDocument}
    (h : (parseJsonBlock C parseF64 jsonBlock).run = .ok (some block)) :
    block.hash.isSome ∧ block.number < 2 ^ 32 := by
  rw [parseJsonBlock] at h
  rcases run_bind_eq_some_iff.1 h with ⟨_, -, h⟩
  rcases run_bind_eq_some_iff.1 h with ⟨_, -, h⟩
  rcases run_bind_eq_some_iff.1 h with ⟨number, hnumber, h⟩
  -- the other fields are read, and the block is put together of them
  repeat rcases run_bind_eq_some_iff.1 h with ⟨_, -, h⟩
  obtain rfl := run_pure_eq_some_iff.1 h
  exact ⟨rfl, getUnsigned_lt (run_result_eq_some_iff.1 hnumber)⟩

end Durs.Parsers
