/-
# Serializers

How the documents of a block are written in the JSON of the first version of the protocol, and the
answers to the requests for blocks.
-/

import Durs.Documents.Stringified
import Durs.Ws2pV1.Blocks

namespace Durs

open RustStd

/-! ## Values -/

namespace Json

/-- A signed integer. -/
def ofInt : Int → Json
  | .ofNat n => posInt n
  | .negSucc n => negInt (.negSucc n)

/-- A text, or `null`. -/
def ofOption : Option String → Json
  | some s => string s
  | none => null

@[simp] theorem asStr_ofOption (text : Option String) : (ofOption text).asStr = text := by
  cases text with
  | none => rfl
  | some text => rfl

/-- A list of texts. -/
def ofTexts (texts : List String) : Json := array (texts.map string)

end Json

/-! ## `into_ws2p_v1_json` -/

def IdentityStringDocument.intoWs2pV1Json (doc : IdentityStringDocument) : Json :=
  .string (doc.issuer ++ ":" ++ doc.signature ++ ":" ++ doc.blockstamp ++ ":" ++ doc.username)

def MembershipStringDocument.intoWs2pV1Json (doc : MembershipStringDocument) : Json :=
  .string (doc.issuer ++ ":" ++ doc.signature ++ ":" ++ doc.blockstamp ++ ":" ++
    doc.identityBlockstamp ++ ":" ++ doc.username)

def CompactRevocationStringDocument.intoWs2pV1Json (doc : CompactRevocationStringDocument) :
    Json :=
  .string (doc.issuer ++ ":" ++ doc.signature)

def CompactCertificationStringDocument.intoWs2pV1Json
    (doc : CompactCertificationStringDocument) : Json :=
  .string (doc.issuer ++ ":" ++ doc.target ++ ":" ++ toString doc.blockNumber ++ ":" ++
    doc.signature)

def TransactionDocumentStringified.intoWs2pV1Json (doc : TransactionDocumentStringified) : Json :=
  .object [
    ("blockstamp", .string doc.blockstamp),
    ("blockstampTime", .posInt 0),
    ("comment", .string doc.comment),
    ("currency", .string doc.currency),
    ("hash", .ofOption doc.hash),
    ("inputs", .ofTexts doc.inputs),
    ("issuers", .ofTexts doc.issuers),
    ("locktime", .posInt doc.locktime),
    ("outputs", .ofTexts doc.outputs),
    ("signatures", .ofTexts doc.signatures),
    ("unlocks", .ofTexts doc.unlocks),
    ("version", .posInt 10)]

/-- The fields of a block, with its first issuer and its first signature.  The dividend is left
out, and the version is always the same one. -/
def BlockDocumentStringified.jsonWith (doc : BlockDocumentStringified)
    (issuer signature : String) : Json :=
  .object [
    ("actives", .array (doc.actives.map MembershipStringDocument.intoWs2pV1Json)),
    ("certifications",
      .array (doc.certifications.map CompactCertificationStringDocument.intoWs2pV1Json)),
    ("currency", .string doc.currency),
    ("dividend", .null),
    ("excluded", .ofTexts doc.excluded),
    ("fork", .bool false),
    ("hash", .ofOption doc.hash),
    ("identities", .array (doc.identities.map IdentityStringDocument.intoWs2pV1Json)),
    ("inner_hash", .ofOption doc.innerHash),
    ("issuer", .string issuer),
    ("issuersCount", .posInt doc.issuersCount),
    ("issuersFrame", .ofInt doc.issuersFrame),
    ("issuersFrameVar", .ofInt doc.issuersFrameVar),
    ("joiners", .array (doc.joiners.map MembershipStringDocument.intoWs2pV1Json)),
    ("leavers", .array (doc.leavers.map MembershipStringDocument.intoWs2pV1Json)),
    ("medianTime", .posInt doc.medianTime),
    ("membersCount", .posInt doc.membersCount),
    ("monetaryMass", .posInt doc.monetaryMass),
    ("nonce", .posInt doc.nonce),
    ("number", .posInt doc.number),
    ("parameters", .string (doc.parameters.getD "")),
    ("powMin", .posInt doc.powMin),
    ("previousHash", .string doc.previousHash),
    ("previousIssuer", .ofOption doc.previousIssuer),
    ("revoked", .array (doc.revoked.map CompactRevocationStringDocument.intoWs2pV1Json)),
    ("signature", .string signature),
    ("time", .posInt doc.time),
    ("transactions",
      .array (doc.transactions.map TransactionDocumentStringified.intoWs2pV1Json)),
    ("unitbase", .posInt doc.unitBase),
    ("version", .posInt 10)]

def BlockDocumentStringified.intoWs2pV1Json (doc : BlockDocumentStringified) : Run Json := do
  let issuer ← indexVec doc.issuers 0
  let signature ← indexVec doc.signatures 0
  return doc.jsonWith issuer signature

/-- A block as it is served. -/
def BlockDocument.intoWs2pV1Json (C : DocCrypto) (printF64 : F64 → String)
    (block : BlockDocument) : Run Json := do
  let doc ← block.toStringObject C printF64
  doc.intoWs2pV1Json

/-- A served block is an object of its fields. -/
theorem BlockDocument.exists_jsonWith {C : DocCrypto} {printF64 : F64 → String}
    {block : BlockDocument} {json : Json} (h : block.intoWs2pV1Json C printF64 = .ok json) :
    ∃ transactions issuer signature,
      json = (block.stringified C printF64 transactions).jsonWith issuer signature := by
  rw [BlockDocument.intoWs2pV1Json, bind_eq_ok_iff] at h
  rcases h with ⟨doc, hdoc, h⟩
  rw [BlockDocument.toStringObject, bind_eq_ok_iff] at hdoc
  rcases hdoc with ⟨transactions, -, hdoc⟩
  obtain rfl := Except.ok.inj hdoc
  rw [BlockDocumentStringified.intoWs2pV1Json, bind_eq_ok_iff] at h
  rcases h with ⟨issuer, -, h⟩
  rw [bind_eq_ok_iff] at h
  rcases h with ⟨signature, -, h⟩
  exact ⟨transactions, issuer, signature, (Except.ok.inj h).symm⟩

end Durs
