/-
# Signing messages in binary format

A message is signed over its bytes without the signature, or over the hash of these bytes when it
stores its hash, as the field just before the signature.  Signing assembles the bytes of the signed
message by cutting and extending those of the unsigned one; verifying cuts them from the other side.
-/

import Durs.Documents.Integers
import Durs.RustStd.BigEndian
import Durs.Ws2p.Messages

namespace Durs.Ws2p

open RustStd

/-- `PrivKey`. -/
inductive PrivKey
  | ed25519 (privkey : BitVec 512)
  | schnorr
deriving DecidableEq, Repr

/-- `KeyPairEnum::private_key`. -/
def KeyPairEnum.privateKey : KeyPairEnum → Run PrivKey
  | .ed25519 keyPair => return .ed25519 keyPair.privkey
  | .schnorr => fatalError "Schnorr algo not yet supported !"

/-- The bytes of a hash. -/
def hashBytes (hash : Hash) : List UInt8 := bigEndian 32 hash.toNat

/-- `SignError`. -/
inductive SignError
  | wrongAlgo
  | wrongPrivkey
  | alreadySign
  | serdeError
deriving DecidableEq, Repr

/-- `SigError`. -/
inductive SigError
  | notSameAlgo
  | invalidSig
  | notSig
  | serdeError
deriving DecidableEq, Repr

/-- The libraries that signing goes through: what `bincode` writes of the optional fields, and the
hash and signature algorithms. -/
structure SignLibs where
  serializeHash : Option Hash → Option (List UInt8)
  serializeSig : Option Sig → Option (List UInt8)
  computeHash : List UInt8 → Hash
  sign : BitVec 512 → List UInt8 → Durs.Sig
  verify : Durs.PubKey → List UInt8 → Durs.Sig → Bool

/-- `BinSignable`: a type of messages that can be signed in binary format, with its serialization.
By default a message does not store its hash. -/
structure BinSignable (M : Type) where
  serialize : M → Option (List UInt8)
  issuerPubkey : M → Run PubKey
  storeHash : M → Run Bool := fun _ => return false
  hash : M → Run (Option Hash) := fun _ => return none
  setHash : M → Hash → Run M := fun msg _ => return msg
  signature : M → Run (Option Sig)
  setSignature : M → Sig → Run M

namespace BinSignable

variable {M : Type} (B : BinSignable M) (L : SignLibs)

/-- Get binary datas without signature. -/
def getBinWithoutSig (msg : M) : Run (Option (List UInt8)) :=
  match B.serialize msg with
  | none => return none
  | some binMsg => do
      let signature ← B.signature msg
      match L.serializeSig signature with
      | none => return none
      | some binSig => return some (binMsg.take (subU64 binMsg.length binSig.length))

/-- Compute hash, with the binary datas that it is the hash of. -/
def computeHash (msg : M) : Run (Option (Hash × List UInt8)) := do
  let binMsg ← B.getBinWithoutSig L msg
  match binMsg with
  | none => return none
  | some binMsg =>
      let storeHash ← B.storeHash msg
      -- Delete hash: one byte, for there is none.
      let binMsg := if storeHash then binMsg.dropLast else binMsg
      return some (L.computeHash binMsg, binMsg)

/-- Set the signature, and extend the bytes with it. -/
def putSignature (msg : M) (binMsg : List UInt8) (sig : Durs.Sig) : Run (M × List UInt8) := do
  let msg ← B.setSignature msg (.ed25519 sig)
  let binSig ← expect (L.serializeSig (some (.ed25519 sig))) "Fail to binarize sig !"
  return (msg, binMsg ++ binSig)

/-- Set the hash, and extend the bytes with it if the message stores it. -/
def putHash (msg : M) (binMsg : List UInt8) (hash : Hash) : Run (M × List UInt8) := do
  let msg ← B.setHash msg hash
  let stored ← B.hash msg
  if stored.isSome then
    let binHash ← expect (L.serializeHash (some hash)) "Fail to binarize hash !"
    return (msg, binMsg ++ binHash)
  else return (msg, binMsg)

/-- Sign bin message: the message as it is then, and its bytes. -/
def sign (msg : M) (privKey : PrivKey) : Run (Except SignError (M × List UInt8)) := do
  let signature ← B.signature msg
  if signature.isSome then return .error .alreadySign
  else
    let issuerPubkey ← B.issuerPubkey msg
    match issuerPubkey, privKey with
    | .ed25519 _, .ed25519 privkey =>
        let storeHash ← B.storeHash msg
        if storeHash then
          let hashed ← B.computeHash L msg
          let (hash, binMsg) ← expect hashed "Fail to compute hash !"
          let (msg, binMsg) ← B.putHash L msg binMsg hash
          let signed ← B.putSignature L msg binMsg (L.sign privkey (hashBytes hash))
          return .ok signed
        else
          match B.serialize msg with
          | none => return .error .serdeError
          | some binMsg =>
              -- Remove sig field: one byte, for there is none.
              let binMsg := binMsg.dropLast
              let signed ← B.putSignature L msg binMsg (L.sign privkey binMsg)
              return .ok signed
    | _, _ => return .error .wrongAlgo

/-- The bytes that the signature of a message is of. -/
def signedPart (msg : M) : Run (Option (List UInt8)) := do
  let storeHash ← B.storeHash msg
  if storeHash then
    let hash ← B.hash msg
    match hash with
    | some hash => return some (hashBytes hash)
    | none =>
        let hashed ← B.computeHash L msg
        return hashed.map fun hashed => hashBytes hashed.1
  else B.getBinWithoutSig L msg

/-- Check signature of bin message. -/
def verify (msg : M) : Run (Except SigError Unit) := do
  let signature ← B.signature msg
  match signature with
  | none => return .error .notSig
  | some signature =>
      let issuerPubkey ← B.issuerPubkey msg
      match issuerPubkey, signature with
      | .ed25519 pubkey, .ed25519 sig =>
          let signedPart ← B.signedPart L msg
          match signedPart with
          | none => return .error .serdeError
          | some signedPart =>
              if L.verify pubkey signedPart sig then return .ok () else return .error .invalidSig
      | _, _ => return .error .notSameAlgo

end BinSignable

/-! ## Messages of WS2P -/

/-- How `WS2Pv2Message` is signed. -/
def ws2pv2MessageBinSignable (serialize : WS2Pv2Message → Option (List UInt8)) :
    BinSignable WS2Pv2Message where
  serialize
  issuerPubkey msg := return msg.issuerPubkey
  storeHash _ := return false
  signature msg := return msg.signature
  setSignature msg signature := return { msg with signature := some signature }

/-- The version 2 of a message; the others are not used. -/
def WS2PMessage.expectV2 : WS2PMessage → Run WS2Pv2Message
  | .v2 msg => return msg
  | .v0 | .v1 => fatalError "Dev error: must not use WS2PMessage version < 2 in WS2Pv2+ !"

/-- How `WS2PMessage` is signed: as the message of version 2 that it wraps. -/
def ws2pMessageBinSignable (serialize : WS2PMessage → Option (List UInt8)) :
    BinSignable WS2PMessage :=
  let inner := ws2pv2MessageBinSignable fun msg => serialize (.v2 msg)
  { serialize
    issuerPubkey := fun msg => do inner.issuerPubkey (← msg.expectV2)
    storeHash := fun msg => do inner.storeHash (← msg.expectV2)
    hash := fun msg => do inner.hash (← msg.expectV2)
    setHash := fun msg hash => do return .v2 (← inner.setHash (← msg.expectV2) hash)
    signature := fun msg => do inner.signature (← msg.expectV2)
    setSignature := fun msg signature => do
      return .v2 (← inner.setSignature (← msg.expectV2) signature) }

/-- Encapsulate message payload: the message, signed by its issuer, and its bytes. -/
def encapsulatePayload (L : SignLibs) (serialize : WS2PMessage → Option (List UInt8))
    (currencyName : String) (issuerNodeId : NodeId) (issuerKeypair : KeyPairEnum)
    (payload : WS2Pv2MessagePayload) : Run (Except SignError (WS2PMessage × List UInt8)) := do
  let issuerPubkey ← issuerKeypair.publicKey
  let privateKey ← issuerKeypair.privateKey
  (ws2pMessageBinSignable serialize).sign L
    (.v2 { currencyName, issuerNodeId, issuerPubkey, payload, messageHash := none, signature := none })
    privateKey

/-- The libraries that messages go through. -/
def SignLibs.codec (L : SignLibs) (serialize : WS2PMessage → Option (List UInt8))
    (deserialize : List UInt8 → Option WS2PMessage) : Codec where
  serialize
  serializeSig := L.serializeSig
  deserialize
  computeHash := L.computeHash
  sign keyPair := L.sign keyPair.privkey
  verify := L.verify

/-! ## The layout of messages -/

/-- The layout of an optional field: one byte for `None`, a tag byte then the content for `Some`. -/
def encodeOption {α : Type} (encode : α → List UInt8) : Option α → List UInt8
  | none => [0]
  | some a => 1 :: encode a

/-- The hash and the signature have the layout of optional fields. -/
structure BincodeLayout (L : SignLibs) (encodeSig : Sig → List UInt8) : Prop where
  serializeHash_eq : ∀ hash, L.serializeHash hash = some (encodeOption hashBytes hash)
  serializeSig_eq : ∀ sig, L.serializeSig sig = some (encodeOption encodeSig sig)

/-- Verification accepts what the key pair signed. -/
def AcceptsOwn (L : SignLibs) (keyPair : KeyPair) : Prop :=
  ∀ bytes, L.verify keyPair.pubkey bytes (L.sign keyPair.privkey bytes) = true

/-- What a message consists of: its content, then its hash if it has a field for it, then its
signature. -/
structure MessageView where
  issuer : PubKey
  content : List UInt8
  hashField : Option (Option Hash)
  signature : Option Sig

namespace MessageView

/-- The bytes up to the signature. -/
def unsigned (view : MessageView) : List UInt8 :=
  view.content ++ (view.hashField.map (encodeOption hashBytes)).getD []

/-- The bytes of a message. -/
def bytes (encodeSig : Sig → List UInt8) (view : MessageView) : List UInt8 :=
  view.unsigned ++ encodeOption encodeSig view.signature

/-- Neither signed nor hashed. -/
def Fresh (view : MessageView) : Prop := view.signature = none ∧ view.hashField.join = none

end MessageView

/-- The accessors and the serialization of a message give what it consists of, and setting the hash
or the signature changes nothing else. -/
structure LawfulBinSignable {M : Type} (B : BinSignable M) (encodeSig : Sig → List UInt8)
    (Shown : M → MessageView → Prop) : Prop where
  serialize_eq : ∀ {msg view}, Shown msg view → B.serialize msg = some (view.bytes encodeSig)
  issuerPubkey_eq : ∀ {msg view}, Shown msg view → B.issuerPubkey msg = .ok view.issuer
  storeHash_eq : ∀ {msg view}, Shown msg view → B.storeHash msg = .ok view.hashField.isSome
  hash_eq : ∀ {msg view}, Shown msg view → B.hash msg = .ok view.hashField.join
  signature_eq : ∀ {msg view}, Shown msg view → B.signature msg = .ok view.signature
  setHash_eq : ∀ {msg view}, Shown msg view → view.hashField.isSome = true → ∀ hash,
    ∃ msg', B.setHash msg hash = .ok msg' ∧ Shown msg' { view with hashField := some (some hash) }
  setSignature_eq : ∀ {msg view}, Shown msg view → ∀ sig,
    ∃ msg', B.setSignature msg sig = .ok msg' ∧ Shown msg' { view with signature := some sig }

section

variable {M : Type} {B : BinSignable M} {L : SignLibs} {encodeSig : Sig → List UInt8}
  {Shown : M → MessageView → Prop} {keyPair : KeyPair} {msg : M} {view : MessageView}

/-- Cutting the bytes of the signature off leaves those before them. -/
theorem take_subU64_length (front back : List UInt8) :
    (front ++ back).take (subU64 (front ++ back).length back.length) = front := by
  have hsub : subU64 (front ++ back).length back.length = front.length := by
    rw [subU64, List.length_append, if_pos (Nat.le_add_left _ _), Nat.add_sub_cancel]
  rw [hsub, List.take_left]

theorem getBinWithoutSig_eq (hL : BincodeLayout L encodeSig)
    (hB : LawfulBinSignable B encodeSig Shown) (hshown : Shown msg view) :
    B.getBinWithoutSig L msg = .ok (some view.unsigned) := by
  simp only [BinSignable.getBinWithoutSig, hB.serialize_eq hshown, hB.signature_eq hshown, ok_bind,
    hL.serializeSig_eq]
  rw [MessageView.bytes, take_subU64_length]
  rfl

/-- The hash of a message that stores none yet is that of its content. -/
theorem computeHash_eq (hL : BincodeLayout L encodeSig)
    (hB : LawfulBinSignable B encodeSig Shown) (hshown : Shown msg view)
    (hfield : view.hashField = some none) :
    B.computeHash L msg = .ok (some (L.computeHash view.content, view.content)) := by
  have hunsigned : view.unsigned.dropLast = view.content := by
    rw [MessageView.unsigned, hfield]
    exact List.dropLast_concat
  simp only [BinSignable.computeHash, getBinWithoutSig_eq hL hB hshown, ok_bind,
    hB.storeHash_eq hshown, hfield, Option.isSome_some, if_true, hunsigned]
  rfl

/-- Signing extends the bytes up to the signature to those of the signed message. -/
theorem putSignature_eq (hL : BincodeLayout L encodeSig)
    (hB : LawfulBinSignable B encodeSig Shown) (hshown : Shown msg view) (sig : Durs.Sig) :
    ∃ msg', B.putSignature L msg view.unsigned sig =
        .ok (msg', { view with signature := some (.ed25519 sig) }.bytes encodeSig) ∧
      Shown msg' { view with signature := some (.ed25519 sig) } := by
  obtain ⟨msg', hset, hshown'⟩ := hB.setSignature_eq hshown (.ed25519 sig)
  refine ⟨msg', ?_, hshown'⟩
  simp only [BinSignable.putSignature, hset, ok_bind, hL.serializeSig_eq, expect_some]
  rfl

/-- Hashing extends the content to the bytes of the hashed message up to the signature. -/
theorem putHash_eq (hL : BincodeLayout L encodeSig)
    (hB : LawfulBinSignable B encodeSig Shown) (hshown : Shown msg view)
    (hfield : view.hashField = some none) (hash : Hash) :
    ∃ msg', B.putHash L msg view.content hash =
        .ok (msg', { view with hashField := some (some hash) }.unsigned) ∧
      Shown msg' { view with hashField := some (some hash) } := by
  obtain ⟨msg', hset, hshown'⟩ := hB.setHash_eq hshown (by rw [hfield]; rfl) hash
  refine ⟨msg', ?_, hshown'⟩
  simp only [BinSignable.putHash, hset, ok_bind, hB.hash_eq hshown', Option.join_some,
    Option.isSome_some, if_true, hL.serializeHash_eq, expect_some]
  rfl

/-- What is signed of a message: its hash if it stores one, and else its bytes up to the
signature. -/
def MessageView.signed (view : MessageView) : List UInt8 :=
  (view.hashField.join.map hashBytes).getD view.unsigned

/-- A signed message verifies when its signature is one of what is signed of it. -/
theorem verify_eq (hL : BincodeLayout L encodeSig) (hB : LawfulBinSignable B encodeSig Shown)
    (hkey : AcceptsOwn L keyPair) (hshown : Shown msg view)
    (hissuer : view.issuer = .ed25519 keyPair.pubkey) (hfield : view.hashField ≠ some none)
    (hsig : view.signature = some (.ed25519 (L.sign keyPair.privkey view.signed))) :
    B.verify L msg = .ok (.ok ()) := by
  have hpart : B.signedPart L msg = .ok (some view.signed) := by
    rw [BinSignable.signedPart, hB.storeHash_eq hshown, ok_bind]
    rcases hview : view.hashField with - | - | hash
    · simp only [Option.isSome_none, Bool.false_eq_true, if_false, MessageView.signed, hview,
        Option.join_none, Option.map_none, Option.getD_none]
      exact getBinWithoutSig_eq hL hB hshown
    · exact absurd hview hfield
    · simp only [Option.isSome_some, if_true, hB.hash_eq hshown, hview, Option.join_some, ok_bind,
        MessageView.signed, Option.map_some, Option.getD_some]
      rfl
  simp only [BinSignable.verify, hB.signature_eq hshown, ok_bind, hsig, hB.issuerPubkey_eq hshown,
    hissuer, hpart, hkey view.signed, if_true]
  rfl

/-- A fresh message that stores no hash is signed over its bytes up to the signature. -/
theorem sign_eq_of_not_storeHash (hL : BincodeLayout L encodeSig)
    (hB : LawfulBinSignable B encodeSig Shown) (hshown : Shown msg view)
    (hissuer : view.issuer = .ed25519 keyPair.pubkey) (hsig : view.signature = none)
    (hfield : view.hashField = none) :
    ∃ msg' sig, sig = .ed25519 (L.sign keyPair.privkey view.unsigned) ∧
      B.sign L msg (.ed25519 keyPair.privkey) =
        .ok (.ok (msg', { view with signature := some sig }.bytes encodeSig)) ∧
      Shown msg' { view with signature := some sig } := by
  obtain ⟨msg', hput, hshown'⟩ :=
    putSignature_eq hL hB hshown (L.sign keyPair.privkey view.unsigned)
  refine ⟨msg', _, rfl, ?_, hshown'⟩
  have hunsigned : (view.bytes encodeSig).dropLast = view.unsigned := by
    rw [MessageView.bytes, hsig]
    exact List.dropLast_concat
  simp only [BinSignable.sign, hB.signature_eq hshown, hsig, ok_bind, Option.isSome_none,
    Bool.false_eq_true, if_false, hB.issuerPubkey_eq hshown, hissuer, hB.storeHash_eq hshown, hfield,
    hB.serialize_eq hshown, hunsigned, hput]
  rfl

/-- A fresh message that stores its hash is signed over the hash of its content. -/
theorem sign_eq_of_storeHash (hL : BincodeLayout L encodeSig)
    (hB : LawfulBinSignable B encodeSig Shown) (hshown : Shown msg view)
    (hissuer : view.issuer = .ed25519 keyPair.pubkey) (hsig : view.signature = none)
    (hfield : view.hashField = some none) :
    ∃ msg' hash sig, sig = .ed25519 (L.sign keyPair.privkey (hashBytes hash)) ∧
      B.sign L msg (.ed25519 keyPair.privkey) = .ok (.ok (msg',
        { view with hashField := some (some hash), signature := some sig }.bytes encodeSig)) ∧
      Shown msg' { view with hashField := some (some hash), signature := some sig } := by
  obtain ⟨issuer, content, hashField, signature⟩ := view
  cases hissuer
  cases hsig
  cases hfield
  obtain ⟨mid, hhash, hmid⟩ := putHash_eq hL hB hshown rfl (L.computeHash content)
  obtain ⟨msg', hput, hshown'⟩ := putSignature_eq hL hB hmid
    (L.sign keyPair.privkey (hashBytes (L.computeHash content)))
  refine ⟨msg', _, _, rfl, ?_, hshown'⟩
  simp only [BinSignable.sign, hB.signature_eq hshown, ok_bind, Option.isSome_none,
    Bool.false_eq_true, if_false, hB.issuerPubkey_eq hshown, hB.storeHash_eq hshown,
    Option.isSome_some, if_true, computeHash_eq hL hB hshown rfl, expect_some, hhash, hput]
  rfl

/-- A fresh message is signed: the bytes are those of the message as it is then, which verifies. -/
theorem sign_eq (hL : BincodeLayout L encodeSig) (hB : LawfulBinSignable B encodeSig Shown)
    (hkey : AcceptsOwn L keyPair) (hshown : Shown msg view)
    (hissuer : view.issuer = .ed25519 keyPair.pubkey) (hfresh : view.Fresh) :
    ∃ msg' view' bytes, B.sign L msg (.ed25519 keyPair.privkey) = .ok (.ok (msg', bytes)) ∧
      Shown msg' view' ∧ view'.content = view.content ∧ B.serialize msg' = some bytes ∧
        B.verify L msg' = .ok (.ok ()) := by
  obtain ⟨hsig, hhash⟩ := hfresh
  rcases hfield : view.hashField with - | - | hash
  · obtain ⟨msg', sig, hsigned, hsign, hshown'⟩ :=
      sign_eq_of_not_storeHash hL hB hshown hissuer hsig hfield
    refine ⟨msg', _, _, hsign, hshown', rfl, hB.serialize_eq hshown', ?_⟩
    refine verify_eq hL hB hkey hshown' hissuer ?_ ?_
    · rw [hfield]
      exact fun heq => by cases heq
    · simp only [MessageView.signed, MessageView.unsigned, hfield, hsigned]
      rfl
  · obtain ⟨msg', hash, sig, hsigned, hsign, hshown'⟩ :=
      sign_eq_of_storeHash hL hB hshown hissuer hsig hfield
    refine ⟨msg', _, _, hsign, hshown', rfl, hB.serialize_eq hshown', ?_⟩
    refine verify_eq hL hB hkey hshown' hissuer (fun heq => by cases heq) ?_
    rw [hsigned]
    rfl
  · rw [hfield] at hhash
    cases hhash

end

/-! ## Encapsulating a payload -/

/-- The message that encapsulates a payload, before it is signed. -/
def messageOfPayload (keyPair : KeyPair) (currencyName : String) (issuerNodeId : NodeId)
    (payload : WS2Pv2MessagePayload) : WS2Pv2Message :=
  { currencyName, issuerNodeId, payload
    issuerPubkey := .ed25519 keyPair.pubkey, messageHash := none, signature := none }

/-- With any signature, a message is written as its first fields, its optional hash and its optional
signature, and is read back from that. -/
structure WS2PLayout (serialize : WS2PMessage → Option (List UInt8))
    (deserialize : List UInt8 → Option WS2PMessage) (encodeSig : Sig → List UInt8)
    (msg : WS2Pv2Message) (fields : List UInt8) : Prop where
  serialize_eq : ∀ signature, serialize (.v2 { msg with signature }) =
    some (fields ++ encodeOption hashBytes msg.messageHash ++ encodeOption encodeSig signature)
  deserialize_eq : ∀ signature, deserialize (fields ++ encodeOption hashBytes msg.messageHash ++
    encodeOption encodeSig signature) = some (.v2 { msg with signature })

/-- What a message is which differs from another in its signature alone.  Its hash field is written
with its content, since it is never set. -/
def ShownUpToSignature (msg : WS2Pv2Message) (fields : List UInt8) (signed : WS2PMessage)
    (view : MessageView) : Prop :=
  ∃ signature, signed = .v2 { msg with signature } ∧
    view = { issuer := msg.issuerPubkey
             content := fields ++ encodeOption hashBytes msg.messageHash
             hashField := none
             signature }

section

variable {L : SignLibs} {serialize : WS2PMessage → Option (List UInt8)}
  {deserialize : List UInt8 → Option WS2PMessage} {encodeSig : Sig → List UInt8}
  {keyPair : KeyPair} {msg : WS2Pv2Message} {fields : List UInt8}

theorem lawful_ws2pMessage (h : WS2PLayout serialize deserialize encodeSig msg fields) :
    LawfulBinSignable (ws2pMessageBinSignable serialize) encodeSig
      (ShownUpToSignature msg fields) where
  serialize_eq := by
    rintro _ _ ⟨signature, rfl, rfl⟩
    refine (h.serialize_eq signature).trans ?_
    rw [MessageView.bytes, MessageView.unsigned]
    simp only [Option.map_none, Option.getD_none, List.append_nil]
  issuerPubkey_eq := by
    rintro _ _ ⟨signature, rfl, rfl⟩
    rfl
  storeHash_eq := by
    rintro _ _ ⟨signature, rfl, rfl⟩
    rfl
  hash_eq := by
    rintro _ _ ⟨signature, rfl, rfl⟩
    rfl
  signature_eq := by
    rintro _ _ ⟨signature, rfl, rfl⟩
    rfl
  setHash_eq := by
    rintro _ _ ⟨signature, rfl, rfl⟩ hstores
    cases hstores
  setSignature_eq := by
    rintro _ _ ⟨signature, rfl, rfl⟩ sig
    exact ⟨_, rfl, some sig, rfl, rfl⟩

/-- A message verifies when its signature is one of its bytes up to the signature. -/
theorem verify_of_bytes {codec : Codec} {front back : List UInt8} {pubkey : Durs.PubKey}
    {sig : Durs.Sig} (hserialize : codec.serialize (.v2 msg) = some (front ++ back))
    (hback : codec.serializeSig msg.signature = some back)
    (hissuer : msg.issuerPubkey = .ed25519 pubkey) (hsig : msg.signature = some (.ed25519 sig))
    (hverify : codec.verify pubkey front sig = true) : msg.verify codec = .ok () := by
  have hbytes : msg.getBinWithoutSig codec = some front := by
    simp [WS2Pv2Message.getBinWithoutSig, hserialize, hback]
  simp only [WS2Pv2Message.verify, hsig, hissuer, hbytes, hverify, if_true]

/-- A signed message without a hash that is read and verifies is accepted. -/
theorem parse_of_verify {codec : Codec} {binMsg : List UInt8} {sig : Durs.Sig}
    (hread : codec.deserialize binMsg = some (.v2 msg)) (hhash : msg.messageHash = none)
    (hsig : msg.signature = some (.ed25519 sig)) (hverify : msg.verify codec = .ok ()) :
    parseAndCheckBinMessage codec binMsg = .ok (.ok (.v2 msg)) := by
  simp only [parseAndCheckBinMessage, hread, hsig, hhash, sigLen, hashIsValid, hverify]
  rfl

/-- The bytes that a connection sends for a payload. -/
theorem encapsulatePayload_codec (hL : BincodeLayout L encodeSig)
    {currencyName : String} {issuerNodeId : NodeId} {payload : WS2Pv2MessagePayload}
    (h : WS2PLayout serialize deserialize encodeSig
      (messageOfPayload keyPair currencyName issuerNodeId payload) fields) :
    WS2Pv2Message.encapsulatePayload (L.codec serialize deserialize) currencyName issuerNodeId
        (.ed25519 keyPair) payload =
      .ok (some (fields ++ encodeOption hashBytes none ++ encodeOption encodeSig
        (some (.ed25519 (L.sign keyPair.privkey (fields ++ encodeOption hashBytes none)))))) := by
  have hunsigned := h.serialize_eq none
  have hdrop : (fields ++ encodeOption hashBytes none ++ encodeOption encodeSig none).dropLast =
      fields ++ encodeOption hashBytes none := List.dropLast_concat
  simp only [messageOfPayload] at hunsigned
  simp only [WS2Pv2Message.encapsulatePayload, WS2Pv2Message.sign, SignLibs.codec, hunsigned,
    Option.isSome_none, Bool.false_eq_true, if_false, hdrop, hL.serializeSig_eq, expect_some,
    ok_bind]
  rfl

/-- The bytes of a message that encapsulates a payload are those that a connection sends for the
payload, and are read back as the message. -/
theorem parse_encapsulatePayload (hL : BincodeLayout L encodeSig) (hkey : AcceptsOwn L keyPair)
    {currencyName : String} {issuerNodeId : NodeId} {payload : WS2Pv2MessagePayload}
    (h : WS2PLayout serialize deserialize encodeSig
      (messageOfPayload keyPair currencyName issuerNodeId payload) fields) :
    ∃ msg bytes, encapsulatePayload L serialize currencyName issuerNodeId (.ed25519 keyPair) payload =
        .ok (.ok (msg, bytes)) ∧
      WS2Pv2Message.encapsulatePayload (L.codec serialize deserialize) currencyName issuerNodeId
        (.ed25519 keyPair) payload = .ok (some bytes) ∧
      parseAndCheckBinMessage (L.codec serialize deserialize) bytes = .ok (.ok msg) := by
  obtain ⟨_, sig, hsig, hsign, signature, rfl, hview⟩ :=
    sign_eq_of_not_storeHash hL (lawful_ws2pMessage h) ⟨none, rfl, rfl⟩ rfl rfl rfl
  obtain rfl : some sig = signature := congrArg MessageView.signature hview
  refine ⟨_, _, hsign, ?_, ?_⟩
  all_goals
    simp only [MessageView.bytes, MessageView.unsigned, Option.map_none, Option.getD_none,
      List.append_nil] at hsig ⊢
    subst hsig
  · exact encapsulatePayload_codec hL h
  · refine parse_of_verify (h.deserialize_eq _) rfl rfl ?_
    exact verify_of_bytes (h.serialize_eq _) (hL.serializeSig_eq _) rfl rfl (hkey _)

/-- Signing a fresh message returns the bytes of the message as it is then, which verifies; and the
bytes of a message that encapsulates a payload are accepted as the message. -/
theorem sign_and_parse {M : Type} {B : BinSignable M} {Shown : M → MessageView → Prop}
    (hL : BincodeLayout L encodeSig) (hkey : AcceptsOwn L keyPair)
    (hB : LawfulBinSignable B encodeSig Shown) {currencyName : String} {issuerNodeId : NodeId}
    {payload : WS2Pv2MessagePayload}
    (h : WS2PLayout serialize deserialize encodeSig
      (messageOfPayload keyPair currencyName issuerNodeId payload) fields) :
    (∀ msg view, Shown msg view → view.issuer = .ed25519 keyPair.pubkey → view.Fresh →
      ∃ msg' view' bytes, B.sign L msg (.ed25519 keyPair.privkey) = .ok (.ok (msg', bytes)) ∧
        Shown msg' view' ∧ view'.content = view.content ∧ B.serialize msg' = some bytes ∧
          B.verify L msg' = .ok (.ok ())) ∧
    ∃ msg bytes, encapsulatePayload L serialize currencyName issuerNodeId (.ed25519 keyPair) payload =
        .ok (.ok (msg, bytes)) ∧
      parseAndCheckBinMessage (L.codec serialize deserialize) bytes = .ok (.ok msg) := by
  obtain ⟨signed, bytes, hsign, -, hparse⟩ := parse_encapsulatePayload hL hkey h
  exact ⟨fun _ _ hshown hissuer hfresh => sign_eq hL hB hkey hshown hissuer hfresh,
    signed, bytes, hsign, hparse⟩

end

/-! ## Mock messages -/

/-- What `bincode` writes of a signature: the variant, then the bytes. -/
def mockEncodeSig : Sig → List UInt8
  | .ed25519 sig => [0, 0, 0, 0] ++ bigEndian 64 sig.bytes.toNat
  | .schnorr => [1, 0, 0, 0]

/-- Reading an optional signature. -/
def mockDecodeSig : List UInt8 → Option Sig
  | 1 :: 0 :: 0 :: 0 :: 0 :: bytes => some (.ed25519 ⟨BitVec.ofNat 512 (readBigEndian bytes)⟩)
  | 1 :: _ => some .schnorr
  | _ => none

theorem ofNat_readBigEndian {bits : Nat} (width : Nat) (h : bits = 8 * width) (x : BitVec bits) :
    BitVec.ofNat bits (readBigEndian (bigEndian width x.toNat)) = x := by
  subst h
  have hlt := x.isLt
  rw [Nat.pow_mul] at hlt
  rw [readBigEndian_bigEndian_of_lt hlt, BitVec.ofNat_toNat, BitVec.setWidth_eq]

theorem mockDecodeSig_ed25519 (bytes : List UInt8) :
    mockDecodeSig (1 :: 0 :: 0 :: 0 :: 0 :: bytes) =
      some (.ed25519 ⟨BitVec.ofNat 512 (readBigEndian bytes)⟩) := rfl

theorem mockDecodeSig_encodeOption (sig : Option Sig) :
    mockDecodeSig (encodeOption mockEncodeSig sig) = sig := by
  rcases sig with - | sig | -
  · rfl
  · have hbytes := @ofNat_readBigEndian 512 64 rfl sig.bytes
    rw [encodeOption, mockEncodeSig, List.cons_append, List.cons_append, List.cons_append,
      List.cons_append, List.nil_append, mockDecodeSig_ed25519, hbytes]
  · rfl

/-- Libraries whose signature is the key added to the bytes. -/
def mockLibs : SignLibs where
  serializeHash hash := some (encodeOption hashBytes hash)
  serializeSig sig := some (encodeOption mockEncodeSig sig)
  computeHash bytes := BitVec.ofNat 256 (readBigEndian bytes)
  sign privkey bytes := ⟨privkey + BitVec.ofNat 512 (readBigEndian bytes)⟩
  verify pubkey bytes sig :=
    sig.bytes = pubkey.bytes.setWidth 512 + BitVec.ofNat 512 (readBigEndian bytes)

def mockKeyPair : KeyPair where
  privkey := (7 : BitVec 256).setWidth 512
  pubkey := ⟨7⟩

/-- Messages that are what they consist of. -/
def mockBinSignable : BinSignable MessageView where
  serialize msg := some (msg.bytes mockEncodeSig)
  issuerPubkey msg := return msg.issuer
  storeHash msg := return msg.hashField.isSome
  hash msg := return msg.hashField.join
  setHash msg hash := return { msg with hashField := some (some hash) }
  signature msg := return msg.signature
  setSignature msg signature := return { msg with signature := some signature }

theorem lawful_mockBinSignable : LawfulBinSignable mockBinSignable mockEncodeSig Eq where
  serialize_eq := by
    rintro msg _ rfl
    rfl
  issuerPubkey_eq := by
    rintro msg _ rfl
    rfl
  storeHash_eq := by
    rintro msg _ rfl
    rfl
  hash_eq := by
    rintro msg _ rfl
    rfl
  signature_eq := by
    rintro msg _ rfl
    rfl
  setHash_eq := by
    rintro msg _ rfl - hash
    exact ⟨_, rfl, rfl⟩
  setSignature_eq := by
    rintro msg _ rfl sig
    exact ⟨_, rfl, rfl⟩

/-- The message of an ACK payload. -/
def mockAckMessage : WS2Pv2Message := messageOfPayload mockKeyPair "g1" 0 (.ack 5)

/-- Write the message of the ACK payload, with its signature. -/
def mockSerialize : WS2PMessage → Option (List UInt8)
  | .v2 msg => some ([2, 5] ++ encodeOption hashBytes none ++ encodeOption mockEncodeSig msg.signature)
  | _ => none

/-- Read the message of the ACK payload, with its signature. -/
def mockDeserialize (bytes : List UInt8) : Option WS2PMessage :=
  some (.v2 { mockAckMessage with signature := mockDecodeSig (bytes.drop 3) })

theorem ws2pLayout_mock :
    WS2PLayout mockSerialize mockDeserialize mockEncodeSig mockAckMessage [2, 5] where
  serialize_eq _ := rfl
  deserialize_eq signature :=
    congrArg (fun signature => some (WS2PMessage.v2 { mockAckMessage with signature }))
      (mockDecodeSig_encodeOption signature)

theorem bincodeLayout_mock : BincodeLayout mockLibs mockEncodeSig where
  serializeHash_eq _ := rfl
  serializeSig_eq _ := rfl

theorem acceptsOwn_mock : AcceptsOwn mockLibs mockKeyPair := fun _ => decide_eq_true rfl

/-- The message of the ACK payload, and its bytes, which are read back as the message. -/
theorem sign_and_parse_mockAck :
    ∃ msg bytes, encapsulatePayload mockLibs mockSerialize "g1" 0 (.ed25519 mockKeyPair) (.ack 5) =
        .ok (.ok (msg, bytes)) ∧
      parseAndCheckBinMessage (mockLibs.codec mockSerialize mockDeserialize) bytes =
        .ok (.ok msg) :=
  (sign_and_parse bincodeLayout_mock acceptsOwn_mock lawful_mockBinSignable ws2pLayout_mock).2

end Durs.Ws2p
