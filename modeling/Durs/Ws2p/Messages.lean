/-
# WS2P messages

The messages that two nodes exchange over a websocket, and how a received byte string becomes a
message that its issuer signed.
-/

import Durs.Documents.Blockstamp
import Durs.Run

namespace Durs

namespace Ws2p

/-! ## Keys -/

/-- `PubKey`: both variants can be read from a message. -/
inductive PubKey
  | ed25519 (pubkey : Durs.PubKey)
  | schnorr
deriving DecidableEq, Repr

/-- `Sig`: both variants can be read from a message. -/
inductive Sig
  | ed25519 (sig : Durs.Sig)
  | schnorr
deriving DecidableEq, Repr

/-- `ed25519::KeyPair`. -/
structure KeyPair where
  privkey : BitVec 512
  pubkey : Durs.PubKey
deriving DecidableEq, Repr

/-- `KeyPairEnum`. -/
inductive KeyPairEnum
  | ed25519 (keyPair : KeyPair)
  | schnorr
deriving DecidableEq, Repr

/-- `KeyPairEnum::public_key`. -/
def KeyPairEnum.publicKey : KeyPairEnum → Run PubKey
  | .ed25519 keyPair => return .ed25519 keyPair.pubkey
  | .schnorr => fatalError "Schnorr algo not yet supported !"

/-- Tells apart the nodes with one network key pair, a `u32` in the source. -/
abbrev NodeId := Nat

/-- Complete identifier of a node. -/
structure NodeFullId where
  nodeId : NodeId
  pubkey : PubKey
deriving DecidableEq, Repr

/-! ## Features and flags -/

/-- Whether all flags are disabled (or there are none). -/
def flagsIsEmpty (flags : List UInt8) : Bool := flags.all fun byte => ¬ byte > 0

/-- The first byte of the flags; reading it panics when there is none. -/
def firstFlags (flags : List UInt8) : Run UInt8 :=
  expect flags.head? "index out of bounds: the len is 0 but the index is 0"

/-- `WS2PFeatures`. -/
structure WS2PFeatures where
  bytes : List UInt8
deriving DecidableEq, Repr

namespace WS2PFeatures

/-- Check flag DEF. -/
def def' (features : WS2PFeatures) : Run Bool :=
  return (← firstFlags features.bytes) ||| 0b11111110 = 255

/-- Check flag LOW. -/
def low (features : WS2PFeatures) : Run Bool :=
  return (← firstFlags features.bytes) ||| 0b11111101 = 255

/-- Check flag ABF. -/
def abf (features : WS2PFeatures) : Run Bool :=
  return (← firstFlags features.bytes) ||| 0b11111011 = 255

/-- Clear bits of the first byte. -/
def maskFirst (features : WS2PFeatures) (mask : UInt8) : WS2PFeatures :=
  ⟨features.bytes.modifyHead (· &&& mask)⟩

/-- Remove a feature that the remote node does not have. -/
def dropUnsupported (check : WS2PFeatures → Run Bool) (mask : UInt8)
    (local' remote merged : WS2PFeatures) : Run WS2PFeatures := do
  if ← check local' then
    if ← check remote then return merged else return merged.maskFirst mask
  else return merged

/-- The features that the two nodes have, unless the remote node asks for low flow and the local
one cannot. -/
def checkFeaturesCompatibility (local' remote : WS2PFeatures) : Run (Except Unit WS2PFeatures) := do
  -- remove features unsupported by remote node
  let merged ← dropUnsupported def' 0b11111110 local' remote local'
  let merged ← dropUnsupported low 0b11111101 local' remote merged
  let merged ← dropUnsupported abf 0b11111011 local' remote merged
  -- check incompatibilities
  if ← remote.low then
    if ← local'.low then return .ok merged else return .error ()
  else return .ok merged

end WS2PFeatures

/-- `WS2PConnectFlags`. -/
structure WS2PConnectFlags where
  bytes : List UInt8
deriving DecidableEq, Repr

/-- `WS2Pv2ConnectType`. -/
inductive WS2Pv2ConnectType
  | incoming
  | outgoingClient
  | outgoingServer
  | sync (blockstamp : Option Blockstamp)
  | syncAskChunk (blockstamp : Blockstamp)
  | syncSendChunks
deriving DecidableEq, Repr

namespace WS2PConnectFlags

/-- Whether all flags are disabled. -/
def isEmpty (flags : WS2PConnectFlags) : Bool := flagsIsEmpty flags.bytes

/-- Check flag SYNC. -/
def sync (flags : WS2PConnectFlags) : Run Bool :=
  return 0b11111110 ||| (← firstFlags flags.bytes) = 255

/-- Check flag ASK_SYNC_CHUNK. -/
def askSyncChunk (flags : WS2PConnectFlags) : Run Bool :=
  return 0b11111101 ||| (← firstFlags flags.bytes) = 255

/-- Check flag RES_SYNC_CHUNK. -/
def resSyncChunk (flags : WS2PConnectFlags) : Run Bool :=
  return 0b11111011 ||| (← firstFlags flags.bytes) = 255

/-- The flags that ask for a type of connection. -/
def ofConnectType : WS2Pv2ConnectType → WS2PConnectFlags
  | .incoming | .outgoingServer => ⟨[]⟩
  | .outgoingClient => ⟨[8]⟩
  | .sync _ => ⟨[1]⟩
  | .syncAskChunk _ => ⟨[3]⟩
  | .syncSendChunks => ⟨[5]⟩

end WS2PConnectFlags

/-- The type of connection that flags ask for. -/
def WS2Pv2ConnectType.fromFlags (flags : WS2PConnectFlags) (blockstamp : Option Blockstamp) :
    Run WS2Pv2ConnectType := do
  if flags.isEmpty then return .outgoingServer
  else if ← flags.sync then
    match ← flags.askSyncChunk, blockstamp with
    | true, some blockstamp => return .syncAskChunk blockstamp
    | _, _ =>
        if ← flags.resSyncChunk then return .syncSendChunks else return .sync blockstamp
  else return .outgoingServer

/-! ## Messages -/

/-- A peer card, as `bincode` writes it. -/
abbrev PeerCardV11 := List UInt8

/-- CONNECT message. -/
structure WS2Pv2ConnectMsg where
  /-- Random hash generated by the sending node: the receiving node signs it in its ACK message to
  prove that it has the private key of the public key it indicates. -/
  challenge : Hash
  apiFeatures : WS2PFeatures
  flagsQueries : WS2PConnectFlags
  peerCard : Option PeerCardV11
  /-- Blockstamp of the last block of the chunk. -/
  chunkstamp : Option Blockstamp
deriving DecidableEq, Repr

/-- Generate connect message. -/
def generateConnectMessage (connectType : WS2Pv2ConnectType) (apiFeatures : WS2PFeatures)
    (challenge : Hash) (peerCard : Option PeerCardV11) : WS2Pv2ConnectMsg :=
  { challenge, apiFeatures, peerCard
    flagsQueries := .ofConnectType connectType
    chunkstamp := match connectType with
      | .syncAskChunk chunkstamp => some chunkstamp
      | _ => none }

/-- The current blockstamp of a node and the hashes of its chunks. -/
structure WS2Pv2SyncTarget where
  targetBlockstamp : Blockstamp
  chunksHash : List Hash
deriving DecidableEq, Repr

/-- OK message. -/
structure WS2Pv2OkMsg where
  /-- Not given by a node that does not want to reveal its prefix. -/
  nodePrefix : Option Nat
  syncTarget : Option WS2Pv2SyncTarget
deriving DecidableEq, Repr

/-- `WS2Pv2OkMsg::default()`. -/
instance : Inhabited WS2Pv2OkMsg :=
  ⟨{ nodePrefix := none, syncTarget := none }⟩

/-- Proof that the sender node is a member: a signature of the challenge. -/
structure MemberProof where
  pubkey : PubKey
  sig : Sig
deriving DecidableEq, Repr

/-- SECRET_FLAGS message. -/
structure WS2Pv2SecretFlagsMsg where
  secretFlags : List UInt8
  memberProof : Option MemberProof
deriving DecidableEq, Repr

/-- The messages that carry data once the connection is established. -/
inductive DataKind
  | request
  | reqRes
  | peers
  | headsv2
  | heads3
  | blocks
  | pendingIdentities
  | pendingMemberships
  | pendingCerts
  | pendingRevocations
  | pendingTxs
deriving DecidableEq, Repr

/-- `WS2Pv2MessagePayload`.  The content of a data message is held as `bincode` writes it. -/
inductive WS2Pv2MessagePayload
  | connect (connectMsg : WS2Pv2ConnectMsg)
  /-- The hash previously sent in CONNECT message. -/
  | ack (challenge : Hash)
  | secretFlags (secretFlags : WS2Pv2SecretFlagsMsg)
  | ok (okMsg : WS2Pv2OkMsg)
  | ko (code : Nat)
  | data (kind : DataKind) (content : List UInt8)
deriving DecidableEq, Repr

/-- `WS2Pv2Message`. -/
structure WS2Pv2Message where
  currencyName : String
  issuerNodeId : NodeId
  issuerPubkey : PubKey
  payload : WS2Pv2MessagePayload
  messageHash : Option Hash
  signature : Option Sig
deriving DecidableEq, Repr

/-- The node that issued a message. -/
def WS2Pv2Message.issuer (msg : WS2Pv2Message) : NodeFullId := ⟨msg.issuerNodeId, msg.issuerPubkey⟩

/-- `WS2PMessage`. -/
inductive WS2PMessage
  /-- Old version not used. -/
  | v0
  /-- Old version not used. -/
  | v1
  | v2 (msg : WS2Pv2Message)
deriving DecidableEq, Repr

/-! ## Reading and writing messages -/

/-- The libraries that messages go through: `bincode`, and the hash and signature algorithms. -/
structure Codec where
  serialize : WS2PMessage → Option (List UInt8)
  serializeSig : Option Sig → Option (List UInt8)
  deserialize : List UInt8 → Option WS2PMessage
  computeHash : List UInt8 → Hash
  sign : KeyPair → List UInt8 → Durs.Sig
  verify : Durs.PubKey → List UInt8 → Durs.Sig → Bool

/-- Errors when parsing and checking messages. -/
inductive WS2PMessageError
  | deserError
  | invalidHash
  | notSameAlgo
  | invalidSig
  | notSig
  | serdeError
deriving DecidableEq, Repr

namespace WS2Pv2Message

variable (codec : Codec)

/-- Get binary datas without signature. -/
def getBinWithoutSig (msg : WS2Pv2Message) : Option (List UInt8) := do
  let binMsg ← codec.serialize (.v2 msg)
  let binSig ← codec.serializeSig msg.signature
  return binMsg.take (binMsg.length - binSig.length)

/-- Check the signature of a message. -/
def verify (msg : WS2Pv2Message) : Except WS2PMessageError Unit :=
  match msg.signature with
  | none => .error .notSig
  | some signature =>
      match msg.issuerPubkey, signature with
      | .ed25519 pubkey, .ed25519 sig =>
          match msg.getBinWithoutSig codec with
          | none => .error .serdeError
          | some signedPart =>
              if codec.verify pubkey signedPart sig then .ok () else .error .invalidSig
      | _, _ => .error .notSameAlgo

/-- `BinSignable::sign`, with the bytes of the signed message; the private key has the algorithm of
the public one. -/
def sign (msg : WS2Pv2Message) (keyPair : KeyPair) : Run (Option (List UInt8)) :=
  if msg.signature.isSome then return none
  else
    match codec.serialize (.v2 msg) with
    | none => return none
    | some binMsg => do
        let unsigned := binMsg.dropLast
        let sig := .ed25519 (codec.sign keyPair unsigned)
        let binSig ← expect (codec.serializeSig (some sig)) "Fail to binarize sig !"
        return some (unsigned ++ binSig)

/-- Encapsulate message payload: the bytes of the message, signed by its issuer. -/
def encapsulatePayload (currencyName : String) (issuerNodeId : NodeId)
    (issuerKeypair : KeyPairEnum) (payload : WS2Pv2MessagePayload) : Run (Option (List UInt8)) :=
  match issuerKeypair with
  | .schnorr => fatalError "Schnorr algo not yet supported !"
  | .ed25519 keyPair =>
      sign codec
        { currencyName, issuerNodeId, payload
          issuerPubkey := .ed25519 keyPair.pubkey, messageHash := none, signature := none } keyPair

end WS2Pv2Message

/-- The length of an optional signature in a message. -/
def sigLen : Option Sig → Run Nat
  | some (.ed25519 _) => return 69
  | some .schnorr => fatalError "Schnorr algo not yet implemented !"
  | none => return 1

/-- Whether the hash of a message is the one of its bytes, if there is one. -/
def hashIsValid (codec : Codec) (binMsg : List UInt8) (hash : Option Hash) (sigLen : Nat) :
    Run Bool :=
  let hashLen := 33
  match hash with
  | none => return true
  | some hash =>
      if hashLen + sigLen ≤ binMsg.length then
        return codec.computeHash (binMsg.take (binMsg.length - hashLen - sigLen)) = hash
      else fatalError "range end index out of range for slice"

/-- Parse and check bin message. -/
def parseAndCheckBinMessage (codec : Codec) (binMsg : List UInt8) :
    Run (Except WS2PMessageError WS2PMessage) :=
  match codec.deserialize binMsg with
  | none => return .error .deserError
  | some .v0 | some .v1 =>
      fatalError "Dev error: must not use WS2PMessage version < 2 in WS2Pv2+ !"
  | some (.v2 msg) => do
      if ← hashIsValid codec binMsg msg.messageHash (← sigLen msg.signature) then
        match msg.verify codec with
        | .ok () => return .ok (.v2 msg)
        | .error err => return .error err
      else return .error .invalidHash

end Ws2p

end Durs
