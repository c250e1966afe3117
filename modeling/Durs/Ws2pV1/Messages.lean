/-
# Messages of WS2P v1

The states of a connection, the messages with which the two ends authenticate each other, the
requests, and what the parsing of a message returns.
-/

import Durs.Network.Endpoints
import Durs.Ws2pV1.Blocks

namespace Durs.Ws2pV1

/-- `WS2PConnectionState`. -/
inductive WS2PConnectionState
  | neverTry | tryToOpenWS | wsError | tryToSendConnectMess | unreachable | waitingConnectMess
  | noResponse | connectMessOk | okMessOkWaitingAckMess | ackMessOk | denial | close | established
deriving DecidableEq, Repr

/-- `Uuid`. -/
abbrev Uuid := BitVec 128

/-- What the module takes from other libraries: the primitives of text documents, and how floating
point numbers, unique identifiers and JSON values are read and JSON values are printed. -/
structure Libs extends DocCrypto where
  parseF64 : List Char → Option F64
  parseUuid : String → Option Uuid
  jsonFromStr : String → Option Json
  jsonToString : Json → String

variable (L : Libs)

/-! ## Authentication messages -/

/-- A message of authentication.  The messages CONNECT, ACK and OK have the same fields. -/
structure WS2PMessage where
  currency : String
  pubkey : PubKey
  challenge : String
  signature : Option Sig
deriving DecidableEq, Repr

namespace WS2PMessage

/-- The text that is signed: it starts with the name of the message. -/
def toRaw (name : String) (message : WS2PMessage) : String :=
  "WS2P:" ++ name ++ ":" ++ message.currency ++ ":" ++ L.base58 message.pubkey ++ ":" ++
    message.challenge

/-- Sign the text of the message. -/
def sign (name : String) (message : WS2PMessage) (keyPair : KeyPair) : Sig :=
  L.sign keyPair.privkey (message.toRaw L name)

/-- Verify the signature, if there is one. -/
def verify (name : String) (message : WS2PMessage) : Bool :=
  match message.signature with
  | some sig => L.verify message.pubkey (message.toRaw L name) sig
  | none => false

end WS2PMessage

/-- `WS2PConnectMessageV1::parse`. -/
def WS2PConnectMessageV1.parse (v : Json) (currency : String) : Option WS2PMessage := do
  let pubkey ← v.str "pub"
  let challenge ← v.str "challenge"
  let signature ← v.str "sig"
  let pubkey ← L.fromBase58 pubkey
  let signature ← L.fromBase64 signature
  return { currency, pubkey, challenge, signature := some signature }

/-- `WS2PConnectMessageV1::verify`. -/
def WS2PConnectMessageV1.verify (message : WS2PMessage) : Bool := message.verify L "CONNECT"

/-- `WS2PAckMessageV1::parse`: the challenge is left empty. -/
def WS2PAckMessageV1.parse (v : Json) (currency : String) : Option WS2PMessage := do
  let pubkey ← v.str "pub"
  let signature ← v.str "sig"
  let pubkey ← L.fromBase58 pubkey
  let signature ← L.fromBase64 signature
  return { currency, pubkey, challenge := "", signature := some signature }

/-- `WS2PAckMessageV1::sign`. -/
def WS2PAckMessageV1.sign (message : WS2PMessage) (keyPair : KeyPair) : Sig :=
  message.sign L "ACK" keyPair

/-- `WS2PAckMessageV1::verify`. -/
def WS2PAckMessageV1.verify (message : WS2PMessage) : Bool := message.verify L "ACK"

/-- The serialized form of a message ACK. -/
def WS2PAckMessageV1.serialize (message : WS2PMessage) : Run Json := do
  let signature ← expect message.signature
    "Fail to serialize ACK message : the signature field is set to None !"
  return .object [("auth", .string "ACK"), ("pub", .string (L.base58 message.pubkey)),
    ("sig", .string (L.base64 signature))]

/-- The public key that a message OK has until that of the peer is put there. -/
def okPubkey : String := "969qRJs8KhsnkyzqarpL4RKZGMdVKNbZgu8fhsigM7Lj"

/-- `WS2POkMessageV1::parse`: the challenge is left empty, and the public key is a constant. -/
def WS2POkMessageV1.parse (v : Json) (currency : String) : Option WS2PMessage := do
  let signature ← v.str "sig"
  let pubkey ← L.fromBase58 okPubkey
  let signature ← L.fromBase64 signature
  return { currency, pubkey, challenge := "", signature := some signature }

/-- `WS2POkMessageV1::sign`. -/
def WS2POkMessageV1.sign (message : WS2PMessage) (keyPair : KeyPair) : Sig :=
  message.sign L "OK" keyPair

/-- `WS2POkMessageV1::verify`. -/
def WS2POkMessageV1.verify (message : WS2PMessage) : Bool := message.verify L "OK"

/-- The serialized form of a message OK. -/
def WS2POkMessageV1.serialize (message : WS2PMessage) : Run Json := do
  let signature ← expect message.signature
    "Fail to serialize OK message : the signature field is set to None !"
  return .object [("auth", .string "OK"), ("sig", .string (L.base64 signature))]

/-! ## Requests -/

/-- WS2Pv1 requests body. -/
inductive WS2Pv1ReqBody
  | getCurrent
  | getBlock (number : BlockNumber)
  | getBlocks (count : Nat) (fromNumber : BlockNumber)
  | getRequirementsPending (minCert : Nat)
deriving DecidableEq, Repr

/-- `u32::try_from`. -/
def tryU32 (n : Nat) : Option Nat := if n < 4294967296 then some n else none

/-- `WS2Pv1ReqBody::try_from`. -/
def WS2Pv1ReqBody.tryFrom (json : Json) : Option WS2Pv1ReqBody := do
  let reqName ← json.str "name"
  match reqName with
  | "CURRENT" => return .getCurrent
  | "BLOCK_BY_NUMBER" => do
      let params ← json.get "params"
      let params ← params.asObject
      let number ← params.u64 "number"
      let number ← tryU32 number
      return .getBlock number
  | "BLOCKS_CHUNK" => do
      let params ← json.get "params"
      let params ← params.asObject
      let count ← params.u64 "count"
      let fromNumber ← params.u64 "fromNumber"
      let count ← tryU32 count
      let fromNumber ← tryU32 fromNumber
      return .getBlocks count fromNumber
  | "WOT_REQUIREMENTS_OF_PENDING" => do
      let params ← json.get "params"
      let params ← params.asObject
      let minCert ← params.u64 "minCert"
      return .getRequirementsPending minCert
  | _ => none

/-! ## Payloads -/

/-- Store a websocket sender: that of a connection. -/
structure WsSender where
  connection : Nat
deriving DecidableEq, Repr

/-- WS2Pv1 message payload. -/
inductive WS2Pv1MsgPayload
  | failOpenWS
  | wrongUrl
  | failToSplitWS
  | tryToSendConnectMess
  | failSendConnectMess
  | websocketOk (sender : WsSender)
  | negociationTimeout
  | validConnectMessage (response : String) (state : WS2PConnectionState)
  | validAckMessage (response : String) (state : WS2PConnectionState)
  | validOk (state : WS2PConnectionState)
  | request (reqId : Uuid) (body : WS2Pv1ReqBody)
  | peerCard (body : Json) (endpoints : List Network.EndpointV1)
  | heads (heads : List Json)
  | document (block : BlockDocument)
  | reqResponse (reqId : Uuid) (body : Json)
  | invalidMessage
  | wrongFormatMessage
  | unknowMessage
  | timeout
  | close

/-- WS2Pv1 message. -/
structure WS2Pv1Msg where
  sender : Network.NodeFullId
  payload : WS2Pv1MsgPayload

end Durs.Ws2pV1
