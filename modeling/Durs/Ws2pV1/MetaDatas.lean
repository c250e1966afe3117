/-
# Incoming messages

The meta data of a connection, and how a message that the peer sends is parsed, checked and
answered.  Only an authentication message changes the meta data.
-/

import Durs.Ws2pV1.Messages

namespace Durs.Ws2pV1

/-- WS2P connections meta datas. -/
structure WS2PConnectionMetaDatas where
  state : WS2PConnectionState
  remoteUuid : Option Network.NodeId
  remotePubkey : Option PubKey
  challenge : String
  remoteChallenge : String
deriving DecidableEq, Repr

variable (L : Libs)

namespace WS2PConnectionMetaDatas

/-- `WS2PConnectionMetaDatas::new`. -/
def new (challenge : String) : WS2PConnectionMetaDatas where
  state := .waitingConnectMess
  remoteUuid := none
  remotePubkey := none
  challenge
  remoteChallenge := ""

/-- The complete identifier of the node at the other end. -/
def nodeFullId (datas : WS2PConnectionMetaDatas) : Run Network.NodeFullId := do
  let nodeId ← expect datas.remoteUuid "Fail to get NodeFullId : remote_uuid is None !"
  let pubkey ← expect datas.remotePubkey "Fail to get NodeFullId : remote_pubkey is None !"
  return { nodeId, pubkey }

/-! ## Authentication -/

/-- Check a message CONNECT; one that the key of the endpoint has not signed is read further. -/
def checkConnectMessage (datas : WS2PConnectionMetaDatas) (currency : String) (keyPair : KeyPair)
    (msg : Json) : OptionT Run (WS2PConnectionMetaDatas × WS2Pv1MsgPayload) := do
  let message ← OptionT.lift
    (expect (WS2PConnectMessageV1.parse L msg currency) "Failed to parsing CONNECT Message !")
  if WS2PConnectMessageV1.verify L message then
    let remotePubkey ← OptionT.lift (unwrap datas.remotePubkey)
    if message.pubkey = remotePubkey then
      match datas.state with
      | .waitingConnectMess =>
          let response : WS2PMessage :=
            { currency, pubkey := keyPair.pubkey, challenge := message.challenge,
              signature := none }
          let signature := WS2PAckMessageV1.sign L response keyPair
          let json ← OptionT.lift
            (WS2PAckMessageV1.serialize L { response with signature := some signature })
          return ({ datas with state := .connectMessOk, remoteChallenge := message.challenge },
            .validConnectMessage (L.jsonToString json) .connectMessOk)
      | _ => return (datas, .invalidMessage)
    else failure
  else failure

/-- The state after a valid message ACK, if one is expected. -/
def stateAfterAck : WS2PConnectionState → Option WS2PConnectionState
  | .connectMessOk => some .ackMessOk
  | .okMessOkWaitingAckMess => some .established
  | _ => none

/-- Check a message ACK, with the public key that it names; one whose signature is not valid is
read further. -/
def checkAckMessage (datas : WS2PConnectionMetaDatas) (currency : String) (keyPair : KeyPair)
    (msg : Json) : OptionT Run (WS2PConnectionMetaDatas × WS2Pv1MsgPayload) := do
  let message ← OptionT.lift
    (expect (WS2PAckMessageV1.parse L msg currency) "Failed to parsing ACK Message !")
  if WS2PAckMessageV1.verify L { message with challenge := datas.challenge } then
    match stateAfterAck datas.state with
    | some state =>
        let response : WS2PMessage :=
          { currency, pubkey := keyPair.pubkey, challenge := datas.challenge, signature := none }
        let signature := WS2POkMessageV1.sign L response keyPair
        let json ← OptionT.lift
          (WS2POkMessageV1.serialize L { response with signature := some signature })
        return ({ datas with state }, .validAckMessage (L.jsonToString json) state)
    | none => return (datas, .invalidMessage)
  else failure

/-- The state after a valid message OK, if one is expected. -/
def stateAfterOk : WS2PConnectionState → Option WS2PConnectionState
  | .connectMessOk => some .okMessOkWaitingAckMess
  | .ackMessOk => some .established
  | _ => none

/-- Check a message OK, with the public key of the endpoint. -/
def checkOkMessage (datas : WS2PConnectionMetaDatas) (currency : String) (msg : Json) :
    OptionT Run (WS2PConnectionMetaDatas × WS2Pv1MsgPayload) := do
  let message ← OptionT.lift
    (expect (WS2POkMessageV1.parse L msg currency) "Failed to parsing OK Message !")
  let pubkey ← OptionT.lift (expect datas.remotePubkey "fail to get remote pubkey !")
  if WS2POkMessageV1.verify L { message with challenge := datas.remoteChallenge, pubkey } then
    match stateAfterOk datas.state with
    | some state => return ({ datas with state }, .validOk state)
    | none => return (datas, .invalidMessage)
  else return (datas, .invalidMessage)

/-- Check an authentication message. -/
def checkAuthMessage (datas : WS2PConnectionMetaDatas) (currency : String) (keyPair : KeyPair)
    (msg : Json) : OptionT Run (WS2PConnectionMetaDatas × WS2Pv1MsgPayload) := do
  let auth ← msg.str "auth"
  match auth with
  | "CONNECT" => checkConnectMessage L datas currency keyPair msg
  | "ACK" => checkAckMessage L datas currency keyPair msg
  | "OK" => checkOkMessage L datas currency msg
  | _ => failure

/-! ## Requests and responses -/

/-- Read a request. -/
def checkRequest (msg : Json) : Option WS2Pv1MsgPayload := do
  let reqId ← msg.get "reqId"
  match reqId.asStr, msg.get "body" with
  | some reqId, some body =>
      match L.parseUuid reqId with
      | some reqId =>
          match WS2Pv1ReqBody.tryFrom body with
          | some body => return .request reqId body
          | none => return .wrongFormatMessage
      | none => return .wrongFormatMessage
  | _, _ => return .wrongFormatMessage

/-- Read the response to a request; one that holds an error is read further. -/
def checkResponse (msg : Json) : Option WS2Pv1MsgPayload := do
  let resId ← msg.get "resId"
  match resId.asStr with
  | some resId =>
      match msg.get "body" with
      | some body =>
          match L.parseUuid resId with
          | some reqId => return .reqResponse reqId body
          | none => return .wrongFormatMessage
      | none =>
          match msg.get "err" with
          | some _ => none
          | none => return .wrongFormatMessage
  | none => return .wrongFormatMessage

/-! ## Documents -/

/-- `parse_and_check_peer_message`: the endpoints that are not texts are read as the empty text,
and those that are not of WS2P are left out. -/
def parseAndCheckPeerMessage (body : Json) : Run WS2Pv1MsgPayload :=
  match body.get "peer" with
  | some peer =>
      match peer.get "pubkey" with
      | some rawPubkey =>
          match L.fromBase58 (rawPubkey.asStr.getD "") with
          | some pubkey =>
              match peer.arr "endpoints" with
              | some endpoints => do
                  let parsed ← endpoints.mapM fun endpoint =>
                    Network.EndpointV1.parseFromRaw L.toDocCrypto (endpoint.asStr.getD "") pubkey
                      0 0
                  let ws2pEndpoints := (parsed.filterMap id).filter fun ep => ep.api = "WS2P"
                  return .peerCard body ws2pEndpoints
              | none => return .wrongFormatMessage
          | none => return .wrongFormatMessage
      | none => return .wrongFormatMessage
  | none => return .wrongFormatMessage

/-- Read a block; one of a wrong format is read further. -/
def checkBlock (body : Json) : OptionT Run WS2Pv1MsgPayload :=
  match body.get "block" with
  | some block => do
      let blockDoc ← parseJsonBlock L.toDocCrypto L.parseF64 block
      return .document blockDoc
  | none => return .wrongFormatMessage

/-- Read a document that the peer sends. -/
def checkDocument (msg : Json) : OptionT Run WS2Pv1MsgPayload := do
  let body ← msg.get "body"
  match body.get "name" with
  | some s => do
      let name ← s.asStr
      match name with
      | "BLOCK" => checkBlock L body
      | "HEAD" =>
          match body.arr "heads" with
          | some heads => return .heads heads
          | none => return .wrongFormatMessage
      | "PEER" => OptionT.lift (parseAndCheckPeerMessage L body)
      | "CERTIFICATION" => failure
      | "IDENTITY" => failure
      | "MEMBERSHIP" => failure
      | "TRANSACTION" => failure
      | _ => return .unknowMessage
  | none => return .wrongFormatMessage

/-! ## Messages -/

/-- `parse_and_check_incoming_message`. -/
def parseAndCheckIncomingMessage (datas : WS2PConnectionMetaDatas) (currency : String)
    (keyPair : KeyPair) (msg : Json) : Run (WS2PConnectionMetaDatas × WS2Pv1MsgPayload) := do
  let auth ← (checkAuthMessage L datas currency keyPair msg).run
  match auth with
  | some result => return result
  | none =>
      match checkRequest L msg with
      | some payload => return (datas, payload)
      | none =>
          match checkResponse L msg with
          | some payload => return (datas, payload)
          | none => do
              let document ← (checkDocument L msg).run
              return (datas, document.getD .unknowMessage)

end WS2PConnectionMetaDatas

/-! ## Connections -/

/-- The challenge of every connection. -/
def connectionChallenge : String :=
  "b60a14fd-0826-4ae0-83eb-1a92cd59fd5308535fd3-78f2-4678-9315-cd6e3b7871b1"

/-- The meta data that `connect_to_ws2p_endpoint` creates. -/
def connectionMetaDatas (endpoint : Network.EndpointV1) : Run WS2PConnectionMetaDatas := do
  let nodeId ← expect endpoint.nodeId "WS2P: Fail to get ep.node_uuid() !"
  return { WS2PConnectionMetaDatas.new connectionChallenge with
    remotePubkey := some endpoint.issuer
    remoteUuid := some nodeId }

/-- `Client::on_message`, of a text that is not held for spam. -/
def onMessage (currency : String) (keyPair : KeyPair) (datas : WS2PConnectionMetaDatas)
    (text : String) : Run (WS2PConnectionMetaDatas × WS2Pv1Msg) := do
  let jsonMessage ← expect (L.jsonFromStr text)
    "WS2P: Fail to convert string message ton json value !"
  let sender ← datas.nodeFullId
  let (datas, payload) ← datas.parseAndCheckIncomingMessage L currency keyPair jsonMessage
  return (datas, { sender, payload })

end Durs.Ws2pV1
