/-
# The module WS2P v1

The state of the module, and what its main loop does with the messages of the connections: a first
treatment that records the state of an endpoint and answers the peer, and a second one, of the
signal that the first returns.  The states of the endpoints and the websockets are two tables whose
keys are nodes, not connections.
-/

import Durs.Documents.Integers
import Durs.RustStd.HashSet
import Durs.Ws2pV1.MetaDatas

namespace Durs.Ws2pV1

open RustStd Network

/-! ## The state of the module -/

/-- WS2P configuration. -/
structure WS2PConf where
  outcomingQuota : Nat
  preferedPubkeys : HashSet PubKey
  syncEndpoints : List EndpointV1

/-- An endpoint, with the state of the connection to it. -/
structure DbEndpoint where
  ep : EndpointV1
  state : WS2PConnectionState
  lastCheck : Nat

/-- `ModuleReqFullId`. -/
structure ModuleReqFullId where
  name : String
  reqId : Nat
deriving DecidableEq, Repr

/-- A request that was sent to a node; the time is in nanoseconds. -/
structure WS2Pv1PendingReqInfos where
  requesterModule : ModuleReqFullId
  reqBody : WS2Pv1ReqBody
  recipientNode : NodeFullId
  timestamp : Nat

/-- What is done with heads: reading one may stop the process, and so may verifying one. -/
structure HeadLibs where
  NetworkHead : Type
  fromJsonValue : Json → Option (Option NetworkHead)
  verify : NetworkHead → Option Bool
  nodeFullId : NetworkHead → NodeFullId
  apply : NetworkHead → HashMap NodeFullId NetworkHead → HashMap NodeFullId NetworkHead × Bool

variable {H : HeadLibs}

/-- The state of the module. -/
structure WS2Pv1Module (H : HeadLibs) where
  conf : WS2PConf
  currency : String
  headsCache : HashMap NodeFullId H.NetworkHead
  keyPair : KeyPair
  myHead : Option H.NetworkHead
  requestsAwaitingResponse : HashMap Uuid WS2Pv1PendingReqInfos
  ssl : Bool
  websockets : HashMap NodeFullId WsSender
  ws2pEndpoints : HashMap NodeFullId DbEndpoint

/-- A signal received from the network, after the first treatment of a message. -/
inductive WS2PSignal (H : HeadLibs)
  | wsError (id : NodeFullId)
  | connectionEstablished (id : NodeFullId)
  | negociationTimeout (id : NodeFullId)
  | timeout (id : NodeFullId)
  | request (sender : NodeFullId) (reqId : Uuid) (body : WS2Pv1ReqBody)
  | peerCard (id : NodeFullId) (body : Json) (endpoints : List EndpointV1)
  | heads (id : NodeFullId) (heads : List H.NetworkHead)
  | document (id : NodeFullId) (block : BlockDocument)
  | reqResponse (requester : ModuleReqFullId) (reqBody : WS2Pv1ReqBody) (recipient : NodeFullId)
      (response : Json)
  | empty
  | noConnection

/-- `WS2PCloseConnectionReason`. -/
inductive WS2PCloseConnectionReason
  | authMessInvalidSig | negociationTimeout | timeout | wsError | unknow
deriving DecidableEq, Repr

/-- What surrounds the treatment of a message: the time, in nanoseconds, whether what is sent on a
websocket is sent, and the identifier of the request that may be sent. -/
structure Surroundings where
  now : Nat
  sends : Bool
  reqId : Uuid

/-- `current_timestamp`. -/
def Surroundings.currentTimestamp (env : Surroundings) : Nat := env.now / 1000000000

/-- `WS2P_V1_REQUESTS_TIMEOUT_IN_SECS`. -/
def requestsTimeoutInSecs : Nat := 30

namespace WS2Pv1Module

/-- Change what is recorded of an endpoint, which has to be known. -/
def updateEndpoint (m : WS2Pv1Module H) (id : NodeFullId) (f : DbEndpoint → DbEndpoint) :
    Run (WS2Pv1Module H) := do
  let dalEp ← expect (m.ws2pEndpoints.get? id) "WS2P: Fail to get mut ep !"
  return { m with ws2pEndpoints := m.ws2pEndpoints.insert id (f dalEp) }

/-- Record the state of an endpoint. -/
def setState (m : WS2Pv1Module H) (id : NodeFullId) (state : WS2PConnectionState) :
    Run (WS2Pv1Module H) :=
  m.updateEndpoint id fun dalEp => { dalEp with state }

/-- Record the state of an endpoint and when it was checked. -/
def setChecked (env : Surroundings) (m : WS2Pv1Module H) (id : NodeFullId)
    (state : WS2PConnectionState) : Run (WS2Pv1Module H) :=
  m.updateEndpoint id fun dalEp => { dalEp with state, lastCheck := env.currentTimestamp }

/-- The entry of an endpoint: indexing a map stops the process where there is none. -/
def endpoint (m : WS2Pv1Module H) (id : NodeFullId) : Run DbEndpoint :=
  expect (m.ws2pEndpoints.get? id) "no entry found for key"

/-- `count_established_connections`. -/
def countEstablishedConnections (m : WS2Pv1Module H) : Nat :=
  m.ws2pEndpoints.iter.countP fun entry => entry.2.state = .established

/-- `close_connection`: the socket is closed and forgotten. -/
def closeConnection (env : Surroundings) (m : WS2Pv1Module H) (id : NodeFullId)
    (reason : WS2PCloseConnectionReason) : WS2Pv1Module H :=
  let ws2pEndpoints :=
    match reason, m.ws2pEndpoints.get? id with
    | .negociationTimeout, _ => m.ws2pEndpoints
    | _, some dalEp =>
        m.ws2pEndpoints.insert id
          { dalEp with state := .close, lastCheck := env.currentTimestamp }
    | _, none => m.ws2pEndpoints
  { m with ws2pEndpoints, websockets := m.websockets.remove id }

/-! ## First treatment of a message -/

/-- `check_timeout_requests`. -/
def checkTimeoutRequests (env : Surroundings) (m : WS2Pv1Module H) : Run (WS2Pv1Module H) := do
  let requestsTimeout ← m.requestsAwaitingResponse.iter.foldlM (fun requestsTimeout entry => do
    let timestamp := entry.2.timestamp
    let elapsed ← unwrap (if timestamp ≤ env.now then some (env.now - timestamp) else none)
    return if elapsed > requestsTimeoutInSecs * 1000000000 then requestsTimeout ++ [entry.1]
      else requestsTimeout) []
  return { m with
    requestsAwaitingResponse := m.requestsAwaitingResponse.removeAll requestsTimeout }

/-- Keep a head that is verified, is not of this node and replaces the one that is kept. -/
def applyHead (m : WS2Pv1Module H) (appliedHeads : List H.NetworkHead) (head : Json) :
    Run (WS2Pv1Module H × List H.NetworkHead) := do
  match ← expect (H.fromJsonValue head) "index out of bounds" with
  | none => return (m, appliedHeads)
  | some head => do
      let verified ← expect (H.verify head) "NetworkHeadMessage is wrongly parsed !"
      if verified ∧ (m.myHead.map H.nodeFullId ≠ some (H.nodeFullId head)) then
        let (headsCache, applied) := H.apply head m.headsCache
        return ({ m with headsCache }, if applied then appliedHeads ++ [head] else appliedHeads)
      else return (m, appliedHeads)

end WS2Pv1Module

/-- What the first treatment of a message returns: the module, the signal, and the texts sent, each
with the websocket on which it is sent. -/
structure Pretreatment (H : HeadLibs) where
  ws2pModule : WS2Pv1Module H
  signal : WS2PSignal H
  sent : List (WsSender × String)

namespace WS2Pv1Module

/-- What is returned where nothing else is: whether there is no connection at all. -/
def pretreated (m : WS2Pv1Module H) (sent : List (WsSender × String)) : Pretreatment H where
  ws2pModule := m
  signal := if m.websockets.len = 0 then .noConnection else .empty
  sent

/-- The process stops with this where an answer has no websocket. -/
def noWebsocket : Abort := .fatal "Fatal error : no websocket for \x7b\x7d !"

/-- A valid message CONNECT: answer it; without a websocket the peer has closed the connection. -/
def receiveConnect (env : Surroundings) (m : WS2Pv1Module H) (id : NodeFullId)
    (response : String) (newConState : WS2PConnectionState) : Run (Pretreatment H) := do
  let m ← m.setState id newConState
  match m.websockets.get? id with
  | some websocket =>
      if env.sends then return m.pretreated [(websocket, response)]
      else return ⟨m, .wsError id, []⟩
  | none => do
      let m ← m.setChecked env id .close
      return m.pretreated []

/-- A valid message ACK: only the first of the two states that may follow has it answered. -/
def receiveAck (env : Surroundings) (m : WS2Pv1Module H) (id : NodeFullId)
    (response : String) (newConState : WS2PConnectionState) : Run (Pretreatment H) := do
  let m ← m.setState id newConState
  match newConState with
  | .ackMessOk =>
      match m.websockets.get? id with
      | some websocket =>
          if env.sends then return m.pretreated [(websocket, response)]
          else return ⟨m, .wsError id, []⟩
      | none => .error noWebsocket
  | _ => return m.pretreated []

/-- A valid message OK. -/
def receiveOk (env : Surroundings) (m : WS2Pv1Module H) (id : NodeFullId)
    (newConState : WS2PConnectionState) : Run (Pretreatment H) := do
  let m ← m.setState id newConState
  match newConState with
  | .okMessOkWaitingAckMess => return ⟨m, .empty, []⟩
  | .established => return ⟨m, .connectionEstablished id, []⟩
  | _ => return ⟨m.closeConnection env id .unknow, .empty, []⟩

/-- Record that the negotiation with an endpoint is over without success. -/
def recordNegociationTimeout (env : Surroundings) (m : WS2Pv1Module H) (id : NodeFullId)
    (state : WS2PConnectionState) : Run (WS2Pv1Module H) :=
  match state with
  | .ackMessOk | .connectMessOk => m.setState id .denial
  | .waitingConnectMess => m.setState id .noResponse
  | _ => m.setChecked env id .unreachable

/-- The end of the time for a negotiation. -/
def receiveNegociationTimeout (env : Surroundings) (m : WS2Pv1Module H) (id : NodeFullId) :
    Run (Pretreatment H) := do
  let dalEp ← m.endpoint id
  let m ← m.recordNegociationTimeout env id dalEp.state
  return ⟨m.closeConnection env id .negociationTimeout, .negociationTimeout id, []⟩

/-- `ws2p_recv_message_pretreatment`. -/
def ws2pRecvMessagePretreatment (env : Surroundings) (m : WS2Pv1Module H) (message : WS2Pv1Msg) :
    Run (Pretreatment H) := do
  let m ← m.checkTimeoutRequests env
  let id := message.sender
  match message.payload with
  | .wrongUrl | .failOpenWS | .failToSplitWS => do
      let m ← m.setChecked env id .wsError
      return ⟨m, .wsError id, []⟩
  | .tryToSendConnectMess => do
      let m ← m.setState id .tryToSendConnectMess
      return m.pretreated []
  | .failSendConnectMess => do
      let m ← m.setChecked env id .unreachable
      return m.pretreated []
  | .websocketOk sender =>
      return { m with websockets := m.websockets.insert id sender }.pretreated []
  | .validConnectMessage response newConState => m.receiveConnect env id response newConState
  | .validAckMessage response newConState => m.receiveAck env id response newConState
  | .validOk newConState => m.receiveOk env id newConState
  | .request reqId body => return ⟨m, .request id reqId body, []⟩
  | .peerCard body endpoints => return ⟨m, .peerCard id body endpoints, []⟩
  | .heads heads => do
      let (m, appliedHeads) ← heads.foldlM (fun (m, appliedHeads) => m.applyHead appliedHeads)
        (m, [])
      return ⟨m, .heads id appliedHeads, []⟩
  | .document block => return ⟨m, .document id block, []⟩
  | .reqResponse reqId response =>
      let removed := { m with
        requestsAwaitingResponse := m.requestsAwaitingResponse.remove reqId }
      match m.requestsAwaitingResponse.get? reqId with
      | some infos =>
          return ⟨removed,
            .reqResponse infos.requesterModule infos.reqBody infos.recipientNode response, []⟩
      | none => return removed.pretreated []
  | .negociationTimeout => m.receiveNegociationTimeout env id
  | .timeout => return ⟨m.closeConnection env id .timeout, .timeout id, []⟩
  | .unknowMessage | .wrongFormatMessage => return m.pretreated []
  | .invalidMessage => return ⟨m, .empty, []⟩
  | .close => return (m.closeConnection env id .authMessInvalidSig).pretreated []

end WS2Pv1Module

end Durs.Ws2pV1
