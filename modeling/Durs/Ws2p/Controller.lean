/-
# The WS2P controller

A controller manages one connection: it answers the events of a websocket by orders to the
websocket and events to the orchestrator.  The connection handler passes the events to it and
executes its orders.
-/

import Durs.Ws2p.Messages

namespace Durs

namespace Ws2p

/-! ## States, events and orders -/

/-- `WS2PConnectionState`. -/
inductive WS2PConnectionState
  | neverTry
  | tryToOpenWS
  | wsError
  | tryToSendConnectMsg
  | unreachable
  | waitingConnectMsg
  | noResponse
  | negociationTimeout
  | connectMessOk
  | okMsgOkWaitingAckMsg
  | ackMsgOk
  | secretFlagsOkWaitingAckMsg
  | secretFlagsOk
  | denial
  | close
  | established
deriving DecidableEq, Repr

/-- `WS2PControllerId`. -/
inductive WS2PControllerId
  | client (expectedRemoteFullId : Option NodeFullId)
  | incoming
  | outgoing (expectedRemoteFullId : Option NodeFullId)
deriving DecidableEq, Repr

/-- Get expected remote node full id. -/
def WS2PControllerId.expectedRemoteFullId : WS2PControllerId → Option NodeFullId
  | .client expectedRemoteFullId | .outgoing expectedRemoteFullId => expectedRemoteFullId
  | .incoming => none

/-- Event transmitted to the orchestrator. -/
inductive WS2PControllerEvent
  | newConnEstablished (connType : WS2Pv2ConnectType) (remoteFullId : NodeFullId)
  | stateChange (newState : WS2PConnectionState)
  | recvValidMsg (ws2pMsg : WS2PMessage)
deriving DecidableEq, Repr

/-- Websocket message. -/
inductive WebsocketMessage
  | bin (binMsg : List UInt8)
  | str (strMsg : String)
deriving DecidableEq, Repr

/-- Websocket incoming event. -/
inductive WebsocketIncomingEvent
  | onOpen (remoteAddr : Option String)
  | onMessage (msg : WebsocketMessage)
  | onClose (closeCode : Nat) (reason : Option String)
deriving DecidableEq, Repr

/-- Websocket action. -/
inductive WebsocketAction
  | connectTo (url : String)
  | sendMessage (msg : WebsocketMessage)
  | closeConnection (reason : Option String)
deriving DecidableEq, Repr

/-- Websocket action order. -/
structure WebsocketActionOrder where
  wsAction : WebsocketAction
  newStateIfSuccess : Option WS2PConnectionState
  newStateIfFail : WS2PConnectionState
deriving DecidableEq, Repr

/-- WS2P controller process error. -/
inductive WS2PControllerProcessError
  | orchestratorUnreacheable
deriving DecidableEq, Repr

/-! ## The controller -/

/-- A reading of the system clock, in nanoseconds. -/
abbrev SystemTime := Nat

/-- `duration_since(..).unwrap()`. -/
def durationSince (now earlier : SystemTime) : Run Nat :=
  if earlier ≤ now then return now - earlier
  else fatalError "called `Result::unwrap()` on an `Err` value: SystemTimeError"

/-- The seconds of a duration. -/
def asSecs (duration : Nat) : Nat := duration / 1000000000

/-- Store self WS2P properties. -/
structure MySelfWs2pNode where
  myNodeId : NodeId
  myKeyPair : KeyPairEnum
  myFeatures : WS2PFeatures
deriving DecidableEq, Repr

/-- WS2P remote node datas. -/
structure Ws2pRemoteNodeDatas where
  challenge : Hash
  currentBlockstamp : Option Blockstamp
  peerCard : Option PeerCardV11
  remoteFullId : NodeFullId
deriving DecidableEq, Repr

/-- WS2P connection meta datas. -/
structure WS2PControllerMetaDatas where
  /-- Local challenge. -/
  challenge : Hash
  connectType : WS2Pv2ConnectType
  countInvalidMsgs : Nat
  currency : String
  creationTime : SystemTime
  features : Option WS2PFeatures
  lastMessTime : SystemTime
  localNode : MySelfWs2pNode
  remoteConnectType : Option WS2Pv2ConnectType
  remoteNode : Option Ws2pRemoteNodeDatas
  spamInterval : Bool
  spamCounter : Nat
  state : WS2PConnectionState
deriving DecidableEq, Repr

/-- Instantiate new meta datas. -/
def WS2PControllerMetaDatas.new (challenge : Hash) (connectType : WS2Pv2ConnectType)
    (currency : String) (localNode : MySelfWs2pNode) (creationTime lastMessTime : SystemTime) :
    WS2PControllerMetaDatas :=
  { challenge, connectType, currency, creationTime, lastMessTime, localNode
    countInvalidMsgs := 0
    features := none
    remoteConnectType := none
    remoteNode := none
    spamInterval := false
    spamCounter := 0
    state := .tryToOpenWS }

/-- The sender to the orchestrator, with the events sent over it.  It fails once the orchestrator
has dropped the other end. -/
structure OrchestratorSender where
  connected : Bool
  sent : List WS2PControllerEvent
deriving DecidableEq, Repr

/-- A controller. -/
structure WS2PController where
  id : WS2PControllerId
  orchestratorSender : OrchestratorSender
  metaDatas : WS2PControllerMetaDatas
deriving DecidableEq, Repr

/-- What a function on a controller comes to: the controller after it, with a result or an error. -/
abbrev Processed (α : Type) := WS2PController × Except WS2PControllerProcessError α

namespace WS2PController

/-- Change the meta datas. -/
def modifyMetaDatas (controller : WS2PController)
    (f : WS2PControllerMetaDatas → WS2PControllerMetaDatas) : WS2PController :=
  { controller with metaDatas := f controller.metaDatas }

/-- The controller in another state. -/
def withState (controller : WS2PController) (state : WS2PConnectionState) : WS2PController :=
  controller.modifyMetaDatas fun metaDatas => { metaDatas with state }

/-- Send an event to the orchestrator. -/
def sendEvent (controller : WS2PController) (event : WS2PControllerEvent) : Processed Unit :=
  if controller.orchestratorSender.connected then
    ({ controller with
        orchestratorSender :=
          { controller.orchestratorSender with
            sent := controller.orchestratorSender.sent ++ [event] } }, .ok ())
  else if controller.metaDatas.state ≠ .close then (controller, .error .orchestratorUnreacheable)
  else (controller, .ok ())

/-- Update connection state. -/
def updateConnState (controller : WS2PController) (newState : WS2PConnectionState) :
    Processed Unit :=
  (controller.withState newState).sendEvent (.stateChange newState)

end WS2PController

/-! ## Answering events -/

/-- `close_with_reason`. -/
def closeWithReason (reason : String) (newState : WS2PConnectionState) :
    Option WebsocketActionOrder :=
  some
    { wsAction := .closeConnection (some reason)
      newStateIfSuccess := some newState
      newStateIfFail := newState }

/-- What processing an event comes to. -/
abbrev Answer := Processed (Option WebsocketActionOrder)

/-- An answer without change of the controller. -/
def answer (controller : WS2PController) (order : Option WebsocketActionOrder) : Answer :=
  (controller, .ok order)

/-- Give no order after a change. -/
def thenNone (processed : Processed Unit) : Answer :=
  (processed.1, processed.2.map fun _ => none)

/-- Order the sending of a message. -/
def sendOrder (binMsg : List UInt8) (success : WS2PConnectionState) : Option WebsocketActionOrder :=
  some
    { wsAction := .sendMessage (.bin binMsg)
      newStateIfSuccess := some success
      newStateIfFail := .unreachable }

variable (codec : Codec)

/-- Encapsulate a payload of the local node and order its sending. -/
def sendPayload (controller : WS2PController) (payload : WS2Pv2MessagePayload)
    (success : WS2PConnectionState) (failure : String) : Run Answer := do
  match ← WS2Pv2Message.encapsulatePayload codec controller.metaDatas.currency
      controller.metaDatas.localNode.myNodeId controller.metaDatas.localNode.myKeyPair payload with
  | some binMsg => return answer controller (sendOrder binMsg success)
  | none => fatalError failure

/-- `on_open::process`: send the CONNECT message. -/
def processOnOpen (controller : WS2PController) : Run Answer :=
  match controller.updateConnState .tryToSendConnectMsg with
  | (controller, .error err) => return (controller, .error err)
  | (controller, .ok ()) =>
      sendPayload codec controller
        (.connect (generateConnectMessage controller.metaDatas.connectType
          controller.metaDatas.localNode.myFeatures controller.metaDatas.challenge none))
        .waitingConnectMsg "Dev error: Fail to sign own connect message !"

/-- The last part of `process_ws2p_v2p_connect_msg`, common to all the branches before that have
not returned: the orders to close that they make are dropped. -/
def mergeFeaturesAndAck (controller : WS2PController) (connectMsg : WS2Pv2ConnectMsg) :
    Run Answer := do
  -- check features compatibility
  let controller ←
    match ← controller.metaDatas.localNode.myFeatures.checkFeaturesCompatibility
        connectMsg.apiFeatures with
    | .ok merged => pure (controller.modifyMetaDatas fun m => { m with features := some merged })
    | .error () => pure controller
  sendPayload codec controller (.ack connectMsg.challenge) .connectMessOk
    "Dev error: Fail to sign own ack message !"

/-- Process CONNECT message. -/
def processConnectMsg (controller : WS2PController) (remoteFullId : NodeFullId)
    (connectMsg : WS2Pv2ConnectMsg) : Run Answer :=
  let remoteNode : Ws2pRemoteNodeDatas :=
    { challenge := connectMsg.challenge, currentBlockstamp := none, peerCard := none, remoteFullId }
  if controller.metaDatas.state = .waitingConnectMsg then
    if controller.metaDatas.connectType = .incoming then do
      let remoteConnectType ← WS2Pv2ConnectType.fromFlags connectMsg.flagsQueries
        connectMsg.chunkstamp
      mergeFeaturesAndAck codec
        (controller.modifyMetaDatas fun m =>
          { m with remoteNode := some remoteNode, remoteConnectType := some remoteConnectType })
        connectMsg
    else do
      let expectedFullId ← expect controller.id.expectedRemoteFullId
        "unwrap! called on Option::None"
      if remoteFullId = expectedFullId then
        -- flags not allowed from incoming node, but the order to close is dropped
        mergeFeaturesAndAck codec
          (controller.modifyMetaDatas fun m =>
            { m with remoteNode := some remoteNode, remoteConnectType := some .incoming })
          connectMsg
      else
        return answer controller (closeWithReason "Unexpected PUBKEY or NODE_ID !" .denial)
  else
    -- unexpected CONNECT message, but the order to close is dropped
    mergeFeaturesAndAck codec controller connectMsg

/-- Check the challenge of an ACK message and send the OK message. -/
def checkChallenge (controller : WS2PController) (ackMsgChallenge : Hash)
    (successStatus : WS2PConnectionState) : Run Answer :=
  if controller.metaDatas.challenge ≠ ackMsgChallenge then
    return thenNone (controller.updateConnState .denial)
  else
    sendPayload codec controller (.ok default) successStatus
      "Dev error: Fail to sign own ok message !"

/-- Process ACK message. -/
def processAckMsg (controller : WS2PController) (ackMsgChallenge : Hash) : Run Answer :=
  match controller.metaDatas.state with
  -- already sent ack message and received ok response
  | .okMsgOkWaitingAckMsg => checkChallenge codec controller ackMsgChallenge .established
  -- ack message not yet sent
  | .connectMessOk => checkChallenge codec controller ackMsgChallenge .ackMsgOk
  | _ => return answer controller (closeWithReason "Unexpected ACK message !" .denial)

/-- Process SECRET_FLAGS message. -/
def processSecretFlagsMsg (controller : WS2PController) : Answer :=
  match controller.metaDatas.state with
  | .connectMessOk => thenNone (controller.updateConnState .secretFlagsOkWaitingAckMsg)
  | .ackMsgOk => thenNone (controller.updateConnState .secretFlagsOk)
  | _ => answer controller (closeWithReason "Unexpected SECRET_FLAGS message !" .denial)

/-- The type of an established connection. -/
def establishedConnType (metaDatas : WS2PControllerMetaDatas) : Run WS2Pv2ConnectType :=
  if metaDatas.connectType ≠ .incoming then return metaDatas.connectType
  else expect metaDatas.remoteConnectType "unwrap! called on Option::None"

/-- Process OK message. -/
def processOkMsg (controller : WS2PController) : Run Answer :=
  match controller.metaDatas.state with
  | .connectMessOk | .secretFlagsOkWaitingAckMsg =>
      return thenNone (controller.updateConnState .okMsgOkWaitingAckMsg)
  | .ackMsgOk | .secretFlagsOk => do
      let controller := controller.withState .established
      let connType ← establishedConnType controller.metaDatas
      let remoteNode ← expect controller.metaDatas.remoteNode
        "remote_node must be valued in process_ws2p_v2p_ok_msg() !"
      return thenNone (controller.sendEvent (.newConnEstablished connType remoteNode.remoteFullId))
  | _ => return answer controller (closeWithReason "Unexpected OK message !" .denial)

/-- Process a valid message. -/
def processValidMsg (controller : WS2PController) (validMsg : WS2PMessage) : Run Answer :=
  match validMsg with
  | .v0 | .v1 => fatalError "Dev error: must not use WS2PMessage version < 2 in WS2Pv2+ !"
  | .v2 msg =>
      match msg.payload with
      | .connect connectMsg => processConnectMsg codec controller msg.issuer connectMsg
      | .ack challenge => processAckMsg codec controller challenge
      | .secretFlags _ => return processSecretFlagsMsg controller
      | .ok _ => processOkMsg controller
      | .ko _ => return answer controller (closeWithReason "Receive Ko message !" .denial)
      | .data _ _ =>
          if controller.metaDatas.state = .established then
            return thenNone (controller.sendEvent (.recvValidMsg (.v2 msg)))
          else
            return answer controller
              (closeWithReason "Receive datas message on negociation !" .denial)

/-- Process a message that is not a spam. -/
def processMsg (controller : WS2PController) (msg : WebsocketMessage) : Run Answer :=
  match msg with
  | .bin binMsg => do
      match ← parseAndCheckBinMessage codec binMsg with
      | .ok validMsg => processValidMsg codec controller validMsg
      | .error _ =>
          let controller := controller.modifyMetaDatas fun m =>
            { m with countInvalidMsgs := m.countInvalidMsgs + 1 }
          if controller.metaDatas.countInvalidMsgs ≥ 5 then
            return answer controller
              (closeWithReason "Receive several invalid messages !" .denial)
          else return answer controller none
  | .str _ => return answer controller (closeWithReason "Receive str message !" .denial)

/-- The readings of the clock while a message is processed. -/
structure MessageClock where
  received : SystemTime
  checked : SystemTime
  slept : SystemTime
deriving DecidableEq, Repr

/-- Update the spam counter, given the time since the last message. -/
def updateSpam (metaDatas : WS2PControllerMetaDatas) (elapsed : Nat) : WS2PControllerMetaDatas :=
  if elapsed > 80 * 1000000000 then
    if metaDatas.spamInterval then { metaDatas with spamCounter := metaDatas.spamCounter + 1 }
    else { metaDatas with spamInterval := true, spamCounter := 2 }
  else { metaDatas with spamInterval := false, spamCounter := 0 }

/-- `on_message::process`. -/
def processOnMessage (controller : WS2PController) (msg : WebsocketMessage)
    (clock : MessageClock) : Run Answer := do
  -- the time of the last message is updated before it is compared
  let controller := controller.modifyMetaDatas fun m => { m with lastMessTime := clock.received }
  let elapsed ← durationSince clock.checked controller.metaDatas.lastMessTime
  let controller := controller.modifyMetaDatas fun m => updateSpam m elapsed
  if controller.metaDatas.spamCounter ≥ 6 then
    return answer (controller.modifyMetaDatas fun m => { m with lastMessTime := clock.slept }) none
  else processMsg codec controller msg

/-- Process a websocket incoming event. -/
def process (controller : WS2PController) (event : WebsocketIncomingEvent)
    (clock : MessageClock) : Run Answer :=
  match event with
  | .onOpen _ => processOnOpen codec controller
  | .onMessage msg => processOnMessage codec controller msg clock
  | .onClose _ _ => return thenNone (controller.updateConnState .close)

/-- Check timeouts. -/
def checkTimeouts (controller : WS2PController) (now : SystemTime) :
    Run (Option WebsocketActionOrder) := do
  let timeout (reason : String) : Option WebsocketActionOrder :=
    some
      { wsAction := .closeConnection (some reason)
        newStateIfSuccess := some .close
        newStateIfFail := .unreachable }
  if controller.metaDatas.state = .established then
    let elapsed ← durationSince now controller.metaDatas.lastMessTime
    if asSecs elapsed > 120 then return timeout "Closing due to inactivity." else return none
  else
    let elapsed ← durationSince now controller.metaDatas.creationTime
    if asSecs elapsed > 15 then return timeout "Negociation timeout." else return none

/-! ## The connection handler -/

/-- `exec_ws_action`: what the websocket answers decides the new state. -/
def execWsAction (controller : WS2PController) (order : WebsocketActionOrder) (wsOk : Bool) :
    Run WS2PController :=
  match order.wsAction with
  | .connectTo _ =>
      fatalError "Could not generate a new connection in the context of a controller."
  | .sendMessage _ | .closeConnection _ =>
      if wsOk then
        match order.newStateIfSuccess with
        | some newState => return (controller.updateConnState newState).1
        | none => return controller
      else return (controller.updateConnState order.newStateIfFail).1

/-- The order given for an answer: after an error, the one to close the connection. -/
def orderOf : Except WS2PControllerProcessError (Option WebsocketActionOrder) →
    Option WebsocketActionOrder
  | .ok order => order
  | .error .orchestratorUnreacheable =>
      some
        { wsAction := .closeConnection (some "WS2P Orchestrator unreachable")
          newStateIfSuccess := some .close
          newStateIfFail := .unreachable }

/-- Execute the order given, if there is one. -/
def execOrder (controller : WS2PController) (order : Option WebsocketActionOrder) (wsOk : Bool) :
    Run WS2PController :=
  match order with
  | some order => execWsAction controller order wsOk
  | none => return controller

/-- What happens to a connection. -/
inductive ConnectionEvent
  /-- The websocket gives an event; `wsOk` is its answer to the order given, if any. -/
  | incoming (event : WebsocketIncomingEvent) (clock : MessageClock) (wsOk : Bool)
  | timeout (now : SystemTime) (wsOk : Bool)
  | orchestratorGone
deriving DecidableEq, Repr

/-- The handling of what happens to a connection. -/
def handle (controller : WS2PController) : ConnectionEvent → Run WS2PController
  | .incoming event clock wsOk => do
      let (controller, result) ← process codec controller event clock
      execOrder controller (orderOf result) wsOk
  | .timeout now wsOk => do
      execOrder controller (← checkTimeouts controller now) wsOk
  | .orchestratorGone =>
      return { controller with
        orchestratorSender := { controller.orchestratorSender with connected := false } }

end Ws2p

end Durs
