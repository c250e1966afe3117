/-
# The steps of a controller

What a message can do to a controller, case by case, and what executing an order does.  The
properties of whole connections are read off these cases.
-/

import Durs.Ws2p.Controller

namespace Durs

open RustStd

namespace Ws2p

variable {codec : Codec} {controller : WS2PController}

/-! ## Sending events -/

namespace WS2PController

@[simp]
theorem sendEvent_metaDatas (event : WS2PControllerEvent) :
    (controller.sendEvent event).1.metaDatas = controller.metaDatas := by
  rw [sendEvent]
  split
  case isTrue => rfl
  case isFalse => split <;> rfl

/-- An event sent is the only one added. -/
theorem sendEvent_sent (event : WS2PControllerEvent) :
    (controller.sendEvent event).1.orchestratorSender.sent = controller.orchestratorSender.sent ∨
      (controller.sendEvent event).1.orchestratorSender.sent =
        controller.orchestratorSender.sent ++ [event] := by
  rw [sendEvent]
  split
  case isTrue => exact .inr rfl
  case isFalse => split <;> exact .inl rfl

@[simp]
theorem updateConnState_metaDatas (newState : WS2PConnectionState) :
    (controller.updateConnState newState).1.metaDatas =
      { controller.metaDatas with state := newState } :=
  sendEvent_metaDatas _

theorem updateConnState_state (newState : WS2PConnectionState) :
    (controller.updateConnState newState).1.metaDatas.state = newState := by
  rw [updateConnState_metaDatas]

end WS2PController

/-! ## Executing orders -/

/-- The states in which executing an order may leave a controller. -/
def statesAfter (controller : WS2PController) :
    Option WebsocketActionOrder → List WS2PConnectionState
  | none => [controller.metaDatas.state]
  | some order =>
      [order.newStateIfSuccess.getD controller.metaDatas.state, order.newStateIfFail]

/-- An action leaves the state that its order names for how it went, if it names one. -/
theorem execWsAction_ok {order : WebsocketActionOrder} {wsOk : Bool}
    {controller' : WS2PController} (h : execWsAction controller order wsOk = .ok controller') :
    controller' =
      if wsOk then
        order.newStateIfSuccess.elim controller fun newState =>
          (controller.updateConnState newState).1
      else (controller.updateConnState order.newStateIfFail).1 := by
  rw [execWsAction] at h
  split at h
  case h_1 => cases h
  case h_2 | h_3 =>
    cases wsOk with
    | false => exact (Except.ok.inj h).symm
    | true =>
        cases hsuccess : order.newStateIfSuccess with
        | none =>
            rw [hsuccess] at h
            exact (Except.ok.inj h).symm
        | some newState =>
            rw [hsuccess] at h
            exact (Except.ok.inj h).symm

/-- Executing an order changes the state only, and reports the change. -/
theorem execOrder_ok {order : Option WebsocketActionOrder} {wsOk : Bool}
    {controller' : WS2PController} (h : execOrder controller order wsOk = .ok controller') :
    controller'.metaDatas.state ∈ statesAfter controller order ∧
      controller'.metaDatas =
        { controller.metaDatas with state := controller'.metaDatas.state } ∧
      (controller'.orchestratorSender.sent = controller.orchestratorSender.sent ∨
        ∃ newState, controller'.orchestratorSender.sent =
          controller.orchestratorSender.sent ++ [.stateChange newState]) := by
  have hupdate : ∀ newState, (controller.updateConnState newState).1.orchestratorSender.sent =
      controller.orchestratorSender.sent ∨ ∃ newState',
        (controller.updateConnState newState).1.orchestratorSender.sent =
          controller.orchestratorSender.sent ++ [.stateChange newState'] := by
    intro newState
    rcases (controller.withState newState).sendEvent_sent (.stateChange newState) with hsent | hsent
    · exact .inl hsent
    · exact .inr ⟨newState, hsent⟩
  cases order with
  | none =>
      obtain rfl := Except.ok.inj h
      exact ⟨List.mem_singleton.2 rfl, rfl, .inl rfl⟩
  | some order =>
      have hact := execWsAction_ok h
      rw [statesAfter]
      cases wsOk with
      | false =>
          obtain rfl := hact
          rw [if_neg Bool.false_ne_true, WS2PController.updateConnState_metaDatas]
          exact ⟨by simp, rfl, hupdate _⟩
      | true =>
          cases hsuccess : order.newStateIfSuccess with
          | none =>
              rw [if_pos rfl, hsuccess, Option.elim_none] at hact
              obtain rfl := hact
              exact ⟨by simp, rfl, .inl rfl⟩
          | some newState =>
              rw [if_pos rfl, hsuccess, Option.elim_some] at hact
              obtain rfl := hact
              rw [WS2PController.updateConnState_metaDatas]
              exact ⟨by simp, rfl, hupdate _⟩

/-! ## Valid messages -/

/-- Whether a payload is an OK message. -/
def WS2Pv2MessagePayload.isOk : WS2Pv2MessagePayload → Bool
  | .ok _ => true
  | _ => false

/-- The answers to a valid message. -/
inductive ValidMsgStep (controller : WS2PController) (msg : WS2Pv2Message) : Answer → Prop
  | refused (reason : String) :
      ValidMsgStep controller msg (answer controller (closeWithReason reason .denial))
  /-- A CONNECT message is acknowledged; the remote node is recorded if one was waited for. -/
  | connected (connectMsg : WS2Pv2ConnectMsg) (features : Option WS2PFeatures)
      (remoteConnectType : Option WS2Pv2ConnectType) (remoteNode : Option Ws2pRemoteNodeDatas)
      (binMsg : List UInt8) :
      msg.payload = .connect connectMsg →
      (controller.metaDatas.state ≠ .waitingConnectMsg →
        remoteNode = controller.metaDatas.remoteNode) →
      ValidMsgStep controller msg
        (answer
          (controller.modifyMetaDatas fun m => { m with features, remoteConnectType, remoteNode })
          (sendOrder binMsg .connectMessOk))
  | wrongChallenge :
      ValidMsgStep controller msg (thenNone (controller.updateConnState .denial))
  | acknowledged (success : WS2PConnectionState) (binMsg : List UInt8) :
      msg.payload = .ack controller.metaDatas.challenge →
      (controller.metaDatas.state = .okMsgOkWaitingAckMsg ∧ success = .established ∨
        controller.metaDatas.state = .connectMessOk ∧ success = .ackMsgOk) →
      ValidMsgStep controller msg (answer controller (sendOrder binMsg success))
  | okReceived :
      (controller.metaDatas.state = .connectMessOk ∨
        controller.metaDatas.state = .secretFlagsOkWaitingAckMsg) →
      ValidMsgStep controller msg (thenNone (controller.updateConnState .okMsgOkWaitingAckMsg))
  | secretFlagsFirst :
      controller.metaDatas.state = .connectMessOk →
      ValidMsgStep controller msg
        (thenNone (controller.updateConnState .secretFlagsOkWaitingAckMsg))
  | secretFlagsLast :
      controller.metaDatas.state = .ackMsgOk →
      ValidMsgStep controller msg (thenNone (controller.updateConnState .secretFlagsOk))
  | established (connType : WS2Pv2ConnectType) (remoteNode : Ws2pRemoteNodeDatas) :
      msg.payload.isOk = true →
      (controller.metaDatas.state = .ackMsgOk ∨ controller.metaDatas.state = .secretFlagsOk) →
      establishedConnType controller.metaDatas = .ok connType →
      controller.metaDatas.remoteNode = some remoteNode →
      ValidMsgStep controller msg
        (thenNone ((controller.withState .established).sendEvent
          (.newConnEstablished connType remoteNode.remoteFullId)))
  | forwarded (kind : DataKind) (content : List UInt8) :
      msg.payload = .data kind content → controller.metaDatas.state = .established →
      ValidMsgStep controller msg (thenNone (controller.sendEvent (.recvValidMsg (.v2 msg))))

theorem sendPayload_ok {payload : WS2Pv2MessagePayload} {success : WS2PConnectionState}
    {failure : String} {result : Answer}
    (h : sendPayload codec controller payload success failure = .ok result) :
    ∃ binMsg, result = answer controller (sendOrder binMsg success) := by
  rw [sendPayload, bind_eq_ok_iff] at h
  rcases h with ⟨binMsg?, -, h⟩
  cases binMsg? with
  | none => cases h
  | some binMsg =>
      obtain rfl := Except.ok.inj h
      exact ⟨binMsg, rfl⟩

/-- The part common to the branches of a CONNECT message may change the features, and then sends
the ACK message. -/
theorem mergeFeaturesAndAck_ok {connectMsg : WS2Pv2ConnectMsg} {result : Answer}
    (h : mergeFeaturesAndAck codec controller connectMsg = .ok result) :
    ∃ features binMsg, result =
      answer (controller.modifyMetaDatas fun m => { m with features })
        (sendOrder binMsg .connectMessOk) := by
  rw [mergeFeaturesAndAck, bind_eq_ok_iff] at h
  rcases h with ⟨merged?, -, h⟩
  cases merged? with
  | error err =>
      rcases sendPayload_ok h with ⟨binMsg, rfl⟩
      exact ⟨controller.metaDatas.features, binMsg, rfl⟩
  | ok merged =>
      rcases sendPayload_ok h with ⟨binMsg, rfl⟩
      exact ⟨some merged, binMsg, rfl⟩

theorem processConnectMsg_step {msg : WS2Pv2Message} {connectMsg : WS2Pv2ConnectMsg}
    {result : Answer} (hpayload : msg.payload = .connect connectMsg)
    (h : processConnectMsg codec controller msg.issuer connectMsg = .ok result) :
    ValidMsgStep controller msg result := by
  rw [processConnectMsg] at h
  split at h
  case isTrue hwaiting =>
    split at h
    case isTrue =>
      rcases bind_eq_ok_iff.1 h with ⟨remoteConnectType, -, h⟩
      rcases mergeFeaturesAndAck_ok h with ⟨features, binMsg, rfl⟩
      exact .connected connectMsg features _ _ binMsg hpayload (absurd hwaiting)
    case isFalse =>
      rcases bind_eq_ok_iff.1 h with ⟨expectedFullId, -, h⟩
      split at h
      case isTrue =>
        rcases mergeFeaturesAndAck_ok h with ⟨features, binMsg, rfl⟩
        exact .connected connectMsg features _ _ binMsg hpayload (absurd hwaiting)
      case isFalse =>
        obtain rfl := Except.ok.inj h
        exact .refused _
  case isFalse =>
    rcases mergeFeaturesAndAck_ok h with ⟨features, binMsg, rfl⟩
    exact .connected connectMsg features _ _ binMsg hpayload fun _ => rfl

theorem checkChallenge_step {msg : WS2Pv2Message} {challenge : Hash}
    {success : WS2PConnectionState} {result : Answer} (hpayload : msg.payload = .ack challenge)
    (hstate : controller.metaDatas.state = .okMsgOkWaitingAckMsg ∧ success = .established ∨
      controller.metaDatas.state = .connectMessOk ∧ success = .ackMsgOk)
    (h : checkChallenge codec controller challenge success = .ok result) :
    ValidMsgStep controller msg result := by
  rw [checkChallenge] at h
  split at h
  case isTrue =>
    obtain rfl := Except.ok.inj h
    exact .wrongChallenge
  case isFalse hsame =>
    rcases sendPayload_ok h with ⟨binMsg, rfl⟩
    exact .acknowledged success binMsg (hpayload.trans (by rw [not_not.1 hsame])) hstate

theorem processAckMsg_step {msg : WS2Pv2Message} {challenge : Hash} {result : Answer}
    (hpayload : msg.payload = .ack challenge)
    (h : processAckMsg codec controller challenge = .ok result) :
    ValidMsgStep controller msg result := by
  rw [processAckMsg] at h
  split at h
  case h_1 hstate => exact checkChallenge_step hpayload (.inl ⟨hstate, rfl⟩) h
  case h_2 hstate => exact checkChallenge_step hpayload (.inr ⟨hstate, rfl⟩) h
  case h_3 =>
    obtain rfl := Except.ok.inj h
    exact .refused _

theorem processSecretFlagsMsg_step (msg : WS2Pv2Message) :
    ValidMsgStep controller msg (processSecretFlagsMsg controller) := by
  rw [processSecretFlagsMsg]
  split
  case h_1 hstate => exact .secretFlagsFirst hstate
  case h_2 hstate => exact .secretFlagsLast hstate
  case h_3 => exact .refused _

theorem processOkMsg_step {msg : WS2Pv2Message} {result : Answer}
    (hpayload : msg.payload.isOk = true) (h : processOkMsg controller = .ok result) :
    ValidMsgStep controller msg result := by
  rw [processOkMsg] at h
  split at h
  case h_1 hstate =>
    obtain rfl := Except.ok.inj h
    exact .okReceived (.inl hstate)
  case h_2 hstate =>
    obtain rfl := Except.ok.inj h
    exact .okReceived (.inr hstate)
  case h_3 hstate =>
    simp only [bind_eq_ok_iff, expect_eq_ok_iff] at h
    rcases h with ⟨connType, hconn, remoteNode, hremote, h⟩
    obtain rfl := Except.ok.inj h
    exact .established connType remoteNode hpayload (.inl hstate) hconn hremote
  case h_4 hstate =>
    simp only [bind_eq_ok_iff, expect_eq_ok_iff] at h
    rcases h with ⟨connType, hconn, remoteNode, hremote, h⟩
    obtain rfl := Except.ok.inj h
    exact .established connType remoteNode hpayload (.inr hstate) hconn hremote
  case h_5 =>
    obtain rfl := Except.ok.inj h
    exact .refused _

/-- The answers to a valid message are those listed. -/
theorem processValidMsg_step {msg : WS2Pv2Message} {result : Answer}
    (h : processValidMsg codec controller (.v2 msg) = .ok result) :
    ValidMsgStep controller msg result := by
  rw [processValidMsg] at h
  cases hpayload : msg.payload with
  | connect connectMsg =>
      rw [hpayload] at h
      exact processConnectMsg_step hpayload h
  | ack challenge =>
      rw [hpayload] at h
      exact processAckMsg_step hpayload h
  | secretFlags secretFlags =>
      rw [hpayload] at h
      obtain rfl := Except.ok.inj h
      exact processSecretFlagsMsg_step msg
  | ok okMsg =>
      rw [hpayload] at h
      exact processOkMsg_step (by rw [hpayload]; rfl) h
  | ko code =>
      rw [hpayload] at h
      obtain rfl := Except.ok.inj h
      exact .refused _
  | data kind content =>
      rw [hpayload] at h
      simp only at h
      split at h
      case isTrue hstate =>
        obtain rfl := Except.ok.inj h
        exact .forwarded kind content hpayload hstate
      case isFalse =>
        obtain rfl := Except.ok.inj h
        exact .refused _

/-! ## Messages -/

/-- A controller of which only the clock and the counters have changed. -/
def Touched (controller controller' : WS2PController) : Prop :=
  ∃ lastMessTime spamInterval spamCounter countInvalidMsgs, controller' =
    controller.modifyMetaDatas fun m =>
      { m with lastMessTime, spamInterval, spamCounter, countInvalidMsgs }

namespace Touched

variable {controller' controller'' : WS2PController}

theorem trans (h : Touched controller controller') (h' : Touched controller' controller'') :
    Touched controller controller'' := by
  rcases h with ⟨_, _, _, _, rfl⟩
  rcases h' with ⟨lastMessTime, spamInterval, spamCounter, countInvalidMsgs, rfl⟩
  exact ⟨lastMessTime, spamInterval, spamCounter, countInvalidMsgs, rfl⟩

theorem id (h : Touched controller controller') : controller'.id = controller.id := by
  rcases h with ⟨_, _, _, _, rfl⟩
  rfl

theorem state (h : Touched controller controller') :
    controller'.metaDatas.state = controller.metaDatas.state := by
  rcases h with ⟨_, _, _, _, rfl⟩
  rfl

theorem challenge (h : Touched controller controller') :
    controller'.metaDatas.challenge = controller.metaDatas.challenge := by
  rcases h with ⟨_, _, _, _, rfl⟩
  rfl

theorem connectType (h : Touched controller controller') :
    controller'.metaDatas.connectType = controller.metaDatas.connectType := by
  rcases h with ⟨_, _, _, _, rfl⟩
  rfl

theorem localNode (h : Touched controller controller') :
    controller'.metaDatas.localNode = controller.metaDatas.localNode := by
  rcases h with ⟨_, _, _, _, rfl⟩
  rfl

theorem remoteNode (h : Touched controller controller') :
    controller'.metaDatas.remoteNode = controller.metaDatas.remoteNode := by
  rcases h with ⟨_, _, _, _, rfl⟩
  rfl

theorem sender (h : Touched controller controller') :
    controller'.orchestratorSender = controller.orchestratorSender := by
  rcases h with ⟨_, _, _, _, rfl⟩
  rfl

end Touched

/-- The valid message that a received one holds. -/
def WebsocketMessage.valid? (codec : Codec) : WebsocketMessage → Option WS2Pv2Message
  | .bin binMsg =>
      match parseAndCheckBinMessage codec binMsg with
      | .ok (.ok (.v2 msg)) => some msg
      | _ => none
  | .str _ => none

/-- The answers to a message: it is ignored or refused as such, or it is valid. -/
inductive MessageStep (codec : Codec) (controller : WS2PController) (msg : WebsocketMessage) :
    Answer → Prop
  | ignored (controller' : WS2PController) :
      Touched controller controller' → MessageStep codec controller msg (answer controller' none)
  | refused (controller' : WS2PController) (reason : String) :
      Touched controller controller' →
      MessageStep codec controller msg (answer controller' (closeWithReason reason .denial))
  | valid (controller' : WS2PController) (validMsg : WS2Pv2Message) (result : Answer) :
      Touched controller controller' → msg.valid? codec = some validMsg →
      processValidMsg codec controller' (.v2 validMsg) = .ok result →
      MessageStep codec controller msg result

theorem processMsg_step {controller' : WS2PController} {msg : WebsocketMessage} {result : Answer}
    (htouched : Touched controller controller')
    (h : processMsg codec controller' msg = .ok result) :
    MessageStep codec controller msg result := by
  cases msg with
  | str strMsg =>
      obtain rfl := Except.ok.inj h
      exact .refused _ _ htouched
  | bin binMsg =>
      rw [processMsg, bind_eq_ok_iff] at h
      rcases h with ⟨parsed, hparsed, h⟩
      match parsed with
      | .ok .v0 => cases h
      | .ok .v1 => cases h
      | .ok (.v2 validMsg) =>
          refine .valid controller' validMsg result htouched ?_ h
          rw [WebsocketMessage.valid?, hparsed]
      | .error err =>
          have hcounted : Touched controller (controller'.modifyMetaDatas fun m =>
              { m with countInvalidMsgs := m.countInvalidMsgs + 1 }) :=
            htouched.trans ⟨_, _, _, _, rfl⟩
          simp only at h
          split at h
          case isTrue =>
            obtain rfl := Except.ok.inj h
            exact .refused _ _ hcounted
          case isFalse =>
            obtain rfl := Except.ok.inj h
            exact .ignored _ hcounted

/-- The clock and the counters are all that a message changes before it is looked at. -/
theorem touched_updateSpam (controller : WS2PController) (received : SystemTime) (elapsed : Nat) :
    Touched controller
      ((controller.modifyMetaDatas fun m => { m with lastMessTime := received }).modifyMetaDatas
        fun m => updateSpam m elapsed) := by
  have hspam : ∀ metaDatas : WS2PControllerMetaDatas, ∃ spamInterval spamCounter,
      updateSpam metaDatas elapsed = { metaDatas with spamInterval, spamCounter } := by
    intro metaDatas
    rw [updateSpam]
    split
    case isTrue => split <;> exact ⟨_, _, rfl⟩
    case isFalse => exact ⟨_, _, rfl⟩
  rcases hspam { controller.metaDatas with lastMessTime := received } with
    ⟨spamInterval, spamCounter, heq⟩
  refine ⟨received, spamInterval, spamCounter, controller.metaDatas.countInvalidMsgs, ?_⟩
  rw [WS2PController.modifyMetaDatas, WS2PController.modifyMetaDatas, heq]
  rfl

/-- The answers to a message are those listed. -/
theorem processOnMessage_step {msg : WebsocketMessage} {clock : MessageClock} {result : Answer}
    (h : processOnMessage codec controller msg clock = .ok result) :
    MessageStep codec controller msg result := by
  rw [processOnMessage, bind_eq_ok_iff] at h
  rcases h with ⟨elapsed, -, h⟩
  have htouched := touched_updateSpam controller clock.received elapsed
  simp only at h
  split at h
  case isTrue =>
    obtain rfl := Except.ok.inj h
    exact .ignored _ (htouched.trans ⟨_, _, _, _, rfl⟩)
  case isFalse => exact processMsg_step htouched h

end Ws2p

end Durs
