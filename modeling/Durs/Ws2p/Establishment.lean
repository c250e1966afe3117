/-
# How often an established connection is announced

The orchestrator is to hear of an established connection once.  The handler of OK messages changes
the state and sends the announcement; when the ACK message comes last, the state is changed by the
order to send the OK message, and nothing is announced.  A negotiation that starts again announces
again.
-/

import Durs.Ws2p.Robustness

namespace Durs

open RustStd Lib

namespace Ws2p

variable {codec : Codec} {controller controller' : WS2PController}

/-! ## Announcements -/

/-- What is announced of an established connection: its type and the remote node. -/
abbrev Announcement := WS2Pv2ConnectType × NodeFullId

/-- The announcement that an event is. -/
def WS2PControllerEvent.announcement? : WS2PControllerEvent → Option Announcement
  | .newConnEstablished connType remoteFullId => some (connType, remoteFullId)
  | _ => none

namespace WS2PController

/-- The announcements that the orchestrator has received. -/
def announcements (controller : WS2PController) : List Announcement :=
  controller.orchestratorSender.sent.filterMap WS2PControllerEvent.announcement?

/-- The type of connection agreed in CONNECT. -/
def agreedConnectType? (controller : WS2PController) : Option WS2Pv2ConnectType :=
  if controller.metaDatas.connectType ≠ .incoming then some controller.metaDatas.connectType
  else controller.metaDatas.remoteConnectType

/-- What is to be announced of the connection: the type agreed and the remote node recorded. -/
def agreed? (controller : WS2PController) : Option Announcement :=
  controller.agreedConnectType?.bind fun connType =>
    controller.remoteFullId?.map fun remoteFullId => (connType, remoteFullId)

/-- The connection, as agreed, has been announced exactly once, and no other has. -/
def Announced (controller : WS2PController) : Prop :=
  ∃ announcement ∈ controller.agreed?, controller.announcements = [announcement]

instance Announced.decidable (controller : WS2PController) : Decidable controller.Announced :=
  inferInstanceAs (Decidable (∃ _ ∈ _, _))

/-- When a connection is established, it has been announced exactly once. -/
def AnnouncedOnce (controller : WS2PController) : Prop :=
  controller.metaDatas.state = .established → controller.Announced

/-- No event announces the connection without leaving it established. -/
def AnnouncesEstablished (codec : Codec) (controller : WS2PController) : Prop :=
  ∀ event controller', handle codec controller event = .ok controller' →
    controller'.announcements ≠ controller.announcements →
    controller'.metaDatas.state = .established

theorem agreed?_congr (hconn : controller'.metaDatas.connectType = controller.metaDatas.connectType)
    (hremote : controller'.metaDatas.remoteConnectType = controller.metaDatas.remoteConnectType)
    (hnode : controller'.metaDatas.remoteNode = controller.metaDatas.remoteNode) :
    controller'.agreed? = controller.agreed? := by
  rw [agreed?, agreed?, agreedConnectType?, agreedConnectType?, remoteFullId?, remoteFullId?, hconn,
    hremote, hnode]

/-- A change of the state alone does not change what is agreed. -/
theorem agreed?_of_state (h : controller'.metaDatas =
    { controller.metaDatas with state := controller'.metaDatas.state }) :
    controller'.agreed? = controller.agreed? :=
  agreed?_congr (congrArg (·.connectType) h) (congrArg (·.remoteConnectType) h)
    (congrArg (·.remoteNode) h)

@[simp]
theorem announcements_updateConnState (newState : WS2PConnectionState) :
    (controller.updateConnState newState).1.announcements = controller.announcements := by
  rcases (controller.withState newState).sendEvent_sent (.stateChange newState) with hsent | hsent
  · exact congrArg (List.filterMap _) hsent
  · rw [announcements, updateConnState, hsent, List.filterMap_append]
    exact List.append_nil _

theorem announcements_execOrder {order : Option WebsocketActionOrder} {wsOk : Bool}
    (h : execOrder controller order wsOk = .ok controller') :
    controller'.announcements = controller.announcements := by
  rcases (execOrder_ok h).2.2 with hsent | ⟨newState, hsent⟩
  · exact congrArg (List.filterMap _) hsent
  · rw [announcements, hsent, List.filterMap_append]
    exact List.append_nil _

/-- An event of another kind is not an announcement. -/
theorem announcements_sendEvent_of_none {event : WS2PControllerEvent}
    (h : event.announcement? = none) :
    (controller.sendEvent event).1.announcements = controller.announcements := by
  rcases controller.sendEvent_sent event with hsent | hsent
  · exact congrArg (List.filterMap _) hsent
  · rw [announcements, hsent, List.filterMap_append, List.filterMap_cons_none h]
    exact List.append_nil _

end WS2PController

open WS2PController

theorem Touched.agreed? (h : Touched controller controller') :
    controller'.agreed? = controller.agreed? := by
  rcases h with ⟨_, _, _, _, rfl⟩
  rfl

theorem Touched.announcements (h : Touched controller controller') :
    controller'.announcements = controller.announcements := by
  rcases h with ⟨_, _, _, _, rfl⟩
  rfl

/-! ## The last messages of a negotiation -/

/-- The valid message that an event makes the controller process, if it does not take it for
spam. -/
def ConnectionEvent.processed? (codec : Codec) (controller : WS2PController) :
    ConnectionEvent → Option WS2Pv2Message
  | .incoming (.onMessage msg) clock _ =>
      if Spam controller clock then none else msg.valid? codec
  | _ => none

/-- The answer of the websocket to the order given for an event. -/
def ConnectionEvent.wsOk : ConnectionEvent → Bool
  | .incoming _ _ wsOk | .timeout _ wsOk => wsOk
  | .orchestratorGone => false

/-- The ACK message comes last: the OK message is sent in answer, and the connection is established
by the order to send it. -/
def LastAck (codec : Codec) (controller : WS2PController) (event : ConnectionEvent) : Prop :=
  event.wsOk = true ∧ controller.metaDatas.state = .okMsgOkWaitingAckMsg ∧
    ∃ msg ∈ event.processed? codec controller, msg.payload = .ack controller.metaDatas.challenge

/-- The OK message comes last, while the orchestrator can be reached. -/
def LastOk (codec : Codec) (controller : WS2PController) (event : ConnectionEvent) : Prop :=
  controller.orchestratorSender.connected = true ∧
    (controller.metaDatas.state = .ackMsgOk ∨ controller.metaDatas.state = .secretFlagsOk) ∧
    ∃ msg ∈ event.processed? codec controller, msg.payload.isOk = true

/-- An event announces the connection once: the ACK message comes last only on a connection that
has been announced already, and the OK message only on one that has not. -/
def AnnouncesOnce (codec : Codec) (controller : WS2PController) (event : ConnectionEvent) : Prop :=
  (LastAck codec controller event → controller.Announced) ∧
    (LastOk codec controller event → controller.announcements = [])

/-! ## What an event does -/

theorem processMsg_of_valid? {msg : WebsocketMessage} {validMsg : WS2Pv2Message}
    (h : msg.valid? codec = some validMsg) :
    processMsg codec controller msg = processValidMsg codec controller (.v2 validMsg) := by
  cases msg with
  | str strMsg => cases h
  | bin binMsg =>
      rw [WebsocketMessage.valid?] at h
      split at h
      case h_1 msg hparse =>
        obtain rfl := Option.some.inj h
        rw [processMsg, hparse, ok_bind]
      case h_2 => cases h

/-- The ACK message that comes last is answered by an OK message. -/
theorem processValidMsg_lastAck {msg : WS2Pv2Message} {result : Answer}
    (hpayload : msg.payload = .ack controller.metaDatas.challenge)
    (hstate : controller.metaDatas.state = .okMsgOkWaitingAckMsg)
    (h : processValidMsg codec controller (.v2 msg) = .ok result) :
    ∃ binMsg, result = answer controller (sendOrder binMsg .established) := by
  simp only [processValidMsg, hpayload, processAckMsg, hstate, checkChallenge, ne_eq,
    not_true_eq_false, if_false] at h
  exact sendPayload_ok h

/-- The OK message that comes last announces the connection. -/
theorem processValidMsg_lastOk {msg : WS2Pv2Message} {result : Answer}
    (hpayload : msg.payload.isOk = true)
    (hstate : controller.metaDatas.state = .ackMsgOk ∨ controller.metaDatas.state = .secretFlagsOk)
    (h : processValidMsg codec controller (.v2 msg) = .ok result) :
    ∃ announcement ∈ controller.agreed?, result = thenNone
      ((controller.withState .established).sendEvent
        (.newConnEstablished announcement.1 announcement.2)) := by
  have hok : processOkMsg controller = .ok result := by
    rw [processValidMsg] at h
    cases hcase : msg.payload with
    | ok okMsg => rwa [hcase] at h
    | connect connectMsg => rw [hcase] at hpayload; cases hpayload
    | ack challenge => rw [hcase] at hpayload; cases hpayload
    | secretFlags secretFlags => rw [hcase] at hpayload; cases hpayload
    | ko code => rw [hcase] at hpayload; cases hpayload
    | data kind content => rw [hcase] at hpayload; cases hpayload
  have hend : ∃ connType, establishedConnType controller.metaDatas = .ok connType ∧
      ∃ remoteNode, controller.metaDatas.remoteNode = some remoteNode ∧
        result = thenNone ((controller.withState .established).sendEvent
          (.newConnEstablished connType remoteNode.remoteFullId)) := by
    rcases hstate with hstate | hstate
    all_goals
      simp only [processOkMsg, hstate, bind_eq_ok_iff, expect_eq_ok_iff] at hok
      rcases hok with ⟨connType, hconn, remoteNode, hremote, hok⟩
      exact ⟨connType, hconn, remoteNode, hremote, (Except.ok.inj hok).symm⟩
  rcases hend with ⟨connType, hconn, remoteNode, hremote, rfl⟩
  refine ⟨(connType, remoteNode.remoteFullId), ?_, rfl⟩
  have hagreed : controller.agreedConnectType? = some connType := by
    rw [agreedConnectType?]
    rw [establishedConnType] at hconn
    split at hconn
    case isTrue hne => rw [if_pos hne, Except.ok.inj hconn]
    case isFalse hnot => rw [if_neg hnot, expect_eq_ok_iff.1 hconn]
  rw [WS2PController.agreed?, hagreed, remoteFullId?, hremote]
  rfl

theorem announcements_processOnOpen {processed : Answer}
    (h : processOnOpen codec controller = .ok processed) :
    processed.1.announcements = controller.announcements := by
  have hupdated : (controller.updateConnState .tryToSendConnectMsg).1.announcements =
      controller.announcements := announcements_updateConnState _
  rw [processOnOpen] at h
  rcases hupdate : controller.updateConnState .tryToSendConnectMsg with ⟨updated, err | _⟩
  · rw [hupdate] at h hupdated
    obtain rfl := Except.ok.inj h
    exact hupdated
  · rw [hupdate] at h hupdated
    rcases sendPayload_ok h with ⟨binMsg, rfl⟩
    exact hupdated

/-- An event that is not a message announces nothing. -/
theorem announcements_of_changesState {event : ConnectionEvent}
    (hnot : ∀ msg clock wsOk, event ≠ .incoming (.onMessage msg) clock wsOk)
    (h : handle codec controller event = .ok controller') :
    controller'.announcements = controller.announcements := by
  match event with
  | .incoming (.onMessage msg) clock wsOk => exact absurd rfl (hnot msg clock wsOk)
  | .incoming (.onOpen remoteAddr) clock wsOk =>
      rw [handle, bind_eq_ok_iff] at h
      rcases h with ⟨processed, hprocess, h⟩
      exact (announcements_execOrder h).trans (announcements_processOnOpen hprocess)
  | .incoming (.onClose closeCode reason) clock wsOk =>
      rw [handle, bind_eq_ok_iff] at h
      rcases h with ⟨processed, hprocess, h⟩
      obtain rfl := Except.ok.inj hprocess
      exact (announcements_execOrder h).trans (announcements_updateConnState .close)
  | .timeout now wsOk =>
      rw [handle, bind_eq_ok_iff] at h
      rcases h with ⟨order, -, h⟩
      exact announcements_execOrder h
  | .orchestratorGone =>
      obtain rfl := Except.ok.inj h
      rfl

/-- A valid message that is not the last of a negotiation announces nothing, and leaves the
connection established only if it was. -/
theorem announcements_of_validMsg {msg : WS2Pv2Message} {result : Answer} {wsOk : Bool}
    (hack : ¬ (wsOk = true ∧ controller.metaDatas.state = .okMsgOkWaitingAckMsg ∧
      msg.payload = .ack controller.metaDatas.challenge))
    (hok : ¬ (controller.orchestratorSender.connected = true ∧
      (controller.metaDatas.state = .ackMsgOk ∨ controller.metaDatas.state = .secretFlagsOk) ∧
      msg.payload.isOk = true))
    (h : processValidMsg codec controller (.v2 msg) = .ok result)
    (hexec : execOrder result.1 (orderOf result.2) wsOk = .ok controller') :
    controller'.announcements = controller.announcements ∧
      (controller'.metaDatas.state = .established →
        controller.metaDatas.state = .established ∧ controller'.agreed? = controller.agreed?) := by
  have hannounced := announcements_execOrder hexec
  have hstate := (execOrder_ok hexec).1
  have hagreed := agreed?_of_state (execOrder_ok hexec).2.1
  have hchanged : ∀ newState : WS2PConnectionState, newState ≠ .established →
      result = thenNone (controller.updateConnState newState) →
      controller'.announcements = controller.announcements ∧
        (controller'.metaDatas.state = .established →
          controller.metaDatas.state = .established ∧ controller'.agreed? = controller.agreed?) := by
    rintro newState hne rfl
    refine ⟨hannounced.trans (announcements_updateConnState newState), fun hest => ?_⟩
    rcases state_of_thenNone hexec with hstate | hstate | hstate
    · rw [WS2PController.updateConnState_state, hest] at hstate
      exact absurd hstate.symm hne
    · rw [hest] at hstate
      cases hstate
    · rw [hest] at hstate
      cases hstate
  cases processValidMsg_step h with
  | refused reason =>
      refine ⟨hannounced, fun hest => ?_⟩
      rw [hest] at hstate
      simp [answer, orderOf, closeWithReason, statesAfter] at hstate
  | connected connectMsg features remoteConnectType remoteNode binMsg hpayload hwaiting =>
      refine ⟨hannounced, fun hest => ?_⟩
      rw [hest] at hstate
      simp [answer, orderOf, sendOrder, statesAfter] at hstate
  | wrongChallenge => exact hchanged .denial (by decide) rfl
  | acknowledged success binMsg hpayload hfrom =>
      refine ⟨hannounced, fun hest => ?_⟩
      rcases hfrom with ⟨hfrom, rfl⟩ | ⟨hfrom, rfl⟩
      · cases wsOk with
        | true => exact absurd ⟨rfl, hfrom, hpayload⟩ hack
        | false =>
            obtain rfl := Except.ok.inj hexec
            rw [updateConnState_state] at hest
            cases hest
      · rw [hest] at hstate
        simp [answer, orderOf, sendOrder, statesAfter] at hstate
  | okReceived hfrom => exact hchanged .okMsgOkWaitingAckMsg (by decide) rfl
  | secretFlagsFirst hfrom => exact hchanged .secretFlagsOkWaitingAckMsg (by decide) rfl
  | secretFlagsLast hfrom => exact hchanged .secretFlagsOk (by decide) rfl
  | established connType remoteNode hpayload hfrom hconn hremote =>
      have hgone : ¬ controller.orchestratorSender.connected = true :=
        fun hconnected => hok ⟨hconnected, hfrom, hpayload⟩
      have hsend : (controller.withState .established).sendEvent
          (.newConnEstablished connType remoteNode.remoteFullId) =
            (controller.withState .established, .error .orchestratorUnreacheable) := by
        rw [sendEvent, if_neg (by exact hgone), if_pos (by exact WS2PConnectionState.noConfusion)]
      rw [hsend] at hannounced hstate
      refine ⟨hannounced, fun hest => ?_⟩
      rw [hest] at hstate
      simp [thenNone, Except.map, orderOf, statesAfter] at hstate
  | forwarded kind content hpayload hfrom =>
      refine ⟨hannounced.trans (announcements_sendEvent_of_none rfl), fun _ => ⟨hfrom, ?_⟩⟩
      have hmeta : (controller.sendEvent (.recvValidMsg (.v2 msg))).1.metaDatas =
          controller.metaDatas := sendEvent_metaDatas _
      exact hagreed.trans (agreed?_congr (congrArg (·.connectType) hmeta)
        (congrArg (·.remoteConnectType) hmeta) (congrArg (·.remoteNode) hmeta))

/-- A valid message that is not taken for spam is processed. -/
theorem handle_processed {event : ConnectionEvent} {msg : WS2Pv2Message}
    (hmsg : event.processed? codec controller = some msg)
    (h : handle codec controller event = .ok controller') :
    ∃ touched result, Touched controller touched ∧
      processValidMsg codec touched (.v2 msg) = .ok result ∧
      execOrder result.1 (orderOf result.2) event.wsOk = .ok controller' := by
  match event with
  | .incoming (.onOpen remoteAddr) clock wsOk => cases hmsg
  | .incoming (.onClose closeCode reason) clock wsOk => cases hmsg
  | .timeout now wsOk => cases hmsg
  | .orchestratorGone => cases hmsg
  | .incoming (.onMessage received) clock wsOk =>
      rw [ConnectionEvent.processed?] at hmsg
      split at hmsg
      case isTrue => cases hmsg
      case isFalse hspam =>
        rw [handle, bind_eq_ok_iff] at h
        rcases h with ⟨result, hprocess, hexec⟩
        rcases processOnMessage_cases hprocess with
          ⟨touched, htouched, ⟨hspam', -⟩ | ⟨-, hprocess⟩⟩
        · exact absurd hspam' hspam
        · rw [processMsg_of_valid? hmsg] at hprocess
          exact ⟨touched, result, htouched, hprocess, hexec⟩

/-- A message that makes the controller process no valid message leaves the state, or denies the
connection. -/
theorem handle_not_processed {event : ConnectionEvent}
    (hnone : event.processed? codec controller = none)
    (h : handle codec controller event = .ok controller') :
    controller'.announcements = controller.announcements ∧
      (controller'.metaDatas.state = .established →
        controller.metaDatas.state = .established ∧ controller'.agreed? = controller.agreed?) := by
  by_cases hmsg : ∃ received clock wsOk, event = .incoming (.onMessage received) clock wsOk
  · rcases hmsg with ⟨received, clock, wsOk, rfl⟩
    rw [handle, bind_eq_ok_iff] at h
    rcases h with ⟨result, hprocess, hexec⟩
    have hignored : ∀ touched, Touched controller touched → result = answer touched none →
        controller'.announcements = controller.announcements ∧
          (controller'.metaDatas.state = .established →
            controller.metaDatas.state = .established ∧
              controller'.agreed? = controller.agreed?) := by
      rintro touched htouched rfl
      obtain rfl := Except.ok.inj hexec
      refine ⟨htouched.announcements, fun hest => ⟨?_, htouched.agreed?⟩⟩
      rw [← htouched.state]
      exact hest
    rcases processOnMessage_cases hprocess with
      ⟨touched, htouched, ⟨-, hresult⟩ | ⟨hspam, hprocess⟩⟩
    · exact hignored touched htouched hresult
    · rw [ConnectionEvent.processed?, if_neg hspam] at hnone
      cases processMsg_step htouched hprocess with
      | ignored touched htouched => exact hignored touched htouched rfl
      | refused touched reason htouched =>
          refine ⟨(announcements_execOrder hexec).trans htouched.announcements, fun hest => ?_⟩
          have hstate := not_acknowledged_of_refused hexec
          rw [hest] at hstate
          cases hstate
      | valid touched validMsg result htouched hvalid hvalidMsg =>
          rw [hvalid] at hnone
          cases hnone
  · have hchange := (handle_cases h).resolve_left hmsg
    have hannounced : controller'.announcements = controller.announcements :=
      announcements_of_changesState
        (fun received clock wsOk heq => hmsg ⟨received, clock, wsOk, heq⟩) h
    refine ⟨hannounced, fun hest => ⟨?_, agreed?_of_state hchange.metaDatas⟩⟩
    rcases hchange.state with hstate | hstate | hstate | hstate
    · rw [← hstate, hest]
    · rw [hest] at hstate
      cases hstate
    · rw [hest] at hstate
      cases hstate
    · rw [hest] at hstate
      cases hstate

/-- An event after which the connection is established only if it was. -/
theorem handle_neither {event : ConnectionEvent} (hack : ¬ LastAck codec controller event)
    (hok : ¬ LastOk codec controller event)
    (h : handle codec controller event = .ok controller') :
    controller'.announcements = controller.announcements ∧
      (controller'.metaDatas.state = .established →
        controller.metaDatas.state = .established ∧ controller'.agreed? = controller.agreed?) := by
  cases hmsg : event.processed? codec controller with
  | none => exact handle_not_processed hmsg h
  | some msg =>
      rcases handle_processed hmsg h with ⟨touched, result, htouched, hprocess, hexec⟩
      have hack' : ¬ (event.wsOk = true ∧ touched.metaDatas.state = .okMsgOkWaitingAckMsg ∧
          msg.payload = .ack touched.metaDatas.challenge) := by
        rintro ⟨hws, hstate, hpayload⟩
        rw [htouched.state] at hstate
        rw [htouched.challenge] at hpayload
        exact hack ⟨hws, hstate, msg, hmsg, hpayload⟩
      have hok' : ¬ (touched.orchestratorSender.connected = true ∧
          (touched.metaDatas.state = .ackMsgOk ∨ touched.metaDatas.state = .secretFlagsOk) ∧
          msg.payload.isOk = true) := by
        rintro ⟨hconnected, hstate, hpayload⟩
        rw [htouched.sender] at hconnected
        rw [htouched.state] at hstate
        exact hok ⟨hconnected, hstate, msg, hmsg, hpayload⟩
      rw [← htouched.announcements, ← htouched.agreed?, ← htouched.state]
      exact announcements_of_validMsg hack' hok' hprocess hexec

/-- When the ACK message comes last, the connection is established and nothing is announced. -/
theorem handle_lastAck {event : ConnectionEvent} (hlast : LastAck codec controller event)
    (h : handle codec controller event = .ok controller') :
    controller'.metaDatas.state = .established ∧
      controller'.announcements = controller.announcements ∧
      controller'.agreed? = controller.agreed? := by
  rcases hlast with ⟨hws, hstate, msg, hmsg, hpayload⟩
  rcases handle_processed hmsg h with ⟨touched, result, htouched, hprocess, hexec⟩
  rw [← htouched.challenge] at hpayload
  rw [← htouched.state] at hstate
  rcases processValidMsg_lastAck hpayload hstate hprocess with ⟨binMsg, rfl⟩
  rw [hws] at hexec
  refine ⟨?_, (announcements_execOrder hexec).trans htouched.announcements,
    (agreed?_of_state (execOrder_ok hexec).2.1).trans htouched.agreed?⟩
  obtain rfl := Except.ok.inj hexec
  exact updateConnState_state _

/-- When the OK message comes last, the connection is established and announced. -/
theorem handle_lastOk {event : ConnectionEvent} (hlast : LastOk codec controller event)
    (h : handle codec controller event = .ok controller') :
    controller'.metaDatas.state = .established ∧ ∃ announcement ∈ controller.agreed?,
      controller'.announcements = controller.announcements ++ [announcement] ∧
      controller'.agreed? = controller.agreed? := by
  rcases hlast with ⟨hconnected, hstate, msg, hmsg, hpayload⟩
  rcases handle_processed hmsg h with ⟨touched, result, htouched, hprocess, hexec⟩
  rw [← htouched.state] at hstate
  rw [← htouched.sender] at hconnected
  rcases processValidMsg_lastOk hpayload hstate hprocess with ⟨announcement, hagreed, rfl⟩
  have hsend : (touched.withState .established).sendEvent
      (.newConnEstablished announcement.1 announcement.2) =
      ({ touched.withState .established with
          orchestratorSender :=
            { touched.orchestratorSender with
              sent := touched.orchestratorSender.sent ++
                [.newConnEstablished announcement.1 announcement.2] } }, .ok ()) := by
    rw [sendEvent]
    exact if_pos hconnected
  rw [hsend] at hexec
  obtain rfl := Except.ok.inj hexec
  refine ⟨rfl, announcement, by rw [← htouched.agreed?]; exact hagreed, ?_, ?_⟩
  · rw [← htouched.announcements]
    exact List.filterMap_append
  · rw [← htouched.agreed?]
    rfl

/-! ## Runs -/

/-- An event keeps established connections announced once exactly when it announces once. -/
theorem announcedOnce_step_iff {event : ConnectionEvent} (hinv : controller.AnnouncedOnce)
    (h : handle codec controller event = .ok controller') :
    controller'.AnnouncedOnce ↔ AnnouncesOnce codec controller event := by
  have hnotBoth : LastAck codec controller event → ¬ LastOk codec controller event := by
    rintro ⟨-, hstate, -⟩ ⟨-, hstate' | hstate', -⟩
    · cases hstate.symm.trans hstate'
    · cases hstate.symm.trans hstate'
  by_cases hack : LastAck codec controller event
  · rcases handle_lastAck hack h with ⟨hstate, hannounced, hagreed⟩
    have hsame : controller'.Announced ↔ controller.Announced := by
      rw [Announced, Announced, hannounced, hagreed]
    constructor
    · intro h'
      exact ⟨fun _ => hsame.1 (h' hstate), fun hok => absurd hok (hnotBoth hack)⟩
    · rintro ⟨h', -⟩ _
      exact hsame.2 (h' hack)
  · by_cases hok : LastOk codec controller event
    · rcases handle_lastOk hok h with ⟨hstate, announcement, hmem, hannounced, hagreed⟩
      constructor
      · intro h'
        refine ⟨fun hack' => absurd hack' hack, fun _ => ?_⟩
        rcases h' hstate with ⟨announcement', -, honce⟩
        rw [hannounced] at honce
        exact List.eq_nil_of_length_eq_zero (by simpa using congrArg List.length honce)
      · rintro ⟨-, h'⟩ _
        refine ⟨announcement, by rw [hagreed]; exact hmem, ?_⟩
        rw [hannounced, h' hok]
        rfl
    · rcases handle_neither hack hok h with ⟨hannounced, hest⟩
      refine iff_of_true ?_ ⟨fun hack' => absurd hack' hack, fun hok' => absurd hok' hok⟩
      intro hstate
      rcases hest hstate with ⟨hbefore, hagreed⟩
      rw [Announced, hannounced, hagreed]
      exact hinv hbefore

/-- Nothing is announced but by an event that leaves the connection established. -/
theorem announcesEstablished (codec : Codec) (controller : WS2PController) :
    controller.AnnouncesEstablished codec := by
  intro event controller' h hannounced
  by_cases hack : LastAck codec controller event
  · exact (handle_lastAck hack h).1
  · by_cases hok : LastOk codec controller event
    · exact (handle_lastOk hok h).1
    · exact absurd (handle_neither hack hok h).1 hannounced

/-- In a run of events on a new controller, every state is one in which an established connection
has been announced exactly once, and in which nothing is announced but an established connection,
exactly when each event of the run announces once. -/
theorem announcedOnce_iff {codec : Codec} {id : WS2PControllerId} {challenge : Hash}
    {connectType : WS2Pv2ConnectType} {currency : String} {localNode : MySelfWs2pNode}
    {creationTime lastMessTime : SystemTime} {events : List ConnectionEvent}
    {controller' : WS2PController}
    (hrun : events.foldlM (handle codec)
      (ConnectionRun.new id challenge connectType currency localNode creationTime
        lastMessTime).controller = .ok controller') :
    (∀ events' controller, events' <+: events →
      events'.foldlM (handle codec)
        (ConnectionRun.new id challenge connectType currency localNode creationTime
          lastMessTime).controller = .ok controller →
      controller.AnnouncedOnce ∧ controller.AnnouncesEstablished codec) ↔
    Throughout (handle codec) (AnnouncesOnce codec)
      (ConnectionRun.new id challenge connectType currency localNode creationTime
        lastMessTime).controller events := by
  have hstep : ∀ controller event controller', controller.AnnouncedOnce →
      handle codec controller event = .ok controller' →
      (controller'.AnnouncedOnce ↔ AnnouncesOnce codec controller event) :=
    fun _ _ _ hinv h => announcedOnce_step_iff hinv h
  rw [← forall_prefix_iff_throughout hstep (fun hstate => by cases hstate) hrun]
  constructor
  · intro h events' controller hprefix hrun'
    exact (h events' controller hprefix hrun').1
  · intro h events' controller hprefix hrun'
    exact ⟨h events' controller hprefix hrun', announcesEstablished codec controller⟩

instance LastAck.decidable (codec : Codec) (controller : WS2PController)
    (event : ConnectionEvent) : Decidable (LastAck codec controller event) :=
  inferInstanceAs (Decidable (_ ∧ _ ∧ ∃ _ ∈ _, _))

instance LastOk.decidable (codec : Codec) (controller : WS2PController)
    (event : ConnectionEvent) : Decidable (LastOk codec controller event) :=
  inferInstanceAs (Decidable (_ ∧ _ ∧ ∃ _ ∈ _, _))

instance AnnouncesOnce.decidable (codec : Codec) (controller : WS2PController)
    (event : ConnectionEvent) : Decidable (AnnouncesOnce codec controller event) :=
  inferInstanceAs (Decidable ((_ → _) ∧ (_ → _)))

theorem announcedOnce_toyNegotiation :
    ∃ controller,
      (toyConnection toyNegotiation).foldlM (handle toyCodec) toyStart.controller =
        .ok controller ∧
      controller.AnnouncedOnce := by
  have hsome : Returns
      ((toyConnection toyNegotiation).foldlM (handle toyCodec) toyStart.controller) := by decide
  have hthroughout : Throughout (handle toyCodec) (AnnouncesOnce toyCodec) toyStart.controller
      (toyConnection toyNegotiation) := by decide
  rcases hsome with ⟨controller, hrun⟩
  exact ⟨controller, hrun,
    ((announcedOnce_iff hrun).2 hthroughout _ _ (List.prefix_refl _) hrun).1⟩

/-- Node 2 sends its OK message before the ACK message. -/
def overtakenNegotiation : List ReceivedMessage :=
  [toyMessage 2 (.connect (toyConnectMsg 3)), toyMessage 2 (.ok default), toyMessage 2 (.ack 9)]

theorem not_announcedOnce_overtakenNegotiation :
    ∃ controller,
      (toyConnection overtakenNegotiation).foldlM (handle toyCodec) toyStart.controller =
        .ok controller ∧
      controller.metaDatas.state = .established ∧ controller.announcements = [] ∧
      ¬ controller.AnnouncedOnce := by
  refine ⟨_, rfl, rfl, rfl, fun h => ?_⟩
  rcases h rfl with ⟨_, -, hone⟩
  cases hone

end Ws2p

end Durs
