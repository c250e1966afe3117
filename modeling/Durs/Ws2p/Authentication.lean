/-
# Who is at the other end

The handshake is to prove that the remote node has the key it indicates, and the messages passed on
are to be those of the remote node.  The controller checks neither the issuer of an ACK message nor
the issuer of a message of data, so both hold as long as the remote node is the one that issued
them.
-/

import Durs.Ws2p.Negotiation

namespace Durs

open RustStd Lib

namespace Ws2p

variable {codec : Codec} {controller controller' : WS2PController}

/-! ## What is sent to the orchestrator -/

/-- The messages that events pass on. -/
def forwardedMsgs (events : List WS2PControllerEvent) : List WS2PMessage :=
  events.filterMap fun
    | .recvValidMsg ws2pMsg => some ws2pMsg
    | _ => none

/-- From one controller to another, these messages are passed on. -/
def Forwards (controller controller' : WS2PController) (msgs : List WS2PMessage) : Prop :=
  ∃ events, controller'.orchestratorSender.sent = controller.orchestratorSender.sent ++ events ∧
    forwardedMsgs events = msgs

namespace Forwards

theorem trans {controller'' : WS2PController} {msgs msgs' : List WS2PMessage}
    (h : Forwards controller controller' msgs) (h' : Forwards controller' controller'' msgs') :
    Forwards controller controller'' (msgs ++ msgs') := by
  rcases h with ⟨events, hsent, rfl⟩
  rcases h' with ⟨events', hsent', rfl⟩
  refine ⟨events ++ events', ?_, List.filterMap_append⟩
  rw [hsent', hsent, List.append_assoc]

theorem of_sender (h : controller'.orchestratorSender.sent = controller.orchestratorSender.sent) :
    Forwards controller controller' [] := by
  refine ⟨[], ?_, rfl⟩
  rw [h, List.append_nil]

theorem sendEvent (controller : WS2PController) (event : WS2PControllerEvent) :
    Forwards controller (controller.sendEvent event).1 [] ∨
      Forwards controller (controller.sendEvent event).1 (forwardedMsgs [event]) := by
  rcases controller.sendEvent_sent event with hsent | hsent
  · exact .inl (of_sender hsent)
  · exact .inr ⟨[event], hsent, rfl⟩

theorem updateConnState (controller : WS2PController) (newState : WS2PConnectionState) :
    Forwards controller (controller.updateConnState newState).1 [] := by
  rcases sendEvent (controller.withState newState) (.stateChange newState) with h | h
  · exact h
  · exact h

theorem execOrder {order : Option WebsocketActionOrder} {wsOk : Bool}
    (h : execOrder controller order wsOk = .ok controller') :
    Forwards controller controller' [] := by
  rcases (execOrder_ok h).2.2 with hsent | ⟨newState, hsent⟩
  · exact of_sender hsent
  · exact ⟨[.stateChange newState], hsent, rfl⟩

end Forwards

/-! ## What happens besides messages -/

/-- An event that is not a message changes the state only: the connection is opened or closed. -/
structure ChangesState (controller controller' : WS2PController) : Prop where
  metaDatas : controller'.metaDatas =
    { controller.metaDatas with state := controller'.metaDatas.state }
  state : controller'.metaDatas.state = controller.metaDatas.state ∨
    controller'.metaDatas.state = .waitingConnectMsg ∨ controller'.metaDatas.state = .close ∨
    controller'.metaDatas.state = .unreachable
  forwards : Forwards controller controller' []

/-- A change of the state followed by the order given for it. -/
theorem changesState_of_exec {processed : Answer} (newState : WS2PConnectionState) {wsOk : Bool}
    (hprocessed : processed.1 = (controller.updateConnState newState).1)
    (hstates : ∀ state ∈ statesAfter processed.1 (orderOf processed.2),
      state = .waitingConnectMsg ∨ state = .close ∨ state = .unreachable)
    (h : execOrder processed.1 (orderOf processed.2) wsOk = .ok controller') :
    ChangesState controller controller' := by
  rcases execOrder_ok h with ⟨hstate, hmeta, -⟩
  refine ⟨?_, .inr (hstates _ hstate), ?_⟩
  · rw [hmeta, hprocessed, WS2PController.updateConnState_metaDatas]
  · have hfirst := Forwards.updateConnState controller newState
    rw [← hprocessed] at hfirst
    exact hfirst.trans (Forwards.execOrder h)

theorem changesState_of_onOpen {wsOk : Bool} {processed : Answer}
    (hprocess : processOnOpen codec controller = .ok processed)
    (h : execOrder processed.1 (orderOf processed.2) wsOk = .ok controller') :
    ChangesState controller controller' := by
  rw [processOnOpen] at hprocess
  rcases hupdate : controller.updateConnState .tryToSendConnectMsg with ⟨updated, err | _⟩
  · rw [hupdate] at hprocess
    obtain rfl := Except.ok.inj hprocess
    cases err
    apply changesState_of_exec .tryToSendConnectMsg (by rw [hupdate]) _ h
    intro state hmem
    simpa [orderOf, statesAfter] using Or.inr (a := state = .waitingConnectMsg)
      (by simpa [orderOf, statesAfter] using hmem)
  · rw [hupdate] at hprocess
    rcases sendPayload_ok hprocess with ⟨binMsg, rfl⟩
    apply changesState_of_exec .tryToSendConnectMsg (by rw [hupdate]; rfl) _ h
    intro state hmem
    have hcases : state = .waitingConnectMsg ∨ state = .unreachable := by
      simpa [answer, orderOf, sendOrder, statesAfter] using hmem
    rcases hcases with hstate | hstate
    · exact .inl hstate
    · exact .inr (.inr hstate)

theorem changesState_of_onClose {wsOk : Bool}
    (h : execOrder (thenNone (controller.updateConnState .close)).1
      (orderOf (thenNone (controller.updateConnState .close)).2) wsOk = .ok controller') :
    ChangesState controller controller' := by
  apply changesState_of_exec .close rfl _ h
  intro state hmem
  rcases hupdate : controller.updateConnState .close with ⟨updated, err | _⟩
  · rw [hupdate] at hmem
    cases err
    exact .inr (by simpa [thenNone, orderOf, statesAfter, Except.map] using hmem)
  · rw [hupdate] at hmem
    have hstate : state = updated.metaDatas.state := List.mem_singleton.1 hmem
    have hclose := congrArg (fun processed : Processed Unit => processed.1.metaDatas.state) hupdate
    simp only [WS2PController.updateConnState_state] at hclose
    rw [hstate, ← hclose]
    exact .inr (.inl rfl)

theorem checkTimeouts_ok {now : SystemTime} {order : Option WebsocketActionOrder}
    (h : checkTimeouts controller now = .ok order) :
    order = none ∨ ∃ reason, order = some
      { wsAction := .closeConnection (some reason), newStateIfSuccess := some .close
        newStateIfFail := .unreachable } := by
  rw [checkTimeouts] at h
  split at h
  case isTrue =>
    rcases bind_eq_ok_iff.1 h with ⟨elapsed, -, h⟩
    split at h
    case isTrue => exact .inr ⟨_, (Except.ok.inj h).symm⟩
    case isFalse => exact .inl (Except.ok.inj h).symm
  case isFalse =>
    rcases bind_eq_ok_iff.1 h with ⟨elapsed, -, h⟩
    split at h
    case isTrue => exact .inr ⟨_, (Except.ok.inj h).symm⟩
    case isFalse => exact .inl (Except.ok.inj h).symm

theorem changesState_of_timeout {now : SystemTime} {order : Option WebsocketActionOrder}
    {wsOk : Bool} (hcheck : checkTimeouts controller now = .ok order)
    (h : execOrder controller order wsOk = .ok controller') :
    ChangesState controller controller' := by
  rcases execOrder_ok h with ⟨hstate, hmeta, -⟩
  refine ⟨hmeta, ?_, Forwards.execOrder h⟩
  rcases checkTimeouts_ok hcheck with rfl | ⟨reason, rfl⟩
  · exact .inl (List.mem_singleton.1 hstate)
  · exact .inr (.inr (by simpa [statesAfter] using hstate))

/-- The valid message that an event holds. -/
def ConnectionEvent.validMsg? (codec : Codec) : ConnectionEvent → Option WS2Pv2Message
  | .incoming (.onMessage msg) _ _ => msg.valid? codec
  | _ => none

/-- An event is a message, or only opens or closes the connection. -/
theorem handle_cases {event : ConnectionEvent}
    (h : handle codec controller event = .ok controller') :
    (∃ msg clock wsOk, event = .incoming (.onMessage msg) clock wsOk) ∨
      ChangesState controller controller' := by
  match event with
  | .incoming (.onMessage msg) clock wsOk => exact .inl ⟨msg, clock, wsOk, rfl⟩
  | .incoming (.onOpen remoteAddr) clock wsOk =>
      rw [handle, bind_eq_ok_iff] at h
      rcases h with ⟨processed, hprocess, h⟩
      exact .inr (changesState_of_onOpen hprocess h)
  | .incoming (.onClose closeCode reason) clock wsOk =>
      rw [handle, bind_eq_ok_iff] at h
      rcases h with ⟨processed, hprocess, h⟩
      obtain rfl := Except.ok.inj hprocess
      exact .inr (changesState_of_onClose h)
  | .timeout now wsOk =>
      rw [handle, bind_eq_ok_iff] at h
      rcases h with ⟨order, hcheck, h⟩
      exact .inr (changesState_of_timeout hcheck h)
  | .orchestratorGone =>
      obtain rfl := Except.ok.inj h
      exact .inr ⟨rfl, .inl rfl, Forwards.of_sender rfl⟩

/-! ## What messages do -/

/-- The states in which the ACK message of the remote node has been received. -/
def WS2PConnectionState.acknowledged : WS2PConnectionState → Bool
  | .ackMsgOk | .secretFlagsOk | .established => true
  | _ => false

/-- How a controller comes to be in a state in which the ACK message has been received: it was in
one already, or it has just received an ACK message with its own challenge. -/
def Acknowledges (codec : Codec) (controller controller' : WS2PController)
    (msg : WebsocketMessage) : Prop :=
  controller'.metaDatas.remoteNode = controller.metaDatas.remoteNode ∧
    (controller.metaDatas.state.acknowledged = true ∨
      ∃ validMsg, msg.valid? codec = some validMsg ∧
        validMsg.payload = .ack controller.metaDatas.challenge ∧
        (controller.metaDatas.state = .connectMessOk ∨
          controller.metaDatas.state = .okMsgOkWaitingAckMsg))

theorem challenge_of_exec {order : Option WebsocketActionOrder} {wsOk : Bool}
    (h : execOrder controller order wsOk = .ok controller') :
    controller'.metaDatas.challenge = controller.metaDatas.challenge ∧
      controller'.metaDatas.remoteNode = controller.metaDatas.remoteNode := by
  rw [(execOrder_ok h).2.1]
  exact ⟨rfl, rfl⟩

theorem not_acknowledged_of_refused {reason : String} {wsOk : Bool}
    (h : execOrder controller (closeWithReason reason .denial) wsOk = .ok controller') :
    controller'.metaDatas.state.acknowledged = false := by
  have hstate : controller'.metaDatas.state = .denial := by
    simpa [statesAfter, closeWithReason] using (execOrder_ok h).1
  rw [hstate]
  rfl

/-- A change that gives no order leaves the state changed to, if the ACK message has been received
after it. -/
theorem acknowledged_of_thenNone {processed : Processed Unit} {wsOk : Bool}
    (h : execOrder (thenNone processed).1 (orderOf (thenNone processed).2) wsOk = .ok controller')
    (hack : controller'.metaDatas.state.acknowledged = true) :
    processed.1.metaDatas.state.acknowledged = true := by
  rcases state_of_thenNone h with hstate | hstate | hstate
  · rwa [← hstate]
  · rw [hstate] at hack
    cases hack
  · rw [hstate] at hack
    cases hack

/-- A message keeps the challenge of the controller. -/
theorem challenge_of_message {msg : WebsocketMessage} {result : Answer} {wsOk : Bool}
    (hstep : MessageStep codec controller msg result)
    (h : execOrder result.1 (orderOf result.2) wsOk = .ok controller') :
    controller'.metaDatas.challenge = controller.metaDatas.challenge := by
  rw [(challenge_of_exec h).1]
  cases hstep with
  | ignored c htouched => exact htouched.challenge
  | refused c reason htouched => exact htouched.challenge
  | valid c validMsg result htouched hvalid hprocess =>
      rw [← htouched.challenge]
      cases processValidMsg_step hprocess with
      | refused reason => rfl
      | connected connectMsg features remoteConnectType remoteNode binMsg hpayload hremote => rfl
      | acknowledged success binMsg hpayload hfrom => rfl
      | wrongChallenge =>
          exact congrArg (·.challenge) (WS2PController.updateConnState_metaDatas _)
      | okReceived hfrom =>
          exact congrArg (·.challenge) (WS2PController.updateConnState_metaDatas _)
      | secretFlagsFirst hfrom =>
          exact congrArg (·.challenge) (WS2PController.updateConnState_metaDatas _)
      | secretFlagsLast hfrom =>
          exact congrArg (·.challenge) (WS2PController.updateConnState_metaDatas _)
      | established connType remoteNode hpayload hfrom hconn hremote =>
          exact congrArg (·.challenge) (WS2PController.sendEvent_metaDatas _)
      | forwarded kind content hpayload hfrom =>
          exact congrArg (·.challenge) (WS2PController.sendEvent_metaDatas _)

/-- After a message, the ACK message has been received only if it had been, or just was. -/
theorem acknowledges_of_message {msg : WebsocketMessage} {result : Answer} {wsOk : Bool}
    (hstep : MessageStep codec controller msg result)
    (h : execOrder result.1 (orderOf result.2) wsOk = .ok controller')
    (hack : controller'.metaDatas.state.acknowledged = true) :
    Acknowledges codec controller controller' msg := by
  have hremote := (challenge_of_exec h).2
  cases hstep with
  | ignored c htouched =>
      obtain rfl := Except.ok.inj h
      rw [show (answer c none).1 = c from rfl, htouched.state] at hack
      exact ⟨htouched.remoteNode, .inl hack⟩
  | refused c reason htouched =>
      rw [not_acknowledged_of_refused h] at hack
      cases hack
  | valid c validMsg result htouched hvalid hprocess =>
      have hsame := htouched.state
      rw [Acknowledges, hremote, ← htouched.remoteNode]
      cases processValidMsg_step hprocess with
      | refused reason =>
          rw [not_acknowledged_of_refused h] at hack
          cases hack
      | connected connectMsg features remoteConnectType remoteNode binMsg hpayload hwaiting =>
          have hstate : controller'.metaDatas.state = .connectMessOk ∨
              controller'.metaDatas.state = .unreachable := by
            simpa [answer, orderOf, sendOrder, statesAfter] using (execOrder_ok h).1
          rcases hstate with hstate | hstate <;> (rw [hstate] at hack; cases hack)
      | wrongChallenge =>
          have hbefore := acknowledged_of_thenNone h hack
          rw [WS2PController.updateConnState_state] at hbefore
          cases hbefore
      | acknowledged success binMsg hpayload hfrom =>
          rw [hsame] at hfrom
          refine ⟨rfl, .inr ⟨validMsg, hvalid, by rw [hpayload, htouched.challenge], ?_⟩⟩
          rcases hfrom with ⟨hfrom, -⟩ | ⟨hfrom, -⟩
          · exact .inr hfrom
          · exact .inl hfrom
      | okReceived hfrom =>
          have hbefore := acknowledged_of_thenNone h hack
          rw [WS2PController.updateConnState_state] at hbefore
          cases hbefore
      | secretFlagsFirst hfrom =>
          have hbefore := acknowledged_of_thenNone h hack
          rw [WS2PController.updateConnState_state] at hbefore
          cases hbefore
      | secretFlagsLast hfrom =>
          refine ⟨congrArg (·.remoteNode) (WS2PController.updateConnState_metaDatas _), .inl ?_⟩
          rw [← hsame, hfrom]
          rfl
      | established connType remoteNode hpayload hfrom hconn hremote =>
          refine ⟨congrArg (·.remoteNode) (WS2PController.sendEvent_metaDatas _), .inl ?_⟩
          rw [← hsame]
          rcases hfrom with hfrom | hfrom <;> (rw [hfrom]; rfl)
      | forwarded kind content hpayload hfrom =>
          refine ⟨congrArg (·.remoteNode) (WS2PController.sendEvent_metaDatas _), .inl ?_⟩
          rw [← hsame, hfrom]
          rfl

/-- What a message passes on: nothing, or itself when it is a valid message of data on an
established connection. -/
def ForwardsOnly (codec : Codec) (controller : WS2PController) (msg : WebsocketMessage)
    (msgs : List WS2PMessage) : Prop :=
  msgs = [] ∨ ∃ validMsg kind content, msgs = [.v2 validMsg] ∧
    msg.valid? codec = some validMsg ∧ validMsg.payload = .data kind content ∧
    controller.metaDatas.state = .established

theorem forwards_of_touched {c : WS2PController} (h : Touched controller c) :
    Forwards controller c [] :=
  Forwards.of_sender (by rw [h.sender])

/-- A message passes on at most itself. -/
theorem forwards_of_message {msg : WebsocketMessage} {result : Answer} {wsOk : Bool}
    (hstep : MessageStep codec controller msg result)
    (h : execOrder result.1 (orderOf result.2) wsOk = .ok controller') :
    ∃ msgs, Forwards controller controller' msgs ∧ ForwardsOnly codec controller msg msgs := by
  have hexec := Forwards.execOrder h
  have hquiet : Forwards controller result.1 [] →
      ∃ msgs, Forwards controller controller' msgs ∧ ForwardsOnly codec controller msg msgs :=
    fun hfirst => ⟨[], hfirst.trans hexec, .inl rfl⟩
  cases hstep with
  | ignored c htouched => exact hquiet (forwards_of_touched htouched)
  | refused c reason htouched => exact hquiet (forwards_of_touched htouched)
  | valid c validMsg result htouched hvalid hprocess =>
      have hfirst := forwards_of_touched htouched
      cases processValidMsg_step hprocess with
      | refused reason => exact hquiet hfirst
      | connected connectMsg features remoteConnectType remoteNode binMsg hpayload hwaiting =>
          exact hquiet hfirst
      | acknowledged success binMsg hpayload hfrom => exact hquiet hfirst
      | wrongChallenge => exact hquiet (hfirst.trans (Forwards.updateConnState c _))
      | okReceived hfrom => exact hquiet (hfirst.trans (Forwards.updateConnState c _))
      | secretFlagsFirst hfrom => exact hquiet (hfirst.trans (Forwards.updateConnState c _))
      | secretFlagsLast hfrom => exact hquiet (hfirst.trans (Forwards.updateConnState c _))
      | established connType remoteNode hpayload hfrom hconn hremote =>
          rcases Forwards.sendEvent (c.withState .established)
              (.newConnEstablished connType remoteNode.remoteFullId) with hsent | hsent
          · exact hquiet (hfirst.trans hsent)
          · exact hquiet (hfirst.trans hsent)
      | forwarded kind content hpayload hfrom =>
          rcases Forwards.sendEvent c (.recvValidMsg (.v2 validMsg)) with hsent | hsent
          · exact hquiet (hfirst.trans hsent)
          · refine ⟨[.v2 validMsg], (hfirst.trans hsent).trans hexec, .inr ?_⟩
            exact ⟨validMsg, kind, content, rfl, hvalid, hpayload, by rw [← htouched.state, hfrom]⟩

/-! ## Whole connections -/

/-- A connection with its past: the valid messages received, and the messages passed on, each with
the remote node recorded when it was. -/
structure ConnectionRun where
  controller : WS2PController
  received : List WS2Pv2Message
  forwarded : List (WS2PMessage × Option NodeFullId)

/-- The remote node recorded for a connection. -/
def WS2PController.remoteFullId? (controller : WS2PController) : Option NodeFullId :=
  controller.metaDatas.remoteNode.map Ws2pRemoteNodeDatas.remoteFullId

/-- The step of a connection. -/
def ConnectionRun.step (codec : Codec) (run : ConnectionRun) (event : ConnectionEvent) :
    Run ConnectionRun := do
  let controller ← handle codec run.controller event
  let sent := controller.orchestratorSender.sent.drop run.controller.orchestratorSender.sent.length
  return {
    controller
    received := run.received ++ (event.validMsg? codec).toList
    forwarded := run.forwarded ++ (forwardedMsgs sent).map fun ws2pMsg =>
      (ws2pMsg, run.controller.remoteFullId?) }

/-- A connection with a new controller. -/
def ConnectionRun.new (id : WS2PControllerId) (challenge : Hash) (connectType : WS2Pv2ConnectType)
    (currency : String) (localNode : MySelfWs2pNode) (creationTime lastMessTime : SystemTime) :
    ConnectionRun where
  controller :=
    { id
      orchestratorSender := { connected := true, sent := [] }
      metaDatas := .new challenge connectType currency localNode creationTime lastMessTime }
  received := []
  forwarded := []

theorem ConnectionRun.step_ok {run run' : ConnectionRun} {event : ConnectionEvent}
    (h : run.step codec event = .ok run') :
    handle codec run.controller event = .ok run'.controller ∧
      run'.received = run.received ++ (event.validMsg? codec).toList ∧
      ∀ msgs, Forwards run.controller run'.controller msgs →
        run'.forwarded = run.forwarded ++ msgs.map fun ws2pMsg =>
          (ws2pMsg, run.controller.remoteFullId?) := by
  rw [ConnectionRun.step, bind_eq_ok_iff] at h
  rcases h with ⟨controller, hhandle, h⟩
  obtain rfl := Except.ok.inj h
  refine ⟨hhandle, rfl, ?_⟩
  rintro msgs ⟨events, hsent, rfl⟩
  change controller.orchestratorSender.sent = _ at hsent
  simp only [hsent, List.drop_left]

/-! ## Authentication -/

/-- The challenge in a payload: that of an ACK message, which it answers, or of a CONNECT one. -/
def WS2Pv2MessagePayload.challenge? : WS2Pv2MessagePayload → Option Hash
  | .ack challenge => some challenge
  | .connect connectMsg => some connectMsg.challenge
  | _ => none

/-- The key of a node is proved by a message that it signed and that carries the challenge. -/
def Proved (codec : Codec) (received : List WS2Pv2Message) (challenge : Hash) (pubkey : PubKey) :
    Prop :=
  ∃ msg ∈ received, msg.issuerPubkey = pubkey ∧ msg.verify codec = .ok () ∧
    msg.payload.challenge? = some challenge

/-- A connection established with a remote node has its key proved. -/
def AuthenticatedRemote (codec : Codec) (run : ConnectionRun) : Prop :=
  run.controller.metaDatas.state = .established → ∀ remoteFullId ∈ run.controller.remoteFullId?,
    Proved codec run.received run.controller.metaDatas.challenge remoteFullId.pubkey

/-- If the event is a valid ACK message with the challenge of the controller, in one of the two
states that wait for it, then it was signed with the key of the remote node. -/
def AckFromRemote (codec : Codec) (run : ConnectionRun) (event : ConnectionEvent) : Prop :=
  ∀ msg ∈ event.validMsg? codec, msg.payload = .ack run.controller.metaDatas.challenge →
    (run.controller.metaDatas.state = .connectMessOk ∨
      run.controller.metaDatas.state = .okMsgOkWaitingAckMsg) →
    ∀ remoteFullId ∈ run.controller.remoteFullId?, msg.issuerPubkey = remoteFullId.pubkey

/-- A valid message has a valid signature. -/
theorem verify_of_valid? {msg : WebsocketMessage} {validMsg : WS2Pv2Message}
    (h : msg.valid? codec = some validMsg) : validMsg.verify codec = .ok () := by
  have hparsed : ∀ binMsg, parseAndCheckBinMessage codec binMsg = .ok (.ok (.v2 validMsg)) →
      validMsg.verify codec = .ok () := by
    intro binMsg hparse
    rw [parseAndCheckBinMessage] at hparse
    split at hparse
    case h_1 => cases hparse
    case h_2 => cases hparse
    case h_3 => cases hparse
    case h_4 msg hdeserialize =>
      simp only [bind_eq_ok_iff] at hparse
      rcases hparse with ⟨len, -, hashOk, -, hparse⟩
      split at hparse
      case isTrue =>
        split at hparse
        case h_1 hverify =>
          cases hparse
          exact hverify
        case h_2 => cases hparse
      case isFalse => cases hparse
  cases msg with
  | str strMsg => cases h
  | bin binMsg =>
      rw [WebsocketMessage.valid?] at h
      split at h
      case h_1 msg hparse =>
        obtain rfl := Option.some.inj h
        exact hparsed binMsg hparse
      case h_2 => cases h

theorem Proved.mono {received received' : List WS2Pv2Message} {challenge : Hash} {pubkey : PubKey}
    (h : Proved codec received challenge pubkey) :
    Proved codec (received ++ received') challenge pubkey := by
  rcases h with ⟨msg, hmem, hmsg⟩
  exact ⟨msg, List.mem_append_left _ hmem, hmsg⟩

/-- Once the ACK message has been received, the key of the remote node is proved. -/
def AckProves (codec : Codec) (run : ConnectionRun) : Prop :=
  run.controller.metaDatas.state.acknowledged = true →
    ∀ remoteFullId ∈ run.controller.remoteFullId?,
      Proved codec run.received run.controller.metaDatas.challenge remoteFullId.pubkey

/-- An event keeps the key proved, when the ACK messages that count come from the remote node. -/
theorem AckProves.step {run run' : ConnectionRun} {event : ConnectionEvent}
    (hinv : AckProves codec run) (hguard : AckFromRemote codec run event)
    (h : run.step codec event = .ok run') : AckProves codec run' := by
  rcases ConnectionRun.step_ok h with ⟨hhandle, hreceived, -⟩
  intro hack remoteFullId hremote
  rw [hreceived]
  rcases handle_cases hhandle with ⟨msg, clock, wsOk, rfl⟩ | hchange
  · rcases handle_onMessage hhandle with ⟨result, hstep, hexec⟩
    rw [challenge_of_message hstep hexec]
    rcases acknowledges_of_message hstep hexec hack with
      ⟨hsame, hbefore | ⟨validMsg, hvalid, hpayload, hstate⟩⟩
    · apply Proved.mono
      apply hinv hbefore
      rwa [WS2PController.remoteFullId?, ← hsame]
    · have hrecorded : remoteFullId ∈ run.controller.remoteFullId? := by
        rwa [WS2PController.remoteFullId?, ← hsame]
      refine ⟨validMsg, List.mem_append_right _ ?_, hguard validMsg hvalid hpayload hstate _ hrecorded,
        verify_of_valid? hvalid, ?_⟩
      · rw [ConnectionEvent.validMsg?, hvalid]
        exact List.mem_singleton_self _
      · rw [hpayload]
        rfl
  · have hmeta := hchange.metaDatas
    rw [congrArg (·.challenge) hmeta]
    apply Proved.mono
    rw [WS2PController.remoteFullId?, congrArg (·.remoteNode) hmeta] at hremote
    rcases hchange.state with hstate | hstate | hstate | hstate
    · exact hinv (hstate ▸ hack) remoteFullId hremote
    · rw [hstate] at hack
      cases hack
    · rw [hstate] at hack
      cases hack
    · rw [hstate] at hack
      cases hack

/-- In every connection whose ACK messages come from the remote node, a remote node with which the
connection is established has proved its key. -/
theorem authenticatedRemote_of_reached {codec : Codec} {id : WS2PControllerId} {challenge : Hash}
    {connectType : WS2Pv2ConnectType} {currency : String} {localNode : MySelfWs2pNode}
    {creationTime lastMessTime : SystemTime} {run : ConnectionRun}
    (h : Reached
      (ConnectionRun.new id challenge connectType currency localNode creationTime lastMessTime)
      (ConnectionRun.step codec) (AckFromRemote codec) run) :
    AuthenticatedRemote codec run := by
  have hinv : AckProves codec run := by
    apply h.invariant
    · intro hack
      cases hack
    · intro run event run' hinv hguard hrun
      exact hinv.step hguard hrun
  intro hstate
  exact hinv (by rw [hstate]; rfl)

instance AckFromRemote.decidable (codec : Codec) (run : ConnectionRun) (event : ConnectionEvent) :
    Decidable (AckFromRemote codec run event) :=
  inferInstanceAs (Decidable (∀ _ ∈ _, _ → _ → ∀ _ ∈ _, _))

/-- A connection with the controller of node 1, with challenge 9, that a node has opened. -/
def toyConnection (messages : List ReceivedMessage) : List ConnectionEvent :=
  .incoming (.onOpen none) ⟨1, 1, 1⟩ true ::
    messages.map fun received => .incoming (.onMessage received.msg) received.clock received.wsOk

/-- The start of the connection. -/
def toyStart : ConnectionRun :=
  .new .incoming 9 .incoming "g1"
    { myNodeId := 1, myKeyPair := .ed25519 ⟨0, ⟨1⟩⟩, myFeatures := ⟨[5]⟩ } 0 0

theorem authenticatedRemote_toyNegotiation :
    ∃ run, (toyConnection toyNegotiation).foldlM (ConnectionRun.step toyCodec) toyStart = .ok run ∧
      AuthenticatedRemote toyCodec run := by
  have hsome : (guardedRun (ConnectionRun.step toyCodec) (AckFromRemote toyCodec)
      (toyConnection toyNegotiation) toyStart).isSome := by decide
  rcases Option.isSome_iff_exists.1 hsome with ⟨run, hrun⟩
  exact ⟨run, foldlM_of_guardedRun hrun,
    authenticatedRemote_of_reached (.of_guardedRun .init hrun)⟩

/-- Node 3 sends the CONNECT message that node 2 signed for another connection, then answers with
messages of its own. -/
def replayedNegotiation : List ReceivedMessage :=
  [toyMessage 2 (.connect (toyConnectMsg 3)), toyMessage 3 (.ack 9), toyMessage 3 (.ok default)]

theorem not_authenticatedRemote_replayedNegotiation :
    ∃ run,
      (toyConnection replayedNegotiation).foldlM (ConnectionRun.step toyCodec) toyStart = .ok run ∧
      ¬ AuthenticatedRemote toyCodec run := by
  refine ⟨_, rfl, fun h => ?_⟩
  rcases h rfl (toyNode 2) rfl with ⟨msg, hmem, hkey, -, hchallenge⟩
  revert msg
  decide

/-! ## Provenance -/

/-- Every message passed on was issued by the remote node recorded for the connection. -/
def FromRemote (run : ConnectionRun) : Prop :=
  ∀ ws2pMsg remoteFullId?, (ws2pMsg, remoteFullId?) ∈ run.forwarded →
    ∃ msg, ws2pMsg = .v2 msg ∧ remoteFullId? = some msg.issuer

/-- Whether a payload is a message of data. -/
def WS2Pv2MessagePayload.isData : WS2Pv2MessagePayload → Bool
  | .data _ _ => true
  | _ => false

/-- If the event is a valid message of data on an established connection, then it was issued by the
remote node. -/
def DataFromRemote (codec : Codec) (run : ConnectionRun) (event : ConnectionEvent) : Prop :=
  ∀ msg ∈ event.validMsg? codec, msg.payload.isData = true →
    run.controller.metaDatas.state = .established →
    run.controller.remoteFullId? = some msg.issuer

/-- In every connection whose messages of data come from the remote node, the messages passed on
are those of the remote node. -/
theorem fromRemote_of_reached {codec : Codec} {id : WS2PControllerId} {challenge : Hash}
    {connectType : WS2Pv2ConnectType} {currency : String} {localNode : MySelfWs2pNode}
    {creationTime lastMessTime : SystemTime} {run : ConnectionRun}
    (h : Reached
      (ConnectionRun.new id challenge connectType currency localNode creationTime lastMessTime)
      (ConnectionRun.step codec) (DataFromRemote codec) run) :
    FromRemote run := by
  apply h.invariant
  · intro ws2pMsg remoteFullId? hmem
    cases hmem
  · intro run event run' hinv hguard hrun ws2pMsg remoteFullId? hmem
    rcases ConnectionRun.step_ok hrun with ⟨hhandle, -, hforwarded⟩
    rcases handle_cases hhandle with ⟨msg, clock, wsOk, rfl⟩ | hchange
    · rcases handle_onMessage hhandle with ⟨result, hstep, hexec⟩
      rcases forwards_of_message hstep hexec with ⟨msgs, hforwards, hmsgs⟩
      rw [hforwarded msgs hforwards, List.mem_append] at hmem
      rcases hmem with hmem | hmem
      · exact hinv ws2pMsg remoteFullId? hmem
      · rcases hmsgs with rfl | ⟨validMsg, kind, content, rfl, hvalid, hpayload, hstate⟩
        · cases hmem
        · rcases Prod.mk.inj (List.mem_singleton.1 hmem) with ⟨rfl, rfl⟩
          exact ⟨validMsg, rfl, hguard validMsg hvalid (by rw [hpayload]; rfl) hstate⟩
    · rw [hforwarded [] hchange.forwards, List.map_nil, List.append_nil] at hmem
      exact hinv ws2pMsg remoteFullId? hmem

instance DataFromRemote.decidable (codec : Codec) (run : ConnectionRun)
    (event : ConnectionEvent) : Decidable (DataFromRemote codec run event) :=
  inferInstanceAs (Decidable (∀ _ ∈ _, _ → _ → _))

theorem fromRemote_toyNegotiation :
    ∃ run, (toyConnection toyNegotiation).foldlM (ConnectionRun.step toyCodec) toyStart = .ok run ∧
      FromRemote run := by
  have hsome : (guardedRun (ConnectionRun.step toyCodec) (DataFromRemote toyCodec)
      (toyConnection toyNegotiation) toyStart).isSome := by decide
  rcases Option.isSome_iff_exists.1 hsome with ⟨run, hrun⟩
  exact ⟨run, foldlM_of_guardedRun hrun, fromRemote_of_reached (.of_guardedRun .init hrun)⟩

/-- On the connection established with node 2, a message of node 3 is received. -/
def foreignNegotiation : List ReceivedMessage :=
  toyNegotiation ++ [toyMessage 3 (.data .request [4])]

theorem not_fromRemote_foreignNegotiation :
    ∃ run,
      (toyConnection foreignNegotiation).foldlM (ConnectionRun.step toyCodec) toyStart = .ok run ∧
      ¬ FromRemote run := by
  refine ⟨_, rfl, fun h => ?_⟩
  rcases h _ _ (List.mem_cons_of_mem _ List.mem_cons_self) with ⟨msg, hmsg, hremote⟩
  cases hmsg
  revert hremote
  decide

end Ws2p

end Durs
