/-
# The strictness of the negotiation

A CONNECT message that should be refused is one that no node waits for, that carries flags to the
outgoing side, or that asks for features the local node lacks.  The controller makes the order to
close in each of these cases and drops it; only the message of an unexpected node is refused.
-/

import Durs.Lib.Reached
import Durs.Ws2p.Steps

namespace Durs

open RustStd Lib

namespace Ws2p

variable {codec : Codec} {controller : WS2PController} {remoteFullId : NodeFullId}
  {connectMsg : WS2Pv2ConnectMsg}

/-! ## Refusing a CONNECT message -/

/-- The remote node asks for features that the local one lacks. -/
def Incompatible (local' remote : WS2PFeatures) : Prop :=
  local'.checkFeaturesCompatibility remote = .ok (.error ())

instance Incompatible.decidable (local' remote : WS2PFeatures) :
    Decidable (Incompatible local' remote) :=
  match h : local'.checkFeaturesCompatibility remote with
  | .ok (.error ()) => isTrue h
  | .ok (.ok _) => isFalse fun h' => by cases h.symm.trans h'
  | .error _ => isFalse fun h' => by cases h.symm.trans h'

/-- A CONNECT message that should be refused. -/
def RefusalWorthy (controller : WS2PController) (connectMsg : WS2Pv2ConnectMsg) : Prop :=
  controller.metaDatas.state ≠ .waitingConnectMsg ∨
    controller.metaDatas.connectType ≠ .incoming ∧ connectMsg.flagsQueries.isEmpty = false ∨
    Incompatible controller.metaDatas.localNode.myFeatures connectMsg.apiFeatures

instance RefusalWorthy.decidable (controller : WS2PController) (connectMsg : WS2Pv2ConnectMsg) :
    Decidable (RefusalWorthy controller connectMsg) :=
  inferInstanceAs (Decidable (_ ∨ _ ∧ _ ∨ _))

/-- The connection is ordered closed with new state Denial, and what is known of the remote node
stays as it was. -/
def Refuses (controller : WS2PController) (result : Run Answer) : Prop :=
  ∃ controller' reason, result = .ok (answer controller' (closeWithReason reason .denial)) ∧
    controller'.metaDatas.remoteNode = controller.metaDatas.remoteNode ∧
    controller'.metaDatas.remoteConnectType = controller.metaDatas.remoteConnectType ∧
    controller'.metaDatas.features = controller.metaDatas.features ∧
    controller'.metaDatas.challenge = controller.metaDatas.challenge

/-- The CONNECT messages on which the negotiation is strict: those not to refuse, and those of an
unexpected node to the outgoing side that waits for one. -/
def StrictOn (controller : WS2PController) (remoteFullId : NodeFullId)
    (connectMsg : WS2Pv2ConnectMsg) : Prop :=
  ¬ RefusalWorthy controller connectMsg ∨
    controller.metaDatas.state = .waitingConnectMsg ∧
      controller.metaDatas.connectType ≠ .incoming ∧
      ∃ expectedFullId ∈ controller.id.expectedRemoteFullId, remoteFullId ≠ expectedFullId

theorem StrictOn.waiting (h : StrictOn controller remoteFullId connectMsg) :
    controller.metaDatas.state = .waitingConnectMsg := by
  rcases h with hnot | ⟨hstate, -⟩
  · exact not_not.1 fun hne => hnot (.inl hne)
  · exact hstate

theorem sendOrder_ne_closeWithReason (binMsg : List UInt8) (success state : WS2PConnectionState)
    (reason : String) : sendOrder binMsg success ≠ closeWithReason reason state := by
  intro h
  have haction := congrArg WebsocketActionOrder.wsAction (Option.some.inj h)
  cases haction

/-- The part common to the branches of a CONNECT message refuses none. -/
theorem not_refuses_mergeFeaturesAndAck {controller₀ : WS2PController} :
    ¬ Refuses controller₀ (mergeFeaturesAndAck codec controller connectMsg) := by
  rintro ⟨controller', reason, hresult, -⟩
  rcases mergeFeaturesAndAck_ok hresult with ⟨features, binMsg, heq⟩
  have horder := Except.ok.inj (congrArg Prod.snd heq)
  exact sendOrder_ne_closeWithReason binMsg _ _ reason horder.symm

/-- A CONNECT message is refused exactly when it comes from an unexpected node. -/
theorem refuses_processConnectMsg_iff :
    Refuses controller (processConnectMsg codec controller remoteFullId connectMsg) ↔
      controller.metaDatas.state = .waitingConnectMsg ∧
        controller.metaDatas.connectType ≠ .incoming ∧
        ∃ expectedFullId ∈ controller.id.expectedRemoteFullId, remoteFullId ≠ expectedFullId := by
  rw [processConnectMsg]
  split
  case isTrue hstate =>
    split
    case isTrue hincoming =>
      constructor
      · intro hrefuses
        exfalso
        cases hflags : WS2Pv2ConnectType.fromFlags connectMsg.flagsQueries connectMsg.chunkstamp with
        | error err =>
            rw [hflags] at hrefuses
            rcases hrefuses with ⟨_, _, hresult, -⟩
            cases hresult
        | ok remoteConnectType =>
            rw [hflags] at hrefuses
            exact not_refuses_mergeFeaturesAndAck hrefuses
      · rintro ⟨-, hne, -⟩
        exact absurd hincoming hne
    case isFalse houtgoing =>
      cases hid : controller.id.expectedRemoteFullId with
      | none =>
          constructor
          · rintro ⟨_, _, hresult, -⟩
            cases hresult
          · rintro ⟨-, -, expectedFullId, hmem, -⟩
            cases hmem
      | some expectedFullId =>
          simp only [expect_some, ok_bind]
          split
          case isTrue heq =>
            constructor
            · intro hrefuses
              exact absurd hrefuses not_refuses_mergeFeaturesAndAck
            · rintro ⟨-, -, _, hmem, hne⟩
              obtain rfl := Option.some.inj hmem
              exact absurd heq hne
          case isFalse hne =>
            constructor
            · intro _
              exact ⟨hstate, houtgoing, expectedFullId, rfl, hne⟩
            · intro _
              exact ⟨controller, _, rfl, rfl, rfl, rfl, rfl⟩
  case isFalse hstate =>
    constructor
    · intro hrefuses
      exact absurd hrefuses not_refuses_mergeFeaturesAndAck
    · rintro ⟨heq, -⟩
      exact absurd heq hstate

/-! ## Stages -/

/-- How far the negotiation has come in a state; it is over when the connection has failed, been
denied or been closed. -/
def WS2PConnectionState.stage : WS2PConnectionState → Nat
  | .neverTry => 0
  | .tryToOpenWS => 1
  | .tryToSendConnectMsg => 2
  | .waitingConnectMsg => 3
  | .connectMessOk => 4
  | .ackMsgOk | .secretFlagsOkWaitingAckMsg => 5
  | .okMsgOkWaitingAckMsg | .secretFlagsOk => 6
  | .established => 7
  | .wsError | .unreachable | .noResponse | .negociationTimeout | .denial | .close => 8

theorem WS2PConnectionState.stage_le (state : WS2PConnectionState) : state.stage ≤ 8 := by
  cases state <;> decide

/-- A message received, with the readings of the clock and the answer of the websocket to the order
given for it. -/
structure ReceivedMessage where
  msg : WebsocketMessage
  clock : MessageClock
  wsOk : Bool
deriving DecidableEq, Repr

/-- The step of a run of messages. -/
def messageStep (codec : Codec) (controller : WS2PController) (received : ReceivedMessage) :
    Run WS2PController :=
  handle codec controller (.incoming (.onMessage received.msg) received.clock received.wsOk)

/-- The CONNECT message that a payload is. -/
def WS2Pv2MessagePayload.connect? : WS2Pv2MessagePayload → Option WS2Pv2ConnectMsg
  | .connect connectMsg => some connectMsg
  | _ => none

/-- If the message is a valid CONNECT, it is one on which the negotiation is strict. -/
def ConnectsStrict (codec : Codec) (controller : WS2PController) (received : ReceivedMessage) :
    Prop :=
  ∀ validMsg ∈ received.msg.valid? codec, ∀ connectMsg ∈ validMsg.payload.connect?,
    StrictOn controller validMsg.issuer connectMsg

theorem handle_onMessage {msg : WebsocketMessage} {clock : MessageClock} {wsOk : Bool}
    {controller' : WS2PController}
    (h : handle codec controller (.incoming (.onMessage msg) clock wsOk) = .ok controller') :
    ∃ result, MessageStep codec controller msg result ∧
      execOrder result.1 (orderOf result.2) wsOk = .ok controller' := by
  rw [handle, bind_eq_ok_iff] at h
  rcases h with ⟨result, hresult, h⟩
  exact ⟨result, processOnMessage_step hresult, h⟩

/-- Denying or closing a connection is the last stage. -/
theorem stage_le_of_refused {controller₀ controller' : WS2PController} {reason : String}
    {wsOk : Bool}
    (h : execOrder controller (closeWithReason reason .denial) wsOk = .ok controller') :
    controller₀.metaDatas.state.stage ≤ controller'.metaDatas.state.stage := by
  have hstate : controller'.metaDatas.state = .denial := by
    simpa [statesAfter, closeWithReason] using (execOrder_ok h).1
  rw [hstate]
  exact WS2PConnectionState.stage_le _

/-- After sending a message a controller is in the state ordered, or the node is unreachable. -/
theorem stage_le_of_sent {controller₀ controller' : WS2PController} {binMsg : List UInt8}
    {success : WS2PConnectionState} {wsOk : Bool}
    (hle : controller₀.metaDatas.state.stage ≤ success.stage)
    (h : execOrder controller (sendOrder binMsg success) wsOk = .ok controller') :
    controller₀.metaDatas.state.stage ≤ controller'.metaDatas.state.stage := by
  have hstate : controller'.metaDatas.state = success ∨
      controller'.metaDatas.state = .unreachable := by
    simpa [statesAfter, sendOrder] using (execOrder_ok h).1
  rcases hstate with hstate | hstate
  · rwa [hstate]
  · rw [hstate]
    exact WS2PConnectionState.stage_le _

/-- The states after a change that gives no order: the one changed to, or that of a closed
connection when the orchestrator is gone. -/
theorem state_of_thenNone {processed : Processed Unit} {controller' : WS2PController} {wsOk : Bool}
    (h : execOrder (thenNone processed).1 (orderOf (thenNone processed).2) wsOk = .ok controller') :
    controller'.metaDatas.state = processed.1.metaDatas.state ∨
      controller'.metaDatas.state = .close ∨ controller'.metaDatas.state = .unreachable := by
  have hstate := (execOrder_ok h).1
  rcases processed with ⟨controller, _ | _⟩
  case error err =>
    cases err
    refine .inr ?_
    simpa [thenNone, orderOf, statesAfter, Except.map] using hstate
  case ok => exact .inl (List.mem_singleton.1 hstate)

theorem stage_le_of_thenNone {controller₀ controller' : WS2PController} {processed : Processed Unit}
    {state : WS2PConnectionState} {wsOk : Bool} (hchanged : processed.1.metaDatas.state = state)
    (hle : controller₀.metaDatas.state.stage ≤ state.stage)
    (h : execOrder (thenNone processed).1 (orderOf (thenNone processed).2) wsOk = .ok controller') :
    controller₀.metaDatas.state.stage ≤ controller'.metaDatas.state.stage := by
  rcases state_of_thenNone h with hstate | hstate | hstate
  · rwa [hstate, hchanged]
  · rw [hstate]
    exact WS2PConnectionState.stage_le _
  · rw [hstate]
    exact WS2PConnectionState.stage_le _

/-- A message on which the negotiation is strict does not take the controller back. -/
theorem stage_le_of_messageStep {received : ReceivedMessage} {controller' : WS2PController}
    (hstrict : ConnectsStrict codec controller received)
    (h : messageStep codec controller received = .ok controller') :
    controller.metaDatas.state.stage ≤ controller'.metaDatas.state.stage := by
  rcases handle_onMessage h with ⟨result, hstep, hexec⟩
  cases hstep with
  | ignored c htouched =>
      obtain rfl := Except.ok.inj hexec
      exact Nat.le_of_eq (congrArg _ htouched.state.symm)
  | refused c reason htouched => exact stage_le_of_refused hexec
  | valid c validMsg result htouched hvalid hprocess =>
      have hsame := htouched.state
      cases processValidMsg_step hprocess with
      | refused reason => exact stage_le_of_refused hexec
      | connected connectMsg features remoteConnectType remoteNode binMsg hpayload hremote =>
          have hwaiting : controller.metaDatas.state = .waitingConnectMsg := by
            have hconnect := hstrict validMsg hvalid connectMsg (by rw [hpayload]; rfl)
            exact hconnect.waiting
          exact stage_le_of_sent (by rw [hwaiting]; decide) hexec
      | wrongChallenge =>
          exact stage_le_of_thenNone (WS2PController.updateConnState_state _) (WS2PConnectionState.stage_le _) hexec
      | acknowledged success binMsg hpayload hfrom =>
          rw [hsame] at hfrom
          rcases hfrom with ⟨hfrom, rfl⟩ | ⟨hfrom, rfl⟩
          · exact stage_le_of_sent (by rw [hfrom]; decide) hexec
          · exact stage_le_of_sent (by rw [hfrom]; decide) hexec
      | okReceived hfrom =>
          rw [hsame] at hfrom
          refine stage_le_of_thenNone (WS2PController.updateConnState_state _) ?_ hexec
          rcases hfrom with hfrom | hfrom
          · rw [hfrom]
            decide
          · rw [hfrom]
            decide
      | secretFlagsFirst hfrom =>
          rw [hsame] at hfrom
          exact stage_le_of_thenNone (WS2PController.updateConnState_state _) (by rw [hfrom]; decide) hexec
      | secretFlagsLast hfrom =>
          rw [hsame] at hfrom
          exact stage_le_of_thenNone (WS2PController.updateConnState_state _) (by rw [hfrom]; decide) hexec
      | established connType remoteNode hpayload hfrom hconn hremote =>
          rw [hsame] at hfrom
          refine stage_le_of_thenNone (congrArg (·.state)
            (WS2PController.sendEvent_metaDatas _)) ?_ hexec
          change _ ≤ WS2PConnectionState.established.stage
          rcases hfrom with hfrom | hfrom
          · rw [hfrom]
            decide
          · rw [hfrom]
            decide
      | forwarded kind content hpayload hfrom =>
          refine stage_le_of_thenNone (congrArg (·.state)
            (WS2PController.sendEvent_metaDatas _)) ?_ hexec
          exact Nat.le_of_eq (by rw [hsame])

/-- The negotiation is strict on the CONNECT messages said and on no others, and a run of messages
whose CONNECTs are all of these never takes a controller back. -/
theorem negotiationStrict_iff (codec : Codec) :
    (∀ controller remoteFullId connectMsg,
      (RefusalWorthy controller connectMsg →
        Refuses controller (processConnectMsg codec controller remoteFullId connectMsg)) ↔
      StrictOn controller remoteFullId connectMsg) ∧
    ∀ controller controller',
      Reached controller (messageStep codec) (ConnectsStrict codec) controller' →
      controller.metaDatas.state.stage ≤ controller'.metaDatas.state.stage := by
  constructor
  · intro controller remoteFullId connectMsg
    rw [refuses_processConnectMsg_iff, StrictOn, imp_iff_not_or]
  · intro controller controller' h
    apply h.invariant (I := fun c => controller.metaDatas.state.stage ≤ c.metaDatas.state.stage)
    · exact Nat.le_refl _
    · intro c received c' hle hstrict hrun
      exact Nat.le_trans hle (stage_le_of_messageStep hstrict hrun)

/-! ## Runs over a toy codec -/

/-- The bytes of a payload: its kind, and a byte of its content. -/
def toyPayloadBytes : WS2Pv2MessagePayload → List UInt8
  | .connect connectMsg => [0, .ofNat connectMsg.challenge.toNat]
  | .ack challenge => [1, .ofNat challenge.toNat]
  | .secretFlags _ => [2, 0]
  | .ok _ => [3, 0]
  | .ko code => [4, .ofNat code]
  | .data _ content => [5, content.headD 0]

/-- The payload of two bytes. -/
def toyPayload : UInt8 → UInt8 → Option WS2Pv2MessagePayload
  | 0, byte =>
      some (.connect
        { challenge := .ofNat 256 byte.toNat, apiFeatures := ⟨[5]⟩, flagsQueries := ⟨[]⟩
          peerCard := none, chunkstamp := none })
  | 1, byte => some (.ack (.ofNat 256 byte.toNat))
  | 2, _ => some (.secretFlags ⟨[], none⟩)
  | 3, _ => some (.ok default)
  | 4, byte => some (.ko byte.toNat)
  | 5, byte => some (.data .request [byte])
  | _, _ => none

/-- The bytes of an optional signature. -/
def toySigBytes : Option Sig → List UInt8
  | none => [0]
  | some (.ed25519 sig) => [1, .ofNat sig.bytes.toNat]
  | some .schnorr => [2]

/-- The signature of a byte. -/
def toySig (byte : UInt8) : Durs.Sig := ⟨byte.toBitVec.setWidth 512⟩

/-- The signature of a byte string under a key. -/
def toySign (pubkey : Durs.PubKey) (bytes : List UInt8) : Durs.Sig :=
  toySig (.ofNat (7 * pubkey.bytes.toNat + (bytes.map UInt8.toNat).sum))

/-- Messages of five bytes: the payload, the node and its key, and the signature. -/
def toyCodec : Codec where
  serialize
    | .v2 msg => some (toyPayloadBytes msg.payload ++ .ofNat msg.issuerNodeId ::
        toySigBytes msg.signature)
    | _ => none
  serializeSig sig := some (toySigBytes sig)
  deserialize
    | [kind, byte, issuer, 1, sig] => do
        let payload ← toyPayload kind byte
        return .v2
          { currencyName := "g1", issuerNodeId := issuer.toNat, payload
            issuerPubkey := .ed25519 ⟨.ofNat 256 issuer.toNat⟩, messageHash := none
            signature := some (.ed25519 (toySig sig)) }
    | _ => none
  computeHash bytes := .ofNat 256 (bytes.map UInt8.toNat).sum
  sign keyPair bytes := toySign keyPair.pubkey bytes
  verify pubkey bytes sig := sig = toySign pubkey bytes

/-- The node of a byte. -/
def toyNode (byte : Nat) : NodeFullId := ⟨byte, .ed25519 ⟨.ofNat 256 byte⟩⟩

/-- A message of the node of a byte, as received. -/
def toyMessage (byte : Nat) (payload : WS2Pv2MessagePayload) : ReceivedMessage :=
  let unsigned := toyPayloadBytes payload ++ [.ofNat byte]
  { msg := .bin (unsigned ++ toySigBytes (some (.ed25519 (toySign ⟨.ofNat 256 byte⟩ unsigned))))
    clock := ⟨1, 1, 1⟩, wsOk := true }

/-- The CONNECT message of a node with a challenge. -/
def toyConnectMsg (challenge : Hash) : WS2Pv2ConnectMsg :=
  { challenge, apiFeatures := ⟨[5]⟩, flagsQueries := ⟨[]⟩, peerCard := none, chunkstamp := none }

/-- The controller of node 1, with challenge 9, for an incoming connection. -/
def toyController (state : WS2PConnectionState) : WS2PController where
  id := .incoming
  orchestratorSender := { connected := true, sent := [] }
  metaDatas :=
    { WS2PControllerMetaDatas.new 9 .incoming "g1"
        { myNodeId := 1, myKeyPair := .ed25519 ⟨0, ⟨1⟩⟩, myFeatures := ⟨[5]⟩ } 0 0 with state }

instance StrictOn.decidable (controller : WS2PController) (remoteFullId : NodeFullId)
    (connectMsg : WS2Pv2ConnectMsg) : Decidable (StrictOn controller remoteFullId connectMsg) :=
  inferInstanceAs (Decidable (¬ _ ∨ _ ∧ _ ∧ _))

instance ConnectsStrict.decidable (codec : Codec) (controller : WS2PController)
    (received : ReceivedMessage) : Decidable (ConnectsStrict codec controller received) :=
  inferInstanceAs (Decidable (∀ _ ∈ _, ∀ _ ∈ _, _))

/-- A whole negotiation, and a message of data. -/
def toyNegotiation : List ReceivedMessage :=
  [toyMessage 2 (.connect (toyConnectMsg 3)), toyMessage 2 (.ack 9), toyMessage 2 (.ok default),
    toyMessage 2 (.data .request [4])]

theorem negotiationStrict_toyNegotiation :
    ∃ controller,
      toyNegotiation.foldlM (messageStep toyCodec) (toyController .waitingConnectMsg) =
        .ok controller ∧
      WS2PConnectionState.waitingConnectMsg.stage ≤ controller.metaDatas.state.stage := by
  have hsome : (guardedRun (messageStep toyCodec) (ConnectsStrict toyCodec) toyNegotiation
      (toyController .waitingConnectMsg)).isSome := by decide
  rcases Option.isSome_iff_exists.1 hsome with ⟨controller, hrun⟩
  exact ⟨controller, foldlM_of_guardedRun hrun,
    (negotiationStrict_iff toyCodec).2 _ _ (.of_guardedRun .init hrun)⟩

/-- A CONNECT message received once the connection is established is acknowledged, and takes the
controller back. -/
theorem not_negotiationStrict_established :
    RefusalWorthy (toyController .established) (toyConnectMsg 3) ∧
      ¬ Refuses (toyController .established)
        (processConnectMsg toyCodec (toyController .established) (toyNode 2) (toyConnectMsg 3)) ∧
      ∃ controller, messageStep toyCodec (toyController .established)
          (toyMessage 2 (.connect (toyConnectMsg 3))) = .ok controller ∧
        controller.metaDatas.state = .connectMessOk := by
  refine ⟨by decide, ?_, ⟨_, rfl, rfl⟩⟩
  rw [refuses_processConnectMsg_iff]
  rintro ⟨hstate, -⟩
  cases hstate

end Ws2p

end Durs
