/-
# The agreement of two honest nodes

Two controllers are joined by two channels that keep the order of the messages.  Each opens the
connection on its own, and each message is delivered at any time after that.  As every message of a
node answers one that its peer sent, an OK message never overtakes the ACK message before it, and
both controllers go through the same phases up to the established connection.
-/

import Mathlib.Logic.Function.Basic
import Durs.Lib.Transit
import Durs.Ws2p.Robustness

namespace Durs

open RustStd Lib

namespace Ws2p

/-! ## Two controllers and their channels -/

/-- The two ends of a connection. -/
inductive Side
  | outgoing
  | incoming
deriving DecidableEq, Repr

/-- The other end. -/
def Side.other : Side → Side
  | .outgoing => .incoming
  | .incoming => .outgoing

@[simp]
theorem Side.other_other (side : Side) : side.other.other = side := by cases side <;> rfl

@[simp]
theorem Side.other_ne (side : Side) : side.other ≠ side := by cases side <;> decide

@[simp]
theorem Side.ne_other (side : Side) : side ≠ side.other := by cases side <;> decide

theorem Side.eq_or_eq_other (side side' : Side) : side' = side ∨ side' = side.other := by
  cases side <;> cases side' <;> decide

/-- Two controllers, and the messages on the way to each of them. -/
structure Net where
  controller : Side → WS2PController
  /-- The websocket is open: only then does it deliver messages. -/
  opened : Side → Bool
  inFlight : Side → List (List UInt8)

/-- What can happen next. -/
inductive NetEvent
  | opens (side : Side)
  | delivers (side : Side) (clock : MessageClock)
deriving DecidableEq, Repr

/-- The bytes that an order sends. -/
def sentBytes : Option WebsocketActionOrder → List (List UInt8)
  | some { wsAction := .sendMessage (.bin binMsg), .. } => [binMsg]
  | _ => []

namespace Net

/-- A controller processes an event, and its order is executed. -/
def react (codec : Codec) (net : Net) (side : Side) (event : WebsocketIncomingEvent) (clock : MessageClock) :
    Run Net := do
  let (controller, result) ← process codec (net.controller side) event clock
  let controller ← execOrder controller (orderOf result) true
  return { net with
    controller := Function.update net.controller side controller
    inFlight := Function.update net.inFlight side.other
      (net.inFlight side.other ++ sentBytes (orderOf result)) }

/-- The step of the net. -/
def step (codec : Codec) (net : Net) : NetEvent → Run Net
  | .opens side =>
      react codec { net with opened := Function.update net.opened side true } side (.onOpen none)
        ⟨0, 0, 0⟩
  | .delivers side clock =>
      match net.inFlight side with
      | [] => return net
      | binMsg :: rest =>
          react codec { net with inFlight := Function.update net.inFlight side rest } side
            (.onMessage (.bin binMsg)) clock

/-- A connection is opened once, and a message is delivered after it has been opened. -/
def Enabled (net : Net) : NetEvent → Prop
  | .opens side => net.opened side = false
  | .delivers side _ => net.opened side = true ∧ net.inFlight side ≠ []

instance Enabled.decidable (net : Net) : ∀ event, Decidable (net.Enabled event)
  | .opens _ => inferInstanceAs (Decidable (_ = _))
  | .delivers _ _ => inferInstanceAs (Decidable (_ ∧ _ ≠ _))

end Net

/-! ## Honest nodes -/

/-- A node that takes part in a connection, with the key pair that signs its messages. -/
structure Party where
  id : WS2PControllerId
  challenge : Hash
  connectType : WS2Pv2ConnectType
  currency : String
  localNode : MySelfWs2pNode
  creationTime : SystemTime
  lastMessTime : SystemTime
  keyPair : KeyPair
  hasKey : localNode.myKeyPair = .ed25519 keyPair

namespace Party

/-- The controller of a new connection. -/
def controller (party : Party) : WS2PController :=
  (ConnectionRun.new party.id party.challenge party.connectType party.currency party.localNode
    party.creationTime party.lastMessTime).controller

/-- The complete identifier of the node. -/
def fullId (party : Party) : NodeFullId :=
  ⟨party.localNode.myNodeId, .ed25519 party.keyPair.pubkey⟩

/-- The CONNECT message of the node. -/
def connectMsg (party : Party) : WS2Pv2ConnectMsg :=
  generateConnectMessage party.connectType party.localNode.myFeatures party.challenge none

/-- The payloads of a handshake, in the order in which they are sent. -/
def payloads (party peer : Party) : List WS2Pv2MessagePayload :=
  [.connect party.connectMsg, .ack peer.challenge, .ok default]

/-- The message that encapsulates a payload, with or without its signature. -/
def message (party : Party) (payload : WS2Pv2MessagePayload) (signature : Option Sig) :
    WS2Pv2Message :=
  { currencyName := party.currency, issuerNodeId := party.localNode.myNodeId
    issuerPubkey := .ed25519 party.keyPair.pubkey, payload, messageHash := none, signature }

end Party

/-- What the libraries do with a message that a node signs.  `bincode` writes the signature last, an
absent one as one byte, and reads what it wrote; the signature is valid for what was signed. -/
structure Carries (codec : Codec) (party : Party) (payload : WS2Pv2MessagePayload)
    (head binSig : List UInt8) : Prop where
  serialize_unsigned : codec.serialize (.v2 (party.message payload none)) = some (head ++ [0])
  serializeSig :
    codec.serializeSig (some (.ed25519 (codec.sign party.keyPair head))) = some binSig
  serialize_signed :
    codec.serialize (.v2 (party.message payload
      (some (.ed25519 (codec.sign party.keyPair head))))) = some (head ++ binSig)
  deserialize_signed :
    codec.deserialize (head ++ binSig) =
      some (.v2 (party.message payload (some (.ed25519 (codec.sign party.keyPair head)))))
  verify_sign : codec.verify party.keyPair.pubkey head (codec.sign party.keyPair head) = true

/-- Two honest nodes: the outgoing one expects the incoming one, their features are compatible, and
the libraries carry the messages of the handshake. -/
structure Honest (codec : Codec) (party : Side → Party) : Prop where
  expects : (party .outgoing).id.expectedRemoteFullId = some (party .incoming).fullId
  outgoing : (party .outgoing).connectType ≠ .incoming
  incoming : (party .incoming).connectType = .incoming
  compatible : ∀ side, ∃ merged,
    (party side).localNode.myFeatures.checkFeaturesCompatibility
      (party side.other).localNode.myFeatures = .ok (.ok merged)
  carries : ∀ side, ∀ payload ∈ (party side).payloads (party side.other), ∃ head binSig,
    Carries codec (party side) payload head binSig

/-- The net before anything has happened. -/
def Net.new (party : Side → Party) : Net where
  controller side := (party side).controller
  opened _ := false
  inFlight _ := []

variable {codec : Codec} {party peer : Party} {payload : WS2Pv2MessagePayload}
  {head binSig : List UInt8} {controller : WS2PController}

/-! ## Messages carried -/

/-- The bytes that a node sends for a payload. -/
def Party.bytes (codec : Codec) (party : Party) (payload : WS2Pv2MessagePayload) : List UInt8 :=
  match WS2Pv2Message.encapsulatePayload codec party.currency party.localNode.myNodeId
      party.localNode.myKeyPair payload with
  | .ok (some binMsg) => binMsg
  | _ => []

/-- The messages of a handshake, in the order in which they are sent. -/
def Party.script (codec : Codec) (party peer : Party) : List (List UInt8) :=
  (party.payloads peer).map (party.bytes codec)

namespace Carries

theorem encapsulatePayload (h : Carries codec party payload head binSig) :
    WS2Pv2Message.encapsulatePayload codec party.currency party.localNode.myNodeId
      party.localNode.myKeyPair payload = .ok (some (head ++ binSig)) := by
  have hunsigned := h.serialize_unsigned
  rw [Party.message] at hunsigned
  simp only [party.hasKey, WS2Pv2Message.encapsulatePayload, WS2Pv2Message.sign, hunsigned,
    Option.isSome_none, Bool.false_eq_true, if_false, List.dropLast_concat, h.serializeSig,
    expect_some, ok_bind]
  rfl

theorem bytes_eq (h : Carries codec party payload head binSig) :
    party.bytes codec payload = head ++ binSig := by
  rw [Party.bytes, h.encapsulatePayload]

/-- A message carried is read as it was written. -/
theorem parse_bytes (h : Carries codec party payload head binSig) :
    parseAndCheckBinMessage codec (party.bytes codec payload) =
      .ok (.ok (.v2 (party.message payload
        (some (.ed25519 (codec.sign party.keyPair head)))))) := by
  have hverify : (party.message payload
      (some (.ed25519 (codec.sign party.keyPair head)))).verify codec = .ok () := by
    have hsigned := h.serialize_signed
    rw [Party.message] at hsigned
    simp [Party.message, WS2Pv2Message.verify, WS2Pv2Message.getBinWithoutSig, hsigned,
      h.serializeSig, h.verify_sign]
  rw [h.bytes_eq, parseAndCheckBinMessage, h.deserialize_signed]
  simp only [Party.message, sigLen, hashIsValid] at hverify ⊢
  simp only [pure, Except.pure, ok_bind, if_true, hverify]

end Carries

/-- The bytes of a payload are sent by a controller of its node. -/
theorem sendPayload_of_carries (h : Carries codec party payload head binSig)
    (hcurrency : controller.metaDatas.currency = party.currency)
    (hnode : controller.metaDatas.localNode = party.localNode) (success : WS2PConnectionState)
    (failure : String) :
    sendPayload codec controller payload success failure =
      .ok (answer controller (sendOrder (party.bytes codec payload) success)) := by
  rw [sendPayload, hcurrency, hnode, h.encapsulatePayload, h.bytes_eq]
  rfl

/-! ## Phases -/

/-- The state of a controller that has received that many messages since it has opened the
connection, one less than its phase. -/
def phaseState : Nat → WS2PConnectionState
  | 0 => .tryToOpenWS
  | 1 => .waitingConnectMsg
  | 2 => .connectMessOk
  | 3 => .ackMsgOk
  | _ => .established

/-- A controller that works for a node. -/
structure Serves (party : Party) (controller : WS2PController) : Prop where
  id : controller.id = party.id
  connected : controller.orchestratorSender.connected = true
  challenge : controller.metaDatas.challenge = party.challenge
  connectType : controller.metaDatas.connectType = party.connectType
  currency : controller.metaDatas.currency = party.currency
  localNode : controller.metaDatas.localNode = party.localNode

/-- A controller in a phase of the handshake with a peer. -/
structure InPhase (party peer : Party) (phase : Nat) (controller : WS2PController) : Prop where
  serves : Serves party controller
  state : controller.metaDatas.state = phaseState phase
  /-- Too few messages have come for one to be taken for spam. -/
  spam : controller.metaDatas.spamCounter ≤ phase
  remote : 2 ≤ phase → controller.remoteFullId? = some peer.fullId
  remoteConnectType : 2 ≤ phase → controller.metaDatas.remoteConnectType.isSome

/-- A controller answers an event: it comes to another one and sends messages. -/
def Reacts (codec : Codec) (controller : WS2PController) (event : WebsocketIncomingEvent)
    (clock : MessageClock) (controller' : WS2PController) (sent : List (List UInt8)) : Prop :=
  ∃ result, process codec controller event clock = .ok result ∧
    execOrder result.1 (orderOf result.2) true = .ok controller' ∧
    sentBytes (orderOf result.2) = sent

variable {controller' : WS2PController} {phase : Nat}

theorem inPhase_zero (party peer : Party) : InPhase party peer 0 party.controller where
  serves := ⟨rfl, rfl, rfl, rfl, rfl, rfl⟩
  state := rfl
  spam := Nat.le_refl 0
  remote h := by cases h
  remoteConnectType h := by cases h

theorem Touched.serves (h : Touched controller controller') (hserves : Serves party controller) :
    Serves party controller' := by
  rcases h with ⟨_, _, _, _, rfl⟩
  exact ⟨hserves.id, hserves.connected, hserves.challenge, hserves.connectType, hserves.currency,
    hserves.localNode⟩

/-- With the orchestrator connected, a change of the state only adds an event sent. -/
theorem updateConnState_of_connected (h : controller.orchestratorSender.connected = true)
    (newState : WS2PConnectionState) :
    controller.updateConnState newState =
      ({ controller.withState newState with
          orchestratorSender :=
            { controller.orchestratorSender with
              sent := controller.orchestratorSender.sent ++ [.stateChange newState] } }, .ok ()) :=
  if_pos h

/-- Executing the order to send a message moves a controller to the state of success. -/
theorem inPhase_of_sent {answered : WS2PController} {binMsg : List UInt8}
    {success : WS2PConnectionState} (hserves : Serves party answered)
    (hsuccess : success = phaseState phase) (hspam : answered.metaDatas.spamCounter ≤ phase)
    (hremote : 2 ≤ phase → answered.remoteFullId? = some peer.fullId)
    (htype : 2 ≤ phase → answered.metaDatas.remoteConnectType.isSome) :
    ∃ controller', execOrder answered (sendOrder binMsg success) true = .ok controller' ∧
      InPhase party peer phase controller' := by
  refine ⟨_, rfl, ?_⟩
  rw [updateConnState_of_connected hserves.connected]
  exact
    { serves := ⟨hserves.id, hserves.connected, hserves.challenge, hserves.connectType,
        hserves.currency, hserves.localNode⟩
      state := hsuccess
      spam := hspam
      remote := hremote
      remoteConnectType := htype }

/-- A controller that opens the connection sends its CONNECT message. -/
theorem InPhase.reacts_onOpen (h : InPhase party peer 0 controller) (clock : MessageClock)
    (remoteAddr : Option String)
    (hcarries : ∃ head binSig, Carries codec party
      (.connect party.connectMsg) head binSig) :
    ∃ controller', InPhase party peer 1 controller' ∧
      Reacts codec controller (.onOpen remoteAddr) clock controller'
        [party.bytes codec (.connect party.connectMsg)] := by
  rcases hcarries with ⟨head, binSig, hcarries⟩
  have hupdate := updateConnState_of_connected h.serves.connected .tryToSendConnectMsg
  have hserves : Serves party (controller.updateConnState .tryToSendConnectMsg).1 := by
    rw [hupdate]
    exact ⟨h.serves.id, h.serves.connected, h.serves.challenge, h.serves.connectType,
      h.serves.currency, h.serves.localNode⟩
  have hspam : (controller.updateConnState .tryToSendConnectMsg).1.metaDatas.spamCounter ≤ 1 := by
    rw [WS2PController.updateConnState_metaDatas]
    exact Nat.le_succ_of_le h.spam
  have hok : controller.updateConnState .tryToSendConnectMsg =
      ((controller.updateConnState .tryToSendConnectMsg).1, .ok ()) := by
    rw [hupdate]
  generalize (controller.updateConnState .tryToSendConnectMsg).1 = updated at hserves hspam hok
  have hopen : process codec controller (.onOpen remoteAddr) clock =
      .ok (answer updated
        (sendOrder (party.bytes codec (.connect party.connectMsg)) .waitingConnectMsg)) := by
    rw [process, processOnOpen, hok]
    simp only [hserves.connectType, hserves.challenge, hserves.localNode]
    exact sendPayload_of_carries hcarries hserves.currency hserves.localNode _ _
  have hnone : ¬ 2 ≤ 1 := by decide
  rcases inPhase_of_sent hserves rfl hspam (absurd · hnone) (absurd · hnone) with
    ⟨controller', hexec, hphase⟩
  exact ⟨controller', hphase, _, hopen, hexec, rfl⟩

theorem updateSpam_spamCounter_le (metaDatas : WS2PControllerMetaDatas) (elapsed : Nat) :
    (updateSpam metaDatas elapsed).spamCounter ≤ max 2 (metaDatas.spamCounter + 1) := by
  rw [updateSpam]
  split
  case isTrue =>
    split
    case isTrue => exact Nat.le_max_right _ _
    case isFalse => exact Nat.le_max_left _ _
  case isFalse => exact Nat.zero_le _

/-- A message is processed as it is read, when the clock does not go back and few messages have been
received. -/
theorem process_of_parse {binMsg : List UInt8} {msg : WS2Pv2Message} {clock : MessageClock}
    (hle : clock.received ≤ clock.checked) (hfew : controller.metaDatas.spamCounter ≤ 3)
    (hparse : parseAndCheckBinMessage codec binMsg = .ok (.ok (.v2 msg))) :
    ∃ touched, Touched controller touched ∧
      touched.metaDatas.spamCounter ≤ max 2 (controller.metaDatas.spamCounter + 1) ∧
      process codec controller (.onMessage (.bin binMsg)) clock =
        processValidMsg codec touched (.v2 msg) := by
  have hcount : ((controller.modifyMetaDatas fun m =>
      { m with lastMessTime := clock.received }).modifyMetaDatas fun m =>
        updateSpam m (clock.checked - clock.received)).metaDatas.spamCounter ≤
          max 2 (controller.metaDatas.spamCounter + 1) :=
    updateSpam_spamCounter_le { controller.metaDatas with lastMessTime := clock.received } _
  refine ⟨_, touched_updateSpam controller clock.received (clock.checked - clock.received), hcount,
    ?_⟩
  have helapsed : durationSince clock.checked (controller.modifyMetaDatas fun m =>
      { m with lastMessTime := clock.received }).metaDatas.lastMessTime =
        .ok (clock.checked - clock.received) := if_pos hle
  rw [process, processOnMessage, helapsed, ok_bind, if_neg (by omega), processMsg, hparse, ok_bind]

theorem le_of_process {msg : WebsocketMessage} {clock : MessageClock} {result : Answer}
    (h : process codec controller (.onMessage msg) clock = .ok result) :
    clock.received ≤ clock.checked := by
  rw [process, processOnMessage, bind_eq_ok_iff] at h
  rcases h with ⟨elapsed, helapsed, -⟩
  exact (durationSince_eq_ok_iff.1 helapsed).1

/-- The handshake of a node with its peer can go through: its outgoing side expects the peer, and
their features can be compared. -/
structure Accepts (party peer : Party) : Prop where
  expects : party.connectType ≠ .incoming → party.id.expectedRemoteFullId = some peer.fullId
  compatible : ∃ merged, party.localNode.myFeatures.checkFeaturesCompatibility
    peer.localNode.myFeatures = .ok (.ok merged)

/-- The CONNECT message of the peer is acknowledged, and the peer recorded. -/
theorem processConnectMsg_of_accepts {connectMsg : WS2Pv2ConnectMsg}
    (haccepts : Accepts party peer) (hserves : Serves party controller)
    (hstate : controller.metaDatas.state = .waitingConnectMsg)
    (hfeatures : connectMsg.apiFeatures = peer.localNode.myFeatures)
    (hcarries : ∃ head binSig, Carries codec party (.ack connectMsg.challenge) head binSig) :
    ∃ answered, Serves party answered ∧
      answered.metaDatas.spamCounter = controller.metaDatas.spamCounter ∧
      answered.remoteFullId? = some peer.fullId ∧
      answered.metaDatas.remoteConnectType.isSome ∧
      processConnectMsg codec controller peer.fullId connectMsg =
        .ok (answer answered
          (sendOrder (party.bytes codec (.ack connectMsg.challenge)) .connectMessOk)) := by
  rcases hcarries with ⟨head, binSig, hcarries⟩
  rcases haccepts.compatible with ⟨merged, hmerged⟩
  have hkeeps : ∀ remoteNode remoteConnectType, Serves party
      (controller.modifyMetaDatas fun m =>
        { m with remoteNode, remoteConnectType, features := some merged }) :=
    fun _ _ => ⟨hserves.id, hserves.connected, hserves.challenge, hserves.connectType,
      hserves.currency, hserves.localNode⟩
  have hmerge : ∀ remoteNode remoteConnectType,
      mergeFeaturesAndAck codec
        (controller.modifyMetaDatas fun m => { m with remoteNode, remoteConnectType }) connectMsg =
        .ok (answer
          (controller.modifyMetaDatas fun m =>
            { m with remoteNode, remoteConnectType, features := some merged })
          (sendOrder (party.bytes codec (.ack connectMsg.challenge)) .connectMessOk)) := by
    intro remoteNode remoteConnectType
    have hcheck : (controller.modifyMetaDatas fun m =>
        { m with remoteNode, remoteConnectType }).metaDatas.localNode.myFeatures.checkFeaturesCompatibility
          connectMsg.apiFeatures = .ok (.ok merged) := by
      rw [hfeatures, ← hmerged, ← hserves.localNode]
      rfl
    have hanswered := hkeeps remoteNode remoteConnectType
    rw [mergeFeaturesAndAck, hcheck, ok_bind]
    exact sendPayload_of_carries hcarries hanswered.currency hanswered.localNode _ _
  rw [processConnectMsg, if_pos hstate]
  split
  case isTrue =>
    rcases returns_fromFlags connectMsg.flagsQueries connectMsg.chunkstamp with ⟨connType, hconn⟩
    rw [hconn, ok_bind]
    exact ⟨_, hkeeps _ _, rfl, rfl, rfl, hmerge _ _⟩
  case isFalse hne =>
    rw [hserves.connectType] at hne
    rw [hserves.id, haccepts.expects hne, expect_some, ok_bind, if_pos rfl]
    exact ⟨_, hkeeps _ _, rfl, rfl, rfl, hmerge _ _⟩

/-- The CONNECT message of the peer is answered by an ACK message. -/
theorem InPhase.reacts_connect {clock : MessageClock} (h : InPhase party peer 1 controller)
    (haccepts : Accepts party peer) (hle : clock.received ≤ clock.checked)
    (hconnect : ∃ head binSig, Carries codec peer (.connect peer.connectMsg) head binSig)
    (hack : ∃ head binSig, Carries codec party (.ack peer.challenge) head binSig) :
    ∃ controller', InPhase party peer 2 controller' ∧
      Reacts codec controller (.onMessage (.bin (peer.bytes codec (.connect peer.connectMsg)))) clock controller'
        [party.bytes codec (.ack peer.challenge)] := by
  rcases hconnect with ⟨head, binSig, hconnect⟩
  have hspam := h.spam
  rcases process_of_parse hle (Nat.le_trans hspam (by decide)) hconnect.parse_bytes with
    ⟨touched, htouched, hcount, hprocess⟩
  have hfeatures : peer.connectMsg.apiFeatures = peer.localNode.myFeatures := rfl
  rcases processConnectMsg_of_accepts haccepts (htouched.serves h.serves)
      (htouched.state.trans h.state) hfeatures hack with
    ⟨answered, hserves, hcount', hremote, htype, hanswer⟩
  have hspam' : answered.metaDatas.spamCounter ≤ 2 := by omega
  rcases inPhase_of_sent hserves rfl hspam' (fun _ => hremote) (fun _ => htype) with
    ⟨controller', hexec, hphase⟩
  exact ⟨controller', hphase, _, hprocess.trans hanswer, hexec, rfl⟩

/-- The ACK message of the peer, with the challenge of the node, is answered by an OK message. -/
theorem InPhase.reacts_ack {clock : MessageClock} (h : InPhase party peer 2 controller)
    (hle : clock.received ≤ clock.checked)
    (hack : ∃ head binSig, Carries codec peer (.ack party.challenge) head binSig)
    (hok : ∃ head binSig, Carries codec party (.ok default) head binSig) :
    ∃ controller', InPhase party peer 3 controller' ∧
      Reacts codec controller (.onMessage (.bin (peer.bytes codec (.ack party.challenge)))) clock
        controller' [party.bytes codec (.ok default)] := by
  rcases hack with ⟨head, binSig, hack⟩
  rcases hok with ⟨head', binSig', hok⟩
  have hspam := h.spam
  rcases process_of_parse hle (Nat.le_trans hspam (by decide)) hack.parse_bytes with
    ⟨touched, htouched, hcount, hprocess⟩
  have hserves := htouched.serves h.serves
  have hstate : touched.metaDatas.state = .connectMessOk := htouched.state.trans h.state
  have hanswer : processValidMsg codec touched (.v2 (peer.message (.ack party.challenge)
      (some (.ed25519 (codec.sign peer.keyPair head))))) =
      .ok (answer touched (sendOrder (party.bytes codec (.ok default)) .ackMsgOk)) := by
    simp only [processValidMsg, Party.message, processAckMsg, hstate, checkChallenge,
      hserves.challenge, ne_eq, not_true_eq_false, if_false]
    exact sendPayload_of_carries hok hserves.currency hserves.localNode _ _
  have hspam' : touched.metaDatas.spamCounter ≤ 3 := by omega
  have hremote : touched.remoteFullId? = some peer.fullId := by
    rw [WS2PController.remoteFullId?, htouched.remoteNode]
    exact h.remote (Nat.le_refl 2)
  have htype : touched.metaDatas.remoteConnectType.isSome := by
    rcases htouched with ⟨_, _, _, _, rfl⟩
    exact h.remoteConnectType (Nat.le_refl 2)
  rcases inPhase_of_sent hserves rfl hspam' (fun _ => hremote) (fun _ => htype) with
    ⟨controller', hexec, hphase⟩
  exact ⟨controller', hphase, _, hprocess.trans hanswer, hexec, rfl⟩

/-- The OK message of the peer establishes the connection. -/
theorem InPhase.reacts_ok {clock : MessageClock} (h : InPhase party peer 3 controller)
    (hle : clock.received ≤ clock.checked)
    (hok : ∃ head binSig, Carries codec peer (.ok default) head binSig) :
    ∃ controller', InPhase party peer 4 controller' ∧
      Reacts codec controller (.onMessage (.bin (peer.bytes codec (.ok default)))) clock
        controller' [] := by
  rcases hok with ⟨head, binSig, hok⟩
  have hspam := h.spam
  rcases process_of_parse hle (Nat.le_trans hspam (by decide)) hok.parse_bytes with
    ⟨touched, htouched, hcount, hprocess⟩
  have hserves := htouched.serves h.serves
  have hstate : touched.metaDatas.state = .ackMsgOk := htouched.state.trans h.state
  have hremote : touched.remoteFullId? = some peer.fullId := by
    rw [WS2PController.remoteFullId?, htouched.remoteNode]
    exact h.remote (by decide)
  have htype : touched.metaDatas.remoteConnectType.isSome := by
    rcases htouched with ⟨_, _, _, _, rfl⟩
    exact h.remoteConnectType (by decide)
  have hreturns : Returns (processOkMsg touched) := by
    refine returns_processOkMsg_iff.2 fun _ => ⟨fun _ => htype, ?_⟩
    rw [WS2PController.remoteFullId?] at hremote
    exact Option.isSome_map.symm.trans (Option.isSome_iff_exists.2 ⟨_, hremote⟩)
  rcases hreturns with ⟨result, hanswer⟩
  have hend : ∃ event, result = thenNone ((touched.withState .established).sendEvent event) := by
    simp only [processOkMsg, hstate, bind_eq_ok_iff] at hanswer
    rcases hanswer with ⟨connType, -, remoteNode, -, hanswer⟩
    exact ⟨_, (Except.ok.inj hanswer).symm⟩
  rcases hend with ⟨event, rfl⟩
  have hsend : (touched.withState .established).sendEvent event =
      ({ touched.withState .established with
          orchestratorSender :=
            { touched.orchestratorSender with
              sent := touched.orchestratorSender.sent ++ [event] } }, .ok ()) :=
    if_pos hserves.connected
  rw [hsend] at hanswer
  refine ⟨_, ?_, _, hprocess.trans hanswer, rfl, rfl⟩
  exact
    { serves := ⟨hserves.id, hserves.connected, hserves.challenge, hserves.connectType,
        hserves.currency, hserves.localNode⟩
      state := rfl
      spam := by
        change touched.metaDatas.spamCounter ≤ 4
        omega
      remote := fun _ => hremote
      remoteConnectType := fun _ => htype }

/-- A controller that has opened the connection answers the next message of its peer by the next
message of its own, as long as there is one. -/
theorem InPhase.reacts_message {clock : MessageClock} {binMsg : List UInt8}
    (h : InPhase party peer phase controller) (haccepts : Accepts party peer)
    (hle : clock.received ≤ clock.checked) (hphase : phase ≠ 0)
    (hown : ∀ payload ∈ party.payloads peer, ∃ head binSig,
      Carries codec party payload head binSig)
    (hpeer : ∀ payload ∈ peer.payloads party, ∃ head binSig,
      Carries codec peer payload head binSig)
    (hnext : (peer.script codec party)[phase - 1]? = some binMsg) :
    ∃ controller', InPhase party peer (phase + 1) controller' ∧
      Reacts codec controller (.onMessage (.bin binMsg)) clock controller'
        (party.script codec peer)[phase]?.toList := by
  match phase, hnext with
  | 0, _ => exact absurd rfl hphase
  | 1, hnext =>
      obtain rfl := Option.some.inj hnext
      exact h.reacts_connect haccepts hle (hpeer _ List.mem_cons_self)
        (hown _ (List.mem_cons_of_mem _ List.mem_cons_self))
  | 2, hnext =>
      obtain rfl := Option.some.inj hnext
      exact h.reacts_ack hle (hpeer _ (List.mem_cons_of_mem _ List.mem_cons_self))
        (hown _ (List.mem_cons_of_mem _ (List.mem_cons_of_mem _ List.mem_cons_self)))
  | 3, hnext =>
      obtain rfl := Option.some.inj hnext
      exact h.reacts_ok hle
        (hpeer _ (List.mem_cons_of_mem _ (List.mem_cons_of_mem _ List.mem_cons_self)))
  | phase + 4, hnext => cases hnext

/-! ## Runs of the net -/

/-- The controllers of the net are in phases, and what is in flight is what they have sent and not
received in these. -/
structure Progresses (codec : Codec) (party : Side → Party) (phase : Side → Nat) (net : Net) :
    Prop where
  le : ∀ side, phase side ≤ 4
  inPhase : ∀ side,
    InPhase (party side) (party side.other) (phase side) (net.controller side)
  opened : ∀ side, net.opened side = true ↔ phase side ≠ 0
  inFlight : ∀ side, net.inFlight side =
    inTransit ((party side.other).script codec (party side)) (min (phase side.other) 3)
      (phase side - 1)
  received : ∀ side, phase side - 1 ≤ min (phase side.other) 3

variable {party : Side → Party} {phase : Side → Nat} {net net' : Net} {side : Side}

theorem Honest.accepts (h : Honest codec party) (side : Side) :
    Accepts (party side) (party side.other) where
  expects hne := by
    cases side with
    | outgoing => exact h.expects
    | incoming => exact absurd h.incoming hne
  compatible := h.compatible side

theorem progresses_new (codec : Codec) (party : Side → Party) :
    Progresses codec party (fun _ => 0) (Net.new party) where
  le _ := Nat.zero_le 4
  inPhase side := inPhase_zero (party side) (party side.other)
  opened side := by simp [Net.new]
  inFlight side := by simp [Net.new]
  received _ := Nat.zero_le _

/-- What a reaction changes in the net. -/
theorem Net.react_of_reacts (net : Net) {event : WebsocketIncomingEvent} {clock : MessageClock}
    {controller' : WS2PController} {sent : List (List UInt8)}
    (h : Reacts codec (net.controller side) event clock controller' sent) :
    net.react codec side event clock = .ok
      { net with
        controller := Function.update net.controller side controller'
        inFlight := Function.update net.inFlight side.other (net.inFlight side.other ++ sent) } := by
  rcases h with ⟨result, hprocess, hexec, rfl⟩
  rw [Net.react, hprocess, ok_bind]
  simp only [hexec, ok_bind]
  rfl

/-- A controller of which the phase grows while its peer stays as it is. -/
theorem Progresses.advance (h : Progresses codec party phase net) (side : Side)
    {controller' : WS2PController} {opened : Side → Bool} {inFlight : List (List UInt8)}
    (hle : phase side + 1 ≤ 4)
    (hphase : InPhase (party side) (party side.other) (phase side + 1) controller')
    (hopened : opened side = true) (hopened' : opened side.other = net.opened side.other)
    (hreceived : phase side ≤ min (phase side.other) 3)
    (hinFlight : inFlight = inTransit ((party side.other).script codec (party side))
      (min (phase side.other) 3) (phase side)) :
    Progresses codec party (Function.update phase side (phase side + 1))
      { controller := Function.update net.controller side controller'
        opened
        inFlight := Function.update (Function.update net.inFlight side inFlight) side.other
          (net.inFlight side.other ++
            ((party side).script codec (party side.other))[phase side]?.toList) } := by
  have hself : Function.update phase side (phase side + 1) side = phase side + 1 :=
    Function.update_self _ _ _
  have hother : Function.update phase side (phase side + 1) side.other = phase side.other :=
    Function.update_of_ne side.other_ne _ _
  have hreceivedOther := h.received side.other
  rw [Side.other_other] at hreceivedOther
  constructor
  case le =>
    intro side'
    rcases Side.eq_or_eq_other side side' with rfl | rfl
    · rwa [hself]
    · rw [hother]
      exact h.le _
  case inPhase =>
    intro side'
    rcases Side.eq_or_eq_other side side' with rfl | rfl
    · simp only [hself, Function.update_self]
      exact hphase
    · simp only [hother, Function.update_of_ne side.other_ne]
      exact h.inPhase _
  case opened =>
    intro side'
    rcases Side.eq_or_eq_other side side' with rfl | rfl
    · rw [hself]
      exact iff_of_true hopened (Nat.succ_ne_zero _)
    · simp only [hother, hopened']
      exact h.opened _
  case inFlight =>
    intro side'
    rcases Side.eq_or_eq_other side side' with rfl | rfl
    · simp only [hself, hother]
      rw [Function.update_of_ne side'.ne_other, Function.update_self]
      exact hinFlight
    · simp only [Side.other_other, hself, hother, Function.update_self]
      rw [h.inFlight side.other, Side.other_other]
      have hlength : ((party side).script codec (party side.other)).length = 3 := rfl
      by_cases hlast : phase side = 3
      · rw [hlast, List.getElem?_eq_none (Nat.le_of_eq hlength), Option.toList_none,
          List.append_nil]
        rfl
      · have hlt : phase side < ((party side).script codec (party side.other)).length := by omega
        have hsent : min (phase side + 1) 3 = min (phase side) 3 + 1 := by omega
        have hmin : min (phase side) 3 = phase side := by omega
        rw [hsent, hmin, List.getElem?_eq_getElem hlt, Option.toList_some]
        rw [hmin] at hreceivedOther
        exact (inTransit_send hreceivedOther (List.getElem?_eq_getElem hlt)).symm
  case received =>
    intro side'
    rcases Side.eq_or_eq_other side side' with rfl | rfl
    · rw [hself, hother]
      exact hreceived
    · rw [Side.other_other, hself, hother]
      omega

/-- The clock does not go back while a message is processed. -/
def NetEvent.Forward : NetEvent → Prop
  | .opens _ => True
  | .delivers _ clock => clock.received ≤ clock.checked

/-- Every event that can happen is processed, and takes one controller to its next phase. -/
theorem Progresses.step (hhonest : Honest codec party) (h : Progresses codec party phase net)
    {event : NetEvent} (hevent : net.Enabled event) (hforward : event.Forward) :
    ∃ phase' net', net.step codec event = .ok net' ∧ Progresses codec party phase' net' := by
  cases event with
  | opens side =>
      have hzero : phase side = 0 := by
        have hnot : ¬ net.opened side = true := by
          rw [Bool.not_eq_true]
          exact hevent
        rw [h.opened side, not_not] at hnot
        exact hnot
      have hphase := h.inPhase side
      rw [hzero] at hphase
      rcases hphase.reacts_onOpen ⟨0, 0, 0⟩ none (hhonest.carries side _ List.mem_cons_self) with
        ⟨controller', hphase', hreacts⟩
      have hsame : Function.update net.inFlight side (net.inFlight side) = net.inFlight :=
        Function.update_eq_self side net.inFlight
      have hsucc : InPhase (party side) (party side.other) (phase side + 1) controller' := by
        rw [hzero]
        exact hphase'
      have hinFlight : net.inFlight side = inTransit
          ((party side.other).script codec (party side)) (min (phase side.other) 3)
          (phase side) := by
        rw [h.inFlight side, hzero]
      have hnext := h.advance side (by omega) hsucc (Function.update_self side true net.opened)
        (Function.update_of_ne side.other_ne _ _) (by omega) hinFlight
      refine ⟨_, _, ?_, hnext⟩
      rw [Net.step, Net.react_of_reacts
        { net with opened := Function.update net.opened side true } hreacts, hsame, hzero]
      rfl
  | delivers side clock =>
      rcases hevent with ⟨hopened, hne⟩
      rcases List.exists_cons_of_ne_nil hne with ⟨binMsg, rest, hcons⟩
      rcases inTransit_receive ((h.inFlight side).symm.trans hcons) with ⟨hlt, hmsg, hrest⟩
      have hpos : phase side ≠ 0 := (h.opened side).1 hopened
      have hsucc : phase side - 1 + 1 = phase side := Nat.sub_add_cancel (Nat.pos_of_ne_zero hpos)
      rw [hsucc] at hrest
      have hcarries := hhonest.carries side.other
      rw [Side.other_other] at hcarries
      rcases (h.inPhase side).reacts_message (hhonest.accepts side) hforward hpos
          (hhonest.carries side) hcarries hmsg with ⟨controller', hphase', hreacts⟩
      have hnext := h.advance side (by omega) hphase' hopened rfl (by omega) hrest
      have hother : Function.update net.inFlight side rest side.other = net.inFlight side.other :=
        Function.update_of_ne side.other_ne _ _
      refine ⟨_, _, ?_, hnext⟩
      rw [Net.step, hcons]
      simp only
      rw [Net.react_of_reacts
        { net with inFlight := Function.update net.inFlight side rest } hreacts]
      simp only [hother]

/-- The clock did not go back in a step taken. -/
theorem forward_of_step {event : NetEvent} (hevent : net.Enabled event)
    (h : net.step codec event = .ok net') : event.Forward := by
  cases event with
  | opens side => trivial
  | delivers side clock =>
      rcases List.exists_cons_of_ne_nil hevent.2 with ⟨binMsg, rest, hcons⟩
      rw [Net.step, hcons] at h
      simp only at h
      rw [Net.react, bind_eq_ok_iff] at h
      rcases h with ⟨result, hprocess, -⟩
      exact le_of_process hprocess

/-- The states of a controller whose negotiation goes on or is over with success. -/
def WS2PConnectionState.negotiates (state : WS2PConnectionState) : Bool :=
  state ∈ [.tryToOpenWS, .waitingConnectMsg, .connectMessOk, .ackMsgOk, .established]

theorem negotiates_phaseState (phase : Nat) : (phaseState phase).negotiates = true := by
  match phase with
  | 0 | 1 | 2 | 3 => rfl
  | phase + 4 => rfl

/-- When a connection has been opened and nothing is in flight, both controllers have come to the
last phase. -/
theorem Progresses.phase_eq (h : Progresses codec party phase net)
    (hopened : ∃ side, net.opened side = true) (hflight : ∀ side, net.inFlight side = [])
    (side : Side) : phase side = 4 := by
  have hreceived : ∀ side, min (phase side.other) 3 ≤ phase side - 1 := by
    intro side
    have hlength : ((party side.other).script codec (party side)).length = 3 := rfl
    have hsent : min (phase side.other) 3 ≤
        ((party side.other).script codec (party side)).length := by
      rw [hlength]
      exact Nat.min_le_right _ _
    exact (inTransit_eq_nil_iff hsent).1 ((h.inFlight side).symm.trans (hflight side))
  have hboth : ∀ side, phase side ≠ 0 → phase side = 4 ∧ phase side.other = 4 := by
    intro side hpos
    have hside := hreceived side
    have hother := hreceived side.other
    rw [Side.other_other] at hother
    have hle := h.le side
    have hle' := h.le side.other
    omega
  rcases hopened with ⟨first, hfirst⟩
  rcases hboth first ((h.opened first).1 hfirst) with ⟨hphase, hphase'⟩
  rcases Side.eq_or_eq_other first side with rfl | rfl
  · exact hphase
  · exact hphase'

/-- Two honest nodes agree: whatever the order of the openings and of the deliveries, no controller
denies or closes the connection, every message that can be delivered is processed, and once nothing
is in flight both connections are established, each with the other node. -/
theorem honestAgreement {codec : Codec} {party : Side → Party} (hhonest : Honest codec party)
    {net : Net} (hreached : Reached (Net.new party) (Net.step codec) Net.Enabled net) :
    (∀ side, (net.controller side).metaDatas.state.negotiates = true) ∧
    (∀ event, net.Enabled event → event.Forward → Returns (net.step codec event)) ∧
    ((∃ side, net.opened side = true) → (∀ side, net.inFlight side = []) → ∀ side,
      (net.controller side).metaDatas.state = .established ∧
        (net.controller side).remoteFullId? = some (party side.other).fullId) := by
  have hprogresses : ∃ phase, Progresses codec party phase net := by
    apply hreached.invariant
    · exact ⟨_, progresses_new codec party⟩
    · rintro net event net' ⟨phase, hinv⟩ hevent hrun
      rcases hinv.step hhonest hevent (forward_of_step hevent hrun) with ⟨phase', net'', hstep, h⟩
      obtain rfl := Except.ok.inj (hrun.symm.trans hstep)
      exact ⟨phase', h⟩
  rcases hprogresses with ⟨phase, h⟩
  refine ⟨?_, ?_, ?_⟩
  · intro side
    rw [(h.inPhase side).state]
    exact negotiates_phaseState _
  · intro event hevent hforward
    rcases h.step hhonest hevent hforward with ⟨phase', net', hstep, -⟩
    exact ⟨net', hstep⟩
  · intro hopened hflight side
    have hphase := h.inPhase side
    rw [h.phase_eq hopened hflight side] at hphase
    exact ⟨hphase.state, hphase.remote (by decide)⟩

/-- Node 1, which connects to node 2, and node 2. -/
def toyParty : Side → Party
  | .outgoing =>
      { id := .outgoing (some (toyNode 2)), challenge := 9, connectType := .outgoingServer
        currency := "g1"
        localNode := { myNodeId := 1, myKeyPair := .ed25519 ⟨0, ⟨1⟩⟩, myFeatures := ⟨[5]⟩ }
        creationTime := 0, lastMessTime := 0, keyPair := ⟨0, ⟨1⟩⟩, hasKey := rfl }
  | .incoming =>
      { id := .incoming, challenge := 3, connectType := .incoming, currency := "g1"
        localNode := { myNodeId := 2, myKeyPair := .ed25519 ⟨0, ⟨2⟩⟩, myFeatures := ⟨[5]⟩ }
        creationTime := 0, lastMessTime := 0, keyPair := ⟨0, ⟨2⟩⟩, hasKey := rfl }

theorem honest_toyParty : Honest toyCodec toyParty where
  expects := rfl
  outgoing := by decide
  incoming := rfl
  compatible side := by cases side <;> exact ⟨_, rfl⟩
  carries side payload hmem := by
    cases side with
    | outgoing =>
        rcases List.mem_cons.1 hmem with rfl | hmem
        · exact ⟨[0, 9, 1], _, rfl, rfl, rfl, rfl, rfl⟩
        · rcases List.mem_cons.1 hmem with rfl | hmem
          · exact ⟨[1, 3, 1], _, rfl, rfl, rfl, rfl, rfl⟩
          · obtain rfl := List.mem_singleton.1 hmem
            exact ⟨[3, 0, 1], _, rfl, rfl, rfl, rfl, rfl⟩
    | incoming =>
        rcases List.mem_cons.1 hmem with rfl | hmem
        · exact ⟨[0, 3, 2], _, rfl, rfl, rfl, rfl, rfl⟩
        · rcases List.mem_cons.1 hmem with rfl | hmem
          · exact ⟨[1, 9, 2], _, rfl, rfl, rfl, rfl, rfl⟩
          · obtain rfl := List.mem_singleton.1 hmem
            exact ⟨[3, 0, 2], _, rfl, rfl, rfl, rfl, rfl⟩

/-- Node 1 sends its CONNECT message before node 2 has opened the connection. -/
def toyHandshake : List NetEvent :=
  [.opens .outgoing, .opens .incoming, .delivers .incoming ⟨1, 1, 1⟩,
    .delivers .outgoing ⟨1, 1, 1⟩, .delivers .outgoing ⟨1, 1, 1⟩, .delivers .incoming ⟨1, 1, 1⟩,
    .delivers .incoming ⟨1, 1, 1⟩, .delivers .outgoing ⟨1, 1, 1⟩]

theorem honestAgreement_toyHandshake :
    ∃ net, toyHandshake.foldlM (Net.step toyCodec) (Net.new toyParty) = .ok net ∧ ∀ side,
      (net.controller side).metaDatas.state = .established ∧
        (net.controller side).remoteFullId? = some (toyParty side.other).fullId := by
  have hsome : ∃ net ∈ guardedRun (Net.step toyCodec) Net.Enabled toyHandshake (Net.new toyParty),
      net.opened .outgoing = true ∧ net.inFlight .outgoing = [] ∧ net.inFlight .incoming = [] := by
    decide
  rcases hsome with ⟨net, hrun, hopened, houtgoing, hincoming⟩
  refine ⟨net, foldlM_of_guardedRun hrun, ?_⟩
  apply (honestAgreement honest_toyParty (.of_guardedRun .init hrun)).2.2 ⟨.outgoing, hopened⟩
  intro side
  cases side with
  | outgoing => exact houtgoing
  | incoming => exact hincoming

end Ws2p

end Durs
