/-
# What stops the process on a message

The bytes of a message are chosen by the peer.  The functions that read a message and answer it
abort on some of them: on a message of an old version, on a signature of the algorithm that is not
supported, on a hash in a message too short for it, on features without bytes, and in states where
what an earlier message should have recorded is missing.  On all others they return.
-/

import Durs.Ws2p.Authentication

namespace Durs

open RustStd Lib

namespace Ws2p

variable {codec : Codec} {controller : WS2PController}

/-! ## Reading a message -/

/-- The bytes that an optional signature takes in a message. -/
def sigSize (signature : Option Sig) : Nat := if signature.isSome then 69 else 1

/-- The hash of the message, if it has one, and its signature fit in its bytes, and the algorithm of
the signature is supported. -/
def Measurable (binMsg : List UInt8) (msg : WS2Pv2Message) : Prop :=
  msg.signature ≠ some .schnorr ∧
    (msg.messageHash.isSome → 33 + sigSize msg.signature ≤ binMsg.length)

/-- What the bytes hold, if it is a message at all, is one of version 2 that can be measured. -/
def Readable (codec : Codec) (binMsg : List UInt8) : Prop :=
  ∀ ws2pMsg ∈ codec.deserialize binMsg, ∃ msg, ws2pMsg = .v2 msg ∧ Measurable binMsg msg

/-- The hash of the message, if it has one, is that of its bytes. -/
def HashMatches (codec : Codec) (binMsg : List UInt8) (msg : WS2Pv2Message) : Prop :=
  ∀ hash ∈ msg.messageHash,
    codec.computeHash (binMsg.take (binMsg.length - 33 - sigSize msg.signature)) = hash

instance HashMatches.decidable (codec : Codec) (binMsg : List UInt8) (msg : WS2Pv2Message) :
    Decidable (HashMatches codec binMsg msg) :=
  inferInstanceAs (Decidable (∀ _ ∈ msg.messageHash, _))

/-- The bytes hold a message of version 2 with the right hash that its issuer signed. -/
def Holds (codec : Codec) (binMsg : List UInt8) (msg : WS2Pv2Message) : Prop :=
  codec.deserialize binMsg = some (.v2 msg) ∧ HashMatches codec binMsg msg ∧
    msg.verify codec = .ok ()

theorem sigLen_of_ne {signature : Option Sig} (h : signature ≠ some .schnorr) :
    sigLen signature = .ok (sigSize signature) := by
  match signature with
  | none => rfl
  | some (.ed25519 sig) => rfl
  | some .schnorr => exact absurd rfl h

/-- A message that can be measured is read. -/
theorem parseAndCheckBinMessage_of_measurable {binMsg : List UInt8} {msg : WS2Pv2Message}
    (hmsg : codec.deserialize binMsg = some (.v2 msg)) (hmeasurable : Measurable binMsg msg) :
    parseAndCheckBinMessage codec binMsg = .ok
      (if HashMatches codec binMsg msg then (msg.verify codec).map fun _ => .v2 msg
        else .error .invalidHash) := by
  have hhash : hashIsValid codec binMsg msg.messageHash (sigSize msg.signature) =
      .ok (decide (HashMatches codec binMsg msg)) := by
    cases hcase : msg.messageHash with
    | none => simp [hashIsValid, HashMatches, hcase, pure, Except.pure]
    | some hash =>
        have hle := hmeasurable.2 (by rw [hcase]; rfl)
        simp [hashIsValid, HashMatches, hcase, if_pos hle, pure, Except.pure]
  rw [parseAndCheckBinMessage, hmsg]
  simp only [sigLen_of_ne hmeasurable.1, ok_bind, hhash, decide_eq_true_eq]
  split
  case isTrue =>
    cases msg.verify codec with
    | error err => rfl
    | ok => rfl
  case isFalse => rfl

/-- A message that cannot be measured stops the process. -/
theorem measurable_of_returns {binMsg : List UInt8} {msg : WS2Pv2Message}
    (hmsg : codec.deserialize binMsg = some (.v2 msg))
    (h : Returns (parseAndCheckBinMessage codec binMsg)) : Measurable binMsg msg := by
  rw [parseAndCheckBinMessage, hmsg] at h
  simp only [returns_bind_iff] at h
  rcases h with ⟨len, hlen, valid, hvalid, -⟩
  have hne : msg.signature ≠ some .schnorr := by
    intro hschnorr
    rw [hschnorr] at hlen
    cases hlen
  obtain rfl := Except.ok.inj ((sigLen_of_ne hne).symm.trans hlen)
  refine ⟨hne, fun hsome => ?_⟩
  rcases Option.isSome_iff_exists.1 hsome with ⟨hash, hhash⟩
  rw [hhash, hashIsValid] at hvalid
  split at hvalid
  case isTrue hle => exact hle
  case isFalse => cases hvalid

/-- Reading a message returns exactly on the readable ones. -/
theorem returns_parseAndCheckBinMessage_iff {binMsg : List UInt8} :
    Returns (parseAndCheckBinMessage codec binMsg) ↔ Readable codec binMsg := by
  constructor
  · intro h ws2pMsg hmem
    match ws2pMsg, hmem with
    | .v2 msg, hmem => exact ⟨msg, rfl, measurable_of_returns hmem h⟩
    | .v0, hmem =>
        rw [parseAndCheckBinMessage, Option.mem_def.1 hmem] at h
        exact absurd h (not_returns_fatalError _)
    | .v1, hmem =>
        rw [parseAndCheckBinMessage, Option.mem_def.1 hmem] at h
        exact absurd h (not_returns_fatalError _)
  · intro h
    cases hmsg : codec.deserialize binMsg with
    | none =>
        rw [parseAndCheckBinMessage, hmsg]
        exact returns_pure _
    | some ws2pMsg =>
        rcases h ws2pMsg hmsg with ⟨msg, rfl, hmeasurable⟩
        exact ⟨_, parseAndCheckBinMessage_of_measurable hmsg hmeasurable⟩

/-- The messages accepted are those that hold one. -/
theorem parseAndCheckBinMessage_eq_ok_ok_iff {binMsg : List UInt8} {ws2pMsg : WS2PMessage}
    (hreadable : Readable codec binMsg) :
    parseAndCheckBinMessage codec binMsg = .ok (.ok ws2pMsg) ↔
      ∃ msg, ws2pMsg = .v2 msg ∧ Holds codec binMsg msg := by
  cases hmsg : codec.deserialize binMsg with
  | none =>
      rw [parseAndCheckBinMessage, hmsg]
      simp [Holds, hmsg]
  | some read =>
      rcases hreadable read hmsg with ⟨msg, rfl, hmeasurable⟩
      rw [parseAndCheckBinMessage_of_measurable hmsg hmeasurable, Except.ok.injEq]
      constructor
      · intro h
        split at h
        case isTrue hhash =>
          cases hverify : msg.verify codec with
          | error err =>
              rw [hverify] at h
              cases h
          | ok =>
              rw [hverify] at h
              exact ⟨msg, (Except.ok.inj h).symm, hmsg, hhash, hverify⟩
        case isFalse => cases h
      · rintro ⟨msg', rfl, hmsg', hhash, hverify⟩
        rw [hmsg] at hmsg'
        cases hmsg'
        rw [if_pos hhash, hverify]
        rfl

/-! ## Answering a message -/

/-- The message that encapsulates a payload, before it is signed. -/
def WS2PController.unsigned (controller : WS2PController) (keyPair : KeyPair)
    (payload : WS2Pv2MessagePayload) : WS2Pv2Message :=
  { currencyName := controller.metaDatas.currency
    issuerNodeId := controller.metaDatas.localNode.myNodeId
    issuerPubkey := .ed25519 keyPair.pubkey
    payload, messageHash := none, signature := none }

/-- The local node can sign and write a payload: its key has the algorithm that is supported, and
`bincode` writes the message and the signature. -/
def Signs (codec : Codec) (controller : WS2PController) (payload : WS2Pv2MessagePayload) : Prop :=
  ∃ keyPair, controller.metaDatas.localNode.myKeyPair = .ed25519 keyPair ∧
    ∃ binMsg ∈ codec.serialize (.v2 (controller.unsigned keyPair payload)),
      (codec.serializeSig (some (.ed25519 (codec.sign keyPair binMsg.dropLast)))).isSome

/-- The message of a node that the controller, an outgoing one, did not expect. -/
def Unexpected (controller : WS2PController) (remoteFullId : NodeFullId) : Prop :=
  controller.metaDatas.state = .waitingConnectMsg ∧ controller.metaDatas.connectType ≠ .incoming ∧
    ∃ expectedFullId ∈ controller.id.expectedRemoteFullId, remoteFullId ≠ expectedFullId

/-- A CONNECT message can be processed: an outgoing controller that waits for it knows which node it
expects, and, unless the message is refused for its issuer, both sides have bytes of features and
the ACK message can be signed. -/
def ConnectProcessable (codec : Codec) (controller : WS2PController) (remoteFullId : NodeFullId)
    (connectMsg : WS2Pv2ConnectMsg) : Prop :=
  (controller.metaDatas.state = .waitingConnectMsg → controller.metaDatas.connectType ≠ .incoming →
    controller.id.expectedRemoteFullId.isSome) ∧
  (¬ Unexpected controller remoteFullId →
    controller.metaDatas.localNode.myFeatures.bytes ≠ [] ∧ connectMsg.apiFeatures.bytes ≠ [] ∧
      Signs codec controller (.ack connectMsg.challenge))

/-- A valid message can be processed in the state of the controller. -/
def Processable (codec : Codec) (controller : WS2PController) (msg : WS2Pv2Message) : Prop :=
  match msg.payload with
  | .connect connectMsg => ConnectProcessable codec controller msg.issuer connectMsg
  | .ack challenge =>
      (controller.metaDatas.state = .okMsgOkWaitingAckMsg ∨
        controller.metaDatas.state = .connectMessOk) →
      controller.metaDatas.challenge = challenge → Signs codec controller (.ok default)
  | .ok _ =>
      (controller.metaDatas.state = .ackMsgOk ∨ controller.metaDatas.state = .secretFlagsOk) →
      (controller.metaDatas.connectType = .incoming →
        controller.metaDatas.remoteConnectType.isSome) ∧
      controller.metaDatas.remoteNode.isSome
  | _ => True

/-- Sending a payload returns exactly when the local node can sign it. -/
theorem returns_sendPayload_iff {payload : WS2Pv2MessagePayload} {success : WS2PConnectionState}
    {failure : String} :
    Returns (sendPayload codec controller payload success failure) ↔
      Signs codec controller payload := by
  have hsend : Returns (sendPayload codec controller payload success failure) ↔
      ∃ binMsg, WS2Pv2Message.encapsulatePayload codec controller.metaDatas.currency
        controller.metaDatas.localNode.myNodeId controller.metaDatas.localNode.myKeyPair payload =
          .ok (some binMsg) := by
    rw [sendPayload, returns_bind_iff]
    constructor
    · rintro ⟨binMsg?, hbin, h⟩
      cases binMsg? with
      | none => exact absurd h (not_returns_fatalError _)
      | some binMsg => exact ⟨binMsg, hbin⟩
    · rintro ⟨binMsg, hbin⟩
      exact ⟨some binMsg, hbin, returns_pure _⟩
  rw [hsend]
  cases hkey : controller.metaDatas.localNode.myKeyPair with
  | schnorr => simp [WS2Pv2Message.encapsulatePayload, Signs, hkey]
  | ed25519 keyPair =>
      rw [WS2Pv2Message.encapsulatePayload, WS2Pv2Message.sign]
      simp only [Signs, hkey, KeyPairEnum.ed25519.injEq, exists_eq_left']
      cases hserialize : codec.serialize (.v2 (controller.unsigned keyPair payload)) with
      | none =>
          rw [WS2PController.unsigned] at hserialize
          simp [hserialize, pure, Except.pure]
      | some binMsg =>
          rw [WS2PController.unsigned] at hserialize
          simp only [Option.isSome_none, Bool.false_eq_true, if_false, hserialize, bind_eq_ok_iff,
            expect_eq_ok_iff, Option.mem_def, Option.some.injEq, exists_eq_left',
            Option.isSome_iff_exists]
          constructor
          · rintro ⟨_, binSig, hsig, -⟩
            exact ⟨binSig, hsig⟩
          · rintro ⟨binSig, hsig⟩
            exact ⟨_, binSig, hsig, rfl⟩

theorem returns_firstFlags_iff {flags : List UInt8} :
    Returns (firstFlags flags) ↔ flags ≠ [] := by
  cases flags with
  | nil => simp [firstFlags]
  | cons flag flags => simp [firstFlags]

theorem returns_dropUnsupported {check : WS2PFeatures → Run Bool} {mask : UInt8}
    {local' remote : WS2PFeatures} (hlocal : Returns (check local'))
    (hremote : Returns (check remote)) (merged : WS2PFeatures) :
    Returns (WS2PFeatures.dropUnsupported check mask local' remote merged) := by
  rcases hlocal with ⟨inLocal, hlocal⟩
  rcases hremote with ⟨inRemote, hremote⟩
  rw [WS2PFeatures.dropUnsupported, hlocal, ok_bind, hremote]
  cases inLocal with
  | false => exact returns_pure _
  | true => cases inRemote <;> exact returns_pure _

/-- Comparing features returns exactly when both sides have bytes of features. -/
theorem returns_checkFeaturesCompatibility_iff {local' remote : WS2PFeatures} :
    Returns (local'.checkFeaturesCompatibility remote) ↔ local'.bytes ≠ [] ∧ remote.bytes ≠ [] := by
  constructor
  · intro h
    rw [WS2PFeatures.checkFeaturesCompatibility] at h
    rcases returns_bind_iff.1 h with ⟨merged, hmerged, h⟩
    rw [WS2PFeatures.dropUnsupported, bind_eq_ok_iff] at hmerged
    rcases hmerged with ⟨hasDef, hdef, -⟩
    rcases bind_eq_ok_iff.1 hdef with ⟨flags, hflags, -⟩
    refine ⟨returns_firstFlags_iff.1 ⟨flags, hflags⟩, ?_⟩
    simp only [returns_bind_iff] at h
    rcases h with ⟨_, -, _, -, isLow, hlow, -⟩
    rcases bind_eq_ok_iff.1 hlow with ⟨flags', hflags', -⟩
    exact returns_firstFlags_iff.1 ⟨flags', hflags'⟩
  · rintro ⟨hlocal, hremote⟩
    have hflag : ∀ features : WS2PFeatures, features.bytes ≠ [] →
        Returns features.def' ∧ Returns features.low ∧ Returns features.abf := by
      intro features hne
      rcases returns_firstFlags_iff.2 hne with ⟨flags, hflags⟩
      rw [WS2PFeatures.def', WS2PFeatures.low, WS2PFeatures.abf, hflags]
      exact ⟨returns_pure _, returns_pure _, returns_pure _⟩
    rcases hflag local' hlocal with ⟨hdef, hlow, habf⟩
    rcases hflag remote hremote with ⟨hdef', hlow', habf'⟩
    rw [WS2PFeatures.checkFeaturesCompatibility]
    rcases returns_dropUnsupported hdef hdef' local' with ⟨merged, hmerged⟩
    rw [hmerged, ok_bind]
    rcases returns_dropUnsupported hlow hlow' merged with ⟨merged, hmerged⟩
    rw [hmerged, ok_bind]
    rcases returns_dropUnsupported habf habf' merged with ⟨merged, hmerged⟩
    rcases hlow with ⟨isLow, hlow⟩
    rcases hlow' with ⟨isLow', hlow'⟩
    rw [hmerged, ok_bind, hlow', ok_bind, hlow]
    cases isLow' with
    | false => exact returns_pure _
    | true => cases isLow <;> exact returns_pure _

/-- The part common to the branches of a CONNECT message returns exactly when both sides have bytes
of features and the ACK message can be signed. -/
theorem returns_mergeFeaturesAndAck_iff {connectMsg : WS2Pv2ConnectMsg} :
    Returns (mergeFeaturesAndAck codec controller connectMsg) ↔
      controller.metaDatas.localNode.myFeatures.bytes ≠ [] ∧ connectMsg.apiFeatures.bytes ≠ [] ∧
        Signs codec controller (.ack connectMsg.challenge) := by
  rw [mergeFeaturesAndAck, returns_bind_iff, ← and_assoc, ← returns_checkFeaturesCompatibility_iff]
  constructor
  · rintro ⟨merged, hmerged, h⟩
    refine ⟨⟨merged, hmerged⟩, ?_⟩
    cases merged with
    | error err => exact returns_sendPayload_iff.1 h
    | ok merged =>
        have hsigns : Signs codec
            (controller.modifyMetaDatas fun m => { m with features := some merged })
            (.ack connectMsg.challenge) := returns_sendPayload_iff.1 h
        exact hsigns
  · rintro ⟨⟨merged, hmerged⟩, hsigns⟩
    refine ⟨merged, hmerged, ?_⟩
    cases merged with
    | error err => exact returns_sendPayload_iff.2 hsigns
    | ok merged =>
        have hsigns' : Signs codec
            (controller.modifyMetaDatas fun m => { m with features := some merged })
            (.ack connectMsg.challenge) := hsigns
        exact returns_sendPayload_iff.2 hsigns'

/-- The flags of a CONNECT message are read without reading a byte that is not there. -/
theorem returns_fromFlags (flags : WS2PConnectFlags) (blockstamp : Option Blockstamp) :
    Returns (WS2Pv2ConnectType.fromFlags flags blockstamp) := by
  rw [WS2Pv2ConnectType.fromFlags]
  split
  case isTrue => exact returns_pure _
  case isFalse hset =>
    have hfirst : flags.bytes ≠ [] := by
      intro hnil
      rw [WS2PConnectFlags.isEmpty, hnil] at hset
      exact hset rfl
    rcases returns_firstFlags_iff.2 hfirst with ⟨first, hfirst⟩
    have hsync : Returns flags.sync := by
      rw [WS2PConnectFlags.sync, hfirst]
      exact returns_pure _
    have hask : Returns flags.askSyncChunk := by
      rw [WS2PConnectFlags.askSyncChunk, hfirst]
      exact returns_pure _
    have hres : Returns flags.resSyncChunk := by
      rw [WS2PConnectFlags.resSyncChunk, hfirst]
      exact returns_pure _
    rcases hsync with ⟨sync, hsync⟩
    rcases hask with ⟨ask, hask⟩
    rcases hres with ⟨res, hres⟩
    rw [hsync, ok_bind]
    cases sync with
    | false => exact returns_pure _
    | true =>
        rw [if_pos rfl, hask, ok_bind]
        split
        case h_1 => exact returns_pure _
        case h_2 =>
          rw [hres, ok_bind]
          cases res <;> exact returns_pure _

/-- A CONNECT message is processed exactly when it can be. -/
theorem returns_processConnectMsg_iff {remoteFullId : NodeFullId} {connectMsg : WS2Pv2ConnectMsg} :
    Returns (processConnectMsg codec controller remoteFullId connectMsg) ↔
      ConnectProcessable codec controller remoteFullId connectMsg := by
  rw [processConnectMsg, ConnectProcessable]
  split
  case isTrue hstate =>
    split
    case isTrue hincoming =>
      have hexpected : ¬ Unexpected controller remoteFullId := fun h => h.2.1 hincoming
      rcases returns_fromFlags connectMsg.flagsQueries connectMsg.chunkstamp with ⟨connType, hconn⟩
      rw [hconn, ok_bind, returns_mergeFeaturesAndAck_iff]
      constructor
      · intro h
        exact ⟨fun _ hne => absurd hincoming hne, fun _ => h⟩
      · rintro ⟨-, h⟩
        exact h hexpected
    case isFalse houtgoing =>
      cases hid : controller.id.expectedRemoteFullId with
      | none =>
          constructor
          · intro h
            rcases returns_bind_iff.1 h with ⟨_, hnone, -⟩
            cases hnone
          · rintro ⟨h, -⟩
            cases h hstate houtgoing
      | some expectedFullId =>
          rw [expect_some, ok_bind]
          split
          case isTrue heq =>
            have hexpected : ¬ Unexpected controller remoteFullId := by
              rintro ⟨-, -, expected, hmem, hne⟩
              rw [hid, Option.mem_def, Option.some.injEq] at hmem
              exact hne (heq.trans hmem)
            rw [returns_mergeFeaturesAndAck_iff]
            constructor
            · intro h
              exact ⟨fun _ _ => rfl, fun _ => h⟩
            · rintro ⟨-, h⟩
              exact h hexpected
          case isFalse hne =>
            have hunexpected : Unexpected controller remoteFullId :=
              ⟨hstate, houtgoing, expectedFullId, hid, hne⟩
            constructor
            · intro _
              exact ⟨fun _ _ => rfl, fun h => absurd hunexpected h⟩
            · intro _
              exact returns_pure _
  case isFalse hstate =>
    have hexpected : ¬ Unexpected controller remoteFullId := fun h => hstate h.1
    rw [returns_mergeFeaturesAndAck_iff]
    constructor
    · intro h
      exact ⟨fun h' => absurd h' hstate, fun _ => h⟩
    · rintro ⟨-, h⟩
      exact h hexpected

theorem returns_checkChallenge_iff {challenge : Hash} {success : WS2PConnectionState} :
    Returns (checkChallenge codec controller challenge success) ↔
      (controller.metaDatas.challenge = challenge → Signs codec controller (.ok default)) := by
  rw [checkChallenge]
  split
  case isTrue hne =>
    constructor
    · intro _ heq
      exact absurd heq hne
    · intro _
      exact returns_pure _
  case isFalse heq =>
    rw [returns_sendPayload_iff]
    constructor
    · intro h _
      exact h
    · intro h
      exact h (not_not.1 heq)

/-- The type of the connection and the remote node are needed when an OK message ends the
negotiation. -/
theorem returns_processOkMsg_iff :
    Returns (processOkMsg controller) ↔
      ((controller.metaDatas.state = .ackMsgOk ∨ controller.metaDatas.state = .secretFlagsOk) →
        (controller.metaDatas.connectType = .incoming →
          controller.metaDatas.remoteConnectType.isSome) ∧
        controller.metaDatas.remoteNode.isSome) := by
  have hlast : Returns (establishedConnType controller.metaDatas) ↔
      (controller.metaDatas.connectType = .incoming →
        controller.metaDatas.remoteConnectType.isSome) := by
    rw [establishedConnType]
    split
    case isTrue hne =>
      constructor
      · intro _ hincoming
        exact absurd hincoming hne
      · intro _
        exact returns_pure _
    case isFalse heq =>
      rw [returns_expect_iff]
      constructor
      · intro h _
        exact h
      · intro h
        exact h (not_not.1 heq)
  have hend : Returns (do
      let connType ← establishedConnType controller.metaDatas
      let remoteNode ← expect controller.metaDatas.remoteNode
        "remote_node must be valued in process_ws2p_v2p_ok_msg() !"
      return thenNone ((controller.withState .established).sendEvent
        (.newConnEstablished connType remoteNode.remoteFullId)) : Run Answer) ↔
      (controller.metaDatas.connectType = .incoming →
        controller.metaDatas.remoteConnectType.isSome) ∧
      controller.metaDatas.remoteNode.isSome := by
    rw [← hlast, ← returns_expect_iff, returns_bind_iff]
    constructor
    · rintro ⟨connType, hconn, h⟩
      rcases returns_bind_iff.1 h with ⟨remoteNode, hremote, -⟩
      exact ⟨⟨connType, hconn⟩, remoteNode, hremote⟩
    · rintro ⟨⟨connType, hconn⟩, remoteNode, hremote⟩
      exact ⟨connType, hconn, returns_bind_iff.2 ⟨remoteNode, hremote, returns_pure _⟩⟩
  rw [processOkMsg]
  split
  case h_3 hstate => exact hend.trans ⟨fun h _ => h, fun h => h (.inl hstate)⟩
  case h_4 hstate => exact hend.trans ⟨fun h _ => h, fun h => h (.inr hstate)⟩
  case h_1 hstate => simp [hstate]
  case h_2 hstate => simp [hstate]
  case h_5 hack hsecret =>
    constructor
    · rintro _ (hstate | hstate)
      · exact absurd hstate hack
      · exact absurd hstate hsecret
    · intro _
      exact returns_pure _

/-- A valid message is processed exactly when it can be. -/
theorem returns_processValidMsg_iff {msg : WS2Pv2Message} :
    Returns (processValidMsg codec controller (.v2 msg)) ↔ Processable codec controller msg := by
  rw [processValidMsg, Processable]
  cases msg.payload with
  | connect connectMsg => exact returns_processConnectMsg_iff
  | ack challenge =>
      change Returns (processAckMsg codec controller challenge) ↔ _
      rw [processAckMsg]
      split
      case h_1 hstate =>
        exact returns_checkChallenge_iff.trans ⟨fun h _ => h, fun h => h (.inl hstate)⟩
      case h_2 hstate =>
        exact returns_checkChallenge_iff.trans ⟨fun h _ => h, fun h => h (.inr hstate)⟩
      case h_3 hok hconnect =>
        constructor
        · rintro _ (hstate | hstate)
          · exact absurd hstate hok
          · exact absurd hstate hconnect
        · intro _
          exact returns_pure _
  | secretFlags secretFlags => exact iff_of_true (returns_pure _) trivial
  | ok okMsg => exact returns_processOkMsg_iff
  | ko code => exact iff_of_true (returns_pure _) trivial
  | data kind content =>
      refine iff_of_true ?_ trivial
      simp only
      split <;> exact returns_pure _

/-- A message that is not a spam is processed exactly when it is readable and, if it is valid, can
be processed. -/
theorem returns_processMsg_iff {binMsg : List UInt8} :
    Returns (processMsg codec controller (.bin binMsg)) ↔
      Readable codec binMsg ∧
        ∀ msg, Holds codec binMsg msg → Processable codec controller msg := by
  rw [processMsg, returns_bind_iff]
  constructor
  · rintro ⟨parsed, hparsed, h⟩
    have hreadable := returns_parseAndCheckBinMessage_iff.1 ⟨parsed, hparsed⟩
    refine ⟨hreadable, fun msg hholds => ?_⟩
    have hvalid := (parseAndCheckBinMessage_eq_ok_ok_iff hreadable).2 ⟨msg, rfl, hholds⟩
    obtain rfl := Except.ok.inj (hparsed.symm.trans hvalid)
    exact returns_processValidMsg_iff.1 h
  · rintro ⟨hreadable, h⟩
    rcases returns_parseAndCheckBinMessage_iff.2 hreadable with ⟨parsed, hparsed⟩
    refine ⟨parsed, hparsed, ?_⟩
    cases parsed with
    | error err =>
        simp only
        split <;> exact returns_pure _
    | ok ws2pMsg =>
        rcases (parseAndCheckBinMessage_eq_ok_ok_iff hreadable).1 hparsed with ⟨msg, rfl, hholds⟩
        exact returns_processValidMsg_iff.2 (h msg hholds)

theorem Touched.processable_iff {controller' : WS2PController}
    (h : Touched controller controller') (msg : WS2Pv2Message) :
    Processable codec controller' msg ↔ Processable codec controller msg := by
  rcases h with ⟨_, _, _, _, rfl⟩
  exact Iff.rfl

/-- The message comes while the controller takes messages for spam. -/
def Spam (controller : WS2PController) (clock : MessageClock) : Prop :=
  6 ≤ (updateSpam controller.metaDatas (clock.checked - clock.received)).spamCounter

instance Spam.decidable (controller : WS2PController) (clock : MessageClock) :
    Decidable (Spam controller clock) :=
  inferInstanceAs (Decidable (_ ≤ _))

/-- A binary message can be received: the clock does not go back meanwhile, and, unless the message
is taken for spam, what it holds can be processed. -/
def Receivable (codec : Codec) (controller : WS2PController) (binMsg : List UInt8)
    (clock : MessageClock) : Prop :=
  Readable codec binMsg ∧ clock.received ≤ clock.checked ∧
    (¬ Spam controller clock →
      ∀ msg, Holds codec binMsg msg → Processable codec controller msg)

/-- The time since an earlier reading of the clock. -/
theorem durationSince_eq_ok_iff {now earlier : SystemTime} {elapsed : Nat} :
    durationSince now earlier = .ok elapsed ↔ earlier ≤ now ∧ elapsed = now - earlier := by
  rw [durationSince]
  split
  case isTrue hle =>
    constructor
    · intro h
      exact ⟨hle, (Except.ok.inj h).symm⟩
    · rintro ⟨-, rfl⟩
      rfl
  case isFalse hnot =>
    refine iff_of_false ?_ fun h => hnot h.1
    intro h
    cases h

/-- The spam counter does not depend on the time of the last message, only on what has elapsed. -/
theorem updateSpam_spamCounter (metaDatas : WS2PControllerMetaDatas) (received : SystemTime)
    (elapsed : Nat) :
    (updateSpam { metaDatas with lastMessTime := received } elapsed).spamCounter =
      (updateSpam metaDatas elapsed).spamCounter := by
  simp only [updateSpam]
  split
  case isTrue => split <;> rfl
  case isFalse => rfl

/-- A message is taken for spam, or looked at by a controller of which the clock and the counters
alone have changed. -/
theorem processOnMessage_cases {msg : WebsocketMessage} {clock : MessageClock} {result : Answer}
    (h : processOnMessage codec controller msg clock = .ok result) :
    ∃ controller', Touched controller controller' ∧
      (Spam controller clock ∧ result = answer controller' none ∨
        ¬ Spam controller clock ∧ processMsg codec controller' msg = .ok result) := by
  rw [processOnMessage, bind_eq_ok_iff] at h
  rcases h with ⟨elapsed, helapsed, h⟩
  obtain ⟨-, rfl⟩ := durationSince_eq_ok_iff.1 helapsed
  have htouched := touched_updateSpam controller clock.received (clock.checked - clock.received)
  have hspam := updateSpam_spamCounter controller.metaDatas clock.received
    (clock.checked - clock.received)
  simp only at h
  split at h
  case isTrue hge =>
    obtain rfl := Except.ok.inj h
    refine ⟨_, htouched.trans ⟨clock.slept, _, _, _, rfl⟩, .inl ⟨?_, rfl⟩⟩
    rw [Spam, ← hspam]
    exact hge
  case isFalse hlt =>
    refine ⟨_, htouched, .inr ⟨?_, h⟩⟩
    rw [Spam, ← hspam]
    exact hlt

/-- Processing a message that can be read returns exactly when it can be received. -/
theorem returns_processOnMessage_iff {binMsg : List UInt8} {clock : MessageClock}
    (hreadable : Readable codec binMsg) :
    Returns (processOnMessage codec controller (.bin binMsg) clock) ↔
      Receivable codec controller binMsg clock := by
  rw [processOnMessage, Receivable, and_iff_right hreadable, returns_bind_iff]
  have htouched := touched_updateSpam controller clock.received (clock.checked - clock.received)
  have hspam := updateSpam_spamCounter controller.metaDatas clock.received
    (clock.checked - clock.received)
  constructor
  · rintro ⟨elapsed, helapsed, h⟩
    obtain ⟨hle, rfl⟩ := durationSince_eq_ok_iff.1 helapsed
    refine ⟨hle, fun hnot msg hholds => ?_⟩
    have hlt : ¬ (updateSpam { controller.metaDatas with lastMessTime := clock.received }
        (clock.checked - clock.received)).spamCounter ≥ 6 := by
      rw [hspam]
      exact hnot
    change Returns (if _ ≥ 6 then _ else _) at h
    rw [WS2PController.modifyMetaDatas, WS2PController.modifyMetaDatas, if_neg hlt] at h
    exact (htouched.processable_iff msg).1 ((returns_processMsg_iff.1 h).2 msg hholds)
  · rintro ⟨hle, h⟩
    refine ⟨_, if_pos hle, ?_⟩
    simp only
    split
    case isTrue => exact returns_pure _
    case isFalse hlt =>
      refine returns_processMsg_iff.2 ⟨hreadable, fun msg hholds => ?_⟩
      refine (htouched.processable_iff msg).2 (h ?_ msg hholds)
      rw [Spam, ← hspam]
      exact hlt

/-! ## Runs of messages -/

/-- A message can be received in the state of the controller. -/
def ReceivedMessage.Receivable (codec : Codec) (controller : WS2PController)
    (received : ReceivedMessage) : Prop :=
  match received.msg with
  | .bin binMsg => Ws2p.Receivable codec controller binMsg received.clock
  | .str _ => received.clock.received ≤ received.clock.checked

/-- An order that does not ask for a new connection is executed. -/
theorem returns_execOrder {order : Option WebsocketActionOrder} {wsOk : Bool}
    (h : ∀ order' ∈ order, ∀ url, order'.wsAction ≠ .connectTo url) :
    Returns (execOrder controller order wsOk) := by
  cases order with
  | none => exact returns_pure _
  | some order =>
      rw [execOrder, execWsAction]
      split
      case h_1 url haction => exact absurd haction (h order rfl url)
      case h_2 =>
        split
        case isTrue => split <;> exact returns_pure _
        case isFalse => exact returns_pure _
      case h_3 =>
        split
        case isTrue => split <;> exact returns_pure _
        case isFalse => exact returns_pure _

/-- No message makes the controller ask for a new connection. -/
theorem wsAction_ne_connectTo {msg : WebsocketMessage} {result : Answer}
    (h : MessageStep codec controller msg result) :
    ∀ order ∈ orderOf result.2, ∀ url, order.wsAction ≠ .connectTo url := by
  have hthen : ∀ processed : Processed Unit, ∀ order ∈ orderOf (thenNone processed).2, ∀ url,
      order.wsAction ≠ .connectTo url := by
    rintro ⟨controller, _ | _⟩ order hmem url haction
    · cases hmem
      cases haction
    · cases hmem
  intro order hmem url haction
  cases h with
  | ignored controller' htouched => cases hmem
  | refused controller' reason htouched =>
      cases hmem
      cases haction
  | valid controller' validMsg result htouched hvalid hprocess =>
      cases processValidMsg_step hprocess with
      | refused reason =>
          cases hmem
          cases haction
      | connected connectMsg features remoteConnectType remoteNode binMsg hpayload hremote =>
          cases hmem
          cases haction
      | wrongChallenge => exact hthen _ order hmem url haction
      | acknowledged success binMsg hpayload hfrom =>
          cases hmem
          cases haction
      | okReceived hfrom => exact hthen _ order hmem url haction
      | secretFlagsFirst hfrom => exact hthen _ order hmem url haction
      | secretFlagsLast hfrom => exact hthen _ order hmem url haction
      | established connType remoteNode hpayload hfrom hconn hremote => exact hthen _ order hmem url haction
      | forwarded kind content hpayload hfrom => exact hthen _ order hmem url haction

/-- A message that can be received is handled. -/
theorem returns_messageStep {received : ReceivedMessage}
    (h : received.Receivable codec controller) : Returns (messageStep codec controller received) := by
  have hprocess : Returns (processOnMessage codec controller received.msg received.clock) := by
    rcases received with ⟨binMsg | strMsg, clock, wsOk⟩
    · exact (returns_processOnMessage_iff h.1).2 h
    · rw [processOnMessage, returns_bind_iff]
      refine ⟨_, if_pos h, ?_⟩
      simp only
      split <;> exact returns_pure _
  rcases hprocess with ⟨result, hprocess⟩
  rw [messageStep, handle, returns_bind_iff]
  exact ⟨result, hprocess,
    returns_execOrder (wsAction_ne_connectTo (processOnMessage_step hprocess))⟩

/-- Reading and processing a binary message both return exactly when it can be received, and a run
of messages each of which can be received when it comes does not stop the process. -/
theorem neverCrashes_iff (codec : Codec) :
    (∀ controller binMsg clock,
      Returns (parseAndCheckBinMessage codec binMsg) ∧
        Returns (process codec controller (.onMessage (.bin binMsg)) clock) ↔
      Receivable codec controller binMsg clock) ∧
    ∀ messages controller,
      Throughout (messageStep codec) (fun controller received => received.Receivable codec controller)
        controller messages →
      Returns (messages.foldlM (messageStep codec) controller) := by
  constructor
  · intro controller binMsg clock
    rw [returns_parseAndCheckBinMessage_iff]
    constructor
    · rintro ⟨hreadable, hprocess⟩
      exact (returns_processOnMessage_iff hreadable).1 hprocess
    · intro h
      exact ⟨h.1, (returns_processOnMessage_iff h.1).2 h⟩
  · intro messages
    induction messages with
    | nil =>
        intro controller _
        exact returns_pure _
    | cons received messages ih =>
        rintro controller ⟨hreceivable, hrest⟩
        rw [List.foldlM_cons, returns_bind_iff]
        rcases returns_messageStep hreceivable with ⟨controller', hstep⟩
        rw [hstep] at hrest
        exact ⟨controller', hstep, ih controller' hrest⟩

/-! ## Messages of a toy codec -/

instance Receivable.decidable (codec : Codec) (controller : WS2PController) (binMsg : List UInt8)
    (clock : MessageClock) : Decidable (Receivable codec controller binMsg clock) :=
  if h : Returns (parseAndCheckBinMessage codec binMsg) then
    decidable_of_iff _ (returns_processOnMessage_iff (returns_parseAndCheckBinMessage_iff.1 h))
  else isFalse fun h' => h (returns_parseAndCheckBinMessage_iff.2 h'.1)

instance ReceivedMessage.Receivable.decidable (codec : Codec) (controller : WS2PController)
    (received : ReceivedMessage) : Decidable (received.Receivable codec controller) :=
  match received with
  | ⟨.bin _, _, _⟩ => inferInstanceAs (Decidable (Ws2p.Receivable _ _ _ _))
  | ⟨.str _, _, _⟩ => inferInstanceAs (Decidable (_ ≤ _))

theorem neverCrashes_toyNegotiation :
    Returns (toyNegotiation.foldlM (messageStep toyCodec) (toyController .waitingConnectMsg)) :=
  (neverCrashes_iff toyCodec).2 _ _ (by decide)

/-- The toy codec with the variants of the old versions, which `bincode` tells by a tag of four
bytes. -/
def taggedCodec : Codec :=
  { toyCodec with
    deserialize := fun binMsg =>
      match binMsg with
      | [0, 0, 0, 0] => some .v0
      | [1, 0, 0, 0] => some .v1
      | _ => toyCodec.deserialize binMsg }

/-- Once the connection is open, a message of an old version stops the process. -/
theorem not_returns_oldVersion :
    ∃ controller,
      handle taggedCodec toyStart.controller (.incoming (.onOpen none) ⟨1, 1, 1⟩ true) =
        .ok controller ∧
      ¬ Returns (parseAndCheckBinMessage taggedCodec [0, 0, 0, 0]) ∧
      ¬ Returns (process taggedCodec controller (.onMessage (.bin [0, 0, 0, 0])) ⟨1, 1, 1⟩) :=
  ⟨_, rfl, by decide, by decide⟩

end Ws2p

end Durs
