/-
# What the receiver reads of a type of connection

A CONNECT message carries the type of its connection as flags, with a blockstamp beside them for
some types.  The incoming side reads them back, but it never reads the flag CLIENT, and the
blockstamp of a synchronisation is not put in the message.
-/

import Durs.Ws2p.Steps

namespace Durs

open RustStd

namespace Ws2p

variable {codec : Codec} {controller : WS2PController} {connectType : WS2Pv2ConnectType}

/-! ## The flags of a type -/

namespace WS2Pv2ConnectType

/-- What the incoming side takes a type of connection for. -/
def received : WS2Pv2ConnectType → WS2Pv2ConnectType
  | .incoming | .outgoingClient | .outgoingServer => .outgoingServer
  | .sync _ => .sync none
  | .syncAskChunk blockstamp => .syncAskChunk blockstamp
  | .syncSendChunks => .syncSendChunks

/-- Reading the flags and the blockstamp of a message gives the type as the incoming side takes
it. -/
theorem fromFlags_generateConnectMessage (connectType : WS2Pv2ConnectType)
    (apiFeatures : WS2PFeatures) (challenge : Hash) (peerCard : Option PeerCardV11) :
    fromFlags (generateConnectMessage connectType apiFeatures challenge peerCard).flagsQueries
        (generateConnectMessage connectType apiFeatures challenge peerCard).chunkstamp =
      .ok connectType.received := by
  cases connectType with
  | incoming => rfl
  | outgoingClient => rfl
  | outgoingServer => rfl
  | sync blockstamp => rfl
  | syncAskChunk blockstamp => rfl
  | syncSendChunks => rfl

/-- The types that the incoming side takes for what they are. -/
theorem received_eq_self_iff :
    connectType.received = connectType ↔
      connectType = .outgoingServer ∨ connectType = .sync none ∨
        (∃ blockstamp, connectType = .syncAskChunk blockstamp) ∨ connectType = .syncSendChunks := by
  constructor
  · intro h
    cases connectType with
    | incoming => cases h
    | outgoingClient => cases h
    | outgoingServer => exact .inl rfl
    | sync blockstamp => exact .inr (.inl h.symm)
    | syncAskChunk blockstamp => exact .inr (.inr (.inl ⟨blockstamp, rfl⟩))
    | syncSendChunks => exact .inr (.inr (.inr rfl))
  · rintro (rfl | rfl | ⟨blockstamp, rfl⟩ | rfl)
    all_goals rfl

/-- A type that was read is read again as it is. -/
theorem received_received (connectType : WS2Pv2ConnectType) :
    connectType.received.received = connectType.received := by
  cases connectType with
  | incoming => rfl
  | outgoingClient => rfl
  | outgoingServer => rfl
  | sync blockstamp => rfl
  | syncAskChunk blockstamp => rfl
  | syncSendChunks => rfl

end WS2Pv2ConnectType

/-! ## Faithful types -/

/-- Every message for a type of connection gives back the same type. -/
def TransmittedFaithfully (connectType : WS2Pv2ConnectType) : Prop :=
  ∀ apiFeatures challenge peerCard connectMsg,
    connectMsg = generateConnectMessage connectType apiFeatures challenge peerCard →
      WS2Pv2ConnectType.fromFlags connectMsg.flagsQueries connectMsg.chunkstamp = .ok connectType

theorem transmittedFaithfully_iff_received :
    TransmittedFaithfully connectType ↔ connectType.received = connectType := by
  constructor
  · intro h
    have hread := h ⟨[]⟩ default none _ rfl
    rw [WS2Pv2ConnectType.fromFlags_generateConnectMessage] at hread
    exact Except.ok.inj hread
  · rintro h apiFeatures challenge peerCard connectMsg rfl
    have hread :=
      WS2Pv2ConnectType.fromFlags_generateConnectMessage connectType apiFeatures challenge peerCard
    rw [h] at hread
    exact hread

/-- An outgoing type of connection is transmitted faithfully unless it is the one of a client, or of
a synchronisation from a blockstamp. -/
theorem transmittedFaithfully_iff (houtgoing : connectType ≠ .incoming) :
    TransmittedFaithfully connectType ↔
      connectType ≠ .outgoingClient ∧ ∀ blockstamp, connectType ≠ .sync (some blockstamp) := by
  rw [transmittedFaithfully_iff_received]
  cases connectType with
  | incoming => exact absurd rfl houtgoing
  | outgoingClient => simp [WS2Pv2ConnectType.received]
  | outgoingServer => simp [WS2Pv2ConnectType.received]
  | sync blockstamp => cases blockstamp <;> simp [WS2Pv2ConnectType.received]
  | syncAskChunk blockstamp => simp [WS2Pv2ConnectType.received]
  | syncSendChunks => simp [WS2Pv2ConnectType.received]

/-- A client is taken for a server. -/
theorem transmittedFaithfully_iff_client :
    TransmittedFaithfully .outgoingClient ↔
      WS2Pv2ConnectType.outgoingClient ≠ .outgoingClient ∧
        ∀ blockstamp, WS2Pv2ConnectType.outgoingClient ≠ .sync (some blockstamp) :=
  transmittedFaithfully_iff (by decide)

/-- Neither a client nor a synchronisation from a blockstamp is transmitted faithfully. -/
theorem not_transmittedFaithfully :
    ¬ TransmittedFaithfully .outgoingClient ∧
      ¬ TransmittedFaithfully (.sync (some default)) := by
  constructor
  · intro h
    have hread := h ⟨[]⟩ default none _ rfl
    cases Except.ok.inj hread
  · intro h
    have hread := h ⟨[]⟩ default none _ rfl
    cases Except.ok.inj hread

/-! ## What the incoming side records -/

/-- The incoming side that waits for a CONNECT message, and goes on after the one of an honest node,
has recorded the type of connection as it takes it. -/
theorem processConnectMsg_records {remoteFullId : NodeFullId} {apiFeatures : WS2PFeatures}
    {challenge : Hash} {peerCard : Option PeerCardV11} {result : Answer}
    (hwaiting : controller.metaDatas.state = .waitingConnectMsg)
    (hincoming : controller.metaDatas.connectType = .incoming)
    (h : processConnectMsg codec controller remoteFullId
        (generateConnectMessage connectType apiFeatures challenge peerCard) = .ok result) :
    result.1.metaDatas.remoteConnectType = some connectType.received := by
  rw [processConnectMsg, if_pos hwaiting, if_pos hincoming,
    WS2Pv2ConnectType.fromFlags_generateConnectMessage, ok_bind] at h
  rcases mergeFeaturesAndAck_ok h with ⟨features, binMsg, rfl⟩
  rfl

end Ws2p

end Durs
