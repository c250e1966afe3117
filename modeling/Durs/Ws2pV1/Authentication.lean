/-
# Authentication on WS2P v1

What a connection has to have received when it is established.  A message ACK is verified with the
public key that it names, and the challenge is the same on every connection, so neither does an
established connection prove that the node at the other end has the key of the endpoint, nor that
it has answered on this connection.
-/

import Durs.Documents.Canonical
import Durs.Ws2pV1.MetaDatas

namespace Durs.Ws2pV1

open Lib RustStd

variable (L : Libs) (currency : String)

/-! ## Signed messages -/

/-- A message CONNECT signed by a key, with the challenge that it holds. -/
def ConnectFrom (key : PubKey) (challenge : String) (msg : Json) : Prop :=
  msg.str "auth" = some "CONNECT" ∧
    ∃ message, WS2PConnectMessageV1.parse L msg currency = some message ∧
      WS2PConnectMessageV1.verify L message = true ∧ message.pubkey = key ∧
      message.challenge = challenge

/-- A message ACK signed by a key over a challenge. -/
def AckFrom (key : PubKey) (challenge : String) (msg : Json) : Prop :=
  msg.str "auth" = some "ACK" ∧
    ∃ message, WS2PAckMessageV1.parse L msg currency = some message ∧
      WS2PAckMessageV1.verify L { message with challenge } = true ∧ message.pubkey = key

/-- A message OK signed by a key over a challenge. -/
def OkFrom (key : PubKey) (challenge : String) (msg : Json) : Prop :=
  msg.str "auth" = some "OK" ∧
    ∃ message, WS2POkMessageV1.parse L msg currency = some message ∧
      WS2POkMessageV1.verify L { message with challenge, pubkey := key } = true

variable {L currency} {keyPair : KeyPair} {datas datas' : WS2PConnectionMetaDatas}
  {payload : WS2Pv1MsgPayload} {msg : Json} {key : PubKey}

/-! ## What a message does to the meta data -/

/-- The payloads that do not tell of the connection itself. -/
def WS2Pv1MsgPayload.IsContent : WS2Pv1MsgPayload → Prop
  | .request .. | .peerCard .. | .heads .. | .document .. | .reqResponse .. | .invalidMessage
  | .wrongFormatMessage | .unknowMessage => True
  | _ => False

/-- How a message changes the meta data of a connection with the owner of a key, and what is
returned of it: nothing and some content, or one of the three authentication messages. -/
inductive Parsed (L : Libs) (currency : String) (key : PubKey) (msg : Json)
    (datas : WS2PConnectionMetaDatas) : WS2PConnectionMetaDatas → WS2Pv1MsgPayload → Prop
  | content {payload : WS2Pv1MsgPayload} : payload.IsContent →
      Parsed L currency key msg datas datas payload
  | connect {challenge response : String} : datas.state = .waitingConnectMess →
      ConnectFrom L currency key challenge msg →
      Parsed L currency key msg datas
        { datas with state := .connectMessOk, remoteChallenge := challenge }
        (.validConnectMessage response .connectMessOk)
  | ack {ackKey : PubKey} {state : WS2PConnectionState} {response : String} :
      WS2PConnectionMetaDatas.stateAfterAck datas.state = some state →
      AckFrom L currency ackKey datas.challenge msg →
      Parsed L currency key msg datas { datas with state } (.validAckMessage response state)
  | ok {state : WS2PConnectionState} :
      WS2PConnectionMetaDatas.stateAfterOk datas.state = some state →
      OkFrom L currency key datas.remoteChallenge msg →
      Parsed L currency key msg datas { datas with state } (.validOk state)

/-- How a message changes the meta data of a connection with the owner of a key: not at all, or as
one of the three authentication messages. -/
inductive Advances (L : Libs) (currency : String) (key : PubKey) (msg : Json)
    (datas : WS2PConnectionMetaDatas) : WS2PConnectionMetaDatas → Prop
  | same : Advances L currency key msg datas datas
  | connect {challenge : String} : datas.state = .waitingConnectMess →
      ConnectFrom L currency key challenge msg →
      Advances L currency key msg datas
        { datas with state := .connectMessOk, remoteChallenge := challenge }
  | ack {ackKey : PubKey} {state : WS2PConnectionState} :
      WS2PConnectionMetaDatas.stateAfterAck datas.state = some state →
      AckFrom L currency ackKey datas.challenge msg →
      Advances L currency key msg datas { datas with state }
  | ok {state : WS2PConnectionState} :
      WS2PConnectionMetaDatas.stateAfterOk datas.state = some state →
      OkFrom L currency key datas.remoteChallenge msg →
      Advances L currency key msg datas { datas with state }

theorem Parsed.advances (h : Parsed L currency key msg datas datas' payload) :
    Advances L currency key msg datas datas' := by
  cases h with
  | content => exact .same
  | connect hstate hconnect => exact .connect hstate hconnect
  | ack hstate hack => exact .ack hstate hack
  | ok hstate hok => exact .ok hstate hok

namespace WS2PConnectionMetaDatas

/-- The identifier of the peer holds the key from which messages are expected. -/
theorem remotePubkey_of_nodeFullId {id : Network.NodeFullId} (h : datas.nodeFullId = .ok id) :
    datas.remotePubkey = some id.pubkey := by
  simp only [nodeFullId, bind_eq_ok_iff, expect_eq_ok_iff] at h
  rcases h with ⟨nodeId, -, pubkey, hpubkey, h⟩
  cases h
  exact hpubkey

theorem parsed_of_connect (hauth : msg.str "auth" = some "CONNECT")
    (hkey : datas.remotePubkey = some key)
    (h : (checkConnectMessage L datas currency keyPair msg).run = .ok (some (datas', payload))) :
    Parsed L currency key msg datas datas' payload := by
  rw [checkConnectMessage, run_bind_eq_some_iff] at h
  rcases h with ⟨message, hparse, h⟩
  rw [run_lift_eq_some_iff, expect_eq_ok_iff] at hparse
  split at h
  case isFalse => cases h
  case isTrue hverify =>
    rw [run_bind_eq_some_iff] at h
    rcases h with ⟨remotePubkey, hremote, h⟩
    rw [run_lift_eq_some_iff, unwrap_eq_ok_iff, hkey] at hremote
    obtain rfl := Option.some.inj hremote
    split at h
    case isFalse => cases h
    case isTrue hpubkey =>
      split at h
      case h_1 hstate =>
        simp only [run_bind_eq_some_iff, run_pure_eq_some_iff] at h
        rcases h with ⟨json, -, h⟩
        cases h
        exact .connect hstate ⟨hauth, message, hparse, hverify, hpubkey, rfl⟩
      case h_2 =>
        rw [run_pure_eq_some_iff] at h
        cases h
        exact .content trivial

theorem parsed_of_ack (key : PubKey) (hauth : msg.str "auth" = some "ACK")
    (h : (checkAckMessage L datas currency keyPair msg).run = .ok (some (datas', payload))) :
    Parsed L currency key msg datas datas' payload := by
  rw [checkAckMessage, run_bind_eq_some_iff] at h
  rcases h with ⟨message, hparse, h⟩
  rw [run_lift_eq_some_iff, expect_eq_ok_iff] at hparse
  split at h
  case isFalse => cases h
  case isTrue hverify =>
    split at h
    case h_1 state hstate =>
      simp only [run_bind_eq_some_iff, run_pure_eq_some_iff] at h
      rcases h with ⟨json, -, h⟩
      cases h
      exact .ack hstate ⟨hauth, message, hparse, hverify, rfl⟩
    case h_2 =>
      rw [run_pure_eq_some_iff] at h
      cases h
      exact .content trivial

theorem parsed_of_ok (hauth : msg.str "auth" = some "OK")
    (hkey : datas.remotePubkey = some key)
    (h : (checkOkMessage L datas currency msg).run = .ok (some (datas', payload))) :
    Parsed L currency key msg datas datas' payload := by
  rw [checkOkMessage, run_bind_eq_some_iff] at h
  rcases h with ⟨message, hparse, h⟩
  rw [run_lift_eq_some_iff, expect_eq_ok_iff] at hparse
  rw [run_bind_eq_some_iff] at h
  rcases h with ⟨remotePubkey, hremote, h⟩
  rw [run_lift_eq_some_iff, expect_eq_ok_iff, hkey] at hremote
  obtain rfl := Option.some.inj hremote
  split at h
  case isFalse =>
    rw [run_pure_eq_some_iff] at h
    cases h
    exact .content trivial
  case isTrue hverify =>
    split at h
    case h_1 state hstate =>
      rw [run_pure_eq_some_iff] at h
      cases h
      exact .ok hstate ⟨hauth, message, hparse, hverify⟩
    case h_2 =>
      rw [run_pure_eq_some_iff] at h
      cases h
      exact .content trivial

theorem isContent_of_request (h : checkRequest L msg = some payload) : payload.IsContent := by
  rw [checkRequest, Option.bind_eq_bind, Option.bind_eq_some_iff] at h
  rcases h with ⟨reqId, -, h⟩
  split at h
  case h_1 =>
    split at h
    case h_1 =>
      split at h
      all_goals cases h; trivial
    case h_2 => cases h; trivial
  case h_2 => cases h; trivial

theorem isContent_of_response (h : checkResponse L msg = some payload) : payload.IsContent := by
  rw [checkResponse, Option.bind_eq_bind, Option.bind_eq_some_iff] at h
  rcases h with ⟨resId, -, h⟩
  split at h
  case h_1 =>
    split at h
    case h_1 =>
      split at h
      all_goals cases h; trivial
    case h_2 =>
      split at h
      case h_1 => cases h
      case h_2 => cases h; trivial
  case h_2 => cases h; trivial

theorem isContent_of_peer {body : Json} (h : parseAndCheckPeerMessage L body = .ok payload) :
    payload.IsContent := by
  unfold parseAndCheckPeerMessage at h
  split at h
  case h_1 =>
    split at h
    case h_1 =>
      split at h
      case h_1 =>
        split at h
        case h_1 =>
          rw [bind_eq_ok_iff] at h
          rcases h with ⟨parsed, -, h⟩
          cases h
          trivial
        case h_2 => cases h; trivial
      case h_2 => cases h; trivial
    case h_2 => cases h; trivial
  case h_2 => cases h; trivial

theorem isContent_of_block {body : Json} (h : (checkBlock L body).run = .ok (some payload)) :
    payload.IsContent := by
  unfold checkBlock at h
  split at h
  case h_1 =>
    rw [run_bind_eq_some_iff] at h
    rcases h with ⟨block, -, h⟩
    cases h
    trivial
  case h_2 => cases h; trivial

theorem isContent_of_document (h : (checkDocument L msg).run = .ok (some payload)) :
    payload.IsContent := by
  rw [checkDocument, run_bind_eq_some_iff] at h
  rcases h with ⟨body, -, h⟩
  split at h
  case h_1 =>
    rw [run_bind_eq_some_iff] at h
    rcases h with ⟨name, -, h⟩
    split at h
    case h_1 => exact isContent_of_block h
    case h_2 =>
      split at h
      all_goals cases h; trivial
    case h_3 =>
      rw [run_lift_eq_some_iff] at h
      exact isContent_of_peer h
    case h_8 => cases h; trivial
    all_goals cases h
  case h_2 => cases h; trivial

/-- Everything that an incoming message can do to the meta data, and what is returned of it. -/
theorem parsed_of_parse (hkey : datas.remotePubkey = some key)
    (h : parseAndCheckIncomingMessage L datas currency keyPair msg = .ok (datas', payload)) :
    Parsed L currency key msg datas datas' payload := by
  rw [parseAndCheckIncomingMessage, bind_eq_ok_iff] at h
  rcases h with ⟨auth, hauth, h⟩
  cases auth with
  | some result =>
      rw [pure_eq_ok_iff] at h
      subst h
      rw [checkAuthMessage, run_bind_eq_some_iff] at hauth
      rcases hauth with ⟨name, hname, hauth⟩
      rw [run_option_eq_some_iff] at hname
      split at hauth
      case h_1 => exact parsed_of_connect hname hkey hauth
      case h_2 => exact parsed_of_ack key hname hauth
      case h_3 => exact parsed_of_ok hname hkey hauth
      case h_4 => cases hauth
  | none =>
      simp only at h
      split at h
      case h_1 hrequest =>
        cases h
        exact .content (isContent_of_request hrequest)
      case h_2 =>
        split at h
        case h_1 hresponse =>
          cases h
          exact .content (isContent_of_response hresponse)
        case h_2 =>
          rw [bind_eq_ok_iff] at h
          rcases h with ⟨document, hdocument, h⟩
          cases h
          cases document with
          | none => exact .content trivial
          | some payload => exact .content (isContent_of_document hdocument)

/-- Everything that an incoming message can do to the meta data. -/
theorem advances_of_parse (hkey : datas.remotePubkey = some key)
    (h : parseAndCheckIncomingMessage L datas currency keyPair msg = .ok (datas', payload)) :
    Advances L currency key msg datas datas' :=
  (parsed_of_parse hkey h).advances

/-! ## Messages that are accepted -/

/-- What the check of an authentication message returns is returned. -/
theorem parse_of_auth (h : ∃ payload,
      (checkAuthMessage L datas currency keyPair msg).run = .ok (some (datas', payload))) :
    ∃ payload,
      parseAndCheckIncomingMessage L datas currency keyPair msg = .ok (datas', payload) := by
  rcases h with ⟨payload, h⟩
  refine ⟨payload, ?_⟩
  rw [parseAndCheckIncomingMessage, h]
  rfl

theorem parse_connect (keyPair : KeyPair) {challenge : String}
    (hkey : datas.remotePubkey = some key) (hstate : datas.state = .waitingConnectMess)
    (h : ConnectFrom L currency key challenge msg) :
    ∃ payload, parseAndCheckIncomingMessage L datas currency keyPair msg =
      .ok ({ datas with state := .connectMessOk, remoteChallenge := challenge }, payload) := by
  rcases h with ⟨hauth, message, hparse, hverify, rfl, rfl⟩
  apply parse_of_auth
  rw [checkAuthMessage, hauth]
  show ∃ _, (checkConnectMessage L datas currency keyPair msg).run = _
  rw [checkConnectMessage, hparse, hkey]
  show ∃ _, (if WS2PConnectMessageV1.verify L message = true then _ else _ : OptionT Run _).run = _
  rw [if_pos hverify]
  show ∃ _, (if message.pubkey = message.pubkey then _ else _ : OptionT Run _).run = _
  rw [if_pos rfl, hstate]
  exact ⟨_, rfl⟩

theorem parse_ack (keyPair : KeyPair) {ackKey : PubKey} {state : WS2PConnectionState}
    (hstate : stateAfterAck datas.state = some state)
    (h : AckFrom L currency ackKey datas.challenge msg) :
    ∃ payload, parseAndCheckIncomingMessage L datas currency keyPair msg =
      .ok ({ datas with state }, payload) := by
  rcases h with ⟨hauth, message, hparse, hverify, -⟩
  apply parse_of_auth
  rw [checkAuthMessage, hauth]
  show ∃ _, (checkAckMessage L datas currency keyPair msg).run = _
  rw [checkAckMessage, hparse]
  show ∃ _, (if WS2PAckMessageV1.verify L { message with challenge := datas.challenge } = true
    then _ else _ : OptionT Run _).run = _
  rw [if_pos hverify, hstate]
  exact ⟨_, rfl⟩

theorem parse_ok (keyPair : KeyPair) {state : WS2PConnectionState}
    (hkey : datas.remotePubkey = some key) (hstate : stateAfterOk datas.state = some state)
    (h : OkFrom L currency key datas.remoteChallenge msg) :
    ∃ payload, parseAndCheckIncomingMessage L datas currency keyPair msg =
      .ok ({ datas with state }, payload) := by
  rcases h with ⟨hauth, message, hparse, hverify⟩
  apply parse_of_auth
  rw [checkAuthMessage, hauth]
  show ∃ _, (checkOkMessage L datas currency msg).run = _
  rw [checkOkMessage, hparse, hkey]
  show ∃ _, (if WS2POkMessageV1.verify L
    { message with challenge := datas.remoteChallenge, pubkey := key } = true
    then _ else _ : OptionT Run _).run = _
  rw [if_pos hverify, hstate]
  exact ⟨_, rfl⟩

end WS2PConnectionMetaDatas

/-! ## Runs of a connection -/

open WS2PConnectionMetaDatas

/-- Receive some messages, one after another. -/
def receiveAll (L : Libs) (currency : String) (keyPair : KeyPair)
    (datas : WS2PConnectionMetaDatas) (msgs : List Json) : Run WS2PConnectionMetaDatas :=
  msgs.foldlM (fun datas msg => do
    let (datas, _) ← datas.parseAndCheckIncomingMessage L currency keyPair msg
    return datas) datas

/-- What has been received from the owner of a key when the meta data has got this far. -/
structure Heard (L : Libs) (currency : String) (key : PubKey) (challenge : String)
    (msgs : List Json) (datas : WS2PConnectionMetaDatas) : Prop where
  pubkey : datas.remotePubkey = some key
  sameChallenge : datas.challenge = challenge
  connect : datas.state ≠ .waitingConnectMess →
    ∃ msg ∈ msgs, ConnectFrom L currency key datas.remoteChallenge msg
  ack : datas.state = .ackMessOk ∨ datas.state = .established →
    ∃ msg ∈ msgs, ∃ ackKey, AckFrom L currency ackKey challenge msg
  ok : datas.state = .okMessOkWaitingAckMess ∨ datas.state = .established →
    ∃ msg ∈ msgs, OkFrom L currency key datas.remoteChallenge msg

variable {challenge : String} {msgs : List Json}

theorem AckFrom.key_unique {key' : PubKey} (h : AckFrom L currency key challenge msg)
    (h' : AckFrom L currency key' challenge msg) : key = key' := by
  rcases h with ⟨-, message, hparse, -, rfl⟩
  rcases h' with ⟨-, message', hparse', -, rfl⟩
  rw [Option.some.inj (hparse.symm.trans hparse')]

/-- The message ACK among the three messages of an authentication. -/
theorem AckFrom.eq_of_mem (h : AckFrom L currency key challenge msg) {connect ack ok : Json}
    (hconnect : connect.str "auth" = some "CONNECT") (hok : ok.str "auth" = some "OK")
    (hmem : msg ∈ [connect, ack, ok]) : msg = ack := by
  rcases List.mem_cons.1 hmem with rfl | hmem
  · exact absurd (Option.some.inj (hconnect.symm.trans h.1)) (by decide)
  · rcases List.mem_cons.1 hmem with rfl | hmem
    · rfl
    · obtain rfl := List.mem_singleton.1 hmem
      exact absurd (Option.some.inj (hok.symm.trans h.1)) (by decide)

/-- The states before and after a message ACK that is expected. -/
theorem stateAfterAck_eq_some_iff {state state' : WS2PConnectionState} :
    stateAfterAck state = some state' ↔
      state = .connectMessOk ∧ state' = .ackMessOk ∨
        state = .okMessOkWaitingAckMess ∧ state' = .established := by
  cases state <;> simp [stateAfterAck, eq_comm]

/-- The states before and after a message OK that is expected. -/
theorem stateAfterOk_eq_some_iff {state state' : WS2PConnectionState} :
    stateAfterOk state = some state' ↔
      state = .connectMessOk ∧ state' = .okMessOkWaitingAckMess ∨
        state = .ackMessOk ∧ state' = .established := by
  cases state <;> simp [stateAfterOk, eq_comm]

theorem Heard.advance (h : Heard L currency key challenge msgs datas) (hmem : msg ∈ msgs)
    (hstep : Advances L currency key msg datas datas') :
    Heard L currency key challenge msgs datas' := by
  cases hstep with
  | same => exact h
  | connect hstate hconnect =>
      exact {
        pubkey := h.pubkey
        sameChallenge := h.sameChallenge
        connect := fun _ => ⟨msg, hmem, hconnect⟩
        ack := by rintro (h | h) <;> cases h
        ok := by rintro (h | h) <;> cases h }
  | @ack ackKey state hstate hack =>
      have hheard : ∃ msg ∈ msgs, ∃ ackKey, AckFrom L currency ackKey challenge msg :=
        ⟨msg, hmem, ackKey, h.sameChallenge ▸ hack⟩
      rcases stateAfterAck_eq_some_iff.1 hstate with ⟨hbefore, rfl⟩ | ⟨hbefore, rfl⟩
      · exact {
          pubkey := h.pubkey
          sameChallenge := h.sameChallenge
          connect := fun _ => h.connect (by rw [hbefore]; exact nofun)
          ack := fun _ => hheard
          ok := by rintro (h | h) <;> cases h }
      · exact {
          pubkey := h.pubkey
          sameChallenge := h.sameChallenge
          connect := fun _ => h.connect (by rw [hbefore]; exact nofun)
          ack := fun _ => hheard
          ok := fun _ => h.ok (Or.inl hbefore) }
  | @ok state hstate hok =>
      rcases stateAfterOk_eq_some_iff.1 hstate with ⟨hbefore, rfl⟩ | ⟨hbefore, rfl⟩
      · exact {
          pubkey := h.pubkey
          sameChallenge := h.sameChallenge
          connect := fun _ => h.connect (by rw [hbefore]; exact nofun)
          ack := by rintro (h | h) <;> cases h
          ok := fun _ => ⟨msg, hmem, hok⟩ }
      · exact {
          pubkey := h.pubkey
          sameChallenge := h.sameChallenge
          connect := fun _ => h.connect (by rw [hbefore]; exact nofun)
          ack := fun _ => h.ack (Or.inl hbefore)
          ok := fun _ => ⟨msg, hmem, hok⟩ }

/-- What the meta data of a connection says has been received has been received. -/
theorem Heard.of_receiveAll (h : Heard L currency key challenge msgs datas)
    (hrun : receiveAll L currency keyPair datas msgs = .ok datas') :
    Heard L currency key challenge msgs datas' := by
  refine foldlM_preserves (P := Heard L currency key challenge msgs) ?_ h hrun
  intro datas msg datas' hmem hheard hstep
  rw [bind_eq_ok_iff] at hstep
  rcases hstep with ⟨result, hparse, hresult⟩
  cases hresult
  exact hheard.advance hmem (advances_of_parse hheard.pubkey hparse)

/-- The meta data of a new connection. -/
structure New (key : PubKey) (challenge : String) (datas : WS2PConnectionMetaDatas) : Prop where
  state : datas.state = .waitingConnectMess
  pubkey : datas.remotePubkey = some key
  sameChallenge : datas.challenge = challenge

theorem New.heard (h : New key challenge datas) :
    Heard L currency key challenge msgs datas where
  pubkey := h.pubkey
  sameChallenge := h.sameChallenge
  connect hstate := absurd h.state hstate
  ack hstate := by rw [h.state] at hstate; rcases hstate with h | h <;> cases h
  ok hstate := by rw [h.state] at hstate; rcases hstate with h | h <;> cases h

/-- The meta data created for an endpoint is that of a new connection with its issuer. -/
theorem new_of_connectionMetaDatas {endpoint : Network.EndpointV1}
    (h : connectionMetaDatas endpoint = .ok datas) :
    New endpoint.issuer connectionChallenge datas := by
  rw [connectionMetaDatas, bind_eq_ok_iff] at h
  rcases h with ⟨nodeId, -, h⟩
  cases h
  exact ⟨rfl, rfl, rfl⟩

/-- The three messages of an authentication establish a new connection. -/
theorem New.established (h : New key challenge datas) (keyPair : KeyPair) {connect ack ok : Json}
    {ackKey : PubKey} {remoteChallenge : String}
    (hconnect : ConnectFrom L currency key remoteChallenge connect)
    (hack : AckFrom L currency ackKey challenge ack)
    (hok : OkFrom L currency key remoteChallenge ok) :
    ∃ datas', receiveAll L currency keyPair datas [connect, ack, ok] = .ok datas' ∧
      datas'.state = .established := by
  let connected : WS2PConnectionMetaDatas :=
    { datas with state := .connectMessOk, remoteChallenge }
  let acknowledged : WS2PConnectionMetaDatas := { connected with state := .ackMessOk }
  have hack' : AckFrom L currency ackKey connected.challenge ack := h.sameChallenge.symm ▸ hack
  have hok' : OkFrom L currency key acknowledged.remoteChallenge ok := hok
  rcases parse_connect keyPair h.pubkey h.state hconnect with ⟨_, hfirst⟩
  rcases parse_ack keyPair rfl hack' with ⟨_, hsecond⟩
  have hkey : acknowledged.remotePubkey = some key := h.pubkey
  rcases parse_ok keyPair hkey rfl hok' with ⟨_, hthird⟩
  refine ⟨{ acknowledged with state := .established }, ?_, rfl⟩
  rw [receiveAll, List.foldlM_cons, hfirst]
  show List.foldlM _ connected _ = _
  rw [List.foldlM_cons, hsecond]
  show List.foldlM _ acknowledged _ = _
  rw [List.foldlM_cons, hthird]
  rfl

/-! ## Authentication -/

/-- Whether some messages establish a connection only with one signed by the key over the challenge
of the connection, and those recorded earlier do not establish it. -/
def Authenticates (L : Libs) (currency : String) (keyPair : KeyPair) (key : PubKey)
    (datas : WS2PConnectionMetaDatas) (sendable recorded : Json → Prop) : Prop :=
  (∀ msgs datas', (∀ msg ∈ msgs, sendable msg) →
    receiveAll L currency keyPair datas msgs = .ok datas' → datas'.state = .established →
      ∃ msg ∈ msgs, AckFrom L currency key datas.challenge msg) ∧
  (∀ msgs datas', (∀ msg ∈ msgs, recorded msg) →
    receiveAll L currency keyPair datas msgs = .ok datas' → datas'.state ≠ .established)

/-- Whether some messages hold a message CONNECT and a message OK signed by a key, the latter over
the challenge of the former, and a message ACK signed over a challenge by one of some keys. -/
def HoldsHandshake (L : Libs) (currency : String) (key : PubKey) (challenge : String)
    (ackKeys : PubKey → Prop) (messages : Json → Prop) : Prop :=
  ∃ connect ack ok remoteChallenge ackKey, messages connect ∧ messages ack ∧ messages ok ∧
    ConnectFrom L currency key remoteChallenge connect ∧
    AckFrom L currency ackKey challenge ack ∧ ackKeys ackKey ∧
    OkFrom L currency key remoteChallenge ok

theorem Heard.holdsHandshake (h : Heard L currency key challenge msgs datas)
    (hstate : datas.state = .established) {messages : Json → Prop}
    (hmsgs : ∀ msg ∈ msgs, messages msg) {ackKeys : PubKey → Prop}
    (hkeys : ∀ msg ∈ msgs, ∀ ackKey, AckFrom L currency ackKey challenge msg → ackKeys ackKey) :
    HoldsHandshake L currency key challenge ackKeys messages := by
  rcases h.connect (by rw [hstate]; exact nofun) with ⟨connect, hmem, hconnect⟩
  rcases h.ack (Or.inr hstate) with ⟨ack, hmem', ackKey, hack⟩
  rcases h.ok (Or.inr hstate) with ⟨ok, hmem'', hok⟩
  exact ⟨connect, ack, ok, _, ackKey, hmsgs _ hmem, hmsgs _ hmem', hmsgs _ hmem'', hconnect, hack,
    hkeys _ hmem' _ hack, hok⟩

/-- A connection to an endpoint is authenticated exactly when no message ACK of another key goes
with messages CONNECT and OK of the endpoint, and no such three messages are recorded. -/
theorem authenticates_iff {endpoint : Network.EndpointV1}
    (hdatas : connectionMetaDatas endpoint = .ok datas) (keyPair : KeyPair)
    (sendable recorded : Json → Prop) :
    Authenticates L currency keyPair endpoint.issuer datas sendable recorded ↔
      ¬ HoldsHandshake L currency endpoint.issuer connectionChallenge (· ≠ endpoint.issuer)
          sendable ∧
        ¬ HoldsHandshake L currency endpoint.issuer connectionChallenge (fun _ => True)
          recorded := by
  have hnew := new_of_connectionMetaDatas hdatas
  constructor
  · rintro ⟨hsendable, hrecorded⟩
    constructor
    · rintro ⟨connect, ack, ok, remoteChallenge, ackKey, hc, ha, ho, hconnect, hack, hforeign, hok⟩
      rcases hnew.established keyPair hconnect hack hok with ⟨datas', hrun, hstate⟩
      rcases hsendable _ _ (by simp [hc, ha, ho]) hrun hstate with ⟨msg, hmem, hgenuine⟩
      rw [hnew.sameChallenge] at hgenuine
      have hmsg : msg = ack := hgenuine.eq_of_mem hconnect.1 hok.1 hmem
      exact hforeign ((hmsg ▸ hgenuine).key_unique hack).symm
    · rintro ⟨connect, ack, ok, remoteChallenge, ackKey, hc, ha, ho, hconnect, hack, -, hok⟩
      rcases hnew.established keyPair hconnect hack hok with ⟨datas', hrun, hstate⟩
      exact hrecorded _ _ (by simp [hc, ha, ho]) hrun hstate
  · rintro ⟨hsendable, hrecorded⟩
    constructor
    · intro msgs datas' hmsgs hrun hstate
      by_contra hnone
      refine hsendable ((hnew.heard.of_receiveAll hrun).holdsHandshake hstate hmsgs ?_)
      rintro msg hmem ackKey hack rfl
      exact hnone ⟨msg, hmem, hnew.sameChallenge.symm ▸ hack⟩
    · intro msgs datas' hmsgs hrun hstate
      exact hrecorded ((hnew.heard.of_receiveAll hrun).holdsHandshake hstate hmsgs
        fun _ _ _ _ => trivial)

/-! ## Impersonation and replay -/

/-- The key of a node that is not the endpoint. -/
def foreignKey : PubKey := ⟨0x8139770ea87d175f56a35466c34c7ecccb8d8a91b4ee37a25df60f5b8fc9b394⟩

/-- The key of this node. -/
def ownKeyPair : KeyPair where
  pubkey := ⟨0x8a88e3dd7409f195fd52db2d3cba5d72ca6709bf1d94121bf3748801b40f6f5c⟩
  privkey := ⟨0x0101010101010101010101010101010101010101010101010101010101010101#256 ++
    0x8a88e3dd7409f195fd52db2d3cba5d72ca6709bf1d94121bf3748801b40f6f5c#256⟩

/-- The keys of the example connection, as they are printed. -/
def printedKeys : List (String × PubKey) :=
  [(exampleKeyText, exampleKeyPair.pubkey),
    ("9hSR6S7WPtxmTojgo6GG3k4yDPecgJY292j7xrsUGWBu", foreignKey),
    ("AKnL4NNf3DGWZJS6cPknBuEGnVsV4A4m5tgebLHaRSZ9", ownKeyPair.pubkey),
    (okPubkey, ⟨0x782f63962ac000238a2bd7a151dd7b21f10e0c8ee44aca31a775495452c51300⟩)]

/-- A signature, as it is printed, with the key that made it and the text that it signs. -/
structure PrintedSig where
  printed : String
  sig : Sig
  key : PubKey
  text : String

/-- The challenge of the endpoint. -/
def endpointChallenge : String := "2f0c6d3e-9b1a-4c58-8e77-5a04d1b6f39c"

/-- The signature of the endpoint in its message CONNECT. -/
def connectSig : PrintedSig where
  printed :=
    "WihRD5iEzZCBlH2WdrzXjxPQIaCNfk2bR+0CsHJe3qxCyW8N5Ap17UNsZ1yRU2Hoi9Uy+LL7DCK/a00HyLSNCg=="
  sig := ⟨0x5a28510f9884cd9081947d9676bcd78f13d021a08d7e4d9b47ed02b0725edeac#256 ++
    0x42c96f0de40a75ed436c675c915361e88bd532f8b2fb0c22bf6b4d07c8b48d0a#256⟩
  key := exampleKeyPair.pubkey
  text := "WS2P:CONNECT:g1:" ++ exampleKeyText ++ ":" ++ endpointChallenge

/-- The signature of the endpoint in its message OK. -/
def okSig : PrintedSig where
  printed :=
    "2hHPda2SxXs45NCRFUwstcR5d8dX7Yzwfpi/JWa0e5Mb+Uv4/wL/OtGt67kRZoT+VggzmCyGm+HW7nYIMCuwBg=="
  sig := ⟨0xda11cf75ad92c57b38e4d091154c2cb5c47977c757ed8cf07e98bf2566b47b93#256 ++
    0x1bf94bf8ff02ff3ad1adebb9116684fe560833982c869be1d6ee7608302bb006#256⟩
  key := exampleKeyPair.pubkey
  text := "WS2P:OK:g1:" ++ exampleKeyText ++ ":" ++ endpointChallenge

/-- The signature of the endpoint in its message ACK. -/
def ackSig : PrintedSig where
  printed :=
    "GaV0fAwtLRTabfaQAb/kRY6Q74mmfan1InmcRDKMSql+J6Dk6umCU1q71h/j8HNCkUNOXEkFiNc7MVrNvjYLCw=="
  sig := ⟨0x19a5747c0c2d2d14da6df69001bfe4458e90ef89a67da9f522799c44328c4aa9#256 ++
    0x7e27a0e4eae982535abbd61fe3f0734291434e5c490588d73b315acdbe360b0b#256⟩
  key := exampleKeyPair.pubkey
  text := "WS2P:ACK:g1:" ++ exampleKeyText ++ ":" ++ connectionChallenge

/-- The signature of the other node in its message ACK. -/
def foreignAckSig : PrintedSig where
  printed :=
    "OveH8Hr2waqRF+2KVNrAwe3TOrfyJ7JS+0Xm4/ajqe762DIqB+hC2MxL/aLF2dnoqNO6lqKRhfzZ3J9dWUYdCA=="
  sig := ⟨0x3af787f07af6c1aa9117ed8a54dac0c1edd33ab7f227b252fb45e6e3f6a3a9ee#256 ++
    0xfad8322a07e842d8cc4bfda2c5d9d9e8a8d3ba96a29185fcd9dc9f5d59461d08#256⟩
  key := foreignKey
  text := "WS2P:ACK:g1:9hSR6S7WPtxmTojgo6GG3k4yDPecgJY292j7xrsUGWBu:" ++ connectionChallenge

/-- The signature of this node in its message ACK. -/
def ownAckSig : PrintedSig where
  printed :=
    "cc37WNaKEhx8mT9y2TnjemYu41GA8GxeEJvavLP6KgXazZm79jylulSsIh+u+NolvSUarvx2jcUfzXGrGJvVAA=="
  sig := ⟨0x71cdfb58d68a121c7c993f72d939e37a662ee35180f06c5e109bdabcb3fa2a05#256 ++
    0xdacd99bbf63ca5ba54ac221faef8da25bd251aaefc768dc51fcd71ab189bd500#256⟩
  key := ownKeyPair.pubkey
  text := "WS2P:ACK:g1:AKnL4NNf3DGWZJS6cPknBuEGnVsV4A4m5tgebLHaRSZ9:" ++ endpointChallenge

/-- The signature of this node in its message OK. -/
def ownOkSig : PrintedSig where
  printed :=
    "gMo0HWnkt7v17Bilnb34mY0Mj36L6fH+fuBlPXLg+rYqSZbKQcyqG5imn0RgAJs5zYRqxzcYJd/FDoSIjlvqBw=="
  sig := ⟨0x80ca341d69e4b7bbf5ec18a59dbdf8998d0c8f7e8be9f1fe7ee0653d72e0fab6#256 ++
    0x2a4996ca41ccaa1b98a69f4460009b39cd846ac7371825dfc50e84888e5bea07#256⟩
  key := ownKeyPair.pubkey
  text := "WS2P:OK:g1:AKnL4NNf3DGWZJS6cPknBuEGnVsV4A4m5tgebLHaRSZ9:" ++ connectionChallenge

/-- The signatures of the example connection. -/
def printedSigs : List PrintedSig :=
  [connectSig, okSig, ackSig, foreignAckSig, ownAckSig, ownOkSig]

/-- The other libraries on the example connection. -/
def connectionLibs : Libs where
  base58 key := ((printedKeys.find? fun entry => entry.2 = key).map Prod.fst).getD ""
  fromBase58 text := printedKeys.lookup text
  base64 sig := ((printedSigs.find? fun entry => entry.sig = sig).map PrintedSig.printed).getD ""
  fromBase64 text := (printedSigs.find? fun entry => entry.printed = text).map PrintedSig.sig
  hashStr _ := 0
  sign _ text := ((printedSigs.find? fun entry => entry.text = text).map PrintedSig.sig).getD ⟨0⟩
  verify key text sig := printedSigs.any fun entry =>
    entry.key = key && entry.text = text && entry.sig = sig
  txHash _ _ := 0
  txHash_eq _ _ := rfl
  parseF64 _ := none
  parseUuid _ := none
  jsonFromStr _ := none
  jsonToString _ := ""

/-- The endpoint of the example connection. -/
def connectionEndpoint : Network.EndpointV1 where
  api := "WS2P"
  nodeId := some 0xc1c39a0a
  issuer := exampleKeyPair.pubkey
  hashFullId := none
  host := "i3.ifee.fr"
  port := 80
  path := some "ws2p"
  rawEndpoint := "WS2P c1c39a0a i3.ifee.fr 80 /ws2p"
  status := 0
  lastCheck := 0

/-- The meta data of the example connection. -/
def connectionDatas : WS2PConnectionMetaDatas :=
  { WS2PConnectionMetaDatas.new connectionChallenge with
    remotePubkey := some exampleKeyPair.pubkey
    remoteUuid := some 0xc1c39a0a }

theorem connectionMetaDatas_connectionEndpoint :
    connectionMetaDatas connectionEndpoint = .ok connectionDatas := rfl

/-- The message CONNECT of the endpoint. -/
def endpointConnect : Json := .object [("auth", .string "CONNECT"),
  ("pub", .string exampleKeyText), ("challenge", .string endpointChallenge),
  ("sig", .string connectSig.printed)]

/-- The message OK of the endpoint. -/
def endpointOk : Json := .object [("auth", .string "OK"), ("sig", .string okSig.printed)]

/-- A message ACK. -/
def ackMessage (pubkey : String) (sig : PrintedSig) : Json :=
  .object [("auth", .string "ACK"), ("pub", .string pubkey), ("sig", .string sig.printed)]

/-- The message ACK of the endpoint. -/
def endpointAck : Json := ackMessage exampleKeyText ackSig

/-- The message ACK of the other node. -/
def foreignAck : Json := ackMessage "9hSR6S7WPtxmTojgo6GG3k4yDPecgJY292j7xrsUGWBu" foreignAckSig

theorem connectFrom_endpointConnect :
    ConnectFrom connectionLibs "g1" connectionEndpoint.issuer endpointChallenge
      endpointConnect := by
  refine ⟨rfl, ⟨"g1", exampleKeyPair.pubkey, endpointChallenge, some connectSig.sig⟩, ?_, ?_,
    rfl, rfl⟩
  · decide +kernel
  · decide +kernel

theorem okFrom_endpointOk :
    OkFrom connectionLibs "g1" connectionEndpoint.issuer endpointChallenge endpointOk := by
  refine ⟨rfl, ⟨"g1", ⟨0x782f63962ac000238a2bd7a151dd7b21f10e0c8ee44aca31a775495452c51300⟩, "",
    some okSig.sig⟩, ?_, ?_⟩
  · decide +kernel
  · decide +kernel

theorem ackFrom_endpointAck :
    AckFrom connectionLibs "g1" connectionEndpoint.issuer connectionChallenge endpointAck := by
  refine ⟨rfl, ⟨"g1", exampleKeyPair.pubkey, "", some ackSig.sig⟩, ?_, ?_, rfl⟩
  · decide +kernel
  · decide +kernel

theorem ackFrom_foreignAck :
    AckFrom connectionLibs "g1" foreignKey connectionChallenge foreignAck := by
  refine ⟨rfl, ⟨"g1", foreignKey, "", some foreignAckSig.sig⟩, ?_, ?_, rfl⟩
  · decide +kernel
  · decide +kernel

theorem authenticates_endpointMessages :
    Authenticates connectionLibs "g1" ownKeyPair connectionEndpoint.issuer connectionDatas
      (· ∈ [endpointConnect, endpointAck, endpointOk]) (· ∈ [endpointConnect, endpointOk]) := by
  refine (authenticates_iff connectionMetaDatas_connectionEndpoint ownKeyPair _ _).2 ⟨?_, ?_⟩
  · rintro ⟨connect, ack, ok, remoteChallenge, ackKey, -, hmem, -, -, hack, hforeign, -⟩
    have hmsg : ack = endpointAck := hack.eq_of_mem rfl rfl hmem
    exact hforeign ((hmsg ▸ hack).key_unique ackFrom_endpointAck)
  · rintro ⟨connect, ack, ok, remoteChallenge, ackKey, -, hmem, -, -, hack, -, -⟩
    rcases List.mem_cons.1 hmem with rfl | hmem
    · exact absurd (Option.some.inj hack.1) (by decide)
    · obtain rfl := List.mem_singleton.1 hmem
      exact absurd (Option.some.inj hack.1) (by decide)

/-- The other node establishes the connection with its own message ACK, and the messages of the
endpoint on one connection establish the next one. -/
theorem not_authenticates_foreignAck :
    ¬ Authenticates connectionLibs "g1" ownKeyPair connectionEndpoint.issuer connectionDatas
        (· ∈ [endpointConnect, foreignAck, endpointOk]) (fun _ => False) ∧
      ¬ Authenticates connectionLibs "g1" ownKeyPair connectionEndpoint.issuer connectionDatas
        (fun _ => False) (· ∈ [endpointConnect, endpointAck, endpointOk]) := by
  have hnew := new_of_connectionMetaDatas connectionMetaDatas_connectionEndpoint
  constructor
  · rintro ⟨hsendable, -⟩
    rcases hnew.established ownKeyPair connectFrom_endpointConnect ackFrom_foreignAck
      okFrom_endpointOk with ⟨datas', hrun, hstate⟩
    rcases hsendable _ _ (fun _ => id) hrun hstate with ⟨msg, hmem, hgenuine⟩
    have hmsg : msg = foreignAck := hgenuine.eq_of_mem rfl rfl hmem
    exact absurd ((hmsg ▸ hgenuine).key_unique ackFrom_foreignAck) (by decide)
  · rintro ⟨-, hrecorded⟩
    rcases hnew.established ownKeyPair connectFrom_endpointConnect ackFrom_endpointAck
      okFrom_endpointOk with ⟨datas', hrun, hstate⟩
    exact hrecorded _ _ (fun _ => id) hrun hstate

end Durs.Ws2pV1
