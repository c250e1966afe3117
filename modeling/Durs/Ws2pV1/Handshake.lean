/-
# The handshake of WS2P v1

The messages that one connection receives, relayed to the main loop while the websocket is open and
what is sent on it is sent.  A message ACK that comes after the message OK of the peer establishes
the connection without being answered and without a signal; this is the only thing that goes wrong.
-/

import Durs.Lib.Reached
import Durs.Ws2pV1.Treatment

namespace Durs.Ws2pV1

open Lib RustStd Network

variable {H : HeadLibs} {L : Libs} {currency : String} {keyPair : KeyPair}

/-! ## Conversations -/

/-- A message of a connection: what its parsing returns, what the main loop makes of it, and the
state recorded of the endpoint before and after. -/
structure Exchange (H : HeadLibs) where
  payload : WS2Pv1MsgPayload
  signal : WS2PSignal H
  sent : List (WsSender × String)
  before : Option WS2PConnectionState
  after : Option WS2PConnectionState

/-- The two ends of the channel of a connection, and what has gone through it. -/
structure Conversation (H : HeadLibs) where
  datas : WS2PConnectionMetaDatas
  ws2pModule : WS2Pv1Module H
  exchanges : List (Exchange H)

/-- Parse a message, received at some time, and relay what is returned to the main loop. -/
def Conversation.relay (L : Libs) (currency : String) (keyPair : KeyPair) (c : Conversation H)
    (message : Nat × Json) : Run (Conversation H) := do
  let sender ← c.datas.nodeFullId
  let (datas, payload) ← c.datas.parseAndCheckIncomingMessage L currency keyPair message.2
  let env : Surroundings := { now := message.1, sends := true, reqId := 0 }
  let p ← c.ws2pModule.ws2pRecvMessagePretreatment env { sender, payload }
  let exchange : Exchange H :=
    { payload, signal := p.signal, sent := p.sent, before := c.ws2pModule.stateOf sender,
      after := p.ws2pModule.stateOf sender }
  return { datas, ws2pModule := p.ws2pModule, exchanges := c.exchanges ++ [exchange] }

/-! ## Complete handshakes -/

namespace Exchange

/-- Whether the signal of an established connection is returned. -/
def signals (exchange : Exchange H) : Bool :=
  match exchange.signal with
  | .connectionEstablished _ => true
  | _ => false

/-- The response to the message, if it is a valid message ACK. -/
def ackResponse (exchange : Exchange H) : Option String :=
  match exchange.payload with
  | .validAckMessage response _ => some response
  | _ => none

/-- Whether the response to a valid message ACK is sent. -/
def Answered (exchange : Exchange H) : Prop :=
  ∀ response ∈ exchange.ackResponse, response ∈ exchange.sent.map Prod.snd

/-- What a handshake asks of an exchange, after those before it: a valid message ACK is answered,
exactly one signal has been returned where the connection becomes established, and none is returned
in another state. -/
structure Completes (earlier : List (Exchange H)) (exchange : Exchange H) : Prop where
  answered : exchange.Answered
  signalled : exchange.before ≠ some .established → exchange.after = some .established →
    (earlier ++ [exchange]).countP signals = 1
  established : exchange.signals = true → exchange.after = some .established

instance (exchange : Exchange H) : Decidable exchange.Answered :=
  inferInstanceAs (Decidable (∀ response ∈ exchange.ackResponse, _))

instance (earlier : List (Exchange H)) (exchange : Exchange H) :
    Decidable (exchange.Completes earlier) :=
  decidable_of_iff (exchange.Answered ∧
    (exchange.before ≠ some .established → exchange.after = some .established →
      (earlier ++ [exchange]).countP signals = 1) ∧
    (exchange.signals = true → exchange.after = some .established))
    ⟨fun h => ⟨h.1, h.2.1, h.2.2⟩, fun h => ⟨h.answered, h.signalled, h.established⟩⟩

end Exchange

/-- Whether each of some exchanges is as a handshake asks, after some earlier ones. -/
def CompletesAfter : List (Exchange H) → List (Exchange H) → Prop
  | _, [] => True
  | earlier, exchange :: later =>
      exchange.Completes earlier ∧ CompletesAfter (earlier ++ [exchange]) later

instance CompletesAfter.decidable :
    ∀ earlier later : List (Exchange H), Decidable (CompletesAfter earlier later)
  | _, [] => isTrue trivial
  | earlier, exchange :: later =>
      have : Decidable (CompletesAfter (earlier ++ [exchange]) later) :=
        CompletesAfter.decidable _ later
      inferInstanceAs (Decidable (_ ∧ _))

/-- Whether the handshake completes: each exchange is as it asks. -/
def Conversation.Completes (c : Conversation H) : Prop := CompletesAfter [] c.exchanges

instance (c : Conversation H) : Decidable c.Completes :=
  inferInstanceAs (Decidable (CompletesAfter [] c.exchanges))

theorem completesAfter_append {earlier later : List (Exchange H)} {exchange : Exchange H} :
    CompletesAfter earlier (later ++ [exchange]) ↔
      CompletesAfter earlier later ∧ exchange.Completes (earlier ++ later) := by
  induction later generalizing earlier with
  | nil =>
      rw [List.append_nil]
      exact ⟨fun h => ⟨trivial, h.1⟩, fun h => ⟨h.2, trivial⟩⟩
  | cons first later ih =>
      rw [List.cons_append, CompletesAfter, CompletesAfter, ih, and_assoc, List.append_assoc]
      rfl

/-- A message ACK whose signature over a challenge is valid. -/
def IsAck (L : Libs) (currency challenge : String) (msg : Json) : Prop :=
  msg.str "auth" = some "ACK" ∧ ∃ message ∈ WS2PAckMessageV1.parse L msg currency,
    WS2PAckMessageV1.verify L { message with challenge } = true

instance (challenge : String) (msg : Json) : Decidable (IsAck L currency challenge msg) :=
  inferInstanceAs (Decidable (_ ∧ _))

theorem isAck_iff {challenge : String} {msg : Json} :
    IsAck L currency challenge msg ↔ ∃ key, AckFrom L currency key challenge msg := by
  constructor
  · rintro ⟨hauth, message, hparse, hverify⟩
    exact ⟨message.pubkey, hauth, message, hparse, hverify, rfl⟩
  · rintro ⟨key, hauth, message, hparse, hverify, -⟩
    exact ⟨hauth, message, hparse, hverify⟩

/-- The messages with which a handshake goes on as it should: no valid message ACK comes once the
message OK of the peer has been received. -/
def Conversation.AckFirst (L : Libs) (currency : String) (c : Conversation H)
    (message : Nat × Json) : Prop :=
  c.datas.state = .okMessOkWaitingAckMess → ¬ IsAck L currency c.datas.challenge message.2

instance (c : Conversation H) (message : Nat × Json) :
    Decidable (c.AckFirst L currency message) :=
  inferInstanceAs (Decidable (_ → ¬ _))

/-! ## What relaying a message does -/

/-- What holds all along the conversation of an open connection. -/
structure Linked (id : NodeFullId) (c : Conversation H) : Prop where
  sender : c.datas.nodeFullId = .ok id
  known : (c.ws2pModule.stateOf id).isSome = true
  socket : (c.ws2pModule.websockets.get? id).isSome = true
  recorded : c.datas.state ≠ .waitingConnectMess →
    c.ws2pModule.stateOf id = some c.datas.state
  unsignalled : c.datas.state ≠ .established → c.exchanges.countP Exchange.signals = 0

variable {id : NodeFullId} {c c' : Conversation H} {message : Nat × Json}

section Treats

variable {sends : Bool} {state state' : Option WS2PConnectionState}
  {socket socket' : Option WsSender} {payload : WS2Pv1MsgPayload} {signal : WS2PSignal H}
  {sent : List (WsSender × String)} {response : String} {newState : WS2PConnectionState}

/-- A payload of content changes nothing of the endpoint. -/
theorem Treats.of_content (hcontent : payload.IsContent)
    (h : Treats sends id state socket payload state' socket' signal sent) :
    state' = state ∧ socket' = socket ∧ signal.IsContent ∧ sent = [] := by
  cases h with
  | content _ hsignal => exact ⟨rfl, rfl, hsignal, rfl⟩
  | failed hmem =>
      simp only [List.mem_cons, List.not_mem_nil, or_false] at hmem
      rcases hmem with rfl | rfl | rfl <;> cases hcontent
  | _ => cases hcontent

/-- A valid message CONNECT on an open connection. -/
theorem Treats.of_connect (hsocket : socket.isSome = true)
    (h : Treats true id state socket (.validConnectMessage response newState) state' socket'
      signal sent) : state' = some newState ∧ socket' = socket ∧ signal.IsContent := by
  cases h with
  | content hcontent => cases hcontent
  | failed hmem => simp at hmem
  | connect _ _ hsignal => exact ⟨rfl, rfl, hsignal.isContent⟩
  | connectUnsent _ hsends => cases hsends
  | connectClosed hnone =>
      rw [hnone] at hsocket
      cases hsocket

/-- A valid message ACK on an open connection: it is answered when it is the first of the two. -/
theorem Treats.of_ack
    (h : Treats true id state socket (.validAckMessage response newState) state' socket'
      signal sent) :
    state' = some newState ∧ socket' = socket ∧ signal.IsContent ∧
      (response ∈ sent.map Prod.snd ↔ newState = .ackMessOk) := by
  cases h with
  | content hcontent => cases hcontent
  | failed hmem => simp at hmem
  | ack _ _ hsignal =>
      exact ⟨rfl, rfl, hsignal.isContent, iff_of_true List.mem_cons_self rfl⟩
  | ackUnsent _ hsends => cases hsends
  | ackUnanswered hne hsignal =>
      exact ⟨rfl, rfl, hsignal.isContent, iff_of_false List.not_mem_nil hne⟩

/-- A valid message OK that is the first of the two. -/
theorem Treats.of_okWaiting
    (h : Treats sends id state socket (.validOk .okMessOkWaitingAckMess) state' socket' signal
      sent) :
    state' = some .okMessOkWaitingAckMess ∧ socket' = socket ∧ signal.IsContent := by
  cases h with
  | content hcontent => cases hcontent
  | failed hmem => simp at hmem
  | okWaiting => exact ⟨rfl, rfl, trivial⟩
  | okClosed hne => exact absurd rfl hne

/-- A valid message OK that is the second of the two. -/
theorem Treats.of_okEstablished
    (h : Treats sends id state socket (.validOk .established) state' socket' signal sent) :
    state' = some .established ∧ socket' = socket ∧ signal = .connectionEstablished id := by
  cases h with
  | content hcontent => cases hcontent
  | failed hmem => simp at hmem
  | okEstablished => exact ⟨rfl, rfl, rfl⟩
  | okClosed _ hne => exact absurd rfl hne

end Treats

theorem WS2PSignal.IsContent.signals_eq_false {exchange : Exchange H}
    (h : exchange.signal.IsContent) : exchange.signals = false := by
  unfold Exchange.signals
  split
  case h_1 hsignal =>
    rw [hsignal] at h
    cases h
  case h_2 => rfl

/-- An exchange that leaves the endpoint not newly established, without a signal, is as the
handshake asks when the message is answered. -/
theorem Exchange.completes_of_quiet {earlier : List (Exchange H)} {exchange : Exchange H}
    (hanswered : exchange.Answered) (hsignals : exchange.signals = false)
    (hafter : exchange.before ≠ some .established → exchange.after ≠ some .established) :
    exchange.Completes earlier where
  answered := hanswered
  signalled hbefore hestablished := absurd hestablished (hafter hbefore)
  established h := absurd (hsignals.symm.trans h) nofun

theorem countP_append_quiet {earlier : List (Exchange H)} {exchange : Exchange H}
    (hsignals : exchange.signals = false) :
    (earlier ++ [exchange]).countP Exchange.signals = earlier.countP Exchange.signals := by
  rw [List.countP_append, List.countP_singleton, hsignals]
  rfl

/-- A message that does not end the negotiation is not the message ACK that ends it. -/
theorem ackFirst_of_parse {datas : WS2PConnectionMetaDatas} {payload : WS2Pv1MsgPayload}
    (hparse : c.datas.parseAndCheckIncomingMessage L currency keyPair message.2 =
      .ok (datas, payload)) (hstate : datas.state = c.datas.state) :
    c.AckFirst L currency message := by
  intro hwaiting hisAck
  rcases isAck_iff.1 hisAck with ⟨key, hack⟩
  have hnext : WS2PConnectionMetaDatas.stateAfterAck c.datas.state = some .established := by
    rw [hwaiting]
    rfl
  rcases WS2PConnectionMetaDatas.parse_ack keyPair hnext hack with ⟨_, hparse'⟩
  have hdatas := congrArg Prod.fst (Except.ok.inj (hparse'.symm.trans hparse))
  have hestablished : WS2PConnectionState.established = c.datas.state :=
    (congrArg WS2PConnectionMetaDatas.state hdatas).trans hstate
  rw [hwaiting] at hestablished
  cases hestablished

/-- An exchange without a signal keeps the conversation linked, if the negotiation had not ended
before it unless it has ended after it. -/
theorem Linked.quiet (h : Linked id c) {datas : WS2PConnectionMetaDatas} {m : WS2Pv1Module H}
    {exchange : Exchange H} (hsender : datas.nodeFullId = .ok id)
    (hknown : (m.stateOf id).isSome = true) (hsocket : (m.websockets.get? id).isSome = true)
    (hrecorded : datas.state ≠ .waitingConnectMess → m.stateOf id = some datas.state)
    (hsignals : exchange.signals = false)
    (hstate : datas.state ≠ .established → c.datas.state ≠ .established) :
    Linked id ⟨datas, m, c.exchanges ++ [exchange]⟩ := by
  refine ⟨hsender, hknown, hsocket, hrecorded, fun hne => ?_⟩
  rw [countP_append_quiet hsignals]
  exact h.unsignalled (hstate hne)

/-- Relaying a message keeps the conversation linked, and its exchange is as the handshake asks
exactly when it is not a valid message ACK that comes after the message OK. -/
theorem Linked.relay (h : Linked id c) (hrelay : c.relay L currency keyPair message = .ok c') :
    Linked id c' ∧ ∃ exchange, c'.exchanges = c.exchanges ++ [exchange] ∧
      (exchange.Completes c.exchanges ↔ c.AckFirst L currency message) := by
  rw [Conversation.relay, bind_eq_ok_iff] at hrelay
  rcases hrelay with ⟨sender, hsender, hrelay⟩
  obtain rfl := Except.ok.inj (hsender.symm.trans h.sender)
  rw [bind_eq_ok_iff] at hrelay
  rcases hrelay with ⟨⟨datas, payload⟩, hparse, hrelay⟩
  rw [bind_eq_ok_iff] at hrelay
  rcases hrelay with ⟨p, htreat, hrelay⟩
  cases hrelay
  have hparsed := WS2PConnectionMetaDatas.parsed_of_parse
    (WS2PConnectionMetaDatas.remotePubkey_of_nodeFullId h.sender) hparse
  rcases WS2Pv1Module.treated_of_pretreatment htreat with ⟨hsame, htreats⟩
  have hknown := hsame.known.trans h.known
  cases hparsed with
  | content hcontent =>
      rcases htreats.of_content hcontent with ⟨hstate, hsocket, hsignal, -⟩
      refine ⟨h.quiet h.sender hknown (hsocket ▸ h.socket)
        (fun hne => hstate.trans (h.recorded hne)) hsignal.signals_eq_false id, _, rfl, ?_⟩
      refine iff_of_true (Exchange.completes_of_quiet ?_ hsignal.signals_eq_false ?_)
        (ackFirst_of_parse hparse rfl)
      · unfold Exchange.Answered Exchange.ackResponse
        cases payload
        case validAckMessage => cases hcontent
        all_goals exact nofun
      · intro hbefore
        show p.ws2pModule.stateOf sender ≠ _
        rw [hstate]
        exact hbefore
  | connect hwaiting hconnect =>
      rcases htreats.of_connect h.socket with ⟨hstate, hsocket, hsignal⟩
      refine ⟨h.quiet h.sender hknown (hsocket ▸ h.socket) (fun _ => hstate)
        hsignal.signals_eq_false fun _ => ?_, _, rfl, ?_⟩
      · rw [hwaiting]
        exact nofun
      · refine iff_of_true (Exchange.completes_of_quiet nofun hsignal.signals_eq_false
          fun _ => ?_) fun hwaiting' => absurd (hwaiting.symm.trans hwaiting') nofun
        show p.ws2pModule.stateOf sender ≠ _
        rw [hstate]
        exact nofun
  | ack hnext hack =>
      rcases htreats.of_ack with ⟨hstate, hsocket, hsignal, hanswered⟩
      refine ⟨h.quiet h.sender hknown (hsocket ▸ h.socket) (fun _ => hstate)
        hsignal.signals_eq_false fun _ heq => ?_, _, rfl, ?_⟩
      · rw [heq] at hnext
        cases hnext
      · rcases stateAfterAck_eq_some_iff.1 hnext with ⟨hbefore, rfl⟩ | ⟨hbefore, rfl⟩
        · refine iff_of_true (Exchange.completes_of_quiet ?_ hsignal.signals_eq_false
            fun _ => ?_) fun hwaiting => absurd (hbefore.symm.trans hwaiting) nofun
          · rintro _ ⟨⟩
            exact hanswered.2 rfl
          · show p.ws2pModule.stateOf sender ≠ _
            rw [hstate]
            exact nofun
        · refine iff_of_false (fun hcompletes => ?_)
            fun hfirst => hfirst hbefore (isAck_iff.2 ⟨_, hack⟩)
          cases hanswered.1 (hcompletes.answered _ rfl)
  | ok hnext hok =>
      have hne : c.datas.state ≠ .established := by
        intro heq
        rw [heq] at hnext
        cases hnext
      rcases stateAfterOk_eq_some_iff.1 hnext with ⟨hbefore, rfl⟩ | ⟨hbefore, rfl⟩
      · rcases htreats.of_okWaiting with ⟨hstate, hsocket, hsignal⟩
        refine ⟨h.quiet h.sender hknown (hsocket ▸ h.socket) (fun _ => hstate)
          hsignal.signals_eq_false fun _ => hne, _, rfl, ?_⟩
        refine iff_of_true (Exchange.completes_of_quiet nofun hsignal.signals_eq_false
          fun _ => ?_) fun hwaiting => absurd (hbefore.symm.trans hwaiting) nofun
        show p.ws2pModule.stateOf sender ≠ _
        rw [hstate]
        exact nofun
      · rcases htreats.of_okEstablished with ⟨hstate, hsocket, hsignal⟩
        refine ⟨⟨h.sender, hknown, hsocket ▸ h.socket, fun _ => hstate,
          fun hne => absurd rfl hne⟩, _, rfl, ?_⟩
        refine iff_of_true ⟨nofun, fun _ _ => ?_, fun _ => hstate⟩
          fun hwaiting => absurd (hbefore.symm.trans hwaiting) nofun
        rw [List.countP_append, h.unsignalled hne, List.countP_singleton, hsignal]
        rfl

/-! ## Complete conversations -/

/-- The start of a conversation: the connection to an endpoint that is known is new, and its
websocket is stored. -/
structure Opened (endpoint : EndpointV1) (c : Conversation H) : Prop where
  datas : connectionMetaDatas endpoint = .ok c.datas
  known : ∃ id ∈ endpoint.nodeFullId, (c.ws2pModule.ws2pEndpoints.get? id).isSome = true ∧
    (c.ws2pModule.websockets.get? id).isSome = true
  exchanges : c.exchanges = []

theorem Opened.linked {endpoint : EndpointV1} (h : Opened endpoint c) : ∃ id, Linked id c := by
  rcases h.known with ⟨id, hid, hknown, hsocket⟩
  have hstate := (new_of_connectionMetaDatas h.datas).state
  have hsender : c.datas.nodeFullId = .ok id := by
    have hdatas := h.datas
    rw [connectionMetaDatas, bind_eq_ok_iff] at hdatas
    rcases hdatas with ⟨nodeId, hnodeId, hdatas⟩
    rw [expect_eq_ok_iff] at hnodeId
    rw [pure_eq_ok_iff] at hdatas
    rw [← hdatas]
    rw [EndpointV1.nodeFullId, hnodeId] at hid
    cases hid
    rfl
  refine ⟨id, hsender, ?_, hsocket, fun hne => absurd hstate hne, fun _ => ?_⟩
  · rw [WS2Pv1Module.stateOf, Option.isSome_map]
    exact hknown
  · rw [h.exchanges]
    rfl

/-- Messages complete a handshake exactly when it has been complete before them and each of them
is relayed as it goes on. -/
theorem Linked.completes_run {messages : List (Nat × Json)} (h : Linked id c)
    (hrun : messages.foldlM (Conversation.relay L currency keyPair) c = .ok c') :
    c'.Completes ↔ c.Completes ∧
      Throughout (Conversation.relay L currency keyPair) (Conversation.AckFirst L currency) c
        messages := by
  induction messages generalizing c with
  | nil =>
      cases hrun
      exact (and_iff_left trivial).symm
  | cons message messages ih =>
      rw [List.foldlM_cons, bind_eq_ok_iff] at hrun
      rcases hrun with ⟨mid, hrelay, hrun⟩
      rcases h.relay hrelay with ⟨hlinked, exchange, hexchanges, hcompletes⟩
      have hmid : mid.Completes ↔ c.Completes ∧ c.AckFirst L currency message := by
        rw [Conversation.Completes, hexchanges, completesAfter_append, List.nil_append,
          hcompletes]
        rfl
      rw [ih hlinked hrun, hmid, and_assoc]
      simp only [Throughout, hrelay]

/-- A handshake completes exactly when no valid message ACK comes after the message OK. -/
theorem Opened.handshake_completes_iff {endpoint : EndpointV1} {messages : List (Nat × Json)}
    (h : Opened endpoint c)
    (hrun : messages.foldlM (Conversation.relay L currency keyPair) c = .ok c') :
    c'.Completes ↔
      Throughout (Conversation.relay L currency keyPair) (Conversation.AckFirst L currency) c
        messages := by
  rcases h.linked with ⟨id, hlinked⟩
  have hempty : c.Completes := by
    rw [Conversation.Completes, h.exchanges]
    trivial
  rw [hlinked.completes_run hrun, and_iff_right hempty]

/-! ## The message ACK after the message OK -/

/-- Heads are not read on the example connection. -/
def connectionHeads : HeadLibs where
  NetworkHead := Unit
  fromJsonValue _ := some none
  verify _ := some false
  nodeFullId _ := ⟨0, ownKeyPair.pubkey⟩
  apply _ heads := (heads, false)

/-- The node of the example connection. -/
def connectionNode : NodeFullId := ⟨0xc1c39a0a, connectionEndpoint.issuer⟩

/-- The example connection, which has just been opened. -/
def connectionStart : Conversation connectionHeads where
  datas := connectionDatas
  ws2pModule := {
    conf := { outcomingQuota := 10, preferedPubkeys := ∅, syncEndpoints := [] }
    currency := "g1"
    headsCache := ∅
    keyPair := ownKeyPair
    myHead := none
    requestsAwaitingResponse := ∅
    ssl := false
    websockets := HashMap.insert ∅ connectionNode ⟨0⟩
    ws2pEndpoints := HashMap.insert ∅ connectionNode
      { ep := connectionEndpoint, state := .close, lastCheck := 0 } }
  exchanges := []

theorem opened_connectionStart : Opened connectionEndpoint connectionStart where
  datas := connectionMetaDatas_connectionEndpoint
  known := ⟨connectionNode, rfl, by decide +kernel, by decide +kernel⟩
  exchanges := rfl

/-- Relay the messages of the example connection. -/
def connectionRun (messages : List Json) : Run (Conversation connectionHeads) :=
  (messages.map (Prod.mk 0)).foldlM (Conversation.relay connectionLibs "g1" ownKeyPair)
    connectionStart

/-- With the message ACK first, the handshake completes. -/
theorem completes_ackFirst : ∃ c, connectionRun [endpointConnect, endpointAck, endpointOk] = .ok c ∧
    c.Completes := by
  have hreturns : Returns (connectionRun [endpointConnect, endpointAck, endpointOk]) := by
    decide +kernel
  rcases hreturns with ⟨c, hrun⟩
  exact ⟨c, hrun, (opened_connectionStart.handshake_completes_iff hrun).2 (by decide +kernel)⟩

/-- With the message OK first, it does not: the connection becomes established, and neither is the
message ACK answered nor a signal returned. -/
theorem not_completes_okFirst : ∃ c,
    connectionRun [endpointConnect, endpointOk, endpointAck] = .ok c ∧ ¬ c.Completes ∧
      c.ws2pModule.stateOf connectionNode = some .established ∧
      c.exchanges.countP Exchange.signals = 0 := by
  decide +kernel

end Durs.Ws2pV1
