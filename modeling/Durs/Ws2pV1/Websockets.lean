/-
# Established endpoints have a websocket

The state of an endpoint and its websocket are kept by node, and several connections to a node may
be open: what ends one of them takes away the websocket of another.  The tables agree along a run
exactly when each message that ends or goes on with a negotiation finds a websocket stored for its
node.
-/

import Durs.Ws2pV1.Handshake
import Durs.Ws2pV1.Steps

namespace Durs.Ws2pV1

open Lib RustStd Network WS2Pv1Module

variable {H : HeadLibs} {L : Libs} {m m' : WS2Pv1Module H} {id : NodeFullId}
  {env : Surroundings} {payload : WS2Pv1MsgPayload}

/-- Whether a websocket is stored for each endpoint that is recorded as established. -/
def WS2Pv1Module.StatesAgree (m : WS2Pv1Module H) : Prop :=
  ∀ id, m.stateOf id = some .established → (m.websockets.get? id).isSome = true

/-- The payloads that have to find a websocket: a valid message ACK, and a valid message OK that
ends the negotiation. -/
def WS2Pv1MsgPayload.NeedsWebsocket : WS2Pv1MsgPayload → Prop
  | .validAckMessage _ state => state = .ackMessOk ∨ state = .established
  | .validOk state => state = .established
  | _ => False

instance : DecidablePred WS2Pv1MsgPayload.NeedsWebsocket
  | .validAckMessage _ state => inferInstanceAs (Decidable (state = _ ∨ state = _))
  | .validOk state => inferInstanceAs (Decidable (state = _))
  | .failOpenWS | .wrongUrl | .failToSplitWS | .tryToSendConnectMess | .failSendConnectMess
  | .websocketOk _ | .negociationTimeout | .validConnectMessage _ _ | .request _ _
  | .peerCard _ _ | .heads _ | .document _ | .reqResponse _ _ | .invalidMessage
  | .wrongFormatMessage | .unknowMessage | .timeout | .close => isFalse not_false

/-! ## One message -/

theorem WS2Pv1MsgPayload.IsContent.not_needsWebsocket (h : payload.IsContent) :
    ¬ payload.NeedsWebsocket := by
  cases payload
  case validAckMessage | validOk => cases h
  all_goals exact not_false

/-- A treatment leaves the entries of the node in agreement exactly when the payload finds the
websocket that it needs. -/
theorem Treats.agrees_iff {sends : Bool} {state state' : Option WS2PConnectionState}
    {socket socket' : Option WsSender} {signal : WS2PSignal H} {sent : List (WsSender × String)}
    (h : Treats sends id state socket payload state' socket' signal sent)
    (hagree : state = some .established → socket.isSome = true) :
    (state' = some .established → socket'.isSome = true) ↔
      (payload.NeedsWebsocket → socket.isSome = true) := by
  cases h with
  | content hcontent => exact iff_of_true hagree fun h => absurd h hcontent.not_needsWebsocket
  | failed hmem =>
      refine iff_of_true nofun fun h => ?_
      simp only [List.mem_cons, List.not_mem_nil, or_false] at hmem
      rcases hmem with rfl | rfl | rfl <;> cases h
  | tryToSendConnectMess | failSendConnectMess => exact iff_of_true nofun nofun
  | websocketOk => exact iff_of_true (fun _ => rfl) nofun
  | connect hsocket | connectUnsent hsocket =>
      exact iff_of_true (fun _ => by rw [hsocket]; rfl) nofun
  | connectClosed => exact iff_of_true nofun nofun
  | ack hsocket | ackUnsent hsocket =>
      exact iff_of_true nofun fun _ => by rw [hsocket]; rfl
  | ackUnanswered hne =>
      rw [Option.some_inj]
      exact ⟨fun h hneeds => h (hneeds.resolve_left hne), fun h heq => h (Or.inr heq)⟩
  | okWaiting => exact iff_of_true nofun nofun
  | okEstablished => exact ⟨fun h _ => h rfl, fun h _ => h rfl⟩
  | okClosed _ hne => exact iff_of_true nofun fun h => absurd h hne
  | negociationTimeout hmem =>
      refine iff_of_true (fun heq => ?_) nofun
      cases Option.some.inj heq
      simp at hmem
  | timeout | close =>
      refine iff_of_true (fun heq => ?_) nofun
      cases state <;> cases heq

/-- A treatment that has the connection closed has found the websocket. -/
theorem Treats.websocket_of_wsError {sends : Bool} {state state' : Option WS2PConnectionState}
    {socket socket' : Option WsSender} {sent : List (WsSender × String)} {closed : NodeFullId}
    (h : Treats sends id state socket payload state' socket' (.wsError closed : WS2PSignal H) sent)
    (hneeds : payload.NeedsWebsocket) : socket.isSome = true := by
  cases h with
  | failed hmem =>
      simp only [List.mem_cons, List.not_mem_nil, or_false] at hmem
      rcases hmem with rfl | rfl | rfl <;> cases hneeds
  | connectUnsent => cases hneeds
  | ackUnsent hsocket => rw [hsocket]; rfl
  | _ => contradiction

namespace WS2Pv1Module

theorem SameBut.statesAgree_iff (h : SameBut id m m') (hagree : m.StatesAgree) :
    m'.StatesAgree ↔
      (m'.stateOf id = some .established → (m'.websockets.get? id).isSome = true) := by
  refine ⟨fun h => h id, fun hid id' hstate => ?_⟩
  by_cases heq : id' = id
  · rw [heq] at hstate ⊢
    exact hid hstate
  · rw [h.websocket id' heq]
    exact hagree id' (h.stateOf heq ▸ hstate)

theorem Grows.statesAgree_iff (h : Grows m m') : m'.StatesAgree ↔ m.StatesAgree := by
  unfold StatesAgree
  rw [h.websockets]
  exact forall_congr' fun id => imp_congr_left (h.established_iff id)

theorem StatesAgree.closeConnection (hagree : m.StatesAgree) (env : Surroundings)
    (id : NodeFullId) : (m.closeConnection env id .wsError).StatesAgree := by
  exact ((sameBut_closeConnection env .wsError).statesAgree_iff hagree).2 fun hstate =>
    absurd hstate stateOf_closeConnection_wsError

/-- The tables agree after a message exactly when it finds the websocket that it needs. -/
theorem statesAgree_receiveMessage_iff {threads : List ConnectionThread}
    (hagree : m.StatesAgree) (h : m.receiveMessage env ⟨id, payload⟩ = .ok (m', threads)) :
    m'.StatesAgree ↔
      (payload.NeedsWebsocket → (m.websockets.get? id).isSome = true) := by
  rw [receiveMessage, bind_eq_ok_iff] at h
  rcases h with ⟨p, htreat, h⟩
  rcases treated_of_pretreatment htreat with ⟨hsame, htreats⟩
  have hpretreated := (hsame.statesAgree_iff hagree).trans (htreats.agrees_iff (hagree id))
  rcases (closes_or_grows_of_receiveSignal h).1 with ⟨closed, hsignal, rfl⟩ | ⟨-, hgrows⟩
  · rw [hsignal] at htreats
    have hfound := htreats.websocket_of_wsError
    exact iff_of_true ((hpretreated.2 hfound).closeConnection env closed) hfound
  · exact hgrows.statesAgree_iff.trans hpretreated

end WS2Pv1Module

/-! ## Runs -/

namespace System

variable {s s' : System H}

/-- Whether a message finds the websocket that it needs, if a step sends one. -/
def WebsocketStored (L : Libs) (s : System H) : Step → Prop
  | .connection connection event _ => ∀ message ∈ s.sent L connection event,
      message.payload.NeedsWebsocket →
        (s.ws2pModule.websockets.get? message.sender).isSome = true
  | .wave _ => True

instance (s : System H) : ∀ step, Decidable (s.WebsocketStored L step)
  | .connection connection event _ =>
      inferInstanceAs (Decidable (∀ message ∈ s.sent L connection event, _))
  | .wave _ => isTrue trivial

/-- Whether a step leads to the fatal error of a missing websocket. -/
def MissesWebsocket (L : Libs) (s : System H) : Step → Prop
  | .connection connection event env => ∃ message ∈ s.sent L connection event,
      s.ws2pModule.ws2pRecvMessagePretreatment env message = .error noWebsocket
  | .wave _ => False

/-- The tables agree after a step exactly when its message finds the websocket that it needs. -/
theorem statesAgree_step_iff {step : Step} (hagree : s.ws2pModule.StatesAgree)
    (h : s.step L step = .ok s') : s'.ws2pModule.StatesAgree ↔ s.WebsocketStored L step := by
  cases step with
  | connection connection event env =>
      rcases connectionStep_cases h with ⟨hsent, rfl⟩ |
        ⟨thread, thread', message, -, -, hsent,
          ⟨rfl, rfl⟩ | ⟨told, kept, started, rfl, hreceive, rfl⟩⟩
      · refine iff_of_true hagree fun message hmem => ?_
        rw [hsent] at hmem
        cases hmem
      · refine iff_of_true hagree fun message hmem => ?_
        rw [hsent] at hmem
        cases hmem
      · refine (statesAgree_receiveMessage_iff hagree hreceive).trans ?_
        show _ ↔ ∀ message ∈ s.sent L connection event, _
        rw [hsent]
        simp only [Option.mem_some_iff, forall_eq']
  | wave order =>
      refine iff_of_true ?_ trivial
      rw [step, waveStep] at h
      split at h
      case isTrue =>
        rw [bind_eq_ok_iff] at h
        rcases h with ⟨started, -, h⟩
        cases h
        exact hagree
      case isFalse =>
        cases h
        exact hagree

instance (s : System H) : ∀ step, Decidable (s.MissesWebsocket L step)
  | .connection connection event _ =>
      inferInstanceAs (Decidable (∃ message ∈ s.sent L connection event, _))
  | .wave _ => isFalse not_false

/-- A message that finds the websocket that it needs does not lead to the fatal error. -/
theorem WebsocketStored.not_missesWebsocket {step : Step} (h : s.WebsocketStored L step) :
    ¬ s.MissesWebsocket L step := by
  cases step with
  | connection connection event env =>
      rintro ⟨⟨sender, payload⟩, hsent, hfatal⟩
      rcases needsWebsocket_of_fatal hfatal with ⟨⟨response, rfl⟩, hnone⟩
      have hfound := h _ hsent (Or.inl rfl)
      rw [hnone] at hfound
      cases hfound
  | wave order => exact not_false

variable {conf : WS2PConf} {currency : String} {keyPair : KeyPair} {ssl : Bool}
  {saved : List (NodeFullId × DbEndpoint)} {order : WaveOrder}

/-- Along a run, a websocket is stored for each established endpoint exactly when each message
finds the websocket that it needs; a message that does leads to no fatal error. -/
theorem websockets_agree_iff (hstart : start conf currency keyPair ssl saved order = .ok s)
    {steps : List Step} (hrun : steps.foldlM (step L) s = .ok s') :
    ((∀ steps' s'', steps' <+: steps → steps'.foldlM (step L) s = .ok s'' →
        s''.ws2pModule.StatesAgree) ↔ Throughout (step L) (WebsocketStored L) s steps) ∧
      ∀ step, s'.WebsocketStored L step → ¬ s'.MissesWebsocket L step := by
  have hinit : s.ws2pModule.StatesAgree := fun id hstate =>
    absurd hstate (stateOf_start_ne_established hstart id)
  constructor
  · exact forall_prefix_iff_throughout (I := fun s => s.ws2pModule.StatesAgree)
      (fun _ _ _ => statesAgree_step_iff) hinit hrun
  · exact fun _ => WebsocketStored.not_missesWebsocket

end System

/-! ## Two connections to one node -/

/-- The field of a JSON object whose value is a text. -/
def textField (name value : String) : String := "\"" ++ name ++ "\":\"" ++ value ++ "\""

/-- The texts of the messages of the endpoint. -/
def endpointTexts : List (String × Json) :=
  [("\x7b" ++ textField "auth" "CONNECT" ++ "," ++ textField "pub" exampleKeyText ++ "," ++
      textField "challenge" endpointChallenge ++ "," ++
      textField "sig" connectSig.printed ++ "\x7d", endpointConnect),
    ("\x7b" ++ textField "auth" "ACK" ++ "," ++ textField "pub" exampleKeyText ++ "," ++
      textField "sig" ackSig.printed ++ "\x7d", endpointAck),
    ("\x7b" ++ textField "auth" "OK" ++ "," ++ textField "sig" okSig.printed ++ "\x7d",
      endpointOk)]

/-- The other libraries on the example connection, which read the texts of its messages. -/
def wireLibs : Libs := { connectionLibs with jsonFromStr := fun text => endpointTexts.lookup text }

/-- Nothing is reordered. -/
def sameOrder : WaveOrder := ⟨.same, .same⟩

/-- The module starts with the endpoint of the example connection, and tries it. -/
def exampleStart : Run (System connectionHeads) :=
  System.start { outcomingQuota := 10, preferedPubkeys := ∅, syncEndpoints := [connectionEndpoint] }
    "g1" ownKeyPair false [] sameOrder

/-- An event on a connection at the start of time, where what is sent is sent. -/
def stepOf (connection : Nat) (event : ConnectionEvent) : Step :=
  .connection connection event { now := 0, sends := true, reqId := 0 }

/-- A message of the endpoint is received. -/
def receives (connection : Nat) (i : Nat) : Step :=
  stepOf connection (.message ((endpointTexts[i]?.map Prod.fst).getD ""))

/-- The handshake of the example connection. -/
def handshakeSteps : List Step :=
  [stepOf 0 .opened, receives 0 0, receives 0 1, receives 0 2]

theorem websockets_agree_handshake : ∃ s, exampleStart = .ok s ∧
    ∃ s', handshakeSteps.foldlM (System.step wireLibs) s = .ok s' ∧
      s'.ws2pModule.stateOf connectionNode = some .established ∧
      (∀ steps s'', steps <+: handshakeSteps → steps.foldlM (System.step wireLibs) s = .ok s'' →
        s''.ws2pModule.StatesAgree) ∧
      ¬ s'.MissesWebsocket wireLibs (receives 0 1) := by
  have hruns : ∃ s, exampleStart = .ok s ∧
      (Throughout (System.step wireLibs) (System.WebsocketStored wireLibs) s handshakeSteps ∧
        ∃ s', handshakeSteps.foldlM (System.step wireLibs) s = .ok s' ∧
          (s'.ws2pModule.stateOf connectionNode = some .established ∧
            s'.WebsocketStored wireLibs (receives 0 1))) := by
    decide +kernel
  rcases hruns with ⟨s, hstart, hthroughout, s', hrun, hstate, hstored⟩
  have hagree := System.websockets_agree_iff hstart hrun
  exact ⟨s, hstart, s', hrun, hstate, hagree.1.2 hthroughout, hagree.2 _ hstored⟩

/-- The endpoint is tried twice, and both connections are opened. -/
def twiceSteps : List Step := [.wave sameOrder, stepOf 0 .opened, stepOf 1 .opened, receives 0 0]

/-- When one of two connections to a node is closed, the message ACK on the other stops the
process, or leaves it established without a websocket. -/
theorem not_websockets_agree : ∃ s, exampleStart = .ok s ∧
    (∃ s', (twiceSteps ++ [stepOf 1 .closed]).foldlM (System.step wireLibs) s = .ok s' ∧
      s'.MissesWebsocket wireLibs (receives 0 1)) ∧
    ∃ s', (twiceSteps ++ [receives 0 2, stepOf 1 .closed, receives 0 1]).foldlM
      (System.step wireLibs) s = .ok s' ∧ ¬ s'.ws2pModule.StatesAgree := by
  have hruns : ∃ s, exampleStart = .ok s ∧
      ((∃ s', (twiceSteps ++ [stepOf 1 .closed]).foldlM (System.step wireLibs) s = .ok s' ∧
        s'.MissesWebsocket wireLibs (receives 0 1)) ∧
      ∃ s', (twiceSteps ++ [receives 0 2, stepOf 1 .closed, receives 0 1]).foldlM
        (System.step wireLibs) s = .ok s' ∧
          (s'.ws2pModule.stateOf connectionNode = some .established ∧
            s'.ws2pModule.websockets.get? connectionNode = none)) := by
    decide +kernel
  rcases hruns with ⟨s, hstart, hfatal, s', hrun, hstate, hsocket⟩
  refine ⟨s, hstart, hfatal, s', hrun, fun hagree => ?_⟩
  have hfound := hagree connectionNode hstate
  rw [hsocket] at hfound
  cases hfound

end Durs.Ws2pV1
