/-
# What the first treatment of a message does

A message of a node changes what the two tables hold of this node, and of no other.  `Treats` lists,
for each payload, the state recorded of the endpoint, the websocket stored, the signal and the
texts sent; it leaves out what nothing about connections depends on.
-/

import Durs.Ws2pV1.Authentication
import Durs.Ws2pV1.Module

namespace Durs.Ws2pV1

open RustStd Network

variable {H : HeadLibs} {m m' m'' : WS2Pv1Module H} {id : NodeFullId} {env : Surroundings}

/-- The signals on which the main loop leaves the tables as they are, and those that name
endpoints. -/
def WS2PSignal.IsContent : WS2PSignal H → Prop
  | .request .. | .peerCard .. | .heads .. | .document .. | .reqResponse .. | .empty
  | .noConnection => True
  | _ => False

/-- The signals that say at most that there is no connection. -/
def WS2PSignal.IsQuiet : WS2PSignal H → Prop
  | .empty | .noConnection => True
  | _ => False

theorem WS2PSignal.IsQuiet.isContent {signal : WS2PSignal H} (h : signal.IsQuiet) :
    signal.IsContent := by
  cases signal
  case empty | noConnection => trivial
  all_goals cases h

namespace WS2Pv1Module

/-- The state recorded of an endpoint, if it is known. -/
def stateOf (m : WS2Pv1Module H) (id : NodeFullId) : Option WS2PConnectionState :=
  (m.ws2pEndpoints.get? id).map DbEndpoint.state

/-- Whether only the pending requests and the heads have changed. -/
def SameTables (m m' : WS2Pv1Module H) : Prop :=
  ∃ requestsAwaitingResponse headsCache,
    m' = { m with requestsAwaitingResponse, headsCache }

/-- What stays of the module when a message of a node is treated. -/
structure SameBut (id : NodeFullId) (m m' : WS2Pv1Module H) : Prop where
  conf : m'.conf = m.conf
  keyPair : m'.keyPair = m.keyPair
  currency : m'.currency = m.currency
  ssl : m'.ssl = m.ssl
  endpoint : ∀ id', id' ≠ id → m'.ws2pEndpoints.get? id' = m.ws2pEndpoints.get? id'
  websocket : ∀ id', id' ≠ id → m'.websockets.get? id' = m.websockets.get? id'
  known : (m'.stateOf id).isSome = (m.stateOf id).isSome

theorem SameTables.refl (m : WS2Pv1Module H) : m.SameTables m := ⟨_, _, rfl⟩

theorem SameTables.trans (h : m.SameTables m') (h' : m'.SameTables m'') : m.SameTables m'' := by
  rcases h with ⟨_, _, rfl⟩
  rcases h' with ⟨requests, heads, rfl⟩
  exact ⟨requests, heads, rfl⟩

theorem SameTables.sameBut (h : m.SameTables m') (id : NodeFullId) : SameBut id m m' := by
  rcases h with ⟨_, _, rfl⟩
  exact ⟨rfl, rfl, rfl, rfl, fun _ _ => rfl, fun _ _ => rfl, rfl⟩

theorem SameBut.trans (h : SameBut id m m') (h' : SameBut id m' m'') : SameBut id m m'' where
  conf := h'.conf.trans h.conf
  keyPair := h'.keyPair.trans h.keyPair
  currency := h'.currency.trans h.currency
  ssl := h'.ssl.trans h.ssl
  endpoint id' hne := (h'.endpoint id' hne).trans (h.endpoint id' hne)
  websocket id' hne := (h'.websocket id' hne).trans (h.websocket id' hne)
  known := h'.known.trans h.known

theorem SameBut.stateOf (h : SameBut id m m') {id' : NodeFullId} (hne : id' ≠ id) :
    m'.stateOf id' = m.stateOf id' :=
  congrArg (Option.map DbEndpoint.state) (h.endpoint id' hne)

/-! ## What each operation does -/

/-- Recording something of an endpoint that is known. -/
structure Records (id : NodeFullId) (state : WS2PConnectionState) (m m' : WS2Pv1Module H) :
    Prop where
  sameBut : SameBut id m m'
  known : (m.stateOf id).isSome = true
  state : m'.stateOf id = some state
  websockets : m'.websockets = m.websockets

theorem records_of_updateEndpoint {f : DbEndpoint → DbEndpoint} {state : WS2PConnectionState}
    (hf : ∀ dalEp, (f dalEp).state = state) (h : m.updateEndpoint id f = .ok m') :
    Records id state m m' := by
  rw [updateEndpoint, bind_eq_ok_iff] at h
  rcases h with ⟨dalEp, hep, h⟩
  rw [expect_eq_ok_iff] at hep
  cases h
  have hknown : (m.stateOf id).isSome = true := by rw [stateOf, hep]; rfl
  have hstate : (Option.map DbEndpoint.state
      ((m.ws2pEndpoints.insert id (f dalEp)).get? id)) = some state := by
    rw [HashMap.get?_insert_self, Option.map_some, hf]
  exact {
    sameBut := {
      conf := rfl
      keyPair := rfl
      currency := rfl
      ssl := rfl
      endpoint := fun id' hne => HashMap.get?_insert_of_ne _ _ hne
      websocket := fun _ _ => rfl
      known := by rw [hknown, stateOf, hstate]; rfl }
    known := hknown
    state := hstate
    websockets := rfl }

theorem records_of_setState {state : WS2PConnectionState} (h : m.setState id state = .ok m') :
    Records id state m m' :=
  records_of_updateEndpoint (fun _ => rfl) h

theorem records_of_setChecked {state : WS2PConnectionState}
    (h : m.setChecked env id state = .ok m') : Records id state m m' :=
  records_of_updateEndpoint (fun _ => rfl) h

/-- The state of an endpoint after its connection is closed. -/
def stateAfterClose (reason : WS2PCloseConnectionReason) (state : Option WS2PConnectionState) :
    Option WS2PConnectionState :=
  if reason = .negociationTimeout then state else state.map fun _ => .close

theorem stateOf_closeConnection (reason : WS2PCloseConnectionReason) :
    (m.closeConnection env id reason).stateOf id = stateAfterClose reason (m.stateOf id) := by
  unfold closeConnection stateAfterClose stateOf
  cases hep : m.ws2pEndpoints.get? id with
  | none => cases reason <;> simp [hep]
  | some dalEp => cases reason <;> simp [hep]

/-- A connection that was lost is not established. -/
theorem stateOf_closeConnection_wsError :
    (m.closeConnection env id .wsError).stateOf id ≠ some .established := by
  intro hstate
  rw [stateOf_closeConnection, stateAfterClose,
    if_neg WS2PCloseConnectionReason.noConfusion] at hstate
  rcases Option.map_eq_some_iff.1 hstate with ⟨_, -, hclosed⟩
  cases hclosed

theorem sameBut_closeConnection (env : Surroundings) (reason : WS2PCloseConnectionReason) :
    SameBut id m (m.closeConnection env id reason) where
  conf := rfl
  keyPair := rfl
  currency := rfl
  ssl := rfl
  endpoint id' hne := by
    unfold closeConnection
    cases m.ws2pEndpoints.get? id with
    | none => cases reason <;> rfl
    | some dalEp =>
        cases reason
        case negociationTimeout => rfl
        all_goals exact HashMap.get?_insert_of_ne _ _ hne
  websocket id' hne := HashMap.get?_remove_of_ne _ hne
  known := by
    rw [stateOf_closeConnection, stateAfterClose]
    split
    · rfl
    · rw [Option.isSome_map]

theorem websocket_closeConnection (reason : WS2PCloseConnectionReason) :
    (m.closeConnection env id reason).websockets.get? id = none :=
  HashMap.get?_remove_self _ _

theorem sameTables_of_checkTimeoutRequests (h : m.checkTimeoutRequests env = .ok m') :
    m.SameTables m' := by
  rw [checkTimeoutRequests, bind_eq_ok_iff] at h
  rcases h with ⟨requestsTimeout, -, h⟩
  cases h
  exact ⟨_, _, rfl⟩

theorem sameTables_of_applyHead {applied applied' : List H.NetworkHead} {head : Json}
    (h : m.applyHead applied head = .ok (m', applied')) : m.SameTables m' := by
  rw [applyHead, bind_eq_ok_iff] at h
  rcases h with ⟨head?, -, h⟩
  cases head? with
  | none =>
      cases h
      exact .refl m
  | some head =>
      rw [bind_eq_ok_iff] at h
      rcases h with ⟨verified, -, h⟩
      split at h
      case isTrue =>
        cases h
        exact ⟨_, _, rfl⟩
      case isFalse =>
        cases h
        exact .refl m

theorem sameTables_of_heads {heads : List Json} {applied applied' : List H.NetworkHead}
    (h : heads.foldlM (fun (m, applied) => m.applyHead applied) (m, applied) =
      .ok (m', applied')) : m.SameTables m' := by
  refine foldlM_preserves (P := fun s : WS2Pv1Module H × List H.NetworkHead => m.SameTables s.1)
    ?_ (SameTables.refl m) h
  rintro ⟨before, applied⟩ head ⟨after, applied'⟩ - hbefore hstep
  exact hbefore.trans (sameTables_of_applyHead hstep)

end WS2Pv1Module

/-! ## What the treatment does for each payload -/

open WS2Pv1Module

/-- What the treatment of a message of a node does to the state recorded of its endpoint and to the
websocket stored for it, and the signal and the texts that it returns. -/
inductive Treats (sends : Bool) (id : NodeFullId) (state : Option WS2PConnectionState)
    (socket : Option WsSender) : WS2Pv1MsgPayload → Option WS2PConnectionState →
    Option WsSender → WS2PSignal H → List (WsSender × String) → Prop
  | content {payload : WS2Pv1MsgPayload} {signal : WS2PSignal H} : payload.IsContent →
      signal.IsContent →
      (∀ sender body endpoints, signal = .peerCard sender body endpoints →
        payload = .peerCard body endpoints) →
      Treats sends id state socket payload state socket signal []
  | failed {payload : WS2Pv1MsgPayload} :
      payload ∈ [.wrongUrl, .failOpenWS, .failToSplitWS] →
      Treats sends id state socket payload (some .wsError) socket (.wsError id) []
  | tryToSendConnectMess {signal : WS2PSignal H} : signal.IsQuiet →
      Treats sends id state socket .tryToSendConnectMess (some .tryToSendConnectMess) socket
        signal []
  | failSendConnectMess {signal : WS2PSignal H} : signal.IsQuiet →
      Treats sends id state socket .failSendConnectMess (some .unreachable) socket signal []
  | websocketOk {sender : WsSender} {signal : WS2PSignal H} : signal.IsQuiet →
      Treats sends id state socket (.websocketOk sender) state (some sender) signal []
  | connect {response : String} {newState : WS2PConnectionState} {websocket : WsSender}
      {signal : WS2PSignal H} : socket = some websocket → sends = true → signal.IsQuiet →
      Treats sends id state socket (.validConnectMessage response newState) (some newState) socket
        signal [(websocket, response)]
  | connectUnsent {response : String} {newState : WS2PConnectionState} {websocket : WsSender} :
      socket = some websocket → sends = false →
      Treats sends id state socket (.validConnectMessage response newState) (some newState) socket
        (.wsError id) []
  | connectClosed {response : String} {newState : WS2PConnectionState} {signal : WS2PSignal H} :
      socket = none → signal.IsQuiet →
      Treats sends id state socket (.validConnectMessage response newState) (some .close) socket
        signal []
  | ack {response : String} {websocket : WsSender} {signal : WS2PSignal H} :
      socket = some websocket → sends = true → signal.IsQuiet →
      Treats sends id state socket (.validAckMessage response .ackMessOk) (some .ackMessOk) socket
        signal [(websocket, response)]
  | ackUnsent {response : String} {websocket : WsSender} : socket = some websocket →
      sends = false →
      Treats sends id state socket (.validAckMessage response .ackMessOk) (some .ackMessOk) socket
        (.wsError id) []
  | ackUnanswered {response : String} {newState : WS2PConnectionState} {signal : WS2PSignal H} :
      newState ≠ .ackMessOk → signal.IsQuiet →
      Treats sends id state socket (.validAckMessage response newState) (some newState) socket
        signal []
  | okWaiting : Treats sends id state socket (.validOk .okMessOkWaitingAckMess)
      (some .okMessOkWaitingAckMess) socket .empty []
  | okEstablished : Treats sends id state socket (.validOk .established) (some .established) socket
      (.connectionEstablished id) []
  | okClosed {newState : WS2PConnectionState} : newState ≠ .okMessOkWaitingAckMess →
      newState ≠ .established →
      Treats sends id state socket (.validOk newState) (some .close) none .empty []
  | negociationTimeout {newState : WS2PConnectionState} :
      newState ∈ [.denial, .noResponse, .unreachable] →
      Treats sends id state socket .negociationTimeout (some newState) none
        (.negociationTimeout id) []
  | timeout : Treats sends id state socket .timeout (state.map fun _ => .close) none
      (.timeout id) []
  | close {signal : WS2PSignal H} : signal.IsQuiet →
      Treats sends id state socket .close (state.map fun _ => .close) none signal []

/-- What is known of a treatment that returns. -/
structure Treated (env : Surroundings) (m : WS2Pv1Module H) (id : NodeFullId)
    (payload : WS2Pv1MsgPayload) (p : Pretreatment H) : Prop where
  sameBut : SameBut id m p.ws2pModule
  treats : Treats env.sends id (m.stateOf id) (m.websockets.get? id) payload
    (p.ws2pModule.stateOf id) (p.ws2pModule.websockets.get? id) p.signal p.sent

theorem isQuiet_pretreated (m : WS2Pv1Module H) (sent : List (WsSender × String)) :
    (m.pretreated sent).signal.IsQuiet := by
  unfold pretreated
  split <;> trivial

theorem Treated.of_sameTables {payload : WS2Pv1MsgPayload} {p : Pretreatment H}
    (h : m.SameTables m') (htreated : Treated env m' id payload p) :
    Treated env m id payload p := by
  refine ⟨(h.sameBut id).trans htreated.sameBut, ?_⟩
  rcases h with ⟨_, _, rfl⟩
  exact htreated.treats

theorem treated_of_content {payload : WS2Pv1MsgPayload} {signal : WS2PSignal H}
    (h : m.SameTables m') (hpayload : payload.IsContent) (hsignal : signal.IsContent)
    (hcard : ∀ sender body endpoints, signal = .peerCard sender body endpoints →
      payload = .peerCard body endpoints) :
    Treated env m id payload ⟨m', signal, []⟩ := by
  refine ⟨h.sameBut id, ?_⟩
  rcases h with ⟨_, _, rfl⟩
  exact .content hpayload hsignal hcard

theorem treated_of_quiet {payload : WS2Pv1MsgPayload} {signal : WS2PSignal H}
    (h : m.SameTables m') (hpayload : payload.IsContent) (hsignal : signal.IsQuiet) :
    Treated env m id payload ⟨m', signal, []⟩ := by
  refine treated_of_content h hpayload hsignal.isContent ?_
  rintro _ _ _ rfl
  cases hsignal

namespace WS2Pv1Module

/-- A treatment that only records a state of the endpoint. -/
theorem Records.treated {payload : WS2Pv1MsgPayload} {state : WS2PConnectionState}
    {signal : WS2PSignal H} {sent : List (WsSender × String)} (hrecords : Records id state m m')
    (h : Treats env.sends id (m.stateOf id) (m.websockets.get? id) payload (some state)
      (m.websockets.get? id) signal sent) : Treated env m id payload ⟨m', signal, sent⟩ := by
  refine ⟨hrecords.sameBut, ?_⟩
  rw [hrecords.state, hrecords.websockets]
  exact h

/-- A treatment that closes the connection in the end. -/
theorem SameBut.treated_close {payload : WS2Pv1MsgPayload} {reason : WS2PCloseConnectionReason}
    {signal : WS2PSignal H} {sent : List (WsSender × String)} (hsame : SameBut id m m')
    (h : Treats env.sends id (m.stateOf id) (m.websockets.get? id) payload
      (stateAfterClose reason (m'.stateOf id)) none signal sent) :
    Treated env m id payload ⟨m'.closeConnection env id reason, signal, sent⟩ := by
  refine ⟨hsame.trans (sameBut_closeConnection env reason), ?_⟩
  rw [stateOf_closeConnection, websocket_closeConnection]
  exact h

theorem treated_of_receiveConnect {response : String} {newConState : WS2PConnectionState}
    {p : Pretreatment H} (h : m.receiveConnect env id response newConState = .ok p) :
    Treated env m id (.validConnectMessage response newConState) p := by
  rw [receiveConnect, bind_eq_ok_iff] at h
  rcases h with ⟨recorded, hset, h⟩
  have hrecords := records_of_setState hset
  rw [hrecords.websockets] at h
  cases hsocket : m.websockets.get? id with
  | some websocket =>
      rw [hsocket] at h
      dsimp only at h
      split at h
      case isTrue hsends =>
        cases h
        exact hrecords.treated (.connect hsocket hsends (isQuiet_pretreated _ []))
      case isFalse hsends =>
        cases h
        exact hrecords.treated (.connectUnsent hsocket (Bool.eq_false_iff.2 hsends))
  | none =>
      rw [hsocket] at h
      dsimp only at h
      rw [bind_eq_ok_iff] at h
      rcases h with ⟨closed, hclose, h⟩
      cases h
      have hcloses := records_of_setChecked hclose
      refine ⟨hrecords.sameBut.trans hcloses.sameBut, ?_⟩
      show Treats _ _ _ _ _ (closed.stateOf id) (closed.websockets.get? id) _ _
      rw [hcloses.state, hcloses.websockets, hrecords.websockets]
      exact .connectClosed hsocket (isQuiet_pretreated _ [])

theorem treated_of_receiveAck {response : String} {newConState : WS2PConnectionState}
    {p : Pretreatment H} (h : m.receiveAck env id response newConState = .ok p) :
    Treated env m id (.validAckMessage response newConState) p := by
  rw [receiveAck, bind_eq_ok_iff] at h
  rcases h with ⟨recorded, hset, h⟩
  have hrecords := records_of_setState hset
  split at h
  case h_1 =>
    rw [hrecords.websockets] at h
    cases hsocket : m.websockets.get? id with
    | some websocket =>
        rw [hsocket] at h
        dsimp only at h
        split at h
        case isTrue hsends =>
          cases h
          exact hrecords.treated (.ack hsocket hsends (isQuiet_pretreated _ []))
        case isFalse hsends =>
          cases h
          exact hrecords.treated (.ackUnsent hsocket (Bool.eq_false_iff.2 hsends))
    | none =>
        rw [hsocket] at h
        cases h
  case h_2 hstate =>
    cases h
    exact hrecords.treated (.ackUnanswered (fun heq => hstate heq) (isQuiet_pretreated _ []))

theorem treated_of_receiveOk {newConState : WS2PConnectionState} {p : Pretreatment H}
    (h : m.receiveOk env id newConState = .ok p) :
    Treated env m id (.validOk newConState) p := by
  rw [receiveOk, bind_eq_ok_iff] at h
  rcases h with ⟨recorded, hset, h⟩
  have hrecords := records_of_setState hset
  split at h
  case h_1 =>
    cases h
    exact hrecords.treated .okWaiting
  case h_2 =>
    cases h
    exact hrecords.treated .okEstablished
  case h_3 hwaiting hestablished =>
    cases h
    refine hrecords.sameBut.treated_close ?_
    rw [hrecords.state]
    exact .okClosed (fun heq => hwaiting heq) (fun heq => hestablished heq)

theorem treated_of_receiveNegociationTimeout {p : Pretreatment H}
    (h : m.receiveNegociationTimeout env id = .ok p) :
    Treated env m id .negociationTimeout p := by
  rw [receiveNegociationTimeout, bind_eq_ok_iff] at h
  rcases h with ⟨dalEp, -, h⟩
  rw [bind_eq_ok_iff] at h
  rcases h with ⟨recorded, hset, h⟩
  cases h
  have hrecords : ∃ newState ∈ [.denial, .noResponse, .unreachable],
      Records id newState m recorded := by
    unfold recordNegociationTimeout at hset
    split at hset
    case h_1 => exact ⟨_, by simp, records_of_setState hset⟩
    case h_2 => exact ⟨_, by simp, records_of_setState hset⟩
    case h_3 => exact ⟨_, by simp, records_of_setState hset⟩
    case h_4 => exact ⟨_, by simp, records_of_setChecked hset⟩
  rcases hrecords with ⟨newState, hmem, hrecords⟩
  refine hrecords.sameBut.treated_close ?_
  rw [hrecords.state]
  exact .negociationTimeout hmem

/-- Everything that the treatment of a message does to the tables. -/
theorem treated_of_pretreatment {payload : WS2Pv1MsgPayload} {p : Pretreatment H}
    (h : m.ws2pRecvMessagePretreatment env ⟨id, payload⟩ = .ok p) :
    Treated env m id payload p := by
  rw [ws2pRecvMessagePretreatment, bind_eq_ok_iff] at h
  rcases h with ⟨m, hcheck, h⟩
  refine .of_sameTables (sameTables_of_checkTimeoutRequests hcheck) ?_
  cases payload with
  | wrongUrl | failOpenWS | failToSplitWS =>
      dsimp only at h
      rw [bind_eq_ok_iff] at h
      rcases h with ⟨recorded, hset, h⟩
      cases h
      exact (records_of_setChecked hset).treated (.failed (by simp))
  | tryToSendConnectMess =>
      dsimp only at h
      rw [bind_eq_ok_iff] at h
      rcases h with ⟨recorded, hset, h⟩
      cases h
      exact (records_of_setState hset).treated (.tryToSendConnectMess (isQuiet_pretreated _ []))
  | failSendConnectMess =>
      dsimp only at h
      rw [bind_eq_ok_iff] at h
      rcases h with ⟨recorded, hset, h⟩
      cases h
      exact (records_of_setChecked hset).treated (.failSendConnectMess (isQuiet_pretreated _ []))
  | websocketOk sender =>
      cases h
      refine ⟨⟨rfl, rfl, rfl, rfl, fun _ _ => rfl,
        fun id' hne => HashMap.get?_insert_of_ne _ _ hne, rfl⟩, ?_⟩
      show Treats _ _ _ _ _ (m.stateOf id) ((m.websockets.insert id sender).get? id) _ _
      rw [HashMap.get?_insert_self]
      exact .websocketOk (isQuiet_pretreated _ [])
  | validConnectMessage response newConState => exact treated_of_receiveConnect h
  | validAckMessage response newConState => exact treated_of_receiveAck h
  | validOk newConState => exact treated_of_receiveOk h
  | request | peerCard | document =>
      cases h
      exact treated_of_content (.refl m) trivial trivial fun _ _ _ heq => by cases heq <;> rfl
  | invalidMessage =>
      cases h
      exact treated_of_quiet (.refl m) trivial trivial
  | heads heads =>
      dsimp only at h
      rw [bind_eq_ok_iff] at h
      rcases h with ⟨⟨kept, applied⟩, hheads, h⟩
      cases h
      exact treated_of_content (sameTables_of_heads hheads) trivial trivial nofun
  | reqResponse reqId response =>
      dsimp only at h
      split at h
      all_goals cases h
      case h_1 => exact treated_of_content ⟨_, _, rfl⟩ trivial trivial nofun
      case h_2 => exact treated_of_quiet ⟨_, _, rfl⟩ trivial (isQuiet_pretreated _ [])
  | unknowMessage | wrongFormatMessage =>
      cases h
      exact treated_of_quiet (.refl m) trivial (isQuiet_pretreated m [])
  | negociationTimeout => exact treated_of_receiveNegociationTimeout h
  | timeout =>
      cases h
      exact ((SameTables.refl m).sameBut id).treated_close .timeout
  | close =>
      cases h
      exact ((SameTables.refl m).sameBut id).treated_close (.close (isQuiet_pretreated _ []))

/-! ## The fatal error -/

theorem expect_ne_noWebsocket {α : Type} {x : Option α} {message : String}
    (hne : message ≠ "Fatal error : no websocket for \x7b\x7d !") :
    expect x message ≠ .error noWebsocket := by
  cases x with
  | some a => exact nofun
  | none =>
      intro h
      exact hne (Abort.fatal.inj (Except.error.inj h))

theorem checkTimeoutRequests_ne_noWebsocket :
    m.checkTimeoutRequests env ≠ .error noWebsocket := by
  intro h
  rw [checkTimeoutRequests, bind_eq_error_iff] at h
  rcases h with h | ⟨_, _, h⟩
  · rcases exists_of_foldlM_eq_error h with ⟨requestsTimeout, entry, -, h⟩
    rcases bind_eq_error_iff.1 h with h | ⟨_, _, h⟩
    · exact expect_ne_noWebsocket (by decide) h
    · cases h
  · cases h

theorem updateEndpoint_ne_noWebsocket {f : DbEndpoint → DbEndpoint} :
    m.updateEndpoint id f ≠ .error noWebsocket := by
  intro h
  rw [updateEndpoint, bind_eq_error_iff] at h
  rcases h with h | ⟨_, _, h⟩
  · exact expect_ne_noWebsocket (by decide) h
  · cases h

theorem heads_ne_noWebsocket {heads : List Json} {applied : List H.NetworkHead} :
    heads.foldlM (fun (m, applied) => m.applyHead applied) (m, applied) ≠
      (.error noWebsocket : Run (WS2Pv1Module H × List H.NetworkHead)) := by
  intro h
  rcases exists_of_foldlM_eq_error h with ⟨⟨before, applied⟩, head, -, h⟩
  rcases bind_eq_error_iff.1 h with h | ⟨head?, -, h⟩
  · exact expect_ne_noWebsocket (by decide) h
  · cases head? with
    | none => cases h
    | some head =>
        rcases bind_eq_error_iff.1 h with h | ⟨verified, -, h⟩
        · exact expect_ne_noWebsocket (by decide) h
        · split at h <;> cases h

/-- A record that is followed by something that returns does not lead to the fatal error. -/
theorem records_ne_noWebsocket {f : DbEndpoint → DbEndpoint}
    {rest : WS2Pv1Module H → Run (Pretreatment H)} (hrest : ∀ m, rest m ≠ .error noWebsocket) :
    (m.updateEndpoint id f >>= rest) ≠ .error noWebsocket := by
  intro h
  rcases bind_eq_error_iff.1 h with h | ⟨recorded, -, h⟩
  · exact updateEndpoint_ne_noWebsocket h
  · exact hrest recorded h

/-- Only an answer to a message ACK leads to the fatal error, and only without a websocket. -/
theorem needsWebsocket_of_fatal {payload : WS2Pv1MsgPayload}
    (h : m.ws2pRecvMessagePretreatment env ⟨id, payload⟩ = .error noWebsocket) :
    (∃ response, payload = .validAckMessage response .ackMessOk) ∧
      m.websockets.get? id = none := by
  rw [ws2pRecvMessagePretreatment, bind_eq_error_iff] at h
  rcases h with h | ⟨checked, hcheck, h⟩
  · exact absurd h checkTimeoutRequests_ne_noWebsocket
  rcases sameTables_of_checkTimeoutRequests hcheck with ⟨_, _, rfl⟩
  cases payload with
  | validAckMessage response newConState =>
      rcases bind_eq_error_iff.1 h with h | ⟨recorded, hset, h⟩
      · exact absurd h updateEndpoint_ne_noWebsocket
      rw [(records_of_setState hset).websockets] at h
      split at h
      case h_1 =>
        refine ⟨⟨response, rfl⟩, ?_⟩
        split at h
        case h_1 => split at h <;> cases h
        case h_2 hsocket => exact hsocket
      case h_2 => cases h
  | validConnectMessage response newConState =>
      refine absurd h (records_ne_noWebsocket fun recorded h => ?_)
      split at h
      case h_1 => split at h <;> cases h
      case h_2 =>
        refine records_ne_noWebsocket (fun closed h => ?_) h
        cases h
  | validOk newConState =>
      refine absurd h (records_ne_noWebsocket fun recorded h => ?_)
      split at h <;> cases h
  | wrongUrl | failOpenWS | failToSplitWS | tryToSendConnectMess | failSendConnectMess =>
      exact absurd h (records_ne_noWebsocket fun _ => nofun)
  | heads heads =>
      rcases bind_eq_error_iff.1 h with h | ⟨_, _, h⟩
      · exact absurd h heads_ne_noWebsocket
      · cases h
  | reqResponse =>
      dsimp only at h
      split at h <;> cases h
  | negociationTimeout =>
      rcases bind_eq_error_iff.1 h with h | ⟨dalEp, -, h⟩
      · exact absurd h (expect_ne_noWebsocket (by decide))
      · refine absurd h ?_
        unfold recordNegociationTimeout
        split
        all_goals exact records_ne_noWebsocket fun _ => nofun
  | websocketOk | request | peerCard | document | unknowMessage | wrongFormatMessage
  | invalidMessage | timeout | close => cases h

end WS2Pv1Module

end Durs.Ws2pV1
