/-
# Answers to requests

Which request an answer is taken for, and which node it is said to come from.  The pending requests
are found by their identifier alone: an answer is delivered in the name of the node that was asked,
whichever connection it comes through.
-/

import Durs.Ws2pV1.Handshake
import Durs.Ws2pV1.MainLoop
import Durs.Ws2pV1.Requests
import Mathlib.Data.List.Induction

namespace Durs.Ws2pV1

open RustStd Network

variable {H : HeadLibs} {env : Surroundings} {m m' : WS2Pv1Module H} {id : NodeFullId}
  {reqId : Uuid} {infos : WS2Pv1PendingReqInfos} {message : WS2Pv1Msg} {p : Pretreatment H}

/-- `send_request_to_specific_node`. -/
def WS2Pv1Module.sendRequestToSpecificNode (env : Surroundings) (m : WS2Pv1Module H)
    (requesterModule : ModuleReqFullId) (id : NodeFullId) (request : WS2Pv1Request) :
    WS2Pv1Module H :=
  match m.websockets.get? id with
  | some _ =>
      if env.sends then
        { m with
          requestsAwaitingResponse := m.requestsAwaitingResponse.insert request.id
            { requesterModule, reqBody := request.body, recipientNode := id,
              timestamp := env.now } }
      else m
  | none => m

/-- The main loop sends the request for the current block in this way. -/
theorem sendRequest_eq (m : WS2Pv1Module H) (id : NodeFullId) :
    m.sendRequest env id =
      m.sendRequestToSpecificNode env ⟨"ws2p1", m.requestsAwaitingResponse.len⟩ id
        ⟨env.reqId, .getCurrent⟩ := rfl

/-! ## The requests that time out -/

/-- The request was sent no longer ago than a request may wait. -/
def WS2Pv1PendingReqInfos.Recent (env : Surroundings) (infos : WS2Pv1PendingReqInfos) : Prop :=
  infos.timestamp ≤ env.now ∧ env.now - infos.timestamp ≤ requestsTimeoutInSecs * 1000000000

instance WS2Pv1PendingReqInfos.Recent.decidable (env : Surroundings)
    (infos : WS2Pv1PendingReqInfos) : Decidable (infos.Recent env) :=
  inferInstanceAs (Decidable (_ ∧ _))

/-- One request of the loop over the pending requests. -/
def collectTimeout (env : Surroundings) (requestsTimeout : List Uuid)
    (entry : Uuid × WS2Pv1PendingReqInfos) : Run (List Uuid) := do
  let elapsed ← unwrap
    (if entry.2.timestamp ≤ env.now then some (env.now - entry.2.timestamp) else none)
  return if elapsed > requestsTimeoutInSecs * 1000000000 then requestsTimeout ++ [entry.1]
    else requestsTimeout

theorem collectTimeout_ok {requestsTimeout requestsTimeout' : List Uuid}
    {entry : Uuid × WS2Pv1PendingReqInfos}
    (h : collectTimeout env requestsTimeout entry = .ok requestsTimeout') :
    entry.2.timestamp ≤ env.now ∧
      ∀ reqId, reqId ∈ requestsTimeout' ↔
        reqId ∈ requestsTimeout ∨ reqId = entry.1 ∧ ¬ entry.2.Recent env := by
  rw [collectTimeout, bind_eq_ok_iff] at h
  rcases h with ⟨elapsed, helapsed, h⟩
  by_cases hpast : entry.2.timestamp ≤ env.now
  · rw [if_pos hpast] at helapsed
    obtain rfl := Except.ok.inj helapsed
    obtain rfl := Except.ok.inj h
    refine ⟨hpast, fun reqId => ?_⟩
    rw [WS2Pv1PendingReqInfos.Recent, and_iff_right hpast]
    split
    case isTrue hold => simp [Nat.not_le_of_gt hold]
    case isFalse hrecent => simp [Nat.le_of_not_gt hrecent]
  · rw [if_neg hpast] at helapsed
    cases helapsed

/-- The requests that are kept are those that are recent, and none is of the future. -/
theorem foldlM_collectTimeout_ok {entries : List (Uuid × WS2Pv1PendingReqInfos)} :
    ∀ {requestsTimeout requestsTimeout' : List Uuid},
      entries.foldlM (collectTimeout env) requestsTimeout = .ok requestsTimeout' →
      (∀ entry ∈ entries, entry.2.timestamp ≤ env.now) ∧
      ∀ reqId, reqId ∈ requestsTimeout' ↔ reqId ∈ requestsTimeout ∨
        ∃ entry ∈ entries, reqId = entry.1 ∧ ¬ entry.2.Recent env := by
  induction entries with
  | nil =>
      intro requestsTimeout requestsTimeout' h
      obtain rfl := Except.ok.inj h
      simp
  | cons entry entries ih =>
      intro requestsTimeout requestsTimeout' h
      rw [List.foldlM_cons, bind_eq_ok_iff] at h
      rcases h with ⟨mid, hmid, h⟩
      obtain ⟨hpast, hfirst⟩ := collectTimeout_ok hmid
      obtain ⟨hpasts, hrest⟩ := ih h
      refine ⟨List.forall_mem_cons.2 ⟨hpast, hpasts⟩, fun reqId => ?_⟩
      rw [hrest, hfirst, or_assoc, List.exists_mem_cons_iff]

namespace WS2Pv1Module

/-- After the requests have timed out, those that are pending are the recent ones. -/
theorem checkTimeoutRequests_get? (h : m.checkTimeoutRequests env = .ok m') :
    m'.requestsAwaitingResponse.get? reqId = some infos ↔
      m.requestsAwaitingResponse.get? reqId = some infos ∧ infos.Recent env := by
  rw [checkTimeoutRequests, bind_eq_ok_iff] at h
  rcases h with ⟨requestsTimeout, hcollect, h⟩
  obtain rfl := Except.ok.inj h
  obtain ⟨hpast, hmem⟩ := foldlM_collectTimeout_ok hcollect
  show (m.requestsAwaitingResponse.removeAll requestsTimeout).get? reqId = some infos ↔ _
  rw [HashMap.get?_removeAll]
  split
  case isTrue htimeout =>
    rcases (hmem reqId).1 htimeout with hnil | ⟨entry, hentry, rfl, hold⟩
    · cases hnil
    · refine iff_of_false (Option.some_ne_none _).symm fun hrecent => ?_
      have hbound := (HashMap.mem_iter_iff _ _ _).1 hentry
      rw [hrecent.1] at hbound
      obtain rfl := Option.some.inj hbound
      exact hold hrecent.2
  case isFalse hkept =>
    refine ⟨fun hget => ⟨hget, ?_⟩, fun hget => hget.1⟩
    by_contra hold
    exact hkept ((hmem reqId).2
      (.inr ⟨(reqId, infos), (HashMap.mem_iter_iff _ _ _).2 hget, rfl, hold⟩))

end WS2Pv1Module

/-! ## The treatment of a message -/

/-- The signal of an answer. -/
def WS2PSignal.IsResponse : WS2PSignal H → Prop
  | .reqResponse .. => True
  | _ => False

/-- The message is an answer to a request. -/
def WS2Pv1MsgPayload.Answers (reqId : Uuid) : WS2Pv1MsgPayload → Prop
  | .reqResponse reqId' _ => reqId' = reqId
  | _ => False

namespace WS2Pv1Module

/-- Nothing is done with the requests, and no answer is delivered. -/
structure LeavesRequests (m : WS2Pv1Module H) (p : Pretreatment H) : Prop where
  requests : p.ws2pModule.requestsAwaitingResponse = m.requestsAwaitingResponse
  signal : ¬ p.signal.IsResponse

theorem not_isResponse_pretreated (m : WS2Pv1Module H) (sent : List (WsSender × String)) :
    ¬ (m.pretreated sent).signal.IsResponse := by
  unfold pretreated
  split <;> exact id

theorem requests_of_updateEndpoint {f : DbEndpoint → DbEndpoint}
    (h : m.updateEndpoint id f = .ok m') :
    m'.requestsAwaitingResponse = m.requestsAwaitingResponse := by
  rw [updateEndpoint, bind_eq_ok_iff] at h
  rcases h with ⟨dalEp, -, h⟩
  obtain rfl := Except.ok.inj h
  rfl

theorem requests_of_applyHead {applied applied' : List H.NetworkHead} {head : Json}
    (h : m.applyHead applied head = .ok (m', applied')) :
    m'.requestsAwaitingResponse = m.requestsAwaitingResponse := by
  rw [applyHead, bind_eq_ok_iff] at h
  rcases h with ⟨head?, -, h⟩
  cases head? with
  | none =>
      cases h
      rfl
  | some head =>
      rw [bind_eq_ok_iff] at h
      rcases h with ⟨verified, -, h⟩
      split at h
      case isTrue =>
        cases h
        rfl
      case isFalse =>
        cases h
        rfl

theorem requests_of_heads {heads : List Json} {applied applied' : List H.NetworkHead}
    (h : heads.foldlM (fun (m, applied) => m.applyHead applied) (m, applied) =
      .ok (m', applied')) : m'.requestsAwaitingResponse = m.requestsAwaitingResponse := by
  refine foldlM_preserves (P := fun s : WS2Pv1Module H × List H.NetworkHead =>
    s.1.requestsAwaitingResponse = m.requestsAwaitingResponse) ?_ rfl h
  rintro ⟨before, applied⟩ head ⟨after, applied'⟩ - hbefore hstep
  exact (requests_of_applyHead hstep).trans hbefore

theorem leavesRequests_of_receiveConnect {response : String} {newConState : WS2PConnectionState}
    (h : m.receiveConnect env id response newConState = .ok p) : m.LeavesRequests p := by
  rw [receiveConnect, bind_eq_ok_iff] at h
  rcases h with ⟨recorded, hset, h⟩
  have hrequests := requests_of_updateEndpoint hset
  split at h
  case h_1 =>
    split at h
    case isTrue =>
      obtain rfl := Except.ok.inj h
      exact ⟨hrequests, not_isResponse_pretreated _ _⟩
    case isFalse =>
      obtain rfl := Except.ok.inj h
      exact ⟨hrequests, not_false⟩
  case h_2 =>
    rw [bind_eq_ok_iff] at h
    rcases h with ⟨closed, hclose, h⟩
    obtain rfl := Except.ok.inj h
    exact ⟨(requests_of_updateEndpoint hclose).trans hrequests, not_isResponse_pretreated _ _⟩

theorem leavesRequests_of_receiveAck {response : String} {newConState : WS2PConnectionState}
    (h : m.receiveAck env id response newConState = .ok p) : m.LeavesRequests p := by
  rw [receiveAck, bind_eq_ok_iff] at h
  rcases h with ⟨recorded, hset, h⟩
  have hrequests := requests_of_updateEndpoint hset
  split at h
  case h_1 =>
    split at h
    case h_1 =>
      split at h
      case isTrue =>
        obtain rfl := Except.ok.inj h
        exact ⟨hrequests, not_isResponse_pretreated _ _⟩
      case isFalse =>
        obtain rfl := Except.ok.inj h
        exact ⟨hrequests, not_false⟩
    case h_2 => cases h
  case h_2 =>
    obtain rfl := Except.ok.inj h
    exact ⟨hrequests, not_isResponse_pretreated _ _⟩

theorem leavesRequests_of_receiveOk {newConState : WS2PConnectionState}
    (h : m.receiveOk env id newConState = .ok p) : m.LeavesRequests p := by
  rw [receiveOk, bind_eq_ok_iff] at h
  rcases h with ⟨recorded, hset, h⟩
  have hrequests := requests_of_updateEndpoint hset
  split at h
  all_goals
    obtain rfl := Except.ok.inj h
    exact ⟨hrequests, not_false⟩

theorem leavesRequests_of_receiveNegociationTimeout
    (h : m.receiveNegociationTimeout env id = .ok p) : m.LeavesRequests p := by
  rw [receiveNegociationTimeout, bind_eq_ok_iff] at h
  rcases h with ⟨dalEp, -, h⟩
  rw [bind_eq_ok_iff] at h
  rcases h with ⟨recorded, hset, h⟩
  obtain rfl := Except.ok.inj h
  have hrequests : recorded.requestsAwaitingResponse = m.requestsAwaitingResponse := by
    unfold recordNegociationTimeout at hset
    split at hset
    all_goals exact requests_of_updateEndpoint hset
  exact ⟨hrequests, not_false⟩

/-- What the treatment of an answer does: the request with its identifier is pending no more, and
is answered if it was pending. -/
structure TakesAnswer (m : WS2Pv1Module H) (reqId : Uuid) (response : Json) (p : Pretreatment H) :
    Prop where
  requests : p.ws2pModule.requestsAwaitingResponse = m.requestsAwaitingResponse.remove reqId
  pending : ∀ infos, m.requestsAwaitingResponse.get? reqId = some infos →
    p.signal = .reqResponse infos.requesterModule infos.reqBody infos.recipientNode response
  unknown : m.requestsAwaitingResponse.get? reqId = none → ¬ p.signal.IsResponse

/-- A message times the requests out; then an answer is taken, and anything else leaves the
requests as they are. -/
theorem pretreatment_cases (h : m.ws2pRecvMessagePretreatment env message = .ok p) :
    ∃ checked, m.checkTimeoutRequests env = .ok checked ∧
      ((∃ reqId response, message.payload = .reqResponse reqId response ∧
          checked.TakesAnswer reqId response p) ∨
        (∀ reqId, ¬ message.payload.Answers reqId) ∧ checked.LeavesRequests p) := by
  rw [ws2pRecvMessagePretreatment, bind_eq_ok_iff] at h
  rcases h with ⟨checked, hcheck, h⟩
  refine ⟨checked, hcheck, ?_⟩
  rcases message with ⟨sender, payload⟩
  cases payload with
  | reqResponse reqId response =>
      refine .inl ⟨reqId, response, rfl, ?_⟩
      dsimp only at h
      split at h
      case h_1 infos hget =>
        obtain rfl := Except.ok.inj h
        refine ⟨rfl, fun infos' hget' => ?_, fun hnone => ?_⟩
        · obtain rfl := Option.some.inj (hget.symm.trans hget')
          rfl
        · rw [hget] at hnone
          cases hnone
      case h_2 hget =>
        obtain rfl := Except.ok.inj h
        refine ⟨rfl, fun infos' hget' => ?_, fun _ => not_isResponse_pretreated _ _⟩
        rw [hget] at hget'
        cases hget'
  | wrongUrl | failOpenWS | failToSplitWS =>
      dsimp only at h
      rw [bind_eq_ok_iff] at h
      rcases h with ⟨recorded, hset, h⟩
      obtain rfl := Except.ok.inj h
      exact .inr ⟨fun _ => not_false, requests_of_updateEndpoint hset, not_false⟩
  | tryToSendConnectMess | failSendConnectMess =>
      dsimp only at h
      rw [bind_eq_ok_iff] at h
      rcases h with ⟨recorded, hset, h⟩
      obtain rfl := Except.ok.inj h
      exact .inr ⟨fun _ => not_false, requests_of_updateEndpoint hset,
        not_isResponse_pretreated _ _⟩
  | websocketOk websocket =>
      obtain rfl := Except.ok.inj h
      exact .inr ⟨fun _ => not_false, rfl, not_isResponse_pretreated _ _⟩
  | validConnectMessage response newConState =>
      exact .inr ⟨fun _ => not_false, leavesRequests_of_receiveConnect h⟩
  | validAckMessage response newConState =>
      exact .inr ⟨fun _ => not_false, leavesRequests_of_receiveAck h⟩
  | validOk newConState => exact .inr ⟨fun _ => not_false, leavesRequests_of_receiveOk h⟩
  | request | peerCard | document | invalidMessage =>
      obtain rfl := Except.ok.inj h
      exact .inr ⟨fun _ => not_false, rfl, not_false⟩
  | heads heads =>
      dsimp only at h
      rw [bind_eq_ok_iff] at h
      rcases h with ⟨⟨kept, applied⟩, hheads, h⟩
      obtain rfl := Except.ok.inj h
      exact .inr ⟨fun _ => not_false, requests_of_heads hheads, not_false⟩
  | unknowMessage | wrongFormatMessage =>
      obtain rfl := Except.ok.inj h
      exact .inr ⟨fun _ => not_false, rfl, not_isResponse_pretreated _ _⟩
  | negociationTimeout =>
      exact .inr ⟨fun _ => not_false, leavesRequests_of_receiveNegociationTimeout h⟩
  | timeout =>
      obtain rfl := Except.ok.inj h
      exact .inr ⟨fun _ => not_false, rfl, not_false⟩
  | close =>
      obtain rfl := Except.ok.inj h
      exact .inr ⟨fun _ => not_false, rfl, not_isResponse_pretreated _ _⟩

end WS2Pv1Module

/-! ## Runs -/

/-- What may happen to the requests. -/
inductive RequestEvent (H : HeadLibs)
  /-- A request is sent to a node. -/
  | send (env : Surroundings) (requesterModule : ModuleReqFullId) (recipientNode : NodeFullId)
      (request : WS2Pv1Request)
  /-- A message of a connection is treated. -/
  | receive (env : Surroundings) (message : WS2Pv1Msg)
  /-- Something else is done, with the requests left as they are. -/
  | elsewhere (after : WS2Pv1Module H)

namespace RequestEvent

/-- The module after an event. -/
def apply (m : WS2Pv1Module H) : RequestEvent H → Run (WS2Pv1Module H)
  | .send env requesterModule recipientNode request =>
      return m.sendRequestToSpecificNode env requesterModule recipientNode request
  | .receive env message => do
      let p ← m.ws2pRecvMessagePretreatment env message
      return p.ws2pModule
  | .elsewhere after =>
      return { after with requestsAwaitingResponse := m.requestsAwaitingResponse }

/-- The request that is sent, if one is. -/
def sent? (m : WS2Pv1Module H) : RequestEvent H → Option (Uuid × WS2Pv1PendingReqInfos)
  | .send env requesterModule recipientNode request =>
      if (m.websockets.get? recipientNode).isSome ∧ env.sends = true then
        some (request.id, ⟨requesterModule, request.body, recipientNode, env.now⟩)
      else none
  | .receive _ _ | .elsewhere _ => none

/-- A request stays pending: no answer to it is received, and no message when it is too old. -/
def Keeps (reqId : Uuid) (infos : WS2Pv1PendingReqInfos) : RequestEvent H → Prop
  | .receive env message => infos.Recent env ∧ ¬ message.payload.Answers reqId
  | .send .. | .elsewhere _ => True

/-- An answer to a request that is pending comes from the node that was asked. -/
def FromRecipient (m : WS2Pv1Module H) : RequestEvent H → Prop
  | .receive env message => ∀ reqId infos, message.payload.Answers reqId →
      m.requestsAwaitingResponse.get? reqId = some infos → infos.Recent env →
      infos.recipientNode = message.sender
  | .send .. | .elsewhere _ => True

end RequestEvent

variable {m₀ : WS2Pv1Module H} {events : List (RequestEvent H)} {event : RequestEvent H}

/-- The request was sent in the run, and is still pending. -/
def Awaited (m₀ : WS2Pv1Module H) (events : List (RequestEvent H)) (reqId : Uuid)
    (infos : WS2Pv1PendingReqInfos) : Prop :=
  ∃ before sending after mid, events = before ++ sending :: after ∧
    before.foldlM RequestEvent.apply m₀ = .ok mid ∧ sending.sent? mid = some (reqId, infos) ∧
    ∀ later ∈ after, later.Keeps reqId infos

theorem Awaited.append (h : Awaited m₀ events reqId infos) (hkeeps : event.Keeps reqId infos) :
    Awaited m₀ (events ++ [event]) reqId infos := by
  rcases h with ⟨before, sending, after, mid, rfl, hrun, hsent, hafter⟩
  refine ⟨before, sending, after ++ [event], mid, by simp, hrun, hsent, fun later hlater => ?_⟩
  rcases List.mem_append.1 hlater with hlater | hlater
  · exact hafter later hlater
  · rw [List.mem_singleton.1 hlater]
    exact hkeeps

theorem sendRequestToSpecificNode_get? {requesterModule : ModuleReqFullId}
    {request : WS2Pv1Request}
    (h : (m.sendRequestToSpecificNode env requesterModule id request).requestsAwaitingResponse.get?
      reqId = some infos) :
    (RequestEvent.send env requesterModule id request).sent? m = some (reqId, infos) ∨
      m.requestsAwaitingResponse.get? reqId = some infos := by
  rw [WS2Pv1Module.sendRequestToSpecificNode] at h
  cases hsocket : m.websockets.get? id with
  | none =>
      rw [hsocket] at h
      exact .inr h
  | some websocket =>
      rw [hsocket] at h
      dsimp only at h
      split at h
      case isFalse => exact .inr h
      case isTrue hsends =>
        rw [HashMap.get?_insert] at h
        split at h
        case isTrue hid =>
          have hopen : (m.websockets.get? id).isSome = true := by rw [hsocket, Option.isSome_some]
          left
          simp only [RequestEvent.sent?, hopen, hsends, and_self, if_true, hid]
          rw [Option.some.inj h]
        case isFalse => exact .inr h

/-- A request that is pending after a message was pending before, and stays so. -/
theorem pending_of_pretreatment (h : m.ws2pRecvMessagePretreatment env message = .ok p)
    (hget : p.ws2pModule.requestsAwaitingResponse.get? reqId = some infos) :
    m.requestsAwaitingResponse.get? reqId = some infos ∧
      (RequestEvent.receive (H := H) env message).Keeps reqId infos := by
  rcases WS2Pv1Module.pretreatment_cases h with ⟨checked, hcheck, htakes | ⟨hother, hleaves⟩⟩
  · rcases htakes with ⟨answered, response, hpayload, htakes⟩
    rw [htakes.requests, HashMap.get?_remove] at hget
    split at hget
    case isTrue => cases hget
    case isFalse hne =>
      obtain ⟨hpending, hrecent⟩ := (WS2Pv1Module.checkTimeoutRequests_get? hcheck).1 hget
      refine ⟨hpending, hrecent, ?_⟩
      rw [hpayload]
      exact fun heq => hne heq.symm
  · rw [hleaves.requests] at hget
    obtain ⟨hpending, hrecent⟩ := (WS2Pv1Module.checkTimeoutRequests_get? hcheck).1 hget
    exact ⟨hpending, hrecent, hother reqId⟩

/-- In a run without pending requests at the start, each pending request was sent in the run. -/
theorem awaited_of_run (hstart : m₀.requestsAwaitingResponse = ∅)
    (hrun : events.foldlM RequestEvent.apply m₀ = .ok m)
    (hget : m.requestsAwaitingResponse.get? reqId = some infos) :
    Awaited m₀ events reqId infos := by
  induction events using List.reverseRecOn generalizing m with
  | nil =>
      obtain rfl := Except.ok.inj hrun
      rw [hstart] at hget
      cases hget
  | append_singleton events event ih =>
      rw [List.foldlM_append, bind_eq_ok_iff] at hrun
      rcases hrun with ⟨before, hbefore, hrun⟩
      have hstep : RequestEvent.apply before event = .ok m := by
        simpa using hrun
      cases event with
      | send env requesterModule recipientNode request =>
          obtain rfl := Except.ok.inj hstep
          rcases sendRequestToSpecificNode_get? hget with hsent | hpending
          · exact ⟨events, _, [], before, rfl, hbefore, hsent,
              fun _ hlater => absurd hlater List.not_mem_nil⟩
          · exact (ih hbefore hpending).append trivial
      | receive env message =>
          rw [RequestEvent.apply, bind_eq_ok_iff] at hstep
          rcases hstep with ⟨p, hp, hstep⟩
          obtain rfl := Except.ok.inj hstep
          obtain ⟨hpending, hkeeps⟩ := pending_of_pretreatment hp hget
          exact (ih hbefore hpending).append hkeeps
      | elsewhere after =>
          obtain rfl := Except.ok.inj hstep
          exact (ih hbefore hget).append trivial

/-- What an answer that is delivered should be: one to a request that was sent and is still pending
and recent, in the name of the node that it comes from. -/
def RightlyDelivered (m₀ : WS2Pv1Module H) (events : List (RequestEvent H)) (env : Surroundings)
    (message : WS2Pv1Msg) (signal : WS2PSignal H) : Prop :=
  ∀ requesterModule reqBody author response,
    signal = .reqResponse requesterModule reqBody author response →
    ∃ reqId timestamp, message.payload = .reqResponse reqId response ∧
      Awaited m₀ events reqId ⟨requesterModule, reqBody, author, timestamp⟩ ∧
      WS2Pv1PendingReqInfos.Recent env ⟨requesterModule, reqBody, author, timestamp⟩ ∧
      author = message.sender

/-- An answer is delivered for a request that is pending and recent, in the name of the node that
was asked. -/
theorem pending_of_delivered (h : m.ws2pRecvMessagePretreatment env message = .ok p)
    {requesterModule : ModuleReqFullId} {reqBody : WS2Pv1ReqBody} {author : NodeFullId}
    {response : Json} (hsignal : p.signal = .reqResponse requesterModule reqBody author response) :
    ∃ reqId timestamp, message.payload = .reqResponse reqId response ∧
      m.requestsAwaitingResponse.get? reqId =
        some ⟨requesterModule, reqBody, author, timestamp⟩ ∧
      WS2Pv1PendingReqInfos.Recent env ⟨requesterModule, reqBody, author, timestamp⟩ := by
  rcases WS2Pv1Module.pretreatment_cases h with ⟨checked, hcheck, htakes | ⟨-, hleaves⟩⟩
  · rcases htakes with ⟨reqId, received, hpayload, htakes⟩
    cases hget : checked.requestsAwaitingResponse.get? reqId with
    | none => exact absurd (by rw [hsignal]; trivial) (htakes.unknown hget)
    | some infos =>
        have hsame := htakes.pending infos hget
        rw [hsignal] at hsame
        injection hsame with hrequester hbody hauthor hresponse
        obtain ⟨hpending, hrecent⟩ := (WS2Pv1Module.checkTimeoutRequests_get? hcheck).1 hget
        rcases infos with ⟨requester, sent, recipient, timestamp⟩
        simp only at hrequester hbody hauthor
        subst hrequester hbody hauthor hresponse
        exact ⟨reqId, timestamp, hpayload, hpending, hrecent⟩
  · exact absurd (by rw [hsignal]; trivial) hleaves.signal

/-- An answer to a request that is pending and recent is delivered. -/
theorem delivered_of_pending (h : m.ws2pRecvMessagePretreatment env message = .ok p)
    (hanswers : message.payload.Answers reqId)
    (hget : m.requestsAwaitingResponse.get? reqId = some infos) (hrecent : infos.Recent env) :
    ∃ response, p.signal =
      .reqResponse infos.requesterModule infos.reqBody infos.recipientNode response := by
  rcases WS2Pv1Module.pretreatment_cases h with ⟨checked, hcheck, htakes | ⟨hother, -⟩⟩
  · rcases htakes with ⟨answered, response, hpayload, htakes⟩
    rw [hpayload] at hanswers
    obtain rfl : answered = reqId := hanswers
    exact ⟨response, htakes.pending infos
      ((WS2Pv1Module.checkTimeoutRequests_get? hcheck).2 ⟨hget, hrecent⟩)⟩
  · exact absurd hanswers (hother reqId)

/-- In a run that starts without pending requests, each answer that is delivered is what it should
be exactly when each answer to a request that is pending and recent comes from the node that was
asked. -/
theorem rightlyDelivered_iff (hstart : m₀.requestsAwaitingResponse = ∅)
    (hrun : events.foldlM RequestEvent.apply m₀ = .ok m') :
    (∀ events' env message m p, events' ++ [.receive env message] <+: events →
      events'.foldlM RequestEvent.apply m₀ = .ok m →
      m.ws2pRecvMessagePretreatment env message = .ok p →
      RightlyDelivered m₀ events' env message p.signal) ↔
    ∀ events' event m, events' ++ [event] <+: events →
      events'.foldlM RequestEvent.apply m₀ = .ok m → event.FromRecipient m := by
  constructor
  · intro h events' event m hprefix hreached
    cases event with
    | send env requesterModule recipientNode request => trivial
    | elsewhere after => trivial
    | receive env message =>
        intro reqId infos hanswers hget hrecent
        have hreturns : ∃ p, m.ws2pRecvMessagePretreatment env message = .ok p := by
          rcases hprefix with ⟨later, rfl⟩
          rw [List.append_assoc, List.foldlM_append, hreached, ok_bind, List.foldlM_append,
            List.foldlM_cons, bind_eq_ok_iff] at hrun
          rcases hrun with ⟨next, hnext, -⟩
          rw [bind_eq_ok_iff] at hnext
          rcases hnext with ⟨after, hafter, -⟩
          rw [RequestEvent.apply, bind_eq_ok_iff] at hafter
          rcases hafter with ⟨p, hp, -⟩
          exact ⟨p, hp⟩
        rcases hreturns with ⟨p, hp⟩
        obtain ⟨response, hsignal⟩ := delivered_of_pending hp hanswers hget hrecent
        obtain ⟨_, _, -, -, -, hauthor⟩ :=
          h events' env message m p hprefix hreached hp _ _ _ _ hsignal
        exact hauthor
  · intro h events' env message m p hprefix hreached hp requesterModule reqBody author response
      hsignal
    obtain ⟨reqId, timestamp, hpayload, hget, hrecent⟩ := pending_of_delivered hp hsignal
    refine ⟨reqId, timestamp, hpayload, awaited_of_run hstart hreached hget, hrecent, ?_⟩
    have hanswers : message.payload.Answers reqId := by
      rw [hpayload]
      rfl
    exact h events' (.receive env message) m hprefix hreached reqId _ hanswers hget hrecent

/-- The request for a chunk of blocks, sent to the node of the example connection. -/
def sendChunkRequest : RequestEvent connectionHeads :=
  .send ⟨0, true, 0⟩ ⟨"blockchain", 7⟩ connectionNode chunkRequest

/-- An empty answer to this request from a node. -/
def chunkAnswer (sender : NodeFullId) : WS2Pv1Msg :=
  ⟨sender, .reqResponse chunkRequest.id (.array [])⟩

/-- One second after the request. -/
def oneSecondLater : Surroundings := ⟨1000000000, true, 0⟩

/-- The answer of the node that was asked is delivered in its name. -/
theorem rightlyDelivered_chunkAnswer :
    ∃ m p, [sendChunkRequest].foldlM RequestEvent.apply connectionStart.ws2pModule = .ok m ∧
      m.ws2pRecvMessagePretreatment oneSecondLater (chunkAnswer connectionNode) = .ok p ∧
      RightlyDelivered connectionStart.ws2pModule [sendChunkRequest] oneSecondLater
        (chunkAnswer connectionNode) p.signal := by
  have hsend : [sendChunkRequest].foldlM RequestEvent.apply connectionStart.ws2pModule =
      .ok (connectionStart.ws2pModule.sendRequestToSpecificNode ⟨0, true, 0⟩ ⟨"blockchain", 7⟩
        connectionNode chunkRequest) := rfl
  have hrun : ∃ m', [sendChunkRequest, .receive oneSecondLater (chunkAnswer connectionNode)].foldlM
      RequestEvent.apply connectionStart.ws2pModule = .ok m' := ⟨_, rfl⟩
  obtain ⟨m', hrun⟩ := hrun
  refine ⟨_, _, hsend, rfl,
    (rightlyDelivered_iff rfl hrun).2 ?_ _ _ _ _ _ (List.prefix_refl _) hsend rfl⟩
  intro events' event m hprefix hreached
  match events' with
  | [] =>
      obtain ⟨rfl, -⟩ := List.cons_prefix_cons.1 hprefix
      trivial
  | [_] =>
      obtain ⟨rfl, htail⟩ := List.cons_prefix_cons.1 hprefix
      obtain ⟨rfl, -⟩ := List.cons_prefix_cons.1 htail
      obtain rfl := Except.ok.inj (hsend.symm.trans hreached)
      intro reqId infos hanswers hget _
      obtain rfl : chunkRequest.id = reqId := hanswers
      have hsent := (HashMap.get?_insert_self _ _ _).symm.trans hget
      rw [← Option.some.inj hsent]
      rfl
  | _ :: _ :: _ =>
      have hlength := hprefix.length_le
      simp at hlength

/-- The answer of another node is delivered in the name of the node that was asked. -/
theorem not_rightlyDelivered_chunkAnswer :
    ∃ m p, [sendChunkRequest].foldlM RequestEvent.apply connectionStart.ws2pModule = .ok m ∧
      m.ws2pRecvMessagePretreatment oneSecondLater (chunkAnswer ⟨1, foreignKey⟩) = .ok p ∧
      p.signal = .reqResponse ⟨"blockchain", 7⟩ chunkRequest.body connectionNode (.array []) ∧
      ¬ RightlyDelivered connectionStart.ws2pModule [sendChunkRequest] oneSecondLater
        (chunkAnswer ⟨1, foreignKey⟩) p.signal := by
  have hsend : [sendChunkRequest].foldlM RequestEvent.apply connectionStart.ws2pModule =
      .ok (connectionStart.ws2pModule.sendRequestToSpecificNode ⟨0, true, 0⟩ ⟨"blockchain", 7⟩
        connectionNode chunkRequest) := rfl
  refine ⟨_, _, hsend, rfl, rfl, fun h => ?_⟩
  obtain ⟨_, _, -, -, -, hauthor⟩ := h _ _ _ _ rfl
  exact absurd hauthor (by decide +kernel)

end Durs.Ws2pV1
