/-
# What a step of WS2P v1 does

A message of a connection changes what the tables hold of its node and may add endpoints that have
never been tried; a signal closes the connection of the node or changes no entry.  How many
endpoints are established follows from which ones are.
-/

import Durs.Ws2pV1.MainLoop
import Durs.Ws2pV1.Treatment

namespace Durs.Ws2pV1

open RustStd Network

variable {H : HeadLibs} {L : Libs} {m m' m'' : WS2Pv1Module H} {id : NodeFullId}
  {env : Surroundings} {payload : WS2Pv1MsgPayload}

namespace WS2Pv1Module

/-! ## Established endpoints -/

/-- The nodes whose connection is recorded as established. -/
def establishedNodes (m : WS2Pv1Module H) : List NodeFullId :=
  (m.ws2pEndpoints.iter.filter fun entry => entry.2.state = .established).map Prod.fst

theorem length_establishedNodes (m : WS2Pv1Module H) :
    m.establishedNodes.length = m.countEstablishedConnections := by
  rw [establishedNodes, List.length_map, countEstablishedConnections,
    List.countP_eq_length_filter]

theorem mem_establishedNodes_iff : id ∈ m.establishedNodes ↔ m.stateOf id = some .established := by
  simp only [establishedNodes, List.mem_map, List.mem_filter, decide_eq_true_eq, stateOf,
    Option.map_eq_some_iff]
  constructor
  · rintro ⟨⟨id, dalEp⟩, ⟨hmem, hstate⟩, rfl⟩
    exact ⟨dalEp, (HashMap.mem_iter_iff _ _ _).1 hmem, hstate⟩
  · rintro ⟨dalEp, hget, hstate⟩
    exact ⟨(id, dalEp), ⟨(HashMap.mem_iter_iff _ _ _).2 hget, hstate⟩, rfl⟩

theorem nodup_establishedNodes (m : WS2Pv1Module H) : m.establishedNodes.Nodup := by
  have hkeys : (m.ws2pEndpoints.iter.map Prod.fst).Nodup := by
    rw [HashMap.iter, List.map_map]
    exact m.ws2pEndpoints.keys_nodup
  exact (List.Sublist.map Prod.fst List.filter_sublist).nodup hkeys

/-- When no endpoint becomes established, no more of them are. -/
theorem countEstablished_le
    (h : ∀ id, m'.stateOf id = some .established → m.stateOf id = some .established) :
    m'.countEstablishedConnections ≤ m.countEstablishedConnections := by
  rw [← length_establishedNodes, ← length_establishedNodes]
  refine (List.subperm_of_subset m'.nodup_establishedNodes fun id hid => ?_).length_le
  exact mem_establishedNodes_iff.2 (h id (mem_establishedNodes_iff.1 hid))

/-- When one endpoint becomes established, at most one more of them is. -/
theorem countEstablished_le_succ (id : NodeFullId)
    (h : ∀ id', m'.stateOf id' = some .established →
      id' = id ∨ m.stateOf id' = some .established) :
    m'.countEstablishedConnections ≤ m.countEstablishedConnections + 1 := by
  rw [← length_establishedNodes, ← length_establishedNodes, ← List.length_cons (a := id)]
  refine (List.subperm_of_subset m'.nodup_establishedNodes fun id' hid' => ?_).length_le
  rw [List.mem_cons, mem_establishedNodes_iff]
  exact h id' (mem_establishedNodes_iff.1 hid')

/-! ## Endpoints that are added -/

/-- Whether only endpoints that have never been tried are added. -/
structure Grows (m m' : WS2Pv1Module H) : Prop where
  conf : m'.conf = m.conf
  keyPair : m'.keyPair = m.keyPair
  currency : m'.currency = m.currency
  ssl : m'.ssl = m.ssl
  known : ∀ id state, m.stateOf id = some state → m'.stateOf id = some state
  fresh : ∀ id state, m'.stateOf id = some state → m.stateOf id = some state ∨ state = .neverTry
  websockets : m'.websockets = m.websockets

theorem Grows.refl (m : WS2Pv1Module H) : Grows m m :=
  ⟨rfl, rfl, rfl, rfl, fun _ _ h => h, fun _ _ h => Or.inl h, rfl⟩

theorem Grows.trans (h : Grows m m') (h' : Grows m' m'') : Grows m m'' where
  conf := h'.conf.trans h.conf
  keyPair := h'.keyPair.trans h.keyPair
  currency := h'.currency.trans h.currency
  ssl := h'.ssl.trans h.ssl
  known id state hstate := h'.known id state (h.known id state hstate)
  fresh id state hstate := (h'.fresh id state hstate).elim (h.fresh id state) Or.inr
  websockets := h'.websockets.trans h.websockets

theorem Grows.established_iff (h : Grows m m') (id : NodeFullId) :
    m'.stateOf id = some .established ↔ m.stateOf id = some .established := by
  constructor
  · intro hstate
    rcases h.fresh id _ hstate with hstate | hstate
    · exact hstate
    · cases hstate
  · exact h.known id _

theorem Grows.countEstablished (h : Grows m m') :
    m'.countEstablishedConnections = m.countEstablishedConnections :=
  Nat.le_antisymm (countEstablished_le fun id => (h.established_iff id).1)
    (countEstablished_le fun id => (h.established_iff id).2)

theorem SameTables.grows (h : m.SameTables m') : Grows m m' := by
  rcases h with ⟨_, _, rfl⟩
  exact ⟨rfl, rfl, rfl, rfl, fun _ _ h => h, fun _ _ h => Or.inl h, rfl⟩

theorem grows_addEndpoint (m : WS2Pv1Module H) (id : NodeFullId) (ep : EndpointV1) :
    Grows m (m.addEndpoint id ep) := by
  unfold addEndpoint
  cases hknown : m.ws2pEndpoints.get? id with
  | some _ => exact .refl m
  | none =>
      refine ⟨rfl, rfl, rfl, rfl, fun id' state hstate => ?_, fun id' state hstate => ?_, rfl⟩
      · rw [stateOf, HashMap.get?_insert]
        split
        case isTrue heq =>
          rw [stateOf, heq, hknown] at hstate
          cases hstate
        case isFalse => exact hstate
      · rw [stateOf, HashMap.get?_insert] at hstate
        split at hstate
        case isTrue =>
          cases hstate
          exact Or.inr rfl
        case isFalse => exact Or.inl hstate

/-- Whether an endpoint that a peer card names is new and can be reached. -/
def Connectable (m : WS2Pv1Module H) (ep : EndpointV1) : Prop :=
  (∀ id ∈ ep.nodeFullId, m.stateOf id = none) ∧ (m.ssl || ep.port ≠ 443) = true

instance (m : WS2Pv1Module H) (ep : EndpointV1) : Decidable (m.Connectable ep) :=
  inferInstanceAs (Decidable (_ ∧ _))

/-- At most how many connections a peer card starts. -/
def connectable (m : WS2Pv1Module H) (endpoints : List EndpointV1) : Nat :=
  if m.countEstablishedConnections < m.conf.outcomingQuota then
    endpoints.countP fun ep => m.Connectable ep
  else 0

theorem grows_of_connectTo {ep : EndpointV1} {threads : List ConnectionThread}
    (h : m.connectTo ep = .ok (m', threads)) :
    Grows m m' ∧ threads.length ≤
      if m.countEstablishedConnections < m.conf.outcomingQuota then 1 else 0 := by
  rw [connectTo, bind_eq_ok_iff] at h
  rcases h with ⟨id, -, h⟩
  have hgrows := grows_addEndpoint m id ep
  rw [← hgrows.countEstablished, ← hgrows.conf]
  dsimp only at h
  split at h
  case isTrue hroom =>
    rw [bind_eq_ok_iff] at h
    rcases h with ⟨thread, -, h⟩
    cases h
    rw [if_pos hroom]
    exact ⟨hgrows, Nat.le_refl 1⟩
  case isFalse =>
    cases h
    exact ⟨hgrows, Nat.zero_le _⟩

theorem grows_of_receiveEndpoint {ep : EndpointV1} {threads : List ConnectionThread}
    (h : m.receiveEndpoint ep = .ok (m', threads)) :
    Grows m m' ∧ threads.length ≤ m.connectable [ep] := by
  rw [receiveEndpoint, bind_eq_ok_iff] at h
  rcases h with ⟨id, hid, h⟩
  rw [expect_eq_ok_iff] at hid
  split at h
  case h_1 =>
    cases h
    exact ⟨.refl m, Nat.zero_le _⟩
  case h_2 hnew =>
    split at h
    case isTrue hreachable =>
      have hconnectable : m.Connectable ep := by
        refine ⟨fun id' hid' => ?_, hreachable⟩
        obtain rfl := Option.some.inj (hid.symm.trans hid')
        rw [stateOf, hnew]
        rfl
      rw [connectable, List.countP_singleton, if_pos (decide_eq_true hconnectable)]
      exact grows_of_connectTo h
    case isFalse =>
      cases h
      exact ⟨.refl m, Nat.zero_le _⟩

theorem Grows.connectable_of_connectable (h : Grows m m') {ep : EndpointV1}
    (hconnectable : m'.Connectable ep) : m.Connectable ep := by
  refine ⟨fun id hid => ?_, h.ssl ▸ hconnectable.2⟩
  cases hstate : m.stateOf id with
  | none => rfl
  | some state => exact absurd ((h.known id state hstate).symm.trans (hconnectable.1 id hid)) nofun

theorem Grows.connectable_le (h : Grows m m') (endpoints : List EndpointV1) :
    m'.connectable endpoints ≤ m.connectable endpoints := by
  rw [connectable, connectable, h.countEstablished, h.conf]
  split
  · refine List.countP_mono_left fun ep _ hep => ?_
    exact decide_eq_true (h.connectable_of_connectable (of_decide_eq_true hep))
  · exact Nat.le_refl 0

theorem connectable_cons (m : WS2Pv1Module H) (ep : EndpointV1) (endpoints : List EndpointV1) :
    m.connectable (ep :: endpoints) = m.connectable [ep] + m.connectable endpoints := by
  unfold connectable
  split
  · rw [List.countP_cons, List.countP_singleton, Nat.add_comm]
  · rfl

/-- What a peer card adds, and at most how many connections it starts. -/
theorem grows_of_peerCard {endpoints : List EndpointV1} {threads threads' : List ConnectionThread}
    (h : endpoints.foldlM receiveNextEndpoint (m, threads) = .ok (m', threads')) :
    Grows m m' ∧ ∃ started, threads' = threads ++ started ∧
      started.length ≤ m.connectable endpoints := by
  induction endpoints generalizing m threads with
  | nil =>
      cases h
      exact ⟨.refl _, [], (List.append_nil _).symm, Nat.zero_le _⟩
  | cons ep endpoints ih =>
      rw [List.foldlM_cons, bind_eq_ok_iff] at h
      rcases h with ⟨⟨mid, between⟩, hep, h⟩
      rw [receiveNextEndpoint, bind_eq_ok_iff] at hep
      rcases hep with ⟨⟨added, first⟩, hreceive, hep⟩
      cases hep
      rcases grows_of_receiveEndpoint hreceive with ⟨hgrows, hfirst⟩
      rcases ih h with ⟨hrest, started, rfl, hstarted⟩
      refine ⟨hgrows.trans hrest, first ++ started, List.append_assoc threads first started, ?_⟩
      rw [List.length_append, connectable_cons]
      exact Nat.add_le_add hfirst (Nat.le_trans hstarted (hgrows.connectable_le endpoints))

/-! ## Signals -/

theorem sendConnectionStateChange_eq_ok (h : m.sendConnectionStateChange id = .ok m') :
    m' = m := by
  rw [sendConnectionStateChange, bind_eq_ok_iff] at h
  rcases h with ⟨_, -, h⟩
  cases h
  rfl

theorem sameTables_sendRequest (env : Surroundings) (m : WS2Pv1Module H) (id : NodeFullId) :
    m.SameTables (m.sendRequest env id) := by
  unfold sendRequest
  split
  · split
    · exact ⟨_, _, rfl⟩
    · exact .refl m
  · exact .refl m

/-- At most how many connections a signal starts. -/
def signalled (m : WS2Pv1Module H) : WS2PSignal H → Nat
  | .peerCard _ _ endpoints => m.connectable endpoints
  | _ => 0

/-- What the main loop does on a signal: it closes the connection of the node, or only adds
endpoints. -/
theorem closes_or_grows_of_receiveSignal {signal : WS2PSignal H}
    {threads : List ConnectionThread} (h : m.receiveSignal env signal = .ok (m', threads)) :
    ((∃ id, signal = .wsError id ∧ m' = m.closeConnection env id .wsError) ∨
      (∀ id, signal ≠ .wsError id) ∧ Grows m m') ∧
    threads.length ≤ m.signalled signal := by
  cases signal with
  | connectionEstablished id =>
      rw [receiveSignal, bind_eq_ok_iff] at h
      rcases h with ⟨sent, hsent, h⟩
      obtain rfl := sendConnectionStateChange_eq_ok hsent
      cases h
      exact ⟨Or.inr ⟨nofun, (sameTables_sendRequest env m id).grows⟩, Nat.zero_le _⟩
  | wsError id =>
      rw [receiveSignal, bind_eq_ok_iff] at h
      rcases h with ⟨sent, hsent, h⟩
      obtain rfl := sendConnectionStateChange_eq_ok hsent
      cases h
      exact ⟨Or.inl ⟨id, rfl, rfl⟩, Nat.zero_le _⟩
  | negociationTimeout id | timeout id =>
      rw [receiveSignal, bind_eq_ok_iff] at h
      rcases h with ⟨sent, hsent, h⟩
      obtain rfl := sendConnectionStateChange_eq_ok hsent
      cases h
      exact ⟨Or.inr ⟨nofun, .refl _⟩, Nat.zero_le _⟩
  | peerCard id body endpoints =>
      rcases grows_of_peerCard h with ⟨hgrows, started, rfl, hstarted⟩
      exact ⟨Or.inr ⟨nofun, hgrows⟩, hstarted⟩
  | request | heads | document | reqResponse | empty | noConnection =>
      cases h
      exact ⟨Or.inr ⟨nofun, .refl _⟩, Nat.zero_le _⟩

end WS2Pv1Module

open WS2Pv1Module

/-! ## Messages -/

/-- The payloads that record an endpoint as established. -/
def WS2Pv1MsgPayload.Establishes : WS2Pv1MsgPayload → Prop
  | .validConnectMessage _ state | .validAckMessage _ state | .validOk state =>
      state = .established
  | _ => False

theorem Treats.establishes {sends : Bool} {state state' : Option WS2PConnectionState}
    {socket socket' : Option WsSender} {signal : WS2PSignal H} {sent : List (WsSender × String)}
    (h : Treats sends id state socket payload state' socket' signal sent)
    (hestablished : state' = some .established) :
    state = some .established ∨ payload.Establishes := by
  cases h with
  | content | websocketOk => exact Or.inl hestablished
  | connect | connectUnsent | ackUnanswered => exact Or.inr (Option.some.inj hestablished)
  | okEstablished => exact Or.inr rfl
  | negociationTimeout hmem =>
      cases Option.some.inj hestablished
      simp at hmem
  | timeout | close => cases state <;> cases hestablished
  | _ => cases hestablished

/-- At most how many connections a message starts. -/
def WS2Pv1Module.started (m : WS2Pv1Module H) : WS2Pv1MsgPayload → Nat
  | .peerCard _ endpoints => m.connectable endpoints
  | _ => 0

theorem Treats.of_peerCard {sends : Bool} {state state' : Option WS2PConnectionState}
    {socket socket' : Option WsSender} {sent : List (WsSender × String)} {sender : NodeFullId}
    {body : Json} {endpoints : List EndpointV1}
    (h : Treats sends id state socket payload state' socket'
      (.peerCard sender body endpoints : WS2PSignal H) sent) :
    payload = .peerCard body endpoints ∧ state' = state := by
  cases h with
  | content _ _ hcard => exact ⟨hcard _ _ _ rfl, rfl⟩
  | _ => contradiction

theorem WS2Pv1Module.SameBut.stateOf_eq (h : SameBut id m m')
    (hstate : m'.stateOf id = m.stateOf id) (id' : NodeFullId) : m'.stateOf id' = m.stateOf id' := by
  by_cases heq : id' = id
  · rw [heq, hstate]
  · exact h.stateOf heq

theorem WS2Pv1Module.SameBut.connectable_le (h : SameBut id m m')
    (hstate : m'.stateOf id = m.stateOf id) (endpoints : List EndpointV1) :
    m'.connectable endpoints ≤ m.connectable endpoints := by
  have hstates := h.stateOf_eq hstate
  have hcount : m'.countEstablishedConnections = m.countEstablishedConnections :=
    Nat.le_antisymm (countEstablished_le fun id' => (hstates id').symm.trans)
      (countEstablished_le fun id' => (hstates id').trans)
  rw [connectable, connectable, hcount, h.conf]
  split
  · refine List.countP_mono_left fun ep _ hep => decide_eq_true ?_
    rcases of_decide_eq_true hep with ⟨hnew, hreachable⟩
    exact ⟨fun id hid => (hstates id).symm.trans (hnew id hid), h.ssl ▸ hreachable⟩
  · exact Nat.le_refl 0

/-- The signal of a message starts no more connections than the message. -/
theorem Treated.signalled_le {p : Pretreatment H} (h : Treated env m id payload p) :
    p.ws2pModule.signalled p.signal ≤ m.started payload := by
  unfold WS2Pv1Module.signalled
  split
  case h_1 sender body endpoints hsignal =>
    have htreats := h.treats
    rw [hsignal] at htreats
    rcases htreats.of_peerCard with ⟨rfl, hstate⟩
    exact h.sameBut.connectable_le hstate endpoints
  case h_2 => exact Nat.zero_le _

/-- What the main loop does on a message: an endpoint that becomes established is that of a message
that establishes, and a peer card starts connections. -/
theorem effect_of_receiveMessage {threads : List ConnectionThread}
    (h : m.receiveMessage env ⟨id, payload⟩ = .ok (m', threads)) :
    (m'.conf = m.conf ∧ m'.keyPair = m.keyPair) ∧
      (∀ id', m'.stateOf id' = some .established →
        m.stateOf id' = some .established ∨ id' = id ∧ payload.Establishes) ∧
      threads.length ≤ m.started payload := by
  rw [receiveMessage, bind_eq_ok_iff] at h
  rcases h with ⟨p, htreat, h⟩
  have htreated := treated_of_pretreatment htreat
  have hpretreated : ∀ id', p.ws2pModule.stateOf id' = some .established →
      m.stateOf id' = some .established ∨ id' = id ∧ payload.Establishes := by
    intro id' hstate
    by_cases heq : id' = id
    · rw [heq] at hstate ⊢
      exact (htreated.treats.establishes hstate).imp_right fun h => ⟨rfl, h⟩
    · exact Or.inl (htreated.sameBut.stateOf heq ▸ hstate)
  rcases closes_or_grows_of_receiveSignal h with ⟨hsignal, hthreads⟩
  have hle := Nat.le_trans hthreads htreated.signalled_le
  rcases hsignal with ⟨closed, -, rfl⟩ | ⟨-, hgrows⟩
  · have hclose : SameBut closed p.ws2pModule _ := sameBut_closeConnection env .wsError
    refine ⟨⟨hclose.conf.trans htreated.sameBut.conf,
      hclose.keyPair.trans htreated.sameBut.keyPair⟩, fun id' hstate => ?_, hle⟩
    by_cases heq : id' = closed
    · rw [heq] at hstate
      exact absurd hstate stateOf_closeConnection_wsError
    · exact hpretreated id' (hclose.stateOf heq ▸ hstate)
  · exact ⟨⟨hgrows.conf.trans htreated.sameBut.conf,
      hgrows.keyPair.trans htreated.sameBut.keyPair⟩,
      fun id' hstate => hpretreated id' ((hgrows.established_iff id').1 hstate), hle⟩

/-! ## Connections -/

/-- The payloads that tell of the connection itself. -/
def WS2Pv1MsgPayload.IsLocal : WS2Pv1MsgPayload → Prop
  | .websocketOk _ | .negociationTimeout | .timeout | .close => True
  | _ => False

/-- What becomes of a connection on an event, and what it sends: nothing, a message about the
connection itself, or what is returned of a message of the peer. -/
inductive Handled (L : Libs) (currency : String) (thread : ConnectionThread) :
    ConnectionThread → Option WS2Pv1Msg → Prop
  | quiet {phase : Phase} : (thread.phase = .ended → phase = .ended) →
      Handled L currency thread { thread with phase } none
  | tells {phase : Phase} {payload : WS2Pv1MsgPayload} {id : NodeFullId} :
      thread.phase ≠ .ended → payload.IsLocal →
      Handled L currency thread { thread with phase } (some ⟨id, payload⟩)
  | parsed {id : NodeFullId} {msg : Json} {datas : WS2PConnectionMetaDatas}
      {payload : WS2Pv1MsgPayload} : thread.phase = .opened →
      Parsed L currency id.pubkey msg thread.datas datas payload →
      Handled L currency thread { thread with datas } (some ⟨id, payload⟩)

theorem handled_of_handle {currency : String} {keyPair : KeyPair} {connection : Nat}
    {thread thread' : ConnectionThread} {event : ConnectionEvent} {message : Option WS2Pv1Msg}
    (h : thread.handle L currency keyPair connection event = .ok (thread', message)) :
    Handled L currency thread thread' message := by
  unfold ConnectionThread.handle at h
  split at h
  case h_1 hphase =>
    cases h
    exact .quiet fun hended => Phase.noConfusion (hphase.symm.trans hended)
  case h_2 hphase =>
    rw [bind_eq_ok_iff] at h
    rcases h with ⟨sender, -, h⟩
    cases h
    exact .tells (by rw [hphase]; exact Phase.noConfusion) trivial
  case h_3 text hphase =>
    simp only [onMessage, bind_eq_ok_iff, expect_eq_ok_iff, pure_eq_ok_iff] at h
    rcases h with ⟨_, ⟨msg, -, sender, hsender, ⟨datas, payload⟩, hparse, rfl⟩, h⟩
    cases h
    have hkey := WS2PConnectionMetaDatas.remotePubkey_of_nodeFullId hsender
    exact .parsed hphase (WS2PConnectionMetaDatas.parsed_of_parse hkey hparse)
  case h_4 hphase =>
    split at h
    case isTrue =>
      rw [bind_eq_ok_iff] at h
      rcases h with ⟨sender, -, h⟩
      cases h
      exact .tells (by rw [hphase]; exact Phase.noConfusion) trivial
    case isFalse =>
      cases h
      exact .quiet id
  case h_5 hphase | h_6 hphase =>
    rw [bind_eq_ok_iff] at h
    rcases h with ⟨sender, -, h⟩
    cases h
    exact .tells (by rw [hphase]; exact Phase.noConfusion) trivial
  case h_7 =>
    cases h
    exact .quiet id

namespace System

variable {s s' : System H} {connection : Nat} {event : ConnectionEvent}

/-- The message that an event on a connection sends to the main loop. -/
def sent (L : Libs) (s : System H) (connection : Nat) (event : ConnectionEvent) :
    Option WS2Pv1Msg :=
  match s.threads[connection]? with
  | none => none
  | some thread =>
      match thread.handle L s.ws2pModule.currency s.ws2pModule.keyPair connection event with
      | .ok (_, message) => message
      | .error _ => none

/-- What an event on a connection does: nothing, something to the connection alone, or something
to the connection and, through a message, to the module. -/
theorem connectionStep_cases (h : s.connectionStep L connection event env = .ok s') :
    (s.sent L connection event = none ∧ s' = s) ∨
      ∃ thread thread' message, s.threads[connection]? = some thread ∧
        Handled L s.ws2pModule.currency thread thread' message ∧
        s.sent L connection event = message ∧
        ((message = none ∧ s' = { s with threads := s.threads.set connection thread' }) ∨
          ∃ told ws2pModule started, message = some told ∧
            s.ws2pModule.receiveMessage env told = .ok (ws2pModule, started) ∧
            s' = ⟨ws2pModule, s.threads.set connection thread' ++ started⟩) := by
  unfold connectionStep at h
  unfold sent
  cases hthread : s.threads[connection]? with
  | none =>
      rw [hthread] at h
      cases h
      exact Or.inl ⟨rfl, rfl⟩
  | some thread =>
      rw [hthread] at h
      dsimp only at h ⊢
      rw [bind_eq_ok_iff] at h
      rcases h with ⟨⟨thread', message⟩, hhandle, h⟩
      refine Or.inr ⟨thread, thread', message, rfl, handled_of_handle hhandle, ?_, ?_⟩
      · rw [hhandle]
      · cases message with
        | none =>
            cases h
            exact Or.inl ⟨rfl, rfl⟩
        | some told =>
            dsimp only at h
            rw [bind_eq_ok_iff] at h
            rcases h with ⟨⟨ws2pModule, started⟩, hreceive, h⟩
            cases h
            exact Or.inr ⟨told, ws2pModule, started, rfl, hreceive, rfl⟩

/-! ## The start -/

theorem stateOf_ne_established_of_loadEndpoints {conf : WS2PConf} {ssl : Bool}
    {saved : List (NodeFullId × DbEndpoint)} {ws2pEndpoints : HashMap NodeFullId DbEndpoint}
    (h : loadEndpoints conf ssl saved = .ok ws2pEndpoints) {dalEp : DbEndpoint}
    (hget : ws2pEndpoints.get? id = some dalEp) : dalEp.state ≠ .established := by
  rw [loadEndpoints, bind_eq_ok_iff] at h
  rcases h with ⟨fromConf, hconf, h⟩
  cases h
  rcases HashMap.mem_of_get?_insertAll _ hget with hmem | hget
  · rcases List.mem_map.1 hmem with ⟨entry, -, heq⟩
    rw [← (Prod.mk.inj heq).2]
    split
    case isTrue => exact nofun
    case isFalse hstate => exact hstate
  · rcases HashMap.mem_of_get?_insertAll _ hget with hmem | hempty
    · rcases (mem_mapM_iff hconf _).1 hmem with ⟨ep, -, hep⟩
      rw [bind_eq_ok_iff] at hep
      rcases hep with ⟨epId, -, hep⟩
      cases hep
      exact nofun
    · cases hempty

/-- No endpoint is established at the start. -/
theorem stateOf_start_ne_established {conf : WS2PConf} {currency : String} {keyPair : KeyPair}
    {ssl : Bool} {saved : List (NodeFullId × DbEndpoint)} {order : WaveOrder}
    (h : start conf currency keyPair ssl saved order = .ok s) (id : NodeFullId) :
    s.ws2pModule.stateOf id ≠ some .established := by
  rw [start, bind_eq_ok_iff] at h
  rcases h with ⟨ws2pEndpoints, hload, h⟩
  rw [bind_eq_ok_iff] at h
  rcases h with ⟨threads, -, h⟩
  cases h
  intro hstate
  rcases Option.map_eq_some_iff.1 hstate with ⟨dalEp, hget, hstate⟩
  exact stateOf_ne_established_of_loadEndpoints hload hget hstate

end System

end Durs.Ws2pV1
