/-
# The main loop of WS2P v1

The connections that the module opens, each with a thread of its own, and the main loop that takes
their messages in the order of its channel.  A thread does not read what the main loop writes, so
its message is taken as sent when it is handled.  What the router sends changes neither the states
of the endpoints nor the websockets, and is left out.
-/

import Durs.Lib.Reached
import Durs.Ws2pV1.Module

namespace Durs.Ws2pV1

open RustStd Network

/-! ## Connections -/

/-- How far a connection has got. -/
inductive Phase
  | connecting | opened | ended
deriving DecidableEq, Repr

/-- The thread of a connection. -/
structure ConnectionThread where
  phase : Phase
  datas : WS2PConnectionMetaDatas
deriving DecidableEq, Repr

/-- What may happen to a connection. -/
inductive ConnectionEvent
  /-- The connection can not be opened. -/
  | failed
  | opened
  /-- A text is received, and is not held for spam. -/
  | message (text : String)
  /-- The time for the negotiation is over. -/
  | connectTimeout
  /-- Nothing has been received for some time. -/
  | expireTimeout
  | closed
deriving DecidableEq, Repr

variable (L : Libs) {H : HeadLibs}

/-- `Handler for Client`: what becomes of a connection, and the message that is sent to the main
loop.  An event that can not happen changes nothing. -/
def ConnectionThread.handle (currency : String) (keyPair : KeyPair) (connection : Nat)
    (thread : ConnectionThread) (event : ConnectionEvent) :
    Run (ConnectionThread × Option WS2Pv1Msg) :=
  match thread.phase, event with
  | .connecting, .failed => return ({ thread with phase := .ended }, none)
  | .connecting, .opened => do
      let sender ← thread.datas.nodeFullId
      return ({ thread with phase := .opened },
        some { sender, payload := .websocketOk ⟨connection⟩ })
  | .opened, .message text => do
      let (datas, message) ← onMessage L currency keyPair thread.datas text
      return ({ thread with datas }, some message)
  | .opened, .connectTimeout =>
      if thread.datas.state ≠ .established then do
        let sender ← thread.datas.nodeFullId
        return (thread, some { sender, payload := .negociationTimeout })
      else return (thread, none)
  | .opened, .expireTimeout => do
      let sender ← thread.datas.nodeFullId
      return (thread, some { sender, payload := .timeout })
  | .opened, .closed => do
      let sender ← thread.datas.nodeFullId
      return ({ thread with phase := .ended }, some { sender, payload := .close })
  | _, _ => return (thread, none)

namespace WS2Pv1Module

/-- `connect_to_without_checking_quotas`: start a thread, which copies the endpoint. -/
def connectToWithoutCheckingQuotas (m : WS2Pv1Module H) (id : NodeFullId) :
    Run ConnectionThread := do
  let endpoint ← unwrap (m.ws2pEndpoints.get? id)
  let datas ← connectionMetaDatas endpoint.ep
  return { phase := .connecting, datas }

/-- Add an endpoint to the list, if it is not there already. -/
def addEndpoint (m : WS2Pv1Module H) (id : NodeFullId) (ep : EndpointV1) : WS2Pv1Module H :=
  match m.ws2pEndpoints.get? id with
  | some _ => m
  | none =>
      { m with
        ws2pEndpoints := m.ws2pEndpoints.insert id { ep, state := .neverTry, lastCheck := 0 } }

/-- `connect_to`. -/
def connectTo (m : WS2Pv1Module H) (ep : EndpointV1) :
    Run (WS2Pv1Module H × List ConnectionThread) := do
  let nodeFullId ← expect ep.nodeFullId "WS2P: Fail to get ep.node_full_id() !"
  let m := m.addEndpoint nodeFullId ep
  if m.conf.outcomingQuota > m.countEstablishedConnections then do
    let thread ← m.connectToWithoutCheckingQuotas nodeFullId
    return (m, [thread])
  else return (m, [])

/-! ## Waves -/

/-- What a wave has found so far. -/
structure Survey where
  countEstablishedConnections : Nat
  pubkeys : HashSet PubKey
  reachableEndpoints : List EndpointV1
  unreachableEndpoints : List EndpointV1

/-- Nothing has been found yet. -/
def Survey.empty : Survey := ⟨0, ∅, [], []⟩

/-- Take an endpoint: one of an issuer that has already been met is left out, unless it is one of
this node. -/
def survey (m : WS2Pv1Module H) (s : Survey) (dalEp : DbEndpoint) : Survey :=
  if dalEp.ep.issuer = m.keyPair.pubkey ∨ s.pubkeys.contains dalEp.ep.issuer = false then
    match dalEp.state with
    | .established =>
        { s with countEstablishedConnections := s.countEstablishedConnections + 1 }
    | .neverTry | .close | .denial =>
        { s with
          pubkeys := s.pubkeys.insert dalEp.ep.issuer
          reachableEndpoints :=
            if m.ssl || dalEp.ep.port ≠ 443 then s.reachableEndpoints ++ [dalEp.ep]
            else s.reachableEndpoints }
    | _ =>
        { s with
          pubkeys := s.pubkeys.insert dalEp.ep.issuer
          unreachableEndpoints := s.unreachableEndpoints ++ [dalEp.ep] }
  else s

end WS2Pv1Module

/-- An order of the elements of any list. -/
structure Reordering (α : Type) where
  apply : List α → List α
  perm : ∀ l, (apply l).Perm l

/-- The order of the list itself. -/
def Reordering.same {α : Type} : Reordering α := ⟨id, fun _ => .rfl⟩

/-- What a wave does not decide: the order in which the endpoints are iterated, and that in which
those of preferred keys are sorted, by a comparison that is not an order. -/
structure WaveOrder where
  endpoints : Reordering (NodeFullId × DbEndpoint)
  sort : Reordering EndpointV1

namespace WS2Pv1Module

/-- What a wave finds. -/
def surveyAll (m : WS2Pv1Module H) (order : WaveOrder) : Survey :=
  ((order.endpoints.apply m.ws2pEndpoints.iter).map Prod.snd).foldl m.survey Survey.empty

/-- The endpoints that a wave may try, the first to be tried first: each list is popped. -/
def candidates (m : WS2Pv1Module H) (order : WaveOrder) : List EndpointV1 :=
  let s := m.surveyAll order
  let reachableEndpoints :=
    if m.conf.preferedPubkeys.isEmpty then s.reachableEndpoints
    else order.sort.apply s.reachableEndpoints
  reachableEndpoints.reverse ++ s.unreachableEndpoints.reverse

/-- `connect_to_know_endpoints`: the threads that are started. -/
def connectToKnowEndpoints (m : WS2Pv1Module H) (order : WaveOrder) :
    Run (List ConnectionThread) :=
  let freeOutcomingRooms :=
    subU64 m.conf.outcomingQuota (m.surveyAll order).countEstablishedConnections
  ((m.candidates order).take freeOutcomingRooms).mapM fun ep => do
    let id ← unwrap ep.nodeFullId
    m.connectToWithoutCheckingQuotas id

/-! ## Signals -/

/-- The event that is sent to the router names the endpoint, which has to be known. -/
def sendConnectionStateChange (m : WS2Pv1Module H) (id : NodeFullId) : Run (WS2Pv1Module H) := do
  let _ ← m.endpoint id
  return m

/-- `send_request_to_specific_node`, of the request for the current block. -/
def sendRequest (env : Surroundings) (m : WS2Pv1Module H) (id : NodeFullId) : WS2Pv1Module H :=
  match m.websockets.get? id with
  | some _ =>
      if env.sends then
        { m with
          requestsAwaitingResponse := m.requestsAwaitingResponse.insert env.reqId
            { requesterModule := { name := "ws2p1", reqId := m.requestsAwaitingResponse.len }
              reqBody := .getCurrent
              recipientNode := id
              timestamp := env.now } }
      else m
  | none => m

/-- Connect to an endpoint that a peer card names, if it is not known yet. -/
def receiveEndpoint (m : WS2Pv1Module H) (ep : EndpointV1) :
    Run (WS2Pv1Module H × List ConnectionThread) := do
  let id ← expect ep.nodeFullId "WS2P: Fail to get ep.node_full_id() !"
  match m.ws2pEndpoints.get? id with
  | some _ => return (m, [])
  | none =>
      if m.ssl || ep.port ≠ 443 then m.connectTo ep
      else return (m, [])

/-- Connect to an endpoint after others that a peer card names. -/
def receiveNextEndpoint (received : WS2Pv1Module H × List ConnectionThread) (ep : EndpointV1) :
    Run (WS2Pv1Module H × List ConnectionThread) := do
  let (m, started) ← received.1.receiveEndpoint ep
  return (m, received.2 ++ started)

/-- What the main loop does on a signal, with the threads that are started. -/
def receiveSignal (env : Surroundings) (m : WS2Pv1Module H) (signal : WS2PSignal H) :
    Run (WS2Pv1Module H × List ConnectionThread) :=
  match signal with
  | .connectionEstablished id => do
      let m ← (m.sendRequest env id).sendConnectionStateChange id
      return (m, [])
  | .wsError id => do
      let m ← (m.closeConnection env id .wsError).sendConnectionStateChange id
      return (m, [])
  | .negociationTimeout id | .timeout id => do
      let m ← m.sendConnectionStateChange id
      return (m, [])
  | .peerCard _ _ endpoints => endpoints.foldlM receiveNextEndpoint (m, [])
  | _ => return (m, [])

/-- What the main loop does on a message of a connection. -/
def receiveMessage (env : Surroundings) (m : WS2Pv1Module H) (message : WS2Pv1Msg) :
    Run (WS2Pv1Module H × List ConnectionThread) := do
  let p ← m.ws2pRecvMessagePretreatment env message
  p.ws2pModule.receiveSignal env p.signal

end WS2Pv1Module

/-! ## The system -/

/-- The module and its connections. -/
structure System (H : HeadLibs) where
  ws2pModule : WS2Pv1Module H
  threads : List ConnectionThread

/-- A step of the system: an event on a connection, whose message the main loop handles, or a wave
of connections, when the main loop finds that it is time for one. -/
inductive Step
  | connection (connection : Nat) (event : ConnectionEvent) (env : Surroundings)
  | wave (order : WaveOrder)

namespace System

/-- An event on a connection. -/
def connectionStep (s : System H) (connection : Nat) (event : ConnectionEvent)
    (env : Surroundings) : Run (System H) :=
  match s.threads[connection]? with
  | none => return s
  | some thread => do
      let (thread, message) ←
        thread.handle L s.ws2pModule.currency s.ws2pModule.keyPair connection event
      let threads := s.threads.set connection thread
      match message with
      | none => return { s with threads }
      | some message => do
          let (ws2pModule, started) ← s.ws2pModule.receiveMessage env message
          return { ws2pModule, threads := threads ++ started }

/-- A wave, of which there is none while enough connections are established. -/
def waveStep (s : System H) (order : WaveOrder) : Run (System H) :=
  if s.ws2pModule.countEstablishedConnections < s.ws2pModule.conf.outcomingQuota then do
    let started ← s.ws2pModule.connectToKnowEndpoints order
    return { s with threads := s.threads ++ started }
  else return s

/-- One step. -/
def step (s : System H) : Step → Run (System H)
  | .connection connection event env => s.connectionStep L connection event env
  | .wave order => s.waveStep order

/-- The entries with which the module starts: those of its configuration, and over them those that
were saved, without those that need SSL where there is none.  None is established. -/
def loadEndpoints (conf : WS2PConf) (ssl : Bool) (saved : List (NodeFullId × DbEndpoint)) :
    Run (HashMap NodeFullId DbEndpoint) := do
  let fromConf ← conf.syncEndpoints.mapM fun ep => do
    let id ← expect ep.nodeFullId "Fail to get endpoint node_full_id"
    return (id, ({ ep, state := .close, lastCheck := 0 } : DbEndpoint))
  let fromFile := saved.filter fun entry => ssl || entry.2.ep.port ≠ 443
  let fromFile := fromFile.map fun entry =>
    (entry.1,
      if entry.2.state = .established then { entry.2 with state := .close } else entry.2)
  return (HashMap.ofList fromConf).insertAll fromFile

/-- `start`: load the endpoints, and connect to those that are known. -/
def start (conf : WS2PConf) (currency : String) (keyPair : KeyPair) (ssl : Bool)
    (saved : List (NodeFullId × DbEndpoint)) (order : WaveOrder) : Run (System H) := do
  let ws2pEndpoints ← loadEndpoints conf ssl saved
  let ws2pModule : WS2Pv1Module H :=
    { conf, currency, headsCache := ∅, keyPair, myHead := none, requestsAwaitingResponse := ∅,
      ssl, websockets := ∅, ws2pEndpoints }
  let threads ← ws2pModule.connectToKnowEndpoints order
  return { ws2pModule, threads }

end System

end Durs.Ws2pV1
