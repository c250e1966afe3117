/-
# The threads of the router

The router thread receives everything; it answers for the responses itself, and relays the
registrations, the events and the requests to the broadcasting thread.  Both keep what cannot be
delivered yet, and replay it to the modules that register later.
-/

import Durs.Router.Messages
import Durs.Run

namespace Durs

open RustStd

variable {Content : Type}

/-- `MAX_REGISTRATION_DELAY`, in seconds. -/
def maxRegistrationDelay : Nat := 20

/-- The seconds since the start of the node, read in one turn of the loop of a thread: while the
message is processed, and after it. -/
structure Elapsed where
  during : Nat
  after : Nat
deriving DecidableEq, Repr

/-! ## The broadcasting thread -/

/-- The variables of the broadcasting thread, and whether its loop goes on. -/
structure BroadcastingThread (Content : Type) where
  modulesSenders : HashMap ModuleStaticName Sender
  poolMsgs : HashMap DursMsgReceiver (List (DursMsg Content))
  eventsSubscriptions : HashMap ModuleEvent (List ModuleStaticName)
  roles : HashMap ModuleRole (List ModuleStaticName)
  registrationsCount : Nat
  expectedRegistrationsCount : Option Nat
  localNodeEndpoints : List (EndpointEnum Content)
  reservedApisParts : HashMap ModuleStaticName (List ApiPart)
  running : Bool

instance : Inhabited (BroadcastingThread Content) :=
  ⟨⟨∅, ∅, ∅, ∅, 0, none, [], ∅, true⟩⟩

/-- Keep a message for the modules that are not yet plugged; too late, all of them are dropped. -/
def storeMsgInPool (elapsed : Nat) (msg : DursMsg Content)
    (poolMsgs : HashMap DursMsgReceiver (List (DursMsg Content))) :
    HashMap DursMsgReceiver (List (DursMsg Content)) :=
  if elapsed < maxRegistrationDelay then
    match msg.receiver? with
    | some msgRecv => poolMsgs.push msgRecv msg
    | none => poolMsgs
  else if poolMsgs.isEmpty then poolMsgs
  else ∅

namespace BroadcastingThread

/-- The messages that are kept for a receiver. -/
def pending (t : BroadcastingThread Content) (msgRecv : DursMsgReceiver) :
    List (DursMsg Content) :=
  (t.poolMsgs.get? msgRecv).getD []

/-- Register a module: it is sent the pending messages of its events and roles.  The last one that
is expected makes the endpoints known to the network modules that registered before. -/
def register (t : BroadcastingThread Content) (module : ModuleRegistration Content) :
    Run (BroadcastingThread Content × List (Sent Content)) := do
  let registrationsCount := t.registrationsCount + 1
  let replayed := module.eventsSubscription.flatMap (fun event => t.pending (.event event)) ++
    module.roles.flatMap fun role => t.pending (.role role)
  let eventsSubscriptions := module.eventsSubscription.foldl
    (fun subscriptions event => subscriptions.push event module.staticName) t.eventsSubscriptions
  let roles := module.roles.foldl (fun roles role => roles.push role module.staticName) t.roles
  if t.reservedApisParts.iter.any fun other => other.2.any fun otherApiPart =>
      module.reservedApisParts.any (·.unionExist otherApiPart) then
    fatalError ("two modules try to reserve same api name '\x7b\x7d' with at least 1 version in " ++
      "common '(\x7b:?\x7d; \x7b:?\x7d)' !")
  else if module.endpoints.any fun ep =>
      !module.reservedApisParts.any (·.contains ep.api ep.version) then
    fatalError ("Module \x7b\x7d try to declare endpoint with undeclared api part " ++
      "(name: '\x7b\x7d', version: '\x7b\x7d') !")
  else do
    let localNodeEndpoints := t.localNodeEndpoints ++ module.endpoints
    let announced ←
      if t.expectedRegistrationsCount = some registrationsCount then do
        let receivers ← expect (roles.get? .interNodesNetwork)
          "Fatal error : no module with role InterNodesNetwork !"
        pure (sendMsgToSeveralReceivers (.modulesEndpoints localNodeEndpoints) receivers
          t.modulesSenders)
      else pure []
    return ({ t with
      eventsSubscriptions, roles, registrationsCount, localNodeEndpoints
      reservedApisParts := t.reservedApisParts.insert module.staticName module.reservedApisParts
      modulesSenders := t.modulesSenders.insert module.staticName module.sender },
      replayed.map (module.sender, ·) ++ announced)

/-- Relay an event or a request. -/
def relay (elapsed : Nat) (t : BroadcastingThread Content) (msg : DursMsg Content) :
    BroadcastingThread Content × List (Sent Content) :=
  match msg with
  | .event eventFrom eventType _ =>
      let receivers := ((t.eventsSubscriptions.get? eventType).getD []).filter (· ≠ eventFrom)
      ({ t with poolMsgs := storeMsgInPool elapsed msg t.poolMsgs },
        sendMsgToSeveralReceivers msg receivers t.modulesSenders)
  | .request _ role _ _ =>
      let receivers := (t.roles.get? role).getD []
      ({ t with poolMsgs := storeMsgInPool elapsed msg t.poolMsgs },
        sendMsgToSeveralReceivers msg receivers t.modulesSenders)
  | _ => (t, [])

/-- The process stops when modules are missing after the registration delay. -/
def checkDelay (elapsed : Nat) (t : BroadcastingThread Content) : Run Unit :=
  if (∀ expected ∈ t.expectedRegistrationsCount, t.registrationsCount < expected) ∧
      elapsed > maxRegistrationDelay then
    fatalError "\x7b\x7d modules have registered, but expected \x7b\x7d !"
  else return ()

/-- Process a message; returns what is sent. -/
def handle (elapsed : Elapsed) (t : BroadcastingThread Content) :
    RouterThreadMessage Content → Run (BroadcastingThread Content × List (Sent Content))
  | .moduleMessage .stop => return ({ t with running := false }, [])
  | .modulesCount count => do
      let t := { t with expectedRegistrationsCount := some count }
      t.checkDelay elapsed.after
      return (t, [])
  | .moduleRegistration module => do
      let (t, sent) ← t.register module
      t.checkDelay elapsed.after
      return (t, sent)
  | .moduleMessage msg => do
      let (t, sent) := t.relay elapsed.during msg
      t.checkDelay elapsed.after
      return (t, sent)

end BroadcastingThread

/-! ## The router thread -/

/-- The variables of the router thread, and whether its loop goes on. -/
structure RouterThread (Content : Type) where
  modulesSenders : HashMap ModuleStaticName Sender
  poolMsgs : HashMap ModuleStaticName (List (DursMsg Content))
  running : Bool

instance : Inhabited (RouterThread Content) := ⟨⟨∅, ∅, true⟩⟩

/-- What a turn of the loop of the router thread relays to the broadcasting thread, and sends. -/
structure RouterOutput (Content : Type) where
  relayed : List (RouterThreadMessage Content)
  sent : List (Sent Content)

namespace RouterThread

/-- Process a message. -/
def dispatch (elapsed : Nat) (t : RouterThread Content) (mess : RouterThreadMessage Content) :
    RouterThread Content × RouterOutput Content :=
  match mess with
  | .modulesCount _ => (t, ⟨[mess], []⟩)
  | .moduleRegistration module =>
      let msgs := (t.poolMsgs.get? module.staticName).getD []
      ({ t with
        poolMsgs := t.poolMsgs.remove module.staticName
        modulesSenders := t.modulesSenders.insert module.staticName module.sender },
        ⟨[mess], msgs.map (module.sender, ·)⟩)
  | .moduleMessage msg =>
      match msg with
      | .stop => ({ t with running := false },
          ⟨[mess], t.modulesSenders.iter.map fun entry => (entry.2, .stop)⟩)
      -- the configuration thread saves it
      | .saveNewModuleConf _ _ => (t, ⟨[], []⟩)
      | .request _ _ _ _ => (t, ⟨[mess], []⟩)
      | .event _ _ _ => (t, ⟨[mess], []⟩)
      | .response _ resTo _ _ =>
          match t.modulesSenders.get? resTo with
          | some sender => (t, ⟨[], [(sender, msg)]⟩)
          | none =>
              if elapsed < maxRegistrationDelay then
                ({ t with poolMsgs := t.poolMsgs.push resTo msg }, ⟨[], []⟩)
              else if t.poolMsgs.isEmpty then (t, ⟨[], []⟩)
              else ({ t with poolMsgs := ∅ }, ⟨[], []⟩)
      -- a message that is reserved to the router
      | .modulesEndpoints _ => (t, ⟨[], []⟩)

/-- One turn of the loop, with a message or after a second without one; the node may be asked to run
for some seconds only. -/
def handle (runDurationInSecs : Nat) (elapsed : Elapsed) (t : RouterThread Content)
    (mess : Option (RouterThreadMessage Content)) :
    RouterThread Content × RouterOutput Content :=
  let (t, output) := match mess with
    | some mess => t.dispatch elapsed.during mess
    | none => (t, ⟨[], []⟩)
  if t.running = true ∧ runDurationInSecs > 0 ∧ elapsed.after > runDurationInSecs then
    ({ t with running := false },
      { output with relayed := output.relayed ++ [.moduleMessage .stop] })
  else (t, output)

end RouterThread

/-! ## Both threads -/

/-- The two threads, what is on its way from the router thread to the broadcasting thread, and what
has been sent to the modules.  The last two fields are the history: the messages that each of the
threads has processed. -/
structure Router (Content : Type) where
  thread : RouterThread Content
  queue : List (RouterThreadMessage Content)
  broadcasting : BroadcastingThread Content
  delivered : List (Sent Content)
  taken : List (RouterThreadMessage Content)
  broadcasted : List (RouterThreadMessage Content)

instance : Inhabited (Router Content) := ⟨⟨default, [], default, [], [], []⟩⟩

/-- A turn of the loop of one of the threads.  The messages reach the router thread in any order. -/
inductive RouterOp (Content : Type)
  | take (elapsed : Elapsed) (mess : Option (RouterThreadMessage Content))
  | broadcast (elapsed : Elapsed)

namespace Router

/-- Take a turn, if the thread has not ended and there is a message for it. -/
def step (runDurationInSecs : Nat) (s : Router Content) : RouterOp Content → Run (Router Content)
  | .take elapsed mess =>
      if s.thread.running then
        let (thread, output) := s.thread.handle runDurationInSecs elapsed mess
        return { s with
          thread
          queue := s.queue ++ output.relayed
          delivered := s.delivered ++ output.sent
          taken := s.taken ++ mess.toList }
      else return s
  | .broadcast elapsed =>
      match s.queue with
      | [] => return s
      | mess :: queue =>
          if s.broadcasting.running then do
            let (broadcasting, sent) ← s.broadcasting.handle elapsed mess
            return { s with
              queue, broadcasting
              delivered := s.delivered ++ sent
              broadcasted := s.broadcasted ++ [mess] }
          else return s

end Router

end Durs
