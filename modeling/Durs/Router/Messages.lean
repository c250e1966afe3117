/-
# Messages between modules

What modules tell the router: how many they are, their registrations, and the messages that it
relays between them.
-/

import Durs.RustStd.HashSet

namespace Durs

open RustStd

/-- Module name in static lifetime. -/
abbrev ModuleStaticName := String

/-- The channel to a module. -/
abbrev Sender := Nat

/-- The roles of the modules. -/
inductive ModuleRole
  | blockchainDatas
  | blockValidation
  | blockGeneration
  | changeConf
  | clientsNetwork
  | currencyPool
  | interNodesNetwork
  | userInterface
  | wotPool
deriving DecidableEq, Repr

/-- The types of events. -/
inductive ModuleEvent
  | newBlockFromNetwork
  | newTxFromNetwork
  | newWotDocFromNetwork
  | newValidBlock
  | newValidBlockFromSelf
  | newFork
  | revertBlocks
  | newTxinPool
  | newWotDocInPool
  | newValidHeadFromNetwork
  | connectionsChangeNodeNetwork
  | newSelfPeer
  | newValidPeerFromNodeNetwork
deriving DecidableEq, Repr

/-- The API of an endpoint. -/
abbrev ApiName := String

abbrev ApiVersion := Nat

/-- Some versions of an API. -/
structure ApiPart where
  name : ApiName
  versions : HashSet ApiVersion
deriving DecidableEq

namespace ApiPart

/-- Whether two parts of APIs have a version in common. -/
def unionExist (part other : ApiPart) : Bool :=
  part.name = other.name && (part.versions.iter.filter other.versions.contains).length > 0

def contains (part : ApiPart) (apiName : ApiName) (apiVersion : ApiVersion) : Bool :=
  part.name = apiName && part.versions.contains apiVersion

end ApiPart

/-- The contents that the router does not read are of a type of their own. -/
inductive EndpointEnum (Content : Type)
  | v1 (api : ApiName) (content : Content)
  | v2 (api : ApiName) (content : Content)
deriving DecidableEq

namespace EndpointEnum

variable {Content : Type}

def api : EndpointEnum Content → ApiName
  | .v1 api _ => api
  | .v2 api _ => api

def version : EndpointEnum Content → ApiVersion
  | .v1 _ _ => 1
  | .v2 _ _ => 2

end EndpointEnum

/-- Message exchanged between modules. -/
inductive DursMsg (Content : Type)
  | event (eventFrom : ModuleStaticName) (eventType : ModuleEvent) (eventContent : Content)
  | request (reqFrom : ModuleStaticName) (reqTo : ModuleRole) (reqId : Nat) (reqContent : Content)
  | response (resFrom resTo : ModuleStaticName) (reqId : Nat) (resContent : Content)
  | stop
  | saveNewModuleConf (name : ModuleStaticName) (conf : Content)
  | modulesEndpoints (endpoints : List (EndpointEnum Content))
deriving DecidableEq

/-- Registration of a module at the router. -/
structure ModuleRegistration (Content : Type) where
  staticName : ModuleStaticName
  sender : Sender
  roles : List ModuleRole
  eventsSubscription : List ModuleEvent
  reservedApisParts : List ApiPart
  endpoints : List (EndpointEnum Content)
deriving DecidableEq

/-- What the router receives. -/
inductive RouterThreadMessage (Content : Type)
  | modulesCount (count : Nat)
  | moduleRegistration (registration : ModuleRegistration Content)
  | moduleMessage (msg : DursMsg Content)
deriving DecidableEq

/-- A message that is sent to a module. -/
abbrev Sent (Content : Type) := Sender × DursMsg Content

/-- To whom a message is addressed. -/
inductive DursMsgReceiver
  | role (role : ModuleRole)
  | event (event : ModuleEvent)
  | one (name : ModuleStaticName)
deriving DecidableEq, Repr

section

variable {Content : Type}

/-- To whom a message is addressed, if it is one that waits for its receiver. -/
def DursMsg.receiver? : DursMsg Content → Option DursMsgReceiver
  | .event _ eventType _ => some (.event eventType)
  | .request _ reqTo _ _ => some (.role reqTo)
  | .response _ resTo _ _ => some (.one resTo)
  | _ => none

/-- Send msg to several receivers: the first one last. -/
def sendMsgToSeveralReceivers (msg : DursMsg Content) (receivers : List ModuleStaticName)
    (modulesSenders : HashMap ModuleStaticName Sender) : List (Sent Content) :=
  (receivers.tail ++ receivers.head?.toList).filterMap fun name =>
    (modulesSenders.get? name).map (·, msg)

end

end Durs
