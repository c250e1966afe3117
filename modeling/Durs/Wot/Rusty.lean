/-
# The web of trust

The graph of certifications: a vector of nodes, each with its enabled flag, the set of the sources
of its links and the number of links it issued.
-/

import Durs.RustStd.HashSet
import Mathlib.Algebra.Order.Ring.Int

namespace Durs

open RustStd

/-- An index into the nodes of the web of trust. -/
abbrev NodeId := Nat

/-- A node of the graph. -/
structure WotNode where
  enabled : Bool
  linksSource : HashSet NodeId
  issuedCount : Nat
deriving DecidableEq

/-- A new node is enabled and has no link. -/
def WotNode.new : WotNode :=
  { enabled := true, linksSource := ∅, issuedCount := 0 }

/-- `count - 1` on `usize`, which wraps in the release profile. -/
def decrementCount (count : Nat) : Nat :=
  if count = 0 then 18446744073709551615 else count - 1

/-- Results of a certification, with the certification count of the target. -/
inductive NewLinkResult
  | ok (count : Nat)
  | allCertificationsUsed (count : Nat)
  | unknownSource
  | unknownTarget
  | selfLinkingForbidden
deriving DecidableEq, Repr

/-- Results of a certification removal, with the certification count of the target. -/
inductive RemLinkResult
  | removed (count : Nat)
  | unknownCert (count : Nat)
  | unknownSource
  | unknownTarget
deriving DecidableEq, Repr

/-- `RustyWebOfTrust`. -/
structure WebOfTrust where
  nodes : List WotNode
  maxLinks : Nat
deriving DecidableEq

namespace WebOfTrust

/-- `RustyWebOfTrust::default()`. -/
instance : Inhabited WebOfTrust :=
  ⟨{ nodes := [], maxLinks := 4000000000 }⟩

/-- Number of nodes. -/
def size (wot : WebOfTrust) : Nat := wot.nodes.length

/-- Update a node in place. -/
def modifyNode (wot : WebOfTrust) (id : NodeId) (f : WotNode → WotNode) : WebOfTrust :=
  { wot with nodes := wot.nodes.modify id f }

/-- Add a new node. -/
def addNode (wot : WebOfTrust) : WebOfTrust :=
  { wot with nodes := wot.nodes ++ [WotNode.new] }

/-- Remove the last node. -/
def remNode (wot : WebOfTrust) : WebOfTrust :=
  { wot with nodes := wot.nodes.dropLast }

/-- Whether a node is enabled, for a known node. -/
def isEnabled (wot : WebOfTrust) (id : NodeId) : Option Bool :=
  wot.nodes[id]?.map WotNode.enabled

/-- Set the enabled flag of a node; nothing happens for an unknown node. -/
def setEnabled (wot : WebOfTrust) (id : NodeId) (enabled : Bool) : WebOfTrust :=
  wot.modifyNode id fun node => { node with enabled }

/-- The enabled nodes. -/
def getEnabled (wot : WebOfTrust) : List NodeId :=
  (List.range wot.size).filter fun id => wot.isEnabled id = some true

/-- The number of links a node issued, for a known node. -/
def issuedCount (wot : WebOfTrust) (id : NodeId) : Option Nat :=
  wot.nodes[id]?.map WotNode.issuedCount

/-- Whether there is a link from one node to another. -/
def hasLink (wot : WebOfTrust) (source target : NodeId) : Bool :=
  match wot.nodes[target]? with
  | some node => node.linksSource.contains source
  | none => false

/-- The number of links to a node. -/
def linksCount (wot : WebOfTrust) (target : NodeId) : Nat :=
  match wot.nodes[target]? with
  | some node => node.linksSource.len
  | none => 0

/-- The sources of the links to a node, for a known node. -/
def getLinksSource (wot : WebOfTrust) (target : NodeId) : Option (List NodeId) :=
  wot.nodes[target]?.map fun node => node.linksSource.iter

/-- Add a link.  A link that is there already is counted again as issued. -/
def addLink (wot : WebOfTrust) (source target : NodeId) : WebOfTrust × NewLinkResult :=
  if source = target then (wot, .selfLinkingForbidden)
  else if wot.size ≤ source then (wot, .unknownSource)
  else if wot.size ≤ target then (wot, .unknownTarget)
  else if wot.issuedCount source |>.any (wot.maxLinks ≤ ·) then
    (wot, .allCertificationsUsed (wot.linksCount target))
  else
    let wot := wot.modifyNode source fun node => { node with issuedCount := node.issuedCount + 1 }
    let wot := wot.modifyNode target fun node =>
      { node with linksSource := node.linksSource.insert source }
    (wot, .ok (wot.linksCount target))

/-- Remove a link. -/
def remLink (wot : WebOfTrust) (source target : NodeId) : WebOfTrust × RemLinkResult :=
  if wot.size ≤ source then (wot, .unknownSource)
  else if wot.size ≤ target then (wot, .unknownTarget)
  else if wot.hasLink source target = false then
    (wot, .unknownCert (wot.linksCount target))
  else
    let wot := wot.modifyNode source fun node =>
      { node with issuedCount := decrementCount node.issuedCount }
    let wot := wot.modifyNode target fun node =>
      { node with linksSource := node.linksSource.remove source }
    (wot, .removed (wot.linksCount target))

/-- Whether a node is a sentry, for a known node. -/
def isSentry (wot : WebOfTrust) (id : NodeId) (sentryRequirement : Nat) : Option Bool :=
  wot.nodes[id]?.map fun node =>
    node.enabled && sentryRequirement ≤ node.issuedCount &&
      sentryRequirement ≤ node.linksSource.len

/-- The sentries. -/
def getSentries (wot : WebOfTrust) (sentryRequirement : Nat) : List NodeId :=
  (List.range wot.size).filter fun id => wot.isSentry id sentryRequirement = some true

end WebOfTrust

end Durs
