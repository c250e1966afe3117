/-
# The fork tree

The tree of every block of the fork window: a vector of slots, the main branch, the set of sheets
and the blockstamps removed by the last insertion.
-/

import Durs.Documents.Blockstamp
import Durs.RustStd.HashSet
import Durs.Run

namespace Durs

open RustStd

/-- `FORK_WINDOW_SIZE`: the maximum length of a rollback. -/
def forkWindowSize : Nat := 200

/-- An index into the slots of the tree. -/
abbrev TreeNodeId := Nat

/-- A node of the tree. -/
structure TreeNode where
  parent : Option TreeNodeId
  children : List TreeNodeId
  data : Blockstamp
deriving DecidableEq, Repr

namespace TreeNode

/-- A node without children. -/
def new (parent : Option TreeNodeId) (data : Blockstamp) : TreeNode :=
  { parent, children := [], data }

/-- Append a child. -/
def addChild (node : TreeNode) (id : TreeNodeId) : TreeNode :=
  { node with children := node.children ++ [id] }

end TreeNode

/-- The tree storing all fork branches. -/
structure ForkTree where
  root : Option TreeNodeId
  nodes : List (Option TreeNode)
  mainBranch : HashMap BlockNumber TreeNodeId
  sheets : HashSet TreeNodeId
  removedBlockstamps : List Blockstamp
deriving DecidableEq

namespace ForkTree

/-- `ForkTree::default()`. -/
instance : Inhabited ForkTree :=
  ⟨{ root := none, nodes := [], mainBranch := ∅, sheets := ∅, removedBlockstamps := [] }⟩

/-! ## Reading the tree -/

/-- The live node of a slot. -/
def node? (t : ForkTree) (id : TreeNodeId) : Option TreeNode := (t.nodes[id]?).join

/-- Number of live nodes. -/
def size (t : ForkTree) : Nat := t.nodes.countP Option.isSome

/-- Get a specific tree node. -/
def getNode (t : ForkTree) (id : TreeNodeId) : Run TreeNode := do
  let slot ← expect t.nodes[id]? "Dev error: fork tree : get unexist node !"
  expect slot "Dev error: fork tree : get removed node !"

/-- Get a reference to a specific tree node. -/
def getRefNode (t : ForkTree) (id : TreeNodeId) : Run TreeNode :=
  expect (t.node? id) "Dev error: fork tree : get unexist or removed node !"

/-- Blockstamps of the sheets. -/
def getSheets (t : ForkTree) : Run (List (TreeNodeId × Blockstamp)) :=
  t.sheets.iter.mapM fun id => do
    let node ← t.getRefNode id
    return (id, node.data)

/-- The blockstamps removed by the last insertion. -/
def getRemovedBlockstamps (t : ForkTree) : List Blockstamp := t.removedBlockstamps

/-- Search a free slot: the loop asks `nodes.get(i).is_none()` below the length, and keeps the
last hit. -/
def getFreeNodeId (t : ForkTree) : Option TreeNodeId :=
  (List.range t.nodes.length).foldl
    (fun free i => if (t.nodes[i]?).isNone then some i else free) none

/-- Get the node of the main branch at a block number. -/
def getMainBranchNodeId (t : ForkTree) (blockId : BlockNumber) : Option TreeNodeId :=
  t.mainBranch.get? blockId

/-- Get the hash of the block of the main branch at a block number. -/
def getMainBranchBlockHash (t : ForkTree) (blockId : BlockNumber) : Run (Option BlockHash) :=
  match t.mainBranch.get? blockId with
  | some id => do
      let node ← t.getRefNode id
      return some node.data.hash
  | none => return none

/-- The guard of the two branch loops: the node is not the block of the main branch at its
number. -/
def isOffMainBranch (t : ForkTree) (node : TreeNode) : Run Bool :=
  if t.mainBranch.containsKey node.data.id then do
    let hash ← expect (← t.getMainBranchBlockHash node.data.id) "safe unwrap"
    return hash ≠ node.data.hash
  else
    return true

/-- The loop of the two branch functions: climb from a parent as long as the node is off the main
branch, nearest node first. -/
def climbOffMainBranch (t : ForkTree) : Nat → TreeNodeId → Run (List (TreeNodeId × TreeNode))
  | 0, _ => .error .outOfFuel
  | fuel + 1, parentId => do
      let parent ← t.getRefNode parentId
      if ← t.isOffMainBranch parent then
        match parent.parent with
        | some nextParentId =>
            return (parentId, parent) :: (← t.climbOffMainBranch fuel nextParentId)
        | none => return [(parentId, parent)]
      else
        return []

/-- The nodes climbed above a node, none for a node without parent. -/
def climbAbove (t : ForkTree) (node : TreeNode) : Run (List (TreeNodeId × TreeNode)) :=
  match node.parent with
  | some parentId => t.climbOffMainBranch (t.nodes.length + 1) parentId
  | none => return []

/-- Get the node ids of a fork branch. -/
def getForkBranchNodesIds (t : ForkTree) (id : TreeNodeId) : Run (List TreeNodeId) := do
  let node ← t.getRefNode id
  let head := if ← t.isOffMainBranch node then [id] else []
  let above ← t.climbAbove node
  return (head ++ above.map Prod.fst).reverse

/-- Get a fork branch. -/
def getForkBranch (t : ForkTree) (id : TreeNodeId) : Run (List Blockstamp) := do
  let node ← t.getRefNode id
  let above ← t.climbAbove node
  return (node.data :: above.map fun entry => entry.2.data).reverse

/-- Find the node with a specific blockstamp. -/
def findNodeWithBlockstamp (t : ForkTree) (blockstamp : Blockstamp) : Option TreeNodeId :=
  t.nodes.findIdx? fun slot => slot.any fun node => node.data = blockstamp

/-! ## Removing nodes -/

/-- Record the blockstamp of a slot as removed, empty the slot and drop it from the sheets. -/
def removeSlot (t : ForkTree) (id : TreeNodeId) : Run ForkTree := do
  let slot ← expect t.nodes[id]? "index out of bounds"
  let node ← expect slot "safe unwrap"
  return { t with
    removedBlockstamps := t.removedBlockstamps ++ [node.data]
    nodes := t.nodes.set id none
    sheets := t.sheets.remove id }

/-- The first loop of `removeNodeChildren`: go down while the node has at most one child, and
return the last node with the children gone through. -/
def descendOnlyChildren (t : ForkTree) :
    Nat → TreeNode → List TreeNodeId → Run (TreeNode × List TreeNodeId)
  | 0, _, _ => .error .outOfFuel
  | fuel + 1, node, idsToRm =>
      match node.children with
      | [] => return (node, idsToRm)
      | [childId] => do
          let child ← t.getRefNode childId
          t.descendOnlyChildren fuel child (idsToRm ++ [childId])
      | _ :: _ :: _ => return (node, idsToRm)

/-- Remove the nodes below a node. -/
def removeNodeChildren : Nat → ForkTree → TreeNodeId → Run ForkTree
  | 0, _, _ => .error .outOfFuel
  | fuel + 1, t, id => do
      let node ← t.getRefNode id
      let (last, idsToRm) ← t.descendOnlyChildren (t.nodes.length + 1) node []
      let t ← last.children.foldlM (removeNodeChildren fuel) t
      idsToRm.foldlM removeSlot t

/-- Remove a child of the root and the nodes below it. -/
def removeChildOfRoot (t : ForkTree) (childId : TreeNodeId) : Run ForkTree := do
  let t ← removeNodeChildren (t.nodes.length + 1) t childId
  t.removeSlot childId

/-- Shift the tree one step: remove the root and all its children except the main one. -/
def pruning (t : ForkTree) : Run ForkTree := do
  let rootId ← expect t.root "safe unwrap"
  let root ← t.getNode rootId
  let t := { t with
    mainBranch := t.mainBranch.remove root.data.id
    removedBlockstamps := t.removedBlockstamps ++ [root.data] }
  let mainChildId ← expect (t.mainBranch.get? (root.data.id + 1)) "safe unwrap"
  let childrenToRemove := root.children.filter (· ≠ mainChildId)
  let t ← childrenToRemove.foldlM removeChildOfRoot t
  return { t with nodes := t.nodes.set rootId none, root := some mainChildId }

/-! ## Inserting nodes -/

/-- Place a new node in a slot: the free one when there is one, else a new last slot. -/
def placeNode (t : ForkTree) (node : TreeNode) : ForkTree × TreeNodeId :=
  match t.getFreeNodeId with
  | none => ({ t with nodes := t.nodes ++ [some node] }, t.nodes.length)
  | some id => ({ t with nodes := t.nodes.set id (some node) }, id)

/-- A node that gets a child stops being a sheet. -/
def dropSheet (t : ForkTree) (id : TreeNodeId) : ForkTree :=
  if t.sheets.isEmpty then t else { t with sheets := t.sheets.remove id }

/-- Link a placed node to its parent, or make it the root of an empty tree. -/
def linkNode (t : ForkTree) (newNodeId : TreeNodeId) : Option TreeNodeId → Run ForkTree
  | some parentId => do
      let t := t.dropSheet parentId
      let parent ← t.getRefNode parentId
      return { t with nodes := t.nodes.set parentId (some (parent.addChild newNodeId)) }
  | none =>
      if t.root.isNone then return { t with root := some newNodeId }
      else fatalError "Dev error: Insert root node in not empty tree !"

/-- Insert a node in the main branch, pruning the tree when the branch outgrows the window. -/
def extendMainBranch (t : ForkTree) (blockId : BlockNumber) (id : TreeNodeId) : Run ForkTree :=
  let t := { t with mainBranch := t.mainBranch.insert blockId id }
  if t.mainBranch.len > forkWindowSize then t.pruning else return t

/-- Insert a new node. -/
def insertNewNode (t : ForkTree) (data : Blockstamp) (parent : Option TreeNodeId)
    (mainBranch : Bool) : Run ForkTree := do
  let (t, newNodeId) := t.placeNode (TreeNode.new parent data)
  let t ← t.linkNode newNodeId parent
  let t := { t with removedBlockstamps := [] }
  let t ← if mainBranch then t.extendMainBranch data.id newNodeId else pure t
  return { t with sheets := t.sheets.insert newNodeId }

/-! ## Changing the main branch -/

/-- Drop the entries of the main branch from one block number to another, both included. -/
def removeMainBranchRange (t : ForkTree) (first last : BlockNumber) : ForkTree :=
  { t with mainBranch := t.mainBranch.removeAll (List.range' first (last + 1 - first)) }

/-- Put a node of the selected branch on the main branch, pruning the tree for each block above
the old current block. -/
def selectNode (oldCurrent : Blockstamp) (t : ForkTree) (id : TreeNodeId) : Run ForkTree := do
  let slot ← expect t.nodes[id]? "index out of bounds"
  let node ← expect slot "Dev error: node must exist !"
  let t := { t with mainBranch := t.mainBranch.insert node.data.id id }
  if node.data.id > oldCurrent.id then t.pruning else return t

/-- Delete the part of the old branch at the same level as the new branch. -/
def cutMainBranch (t : ForkTree) (newCurrent : Blockstamp) : List TreeNodeId → Run ForkTree
  | [] => return t
  | firstId :: _ => do
      let slot ← expect t.nodes[firstId]? "index out of bounds"
      let first ← expect slot "Dev error: node must exist !"
      return t.removeMainBranchRange first.data.id newCurrent.id

/-- Modify the main branch, to be called after a successful rollback. -/
def changeMainBranch (t : ForkTree) (oldCurrent newCurrent : Blockstamp) : Run ForkTree := do
  let targetNode ← expect (t.findNodeWithBlockstamp newCurrent)
    "Dev error: change main branch: target branch don't exist !"
  let selectedForkBranch ← t.getForkBranchNodesIds targetNode
  let t ← t.cutMainBranch newCurrent selectedForkBranch
  -- Delete the part of the old branch that exceeds the new branch.
  let t := if oldCurrent.id > newCurrent.id
    then t.removeMainBranchRange (newCurrent.id + 1) oldCurrent.id else t
  selectedForkBranch.foldlM (selectNode oldCurrent) t

end ForkTree

end Durs
