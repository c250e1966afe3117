/-
# Steps of the fork tree

The three operations the writers perform on the fork tree, and, for each, all it can do when it
returns.  Every invariant of the tree is derived from these descriptions.
-/

import Durs.ForkTree.Branch
import Durs.ForkTree.Removal

namespace Durs

open RustStd

/-- An operation on the fork tree. -/
inductive TreeOp
  /-- `insert_new_head_block`. -/
  | head (blockstamp : Blockstamp)
  /-- `insert_new_fork_block`. -/
  | fork (blockstamp : Blockstamp) (previousHash : Hash)
  /-- `change_main_branch`. -/
  | change (oldCurrent newCurrent : Blockstamp)
deriving DecidableEq, Repr

/-- Perform an operation. -/
def TreeOp.apply (t : ForkTree) : TreeOp → Run ForkTree
  | .head blockstamp => do
      let (t, _) ← t.insertNewHeadBlock blockstamp
      return t
  | .fork blockstamp previousHash => do
      let (t, _) ← t.insertNewForkBlock blockstamp previousHash
      return t
  | .change oldCurrent newCurrent => t.changeMainBranch oldCurrent newCurrent

namespace ForkTree

variable {t t' base : ForkTree} {blockstamp : Blockstamp}

/-! ## Inserting a head -/

/-- Put a block on the main branch, whatever the length of the branch. -/
def withMain (t : ForkTree) (blockId : BlockNumber) (id : TreeNodeId) : ForkTree :=
  { t with mainBranch := t.mainBranch.insert blockId id }

@[simp] theorem withMain_node? (t : ForkTree) (blockId : BlockNumber) (id i : TreeNodeId) :
    (t.withMain blockId id).node? i = t.node? i := rfl

@[simp] theorem withMain_root (t : ForkTree) (blockId : BlockNumber) (id : TreeNodeId) :
    (t.withMain blockId id).root = t.root := rfl

@[simp] theorem withMain_nodes (t : ForkTree) (blockId : BlockNumber) (id : TreeNodeId) :
    (t.withMain blockId id).nodes = t.nodes := rfl

@[simp] theorem withMain_sheets (t : ForkTree) (blockId : BlockNumber) (id : TreeNodeId) :
    (t.withMain blockId id).sheets = t.sheets := rfl

@[simp] theorem withMain_removedBlockstamps (t : ForkTree) (blockId : BlockNumber)
    (id : TreeNodeId) : (t.withMain blockId id).removedBlockstamps = t.removedBlockstamps := rfl

@[simp] theorem withMain_mainBranch (t : ForkTree) (blockId : BlockNumber) (id : TreeNodeId) :
    (t.withMain blockId id).mainBranch = t.mainBranch.insert blockId id := rfl

/-- Where a head block is placed: below the main block of the number before, or as the root of an
empty tree. -/
inductive PlacesHead (t : ForkTree) (blockstamp : Blockstamp) : ForkTree → Prop
  | root : t.root = none → (blockstamp.id = 0 ∨ t.size = 0) →
      PlacesHead t blockstamp (t.withRoot blockstamp)
  | child {p : TreeNodeId} {parent : TreeNode} : blockstamp.id > 0 → t.size > 0 →
      t.mainBranch.get? (blockstamp.id - 1) = some p → t.node? p = some parent →
      PlacesHead t blockstamp (t.withChild blockstamp p parent)

/-- The main branch takes the placed block, and the tree is pruned when the branch outgrows the
window. -/
inductive ExtendsMain (t : ForkTree) (blockId : BlockNumber) (id : TreeNodeId) : ForkTree → Prop
  | within : (t.mainBranch.insert blockId id).len ≤ forkWindowSize →
      ExtendsMain t blockId id (t.withMain blockId id)
  | pruned {rootId mainChildId : TreeNodeId} {rootNode : TreeNode} {ids : List TreeNodeId}
      {t' : ForkTree} : forkWindowSize < (t.mainBranch.insert blockId id).len →
      Prunes (t.withMain blockId id) rootId rootNode mainChildId ids t' →
      ExtendsMain t blockId id t'

theorem extendMainBranch_ok {blockId : BlockNumber} {id : TreeNodeId}
    (h : t.extendMainBranch blockId id = .ok t') : ExtendsMain t blockId id t' := by
  by_cases hlen : (t.mainBranch.insert blockId id).len > forkWindowSize
  · simp only [extendMainBranch, hlen, if_true] at h
    obtain ⟨rootId, rootNode, mainChildId, ids, hprunes⟩ := pruning_prunes h
    exact .pruned hlen hprunes
  · simp only [extendMainBranch, hlen, if_false, pure_eq_ok_iff] at h
    subst h
    exact .within (by omega)

/-- A head insertion that returns places the block, extends the main branch and adds a sheet. -/
theorem insertNewHeadBlock_ok {removed : List Blockstamp}
    (hmain : ∀ k id, t.mainBranch.get? k = some id → id < t.nodes.length)
    (h : t.insertNewHeadBlock blockstamp = .ok (t', removed)) :
    ∃ base ended, PlacesHead t blockstamp base ∧
      ExtendsMain base blockstamp.id t.nodes.length ended ∧
      t' = ended.withSheet t.nodes.length ∧ removed = t'.removedBlockstamps := by
  rw [insertNewHeadBlock, bind_eq_ok_iff] at h
  obtain ⟨parent?, hparent, h⟩ := h
  simp only [bind_eq_ok_iff, pure_eq_ok_iff, Prod.mk.injEq] at h
  obtain ⟨mid, hmid, rfl, rfl⟩ := h
  by_cases hguard : blockstamp.id > 0 ∧ t.size > 0
  · simp only [headParentId, if_pos hguard, bind_eq_ok_iff, expect_eq_ok_iff, pure_eq_ok_iff,
      getMainBranchNodeId] at hparent
    obtain ⟨p, hp, rfl⟩ := hparent
    rcases insertNewNode_ok_cases hmid (by grind) with ⟨p', parent, hp', hnode⟩ | ⟨hp', -⟩
    · obtain rfl := Option.some.inj hp'
      rw [insertNewNode_some _ _ hnode, if_pos rfl, bind_eq_ok_iff] at hmid
      obtain ⟨ended, hended, hsheet⟩ := hmid
      rw [pure_eq_ok_iff] at hsheet
      exact ⟨_, ended, .child hguard.1 hguard.2 hp hnode, extendMainBranch_ok hended,
        hsheet.symm, rfl⟩
    · cases hp'
  · rw [headParentId, if_neg hguard, pure_eq_ok_iff] at hparent
    subst hparent
    rcases insertNewNode_ok_cases hmid (by grind) with ⟨p', parent, hp', -⟩ | ⟨-, hroot⟩
    · cases hp'
    · rw [insertNewNode_none _ _ hroot, if_pos rfl, bind_eq_ok_iff] at hmid
      obtain ⟨ended, hended, hsheet⟩ := hmid
      rw [pure_eq_ok_iff] at hsheet
      exact ⟨_, ended, .root hroot (by grind), extendMainBranch_ok hended, hsheet.symm, rfl⟩

/-! ## Inserting a fork block -/

/-- A fork insertion that returns found no parent and changed nothing, or placed the block below a
live node carrying the previous blockstamp. -/
theorem insertNewForkBlock_ok {previousHash : Hash} {inserted : Bool}
    (h : t.insertNewForkBlock blockstamp previousHash = .ok (t', inserted)) :
    (inserted = false ∧ t' = t ∧
      t.findNodeWithBlockstamp ⟨previousBlockNumber blockstamp.id, previousHash⟩ = none) ∨
    (inserted = true ∧ ∃ p parent, t.node? p = some parent ∧
      t.findNodeWithBlockstamp ⟨previousBlockNumber blockstamp.id, previousHash⟩ = some p ∧
      parent.data = ⟨previousBlockNumber blockstamp.id, previousHash⟩ ∧
      t' = (t.withChild blockstamp p parent).withSheet t.nodes.length) := by
  cases hfind : t.findNodeWithBlockstamp ⟨previousBlockNumber blockstamp.id, previousHash⟩ with
  | none =>
      simp only [insertNewForkBlock, hfind, pure_eq_ok_iff, Prod.mk.injEq] at h
      exact .inl ⟨h.2.symm, h.1.symm, rfl⟩
  | some p =>
      obtain ⟨parent, hnode, hdata⟩ := node?_of_findNodeWithBlockstamp hfind
      simp only [insertNewForkBlock, hfind, insertNewNode_some _ _ hnode, Bool.false_eq_true,
        if_false, ok_bind, pure_bind, pure_eq_ok_iff, Prod.mk.injEq] at h
      exact .inr ⟨h.2.symm, p, parent, hnode, rfl, hdata, h.1.symm⟩

end ForkTree

end Durs
