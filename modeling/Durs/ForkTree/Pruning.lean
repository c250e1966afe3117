/-
# What a pruning leaves

A pruning should leave the new root and its descendants, cut the new root from the old one, and
list what it removed.  It lists what it removed, but never cuts the new root from the old one.
-/

import Durs.ForkTree.Runs

namespace Durs

open RustStd

namespace ForkTree

/-- What a pruning from `t` to `t'` should leave: exactly the new root and its descendants, each
unchanged but for the parent of the new root, and the blockstamps of the nodes removed, each
once. -/
structure PruneSpec (t t' : ForkTree) : Prop where
  live : ∀ root, t'.root = some root → ∀ id, (∃ node, t'.node? id = some node) ↔
    (∃ node, t.node? id = some node) ∧ Relation.ReflTransGen t.ParentOf root id
  node : ∀ id node node', t.node? id = some node → t'.node? id = some node' →
    node' = if t'.root = some id then { node with parent := none } else node
  removed : ∃ listed, t'.getRemovedBlockstamps = t.getRemovedBlockstamps ++ listed ∧
    listed.Perm (t.blockstampsOf
      ((List.range t.nodes.length).filter fun id => (t'.node? id).isNone))

variable {t t' : ForkTree} {rootId mainChildId : TreeNodeId} {rootNode : TreeNode}
  {ids : List TreeNodeId}

/-! ## The new root -/

/-- The block that follows the root on the main branch is a child of the root. -/
theorem LinkInv.mainChild_parent (h : LinkInv t) (hroot : t.root = some rootId)
    (hnode : t.node? rootId = some rootNode)
    (hmain : t.mainBranch.get? (rootNode.data.id + 1) = some mainChildId) :
    ∃ child, t.node? mainChildId = some child ∧ child.parent = some rootId := by
  rcases h.mainBranch with ⟨hnone, -⟩ | ⟨first, last, hpath⟩
  · rw [hroot] at hnone
    cases hnone
  · have hfirst : t.mainBranch.get? first = some rootId := hpath.root.trans hroot
    obtain ⟨node, hnode', hnumber⟩ := hpath.live first rootId hfirst
    rw [hnode] at hnode'
    obtain rfl := Option.some.inj hnode'
    obtain ⟨p, hp, child, hchild, hparent⟩ :=
      hpath.linked rootNode.data.id mainChildId hmain (Nat.le_of_eq hnumber.symm)
    rw [hnumber, hfirst] at hp
    obtain rfl := Option.some.inj hp
    exact ⟨child, hchild, hparent⟩

/-- A pruning whose new root was a child of the old one leaves it a parent, if it leaves it. -/
theorem Prunes.not_pruneSpec (h : Prunes t rootId rootNode mainChildId ids t')
    {child : TreeNode} (hchild : t.node? mainChildId = some child)
    (hparent : child.parent = some rootId) : ¬ PruneSpec t t' := by
  intro hspec
  obtain ⟨node, hnode⟩ := (hspec.live mainChildId h.root mainChildId).2 ⟨⟨child, hchild⟩, .refl⟩
  have hsame := (h.node?_of_some hnode).1
  rw [hchild] at hsame
  obtain rfl := Option.some.inj hsame
  have hcut := hspec.node mainChildId child child hchild hnode
  rw [if_pos h.root] at hcut
  rw [hcut] at hparent
  cases hparent

/-- On no well-formed tree does a pruning return what it should leave. -/
theorem not_exists_pruneSpec (h : LinkInv t) :
    ¬ ∃ t', t.pruning = .ok t' ∧ PruneSpec t t' := by
  rintro ⟨t', hpruned, hspec⟩
  obtain ⟨rootId, rootNode, mainChildId, ids, hprunes⟩ := pruning_prunes hpruned
  obtain ⟨child, hchild, hparent⟩ :=
    h.mainChild_parent hprunes.oldRoot hprunes.oldRootNode hprunes.mainChild
  exact hprunes.not_pruneSpec hchild hparent hspec

/-- So it is for the tree of the head that outgrows the window. -/
theorem not_exists_pruneSpec_line :
    ∃ t grown : ForkTree, ∃ p parent, (lineOps 199).foldlM TreeOp.apply default = .ok t ∧
      grown = t.withHead (mockBlockstamp 0 200) p parent ∧
      ¬ ∃ t', grown.pruning = .ok t' ∧ PruneSpec grown t' := by
  obtain ⟨t, grown, -, p, parent, -, hrun, hgrown, hinv, -⟩ := exists_outgrownLine
  exact ⟨t, grown, p, parent, hrun, hgrown, not_exists_pruneSpec hinv.toLinkInv.of_withSheet⟩

/-- The pruning of that tree returns, and its new root keeps the old one as parent. -/
theorem pruning_line :
    ∃ t grown pruned : ForkTree, ∃ p parent,
      (lineOps 199).foldlM TreeOp.apply default = .ok t ∧
      grown = t.withHead (mockBlockstamp 0 200) p parent ∧
      RepInv (grown.withSheet t.nodes.length) ∧ forkWindowSize < grown.mainBranch.len ∧
      grown.pruning = .ok pruned ∧ ¬ PruneSpec grown pruned := by
  obtain ⟨t, grown, pruned, p, parent, ids, hrun, hgrown, hinv, hlen, hpruned, hprunes, hnode1, -⟩ :=
    exists_outgrownLine
  exact ⟨t, grown, pruned, p, parent, hrun, hgrown, hinv, hlen ▸ Nat.lt_succ_self _, hpruned,
    hprunes.not_pruneSpec hnode1 rfl⟩

end ForkTree

end Durs
