/-
# The shape of the fork tree

What holds of the fork tree after any run of insertions and changes of the main branch, prunings
and copies included: nodes come after their parents and are numbered one above them, and a root
without parent is the lowest block of the tree and of its main branch.
-/

import Durs.ForkTree.Shedding

namespace Durs

open RustStd

namespace ForkTree

/-- The shape of the tree. -/
structure TreeShape (t : ForkTree) : Prop where
  numbered : ∀ id node p parent, t.node? id = some node → node.parent = some p →
    t.node? p = some parent → node.data.id = parent.data.id + 1
  parentless : ∀ id node, t.node? id = some node → node.parent = none → t.root = some id
  rootless : t.root = none → t.nodes = [] ∧ ∀ k, t.mainBranch.get? k = none
  mainLt : ∀ k id, t.mainBranch.get? k = some id → id < t.nodes.length
  parentLt : ∀ id node p, t.node? id = some node → node.parent = some p → p < id
  mainNumber : ∀ k id node, t.mainBranch.get? k = some id → t.node? id = some node →
    node.data.id = k
  rootMain : ∀ r root, t.root = some r → t.node? r = some root → root.parent = none →
    t.mainBranch.get? root.data.id = some r
  mainAbove : ∀ r root k id, t.root = some r → t.node? r = some root → root.parent = none →
    t.mainBranch.get? k = some id → root.data.id ≤ k
  nodeAbove : ∀ r root id node, t.root = some r → t.node? r = some root → root.parent = none →
    t.node? id = some node → root.data.id ≤ node.data.id

variable {t t' : ForkTree} {id p : TreeNodeId} {node parent : TreeNode} {blockstamp : Blockstamp}

namespace TreeShape

/-- The empty tree. -/
theorem default : TreeShape (default : ForkTree) := by
  have hnone : ∀ id, (Inhabited.default : ForkTree).node? id = none := fun _ => rfl
  have hmain : ∀ k, (Inhabited.default : ForkTree).mainBranch.get? k = none := fun _ => rfl
  have hnil : (Inhabited.default : ForkTree).nodes = [] := rfl
  constructor <;> simp [hnone, hmain, hnil]

/-- A tree without root is empty. -/
theorem node?_eq_none (h : TreeShape t) (hroot : t.root = none) (id : TreeNodeId) :
    t.node? id = none := by
  rw [ForkTree.node?, (h.rootless hroot).1]
  rfl

/-- Placing a block below a live node of the number before keeps the shape. -/
theorem withChild (h : TreeShape t) (hp : t.node? p = some parent)
    (hnumber : blockstamp.id = parent.data.id + 1) :
    TreeShape (t.withChild blockstamp p parent) := by
  have hplt : p < t.nodes.length := lt_length_of_node? hp
  have hlt : ∀ id node, t.node? id = some node → id < t.nodes.length :=
    fun _ _ hnode => lt_length_of_node? hnode
  have hnodes := withChild_node? t blockstamp parent hplt
  constructor
  case numbered =>
    intro id node q parent' hnode hq hparent'
    have := h.numbered
    have := h.parentLt
    simp only [hnodes] at hnode hparent'
    grind [TreeNode.addChild, TreeNode.new]
  case parentless =>
    intro id node hnode hnone
    have := h.parentless
    simp only [hnodes, withChild_root] at hnode ⊢
    grind [TreeNode.addChild, TreeNode.new]
  case rootless =>
    intro hnone
    rw [h.node?_eq_none hnone] at hp
    cases hp
  case mainLt =>
    intro k id hid
    rw [withChild_length]
    exact Nat.lt_succ_of_lt (h.mainLt k id hid)
  case parentLt =>
    intro id node q hnode hq
    have := h.parentLt
    simp only [hnodes] at hnode
    grind [TreeNode.addChild, TreeNode.new]
  case mainNumber =>
    intro k id node hid hnode
    have := h.mainNumber k id
    have := h.mainLt k id hid
    simp only [hnodes, withChild_mainBranch] at hnode hid
    grind [TreeNode.addChild, TreeNode.new]
  case rootMain =>
    intro r root hr hroot hnone
    have := h.rootMain r
    have := h.parentless
    simp only [hnodes, withChild_root, withChild_mainBranch] at hr hroot ⊢
    grind [TreeNode.addChild, TreeNode.new]
  case mainAbove =>
    intro r root k id hr hroot hnone hid
    have := h.mainAbove r
    simp only [hnodes, withChild_root, withChild_mainBranch] at hr hroot hid
    grind [TreeNode.addChild, TreeNode.new]
  case nodeAbove =>
    intro r root id node hr hroot hnone hnode
    have := h.nodeAbove r
    simp only [hnodes, withChild_root] at hr hroot hnode
    grind [TreeNode.addChild, TreeNode.new]

/-- The first block. -/
theorem withRoot (h : TreeShape t) (hroot : t.root = none) :
    TreeShape ((t.withRoot blockstamp).withMain blockstamp.id t.nodes.length) := by
  have hnode : ∀ id, ((t.withRoot blockstamp).withMain blockstamp.id t.nodes.length).node? id =
      if id = t.nodes.length then some (TreeNode.new none blockstamp) else none := by
    intro id
    rw [withMain_node?, withRoot_node?, h.node?_eq_none hroot]
  have hmain : ∀ k, ((t.withRoot blockstamp).withMain blockstamp.id
      t.nodes.length).mainBranch.get? k =
        if k = blockstamp.id then some t.nodes.length else none := by
    intro k
    rw [withMain_mainBranch, withRoot_mainBranch, HashMap.get?_insert, (h.rootless hroot).2]
  have hroot' : ((t.withRoot blockstamp).withMain blockstamp.id t.nodes.length).root =
      some t.nodes.length := rfl
  have hlength : ((t.withRoot blockstamp).withMain blockstamp.id
      t.nodes.length).nodes.length = t.nodes.length + 1 := by simp
  constructor <;> simp only [hnode, hmain, hroot', hlength] <;> grind [TreeNode.new]

/-- Adding a live node to the main branch at its number, above the root, keeps the shape. -/
theorem withMain (h : TreeShape t) (hnode : t.node? id = some node)
    (habove : ∀ r root, t.root = some r → t.node? r = some root → root.parent = none →
      root.data.id < node.data.id) :
    TreeShape (t.withMain node.data.id id) := by
  constructor
  case numbered => exact h.numbered
  case parentless => exact h.parentless
  case rootless =>
    intro hnone
    rw [h.node?_eq_none hnone] at hnode
    cases hnode
  case mainLt =>
    intro k i hi
    have := h.mainLt k i
    have := lt_length_of_node? hnode
    rw [withMain_mainBranch, HashMap.get?_insert] at hi
    rw [withMain_nodes]
    grind
  case parentLt => exact h.parentLt
  case mainNumber =>
    intro k i n hi hn
    have := h.mainNumber k i n
    rw [withMain_mainBranch, HashMap.get?_insert] at hi
    rw [withMain_node?] at hn
    grind
  case rootMain =>
    intro r root hr hroot hnone
    have := h.rootMain r root hr hroot hnone
    have := habove r root hr hroot hnone
    rw [withMain_mainBranch, HashMap.get?_insert, if_neg (Nat.ne_of_lt this)]
    assumption
  case mainAbove =>
    intro r root k i hr hroot hnone hi
    have := h.mainAbove r root k i hr hroot hnone
    have := habove r root hr hroot hnone
    rw [withMain_mainBranch, HashMap.get?_insert] at hi
    grind
  case nodeAbove => exact h.nodeAbove

/-- A pruning keeps the shape: the only node that could have no parent is gone. -/
theorem prunes (h : TreeShape t) {rootId mainChildId : TreeNodeId} {rootNode : TreeNode}
    {ids : List TreeNodeId} (hprunes : Prunes t rootId rootNode mainChildId ids t') :
    TreeShape t' := by
  have hkept : ∀ id node, t'.node? id = some node → t.node? id = some node ∧ id ≠ rootId :=
    fun id node hnode => ⟨(hprunes.node?_of_some hnode).1, (hprunes.node?_of_some hnode).2.1⟩
  have hmain : ∀ k id, t'.mainBranch.get? k = some id → t.mainBranch.get? k = some id := by
    intro k id hid
    rw [hprunes.mainBranch, HashMap.get?_remove] at hid
    grind
  have hparent : ∀ id node, t'.node? id = some node → node.parent ≠ none := by
    intro id node hnode hnone
    obtain ⟨hnode', hne⟩ := hkept id node hnode
    have hroot := h.parentless id node hnode' hnone
    rw [hprunes.oldRoot] at hroot
    exact hne (Option.some.inj hroot).symm
  constructor
  case numbered =>
    intro id node p parent hnode hp hparent'
    exact h.numbered id node p parent (hkept id node hnode).1 hp (hkept p parent hparent').1
  case parentless => exact fun id node hnode hnone => absurd hnone (hparent id node hnode)
  case rootless =>
    intro hnone
    rw [hprunes.root] at hnone
    cases hnone
  case mainLt =>
    intro k id hid
    rw [hprunes.length]
    exact h.mainLt k id (hmain k id hid)
  case parentLt =>
    intro id node p hnode hp
    exact h.parentLt id node p (hkept id node hnode).1 hp
  case mainNumber =>
    intro k id node hid hnode
    exact h.mainNumber k id node (hmain k id hid) (hkept id node hnode).1
  case rootMain => exact fun r root _ hroot hnone => absurd hnone (hparent r root hroot)
  case mainAbove => exact fun r root _ _ _ hroot hnone => absurd hnone (hparent r root hroot)
  case nodeAbove => exact fun r root _ _ _ hroot hnone => absurd hnone (hparent r root hroot)

/-- Dropping entries of the main branch, not that of a root without parent, keeps the shape. -/
theorem restrictMain (h : TreeShape t) {main : HashMap BlockNumber TreeNodeId}
    (hsub : ∀ k id, main.get? k = some id → t.mainBranch.get? k = some id)
    (hroot : ∀ r root, t.root = some r → t.node? r = some root → root.parent = none →
      main.get? root.data.id = t.mainBranch.get? root.data.id) :
    TreeShape { t with mainBranch := main } where
  numbered := h.numbered
  parentless := h.parentless
  rootless := by
    intro hnone
    refine ⟨(h.rootless hnone).1, fun k => ?_⟩
    cases hk : main.get? k with
    | none => rfl
    | some id =>
        have hid := hsub k id hk
        rw [(h.rootless hnone).2] at hid
        cases hid
  mainLt := fun k id hid => h.mainLt k id (hsub k id hid)
  parentLt := h.parentLt
  mainNumber := fun k id node hid hnode => h.mainNumber k id node (hsub k id hid) hnode
  rootMain := by
    intro r root hr hnode hnone
    exact (hroot r root hr hnode hnone).trans (h.rootMain r root hr hnode hnone)
  mainAbove := fun r root k id hr hnode hnone hid =>
    h.mainAbove r root k id hr hnode hnone (hsub k id hid)
  nodeAbove := h.nodeAbove

/-- A new sheet does not matter. -/
theorem withSheet (h : TreeShape t) : TreeShape (t.withSheet id) :=
  ⟨h.numbered, h.parentless, h.rootless, h.mainLt, h.parentLt, h.mainNumber, h.rootMain,
    h.mainAbove, h.nodeAbove⟩

/-! ## The operations -/

/-- A head keeps the shape. -/
theorem head (h : TreeShape t) {removed : List Blockstamp}
    (hrun : t.insertNewHeadBlock blockstamp = .ok (t', removed)) : TreeShape t' := by
  obtain ⟨base, ended, hplaces, hextends, rfl, -⟩ := insertNewHeadBlock_ok h.mainLt hrun
  have hplaced : TreeShape (base.withMain blockstamp.id t.nodes.length) := by
    cases hplaces with
    | root hroot _ => exact h.withRoot hroot
    | @child p parent hid _ hp hnode =>
        have hplt : p < t.nodes.length := lt_length_of_node? hnode
        have hnumber : blockstamp.id = parent.data.id + 1 := by
          have := h.mainNumber _ p parent hp hnode
          grind
        have hnew : (t.withChild blockstamp p parent).node? t.nodes.length =
            some (TreeNode.new (some p) blockstamp) := by
          rw [withChild_node? _ _ _ hplt, if_neg (Nat.ne_of_gt hplt), if_pos rfl]
        refine (h.withChild hnode hnumber).withMain hnew ?_
        intro r root hr hroot hnone
        have hbelow := (h.withChild hnode hnumber).mainAbove r root _ p hr hroot hnone hp
        change root.data.id < blockstamp.id
        grind
  cases hextends with
  | within _ => exact hplaced.withSheet
  | pruned _ hprunes => exact (hplaced.prunes hprunes).withSheet

/-- A fork block keeps the shape. -/
theorem fork (h : TreeShape t) {previousHash : Hash} {inserted : Bool}
    (hid : blockstamp.id = 0 → t.findNodeWithBlockstamp
      ⟨previousBlockNumber blockstamp.id, previousHash⟩ = none)
    (hrun : t.insertNewForkBlock blockstamp previousHash = .ok (t', inserted)) :
    TreeShape t' := by
  rcases insertNewForkBlock_ok hrun with ⟨-, rfl, -⟩ | ⟨-, p, parent, hnode, hfind, hdata, rfl⟩
  · exact h
  · refine (h.withChild hnode ?_).withSheet
    have hne : blockstamp.id ≠ 0 := by
      intro hzero
      rw [hid hzero] at hfind
      cases hfind
    rw [hdata, previousBlockNumber, if_neg hne]
    grind

/-! ## Changes of the main branch -/

/-- A node without parent is on the main branch. -/
theorem onMain_of_parentless (h : TreeShape t) (hnode : t.node? id = some node)
    (hnone : node.parent = none) : t.OnMain node :=
  ⟨id, node, h.rootMain id node (h.parentless id node hnode hnone) hnode hnone, hnode, rfl⟩

/-- A node with a live parent is above a root without parent. -/
theorem above_of_parent (h : TreeShape t) {r : TreeNodeId} {root : TreeNode}
    (hr : t.root = some r) (hroot : t.node? r = some root) (hnone : root.parent = none)
    (hnode : t.node? id = some node) (hp : node.parent = some p) (hparent : t.node? p = some parent) :
    root.data.id < node.data.id := by
  have hnumber := h.numbered id node p parent hnode hp hparent
  have hle := h.nodeAbove r root p parent hr hroot hnone hparent
  grind

/-- The nodes climbed are above a root without parent. -/
theorem path_above (h : TreeShape t) {path : List (TreeNodeId × TreeNode)} {r : TreeNodeId}
    {root : TreeNode} (hr : t.root = some r) (hroot : t.node? r = some root)
    (hnone : root.parent = none) (hpath : t.OffMainPath p path) :
    ∀ e ∈ path, root.data.id < e.2.data.id := by
  induction hpath with
  | onMain _ _ =>
      intro e he
      cases he
  | top hnode hoff hparent =>
      exact absurd (h.onMain_of_parentless hnode hparent) (not_onMain_of_offMain hoff)
  | step hnode hoff hparent hrest ih =>
      intro e he
      rcases List.mem_cons.1 he with rfl | he
      · obtain ⟨above, habove⟩ := hrest.live
        exact h.above_of_parent hr hroot hnone hnode hparent habove
      · exact ih e he

/-- The blocks of a branch are live, and above a root without parent. -/
theorem getForkBranchNodesIds_above (h : TreeShape t) {branch : List TreeNodeId}
    (hbranch : t.getForkBranchNodesIds id = .ok branch) :
    ∀ i ∈ branch, ∃ n, t.node? i = some n ∧ ∀ r root, t.root = some r → t.node? r = some root →
      root.parent = none → root.data.id < n.data.id := by
  simp only [getForkBranchNodesIds, bind_eq_ok_iff, getRefNode_eq_ok_iff, pure_eq_ok_iff]
    at hbranch
  obtain ⟨node, hnode, off, hoff, above, habove, rfl⟩ := hbranch
  intro i hi
  cases hparent : node.parent with
  | none =>
      -- The node is the root, which is on the main branch.
      simp only [climbAbove, hparent, pure_eq_ok_iff] at habove
      subst habove
      cases off with
      | false => simp at hi
      | true =>
          exact absurd (h.onMain_of_parentless hnode hparent)
            (not_onMain_of_offMain (isOffMainBranch_eq_true_iff.1 hoff))
  | some p =>
      simp only [climbAbove, hparent] at habove
      have hpath := offMainPath_of_climb habove
      rcases List.mem_append.1 (List.mem_reverse.1 hi) with hi | hi
      · have hid : i = id := by
          split at hi
          · exact List.mem_singleton.1 hi
          · cases hi
        subst hid
        obtain ⟨parent, hp⟩ := hpath.live
        exact ⟨node, hnode, fun r root hr hroot hnone =>
          h.above_of_parent hr hroot hnone hnode hparent hp⟩
      · obtain ⟨e, he, rfl⟩ := List.mem_map.1 hi
        exact ⟨e.2, (hpath.mem he).1, fun r root hr hroot hnone =>
          h.path_above hr hroot hnone hpath e he⟩

/-- A change of the main branch keeps the shape. -/
theorem change (h : TreeShape t) {oldCurrent newCurrent : Blockstamp}
    (hrun : t.changeMainBranch oldCurrent newCurrent = .ok t') : TreeShape t' := by
  simp only [changeMainBranch, bind_eq_ok_iff, expect_eq_ok_iff] at hrun
  obtain ⟨target, htarget, branch, hbranch, cut, hcut, hselect⟩ := hrun
  obtain ⟨node, hnode, hdata⟩ := node?_of_findNodeWithBlockstamp htarget
  have habove := h.getForkBranchNodesIds_above hbranch
  have hcutShape : cut.nodes = t.nodes ∧ cut.root = t.root ∧ TreeShape cut := by
    cases branch with
    | nil =>
        rw [cutMainBranch, pure_eq_ok_iff] at hcut
        subst hcut
        exact ⟨rfl, rfl, h⟩
    | cons firstId branch =>
        obtain ⟨first, hfirst, hfirstAbove⟩ := habove firstId List.mem_cons_self
        simp only [cutMainBranch, node?_eq_some_iff.1 hfirst, expect_some, ok_bind,
          pure_eq_ok_iff] at hcut
        subst hcut
        refine ⟨rfl, rfl, h.restrictMain ?_ ?_⟩
        · intro k id hid
          rw [HashMap.get?_removeAll] at hid
          grind
        · intro r root hr hroot hnone
          have hlt := hfirstAbove r root hr hroot hnone
          rw [HashMap.get?_removeAll, if_neg]
          rw [List.mem_range'_1]
          grind
  obtain ⟨hcutNodes, hcutRoot, hcutShape⟩ := hcutShape
  generalize hcut' : (if oldCurrent.id > newCurrent.id then
    cut.removeMainBranchRange (newCurrent.id + 1) oldCurrent.id else cut) = cut' at hselect
  have hcutShape' : cut'.nodes = t.nodes ∧ TreeShape cut' := by
    split at hcut'
    all_goals subst hcut'
    · refine ⟨hcutNodes, hcutShape.restrictMain ?_ ?_⟩
      · intro k id hid
        rw [HashMap.get?_removeAll] at hid
        grind
      · intro r root hr hroot hnone
        have hlive : cut.node? target = some node := by
          rw [ForkTree.node?, hcutNodes]
          exact hnode
        have hle := hcutShape.nodeAbove r root target node hr hroot hnone hlive
        rw [hdata] at hle
        rw [HashMap.get?_removeAll, if_neg]
        rw [List.mem_range'_1]
        grind
    · exact ⟨hcutNodes, hcutShape⟩
  obtain ⟨hcutNodes', hcutShape'⟩ := hcutShape'
  have hstart : ∀ i n, cut'.node? i = some n → t.node? i = some n := by
    intro i n hi
    rw [ForkTree.node?, hcutNodes'] at hi
    exact hi
  refine (foldlM_preserves (P := fun mid => TreeShape mid ∧
    ∀ i n, mid.node? i = some n → t.node? i = some n) ?_ ⟨hcutShape', hstart⟩ hselect).1
  rintro mid i mid' hi ⟨hmid, hkept⟩ hstep
  obtain ⟨n, hn, hcases⟩ := selectNode_ok hstep
  have hselected : TreeShape (mid.withMain n.data.id i) := by
    refine hmid.withMain hn fun r root hr hroot hnone => ?_
    obtain ⟨n', hn', hlt⟩ := habove i hi
    rw [hkept i n hn] at hn'
    obtain rfl := Option.some.inj hn'
    exact hlt r root (h.parentless r root (hkept r root hroot) hnone) (hkept r root hroot) hnone
  rcases hcases with ⟨-, rfl⟩ | ⟨-, rootId, rootNode, mainChildId, ids, hprunes⟩
  · exact ⟨hselected, hkept⟩
  · exact ⟨hselected.prunes hprunes,
      fun j m hj => hkept j m (hprunes.node?_of_some hj).1⟩

end TreeShape

end ForkTree

end Durs
