/-
# The representation invariant of the fork tree

The invariant that links parents, children, sheets, root and main branch, in its global form and in
the local form that the operations preserve.
-/

import Durs.ForkTree.Steps
import Durs.Lib.Reached
import Mathlib.Logic.Relation

namespace Durs

open RustStd Lib

namespace ForkTree

/-- A live node and its recorded parent. -/
def ParentOf (t : ForkTree) (p id : TreeNodeId) : Prop :=
  ∃ node, t.node? id = some node ∧ node.parent = some p

/-- The main branch maps the numbers from `first` to `last` onto a path that starts at the root:
each entry is live, carries its number, and its parent is the entry below. -/
structure MainPath (t : ForkTree) (first last : BlockNumber) : Prop where
  ordered : first ≤ last
  range : ∀ k, (t.mainBranch.get? k).isSome ↔ first ≤ k ∧ k ≤ last
  root : t.mainBranch.get? first = t.root
  live : ∀ k id, t.mainBranch.get? k = some id → ∃ node, t.node? id = some node ∧ node.data.id = k
  linked : ∀ k id, t.mainBranch.get? (k + 1) = some id → first ≤ k →
    ∃ p, t.mainBranch.get? k = some p ∧ t.ParentOf p id

/-- What links the live nodes to each other, to the root and to the main branch. -/
structure LinkInv (t : ForkTree) : Prop where
  parentLink : ∀ id node p, t.node? id = some node → node.parent = some p →
    ∃ parent, t.node? p = some parent ∧ id ∈ parent.children
  childLink : ∀ id node c, t.node? id = some node → c ∈ node.children →
    ∃ child, t.node? c = some child ∧ child.parent = some id
  root : ∀ id node, t.node? id = some node → ∃ r rootNode, t.root = some r ∧
    t.node? r = some rootNode ∧ Relation.ReflTransGen t.ParentOf r id
  rootLive : ∀ r, t.root = some r → ∃ rootNode, t.node? r = some rootNode
  mainBranch : (t.root = none ∧ ∀ k, t.mainBranch.get? k = none) ∨
    ∃ first last, t.MainPath first last
  unique : ∀ id id' node node', t.node? id = some node → t.node? id' = some node' →
    node.data = node'.data → id = id'

/-- The representation invariant: the links, and the sheets are the live nodes without children. -/
structure RepInv (t : ForkTree) : Prop extends LinkInv t where
  sheets : ∀ id, id ∈ t.sheets ↔ ∃ node, t.node? id = some node ∧ node.children = []

/-- The local form of the invariant: nodes come after their parents and are numbered one above
them, only the root has no parent, and the main branch is closed under parents. -/
structure TreeInv (t : ForkTree) : Prop where
  parentLink : ∀ id node p, t.node? id = some node → node.parent = some p →
    ∃ parent, t.node? p = some parent ∧ id ∈ parent.children
  childLink : ∀ id node c, t.node? id = some node → c ∈ node.children →
    ∃ child, t.node? c = some child ∧ child.parent = some id
  parentLt : ∀ id node p, t.node? id = some node → node.parent = some p → p < id
  numbered : ∀ id node p parent, t.node? id = some node → node.parent = some p →
    t.node? p = some parent → node.data.id = parent.data.id + 1
  parentless : ∀ id node, t.node? id = some node → (node.parent = none ↔ t.root = some id)
  rootLive : ∀ r, t.root = some r → ∃ rootNode, t.node? r = some rootNode
  sheets : ∀ id, id ∈ t.sheets ↔ ∃ node, t.node? id = some node ∧ node.children = []
  unique : ∀ id id' node node', t.node? id = some node → t.node? id' = some node' →
    node.data = node'.data → id = id'
  mainLive : ∀ k id, t.mainBranch.get? k = some id → ∃ node, t.node? id = some node ∧
    node.data.id = k
  mainRoot : ∀ r rootNode, t.root = some r → t.node? r = some rootNode →
    t.mainBranch.get? rootNode.data.id = some r
  mainClosed : ∀ k id node p, t.mainBranch.get? (k + 1) = some id → t.node? id = some node →
    node.parent = some p → t.mainBranch.get? k = some p

variable {t t' : ForkTree} {id p : TreeNodeId} {node parent : TreeNode}

/-! ## From the local form to the global one -/

namespace TreeInv

/-- The root is the ancestor of every live node. -/
theorem reflTransGen_root (h : TreeInv t) :
    ∀ {id : TreeNodeId} {node : TreeNode}, t.node? id = some node →
      ∃ r rootNode, t.root = some r ∧ t.node? r = some rootNode ∧
        rootNode.data.id ≤ node.data.id ∧ Relation.ReflTransGen t.ParentOf r id := by
  intro id
  induction id using Nat.strong_induction_on with
  | _ id ih =>
      intro node hnode
      cases hparent : node.parent with
      | none =>
          have hroot := (h.parentless id node hnode).1 hparent
          exact ⟨id, node, hroot, hnode, Nat.le_refl _, .refl⟩
      | some p =>
          obtain ⟨parent, hp, -⟩ := h.parentLink id node p hnode hparent
          obtain ⟨r, rootNode, hroot, hr, hle, hpath⟩ := ih p (h.parentLt id node p hnode hparent) hp
          have hnumber := h.numbered id node p parent hnode hparent hp
          exact ⟨r, rootNode, hroot, hr, by grind, hpath.tail ⟨node, hnode, hparent⟩⟩

/-- No live node is numbered below the root. -/
theorem root_le (h : TreeInv t) {r : TreeNodeId} {rootNode : TreeNode} (hroot : t.root = some r)
    (hr : t.node? r = some rootNode) (hnode : t.node? id = some node) :
    rootNode.data.id ≤ node.data.id := by
  obtain ⟨r', rootNode', hroot', hr', hle, -⟩ := h.reflTransGen_root hnode
  rw [hroot] at hroot'
  obtain rfl := Option.some.inj hroot'
  rw [hr] at hr'
  obtain rfl := Option.some.inj hr'
  exact hle

/-- The main branch has every number from the root's to that of any of its blocks. -/
theorem mainBranch_isSome (h : TreeInv t) {r : TreeNodeId} {rootNode : TreeNode}
    (hroot : t.root = some r) (hr : t.node? r = some rootNode) {k : BlockNumber} :
    ∀ {j : Nat}, (t.mainBranch.get? (k + j)).isSome → rootNode.data.id ≤ k →
      (t.mainBranch.get? k).isSome := by
  intro j
  induction j with
  | zero => exact fun hsome _ => hsome
  | succ j ih =>
      intro hsome hle
      refine ih ?_ hle
      obtain ⟨id, hid⟩ := Option.isSome_iff_exists.1 hsome
      obtain ⟨node, hnode, hnumber⟩ := h.mainLive _ _ hid
      cases hparent : node.parent with
      | none =>
          have hroot' := (h.parentless id node hnode).1 hparent
          rw [hroot] at hroot'
          obtain rfl := Option.some.inj hroot'
          rw [hr] at hnode
          obtain rfl := Option.some.inj hnode
          grind
      | some p =>
          exact Option.isSome_iff_exists.2
            ⟨p, h.mainClosed (k + j) id node p hid hnode hparent⟩

/-- The main branch of a tree with a root is a path from the root to its highest block. -/
theorem exists_mainPath (h : TreeInv t) {r : TreeNodeId} (hroot : t.root = some r) :
    ∃ first last, t.MainPath first last := by
  obtain ⟨rootNode, hr⟩ := h.rootLive r hroot
  have hfirst := h.mainRoot r rootNode hroot hr
  have hkey : rootNode.data.id ∈ t.mainBranch.keys := (HashMap.mem_keys_iff _ _).2 ⟨r, hfirst⟩
  obtain ⟨last, hlast, hmax⟩ : ∃ last ∈ t.mainBranch.keys, ∀ k ∈ t.mainBranch.keys, k ≤ last := by
    have hne : t.mainBranch.keys ≠ [] := List.ne_nil_of_mem hkey
    exact ⟨t.mainBranch.keys.max hne, List.max_mem hne, fun k hk => List.le_max_of_mem hk⟩
  have hsome : ∀ k, (t.mainBranch.get? k).isSome ↔ k ∈ t.mainBranch.keys := by
    intro k
    rw [Option.isSome_iff_exists, HashMap.mem_keys_iff]
  refine ⟨rootNode.data.id, last, {
    ordered := hmax _ hkey
    range := ?_
    root := by rw [hfirst, hroot]
    live := h.mainLive
    linked := ?_ }⟩
  · intro k
    constructor
    · intro hk
      obtain ⟨id, hid⟩ := Option.isSome_iff_exists.1 hk
      obtain ⟨node, hnode, hnumber⟩ := h.mainLive k id hid
      exact ⟨hnumber ▸ h.root_le hroot hr hnode, hmax k ((hsome k).1 hk)⟩
    · rintro ⟨hle, hk⟩
      obtain ⟨j, rfl⟩ := Nat.exists_eq_add_of_le hk
      exact h.mainBranch_isSome hroot hr ((hsome _).2 hlast) hle
  · intro k id hid hle
    obtain ⟨node, hnode, hnumber⟩ := h.mainLive _ _ hid
    cases hparent : node.parent with
    | none =>
        have hroot' := (h.parentless id node hnode).1 hparent
        rw [hroot] at hroot'
        obtain rfl := Option.some.inj hroot'
        rw [hr] at hnode
        obtain rfl := Option.some.inj hnode
        grind
    | some p => exact ⟨p, h.mainClosed k id node p hid hnode hparent, node, hnode, hparent⟩

/-- The local form implies the global one. -/
theorem repInv (h : TreeInv t) : RepInv t where
  parentLink := h.parentLink
  childLink := h.childLink
  sheets := h.sheets
  root := by
    intro id node hnode
    obtain ⟨r, rootNode, hroot, hr, -, hpath⟩ := h.reflTransGen_root hnode
    exact ⟨r, rootNode, hroot, hr, hpath⟩
  rootLive := h.rootLive
  mainBranch := by
    cases hroot : t.root with
    | none =>
        refine .inl ⟨rfl, fun k => ?_⟩
        by_contra hk
        obtain ⟨id, hid⟩ := Option.ne_none_iff_exists'.1 hk
        obtain ⟨node, hnode, -⟩ := h.mainLive k id hid
        obtain ⟨r, -, hroot', -⟩ := h.reflTransGen_root hnode
        rw [hroot] at hroot'
        cases hroot'
    | some r => exact .inr (h.exists_mainPath hroot)
  unique := h.unique

end TreeInv

/-! ## Insertions -/

/-- The empty tree. -/
theorem treeInv_default : TreeInv (default : ForkTree) := by
  have hnone : ∀ id, (default : ForkTree).node? id = none := fun _ => rfl
  have hmain : ∀ k, (default : ForkTree).mainBranch.get? k = none := fun _ => rfl
  have hroot : (default : ForkTree).root = none := rfl
  have hsheets : ∀ id, id ∉ (default : ForkTree).sheets := HashSet.not_mem_empty
  constructor <;> simp [hnone, hmain, hroot, hsheets]

namespace TreeInv

variable {blockstamp : Blockstamp}

/-- A tree without root has no live node and no main branch. -/
theorem node?_eq_none (h : TreeInv t) (hroot : t.root = none) (id : TreeNodeId) :
    t.node? id = none := by
  cases hnode : t.node? id with
  | none => rfl
  | some node =>
      obtain ⟨r, -, hroot', -⟩ := h.reflTransGen_root hnode
      rw [hroot] at hroot'
      cases hroot'

/-- Placing a fresh block below a live node of the number before keeps the invariant. -/
theorem withChild (h : TreeInv t) (hp : t.node? p = some parent)
    (hfresh : ∀ id node, t.node? id = some node → node.data ≠ blockstamp)
    (hnumber : blockstamp.id = parent.data.id + 1) :
    TreeInv ((t.withChild blockstamp p parent).withSheet t.nodes.length) := by
  have hplt : p < t.nodes.length := lt_length_of_node? hp
  have hlt : ∀ id node, t.node? id = some node → id < t.nodes.length :=
    fun _ _ hnode => lt_length_of_node? hnode
  have hnodes := withChild_node? t blockstamp parent hplt
  constructor
  case parentLink =>
    intro id node q hnode hq
    have := h.parentLink
    simp only [withSheet_node?, hnodes] at hnode ⊢
    grind [TreeNode.addChild, TreeNode.new]
  case childLink =>
    intro id node c hnode hc
    have := h.childLink
    simp only [withSheet_node?, hnodes] at hnode ⊢
    grind [TreeNode.addChild, TreeNode.new]
  case parentLt =>
    intro id node q hnode hq
    have := h.parentLt
    simp only [withSheet_node?, hnodes] at hnode
    grind [TreeNode.addChild, TreeNode.new]
  case numbered =>
    intro id node q parent' hnode hq hparent'
    have := h.numbered
    have := h.parentLink
    simp only [withSheet_node?, hnodes] at hnode hparent'
    grind [TreeNode.addChild, TreeNode.new]
  case parentless =>
    intro id node hnode
    have := h.parentless
    have := h.rootLive
    simp only [withSheet_node?, hnodes, withSheet_root, withChild_root] at hnode ⊢
    grind [TreeNode.addChild, TreeNode.new]
  case rootLive =>
    intro r hr
    have := h.rootLive
    simp only [withSheet_node?, hnodes, withSheet_root, withChild_root] at hr ⊢
    grind
  case sheets =>
    intro id
    simp only [mem_withSheet_sheets, mem_withChild_sheets, withSheet_node?, hnodes]
    by_cases hidp : id = p
    · have hne : p ≠ t.nodes.length := by grind
      simp [hidp, TreeNode.addChild, hne]
    · by_cases hidl : id = t.nodes.length
      · have hne : t.nodes.length ≠ p := by grind
        simp [hidl, hne, TreeNode.new]
      · simp [hidp, hidl, h.sheets id]
  case unique =>
    intro id id' node node' hnode hnode' hdata
    have := h.unique
    simp only [withSheet_node?, hnodes] at hnode hnode'
    grind [TreeNode.addChild, TreeNode.new]
  case mainLive =>
    intro k id hid
    have := h.mainLive
    simp only [withSheet_mainBranch, withChild_mainBranch, withSheet_node?, hnodes] at hid ⊢
    grind [TreeNode.addChild, TreeNode.new]
  case mainRoot =>
    intro r rootNode hr hnode
    have := h.mainRoot
    have := h.rootLive
    simp only [withSheet_root, withChild_root, withSheet_mainBranch, withChild_mainBranch,
      withSheet_node?, hnodes] at hr hnode ⊢
    grind [TreeNode.addChild, TreeNode.new]
  case mainClosed =>
    intro k id node q hid hnode hq
    have := h.mainClosed
    have := h.mainLive
    simp only [withSheet_mainBranch, withChild_mainBranch, withSheet_node?, hnodes]
      at hid hnode ⊢
    grind [TreeNode.addChild, TreeNode.new]

/-- Putting a live node on the main branch above its parent keeps the invariant, when the main
branch has no block above it. -/
theorem withMain (h : TreeInv t) {k : BlockNumber} (hnode : t.node? id = some node)
    (hk : node.data.id = k) (hparent : ∀ q, node.parent = some q →
      t.mainBranch.get? (k - 1) = some q)
    (htop : t.mainBranch.get? (k + 1) = none) : TreeInv (t.withMain k id) where
  parentLink := h.parentLink
  childLink := h.childLink
  parentLt := h.parentLt
  numbered := h.numbered
  parentless := h.parentless
  rootLive := h.rootLive
  sheets := h.sheets
  unique := h.unique
  mainLive := by
    intro j i hi
    have := h.mainLive
    simp only [withMain_mainBranch, HashMap.get?_insert, withMain_node?] at hi ⊢
    grind
  mainRoot := by
    intro r rootNode hr hroot
    have hmain := h.mainRoot r rootNode hr hroot
    have hroot' : t.root = some r := hr
    simp only [withMain_mainBranch, HashMap.get?_insert]
    by_cases hsame : rootNode.data.id = k
    · -- Only the root itself can have the root's number on the main branch.
      have hnoParent : node.parent = none := by
        cases hq : node.parent with
        | none => rfl
        | some q =>
            obtain ⟨parent, hqnode, -⟩ := h.parentLink id node q hnode hq
            have hnumbered := h.numbered id node q parent hnode hq hqnode
            have hle := h.root_le hroot' hroot hqnode
            grind
      have hid := (h.parentless id node hnode).1 hnoParent
      grind
    · rw [if_neg hsame]
      exact hmain
  mainClosed := by
    intro j i n q hi hn hq
    have := h.mainClosed
    have := h.numbered
    simp only [withMain_mainBranch, HashMap.get?_insert, withMain_node?] at hi hn ⊢
    grind

/-- The first block of a tree without root keeps the invariant. -/
theorem withRoot (h : TreeInv t) (hroot : t.root = none) :
    TreeInv (((t.withRoot blockstamp).withMain blockstamp.id t.nodes.length).withSheet
      t.nodes.length) := by
  have hdead : ∀ id, t.node? id = none := h.node?_eq_none hroot
  have hmain : ∀ k, t.mainBranch.get? k = none := by
    intro k
    cases hk : t.mainBranch.get? k with
    | none => rfl
    | some id =>
        obtain ⟨node, hnode, -⟩ := h.mainLive k id hk
        rw [hdead] at hnode
        cases hnode
  have hsheets : ∀ id, id ∉ t.sheets := by
    intro id hid
    obtain ⟨node, hnode, -⟩ := (h.sheets id).1 hid
    rw [hdead] at hnode
    cases hnode
  generalize hT : ((t.withRoot blockstamp).withMain blockstamp.id t.nodes.length).withSheet
    t.nodes.length = T
  -- The tree has one node, which is its root, its only sheet and its main branch.
  have hnode : ∀ id node, T.node? id = some node ↔
      t.nodes.length = id ∧ TreeNode.new none blockstamp = node := by
    intro id node
    rw [← hT, withSheet_node?, withMain_node?, withRoot_node?, hdead]
    grind
  have hrootT : T.root = some t.nodes.length := by rw [← hT]; rfl
  have hsheet : ∀ id, id ∈ T.sheets ↔ id = t.nodes.length := by
    intro id
    rw [← hT, mem_withSheet_sheets, withMain_sheets, withRoot_sheets]
    simp [hsheets]
  have hmainT : ∀ k id, T.mainBranch.get? k = some id ↔
      k = blockstamp.id ∧ t.nodes.length = id := by
    intro k id
    rw [← hT, withSheet_mainBranch, withMain_mainBranch, withRoot_mainBranch,
      HashMap.get?_insert, hmain]
    grind
  constructor <;> simp only [hnode, hrootT, hsheet, hmainT] <;> grind [TreeNode.new]

end TreeInv

/-! ## Changing the main branch -/

namespace TreeInv

variable {path : List (TreeNodeId × TreeNode)}

/-- A node is on the main branch exactly when the branch refers to it. -/
theorem onMain_iff (h : TreeInv t) (hnode : t.node? id = some node) :
    t.OnMain node ↔ t.mainBranch.get? node.data.id = some id :=
  ForkTree.onMain_iff h.mainLive h.unique hnode

/-- Block numbers fall along a path that climbs. -/
theorem path_le (h : TreeInv t) (hpath : t.OffMainPath p path) (hp : t.node? p = some parent) :
    ∀ e ∈ path, e.2.data.id ≤ parent.data.id := by
  induction hpath generalizing parent with
  | onMain hnode hon => simp
  | top hnode hoff hparent =>
      rw [hp] at hnode
      obtain rfl := Option.some.inj hnode
      simp
  | @step p q node rest hnode hoff hparent hrest ih =>
      rw [hp] at hnode
      obtain rfl := Option.some.inj hnode
      obtain ⟨above, hq, -⟩ := h.parentLink p parent q hp hparent
      have hnumber := h.numbered p parent q above hp hparent hq
      intro e he
      rcases List.mem_cons.1 he with rfl | he
      · exact Nat.le_refl _
      · have hle := ih hq e he
        grind

theorem path_pairwise (h : TreeInv t) (hpath : t.OffMainPath p path) :
    path.Pairwise fun e e' => e'.2.data.id < e.2.data.id := by
  induction hpath with
  | onMain hnode hon => exact List.Pairwise.nil
  | top hnode hoff hparent => exact List.pairwise_singleton _ _
  | @step p q node rest hnode hoff hparent hrest ih =>
      obtain ⟨above, hq, -⟩ := h.parentLink p node q hnode hparent
      have hnumber := h.numbered p node q above hnode hparent hq
      refine List.pairwise_cons.2 ⟨fun e he => ?_, ih⟩
      have hle := h.path_le hrest hq e he
      grind

/-- The path leaves the main branch at its last node, the one of lowest number; the parent of every
other node of the path is on the path. -/
theorem path_parent (h : TreeInv t) (hpath : t.OffMainPath p path) :
    ∀ e ∈ path, ∃ q above, e.2.parent = some q ∧ t.node? q = some above ∧
      ((q, above) ∈ path ∨
        (t.mainBranch.get? above.data.id = some q ∧ path.getLast? = some e)) := by
  induction hpath with
  | onMain hnode hon => simp
  | @top p node hnode hoff hparent =>
      -- Only the root has no parent, and the root is on the main branch.
      have hroot := (h.parentless p node hnode).1 hparent
      have hon := (h.onMain_iff hnode).2 (h.mainRoot p node hroot hnode)
      exact absurd hon (not_onMain_of_offMain hoff)
  | @step p q node rest hnode hoff hparent hrest ih =>
      obtain ⟨above, hq, -⟩ := h.parentLink p node q hnode hparent
      intro e he
      rcases List.mem_cons.1 he with rfl | he
      · refine ⟨q, above, hparent, hq, ?_⟩
        cases hrest with
        | onMain hnode' hon =>
            rw [hq] at hnode'
            obtain rfl := Option.some.inj hnode'
            exact .inr ⟨(h.onMain_iff hq).1 hon, rfl⟩
        | top hnode' _ _ =>
            rw [hq] at hnode'
            obtain rfl := Option.some.inj hnode'
            exact .inl (by simp)
        | step hnode' _ _ _ =>
            rw [hq] at hnode'
            obtain rfl := Option.some.inj hnode'
            exact .inl (by simp)
      · obtain ⟨q', above', hparent', hq', hor⟩ := ih e he
        refine ⟨q', above', hparent', hq', ?_⟩
        rcases hor with hmem | ⟨hmain, hlast⟩
        · exact .inl (List.mem_cons_of_mem _ hmem)
        · have hne : rest ≠ [] := List.ne_nil_of_mem he
          exact .inr ⟨hmain, by rw [List.getLast?_cons_of_ne_nil hne, hlast]⟩

/-- The ids of a fork branch are those of the path from its sheet, read outwards. -/
theorem getForkBranchNodesIds_ok (h : TreeInv t) {branch : List TreeNodeId}
    (hbranch : t.getForkBranchNodesIds id = .ok branch) :
    ∃ node path, t.node? id = some node ∧ t.OffMainPath id path ∧
      branch = path.reverse.map Prod.fst := by
  simp only [getForkBranchNodesIds, bind_eq_ok_iff, getRefNode_eq_ok_iff, pure_eq_ok_iff]
    at hbranch
  obtain ⟨node, hnode, off, hoff, above, habove, rfl⟩ := hbranch
  have hclimb : ∀ q, node.parent = some q → t.OffMainPath q above := by
    intro q hq
    simp only [climbAbove, hq] at habove
    exact offMainPath_of_climb habove
  refine ⟨node, (if off then [(id, node)] else []) ++ above, hnode, ?_, ?_⟩
  · cases off with
    | true =>
        have hoff := isOffMainBranch_eq_true_iff.1 hoff
        cases hq : node.parent with
        | none =>
            simp only [climbAbove, hq, pure_eq_ok_iff] at habove
            subst habove
            exact .top hnode hoff hq
        | some q => exact .step hnode hoff hq (hclimb q hq)
    | false =>
        have hon := isOffMainBranch_eq_false_iff.1 hoff
        have hempty : above = [] := by
          cases hq : node.parent with
          | none =>
              simp only [climbAbove, hq, pure_eq_ok_iff] at habove
              exact habove.symm
          | some q =>
              -- The parent of a main block is a main block, so the climb stops at once.
              obtain ⟨parent, hp, -⟩ := h.parentLink id node q hnode hq
              have hnumber := h.numbered id node q parent hnode hq hp
              have hmain := (h.onMain_iff hnode).1 hon
              rw [hnumber] at hmain
              have hq' := h.mainClosed _ id node q hmain hnode hq
              exact (hclimb q hq).unique (.onMain hp ((h.onMain_iff hp).2 hq'))
        subst hempty
        exact .onMain hnode hon
  · cases off <;> simp

end TreeInv

/-- Selecting nodes numbered at most as the old current block only changes the main branch. -/
theorem foldlM_selectNode {oldCurrent : Blockstamp} {entries : List (TreeNodeId × TreeNode)}
    (hentries : ∀ e ∈ entries, t.node? e.1 = some e.2 ∧ e.2.data.id ≤ oldCurrent.id) :
    (entries.map Prod.fst).foldlM (selectNode oldCurrent) t = .ok { t with
      mainBranch := t.mainBranch.insertAll (entries.map fun e => (e.2.data.id, e.1)) } := by
  induction entries generalizing t with
  | nil => rfl
  | cons e entries ih =>
      obtain ⟨hnode, hle⟩ := hentries e List.mem_cons_self
      have hslot : t.nodes[e.1]? = some (some e.2) := node?_eq_some_iff.1 hnode
      have hselect : selectNode oldCurrent t e.1 = .ok (t.withMain e.2.data.id e.1) := by
        have hguard : ¬ e.2.data.id > oldCurrent.id := Nat.not_lt.2 hle
        simp only [selectNode, hslot, expect_some, ok_bind, if_neg hguard]
        rfl
      rw [List.map_cons, List.foldlM_cons, hselect, ok_bind]
      exact ih fun e he => hentries e (List.mem_cons_of_mem _ he)

theorem removeMainBranchRange_get? (t : ForkTree) (first last k : BlockNumber) :
    (t.removeMainBranchRange first last).mainBranch.get? k =
      if first ≤ k ∧ k ≤ last then none else t.mainBranch.get? k := by
  simp only [removeMainBranchRange, HashMap.get?_removeAll, List.mem_range'_1]
  grind

/-- What a change of the main branch does below the old current block: the main branch is cut where
the selected path leaves it, and above the new current block, and takes the nodes of the path. -/
structure ChangesMain (t : ForkTree) (newCurrent : Blockstamp)
    (path : List (TreeNodeId × TreeNode)) (t' : ForkTree) : Prop where
  nodes : t'.nodes = t.nodes
  root : t'.root = t.root
  sheets : t'.sheets = t.sheets
  selected : ∀ e ∈ path, t'.mainBranch.get? e.2.data.id = some e.1
  kept : ∀ k, (∀ e ∈ path, e.2.data.id ≠ k) → t'.mainBranch.get? k =
    if (∃ last, path.getLast? = some last ∧ last.2.data.id ≤ k ∧ k ≤ newCurrent.id) ∨
      newCurrent.id < k then none else t.mainBranch.get? k

theorem ChangesMain.node? {newCurrent : Blockstamp} {path : List (TreeNodeId × TreeNode)}
    (h : ChangesMain t newCurrent path t') (id : TreeNodeId) : t'.node? id = t.node? id := by
  rw [ForkTree.node?, h.nodes, ForkTree.node?]

namespace TreeInv

/-- A change to a block no higher than the old current block does that for the path of its node. -/
theorem changeMainBranch_ok (h : TreeInv t) {oldCurrent newCurrent : Blockstamp}
    (hold : ∀ k id, t.mainBranch.get? k = some id → k ≤ oldCurrent.id)
    (hnew : newCurrent.id ≤ oldCurrent.id)
    (hrun : t.changeMainBranch oldCurrent newCurrent = .ok t') :
    ∃ target node path, t.node? target = some node ∧ node.data = newCurrent ∧
      t.OffMainPath target path ∧ ChangesMain t newCurrent path t' := by
  simp only [changeMainBranch, bind_eq_ok_iff, expect_eq_ok_iff] at hrun
  obtain ⟨target, htarget, branch, hbranch, cut, hcut, hselect⟩ := hrun
  obtain ⟨node, hnode, hdata⟩ := node?_of_findNodeWithBlockstamp htarget
  obtain ⟨node', path, hnode', hpath, rfl⟩ := h.getForkBranchNodesIds_ok hbranch
  rw [hnode] at hnode'
  obtain rfl := Option.some.inj hnode'
  refine ⟨target, node, path, hnode, hdata, hpath, ?_⟩
  have hle : ∀ e ∈ path, e.2.data.id ≤ newCurrent.id := by
    intro e he
    rw [← hdata]
    exact h.path_le hpath hnode e he
  -- The first cut starts at the node where the path leaves the main branch.
  have hcutSpec : cut.nodes = t.nodes ∧ cut.root = t.root ∧ cut.sheets = t.sheets ∧
      ∀ k, cut.mainBranch.get? k =
        if ∃ last, path.getLast? = some last ∧ last.2.data.id ≤ k ∧ k ≤ newCurrent.id
        then none else t.mainBranch.get? k := by
    cases hlast : path.getLast? with
    | none =>
        rw [List.getLast?_eq_none_iff] at hlast
        subst hlast
        simp only [List.reverse_nil, List.map_nil, cutMainBranch, pure_eq_ok_iff] at hcut
        subst hcut
        simp
    | some last =>
        obtain ⟨init, rfl⟩ := List.getLast?_eq_some_iff.1 hlast
        have hlastNode := (hpath.mem (List.mem_append_right init (List.mem_singleton_self last))).1
        simp only [List.reverse_append, List.reverse_singleton, List.singleton_append,
          List.map_cons, cutMainBranch, node?_eq_some_iff.1 hlastNode, expect_some, ok_bind,
          pure_eq_ok_iff] at hcut
        subst hcut
        refine ⟨rfl, rfl, rfl, fun k => ?_⟩
        rw [removeMainBranchRange_get?]
        simp
  obtain ⟨hcutNodes, hcutRoot, hcutSheets, hcutMain⟩ := hcutSpec
  generalize hcut' : (if oldCurrent.id > newCurrent.id then
    cut.removeMainBranchRange (newCurrent.id + 1) oldCurrent.id else cut) = cut' at hselect
  have hcutSpec' : cut'.nodes = t.nodes ∧ cut'.root = t.root ∧ cut'.sheets = t.sheets ∧
      ∀ k, cut'.mainBranch.get? k =
        if (∃ last, path.getLast? = some last ∧ last.2.data.id ≤ k ∧ k ≤ newCurrent.id) ∨
          newCurrent.id < k then none else t.mainBranch.get? k := by
    have habove : ∀ k, oldCurrent.id < k → t.mainBranch.get? k = none := by
      intro k hk
      cases hid : t.mainBranch.get? k with
      | none => rfl
      | some id => exact absurd (hold k id hid) (Nat.not_le.2 hk)
    by_cases hgt : oldCurrent.id > newCurrent.id
    · rw [if_pos hgt] at hcut'
      subst hcut'
      refine ⟨hcutNodes, hcutRoot, hcutSheets, fun k => ?_⟩
      rw [removeMainBranchRange_get?, hcutMain]
      grind
    · rw [if_neg hgt] at hcut'
      subst hcut'
      refine ⟨hcutNodes, hcutRoot, hcutSheets, fun k => ?_⟩
      rw [hcutMain]
      grind
  obtain ⟨hcutNodes', hcutRoot', hcutSheets', hcutMain'⟩ := hcutSpec'
  have hentries : ∀ e ∈ path.reverse, cut'.node? e.1 = some e.2 ∧ e.2.data.id ≤ oldCurrent.id := by
    intro e he
    have he' := List.mem_reverse.1 he
    rw [ForkTree.node?, hcutNodes']
    exact ⟨(hpath.mem he').1, Nat.le_trans (hle e he') hnew⟩
  rw [foldlM_selectNode hentries] at hselect
  obtain rfl := Except.ok.inj hselect
  have hkeys : (path.reverse.map fun e => (e.2.data.id, e.1)).Pairwise fun e e' => e.1 ≠ e'.1 := by
    rw [List.pairwise_map, List.pairwise_reverse]
    exact (h.path_pairwise hpath).imp fun hlt => Nat.ne_of_lt hlt
  exact {
    nodes := hcutNodes'
    root := hcutRoot'
    sheets := hcutSheets'
    selected := by
      intro e he
      exact HashMap.get?_insertAll_of_mem cut'.mainBranch hkeys
        (List.mem_map.2 ⟨e, List.mem_reverse.2 he, rfl⟩)
    kept := by
      intro k hk
      rw [← hcutMain']
      refine HashMap.get?_insertAll_of_forall_ne _ ?_
      intro entry hentry
      obtain ⟨e, he, rfl⟩ := List.mem_map.1 hentry
      exact hk e (List.mem_reverse.1 he) }

/-- Such a change keeps the invariant. -/
theorem changesMain (h : TreeInv t) {newCurrent : Blockstamp} {target : TreeNodeId}
    {path : List (TreeNodeId × TreeNode)} (hnode : t.node? target = some node)
    (hdata : node.data = newCurrent) (hpath : t.OffMainPath target path)
    (hchange : ChangesMain t newCurrent path t') : TreeInv t' := by
  have hlast : ∀ last, path.getLast? = some last → ∀ e ∈ path, last.2.data.id ≤ e.2.data.id := by
    intro last hlast e he
    obtain ⟨init, rfl⟩ := List.getLast?_eq_some_iff.1 hlast
    rcases List.mem_append.1 he with he | he
    · have hpair := (List.pairwise_append.1 (h.path_pairwise hpath)).2.2 e he last
        (List.mem_singleton_self last)
      exact Nat.le_of_lt hpair
    · rw [List.mem_singleton.1 he]
  have hle : ∀ e ∈ path, e.2.data.id ≤ newCurrent.id := hdata ▸ h.path_le hpath hnode
  -- An entry of the new main branch is on the path, or was there before and lies below the path.
  have hentry : ∀ k id, t'.mainBranch.get? k = some id →
      (∃ e ∈ path, e.1 = id ∧ e.2.data.id = k) ∨ (t.mainBranch.get? k = some id ∧
        k ≤ newCurrent.id ∧ ∀ last, path.getLast? = some last → k < last.2.data.id) := by
    intro k id hid
    by_cases hk : ∃ e ∈ path, e.2.data.id = k
    · obtain ⟨e, he, rfl⟩ := hk
      rw [hchange.selected e he] at hid
      exact .inl ⟨e, he, Option.some.inj hid, rfl⟩
    · have hkept := hchange.kept k fun e he hek => hk ⟨e, he, hek⟩
      rw [hkept] at hid
      grind
  have hkeep : ∀ k id, t.mainBranch.get? k = some id → k ≤ newCurrent.id →
      (∀ last, path.getLast? = some last → k < last.2.data.id) →
      t'.mainBranch.get? k = some id := by
    intro k id hid hk hbelow
    have hne : ∀ e ∈ path, e.2.data.id ≠ k := by
      intro e he heq
      obtain ⟨last, hlast'⟩ : ∃ last, path.getLast? = some last :=
        ⟨path.getLast (List.ne_nil_of_mem he), List.getLast?_eq_some_getLast _⟩
      have hle' := hlast last hlast' e he
      have hlt := hbelow last hlast'
      grind
    rw [hchange.kept k hne, ← hid, if_neg]
    grind
  constructor
  case mainLive =>
    intro k id hid
    simp only [hchange.node?]
    rcases hentry k id hid with ⟨e, he, rfl, rfl⟩ | ⟨hold, -⟩
    · exact ⟨e.2, (hpath.mem he).1, rfl⟩
    · exact h.mainLive k id hold
  case mainRoot =>
    intro r rootNode hr hroot
    rw [hchange.root] at hr
    rw [hchange.node?] at hroot
    refine hkeep _ r (h.mainRoot r rootNode hr hroot) ?_ ?_
    · rw [← hdata]
      exact h.root_le hr hroot hnode
    · intro last hlast'
      have hmem : last ∈ path := List.mem_of_getLast? hlast'
      obtain ⟨q, above, hq, habove, -⟩ := h.path_parent hpath last hmem
      have hnumber := h.numbered last.1 last.2 q above (hpath.mem hmem).1 hq habove
      have hroot' := h.root_le hr hroot habove
      grind
  case mainClosed =>
    intro k id n q hid hn hq
    rw [hchange.node?] at hn
    rcases hentry (k + 1) id hid with ⟨e, he, rfl, hk⟩ | ⟨hold, hk, hbelow⟩
    · rw [(hpath.mem he).1] at hn
      obtain rfl := Option.some.inj hn
      obtain ⟨q', above, hq', habove, hor⟩ := h.path_parent hpath e he
      rw [hq] at hq'
      obtain rfl := Option.some.inj hq'
      have hnumber := h.numbered e.1 e.2 q above (hpath.mem he).1 hq habove
      obtain rfl : k = above.data.id := by grind
      rcases hor with hmem | ⟨hmain, hlast'⟩
      · exact hchange.selected _ hmem
      · refine hkeep _ q hmain ?_ ?_
        · have hle' := hle e he
          grind
        · intro last hlast''
          grind
    · refine hkeep k q (h.mainClosed k id n q hold hn hq) ?_ ?_
      · grind
      · intro last hlast'
        have hlt := hbelow last hlast'
        grind
  all_goals simp only [hchange.node?, hchange.root, hchange.sheets]
  · exact h.parentLink
  · exact h.childLink
  · exact h.parentLt
  · exact h.numbered
  · exact h.parentless
  · exact h.rootLive
  · exact h.sheets
  · exact h.unique

end TreeInv

/-! ## Pruning -/

/-- The links do not depend on the sheets. -/
theorem LinkInv.of_withSheet (h : LinkInv (t.withSheet id)) : LinkInv t :=
  { parentLink := h.parentLink
    childLink := h.childLink
    root := h.root
    rootLive := h.rootLive
    mainBranch := h.mainBranch.imp_right fun ⟨first, last, hpath⟩ =>
      ⟨first, last, ⟨hpath.ordered, hpath.range, hpath.root, hpath.live, hpath.linked⟩⟩
    unique := h.unique }

/-- A pruned tree has its new root below the removed one, when the new root was a child of the old
one. -/
theorem Prunes.not_linkInv {rootId mainChildId : TreeNodeId} {rootNode child : TreeNode}
    {ids : List TreeNodeId} (h : Prunes t rootId rootNode mainChildId ids t')
    (hchild : t.node? mainChildId = some child) (hparent : child.parent = some rootId) :
    ¬ LinkInv t' := by
  intro hinv
  obtain ⟨node, hnode⟩ := hinv.rootLive mainChildId h.root
  have hsame := (h.node?_of_some hnode).1
  rw [hchild] at hsame
  obtain rfl := Option.some.inj hsame
  obtain ⟨parent, hlive, -⟩ := hinv.parentLink mainChildId child rootId hnode hparent
  exact (h.node?_of_some hlive).2.1 rfl

end ForkTree

end Durs
