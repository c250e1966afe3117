/-
# Slots of the fork tree

What each elementary operation on the slots does: reading, placing and linking a node.  Later
modules use these facts and do not unfold the operations again.
-/

import Durs.Dal.Writers.Block

namespace Durs

open RustStd

namespace ForkTree

variable {t t' : ForkTree} {id p : TreeNodeId} {node : TreeNode}

/-! ## Reading -/

theorem node?_eq_some_iff : t.node? id = some node ↔ t.nodes[id]? = some (some node) := by
  simp [node?, Option.join_eq_some_iff]

theorem lt_length_of_node? (h : t.node? id = some node) : id < t.nodes.length := by
  rw [node?_eq_some_iff] at h
  exact (List.getElem?_eq_some_iff.1 h).1

@[simp]
theorem getRefNode_eq_ok_iff : t.getRefNode id = .ok node ↔ t.node? id = some node :=
  expect_eq_ok_iff

@[simp]
theorem getNode_eq_ok_iff : t.getNode id = .ok node ↔ t.node? id = some node := by
  rw [node?_eq_some_iff]
  simp [getNode, bind_eq_ok_iff]

/-- No slot below the length is out of range, so no slot is ever found free. -/
theorem getFreeNodeId_eq_none (t : ForkTree) : t.getFreeNodeId = none := by
  have hfold : ∀ l : List Nat, (∀ i ∈ l, i < t.nodes.length) →
      l.foldl (fun free i => if (t.nodes[i]?).isNone then some i else free)
        (none : Option TreeNodeId) = none := by
    intro l hl
    induction l with
    | nil => rfl
    | cons i l ih =>
        have hi : i < t.nodes.length := hl i List.mem_cons_self
        simp only [List.foldl_cons, List.getElem?_eq_getElem hi, Option.isNone_some]
        exact ih fun j hj => hl j (List.mem_cons_of_mem _ hj)
  exact hfold _ fun i hi => List.mem_range.1 hi

/-- A new node always takes a new last slot. -/
@[simp]
theorem placeNode_eq (t : ForkTree) (node : TreeNode) :
    t.placeNode node = ({ t with nodes := t.nodes ++ [some node] }, t.nodes.length) := by
  simp [placeNode, getFreeNodeId_eq_none]

/-- The size is zero exactly when no slot holds a live node. -/
theorem size_eq_zero_iff : t.size = 0 ↔ ∀ id, t.node? id = none := by
  rw [size, List.countP_eq_zero]
  constructor
  · intro h id
    rw [node?]
    cases hslot : t.nodes[id]? with
    | none => rfl
    | some slot =>
        have hdead := h slot (List.mem_of_getElem? hslot)
        simpa using hdead
  · intro h slot hslot
    obtain ⟨id, hid⟩ := List.mem_iff_getElem?.1 hslot
    have hnone := h id
    rw [node?, hid] at hnone
    simpa using hnone

/-- The node found for a blockstamp is live and carries it. -/
theorem node?_of_findNodeWithBlockstamp {blockstamp : Blockstamp}
    (h : t.findNodeWithBlockstamp blockstamp = some id) :
    ∃ node, t.node? id = some node ∧ node.data = blockstamp := by
  obtain ⟨hid, hslot, -⟩ := List.findIdx?_eq_some_iff_getElem.1 h
  rw [Option.any_eq_true] at hslot
  obtain ⟨node, hnode, hdata⟩ := hslot
  refine ⟨node, ?_, by simpa using hdata⟩
  rw [node?_eq_some_iff, List.getElem?_eq_getElem hid, hnode]

/-- A blockstamp is found exactly when a live node carries it. -/
theorem findNodeWithBlockstamp_eq_none_iff {blockstamp : Blockstamp} :
    t.findNodeWithBlockstamp blockstamp = none ↔
      ∀ id node, t.node? id = some node → node.data ≠ blockstamp := by
  rw [findNodeWithBlockstamp, List.findIdx?_eq_none_iff]
  constructor
  · intro h id node hnode hdata
    have hmem := List.mem_of_getElem? (node?_eq_some_iff.1 hnode)
    simpa [hdata] using h _ hmem
  · intro h slot hslot
    obtain ⟨id, hid⟩ := List.mem_iff_getElem?.1 hslot
    cases slot with
    | none => rfl
    | some node =>
        have hne := h id node (node?_eq_some_iff.2 hid)
        simpa using hne

/-! ## Linking a new node -/

/-- The tree after a node was placed as a child of `p`, before it enters the main branch and the
sheets. -/
def withChild (t : ForkTree) (data : Blockstamp) (p : TreeNodeId) (parent : TreeNode) : ForkTree :=
  { t with
    nodes := (t.nodes ++ [some (TreeNode.new (some p) data)]).set p
      (some (parent.addChild t.nodes.length))
    sheets := t.sheets.remove p
    removedBlockstamps := [] }

/-- The tree after a node was placed as the root. -/
def withRoot (t : ForkTree) (data : Blockstamp) : ForkTree :=
  { t with
    nodes := t.nodes ++ [some (TreeNode.new none data)]
    root := some t.nodes.length
    removedBlockstamps := [] }

/-- A new node is added to the sheets last. -/
def withSheet (t : ForkTree) (id : TreeNodeId) : ForkTree :=
  { t with sheets := t.sheets.insert id }

@[simp] theorem withSheet_node? (t : ForkTree) (id i : TreeNodeId) :
    (t.withSheet id).node? i = t.node? i := rfl

@[simp] theorem withSheet_root (t : ForkTree) (id : TreeNodeId) :
    (t.withSheet id).root = t.root := rfl

@[simp] theorem withSheet_mainBranch (t : ForkTree) (id : TreeNodeId) :
    (t.withSheet id).mainBranch = t.mainBranch := rfl

@[simp] theorem withSheet_removedBlockstamps (t : ForkTree) (id : TreeNodeId) :
    (t.withSheet id).removedBlockstamps = t.removedBlockstamps := rfl

@[simp] theorem mem_withSheet_sheets (t : ForkTree) (id i : TreeNodeId) :
    i ∈ (t.withSheet id).sheets ↔ i = id ∨ i ∈ t.sheets := by
  simp [withSheet]

theorem withChild_node? (t : ForkTree) (data : Blockstamp) (parent : TreeNode)
    (hp : p < t.nodes.length) (i : TreeNodeId) :
    (t.withChild data p parent).node? i =
      if i = p then some (parent.addChild t.nodes.length)
      else if i = t.nodes.length then some (TreeNode.new (some p) data)
      else t.node? i := by
  simp only [node?, withChild, List.getElem?_set, List.length_append, List.length_singleton,
    List.getElem?_append]
  grind

@[simp] theorem withChild_length (t : ForkTree) (data : Blockstamp) (parent : TreeNode) :
    (t.withChild data p parent).nodes.length = t.nodes.length + 1 := by
  simp [withChild]

@[simp] theorem withChild_root (t : ForkTree) (data : Blockstamp) (parent : TreeNode) :
    (t.withChild data p parent).root = t.root := rfl

@[simp] theorem withChild_mainBranch (t : ForkTree) (data : Blockstamp) (parent : TreeNode) :
    (t.withChild data p parent).mainBranch = t.mainBranch := rfl

@[simp] theorem withChild_removedBlockstamps (t : ForkTree) (data : Blockstamp)
    (parent : TreeNode) : (t.withChild data p parent).removedBlockstamps = [] := rfl

@[simp] theorem mem_withChild_sheets (t : ForkTree) (data : Blockstamp) (parent : TreeNode)
    (i : TreeNodeId) : i ∈ (t.withChild data p parent).sheets ↔ i ≠ p ∧ i ∈ t.sheets := by
  simp [withChild]

theorem withRoot_node? (t : ForkTree) (data : Blockstamp) (i : TreeNodeId) :
    (t.withRoot data).node? i =
      if i = t.nodes.length then some (TreeNode.new none data) else t.node? i := by
  simp only [node?, withRoot, List.getElem?_append]
  grind

@[simp] theorem withRoot_length (t : ForkTree) (data : Blockstamp) :
    (t.withRoot data).nodes.length = t.nodes.length + 1 := by
  simp [withRoot]

@[simp] theorem withRoot_root (t : ForkTree) (data : Blockstamp) :
    (t.withRoot data).root = some t.nodes.length := rfl

@[simp] theorem withRoot_mainBranch (t : ForkTree) (data : Blockstamp) :
    (t.withRoot data).mainBranch = t.mainBranch := rfl

@[simp] theorem withRoot_sheets (t : ForkTree) (data : Blockstamp) :
    (t.withRoot data).sheets = t.sheets := rfl

@[simp] theorem withRoot_removedBlockstamps (t : ForkTree) (data : Blockstamp) :
    (t.withRoot data).removedBlockstamps = [] := rfl

/-- The guard on an empty set of sheets changes nothing: there is nothing to remove there. -/
theorem dropSheet_eq (t : ForkTree) (i : TreeNodeId) :
    t.dropSheet i = { t with sheets := t.sheets.remove i } := by
  have hempty : t.sheets.isEmpty = true → t.sheets.remove i = t.sheets := by
    intro h
    generalize t.sheets = sheets at h
    obtain ⟨⟨entries, hnodup⟩⟩ := sheets
    cases entries with
    | nil => rfl
    | cons entry entries => cases h
  by_cases h : t.sheets.isEmpty = true
  · rw [dropSheet, if_pos h, hempty h]
  · rw [dropSheet, if_neg h]

/-- Linking below a live node returns. -/
theorem linkNode_some {parent : TreeNode} (newNodeId : TreeNodeId)
    (hp : t.node? p = some parent) :
    t.linkNode newNodeId (some p) = .ok { t with
      sheets := t.sheets.remove p
      nodes := t.nodes.set p (some (parent.addChild newNodeId)) } := by
  have hread : (t.dropSheet p).getRefNode p = .ok parent := by
    rw [dropSheet_eq, getRefNode_eq_ok_iff]
    exact hp
  rw [linkNode, hread, dropSheet_eq]
  rfl

/-- Inserting a node below `p` links it, lets it enter the main branch if asked, and makes it a
sheet. -/
theorem insertNewNode_some (data : Blockstamp) (mainBranch : Bool) {parent : TreeNode}
    (hp : t.node? p = some parent) :
    t.insertNewNode data (some p) mainBranch = (do
      let t' ← if mainBranch then (t.withChild data p parent).extendMainBranch data.id t.nodes.length
        else .ok (t.withChild data p parent)
      return t'.withSheet t.nodes.length) := by
  have hplaced : ({ t with nodes := t.nodes ++ [some (TreeNode.new (some p) data)] }).node? p =
      some parent := by
    rw [node?, List.getElem?_append_left (lt_length_of_node? hp)]
    exact hp
  rw [insertNewNode, placeNode_eq]
  simp only [linkNode_some _ hplaced, ok_bind]
  rfl

/-- Inserting a node without parent is only possible in a tree without root. -/
theorem insertNewNode_none (data : Blockstamp) (mainBranch : Bool) (hroot : t.root = none) :
    t.insertNewNode data none mainBranch = (do
      let t' ← if mainBranch then (t.withRoot data).extendMainBranch data.id t.nodes.length
        else .ok (t.withRoot data)
      return t'.withSheet t.nodes.length) := by
  rw [insertNewNode, placeNode_eq]
  simp only [linkNode, hroot, Option.isNone_none, if_true]
  rfl

/-- Inserting below a dead node, or without parent in a tree with a root, stops the process. -/
theorem insertNewNode_ok_cases {data : Blockstamp} {parent? : Option TreeNodeId}
    {mainBranch : Bool} (h : t.insertNewNode data parent? mainBranch = .ok t')
    (hlt : ∀ p, parent? = some p → p < t.nodes.length) :
    (∃ p parent, parent? = some p ∧ t.node? p = some parent) ∨
      (parent? = none ∧ t.root = none) := by
  rw [insertNewNode, placeNode_eq, bind_eq_ok_iff] at h
  obtain ⟨linked, hlinked, -⟩ := h
  cases parent? with
  | some p =>
      simp only [linkNode, bind_eq_ok_iff, getRefNode_eq_ok_iff, dropSheet_eq] at hlinked
      obtain ⟨parent, hparent, -⟩ := hlinked
      refine .inl ⟨p, parent, rfl, ?_⟩
      rw [node?, List.getElem?_append_left (hlt p rfl)] at hparent
      exact hparent
  | none =>
      refine .inr ⟨rfl, ?_⟩
      cases hroot : t.root with
      | none => rfl
      | some r => simp [linkNode, hroot] at hlinked

end ForkTree

end Durs
