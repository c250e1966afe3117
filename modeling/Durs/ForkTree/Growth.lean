/-
# Growth of the main branch

Heads inserted one above the other, as long as the main branch stays within the window and at the
moment it outgrows it.
-/

import Durs.ForkTree.Representation

namespace Durs

open RustStd

namespace ForkTree

variable {t t' : ForkTree} {p : TreeNodeId} {parent : TreeNode} {blockstamp : Blockstamp}

/-- The tree after a head was placed below `p`, before any pruning and without its sheet. -/
def withHead (t : ForkTree) (blockstamp : Blockstamp) (p : TreeNodeId) (parent : TreeNode) :
    ForkTree :=
  (t.withChild blockstamp p parent).withMain blockstamp.id t.nodes.length

theorem withHead_get? (t : ForkTree) (parent : TreeNode) (k : BlockNumber) :
    (t.withHead blockstamp p parent).mainBranch.get? k =
      if k = blockstamp.id then some t.nodes.length else t.mainBranch.get? k := by
  rw [withHead, withMain_mainBranch, withChild_mainBranch, HashMap.get?_insert]

theorem withHead_node? (t : ForkTree) (parent : TreeNode) (hp : p < t.nodes.length)
    (i : TreeNodeId) : (t.withHead blockstamp p parent).node? i =
      if i = p then some (parent.addChild t.nodes.length)
      else if i = t.nodes.length then some (TreeNode.new (some p) blockstamp)
      else t.node? i := by
  rw [withHead, withMain_node?, withChild_node? _ _ _ hp]

theorem mem_withHead_sheets (t : ForkTree) (parent : TreeNode) (i : TreeNodeId) :
    i ∈ (t.withHead blockstamp p parent).sheets ↔ i ≠ p ∧ i ∈ t.sheets := by
  rw [withHead, withMain_sheets, mem_withChild_sheets]

/-- A head of the next number is the highest block. -/
theorem id_le_of_withHead {n : BlockNumber} (hnode : t.node? p = some parent)
    (hid : blockstamp.id = n + 1) (hbound : ∀ i node, t.node? i = some node → node.data.id ≤ n)
    {i : TreeNodeId} {node : TreeNode} (hi : (t.withHead blockstamp p parent).node? i = some node) :
    node.data.id ≤ n + 1 := by
  rw [withHead_node? t parent (lt_length_of_node? hnode)] at hi
  split at hi
  case isTrue =>
    obtain rfl := Option.some.inj hi
    exact Nat.le_succ_of_le (hbound p parent hnode)
  case isFalse =>
    split at hi
    case isTrue =>
      obtain rfl := Option.some.inj hi
      exact Nat.le_of_eq hid
    case isFalse => exact Nat.le_succ_of_le (hbound i node hi)

theorem size_pos_of_node? {id : TreeNodeId} {node : TreeNode} (h : t.node? id = some node) :
    t.size > 0 := by
  rcases Nat.eq_zero_or_pos t.size with hzero | hpos
  · rw [size_eq_zero_iff.1 hzero id] at h
    cases h
  · exact hpos

theorem headParentId_eq (hid : blockstamp.id > 0)
    (hp : t.mainBranch.get? (blockstamp.id - 1) = some p) (hnode : t.node? p = some parent) :
    t.headParentId blockstamp = .ok (some p) := by
  rw [headParentId, if_pos ⟨hid, size_pos_of_node? hnode⟩, getMainBranchNodeId, hp]
  rfl

theorem extendMainBranch_eq (t : ForkTree) (blockId : BlockNumber) (id : TreeNodeId) :
    t.extendMainBranch blockId id =
      if (t.mainBranch.insert blockId id).len > forkWindowSize then (t.withMain blockId id).pruning
      else .ok (t.withMain blockId id) := rfl

/-- A head above the main block of the number before is placed there. -/
theorem insertNewHeadBlock_eq (hid : blockstamp.id > 0)
    (hp : t.mainBranch.get? (blockstamp.id - 1) = some p) (hnode : t.node? p = some parent) :
    t.insertNewHeadBlock blockstamp = (do
      let ended ← (t.withChild blockstamp p parent).extendMainBranch blockstamp.id t.nodes.length
      return (ended.withSheet t.nodes.length, ended.removedBlockstamps)) := by
  rw [insertNewHeadBlock, headParentId_eq hid hp hnode, ok_bind, insertNewNode_some _ _ hnode,
    if_pos rfl, bind_assoc]
  rfl

/-- While the main branch stays within the window, nothing is pruned. -/
theorem insertNewHeadBlock_within (hid : blockstamp.id > 0)
    (hp : t.mainBranch.get? (blockstamp.id - 1) = some p) (hnode : t.node? p = some parent)
    (hlen : (t.mainBranch.insert blockstamp.id t.nodes.length).len ≤ forkWindowSize) :
    t.insertNewHeadBlock blockstamp =
      .ok ((t.withHead blockstamp p parent).withSheet t.nodes.length, []) := by
  rw [insertNewHeadBlock_eq hid hp hnode, extendMainBranch_eq, withChild_mainBranch,
    if_neg (Nat.not_lt.2 hlen), ok_bind]
  rfl

/-- When the main branch outgrows the window, the tree is pruned before the new sheet is added. -/
theorem insertNewHeadBlock_outgrown (hid : blockstamp.id > 0)
    (hp : t.mainBranch.get? (blockstamp.id - 1) = some p) (hnode : t.node? p = some parent)
    (hlen : (t.mainBranch.insert blockstamp.id t.nodes.length).len > forkWindowSize)
    (hpruned : (t.withHead blockstamp p parent).pruning = .ok t') :
    t.insertNewHeadBlock blockstamp =
      .ok (t'.withSheet t.nodes.length, t'.removedBlockstamps) := by
  rw [withHead] at hpruned
  rw [insertNewHeadBlock_eq hid hp hnode, extendMainBranch_eq, withChild_mainBranch, if_pos hlen,
    hpruned, ok_bind]
  rfl

/-- The slot of a live node can be removed. -/
theorem removeSlot_eq {c : TreeNodeId} {node : TreeNode} (hnode : t.node? c = some node) :
    t.removeSlot c = .ok { t with
      removedBlockstamps := t.removedBlockstamps ++ [node.data]
      nodes := t.nodes.set c none
      sheets := t.sheets.remove c } := by
  rw [removeSlot, node?_eq_some_iff.1 hnode]
  rfl

/-- Distinct live slots can be removed one after the other. -/
theorem exists_removes (ids : List TreeNodeId) :
    ∀ {t : ForkTree}, ids.Nodup → (∀ id ∈ ids, ∃ node, t.node? id = some node) →
      ∃ t', ids.foldlM removeSlot t = .ok t' ∧ Removes t ids t' := by
  induction ids with
  | nil => exact fun _ _ => ⟨_, rfl, .refl _⟩
  | cons id ids ih =>
      intro t hnodup hlive
      obtain ⟨hnot, hnodup⟩ := List.nodup_cons.1 hnodup
      obtain ⟨node, hnode⟩ := hlive id List.mem_cons_self
      have hslot := removeSlot_eq hnode
      have hremoves := removeSlot_removes hslot
      obtain ⟨t', hrun, hremoves'⟩ := ih hnodup fun i hi => by
        obtain ⟨node', hnode'⟩ := hlive i (List.mem_cons_of_mem _ hi)
        refine ⟨node', ?_⟩
        rw [hremoves.node?, if_neg, hnode']
        rw [List.mem_singleton]
        rintro rfl
        exact hnot hi
      exact ⟨t', by rw [List.foldlM_cons, hslot, ok_bind, hrun], hremoves.trans hremoves'⟩

/-- Below a node there are just these ones, each the only child of the one before. -/
def OnlyChildren (t : ForkTree) : TreeNode → List TreeNodeId → Prop
  | node, [] => node.children = []
  | node, c :: ids => node.children = [c] ∧ ∃ child, t.node? c = some child ∧
      t.OnlyChildren child ids

theorem descendOnlyChildren_of_onlyChildren {ids : List TreeNodeId} :
    ∀ {fuel : Nat} {node : TreeNode} (idsToRm : List TreeNodeId), t.OnlyChildren node ids →
      ids.length < fuel → ∃ last, t.descendOnlyChildren fuel node idsToRm =
        .ok (last, idsToRm ++ ids) ∧ last.children = [] := by
  induction ids with
  | nil =>
      intro fuel node idsToRm hnode hfuel
      obtain ⟨fuel, rfl⟩ := Nat.exists_eq_succ_of_ne_zero (Nat.ne_of_gt hfuel)
      rw [OnlyChildren] at hnode
      refine ⟨node, ?_, hnode⟩
      rw [descendOnlyChildren, hnode, List.append_nil]
      rfl
  | cons c ids ih =>
      intro fuel node idsToRm hnode hfuel
      obtain ⟨fuel, rfl⟩ := Nat.exists_eq_succ_of_ne_zero (Nat.ne_of_gt (Nat.zero_lt_of_lt hfuel))
      obtain ⟨hchildren, child, hchild, hrest⟩ := hnode
      obtain ⟨last, hlast, hnone⟩ := ih (idsToRm ++ [c]) hrest
        (Nat.lt_of_succ_lt_succ hfuel)
      refine ⟨last, ?_, hnone⟩
      rw [descendOnlyChildren, hchildren]
      simp only [getRefNode_eq_ok_iff.2 hchild, ok_bind, hlast, List.append_assoc,
        List.singleton_append]

/-- A line of only children is removed with its top, slot after slot. -/
theorem removeChildOfRoot_of_onlyChildren {c : TreeNodeId} {node : TreeNode}
    {ids : List TreeNodeId} (hnode : t.node? c = some node) (hids : t.OnlyChildren node ids)
    (hlength : ids.length ≤ t.nodes.length) :
    t.removeChildOfRoot c = (ids ++ [c]).foldlM removeSlot t := by
  obtain ⟨last, hdescend, hnone⟩ :=
    descendOnlyChildren_of_onlyChildren [] hids (Nat.lt_succ_of_le hlength)
  rw [removeChildOfRoot, removeNodeChildren, getRefNode_eq_ok_iff.2 hnode, ok_bind, hdescend,
    ok_bind]
  simp only [hnone, List.foldlM_nil, pure_bind, List.nil_append, List.foldlM_append,
    List.foldlM_cons, bind_pure]

/-- Nothing is removed below a leaf. -/
theorem removeNodeChildren_of_leaf {fuel : Nat} {c : TreeNodeId} {leaf : TreeNode}
    (hleaf : t.node? c = some leaf) (hchildren : leaf.children = []) :
    removeNodeChildren (fuel + 1) t c = .ok t := by
  simp only [removeNodeChildren, getRefNode_eq_ok_iff.2 hleaf, ok_bind, descendOnlyChildren,
    hchildren, pure_bind, List.foldlM_nil]
  rfl

/-- A node with two leaves is removed without them: they keep their slots, and their removed
parent. -/
theorem removeChildOfRoot_of_leaves {c c₁ c₂ : TreeNodeId} {node leaf₁ leaf₂ : TreeNode}
    (hnode : t.node? c = some node) (hchildren : node.children = [c₁, c₂])
    (hleaf₁ : t.node? c₁ = some leaf₁) (hnone₁ : leaf₁.children = [])
    (hleaf₂ : t.node? c₂ = some leaf₂) (hnone₂ : leaf₂.children = []) :
    t.removeChildOfRoot c = t.removeSlot c := by
  obtain ⟨fuel, hfuel⟩ := Nat.exists_eq_succ_of_ne_zero
    (Nat.ne_of_gt (Nat.zero_lt_of_lt (lt_length_of_node? hnode)))
  rw [removeChildOfRoot, removeNodeChildren, getRefNode_eq_ok_iff.2 hnode, ok_bind,
    descendOnlyChildren, hchildren]
  simp only [pure_bind, hchildren, List.foldlM_cons, List.foldlM_nil, hfuel,
    removeNodeChildren_of_leaf hleaf₁ hnone₁, removeNodeChildren_of_leaf hleaf₂ hnone₂, ok_bind]

/-- A pruning whose removals return does too. -/
theorem pruning_eq {r mainChildId : TreeNodeId} {root : TreeNode} (hroot : t.root = some r)
    (hnode : t.node? r = some root)
    (hmain : t.mainBranch.get? (root.data.id + 1) = some mainChildId)
    (hremove : (root.children.filter (· ≠ mainChildId)).foldlM removeChildOfRoot { t with
      mainBranch := t.mainBranch.remove root.data.id
      removedBlockstamps := t.removedBlockstamps ++ [root.data] } = .ok t') :
    t.pruning = .ok { t' with nodes := t'.nodes.set r none, root := some mainChildId } := by
  have hmain' : (t.mainBranch.remove root.data.id).get? (root.data.id + 1) = some mainChildId := by
    rw [HashMap.get?_remove_of_ne _ (Nat.succ_ne_self _), hmain]
  have hexpect : expect t.root "safe unwrap" = .ok r := by rw [hroot, expect_some]
  rw [pruning, hexpect, ok_bind, getNode_eq_ok_iff.2 hnode, ok_bind]
  simp only [hmain', expect_some, ok_bind, hremove]
  rfl

/-- A head above the highest live block keeps the local invariant, whatever the length of the main
branch. -/
theorem TreeInv.withHead (h : TreeInv t) (hp : t.mainBranch.get? (blockstamp.id - 1) = some p)
    (hid : blockstamp.id > 0) (hnode : t.node? p = some parent)
    (hbelow : ∀ i node, t.node? i = some node → node.data.id < blockstamp.id) :
    TreeInv ((t.withHead blockstamp p parent).withSheet t.nodes.length) := by
  have hlt : p < t.nodes.length := lt_length_of_node? hnode
  have hnumber : blockstamp.id = parent.data.id + 1 := by
    obtain ⟨node, hnode', hk⟩ := h.mainLive _ _ hp
    rw [hnode] at hnode'
    obtain rfl := Option.some.inj hnode'
    grind
  have hchild := h.withChild hnode
    (fun i node hi hdata => absurd (hbelow i node hi) (by rw [hdata]; exact Nat.lt_irrefl _))
    hnumber
  have hhead : ((t.withChild blockstamp p parent).withSheet t.nodes.length).node?
      t.nodes.length = some (TreeNode.new (some p) blockstamp) := by
    rw [withSheet_node?, withChild_node? _ _ _ hlt, if_neg (Nat.ne_of_gt hlt), if_pos rfl]
  refine hchild.withMain hhead rfl ?_ ?_
  · intro q hq
    obtain rfl := Option.some.inj hq
    exact hp
  · cases hk : t.mainBranch.get? (blockstamp.id + 1) with
    | none => exact hk
    | some id =>
        obtain ⟨node, hnode', hnumber'⟩ := h.mainLive _ id hk
        have hlt' := hbelow id node hnode'
        grind

/-! ## A line of heads -/

/-- The blocks `first + 1` to `first + count`, each given by its number. -/
def headOps (stamp : BlockNumber → Blockstamp) (first count : Nat) : List TreeOp :=
  (List.range' (first + 1) count).map fun k => .head (stamp k)

/-- A line of heads is a line followed by another. -/
theorem headOps_add (stamp : BlockNumber → Blockstamp) (first a b : Nat) :
    headOps stamp first (a + b) = headOps stamp first a ++ headOps stamp (first + a) b := by
  simp only [headOps, ← List.map_append]
  congr 1
  rw [Nat.add_right_comm, List.range'_append_1]

/-- What a line of heads above the main block `n` of node `p` leaves in place: the root, the main
branch up to that block, and every node but that block's, which gets a child. -/
structure GrowsBy (t : ForkTree) (n : BlockNumber) (p : TreeNodeId) (count : Nat)
    (t' : ForkTree) : Prop where
  root : t'.root = t.root
  length : t'.nodes.length = t.nodes.length + count
  main : ∀ k ≤ n, t'.mainBranch.get? k = t.mainBranch.get? k
  mainLen : t'.mainBranch.len = t.mainBranch.len + count
  mainAbove : ∀ k > n + count, t'.mainBranch.get? k = none
  node? : ∀ i < t.nodes.length, i ≠ p → t'.node? i = t.node? i
  head : ∃ q node, t'.mainBranch.get? (n + count) = some q ∧ t'.node? q = some node ∧
    (count = 0 ∨ t.nodes.length ≤ q)
  sheets : ∀ i < t.nodes.length, i ≠ p → (i ∈ t'.sheets ↔ i ∈ t.sheets)
  inv : TreeInv t → (∀ i node, t.node? i = some node → node.data.id ≤ n) →
    TreeInv t' ∧ ∀ i node, t'.node? i = some node → node.data.id ≤ n + count

theorem GrowsBy.zero {n : BlockNumber} (hp : t.mainBranch.get? n = some p)
    (hnode : t.node? p = some parent) (habove : ∀ k > n, t.mainBranch.get? k = none) :
    GrowsBy t n p 0 t where
  root := rfl
  length := rfl
  main _ _ := rfl
  mainLen := rfl
  mainAbove := habove
  node? _ _ _ := rfl
  head := ⟨p, parent, hp, hnode, .inl rfl⟩
  sheets _ _ _ := Iff.rfl
  inv hinv hle := ⟨hinv, hle⟩

/-- What a head and a line above it leave in place. -/
theorem GrowsBy.cons {n : BlockNumber} {count : Nat} (hid : blockstamp.id = n + 1)
    (hp : t.mainBranch.get? n = some p) (hnode : t.node? p = some parent)
    (hfree : t.mainBranch.get? (n + 1) = none)
    (h : GrowsBy ((t.withHead blockstamp p parent).withSheet t.nodes.length) (n + 1)
      t.nodes.length count t') : GrowsBy t n p (count + 1) t' := by
  have hplt : p < t.nodes.length := lt_length_of_node? hnode
  have hlength : ((t.withHead blockstamp p parent).withSheet t.nodes.length).nodes.length =
      t.nodes.length + 1 := withChild_length t _ parent
  have hmainLen : ((t.withHead blockstamp p parent).withSheet t.nodes.length).mainBranch.len =
      t.mainBranch.len + 1 := by
    rw [← HashMap.len_insert_of_get?_eq_none _ t.nodes.length hfree, ← hid]
    rfl
  have hsum : n + 1 + count = n + (count + 1) := by rw [Nat.add_assoc, Nat.add_comm 1 count]
  constructor
  case root => exact h.root
  case length =>
    rw [h.length, hlength]
    omega
  case main =>
    intro k hk
    rw [h.main k (Nat.le_succ_of_le hk), withSheet_mainBranch, withHead_get?, hid,
      if_neg (Nat.ne_of_lt (Nat.lt_succ_of_le hk))]
  case mainLen =>
    rw [h.mainLen, hmainLen]
    omega
  case mainAbove =>
    intro k hk
    exact h.mainAbove k (hsum ▸ hk)
  case node? =>
    intro i hi hip
    rw [h.node? i (hlength ▸ Nat.lt_succ_of_lt hi) (Nat.ne_of_lt hi), withSheet_node?,
      withHead_node? t parent hplt, if_neg hip, if_neg (Nat.ne_of_lt hi)]
  case head =>
    obtain ⟨q, node, hq, hqnode, hqle⟩ := h.head
    refine ⟨q, node, by rw [← hsum, hq], hqnode, .inr ?_⟩
    rcases hqle with rfl | hle
    · rw [Nat.add_zero, h.main (n + 1) (Nat.le_refl _), withSheet_mainBranch, withHead_get?,
        if_pos hid.symm] at hq
      exact Nat.le_of_eq (Option.some.inj hq)
    · rw [hlength] at hle
      exact Nat.le_of_succ_le hle
  case sheets =>
    intro i hi hip
    rw [h.sheets i (hlength ▸ Nat.lt_succ_of_lt hi) (Nat.ne_of_lt hi), mem_withSheet_sheets,
      mem_withHead_sheets, or_iff_right (Nat.ne_of_lt hi), and_iff_right hip]
  case inv =>
    intro hinv hle
    have hbelow : t.mainBranch.get? (blockstamp.id - 1) = some p := by rw [hid]; exact hp
    rw [← hsum]
    refine h.inv (hinv.withHead hbelow (hid ▸ Nat.succ_pos n) hnode fun i node hi => ?_)
      fun i node hi => id_le_of_withHead hnode hid hle hi
    exact hid ▸ Nat.lt_succ_of_le (hle i node hi)

/-- A line of heads that stays within the window is inserted. -/
theorem exists_growsBy {stamp : BlockNumber → Blockstamp} (hstamp : ∀ k, (stamp k).id = k)
    (count : Nat) :
    ∀ {t : ForkTree} {n : BlockNumber} {p : TreeNodeId} {parent : TreeNode},
      t.mainBranch.get? n = some p → t.node? p = some parent →
      (∀ k > n, t.mainBranch.get? k = none) → t.mainBranch.len + count ≤ forkWindowSize →
      ∃ t', (headOps stamp n count).foldlM TreeOp.apply t = .ok t' ∧
        GrowsBy t n p count t' := by
  induction count with
  | zero =>
      intro t n p parent hp hnode habove _
      exact ⟨t, rfl, .zero hp hnode habove⟩
  | succ count ih =>
      intro t n p parent hp hnode habove hlen
      have hid : (stamp (n + 1)).id = n + 1 := hstamp (n + 1)
      have hfree := habove (n + 1) (Nat.lt_succ_self n)
      have hlen' : (t.mainBranch.insert (stamp (n + 1)).id t.nodes.length).len =
          t.mainBranch.len + 1 := by
        rw [hid]
        exact HashMap.len_insert_of_get?_eq_none _ _ hfree
      have hstep : TreeOp.apply t (.head (stamp (n + 1))) =
          .ok ((t.withHead (stamp (n + 1)) p parent).withSheet t.nodes.length) := by
        have hpos : (stamp (n + 1)).id > 0 := by rw [hid]; exact Nat.succ_pos n
        have hbelow : t.mainBranch.get? ((stamp (n + 1)).id - 1) = some p := by rw [hid]; exact hp
        rw [TreeOp.apply, insertNewHeadBlock_within hpos hbelow hnode (by rw [hlen']; omega)]
        rfl
      have hhead : ((t.withHead (stamp (n + 1)) p parent).withSheet
          t.nodes.length).mainBranch.get? (n + 1) = some t.nodes.length := by
        rw [withSheet_mainBranch, withHead_get?, if_pos hid.symm]
      have hheadNode : ((t.withHead (stamp (n + 1)) p parent).withSheet t.nodes.length).node?
          t.nodes.length = some (TreeNode.new (some p) (stamp (n + 1))) := by
        have hplt := lt_length_of_node? hnode
        rw [withSheet_node?, withHead_node? t parent hplt, if_neg (Nat.ne_of_gt hplt), if_pos rfl]
      have habove' : ∀ k > n + 1, ((t.withHead (stamp (n + 1)) p parent).withSheet
          t.nodes.length).mainBranch.get? k = none := by
        intro k hk
        rw [withSheet_mainBranch, withHead_get?, hid, if_neg (Nat.ne_of_gt hk)]
        exact habove k (Nat.lt_of_succ_lt hk)
      have hwindow : (t.mainBranch.insert (stamp (n + 1)).id t.nodes.length).len + count ≤
          forkWindowSize := by omega
      obtain ⟨t', hrun, hgrows⟩ := ih hhead hheadNode habove' hwindow
      refine ⟨t', ?_, .cons hid hp hnode hfree hgrows⟩
      rw [headOps, List.range'_succ, List.map_cons, List.foldlM_cons, hstep, ok_bind]
      exact hrun

/-! ## Heads from the first block -/

/-- The block of a number on a branch, with a hash of its own. -/
def mockBlockstamp (branch k : Nat) : Blockstamp := ⟨k, BitVec.ofNat 256 (10 * k + branch + 1)⟩

@[simp] theorem mockBlockstamp_id (branch k : Nat) : (mockBlockstamp branch k).id = k := rfl

/-- A line of heads from the first block. -/
def lineOps (last : BlockNumber) : List TreeOp :=
  .head (mockBlockstamp 0 0) :: headOps (mockBlockstamp 0) 0 last

theorem lineOps_add (first count : Nat) :
    lineOps (first + count) = lineOps first ++ headOps (mockBlockstamp 0) first count := by
  rw [lineOps, headOps_add, Nat.zero_add, lineOps, List.cons_append]

/-- Three heads. -/
theorem exists_threeHeads : ∃ t : ForkTree, (lineOps 2).foldlM TreeOp.apply default = .ok t ∧
    t.mainBranch.get? 1 = some 1 ∧ t.mainBranch.get? 2 = some 2 ∧ t.mainBranch.len = 3 ∧
    (∀ k ∈ t.mainBranch.keys, k ≤ 2) ∧ (∀ slot ∈ t.nodes, ∀ node ∈ slot, node.data.id ≤ 2) ∧
    t.root = some 0 ∧ t.nodes.length = 3 ∧
    t.node? 0 = some ⟨none, [1], mockBlockstamp 0 0⟩ ∧
    t.node? 1 = some ⟨some 0, [2], mockBlockstamp 0 1⟩ ∧
    t.node? 2 = some ⟨some 1, [], mockBlockstamp 0 2⟩ := by
  refine ⟨_, rfl, ?_⟩
  decide

end ForkTree

end Durs
