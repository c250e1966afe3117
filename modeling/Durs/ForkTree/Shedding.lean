/-
# The nodes an operation sheds

Which blockstamps the tree carries after each operation: what was carried before, with the block
placed and without the nodes that the prunings removed.
-/

import Durs.ForkTree.Pruning

namespace Durs

open RustStd Lib

namespace ForkTree

variable {t t' t'' : ForkTree} {id : TreeNodeId} {node : TreeNode}

/-! ## Nodes removed by prunings -/

/-- Some live node carries a blockstamp. -/
def Carries (t : ForkTree) (blockstamp : Blockstamp) : Prop :=
  ∃ id node, t.node? id = some node ∧ node.data = blockstamp

/-- No two live nodes carry the same blockstamp. -/
def Distinct (t : ForkTree) : Prop :=
  ∀ id id' node node', t.node? id = some node → t.node? id' = some node' →
    node.data = node'.data → id = id'

/-- The nodes a pruning may remove: the root, and what is below its children other than the main
one. -/
def ToPrune (t : ForkTree) (id : TreeNodeId) : Prop :=
  ∃ rootId root, t.root = some rootId ∧ t.node? rootId = some root ∧
    (id = rootId ∨ ∃ c ∈ root.children, t.mainBranch.get? (root.data.id + 1) ≠ some c ∧
      Relation.ReflTransGen t.ChildOf c id)

/-- No node that a pruning may remove shares its blockstamp with another live node. -/
def PruneSafe (t : ForkTree) : Prop :=
  ∀ id id' node node', t.ToPrune id → t.node? id = some node → t.node? id' = some node' →
    node.data = node'.data → id = id'

/-- `t'` is `t` without some nodes, whose blockstamps are listed after those already removed. -/
structure Sheds (t t' : ForkTree) (listed : List Blockstamp) : Prop where
  length : t'.nodes.length = t.nodes.length
  kept : ∀ id node, t'.node? id = some node → t.node? id = some node
  removed : t'.removedBlockstamps = t.removedBlockstamps ++ listed
  shed : ∀ blockstamp ∈ listed, ∃ id node, t.node? id = some node ∧ t'.node? id = none ∧
    node.data = blockstamp
  gone : ∀ id node, t.node? id = some node → t'.node? id = none → node.data ∈ listed

namespace Sheds

variable {listed listed' : List Blockstamp}

theorem refl (t : ForkTree) : Sheds t t [] where
  length := rfl
  kept := fun _ _ hnode => hnode
  removed := (List.append_nil _).symm
  shed := by simp
  gone := by
    intro id node hnode hnone
    rw [hnode] at hnone
    cases hnone

theorem trans (h : Sheds t t' listed) (h' : Sheds t' t'' listed') :
    Sheds t t'' (listed ++ listed') where
  length := h'.length.trans h.length
  kept := fun id node hnode => h.kept id node (h'.kept id node hnode)
  removed := by rw [h'.removed, h.removed, List.append_assoc]
  shed := by
    intro blockstamp hmem
    rcases List.mem_append.1 hmem with hmem | hmem
    · obtain ⟨id, node, hnode, hnone, hdata⟩ := h.shed blockstamp hmem
      refine ⟨id, node, hnode, ?_, hdata⟩
      cases hsome : t''.node? id with
      | none => rfl
      | some node' =>
          rw [h'.kept id node' hsome] at hnone
          cases hnone
    · obtain ⟨id, node, hnode, hnone, hdata⟩ := h'.shed blockstamp hmem
      exact ⟨id, node, h.kept id node hnode, hnone, hdata⟩
  gone := by
    intro id node hnode hnone
    cases hmid : t'.node? id with
    | none => exact List.mem_append_left _ (h.gone id node hnode hmid)
    | some node' =>
        have hsame := h.kept id node' hmid
        rw [hnode] at hsame
        obtain rfl := Option.some.inj hsame
        exact List.mem_append_right _ (h'.gone id node hmid hnone)

/-- A node shed and a node kept that carry the same blockstamp are two nodes. -/
theorem not_carries (h : Sheds t t' listed)
    (hunique : ∀ id id' node node', t.node? id = some node → t'.node? id = none →
      t.node? id' = some node' → node.data = node'.data → id = id') :
    ∀ blockstamp ∈ listed, ¬ t'.Carries blockstamp := by
  rintro blockstamp hmem ⟨id', node', hnode', hdata'⟩
  obtain ⟨id, node, hnode, hnone, hdata⟩ := h.shed blockstamp hmem
  obtain rfl := hunique id id' node node' hnode hnone (h.kept id' node' hnode')
    (hdata.trans hdata'.symm)
  rw [hnode'] at hnone
  cases hnone

/-- What is not listed is still carried. -/
theorem carries_of_not_mem (h : Sheds t t' listed) {blockstamp : Blockstamp}
    (hcarries : t.Carries blockstamp) (hnot : blockstamp ∉ listed) : t'.Carries blockstamp := by
  obtain ⟨id, node, hnode, hdata⟩ := hcarries
  cases hsome : t'.node? id with
  | none => exact absurd (hdata ▸ h.gone id node hnode hsome) hnot
  | some node' =>
      have hsame := h.kept id node' hsome
      rw [hnode] at hsame
      obtain rfl := Option.some.inj hsame
      exact ⟨id, node, hsome, hdata⟩

/-- What is carried after the removal is what was carried before and is not listed, when nothing
listed is carried any more. -/
theorem carries_iff (h : Sheds t t' listed)
    (hlisted : ∀ blockstamp ∈ listed, ¬ t'.Carries blockstamp) (blockstamp : Blockstamp) :
    t'.Carries blockstamp ↔ t.Carries blockstamp ∧ blockstamp ∉ listed := by
  constructor
  · intro hcarries
    refine ⟨?_, fun hmem => hlisted blockstamp hmem hcarries⟩
    obtain ⟨id, node, hnode, hdata⟩ := hcarries
    exact ⟨id, node, h.kept id node hnode, hdata⟩
  · rintro ⟨hcarries, hnot⟩
    exact h.carries_of_not_mem hcarries hnot

end Sheds

/-- A pruning sheds nodes, all of which it may remove. -/
theorem Prunes.sheds {rootId mainChildId : TreeNodeId} {rootNode : TreeNode}
    {ids : List TreeNodeId} (h : Prunes t rootId rootNode mainChildId ids t') :
    Sheds t t' (rootNode.data :: t.blockstampsOf ids) ∧
      ∀ id node, t.node? id = some node → t'.node? id = none → t.ToPrune id := by
  have hgone : ∀ id node, t.node? id = some node → t'.node? id = none →
      id = rootId ∨ id ∈ ids := by
    intro id node hnode hnone
    by_contra hkept
    rw [h.node?, if_neg hkept, hnode] at hnone
    cases hnone
  refine ⟨{
    length := h.length
    kept := fun id node hnode => (h.node?_of_some hnode).1
    removed := h.removed
    shed := ?_
    gone := ?_ }, ?_⟩
  · intro blockstamp hmem
    rcases List.mem_cons.1 hmem with rfl | hmem
    · exact ⟨rootId, rootNode, h.oldRootNode, by rw [h.node?, if_pos (.inl rfl)], rfl⟩
    · obtain ⟨id, node, hid, hnode, hdata⟩ := mem_blockstampsOf.1 hmem
      exact ⟨id, node, hnode, by rw [h.node?, if_pos (.inr hid)], hdata⟩
  · intro id node hnode hnone
    rcases hgone id node hnode hnone with rfl | hid
    · rw [h.oldRootNode] at hnode
      obtain rfl := Option.some.inj hnode
      exact List.mem_cons_self
    · exact List.mem_cons_of_mem _ (mem_blockstampsOf.2 ⟨id, node, hid, hnode, rfl⟩)
  · intro id node hnode hnone
    refine ⟨rootId, rootNode, h.oldRoot, h.oldRootNode, ?_⟩
    rcases hgone id node hnode hnone with hid | hid
    · exact .inl hid
    · obtain ⟨c, hc, hne, hpath⟩ := h.below id hid
      exact .inr ⟨c, hc, fun hmain => hne (Option.some.inj (hmain.symm.trans h.mainChild)), hpath⟩

/-! ## Nodes placed by insertions -/

theorem carries_withSheet_iff {blockstamp : Blockstamp} :
    (t.withSheet id).Carries blockstamp ↔ t.Carries blockstamp := Iff.rfl

theorem carries_withChild_iff {p : TreeNodeId} {parent : TreeNode} (hp : t.node? p = some parent)
    (data blockstamp : Blockstamp) :
    (t.withChild data p parent).Carries blockstamp ↔
      blockstamp = data ∨ t.Carries blockstamp := by
  have hplt : p < t.nodes.length := lt_length_of_node? hp
  simp only [Carries, withChild_node? _ _ _ hplt]
  constructor
  · rintro ⟨id, node, hnode, rfl⟩
    split at hnode
    · obtain rfl := Option.some.inj hnode
      exact .inr ⟨p, parent, hp, rfl⟩
    · split at hnode
      · obtain rfl := Option.some.inj hnode
        exact .inl rfl
      · exact .inr ⟨id, node, hnode, rfl⟩
  · rintro (rfl | ⟨id, node, hnode, rfl⟩)
    · exact ⟨t.nodes.length, _, by rw [if_neg (Nat.ne_of_gt hplt), if_pos rfl], rfl⟩
    · by_cases hid : id = p
      · subst hid
        rw [hp] at hnode
        obtain rfl := Option.some.inj hnode
        exact ⟨id, _, if_pos rfl, rfl⟩
      · have hne : id ≠ t.nodes.length := Nat.ne_of_lt (lt_length_of_node? hnode)
        exact ⟨id, node, by rw [if_neg hid, if_neg hne, hnode], rfl⟩

theorem carries_withRoot_iff (t : ForkTree) (data blockstamp : Blockstamp) :
    (t.withRoot data).Carries blockstamp ↔ blockstamp = data ∨ t.Carries blockstamp := by
  simp only [Carries, withRoot_node?]
  constructor
  · rintro ⟨id, node, hnode, rfl⟩
    split at hnode
    · obtain rfl := Option.some.inj hnode
      exact .inl rfl
    · exact .inr ⟨id, node, hnode, rfl⟩
  · rintro (rfl | ⟨id, node, hnode, rfl⟩)
    · exact ⟨t.nodes.length, _, if_pos rfl, rfl⟩
    · have hne : id ≠ t.nodes.length := Nat.ne_of_lt (lt_length_of_node? hnode)
      exact ⟨id, node, by rw [if_neg hne, hnode], rfl⟩

namespace PlacesHead

variable {blockstamp : Blockstamp} {base : ForkTree}

theorem carries_iff (h : PlacesHead t blockstamp base) (b : Blockstamp) :
    base.Carries b ↔ b = blockstamp ∨ t.Carries b := by
  cases h with
  | root _ _ => exact carries_withRoot_iff t blockstamp b
  | child _ _ _ hp => exact carries_withChild_iff hp blockstamp b

theorem removedBlockstamps (h : PlacesHead t blockstamp base) : base.removedBlockstamps = [] := by
  cases h <;> rfl

theorem mainBranch (h : PlacesHead t blockstamp base) : base.mainBranch = t.mainBranch := by
  cases h <;> rfl

theorem length (h : PlacesHead t blockstamp base) :
    base.nodes.length = t.nodes.length + 1 := by
  cases h <;> simp

end PlacesHead

/-- The main branch of a placed head sheds the nodes of the pruning, if there is one. -/
theorem ExtendsMain.sheds {base ended : ForkTree} {blockId : BlockNumber}
    (h : ExtendsMain base blockId id ended) :
    ∃ listed, Sheds base ended listed ∧
      (∀ i node, base.node? i = some node → ended.node? i = none →
        forkWindowSize < (base.mainBranch.insert blockId id).len ∧
        (base.withMain blockId id).ToPrune i) ∧
      ∀ k i, ended.mainBranch.get? k = some i → i = id ∨ base.mainBranch.get? k = some i := by
  have hmain : ∀ k i, (base.mainBranch.insert blockId id).get? k = some i →
      i = id ∨ base.mainBranch.get? k = some i := by
    intro k i hi
    rw [HashMap.get?_insert] at hi
    split at hi
    · exact .inl (Option.some.inj hi).symm
    · exact .inr hi
  cases h with
  | within _ =>
      have hsame := Sheds.refl (base.withMain blockId id)
      refine ⟨[], ⟨hsame.length, hsame.kept, hsame.removed, hsame.shed, hsame.gone⟩,
        fun i node hnode hnone => ?_, hmain⟩
      rw [withMain_node?, hnode] at hnone
      cases hnone
  | pruned hlen hprunes =>
      obtain ⟨hsheds, hto⟩ := hprunes.sheds
      refine ⟨_, ⟨hsheds.length, hsheds.kept, hsheds.removed, hsheds.shed, hsheds.gone⟩,
        fun i node hnode hnone => ⟨hlen, hto i node hnode hnone⟩, fun k i hi => ?_⟩
      rw [hprunes.mainBranch, withMain_mainBranch, HashMap.get?_remove] at hi
      split at hi
      · cases hi
      · exact hmain k i hi

/-! ## Branches -/

/-- Every block of a branch is carried by the tree. -/
theorem carries_of_getForkBranch {branch : List Blockstamp} (h : t.getForkBranch id = .ok branch) :
    ∀ blockstamp ∈ branch, t.Carries blockstamp := by
  simp only [getForkBranch, bind_eq_ok_iff, getRefNode_eq_ok_iff, pure_eq_ok_iff] at h
  obtain ⟨node, hnode, above, habove, rfl⟩ := h
  intro blockstamp hmem
  rcases List.mem_cons.1 (List.mem_reverse.1 hmem) with rfl | hmem
  · exact ⟨id, node, hnode, rfl⟩
  · obtain ⟨entry, hentry, rfl⟩ := List.mem_map.1 hmem
    cases hparent : node.parent with
    | none =>
        rw [climbAbove, hparent, pure_eq_ok_iff] at habove
        subst habove
        cases hentry
    | some p =>
        rw [climbAbove, hparent] at habove
        exact ⟨entry.1, entry.2, ((offMainPath_of_climb habove).mem hentry).1, rfl⟩

/-! ## Changes of the main branch -/

/-- Selecting a live node changes the main branch, and prunes the tree only when the node is above
the old current block. -/
theorem selectNode_ok {oldCurrent : Blockstamp} (h : selectNode oldCurrent t id = .ok t') :
    ∃ node, t.node? id = some node ∧
      ((node.data.id ≤ oldCurrent.id ∧ t' = t.withMain node.data.id id) ∨
        (oldCurrent.id < node.data.id ∧ ∃ rootId rootNode mainChildId ids,
          Prunes (t.withMain node.data.id id) rootId rootNode mainChildId ids t')) := by
  simp only [selectNode, bind_eq_ok_iff, expect_eq_ok_iff] at h
  obtain ⟨slot, hslot, node, rfl, h⟩ := h
  refine ⟨node, node?_eq_some_iff.2 hslot, ?_⟩
  split at h
  case isTrue habove => exact .inr ⟨habove, pruning_prunes h⟩
  case isFalse hbelow =>
    rw [pure_eq_ok_iff] at h
    exact .inl ⟨Nat.not_lt.1 hbelow, h.symm⟩

/-- Cutting the main branch only drops entries of it. -/
theorem cutMainBranch_ok {newCurrent : Blockstamp} {branch : List TreeNodeId}
    (h : t.cutMainBranch newCurrent branch = .ok t') :
    ∃ ks, t' = { t with mainBranch := t.mainBranch.removeAll ks } := by
  cases branch with
  | nil =>
      rw [cutMainBranch, pure_eq_ok_iff] at h
      exact ⟨[], h.symm⟩
  | cons first branch =>
      simp only [cutMainBranch, bind_eq_ok_iff, pure_eq_ok_iff] at h
      obtain ⟨-, -, -, -, rfl⟩ := h
      exact ⟨_, rfl⟩

/-- A change of the main branch sheds the nodes of its prunings, none when no selected block is
above the old current block. -/
theorem changeMainBranch_sheds {oldCurrent newCurrent : Blockstamp}
    (hmain : ∀ k id, t.mainBranch.get? k = some id → id < t.nodes.length)
    (h : t.changeMainBranch oldCurrent newCurrent = .ok t') :
    ∃ target branch listed, t.findNodeWithBlockstamp newCurrent = some target ∧
      t.getForkBranchNodesIds target = .ok branch ∧ Sheds t t' listed ∧
      (∀ k id, t'.mainBranch.get? k = some id → id < t'.nodes.length) ∧
      ((∀ id ∈ branch, ∀ node, t.node? id = some node → node.data.id ≤ oldCurrent.id) →
        listed = []) := by
  simp only [changeMainBranch, bind_eq_ok_iff, expect_eq_ok_iff] at h
  obtain ⟨target, htarget, branch, hbranch, cut, hcut, hselect⟩ := h
  obtain ⟨ks, rfl⟩ := cutMainBranch_ok hcut
  -- Both cuts leave a part of the main branch and everything else.
  generalize hcut' : (if oldCurrent.id > newCurrent.id then _ else _ : ForkTree) = cut' at hselect
  obtain ⟨main, rfl, hsub⟩ : ∃ main, cut' = { t with mainBranch := main } ∧
      ∀ k id, main.get? k = some id → t.mainBranch.get? k = some id := by
    split at hcut'
    all_goals
      subst hcut'
      refine ⟨_, rfl, fun k id hid => ?_⟩
      simp only [HashMap.get?_removeAll] at hid
      grind
  have hstart := Sheds.refl { t with mainBranch := main }
  refine ⟨target, branch, ?_⟩
  have hrun : ∃ listed, Sheds t t' listed ∧
      (∀ k id, t'.mainBranch.get? k = some id → id < t'.nodes.length) ∧
      ((∀ id ∈ branch, ∀ node, t.node? id = some node → node.data.id ≤ oldCurrent.id) →
        listed = []) := by
    refine foldlM_preserves (P := fun mid => ∃ listed, Sheds t mid listed ∧
      (∀ k id, mid.mainBranch.get? k = some id → id < mid.nodes.length) ∧
      ((∀ id ∈ branch, ∀ node, t.node? id = some node → node.data.id ≤ oldCurrent.id) →
        listed = [])) ?_ ⟨[], ⟨hstart.length, hstart.kept, hstart.removed, hstart.shed, hstart.gone⟩,
          fun k id hid => hmain k id (hsub k id hid), fun _ => rfl⟩ hselect
    rintro mid id mid' hid ⟨listed, hsheds, hmainMid, hnone⟩ hstep
    obtain ⟨node, hnode, hcases⟩ := selectNode_ok hstep
    have hlt : id < mid.nodes.length := lt_length_of_node? hnode
    have hmainInsert : ∀ k i, (mid.withMain node.data.id id).mainBranch.get? k = some i →
        i < mid.nodes.length := by
      intro k i hi
      rw [withMain_mainBranch, HashMap.get?_insert] at hi
      split at hi
      · obtain rfl := Option.some.inj hi
        exact hlt
      · exact hmainMid k i hi
    rcases hcases with ⟨-, rfl⟩ | ⟨habove, rootId, rootNode, mainChildId, ids, hprunes⟩
    · exact ⟨listed, ⟨hsheds.length, hsheds.kept, hsheds.removed, hsheds.shed, hsheds.gone⟩,
        hmainInsert, hnone⟩
    · obtain ⟨hshed, -⟩ := hprunes.sheds
      have hshed' : Sheds mid mid' _ :=
        ⟨hshed.length, hshed.kept, hshed.removed, hshed.shed, hshed.gone⟩
      refine ⟨_, hsheds.trans hshed', fun k i hi => ?_, fun hbelow => ?_⟩
      · rw [hprunes.length, withMain_nodes]
        rw [hprunes.mainBranch, HashMap.get?_remove] at hi
        split at hi
        · cases hi
        · exact hmainInsert k i hi
      · have hle := hbelow id hid node (hsheds.kept id node hnode)
        exact absurd habove (Nat.not_lt.2 hle)
  obtain ⟨listed, hsheds, hmain', hnone⟩ := hrun
  exact ⟨listed, htarget, hbranch, hsheds, hmain', hnone⟩

end ForkTree

end Durs
