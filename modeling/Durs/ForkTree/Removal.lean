/-
# Removing nodes from the fork tree

Every removal, from one slot to a whole pruning, empties a list of live slots, drops them from the
sheets and appends their blockstamps to the removed ones; all other slots stay as they are.
-/

import Durs.ForkTree.Slots
import Mathlib.Logic.Relation

namespace Durs

open RustStd

namespace ForkTree

/-- The blockstamps of the live nodes among some ids. -/
def blockstampsOf (t : ForkTree) (ids : List TreeNodeId) : List Blockstamp :=
  ids.filterMap fun id => (t.node? id).map TreeNode.data

/-- A live node and one of the children it lists. -/
def ChildOf (t : ForkTree) (p c : TreeNodeId) : Prop :=
  ∃ node, t.node? p = some node ∧ c ∈ node.children

/-- `t'` is `t` with the listed slots removed, each once. -/
structure Removes (t : ForkTree) (ids : List TreeNodeId) (t' : ForkTree) : Prop where
  root : t'.root = t.root
  mainBranch : t'.mainBranch = t.mainBranch
  length : t'.nodes.length = t.nodes.length
  nodup : ids.Nodup
  live : ∀ id ∈ ids, ∃ node, t.node? id = some node
  node? : ∀ id, t'.node? id = if id ∈ ids then none else t.node? id
  sheets : ∀ id, id ∈ t'.sheets ↔ id ∈ t.sheets ∧ id ∉ ids
  removed : t'.removedBlockstamps = t.removedBlockstamps ++ t.blockstampsOf ids

variable {t t' t'' : ForkTree} {id : TreeNodeId} {ids ids' : List TreeNodeId} {node : TreeNode}

theorem mem_blockstampsOf {blockstamp : Blockstamp} :
    blockstamp ∈ t.blockstampsOf ids ↔
      ∃ id node, id ∈ ids ∧ t.node? id = some node ∧ node.data = blockstamp := by
  simp only [blockstampsOf, List.mem_filterMap, Option.map_eq_some_iff]
  grind

namespace Removes

theorem refl (t : ForkTree) : Removes t [] t where
  root := rfl
  mainBranch := rfl
  length := rfl
  nodup := List.nodup_nil
  live := by simp
  node? := by simp
  sheets := by simp
  removed := by simp [blockstampsOf]

/-- What a second removal removes was still live after the first. -/
theorem not_mem_of_mem (h : Removes t ids t') (h' : Removes t' ids' t'') (hid : id ∈ ids') :
    id ∉ ids := by
  intro hmem
  obtain ⟨node, hnode⟩ := h'.live id hid
  rw [h.node?, if_pos hmem] at hnode
  cases hnode

theorem node?_of_some (h : Removes t ids t') (hnode : t'.node? id = some node) :
    t.node? id = some node := by
  rw [h.node?] at hnode
  grind

/-- What is below a node after a removal was below it before. -/
theorem below (h : Removes t ids t') {c d : TreeNodeId}
    (hbelow : Relation.ReflTransGen t'.ChildOf c d) : Relation.ReflTransGen t.ChildOf c d := by
  refine Relation.ReflTransGen.mono ?_ c d hbelow
  rintro p q ⟨node, hnode, hq⟩
  exact ⟨node, h.node?_of_some hnode, hq⟩

theorem trans (h : Removes t ids t') (h' : Removes t' ids' t'') :
    Removes t (ids ++ ids') t'' where
  root := h'.root.trans h.root
  mainBranch := h'.mainBranch.trans h.mainBranch
  length := h'.length.trans h.length
  nodup := List.nodup_append'.2 ⟨h.nodup, h'.nodup, fun _ hmem hmem' =>
    h.not_mem_of_mem h' hmem' hmem⟩
  live := by
    intro id hid
    rcases List.mem_append.1 hid with hid | hid
    · exact h.live id hid
    · obtain ⟨node, hnode⟩ := h'.live id hid
      rw [h.node?, if_neg (h.not_mem_of_mem h' hid)] at hnode
      exact ⟨node, hnode⟩
  node? := by
    intro id
    rw [h'.node?, h.node?]
    by_cases hid : id ∈ ids <;> by_cases hid' : id ∈ ids' <;> simp [hid, hid']
  sheets := by
    intro id
    rw [h'.sheets, h.sheets, List.mem_append]
    grind
  removed := by
    have hsame : t'.blockstampsOf ids' = t.blockstampsOf ids' := by
      refine List.filterMap_congr fun id hid => ?_
      rw [h.node?, if_neg (h.not_mem_of_mem h' hid)]
    rw [h'.removed, h.removed, hsame, blockstampsOf, blockstampsOf, blockstampsOf,
      List.filterMap_append, List.append_assoc]

end Removes

/-! ## One slot, a list of slots -/

/-- Removing a slot returns exactly on a live node. -/
theorem removeSlot_removes (h : t.removeSlot id = .ok t') : Removes t [id] t' := by
  simp only [removeSlot, bind_eq_ok_iff, expect_eq_ok_iff, pure_eq_ok_iff] at h
  obtain ⟨slot, hslot, node, rfl, rfl⟩ := h
  have hnode : t.node? id = some node := node?_eq_some_iff.2 hslot
  exact {
    root := rfl
    mainBranch := rfl
    length := by simp
    nodup := List.nodup_singleton id
    live := by
      intro i hi
      rw [List.mem_singleton.1 hi]
      exact ⟨node, hnode⟩
    node? := by
      intro i
      simp only [ForkTree.node?, List.getElem?_set, List.mem_singleton]
      grind
    sheets := by
      intro i
      simp only [HashSet.mem_remove, List.mem_singleton]
      grind
    removed := by simp [blockstampsOf, hnode] }

/-- Steps that each remove slots remove slots together, and what holds of the slots each step
removes holds of all of them. -/
theorem foldlM_removes {step : ForkTree → TreeNodeId → Run ForkTree} {l : List TreeNodeId}
    {P : TreeNodeId → Prop}
    (hstep : ∀ mid ids id mid', id ∈ l → Removes t ids mid → step mid id = .ok mid' →
      ∃ ids', Removes mid ids' mid' ∧ ∀ i ∈ ids', P i)
    (h : l.foldlM step t = .ok t') : ∃ ids, Removes t ids t' ∧ ∀ i ∈ ids, P i := by
  refine foldlM_preserves (P := fun mid => ∃ ids, Removes t ids mid ∧ ∀ i ∈ ids, P i) ?_
    ⟨[], .refl t, by simp⟩ h
  rintro mid id mid' hid ⟨ids, hids, hP⟩ hmid
  obtain ⟨ids', hids', hP'⟩ := hstep mid ids id mid' hid hids hmid
  refine ⟨ids ++ ids', hids.trans hids', fun i hi => ?_⟩
  rcases List.mem_append.1 hi with hi | hi
  · exact hP i hi
  · exact hP' i hi

/-! ## Subtrees and pruning -/

/-- Going down from a node stays below it. -/
theorem descendOnlyChildren_below {fuel : Nat} :
    ∀ {id : TreeNodeId} {node last : TreeNode} {idsToRm ids : List TreeNodeId},
      t.node? id = some node → t.descendOnlyChildren fuel node idsToRm = .ok (last, ids) →
      (∃ lastId, t.node? lastId = some last ∧ Relation.ReflTransGen t.ChildOf id lastId) ∧
      ∀ i ∈ ids, i ∈ idsToRm ∨ Relation.ReflTransGen t.ChildOf id i := by
  induction fuel with
  | zero =>
      intro id node last idsToRm ids hnode h
      cases h
  | succ fuel ih =>
      intro id node last idsToRm ids hnode h
      rw [descendOnlyChildren] at h
      split at h
      case h_1 =>
        simp only [pure_eq_ok_iff, Prod.mk.injEq] at h
        obtain ⟨rfl, rfl⟩ := h
        exact ⟨⟨id, hnode, .refl⟩, fun i hi => .inl hi⟩
      case h_2 childId hchildren =>
        simp only [bind_eq_ok_iff, getRefNode_eq_ok_iff] at h
        obtain ⟨child, hchild, h⟩ := h
        have hbelow : t.ChildOf id childId := ⟨node, hnode, by simp [hchildren]⟩
        obtain ⟨⟨lastId, hlast, hpath⟩, hids⟩ := ih hchild h
        refine ⟨⟨lastId, hlast, hpath.head hbelow⟩, fun i hi => ?_⟩
        rcases hids i hi with hi | hpath
        · rcases List.mem_append.1 hi with hi | hi
          · exact .inl hi
          · rw [List.mem_singleton.1 hi]
            exact .inr (.single hbelow)
        · exact .inr (hpath.head hbelow)
      case h_3 =>
        simp only [pure_eq_ok_iff, Prod.mk.injEq] at h
        obtain ⟨rfl, rfl⟩ := h
        exact ⟨⟨id, hnode, .refl⟩, fun i hi => .inl hi⟩

/-- Removing what is below a node only removes slots below it. -/
theorem removeNodeChildren_removes {fuel : Nat} :
    ∀ {t t' : ForkTree} {id : TreeNodeId}, removeNodeChildren fuel t id = .ok t' →
      ∃ ids, Removes t ids t' ∧ ∀ i ∈ ids, Relation.ReflTransGen t.ChildOf id i := by
  induction fuel with
  | zero =>
      intro t t' id h
      cases h
  | succ fuel ih =>
      intro t t' id h
      simp only [removeNodeChildren, bind_eq_ok_iff, getRefNode_eq_ok_iff] at h
      obtain ⟨node, hnode, ⟨last, idsToRm⟩, hdescend, mid, hmid, hrest⟩ := h
      obtain ⟨⟨lastId, hlast, hpath⟩, hidsToRm⟩ := descendOnlyChildren_below hnode hdescend
      obtain ⟨ids, hids, hbelow⟩ :=
        foldlM_removes (P := fun i => Relation.ReflTransGen t.ChildOf id i)
          (fun mid ids c mid' hc hmid hstep => by
            obtain ⟨ids', hids', hbelow⟩ := ih hstep
            exact ⟨ids', hids', fun i hi =>
              (hpath.tail ⟨last, hlast, hc⟩).trans (hmid.below (hbelow i hi))⟩) hmid
      obtain ⟨ids', hids', hbelow'⟩ :=
        foldlM_removes (P := fun i => Relation.ReflTransGen t.ChildOf id i)
          (fun mid ids c mid' hc hmid hstep => ⟨[c], removeSlot_removes hstep, fun i hi => by
            rw [List.mem_singleton.1 hi]
            exact (hidsToRm c hc).resolve_left List.not_mem_nil⟩) hrest
      refine ⟨ids ++ ids', hids.trans hids', fun i hi => ?_⟩
      rcases List.mem_append.1 hi with hi | hi
      · exact hbelow i hi
      · exact hbelow' i hi

theorem removeChildOfRoot_removes (h : t.removeChildOfRoot id = .ok t') :
    ∃ ids, Removes t ids t' ∧ ∀ i ∈ ids, Relation.ReflTransGen t.ChildOf id i := by
  simp only [removeChildOfRoot, bind_eq_ok_iff] at h
  obtain ⟨mid, hmid, hslot⟩ := h
  obtain ⟨ids, hids, hbelow⟩ := removeNodeChildren_removes hmid
  refine ⟨ids ++ [id], hids.trans (removeSlot_removes hslot), fun i hi => ?_⟩
  rcases List.mem_append.1 hi with hi | hi
  · exact hbelow i hi
  · rw [List.mem_singleton.1 hi]

/-- What a pruning does: the root leaves the tree and the main branch, some slots below its other
children are removed, and the block that follows the root on the main branch becomes the root.  The
old root stays in the sheets if it was there. -/
structure Prunes (t : ForkTree) (rootId : TreeNodeId) (rootNode : TreeNode) (mainChildId : TreeNodeId)
    (ids : List TreeNodeId) (t' : ForkTree) : Prop where
  oldRoot : t.root = some rootId
  oldRootNode : t.node? rootId = some rootNode
  mainChild : t.mainBranch.get? (rootNode.data.id + 1) = some mainChildId
  root : t'.root = some mainChildId
  mainBranch : t'.mainBranch = t.mainBranch.remove rootNode.data.id
  length : t'.nodes.length = t.nodes.length
  nodup : ids.Nodup
  live : ∀ id ∈ ids, ∃ node, t.node? id = some node
  below : ∀ id ∈ ids, ∃ c ∈ rootNode.children, c ≠ mainChildId ∧
    Relation.ReflTransGen t.ChildOf c id
  node? : ∀ id, t'.node? id = if id = rootId ∨ id ∈ ids then none else t.node? id
  sheets : ∀ id, id ∈ t'.sheets ↔ id ∈ t.sheets ∧ id ∉ ids
  removed : t'.removedBlockstamps = t.removedBlockstamps ++ rootNode.data :: t.blockstampsOf ids

/-- A pruning that returns does that. -/
theorem pruning_prunes (h : t.pruning = .ok t') :
    ∃ rootId root mainChildId ids, Prunes t rootId root mainChildId ids t' := by
  simp only [pruning, bind_eq_ok_iff, expect_eq_ok_iff, getNode_eq_ok_iff, pure_eq_ok_iff] at h
  obtain ⟨rootId, hroot, root, hnode, mainChildId, hmain, mid, hmid, rfl⟩ := h
  obtain ⟨ids, hids, hbelow⟩ :=
    foldlM_removes (P := fun i => ∃ c ∈ root.children, c ≠ mainChildId ∧
        Relation.ReflTransGen t.ChildOf c i)
      (fun mid ids c mid' hc hmid hstep => by
        obtain ⟨ids', hids', hbelow⟩ := removeChildOfRoot_removes hstep
        obtain ⟨hchild, hne⟩ := List.mem_filter.1 hc
        exact ⟨ids', hids', fun i hi =>
          ⟨c, hchild, by simpa using hne, hmid.below (hbelow i hi)⟩⟩) hmid
  refine ⟨rootId, root, mainChildId, ids, {
    oldRoot := hroot
    oldRootNode := hnode
    mainChild := ?_
    root := rfl
    mainBranch := hids.mainBranch
    length := ?_
    nodup := hids.nodup
    live := hids.live
    below := hbelow
    node? := ?_
    sheets := hids.sheets
    removed := ?_ }⟩
  · rw [HashMap.get?_remove_of_ne _ (Nat.succ_ne_self _)] at hmain
    exact hmain
  · simpa using hids.length
  · intro id
    have hmidNode := hids.node? id
    have hlength := hids.length
    have hlt := lt_length_of_node? hnode
    simp only [ForkTree.node?, List.getElem?_set] at hmidNode ⊢
    grind
  · have hremoved := hids.removed
    rw [List.append_assoc] at hremoved
    exact hremoved

/-- No pruning creates or changes a node. -/
theorem Prunes.node?_of_some {rootId mainChildId : TreeNodeId} {root : TreeNode}
    (h : Prunes t rootId root mainChildId ids t') (hnode : t'.node? id = some node) :
    t.node? id = some node ∧ id ≠ rootId ∧ id ∉ ids := by
  rw [h.node?] at hnode
  grind

end ForkTree

end Durs
