/-
# Reuse of the slots

Whether the slots that removed nodes have left are used again.  They never are: each insertion takes
a new last slot, so the slots are no more than needed exactly when none is vacant at an insertion.
-/

import Durs.ForkTree.Growth
import Durs.ForkTree.Removal

namespace Durs

open RustStd Lib

/-- An operation that places or removes nodes. -/
inductive SlotOp
  /-- `insert_new_node`. -/
  | insert (data : Blockstamp) (parent : Option TreeNodeId) (mainBranch : Bool)
  /-- `pruning`. -/
  | prune
  /-- `change_main_branch`. -/
  | change (oldCurrent newCurrent : Blockstamp)
deriving DecidableEq, Repr

/-- A tree, and the greatest number of nodes that were alive at the same time. -/
structure SlotRun where
  tree : ForkTree
  peak : Nat
deriving DecidableEq

/-- The empty tree. -/
def SlotRun.new : SlotRun := ⟨default, 0⟩

/-- Go on with a tree. -/
def SlotRun.record (run : SlotRun) (t : ForkTree) : SlotRun := ⟨t, max run.peak t.size⟩

/-- Perform an operation.  A new node is alive before the tree is pruned. -/
def SlotOp.apply (run : SlotRun) : SlotOp → Run SlotRun
  | .insert data parent mainBranch => do
      let t ← run.tree.insertNewNode data parent mainBranch
      return (run.record (run.tree.placeNode (TreeNode.new parent data)).1).record t
  | .prune => do
      let t ← run.tree.pruning
      return run.record t
  | .change oldCurrent newCurrent => do
      let t ← run.tree.changeMainBranch oldCurrent newCurrent
      return run.record t

namespace ForkTree

variable {t t' t'' : ForkTree} {node : TreeNode} {id : TreeNodeId}

/-! ## Vacant slots -/

/-- A slot that a removed node has left. -/
def Vacant (t : ForkTree) (id : TreeNodeId) : Prop := t.nodes[id]? = some none

/-- What placing a node should do: it goes to a vacant slot when there is one, never to the slot of
a live node, and the other slots stay as they are. -/
structure ReusesSlots (t : ForkTree) (node : TreeNode) : Prop where
  reuse : (∃ id, t.Vacant id) → t.Vacant (t.placeNode node).2
  dead : t.node? (t.placeNode node).2 = none
  node? : ∀ id, (t.placeNode node).1.node? id =
    if id = (t.placeNode node).2 then some node else t.node? id

theorem size_eq_length_iff : t.size = t.nodes.length ↔ ∀ id, ¬ t.Vacant id := by
  rw [size, List.countP_eq_length]
  constructor
  · intro h id hvacant
    exact absurd (h none (List.mem_of_getElem? hvacant)) Bool.false_ne_true
  · intro h slot hslot
    obtain ⟨id, hid⟩ := List.mem_iff_getElem?.1 hslot
    cases slot with
    | some node => rfl
    | none => exact absurd hid (h id)

theorem size_le_length (t : ForkTree) : t.size ≤ t.nodes.length := List.countP_le_length

/-- A node is never placed in a vacant slot: it is placed well when there is none. -/
theorem reusesSlots_iff : ReusesSlots t node ↔ ∀ id, ¬ t.Vacant id := by
  constructor
  · intro h id hvacant
    have hplaced := h.reuse ⟨id, hvacant⟩
    rw [Vacant, placeNode_eq, List.getElem?_eq_none (le_refl _)] at hplaced
    cases hplaced
  · intro h
    refine ⟨fun ⟨id, hvacant⟩ => absurd hvacant (h id), ?_, fun id => ?_⟩
    · rw [placeNode_eq, node?, List.getElem?_eq_none (le_refl _)]
      rfl
    · rw [placeNode_eq]
      simp only [ForkTree.node?, List.getElem?_append]
      grind

/-! ## Trees that lose nodes -/

/-- `t'` has the slots of `t`, and no live node where `t` has none. -/
structure Shrinks (t t' : ForkTree) : Prop where
  length : t'.nodes.length = t.nodes.length
  live : ∀ id, (t.node? id).isNone → (t'.node? id).isNone

namespace Shrinks

theorem refl (t : ForkTree) : Shrinks t t := ⟨rfl, fun _ hnone => hnone⟩

theorem trans (h : Shrinks t t') (h' : Shrinks t' t'') : Shrinks t t'' :=
  ⟨h'.length.trans h.length, fun id hnone => h'.live id (h.live id hnone)⟩

theorem of_nodes (h : t'.nodes = t.nodes) : Shrinks t t' :=
  ⟨congrArg List.length h, fun id hnone => by rw [node?, h]; exact hnone⟩

/-- The slots of a tree are read one by one. -/
theorem size_eq (t : ForkTree) :
    t.size = (List.range t.nodes.length).countP fun id => (t.node? id).isSome := by
  have hnodes : t.nodes = (List.range t.nodes.length).map t.node? := by
    refine List.ext_getElem? fun id => ?_
    rw [List.getElem?_map]
    by_cases hid : id < t.nodes.length
    · rw [List.getElem?_range hid, List.getElem?_eq_getElem hid, Option.map_some, node?,
        List.getElem?_eq_getElem hid, Option.join_some]
    · rw [List.getElem?_eq_none (Nat.le_of_not_lt hid),
        List.getElem?_eq_none (by rw [List.length_range]; exact Nat.le_of_not_lt hid)]
      rfl
  rw [size]
  nth_rewrite 1 [hnodes]
  rw [List.countP_map]
  rfl

theorem size_le (h : Shrinks t t') : t'.size ≤ t.size := by
  rw [size_eq, size_eq, h.length]
  refine List.countP_mono_left fun id _ hlive => ?_
  cases hnode : t.node? id with
  | some node => rfl
  | none =>
      have hnone := h.live id (by rw [hnode]; rfl)
      rw [Option.isNone_iff_eq_none.1 hnone] at hlive
      cases hlive

theorem of_pruning (h : t.pruning = .ok t') : Shrinks t t' := by
  obtain ⟨rootId, root, mainChildId, ids, hprunes⟩ := pruning_prunes h
  refine ⟨hprunes.length, fun id hnone => ?_⟩
  rw [hprunes.node?]
  split
  · rfl
  · exact hnone

theorem of_extendMainBranch {blockId : BlockNumber} (h : t.extendMainBranch blockId id = .ok t') :
    Shrinks t t' := by
  have hmain : Shrinks t { t with mainBranch := t.mainBranch.insert blockId id } := of_nodes rfl
  rw [extendMainBranch] at h
  simp only at h
  split at h
  case isTrue => exact hmain.trans (of_pruning h)
  case isFalse =>
    obtain rfl := Except.ok.inj h
    exact hmain

/-- A link changes what a live node holds, and no more. -/
theorem of_linkNode {newNodeId : TreeNodeId} {parent : Option TreeNodeId}
    (h : t.linkNode newNodeId parent = .ok t') : Shrinks t t' := by
  cases parent with
  | some p =>
      simp only [linkNode, bind_eq_ok_iff, getRefNode_eq_ok_iff, dropSheet_eq,
        pure_eq_ok_iff] at h
      obtain ⟨parent, hparent, rfl⟩ := h
      have hlive : t.node? p = some parent := hparent
      refine ⟨List.length_set, fun id hnone => ?_⟩
      have hne : p ≠ id := by
        rintro rfl
        rw [hlive] at hnone
        cases hnone
      rw [node?, List.getElem?_set_ne hne]
      exact hnone
  | none =>
      rw [linkNode] at h
      split at h
      case isTrue =>
        obtain rfl := Except.ok.inj h
        exact of_nodes rfl
      case isFalse => cases h

theorem of_selectNode {oldCurrent : Blockstamp} (h : selectNode oldCurrent t id = .ok t') :
    Shrinks t t' := by
  simp only [selectNode, bind_eq_ok_iff, expect_eq_ok_iff] at h
  obtain ⟨slot, -, node, -, h⟩ := h
  have hmain : Shrinks t { t with mainBranch := t.mainBranch.insert node.data.id id } :=
    of_nodes rfl
  split at h
  case isTrue => exact hmain.trans (of_pruning h)
  case isFalse =>
    obtain rfl := Except.ok.inj h
    exact hmain

theorem of_cutMainBranch {newCurrent : Blockstamp} {branch : List TreeNodeId}
    (h : t.cutMainBranch newCurrent branch = .ok t') : Shrinks t t' := by
  cases branch with
  | nil =>
      obtain rfl := Except.ok.inj h
      exact refl t
  | cons firstId branch =>
      simp only [cutMainBranch, bind_eq_ok_iff, expect_eq_ok_iff, pure_eq_ok_iff] at h
      obtain ⟨slot, -, node, -, rfl⟩ := h
      exact of_nodes rfl

theorem of_changeMainBranch {oldCurrent newCurrent : Blockstamp}
    (h : t.changeMainBranch oldCurrent newCurrent = .ok t') : Shrinks t t' := by
  simp only [changeMainBranch, bind_eq_ok_iff, expect_eq_ok_iff] at h
  obtain ⟨target, -, branch, -, cut, hcut, h⟩ := h
  refine (of_cutMainBranch hcut).trans ?_
  refine foldlM_preserves (P := Shrinks cut) ?_ ?_ h
  · intro mid id mid' _ hmid hselect
    exact hmid.trans (of_selectNode hselect)
  · split
    · exact of_nodes rfl
    · exact refl cut

end Shrinks

/-- An insertion adds one slot, and at most one live node. -/
theorem insertNewNode_shrinks {data : Blockstamp} {parent : Option TreeNodeId} {mainBranch : Bool}
    (h : t.insertNewNode data parent mainBranch = .ok t') :
    Shrinks (t.placeNode (TreeNode.new parent data)).1 t' := by
  rw [insertNewNode] at h
  cases mainBranch with
  | true =>
      simp only [if_true, bind_eq_ok_iff, pure_eq_ok_iff] at h
      obtain ⟨linked, hlinked, extended, hextended, rfl⟩ := h
      have hcleared : Shrinks linked { linked with removedBlockstamps := [] } := .of_nodes rfl
      refine (Shrinks.of_linkNode hlinked).trans (hcleared.trans ?_)
      exact (Shrinks.of_extendMainBranch hextended).trans (.of_nodes rfl)
  | false =>
      simp only [Bool.false_eq_true, if_false, bind_eq_ok_iff, pure_bind, pure_eq_ok_iff] at h
      obtain ⟨linked, hlinked, rfl⟩ := h
      exact (Shrinks.of_linkNode hlinked).trans (.of_nodes rfl)

theorem placeNode_length (t : ForkTree) (node : TreeNode) :
    (t.placeNode node).1.nodes.length = t.nodes.length + 1 := by
  rw [placeNode_eq]
  exact List.length_append

theorem placeNode_size (t : ForkTree) (node : TreeNode) :
    (t.placeNode node).1.size = t.size + 1 := by
  rw [placeNode_eq, size, List.countP_append]
  rfl

end ForkTree

variable {run run' : SlotRun} {op : SlotOp} {ops : List SlotOp}

/-! ## Steps -/

/-- How many nodes an operation places. -/
def SlotOp.placed : SlotOp → Nat
  | .insert _ _ _ => 1
  | .prune | .change _ _ => 0

/-- If the operation places a node, no slot is vacant. -/
def SlotOp.FindsFull (run : SlotRun) : SlotOp → Prop
  | .insert _ _ _ => ∀ id, ¬ run.tree.Vacant id
  | .prune | .change _ _ => True

instance SlotOp.FindsFull.decidable (run : SlotRun) : ∀ op : SlotOp, Decidable (op.FindsFull run)
  | .insert _ _ _ => decidable_of_iff _ ForkTree.size_eq_length_iff
  | .prune | .change _ _ => isTrue trivial

/-- If the operation places a node, it places it well. -/
def SlotOp.PlacesWell (run : SlotRun) : SlotOp → Prop
  | .insert data parent _ => run.tree.ReusesSlots (TreeNode.new parent data)
  | .prune | .change _ _ => True

theorem SlotOp.placesWell_iff : op.PlacesWell run ↔ op.FindsFull run := by
  cases op with
  | insert data parent mainBranch => exact ForkTree.reusesSlots_iff
  | prune => exact Iff.rfl
  | change oldCurrent newCurrent => exact Iff.rfl

/-- What one operation does to the slots, the live nodes and the peak. -/
structure SlotStep (run : SlotRun) (op : SlotOp) (run' : SlotRun) : Prop where
  length : run'.tree.nodes.length = run.tree.nodes.length + op.placed
  size : run'.tree.size ≤ run'.peak
  peak : run'.peak = max run.peak (run.tree.size + op.placed)

theorem SlotOp.apply_ok (hsize : run.tree.size ≤ run.peak) (h : op.apply run = .ok run') :
    SlotStep run op run' := by
  have hrecord {t : ForkTree} (hshrinks : ForkTree.Shrinks run.tree t) :
      SlotStep run .prune (run.record t) := by
    have hle := hshrinks.size_le
    refine ⟨hshrinks.length, le_max_right _ _, ?_⟩
    rw [SlotRun.record, SlotOp.placed, Nat.add_zero]
    simp only
    omega
  cases op with
  | insert data parent mainBranch =>
      simp only [SlotOp.apply, bind_eq_ok_iff, pure_eq_ok_iff] at h
      obtain ⟨t, hinsert, rfl⟩ := h
      have hshrinks := ForkTree.insertNewNode_shrinks hinsert
      have hle := hshrinks.size_le
      refine ⟨hshrinks.length.trans (ForkTree.placeNode_length _ _), le_max_right _ _, ?_⟩
      rw [ForkTree.placeNode_size] at hle
      rw [SlotRun.record, SlotRun.record, ForkTree.placeNode_size, SlotOp.placed]
      exact max_eq_left (le_trans hle (le_max_right _ _))
  | prune =>
      simp only [SlotOp.apply, bind_eq_ok_iff, pure_eq_ok_iff] at h
      obtain ⟨t, hpruned, rfl⟩ := h
      exact hrecord (.of_pruning hpruned)
  | change oldCurrent newCurrent =>
      simp only [SlotOp.apply, bind_eq_ok_iff, pure_eq_ok_iff] at h
      obtain ⟨t, hchanged, rfl⟩ := h
      have hstep := hrecord (.of_changeMainBranch hchanged)
      exact ⟨hstep.length, hstep.size, hstep.peak⟩

/-- The nodes alive are at most the peak, and the peak at most the slots. -/
structure SlotRun.Bounded (run : SlotRun) : Prop where
  size : run.tree.size ≤ run.peak
  peak : run.peak ≤ run.tree.nodes.length

theorem SlotRun.Bounded.new : SlotRun.new.Bounded := ⟨le_refl 0, le_refl 0⟩

theorem SlotRun.Bounded.step (hbounded : run.Bounded) (h : op.apply run = .ok run') :
    run'.Bounded := by
  have hstep := SlotOp.apply_ok hbounded.size h
  have hsize := run.tree.size_le_length
  have hpeak := hbounded.peak
  refine ⟨hstep.size, ?_⟩
  rw [hstep.peak, hstep.length]
  omega

/-- As long as the slots are no more than the peak, they stay so exactly when no node is placed
while a slot is vacant. -/
theorem SlotRun.Bounded.step_iff (hbounded : run.Bounded)
    (hpeak : run.tree.nodes.length ≤ run.peak) (h : op.apply run = .ok run') :
    run'.tree.nodes.length ≤ run'.peak ↔ op.FindsFull run := by
  have hstep := SlotOp.apply_ok hbounded.size h
  have hsize := run.tree.size_le_length
  have hle := hbounded.peak
  rw [hstep.peak, hstep.length]
  cases op with
  | insert data parent mainBranch =>
      rw [SlotOp.FindsFull, ← ForkTree.size_eq_length_iff, SlotOp.placed]
      omega
  | prune =>
      refine iff_of_true ?_ trivial
      rw [SlotOp.placed]
      omega
  | change oldCurrent newCurrent =>
      refine iff_of_true ?_ trivial
      rw [SlotOp.placed]
      omega

/-! ## Runs -/

/-- The slots are as many as the nodes placed: none is given back, and none is used again. -/
theorem SlotRun.Bounded.length_of_run :
    ∀ {run : SlotRun}, run.Bounded → ops.foldlM SlotOp.apply run = .ok run' →
      run'.tree.nodes.length = run.tree.nodes.length + (ops.map SlotOp.placed).sum := by
  induction ops with
  | nil =>
      intro run _ hrun
      obtain rfl := Except.ok.inj hrun
      rfl
  | cons op ops ih =>
      intro run hbounded hrun
      rw [List.foldlM_cons, bind_eq_ok_iff] at hrun
      obtain ⟨mid, hmid, hrun⟩ := hrun
      rw [ih (hbounded.step hmid) hrun, (SlotOp.apply_ok hbounded.size hmid).length, List.map_cons,
        List.sum_cons, Nat.add_assoc]

/-- The slots are never more than the peak exactly when no node is placed while a slot is vacant. -/
theorem length_le_peak_iff (hrun : ops.foldlM SlotOp.apply SlotRun.new = .ok run') :
    (∀ ops' run, ops' <+: ops → ops'.foldlM SlotOp.apply SlotRun.new = .ok run →
      run.tree.nodes.length ≤ run.peak) ↔
    Throughout SlotOp.apply (fun run op => op.FindsFull run) SlotRun.new ops := by
  have hstep : ∀ run op run', (run.Bounded ∧ run.tree.nodes.length ≤ run.peak) →
      SlotOp.apply run op = .ok run' →
      ((run'.Bounded ∧ run'.tree.nodes.length ≤ run'.peak) ↔ op.FindsFull run) := by
    intro run op run' ⟨hbounded, hpeak⟩ h
    rw [← hbounded.step_iff hpeak h]
    exact and_iff_right (hbounded.step h)
  rw [← forall_prefix_iff_throughout hstep ⟨.new, le_refl 0⟩ hrun]
  constructor
  · intro h ops' run hprefix hreached
    refine ⟨?_, h ops' run hprefix hreached⟩
    exact foldlM_preserves (P := SlotRun.Bounded) (fun _ _ _ _ hbounded hmid => hbounded.step hmid)
      .new hreached
  · intro h ops' run hprefix hreached
    exact (h ops' run hprefix hreached).2

/-- In a run from the empty tree, each node is placed well, and the slots are never more than the
greatest number of nodes alive at once, exactly when no node is placed while a slot is vacant. -/
theorem slotsReused_iff (hrun : ops.foldlM SlotOp.apply SlotRun.new = .ok run') :
    ((∀ ops' op run, ops' ++ [op] <+: ops → ops'.foldlM SlotOp.apply SlotRun.new = .ok run →
        op.PlacesWell run) ∧
      ∀ ops' run, ops' <+: ops → ops'.foldlM SlotOp.apply SlotRun.new = .ok run →
        run.tree.nodes.length ≤ run.peak) ↔
    ∀ ops' op run, ops' ++ [op] <+: ops → ops'.foldlM SlotOp.apply SlotRun.new = .ok run →
      op.FindsFull run := by
  rw [length_le_peak_iff hrun, throughout_iff_forall_run]
  simp only [SlotOp.placesWell_iff, and_self]

/-- Two heads, and two fork blocks above the first one, to which the main branch changes. -/
def overtakingSlotOps : List SlotOp :=
  [.insert (ForkTree.mockBlockstamp 0 0) none true,
    .insert (ForkTree.mockBlockstamp 0 1) (some 0) true,
    .insert (ForkTree.mockBlockstamp 1 1) (some 0) false,
    .insert (ForkTree.mockBlockstamp 1 2) (some 2) false,
    .change (ForkTree.mockBlockstamp 0 1) (ForkTree.mockBlockstamp 1 2)]

/-- The slots of these nodes are as many as the nodes. -/
theorem length_overtakingSlotOps :
    ∃ run, overtakingSlotOps.foldlM SlotOp.apply SlotRun.new = .ok run ∧
      run.tree.nodes.length ≤ run.peak := by
  have hreturns : Returns (overtakingSlotOps.foldlM SlotOp.apply SlotRun.new) := by decide
  have hthroughout : Throughout SlotOp.apply (fun run op => op.FindsFull run) SlotRun.new
      overtakingSlotOps := by decide
  obtain ⟨run, hrun⟩ := hreturns
  have hreused := (slotsReused_iff hrun).2 (throughout_iff_forall_run.1 hthroughout)
  exact ⟨run, hrun, hreused.2 _ _ (List.prefix_refl _) hrun⟩

/-- The next head takes a new slot although the change has left two vacant. -/
theorem not_placesWell_overtakingSlotOps :
    ∃ run run', ∃ op : SlotOp, overtakingSlotOps.foldlM SlotOp.apply SlotRun.new = .ok run ∧
      run.tree.nodes[0]? = some none ∧ run.tree.nodes[1]? = some none ∧
      op = .insert (ForkTree.mockBlockstamp 1 3) (some 3) true ∧ ¬ op.PlacesWell run ∧
      op.apply run = .ok run' ∧ run'.tree.nodes.length = 5 ∧ run'.peak = 4 := by
  have hsome : ∃ run ∈ guardedRun SlotOp.apply (fun _ _ => True) overtakingSlotOps SlotRun.new,
      (run.tree.nodes[0]? = some none ∧ run.tree.nodes[1]? = some none) ∧
      ∃ run' ∈ guardedRun SlotOp.apply (fun _ _ => True)
        [SlotOp.insert (ForkTree.mockBlockstamp 1 3) (some 3) true] run,
        run'.tree.nodes.length = 5 ∧ run'.peak = 4 := by decide
  obtain ⟨run, hrun, ⟨hzero, hone⟩, run', hrun', hlength, hpeak⟩ := hsome
  have hlast : List.foldlM SlotOp.apply run [_] = .ok run' := foldlM_of_guardedRun hrun'
  refine ⟨run, run', _, foldlM_of_guardedRun hrun, hzero, hone, rfl, fun h => ?_, ?_, hlength,
    hpeak⟩
  · have hplaced := h.reuse ⟨0, hzero⟩
    rw [ForkTree.placeNode_eq, ForkTree.Vacant, List.getElem?_eq_none (le_refl _)] at hplaced
    cases hplaced
  · simpa using hlast

end Durs
