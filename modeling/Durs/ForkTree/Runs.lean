/-
# Runs of the fork tree

Which operations keep the representation invariant, the invariant over every run of such
operations, and a run of heads that loses it at the edge of the window.
-/

import Durs.ForkTree.Growth
import Durs.ForkTree.Representation

namespace Durs

open RustStd Lib

/-- The operations that keep the representation invariant: a new head takes a fresh blockstamp to
the top of the main branch without outgrowing the window, a fork block that finds its parent is
fresh and not numbered zero, and the main branch changes to a block no higher than the old current
block, which is no lower than any main block, or to a block it already has no lower than the old
current block. -/
def TreeOp.Allowed (t : ForkTree) : TreeOp → Prop
  | .head blockstamp => t.size = 0 ∨
      (t.findNodeWithBlockstamp blockstamp = none ∧
        t.mainBranch.get? (blockstamp.id + 1) = none ∧
        (t.mainBranch.len < forkWindowSize ∨
          (t.mainBranch.len = forkWindowSize ∧ t.mainBranch.containsKey blockstamp.id = true)))
  | .fork blockstamp previousHash =>
      t.findNodeWithBlockstamp ⟨previousBlockNumber blockstamp.id, previousHash⟩ = none ∨
      (blockstamp.id ≠ 0 ∧ t.findNodeWithBlockstamp blockstamp = none)
  | .change oldCurrent newCurrent =>
      ((∀ k ∈ t.mainBranch.keys, k ≤ oldCurrent.id) ∧ newCurrent.id ≤ oldCurrent.id) ∨
      (oldCurrent.id ≤ newCurrent.id ∧
        t.mainBranch.get? newCurrent.id = t.findNodeWithBlockstamp newCurrent)

instance (t : ForkTree) (op : TreeOp) : Decidable (op.Allowed t) :=
  match op with
  | .head _ => inferInstanceAs (Decidable (_ ∨ _))
  | .fork _ _ => inferInstanceAs (Decidable (_ ∨ _))
  | .change _ _ => inferInstanceAs (Decidable ((_ ∧ _) ∨ _))

namespace ForkTree

variable {t t' : ForkTree}

/-! ## One operation -/

theorem TreeInv.mainBranch_lt (h : TreeInv t) :
    ∀ k id, t.mainBranch.get? k = some id → id < t.nodes.length := by
  intro k id hid
  obtain ⟨node, hnode, -⟩ := h.mainLive k id hid
  exact lt_length_of_node? hnode

/-- An allowed head keeps the invariant: there is no pruning. -/
theorem TreeInv.head (h : TreeInv t) {blockstamp : Blockstamp}
    (hallowed : (TreeOp.head blockstamp).Allowed t)
    (hrun : TreeOp.apply t (.head blockstamp) = .ok t') : TreeInv t' := by
  simp only [TreeOp.apply, bind_eq_ok_iff, pure_eq_ok_iff] at hrun
  obtain ⟨⟨t'', removed⟩, hinsert, rfl⟩ := hrun
  obtain ⟨base, ended, hplaces, hextends, rfl, -⟩ := insertNewHeadBlock_ok h.mainBranch_lt hinsert
  cases hplaces with
  | root hroot _ =>
      have hempty : t.mainBranch.len = 0 := by
        refine HashMap.len_eq_zero_of_forall _ fun k => ?_
        cases hk : t.mainBranch.get? k with
        | none => rfl
        | some id =>
            obtain ⟨node, hnode, -⟩ := h.mainLive k id hk
            rw [h.node?_eq_none hroot] at hnode
            cases hnode
      cases hextends with
      | within _ => exact h.withRoot hroot
      | pruned hlen _ =>
          have hfresh : t.mainBranch.get? blockstamp.id = none := by
            cases hk : t.mainBranch.get? blockstamp.id with
            | none => rfl
            | some id =>
                obtain ⟨node, hnode, -⟩ := h.mainLive _ id hk
                rw [h.node?_eq_none hroot] at hnode
                cases hnode
          rw [withRoot_mainBranch, HashMap.len_insert_of_get?_eq_none _ _ hfresh, hempty] at hlen
          exact absurd hlen (by decide)
  | @child p parent hid hsize hp hnode =>
      rcases hallowed with hzero | ⟨hfresh, htop, hwindow⟩
      · omega
      have hnumber : blockstamp.id = parent.data.id + 1 := by
        obtain ⟨node, hnode', hk⟩ := h.mainLive _ _ hp
        rw [hnode] at hnode'
        obtain rfl := Option.some.inj hnode'
        grind
      cases hextends with
      | within _ =>
          have hchild := h.withChild hnode (findNodeWithBlockstamp_eq_none_iff.1 hfresh) hnumber
          have hhead : ((t.withChild blockstamp p parent).withSheet t.nodes.length).node?
              t.nodes.length = some (TreeNode.new (some p) blockstamp) := by
            have hne : t.nodes.length ≠ p := Nat.ne_of_gt (lt_length_of_node? hnode)
            rw [withSheet_node?, withChild_node? _ _ _ (lt_length_of_node? hnode), if_neg hne,
              if_pos rfl]
          refine hchild.withMain hhead rfl ?_ htop
          intro q hq
          obtain rfl := Option.some.inj hq
          exact hp
      | pruned hlen _ =>
          -- A block that replaces another one does not lengthen the main branch.
          rw [withChild_mainBranch] at hlen
          cases hk : t.mainBranch.get? blockstamp.id with
          | none =>
              rw [HashMap.len_insert_of_get?_eq_none _ _ hk] at hlen
              have hkey := (HashMap.containsKey_eq_false_iff _ _).2 hk
              rcases hwindow with hlt | ⟨-, hkey'⟩
              · omega
              · rw [hkey] at hkey'
                cases hkey'
          | some id =>
              rw [HashMap.len_insert_of_get?_eq_some _ _ hk] at hlen
              omega

/-- An allowed fork block keeps the invariant. -/
theorem TreeInv.fork (h : TreeInv t) {blockstamp : Blockstamp} {previousHash : Hash}
    (hallowed : (TreeOp.fork blockstamp previousHash).Allowed t)
    (hrun : TreeOp.apply t (.fork blockstamp previousHash) = .ok t') : TreeInv t' := by
  simp only [TreeOp.apply, bind_eq_ok_iff, pure_eq_ok_iff] at hrun
  obtain ⟨⟨t'', inserted⟩, hinsert, rfl⟩ := hrun
  rcases insertNewForkBlock_ok hinsert with ⟨-, rfl, -⟩ | ⟨-, p, parent, hnode, hfind, hdata, rfl⟩
  · exact h
  · rcases hallowed with hnone | ⟨hid, hfresh⟩
    · rw [hnone] at hfind
      cases hfind
    · refine h.withChild hnode (findNodeWithBlockstamp_eq_none_iff.1 hfresh) ?_
      rw [hdata, previousBlockNumber, if_neg hid]
      grind

/-- A change to a block of the main branch, no lower than the old current block, changes nothing. -/
theorem TreeInv.changeMainBranch_eq_self (h : TreeInv t) {oldCurrent newCurrent : Blockstamp}
    (hle : oldCurrent.id ≤ newCurrent.id)
    (hmain : t.mainBranch.get? newCurrent.id = t.findNodeWithBlockstamp newCurrent)
    (hrun : t.changeMainBranch oldCurrent newCurrent = .ok t') : t' = t := by
  simp only [changeMainBranch, bind_eq_ok_iff, expect_eq_ok_iff] at hrun
  obtain ⟨target, htarget, branch, hbranch, cut, hcut, hselect⟩ := hrun
  obtain ⟨node, hnode, hdata⟩ := node?_of_findNodeWithBlockstamp htarget
  obtain ⟨node', path, hnode', hpath, rfl⟩ := h.getForkBranchNodesIds_ok hbranch
  have hon : t.OnMain node := by
    rw [h.onMain_iff hnode, hdata, hmain, htarget]
  obtain rfl := hpath.unique (.onMain hnode hon)
  simp only [List.reverse_nil, List.map_nil, cutMainBranch, pure_eq_ok_iff] at hcut
  subst hcut
  rw [if_neg (Nat.not_lt.2 hle)] at hselect
  exact (Except.ok.inj hselect).symm

/-- An allowed change of the main branch keeps the invariant. -/
theorem TreeInv.change (h : TreeInv t) {oldCurrent newCurrent : Blockstamp}
    (hallowed : (TreeOp.change oldCurrent newCurrent).Allowed t)
    (hrun : TreeOp.apply t (.change oldCurrent newCurrent) = .ok t') : TreeInv t' := by
  rcases hallowed with ⟨hold, hnew⟩ | ⟨hle, hmain⟩
  swap
  · obtain rfl := h.changeMainBranch_eq_self hle hmain hrun
    exact h
  have hbound : ∀ k id, t.mainBranch.get? k = some id → k ≤ oldCurrent.id :=
    fun k id hid => hold k ((HashMap.mem_keys_iff _ _).2 ⟨id, hid⟩)
  obtain ⟨target, node, path, hnode, hdata, hpath, hchange⟩ :=
    h.changeMainBranch_ok hbound hnew hrun
  exact h.changesMain hnode hdata hpath hchange

/-- An allowed operation that returns keeps the invariant. -/
theorem TreeInv.step (h : TreeInv t) {op : TreeOp} (hallowed : op.Allowed t)
    (hrun : TreeOp.apply t op = .ok t') : TreeInv t' := by
  cases op with
  | head blockstamp => exact h.head hallowed hrun
  | fork blockstamp previousHash => exact h.fork hallowed hrun
  | change oldCurrent newCurrent => exact h.change hallowed hrun

/-! ## Whole runs, whole windows -/

/-- The local invariant holds in every state of a run of allowed operations. -/
theorem treeInv_of_reached (h : Reached default TreeOp.apply (fun t op => op.Allowed t) t) :
    TreeInv t :=
  h.invariant treeInv_default fun _ _ _ hinv hallowed hrun => hinv.step hallowed hrun

/-- An allowed run from the empty tree keeps the local invariant. -/
theorem treeInv_of_foldlM {ops : List TreeOp} {t : ForkTree}
    (hallowed : (guardedRun TreeOp.apply (fun t op => op.Allowed t) ops default).isSome)
    (hrun : ops.foldlM TreeOp.apply default = .ok t) : TreeInv t := by
  obtain ⟨t', hguarded⟩ := Option.isSome_iff_exists.1 hallowed
  have hsame := foldlM_of_guardedRun hguarded
  rw [hrun] at hsame
  obtain rfl := Except.ok.inj hsame
  exact treeInv_of_reached (.of_guardedRun .init hguarded)

/-- A line of heads that fills the window. -/
theorem exists_fullLine : ∃ t p parent, (lineOps 199).foldlM TreeOp.apply default = .ok t ∧
    t.mainBranch.get? 199 = some p ∧ t.node? p = some parent ∧ 3 ≤ p ∧ TreeInv t ∧
    (∀ id node, t.node? id = some node → node.data.id ≤ 199) ∧
    t.mainBranch.get? 200 = none ∧ t.mainBranch.len = forkWindowSize ∧
    t.root = some 0 ∧ t.mainBranch.get? 1 = some 1 ∧
    t.node? 0 = some ⟨none, [1], mockBlockstamp 0 0⟩ ∧
    t.node? 1 = some ⟨some 0, [2], mockBlockstamp 0 1⟩ := by
  obtain ⟨base, hbase, hmain1, hmain2, hlen, hkeys, hids, hroot, hlength, hnode0, hnode1, hnode2⟩ :=
    exists_threeHeads
  have habove : ∀ k > 2, base.mainBranch.get? k = none := by
    intro k hk
    cases hid : base.mainBranch.get? k with
    | none => rfl
    | some id => exact absurd (hkeys k ((HashMap.mem_keys_iff _ _).2 ⟨id, hid⟩)) (Nat.not_le.2 hk)
  obtain ⟨t, hrun, hgrows⟩ := exists_growsBy (mockBlockstamp_id 0) 197 hmain2 hnode2 habove
    (by rw [hlen]; decide)
  obtain ⟨p, parent, hp, hparent, hle⟩ := hgrows.head
  obtain ⟨hinv, hbound⟩ := hgrows.inv (treeInv_of_foldlM (by decide) hbase) fun id node hnode =>
    hids (some node) (List.mem_of_getElem? (node?_eq_some_iff.1 hnode)) node rfl
  refine ⟨t, p, parent, ?_, hp, hparent, ?_, hinv, hbound, hgrows.mainAbove 200 (by decide), ?_,
    ?_, ?_, ?_, ?_⟩
  · rw [lineOps_add 2 197, List.foldlM_append, hbase, ok_bind, hrun]
  · rw [hlength] at hle
    exact hle.resolve_left (by decide)
  · rw [hgrows.mainLen, hlen]
    rfl
  · rw [hgrows.root, hroot]
  · rw [hgrows.main 1 (by decide), hmain1]
  · rw [hgrows.node? 0 (by omega) (by decide), hnode0]
  · rw [hgrows.node? 1 (by omega) (by decide), hnode1]

/-- The next head outgrows the window: the tree is pruned before the head becomes a sheet, and its
new root was a child of the old one. -/
theorem exists_outgrownLine : ∃ t grown pruned : ForkTree, ∃ p parent ids,
    (lineOps 199).foldlM TreeOp.apply default = .ok t ∧
    grown = t.withHead (mockBlockstamp 0 200) p parent ∧
    RepInv (grown.withSheet t.nodes.length) ∧ grown.mainBranch.len = forkWindowSize + 1 ∧
    grown.pruning = .ok pruned ∧ Prunes grown 0 ⟨none, [1], mockBlockstamp 0 0⟩ 1 ids pruned ∧
    grown.node? 1 = some ⟨some 0, [2], mockBlockstamp 0 1⟩ ∧
    TreeOp.apply t (.head (mockBlockstamp 0 200)) = .ok (pruned.withSheet t.nodes.length) := by
  obtain ⟨t, p, parent, hrun, hp, hparent, hle, hinv, hbound, habove, hlen, hroot, hmain1, hnode0,
    hnode1⟩ := exists_fullLine
  have hplt : p < t.nodes.length := lt_length_of_node? hparent
  have hgrownNode : ∀ i < 3, (t.withHead (mockBlockstamp 0 200) p parent).node? i = t.node? i := by
    intro i hi
    rw [withHead_node? t parent hplt, if_neg (by grind), if_neg (by grind)]
  have hgrownMain : (t.withHead (mockBlockstamp 0 200) p parent).mainBranch.get? 1 = some 1 := by
    rw [withHead_get?, if_neg (by decide), hmain1]
  have hgrownLen : (t.mainBranch.insert 200 t.nodes.length).len = forkWindowSize + 1 := by
    rw [HashMap.len_insert_of_get?_eq_none _ _ habove, hlen]
  have hgrownInv :
      TreeInv ((t.withHead (mockBlockstamp 0 200) p parent).withSheet t.nodes.length) :=
    hinv.withHead hp (by decide) hparent fun i node hi => Nat.lt_succ_of_le (hbound i node hi)
  have hnode0' := (hgrownNode 0 (by decide)).trans hnode0
  obtain ⟨pruned, hpruned⟩ : ∃ pruned,
      (t.withHead (mockBlockstamp 0 200) p parent).pruning = .ok pruned :=
    ⟨_, pruning_eq (t := t.withHead (mockBlockstamp 0 200) p parent) hroot hnode0' hgrownMain rfl⟩
  have hhead : t.insertNewHeadBlock (mockBlockstamp 0 200) =
      .ok (pruned.withSheet t.nodes.length, pruned.removedBlockstamps) :=
    insertNewHeadBlock_outgrown (by decide) hp hparent (hgrownLen ▸ Nat.lt_succ_self _) hpruned
  obtain ⟨rootId, rootNode, mainChildId, ids, hprunes⟩ := pruning_prunes hpruned
  obtain rfl : 0 = rootId := Option.some.inj (hroot.symm.trans hprunes.oldRoot)
  obtain rfl := Option.some.inj (hnode0'.symm.trans hprunes.oldRootNode)
  obtain rfl := Option.some.inj (hgrownMain.symm.trans hprunes.mainChild)
  refine ⟨t, _, pruned, p, parent, ids, hrun, rfl, hgrownInv.repInv, hgrownLen, hpruned, hprunes,
    (hgrownNode 1 (by decide)).trans hnode1, ?_⟩
  rw [TreeOp.apply, hhead]
  rfl

/-! ## The invariant over whole runs -/

/-- In every run from the empty tree whose operations are all allowed, the representation
invariant holds in every state reached. -/
theorem repInv_of_reached (h : Reached default TreeOp.apply (fun t op => op.Allowed t) t) :
    RepInv t :=
  (treeInv_of_reached h).repInv

/-- Two heads, a fork of the first one, and the change to that fork. -/
def rollbackOps : List TreeOp :=
  [.head (mockBlockstamp 0 0), .head (mockBlockstamp 0 1),
    .fork (mockBlockstamp 1 1) (mockBlockstamp 0 0).hash,
    .change (mockBlockstamp 0 1) (mockBlockstamp 1 1)]

/-- The invariant holds after this rollback. -/
theorem repInv_rollbackOps :
    ∃ t, rollbackOps.foldlM TreeOp.apply default = .ok t ∧ RepInv t := by
  obtain ⟨t, hrun⟩ := Option.isSome_iff_exists.1
    (show (guardedRun TreeOp.apply (fun t op => op.Allowed t) rollbackOps default).isSome by decide)
  exact ⟨t, foldlM_of_guardedRun hrun, repInv_of_reached (.of_guardedRun .init hrun)⟩

/-- The head that outgrows the window leaves the new root below the removed one: heads alone lose
the invariant. -/
theorem not_repInv_lineOps :
    ∃ t, (lineOps 200).foldlM TreeOp.apply default = .ok t ∧ ¬ RepInv t := by
  obtain ⟨t, grown, pruned, -, -, ids, hrun, -, -, -, -, hprunes, hnode1, hhead⟩ :=
    exists_outgrownLine
  refine ⟨pruned.withSheet t.nodes.length, ?_, fun hinv => ?_⟩
  · have hlast : headOps (mockBlockstamp 0) 199 1 = [.head (mockBlockstamp 0 200)] := rfl
    rw [lineOps_add 199 1, List.foldlM_append, hrun, ok_bind, hlast, List.foldlM_cons, hhead]
    rfl
  · have hlinks : LinkInv pruned := hinv.toLinkInv.of_withSheet
    exact hprunes.not_linkInv hnode1 rfl hlinks

end ForkTree

end Durs
