/-
# The fork tree and the fork store

The blocks of the fork tree are kept in a store under their blockstamps.  The store follows the tree
as long as no pruning removes the blockstamp of a node that stays, which rollbacks make happen.
-/

import Durs.ForkTree.Shedding

namespace Durs

open RustStd Lib

/-! ## Fork blocks and the orphans that follow them -/

/-- What placing a fork block and setting an orphan aside keep, inserting a fork block keeps. -/
theorem insertNewForkBlockAux_preserves {P : ForksDBs → Prop} {Q : DALBlock → Prop}
    (hplace : ∀ forks dalBlock blockstamp tree, P forks → Q dalBlock →
      dalBlock.blockstamp = .ok blockstamp →
      forks.forkTreeDb.insertNewForkBlock blockstamp dalBlock.block.previousHash =
        .ok (tree, true) →
      P { forks with
        forkTreeDb := tree
        forkBlocksDb := forks.forkBlocksDb.insert blockstamp dalBlock })
    (horphan : ∀ forks dalBlock, P forks → Q dalBlock → P (insertOrphanBlock forks dalBlock))
    (horphans : ∀ forks blockstamp dalBlocks, P forks →
      forks.orphanBlocksDb.get? blockstamp = some dalBlocks → ∀ dalBlock ∈ dalBlocks, Q dalBlock)
    {fuel : Nat} :
    ∀ {forks forks' : ForksDBs} {dalBlock : DALBlock} {inserted : Bool}, P forks → Q dalBlock →
      insertNewForkBlockAux fuel forks dalBlock = .ok (forks', inserted) → P forks' := by
  induction fuel with
  | zero =>
      intro forks forks' dalBlock inserted _ _ hrun
      cases hrun
  | succ fuel ih =>
      intro forks forks' dalBlock inserted hforks hblock hrun
      rw [insertNewForkBlockAux, bind_eq_ok_iff] at hrun
      obtain ⟨blockstamp, hstamp, hrun⟩ := hrun
      rw [bind_eq_ok_iff] at hrun
      obtain ⟨⟨tree, placed⟩, hinsert, hrun⟩ := hrun
      cases placed with
      | false =>
          simp only [Bool.false_eq_true, if_false, pure_eq_ok_iff, Prod.mk.injEq] at hrun
          obtain ⟨rfl, -⟩ := hrun
          exact horphan forks dalBlock hforks hblock
      | true =>
          simp only [if_true, bind_eq_ok_iff, pure_eq_ok_iff, Prod.mk.injEq] at hrun
          obtain ⟨forks'', hfold, rfl, -⟩ := hrun
          have hplaced := hplace forks dalBlock blockstamp tree hforks hblock hstamp hinsert
          refine foldlM_preserves (P := P) ?_ hplaced hfold
          intro mid stackable mid' hmem hmid hstep
          simp only [bind_eq_ok_iff, pure_eq_ok_iff] at hstep
          obtain ⟨⟨mid'', placed⟩, hrec, rfl⟩ := hstep
          refine ih hmid ?_ hrec
          cases hget : forks.orphanBlocksDb.get? blockstamp with
          | none =>
              rw [hget] at hmem
              cases hmem
          | some dalBlocks =>
              rw [hget] at hmem
              exact horphans _ blockstamp dalBlocks hplaced hget stackable hmem

/-! ## The operations on the fork databases -/

/-- The fork tree and the fork store agree: the keys of the store are the blockstamps of the live
nodes, and every branch the tree returns has all its blocks in the store. -/
structure ForksAgree (forks : ForksDBs) : Prop where
  keys : ∀ blockstamp, forks.forkBlocksDb.containsKey blockstamp = true ↔
    ∃ id node, forks.forkTreeDb.node? id = some node ∧ node.data = blockstamp
  branches : ∀ id branch, forks.forkTreeDb.getForkBranch id = .ok branch →
    ∀ blockstamp ∈ branch, forks.forkBlocksDb.containsKey blockstamp = true

/-- The local blockchain and the fork databases, in memory and on disk. -/
structure ForksState where
  blocks : BlocksV10DBs
  forks : ForksDBs
  files : BlocksV10DBs × ForksDBs

instance : Inhabited ForksState := ⟨⟨default, default, default⟩⟩

/-- What the blockchain module does to the fork databases: it inserts heads and forks, and for a
rollback it reverts blocks, inserts the new branch as heads and changes the main branch, or reloads
the databases if the branch fails. -/
inductive ForksOp
  | head (dalBlock : DALBlock)
  | fork (dalBlock : DALBlock)
  | change (oldCurrent newCurrent : Blockstamp)
  | revert (number : BlockNumber)
  | save
  | reload

/-- Perform an operation. -/
def ForksOp.apply (s : ForksState) : ForksOp → Run ForksState
  | .head dalBlock => do
      let (blocks, forks) ← insertNewHeadBlock s.blocks s.forks dalBlock
      return { s with blocks, forks }
  | .fork dalBlock => do
      let (forks, _) ← insertNewForkBlock s.forks dalBlock
      return { s with forks }
  | .change oldCurrent newCurrent => do
      let forks ← changeMainBranch s.forks oldCurrent newCurrent
      return { s with forks }
  | .revert number =>
      return { s with blocks := { blockchainDb := s.blocks.blockchainDb.remove number } }
  | .save => return { s with files := (s.blocks, s.forks) }
  | .reload => return { s with blocks := s.files.1, forks := s.files.2 }

/-- What the three writers keep of the fork databases, every operation keeps, in memory and on
disk. -/
theorem ForksOp.apply_preserves {P : ForksDBs → Prop} {s s' : ForksState} {op : ForksOp}
    (h : P s.forks ∧ P s.files.2)
    (hhead : ∀ dalBlock blocks forks, op = .head dalBlock →
      insertNewHeadBlock s.blocks s.forks dalBlock = .ok (blocks, forks) → P forks)
    (hfork : ∀ dalBlock forks inserted, op = .fork dalBlock →
      insertNewForkBlock s.forks dalBlock = .ok (forks, inserted) → P forks)
    (hchange : ∀ oldCurrent newCurrent forks, op = .change oldCurrent newCurrent →
      changeMainBranch s.forks oldCurrent newCurrent = .ok forks → P forks)
    (hrun : op.apply s = .ok s') : P s'.forks ∧ P s'.files.2 := by
  cases op with
  | head dalBlock =>
      simp only [ForksOp.apply, bind_eq_ok_iff, pure_eq_ok_iff] at hrun
      obtain ⟨⟨blocks, forks⟩, hinsert, rfl⟩ := hrun
      exact ⟨hhead dalBlock blocks forks rfl hinsert, h.2⟩
  | fork dalBlock =>
      simp only [ForksOp.apply, bind_eq_ok_iff, pure_eq_ok_iff] at hrun
      obtain ⟨⟨forks, inserted⟩, hinsert, rfl⟩ := hrun
      exact ⟨hfork dalBlock forks inserted rfl hinsert, h.2⟩
  | change oldCurrent newCurrent =>
      simp only [ForksOp.apply, bind_eq_ok_iff, pure_eq_ok_iff] at hrun
      obtain ⟨forks, hrun, rfl⟩ := hrun
      exact ⟨hchange oldCurrent newCurrent forks rfl hrun, h.2⟩
  | revert number =>
      simp only [ForksOp.apply, pure_eq_ok_iff] at hrun
      subst hrun
      exact h
  | save =>
      simp only [ForksOp.apply, pure_eq_ok_iff] at hrun
      subst hrun
      exact ⟨h.1, h.1⟩
  | reload =>
      simp only [ForksOp.apply, pure_eq_ok_iff] at hrun
      subst hrun
      exact ⟨h.2, h.2⟩

/-- The operations after which the store still agrees with the tree: no pruning by a head removes a
blockstamp that another live node carries, and the main branch changes in a tree without two such
nodes, or without pruning. -/
def ForksOp.Allowed (s : ForksState) : ForksOp → Prop
  | .head dalBlock => ∀ blockstamp base, dalBlock.blockstamp = .ok blockstamp →
      ForkTree.PlacesHead s.forks.forkTreeDb blockstamp base →
      forkWindowSize < (base.mainBranch.insert blockstamp.id
        s.forks.forkTreeDb.nodes.length).len →
      (base.withMain blockstamp.id s.forks.forkTreeDb.nodes.length).PruneSafe
  | .change oldCurrent newCurrent => s.forks.forkTreeDb.Distinct ∨
      ∀ target branch, s.forks.forkTreeDb.findNodeWithBlockstamp newCurrent = some target →
        s.forks.forkTreeDb.getForkBranchNodesIds target = .ok branch →
        ∀ id ∈ branch, ∀ node, s.forks.forkTreeDb.node? id = some node →
          node.data.id ≤ oldCurrent.id
  | .fork _ | .revert _ | .save | .reload => True

/-! ## The store follows the tree -/

/-- The invariant behind the agreement: the blockstamps last removed are no longer carried, and the
entries of the main branch are slots. -/
structure StoreInv (forks : ForksDBs) : Prop where
  keys : ∀ blockstamp, forks.forkBlocksDb.containsKey blockstamp = true ↔
    forks.forkTreeDb.Carries blockstamp
  stale : ∀ blockstamp ∈ forks.forkTreeDb.removedBlockstamps,
    ¬ forks.forkTreeDb.Carries blockstamp
  mainLt : ∀ k id, forks.forkTreeDb.mainBranch.get? k = some id →
    id < forks.forkTreeDb.nodes.length

theorem storeInv_default : StoreInv default where
  keys := by
    intro blockstamp
    constructor
    · intro h
      cases h
    · rintro ⟨id, node, hnode, -⟩
      cases hnode
  stale := by
    intro blockstamp hmem
    cases hmem
  mainLt := by
    intro k id hid
    cases hid

namespace StoreInv

variable {forks forks' : ForksDBs} {dalBlock : DALBlock}

theorem forksAgree (h : StoreInv forks) : ForksAgree forks where
  keys := h.keys
  branches := fun _ _ hbranch blockstamp hmem =>
    (h.keys blockstamp).2 (ForkTree.carries_of_getForkBranch hbranch blockstamp hmem)

/-- An allowed head keeps the invariant. -/
theorem head {s : ForksState} {blocks : BlocksV10DBs} (h : StoreInv s.forks)
    (hallowed : (ForksOp.head dalBlock).Allowed s)
    (hrun : insertNewHeadBlock s.blocks s.forks dalBlock = .ok (blocks, forks')) :
    StoreInv forks' := by
  simp only [insertNewHeadBlock, bind_eq_ok_iff, pure_eq_ok_iff, Prod.mk.injEq] at hrun
  obtain ⟨blockstamp, hstamp, ⟨tree, removed⟩, hinsert, rfl, rfl⟩ := hrun
  obtain ⟨base, ended, hplaces, hextends, rfl, rfl⟩ :=
    ForkTree.insertNewHeadBlock_ok h.mainLt hinsert
  obtain ⟨listed, hsheds, hto, hmain⟩ := hextends.sheds
  have hsafe : ∀ b ∈ listed, ¬ ended.Carries b := by
    refine hsheds.not_carries fun i j node node' hi hnone hj hdata => ?_
    obtain ⟨hlen, hprune⟩ := hto i node hi hnone
    exact hallowed blockstamp base hstamp hplaces hlen i j node node' hprune hi hj hdata
  have hremoved : ended.removedBlockstamps = listed := by
    rw [hsheds.removed, hplaces.removedBlockstamps, List.nil_append]
  constructor
  case keys =>
    intro b
    rw [HashMap.containsKey_removeAll_iff, HashMap.containsKey_insert_iff, h.keys,
      ForkTree.withSheet_removedBlockstamps, hremoved, ForkTree.carries_withSheet_iff,
      hsheds.carries_iff hsafe, hplaces.carries_iff]
  case stale =>
    intro b hb
    rw [ForkTree.withSheet_removedBlockstamps, hremoved] at hb
    exact hsafe b hb
  case mainLt =>
    intro k id hid
    change id < ended.nodes.length
    rw [hsheds.length, hplaces.length]
    rcases hmain k id hid with rfl | hid
    · exact Nat.lt_succ_self _
    · rw [hplaces.mainBranch] at hid
      exact Nat.lt_succ_of_lt (h.mainLt k id hid)

/-- Placing a fork block keeps the invariant. -/
theorem placeFork (h : StoreInv forks) {blockstamp : Blockstamp} {tree : ForkTree}
    (hinsert : forks.forkTreeDb.insertNewForkBlock blockstamp dalBlock.block.previousHash =
      .ok (tree, true)) :
    StoreInv { forks with
      forkTreeDb := tree
      forkBlocksDb := forks.forkBlocksDb.insert blockstamp dalBlock } := by
  rcases ForkTree.insertNewForkBlock_ok hinsert with ⟨hfalse, -⟩ | ⟨-, p, parent, hp, -, -, rfl⟩
  · cases hfalse
  · constructor
    case keys =>
      intro b
      rw [HashMap.containsKey_insert_iff, h.keys, ForkTree.carries_withSheet_iff,
        ForkTree.carries_withChild_iff hp]
    case stale =>
      intro b hb
      cases hb
    case mainLt =>
      intro k id hid
      change id < (forks.forkTreeDb.withChild blockstamp p parent).nodes.length
      rw [ForkTree.withChild_length]
      exact Nat.lt_succ_of_lt (h.mainLt k id hid)

/-- A fork block keeps the invariant, with the orphans that follow it. -/
theorem fork (h : StoreInv forks) {inserted : Bool}
    (hrun : insertNewForkBlock forks dalBlock = .ok (forks', inserted)) : StoreInv forks' :=
  insertNewForkBlockAux_preserves (P := StoreInv) (Q := fun _ => True)
    (fun _ _ _ _ hforks _ _ hinsert => hforks.placeFork hinsert)
    (fun _ _ hforks _ => ⟨hforks.keys, hforks.stale, hforks.mainLt⟩)
    (fun _ _ _ _ _ _ _ => trivial) h trivial hrun

/-- An allowed change of the main branch keeps the invariant. -/
theorem change {s : ForksState} {oldCurrent newCurrent : Blockstamp} (h : StoreInv s.forks)
    (hallowed : (ForksOp.change oldCurrent newCurrent).Allowed s)
    (hrun : changeMainBranch s.forks oldCurrent newCurrent = .ok forks') : StoreInv forks' := by
  simp only [changeMainBranch, bind_eq_ok_iff, pure_eq_ok_iff] at hrun
  obtain ⟨tree, hchange, rfl⟩ := hrun
  obtain ⟨target, branch, listed, htarget, hbranch, hsheds, hmain, hbelow⟩ :=
    ForkTree.changeMainBranch_sheds h.mainLt hchange
  have hlisted : ∀ b ∈ listed, ¬ tree.Carries b := by
    rcases hallowed with hdistinct | hno
    · exact hsheds.not_carries fun i j node node' hi _ hj hdata =>
        hdistinct i j node node' hi hj hdata
    · obtain rfl := hbelow (hno target branch htarget hbranch)
      intro b hb
      cases hb
  have hstale : ∀ b ∈ tree.removedBlockstamps, ¬ tree.Carries b := by
    intro b hb hcarries
    rw [hsheds.removed] at hb
    rcases List.mem_append.1 hb with hb | hb
    · exact h.stale b hb ((hsheds.carries_iff hlisted b).1 hcarries).1
    · exact hlisted b hb hcarries
  refine ⟨fun b => ?_, hstale, hmain⟩
  rw [HashMap.containsKey_removeAll_iff, h.keys, ForkTree.getRemovedBlockstamps]
  constructor
  · rintro ⟨hcarries, hnot⟩
    refine (hsheds.carries_iff hlisted b).2 ⟨hcarries, fun hb => hnot ?_⟩
    rw [hsheds.removed]
    exact List.mem_append_right _ hb
  · intro hcarries
    exact ⟨((hsheds.carries_iff hlisted b).1 hcarries).1, fun hb => hstale b hb hcarries⟩

end StoreInv

/-- An allowed operation keeps the invariant in memory and on disk. -/
theorem storeInv_step {s s' : ForksState} {op : ForksOp}
    (h : StoreInv s.forks ∧ StoreInv s.files.2) (hallowed : op.Allowed s)
    (hrun : op.apply s = .ok s') : StoreInv s'.forks ∧ StoreInv s'.files.2 := by
  refine ForksOp.apply_preserves h ?_ ?_ ?_ hrun
  · rintro dalBlock blocks forks rfl hinsert
    exact h.1.head hallowed hinsert
  · rintro dalBlock forks inserted rfl hinsert
    exact h.1.fork hinsert
  · rintro oldCurrent newCurrent forks rfl hchange
    exact h.1.change hallowed hchange

/-- An operation after which nothing is pruned: the head stays within the window, the selected
branch is empty. -/
def ForksOp.prunesNothing (s : ForksState) : ForksOp → Bool
  | .head dalBlock =>
      match dalBlock.blockstamp with
      | .ok blockstamp => (s.forks.forkTreeDb.mainBranch.insert blockstamp.id
          s.forks.forkTreeDb.nodes.length).len ≤ forkWindowSize
      | .error _ => true
  | .change _ newCurrent =>
      match s.forks.forkTreeDb.findNodeWithBlockstamp newCurrent with
      | some target =>
          match s.forks.forkTreeDb.getForkBranchNodesIds target with
          | .ok branch => branch.isEmpty
          | .error _ => true
      | none => true
  | .fork _ | .revert _ | .save | .reload => true

theorem ForksOp.allowed_of_prunesNothing {s : ForksState} {op : ForksOp}
    (h : op.prunesNothing s = true) : op.Allowed s := by
  cases op with
  | head dalBlock =>
      intro blockstamp base hstamp hplaces hlen
      simp only [prunesNothing, hstamp, decide_eq_true_eq] at h
      rw [hplaces.mainBranch] at hlen
      exact absurd hlen (Nat.not_lt.2 h)
  | change oldCurrent newCurrent =>
      refine .inr fun target branch htarget hbranch id hid => ?_
      simp only [prunesNothing, htarget, hbranch, List.isEmpty_iff] at h
      rw [h] at hid
      cases hid
  | fork _ => trivial
  | revert _ => trivial
  | save => trivial
  | reload => trivial

open ForkTree

/-- A block of a branch above the first block of branch zero. -/
def mockDALBlock (branch k : Nat) : DALBlock :=
  { block := genEmptyTimedBlock (mockBlockstamp branch k) (300 * k)
      (mockBlockstamp (if k = 1 then 0 else branch) (k - 1)).hash
    expireCerts := none }

/-- Two heads, four blocks of another branch, and the rollback to that branch. -/
def rollbackForksOps : List ForksOp :=
  [.head (mockDALBlock 0 0), .head (mockDALBlock 0 1), .fork (mockDALBlock 1 1),
    .fork (mockDALBlock 1 2), .fork (mockDALBlock 1 3), .fork (mockDALBlock 1 4), .revert 1,
    .head (mockDALBlock 1 1), .head (mockDALBlock 1 2), .head (mockDALBlock 1 3),
    .head (mockDALBlock 1 4), .change (mockBlockstamp 0 1) (mockBlockstamp 1 4), .save]

/-- The state after that rollback: the blocks of the branch are in the tree twice. -/
theorem exists_rolledBack : ∃ s : ForksState,
    rollbackForksOps.foldlM ForksOp.apply default = .ok s ∧
    s.forks.forkTreeDb.mainBranch.get? 1 = some 6 ∧
    s.forks.forkTreeDb.mainBranch.get? 4 = some 9 ∧
    s.forks.forkTreeDb.mainBranch.len = 5 ∧ s.forks.forkTreeDb.root = some 0 ∧
    (∀ k ∈ s.forks.forkTreeDb.mainBranch.keys, k ≤ 4) ∧
    s.forks.forkTreeDb.nodes.length = 10 ∧
    s.forks.forkTreeDb.node? 0 = some ⟨none, [1, 2, 6], mockBlockstamp 0 0⟩ ∧
    s.forks.forkTreeDb.node? 1 = some ⟨some 0, [], mockBlockstamp 0 1⟩ ∧
    s.forks.forkTreeDb.node? 2 = some ⟨some 0, [3], mockBlockstamp 1 1⟩ ∧
    s.forks.forkTreeDb.node? 3 = some ⟨some 2, [4], mockBlockstamp 1 2⟩ ∧
    s.forks.forkTreeDb.node? 4 = some ⟨some 3, [5], mockBlockstamp 1 3⟩ ∧
    s.forks.forkTreeDb.node? 5 = some ⟨some 4, [], mockBlockstamp 1 4⟩ ∧
    s.forks.forkTreeDb.node? 6 = some ⟨some 0, [7], mockBlockstamp 1 1⟩ ∧
    s.forks.forkTreeDb.node? 9 = some ⟨some 8, [], mockBlockstamp 1 4⟩ := by
  refine ⟨_, rfl, ?_⟩
  decide

/-- A head that the tree accepts is accepted, and what the tree removed leaves the store. -/
theorem head_ok_of_tree {s : ForksState} {dalBlock : DALBlock} {blockstamp : Blockstamp}
    {tree : ForkTree} {removed : List Blockstamp} (hstamp : dalBlock.blockstamp = .ok blockstamp)
    (htree : s.forks.forkTreeDb.insertNewHeadBlock blockstamp = .ok (tree, removed)) :
    ∃ s', ForksOp.apply s (.head dalBlock) = .ok s' ∧ s'.forks.forkTreeDb = tree ∧
      ∀ b ∈ removed, s'.forks.forkBlocksDb.containsKey b ≠ true := by
  have hstep : ForksOp.apply s (.head dalBlock) = .ok { s with
      blocks := { blockchainDb := s.blocks.blockchainDb.insert dalBlock.block.number dalBlock }
      forks := { s.forks with
        forkTreeDb := tree
        forkBlocksDb := (s.forks.forkBlocksDb.insert blockstamp dalBlock).removeAll removed } } := by
    simp only [ForksOp.apply, insertNewHeadBlock, hstamp, htree, ok_bind]
    rfl
  exact ⟨_, hstep, rfl, fun b hb hkey =>
    ((HashMap.containsKey_removeAll_iff _ _ _).1 hkey).2 hb⟩

/-- Heads that the tree accepts one after the other. -/
theorem heads_ok_of_tree (branch : Nat) {ks : List Nat} :
    ∀ {s : ForksState} {tree : ForkTree},
      (ks.map fun k => TreeOp.head (mockBlockstamp branch k)).foldlM TreeOp.apply
        s.forks.forkTreeDb = .ok tree →
      ∃ s', (ks.map fun k => ForksOp.head (mockDALBlock branch k)).foldlM ForksOp.apply s =
        .ok s' ∧ s'.forks.forkTreeDb = tree := by
  induction ks with
  | nil =>
      intro s tree htree
      obtain rfl := Except.ok.inj htree
      exact ⟨s, rfl, rfl⟩
  | cons k ks ih =>
      intro s tree htree
      simp only [List.map_cons, List.foldlM_cons, bind_eq_ok_iff] at htree
      obtain ⟨mid, hmid, htree⟩ := htree
      simp only [TreeOp.apply, bind_eq_ok_iff, pure_eq_ok_iff] at hmid
      obtain ⟨⟨mid', removed⟩, hinsert, rfl⟩ := hmid
      have hstamp : (mockDALBlock branch k).blockstamp = .ok (mockBlockstamp branch k) := rfl
      obtain ⟨s', hstep, rfl, -⟩ := head_ok_of_tree hstamp hinsert
      obtain ⟨s'', hrun, hsame⟩ := ih htree
      refine ⟨s'', ?_, hsame⟩
      rw [List.map_cons, List.foldlM_cons, hstep, ok_bind, hrun]

/-- The blocks of the new branch that follow, up to the one that outgrows the window. -/
def growthForksOps : List ForksOp :=
  (List.range' 5 196).map fun k => .head (mockDALBlock 1 k)

/-- When the window moves past the fork, the first copies are pruned: their blockstamps are removed
and the second copies stay. -/
theorem exists_prunedCopies : ∃ s t tree removed,
    rollbackForksOps.foldlM ForksOp.apply default = .ok s ∧
    ((List.range' 5 195).map fun k => TreeOp.head (mockBlockstamp 1 k)).foldlM TreeOp.apply
      s.forks.forkTreeDb = .ok t ∧
    t.insertNewHeadBlock (mockBlockstamp 1 200) = .ok (tree, removed) ∧
    mockBlockstamp 1 1 ∈ removed ∧ tree.node? 6 = some ⟨some 0, [7], mockBlockstamp 1 1⟩ := by
  obtain ⟨s, hs, hmain1, hmain4, hlen, hroot, hkeys, hlength, hnode0, hnode1, hnode2, hnode3,
    hnode4, hnode5, hnode6, hnode9⟩ := exists_rolledBack
  have habove : ∀ k > 4, s.forks.forkTreeDb.mainBranch.get? k = none := by
    intro k hk
    cases hid : s.forks.forkTreeDb.mainBranch.get? k with
    | none => rfl
    | some id => exact absurd (hkeys k ((HashMap.mem_keys_iff _ _).2 ⟨id, hid⟩)) (Nat.not_le.2 hk)
  obtain ⟨t, hrun, hgrows⟩ := exists_growsBy (mockBlockstamp_id 1) 195 hmain4 hnode9 habove
    (by rw [hlen]; decide)
  obtain ⟨p, parent, hp, hparent, hle⟩ := hgrows.head
  have hple : 10 ≤ p := hlength ▸ hle.resolve_left (by decide)
  have hplt : p < t.nodes.length := lt_length_of_node? hparent
  have htlen : t.nodes.length = 205 := by rw [hgrows.length, hlength]
  -- The old nodes are still there when the last head is placed.
  have hgrown : ∀ i < 9, (t.withHead (mockBlockstamp 1 200) p parent).node? i =
      s.forks.forkTreeDb.node? i := by
    intro i hi
    rw [withHead, withMain_node?, withChild_node? _ _ _ hplt, if_neg (by grind),
      if_neg (by grind), hgrows.node? i (by grind) (by grind)]
  have hgrownMain : (t.withHead (mockBlockstamp 1 200) p parent).mainBranch.get? 1 = some 6 := by
    rw [withHead, withMain_mainBranch, withChild_mainBranch,
      HashMap.get?_insert_of_ne _ _ (by decide), hgrows.main 1 (by decide), hmain1]
  have hgrownLen : (t.mainBranch.insert 200 t.nodes.length).len = forkWindowSize + 1 := by
    rw [HashMap.len_insert_of_get?_eq_none _ _ (hgrows.mainAbove 200 (by decide)),
      hgrows.mainLen, hlen]
    rfl
  -- Its pruning removes the old branch, then the first copies of the new one.
  generalize hstart : ({ t.withHead (mockBlockstamp 1 200) p parent with
    mainBranch := (t.withHead (mockBlockstamp 1 200) p parent).mainBranch.remove 0
    removedBlockstamps := (t.withHead (mockBlockstamp 1 200) p parent).removedBlockstamps ++
      [mockBlockstamp 0 0] } : ForkTree) = start
  have hstartNode : ∀ i < 9, start.node? i = s.forks.forkTreeDb.node? i := by
    rw [← hstart]
    exact hgrown
  have hstartLen : 10 ≤ start.nodes.length := by
    rw [← hstart]
    change 10 ≤ (t.withChild (mockBlockstamp 1 200) p parent).nodes.length
    rw [withChild_length, htlen]
    decide
  have hnode1' := (hstartNode 1 (by decide)).trans hnode1
  obtain ⟨mid, hmid, hremoves⟩ := exists_removes [1] (List.nodup_singleton 1)
    (by simpa using ⟨_, hnode1'⟩)
  have hmidNode : ∀ i < 9, i ≠ 1 → mid.node? i = s.forks.forkTreeDb.node? i := by
    intro i hi hne
    rw [hremoves.node?, if_neg (by simpa using hne), hstartNode i hi]
  have hchain : mid.OnlyChildren ⟨some 0, [3], mockBlockstamp 1 1⟩ [3, 4, 5] :=
    ⟨rfl, _, (hmidNode 3 (by decide) (by decide)).trans hnode3, rfl, _,
      (hmidNode 4 (by decide) (by decide)).trans hnode4, rfl, _,
      (hmidNode 5 (by decide) (by decide)).trans hnode5, rfl⟩
  have hnode2' := (hmidNode 2 (by decide) (by decide)).trans hnode2
  obtain ⟨ended, hended, hremoves'⟩ := exists_removes [3, 4, 5, 2] (by decide) (by
      simp only [List.mem_cons, List.not_mem_nil, or_false, forall_eq_or_imp, forall_eq]
      exact ⟨⟨_, (hmidNode 3 (by decide) (by decide)).trans hnode3⟩,
        ⟨_, (hmidNode 4 (by decide) (by decide)).trans hnode4⟩,
        ⟨_, (hmidNode 5 (by decide) (by decide)).trans hnode5⟩, ⟨_, hnode2'⟩⟩)
  have hremove : ([1, 2, 6].filter (· ≠ 6)).foldlM removeChildOfRoot start = .ok ended := by
    have hleaf : start.OnlyChildren ⟨some 0, [], mockBlockstamp 0 1⟩ [] := rfl
    have hfirst := removeChildOfRoot_of_onlyChildren hnode1' hleaf (Nat.zero_le _)
    have hsecond := removeChildOfRoot_of_onlyChildren hnode2' hchain
      (by rw [hremoves.length]; exact Nat.le_trans (by decide) hstartLen)
    change [1, 2].foldlM removeChildOfRoot start = .ok ended
    rw [List.foldlM_cons, hfirst, List.nil_append, hmid, ok_bind, List.foldlM_cons, hsecond]
    rw [List.cons_append, List.cons_append, List.cons_append, List.nil_append, hended]
    rfl
  have hpruned := pruning_eq (t := t.withHead (mockBlockstamp 1 200) p parent)
    (hgrows.root.trans hroot) ((hgrown 0 (by decide)).trans hnode0) hgrownMain (hstart ▸ hremove)
  have hhead : t.insertNewHeadBlock (mockBlockstamp 1 200) = .ok (_, _) :=
    insertNewHeadBlock_outgrown (by decide) hp hparent (hgrownLen ▸ Nat.lt_succ_self _) hpruned
  refine ⟨s, t, _, _, hs, hrun, hhead, ?_, ?_⟩
  · change mockBlockstamp 1 1 ∈ ended.removedBlockstamps
    rw [hremoves'.removed]
    exact List.mem_append_right _ (mem_blockstampsOf.2 ⟨2, _, by decide, hnode2', rfl⟩)
  · have hended : ended.node? 6 = some ⟨some 0, [7], mockBlockstamp 1 1⟩ := by
      rw [hremoves'.node?, if_neg (by decide), hmidNode 6 (by decide) (by decide), hnode6]
    rw [withSheet_node?, ForkTree.node?, List.getElem?_set_ne (by decide)]
    exact hended

end Durs
