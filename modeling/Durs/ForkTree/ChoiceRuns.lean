/-
# Fork choice over whole runs

Any run of operations on the fork databases, rollbacks and prunings included, keeps what the fork
resolution algorithm relies on, provided the numbers and times of its blocks leave room for the
thresholds.
-/

import Durs.ForkTree.Choice

namespace Durs

open RustStd Lib

/-- The blocks an operation brings have bounded numbers and times. -/
def ForksOp.Bounded : ForksOp → Prop
  | .head dalBlock | .fork dalBlock => dalBlock.Bounded
  | .change _ _ | .revert _ | .save | .reload => True

instance (op : ForksOp) : Decidable op.Bounded :=
  match op with
  | .head _ | .fork _ => inferInstanceAs (Decidable (_ ∧ _))
  | .change _ _ | .revert _ | .save | .reload => inferInstanceAs (Decidable True)

namespace ChoiceInv

variable {forks forks' : ForksDBs} {dalBlock : DALBlock} {blockstamp : Blockstamp}

theorem default : ChoiceInv default where
  shape := .default
  numbers := by
    rintro blockstamp ⟨id, node, hnode, -⟩
    cases hnode
  stored := by
    intro blockstamp dalBlock h
    cases h
  orphans := by
    intro blockstamp dalBlocks h
    cases h

/-- A bounded block has a bounded blockstamp. -/
theorem bounded_blockstamp (h : dalBlock.Bounded) (hstamp : dalBlock.blockstamp = .ok blockstamp) :
    blockstamp.id + forkWindowSize < 4294967296 := by
  obtain ⟨hnumber, -⟩ := BlockDocument.blockstamp_eq_ok_iff.1 hstamp
  rw [← hnumber]
  exact h.1

/-- A head with a bounded block keeps the invariant. -/
theorem head {blocks blocks' : BlocksV10DBs} (h : ChoiceInv forks) (hbounded : dalBlock.Bounded)
    (hrun : insertNewHeadBlock blocks forks dalBlock = .ok (blocks', forks')) :
    ChoiceInv forks' := by
  simp only [insertNewHeadBlock, bind_eq_ok_iff, pure_eq_ok_iff, Prod.mk.injEq] at hrun
  obtain ⟨blockstamp, hstamp, ⟨tree, removed⟩, hinsert, rfl, rfl⟩ := hrun
  have hshape := h.shape.head hinsert
  obtain ⟨base, ended, hplaces, hextends, rfl, rfl⟩ :=
    ForkTree.insertNewHeadBlock_ok h.shape.mainLt hinsert
  obtain ⟨listed, hsheds, -, -⟩ := hextends.sheds
  have hremoved : ended.removedBlockstamps = listed := by
    rw [hsheds.removed, hplaces.removedBlockstamps, List.nil_append]
  constructor
  case shape => exact hshape
  case numbers =>
    rintro b ⟨id, node, hnode, rfl⟩
    have hcarries : base.Carries node.data := ⟨id, node, hsheds.kept id node hnode, rfl⟩
    rcases (hplaces.carries_iff _).1 hcarries with hb | hcarries
    · rw [hb]
      exact bounded_blockstamp hbounded hstamp
    · exact h.numbers _ hcarries
  case stored =>
    intro b stored hget
    rw [HashMap.get?_removeAll, ForkTree.withSheet_removedBlockstamps, hremoved] at hget
    split at hget
    case isTrue => cases hget
    case isFalse hnot =>
      rw [HashMap.get?_insert] at hget
      split at hget
      case isTrue hb =>
        obtain rfl := Option.some.inj hget
        exact ⟨hsheds.carries_of_not_mem ((hplaces.carries_iff b).2 (.inl hb)) hnot, hbounded.2⟩
      case isFalse =>
        obtain ⟨hcarries, htime⟩ := h.stored b stored hget
        exact ⟨hsheds.carries_of_not_mem ((hplaces.carries_iff b).2 (.inr hcarries)) hnot, htime⟩
  case orphans => exact h.orphans

/-- Placing a bounded fork block keeps the invariant. -/
theorem placeFork (h : ChoiceInv forks) (hbounded : dalBlock.Bounded) {tree : ForkTree}
    (hstamp : dalBlock.blockstamp = .ok blockstamp)
    (hinsert : forks.forkTreeDb.insertNewForkBlock blockstamp dalBlock.block.previousHash =
      .ok (tree, true)) :
    ChoiceInv { forks with
      forkTreeDb := tree
      forkBlocksDb := forks.forkBlocksDb.insert blockstamp dalBlock } := by
  have hzero : blockstamp.id = 0 → forks.forkTreeDb.findNodeWithBlockstamp
      ⟨previousBlockNumber blockstamp.id, dalBlock.block.previousHash⟩ = none := by
    -- The number before zero wraps, and the tree carries no such number.
    intro hid
    cases hfind : forks.forkTreeDb.findNodeWithBlockstamp
      ⟨previousBlockNumber blockstamp.id, dalBlock.block.previousHash⟩ with
    | none => rfl
    | some p =>
        obtain ⟨parent, hp, hdata⟩ := ForkTree.node?_of_findNodeWithBlockstamp hfind
        have hbound := h.numbers _ ⟨p, parent, hp, rfl⟩
        rw [hdata, hid, forkWindowSize] at hbound
        exact absurd hbound (by simp [previousBlockNumber])
  have hshape := h.shape.fork hzero hinsert
  rcases ForkTree.insertNewForkBlock_ok hinsert with ⟨hfalse, -⟩ | ⟨-, p, parent, hp, -, -, rfl⟩
  · cases hfalse
  · constructor
    case shape => exact hshape
    case numbers =>
      intro b hb
      rcases (ForkTree.carries_withChild_iff hp _ _).1 hb with rfl | hb
      · exact bounded_blockstamp hbounded hstamp
      · exact h.numbers b hb
    case stored =>
      intro b stored hget
      rw [HashMap.get?_insert] at hget
      have hcarries := ForkTree.carries_withChild_iff hp blockstamp b
      split at hget
      case isTrue hb =>
        obtain rfl := Option.some.inj hget
        exact ⟨hcarries.2 (.inl hb), hbounded.2⟩
      case isFalse =>
        obtain ⟨hb, htime⟩ := h.stored b stored hget
        exact ⟨hcarries.2 (.inr hb), htime⟩
    case orphans => exact h.orphans

/-- Setting a bounded block aside keeps the invariant. -/
theorem orphan (h : ChoiceInv forks) (hbounded : dalBlock.Bounded) :
    ChoiceInv (insertOrphanBlock forks dalBlock) where
  shape := h.shape
  numbers := h.numbers
  stored := h.stored
  orphans := by
    intro b dalBlocks hget stored hmem
    simp only [insertOrphanBlock, HashMap.get?_insert] at hget
    split at hget
    case isFalse => exact h.orphans b dalBlocks hget stored hmem
    case isTrue hb =>
      obtain rfl := Option.some.inj hget
      rcases List.mem_append.1 hmem with hmem | hmem
      · cases hold : forks.orphanBlocksDb.get? dalBlock.previousBlockstamp with
        | none =>
            rw [hold] at hmem
            cases hmem
        | some dalBlocks =>
            rw [hold] at hmem
            exact h.orphans _ dalBlocks hold stored hmem
      · rw [List.mem_singleton.1 hmem]
        exact hbounded

/-- A bounded fork block keeps the invariant, with the orphans that follow it. -/
theorem fork (h : ChoiceInv forks) (hbounded : dalBlock.Bounded) {inserted : Bool}
    (hrun : insertNewForkBlock forks dalBlock = .ok (forks', inserted)) : ChoiceInv forks' :=
  insertNewForkBlockAux_preserves (P := ChoiceInv) (Q := DALBlock.Bounded)
    (fun _ _ _ _ hforks hblock hstamp hinsert => hforks.placeFork hblock hstamp hinsert)
    (fun _ _ hforks hblock => hforks.orphan hblock)
    (fun _ blockstamp dalBlocks hforks => hforks.orphans blockstamp dalBlocks) h hbounded hrun

/-- A change of the main branch keeps the invariant. -/
theorem change (h : ChoiceInv forks) {oldCurrent newCurrent : Blockstamp}
    (hrun : changeMainBranch forks oldCurrent newCurrent = .ok forks') : ChoiceInv forks' := by
  simp only [changeMainBranch, bind_eq_ok_iff, pure_eq_ok_iff] at hrun
  obtain ⟨tree, hchange, rfl⟩ := hrun
  obtain ⟨-, -, listed, -, -, hsheds, -, -⟩ :=
    ForkTree.changeMainBranch_sheds h.shape.mainLt hchange
  constructor
  case shape => exact h.shape.change hchange
  case numbers =>
    rintro b ⟨id, node, hnode, rfl⟩
    exact h.numbers _ ⟨id, node, hsheds.kept id node hnode, rfl⟩
  case stored =>
    intro b stored hget
    rw [HashMap.get?_removeAll, ForkTree.getRemovedBlockstamps] at hget
    split at hget
    case isTrue => cases hget
    case isFalse hnot =>
      obtain ⟨hcarries, htime⟩ := h.stored b stored hget
      refine ⟨hsheds.carries_of_not_mem hcarries fun hlisted => hnot ?_, htime⟩
      rw [hsheds.removed]
      exact List.mem_append_right _ hlisted
  case orphans => exact h.orphans

/-- A bounded operation keeps the invariant, in memory and on disk. -/
theorem step {s s' : ForksState} {op : ForksOp} (h : ChoiceInv s.forks ∧ ChoiceInv s.files.2)
    (hbounded : op.Bounded) (hrun : op.apply s = .ok s') :
    ChoiceInv s'.forks ∧ ChoiceInv s'.files.2 := by
  refine ForksOp.apply_preserves h ?_ ?_ ?_ hrun
  · rintro dalBlock blocks forks rfl hinsert
    exact h.1.head hbounded hinsert
  · rintro dalBlock forks inserted rfl hinsert
    exact h.1.fork hbounded hinsert
  · rintro oldCurrent newCurrent forks rfl hchange
    exact h.1.change hchange

end ChoiceInv

/-- What the algorithm relies on holds in every state of a run of bounded blocks. -/
theorem choiceInv_of_reached {s : ForksState}
    (h : Reached default ForksOp.apply (fun _ op => op.Bounded) s) : ChoiceInv s.forks := by
  have hinv : ChoiceInv s.forks ∧ ChoiceInv s.files.2 :=
    h.invariant (I := fun s => ChoiceInv s.forks ∧ ChoiceInv s.files.2)
      ⟨.default, .default⟩ fun _ _ _ hinv hbounded hrun => ChoiceInv.step hinv hbounded hrun
  exact hinv.1

/-- In every state of a run of bounded blocks, for every current block and every set of invalid
blocks, the algorithm makes the right choice exactly under the condition. -/
theorem forkChoice_iff_of_reached {s : ForksState} (S : SheetSort)
    (currentBlockstamp : Blockstamp) (invalidBlocks : HashSet Blockstamp)
    (h : Reached default ForksOp.apply (fun _ op => op.Bounded) s) :
    ForkChoice S s.forks currentBlockstamp invalidBlocks ↔
      ChoiceCondition S s.forks currentBlockstamp invalidBlocks :=
  (choiceInv_of_reached h).forkChoice_iff

open ForkTree

/-- Two heads, and four blocks of another branch. -/
def forkForksOps : List ForksOp :=
  [.head (mockDALBlock 0 0), .head (mockDALBlock 0 1), .fork (mockDALBlock 1 1),
    .fork (mockDALBlock 1 2), .fork (mockDALBlock 1 3), .fork (mockDALBlock 1 4)]

/-- The algorithm switches to the four blocks, which are three above the second head. -/
theorem forkChoice_iff_forkForksOps :
    ∃ s, forkForksOps.foldlM ForksOp.apply default = .ok s ∧
      forkResolutionAlgo .insertion s.forks (mockBlockstamp 0 1) ∅ = .ok (some
        [mockBlockstamp 1 1, mockBlockstamp 1 2, mockBlockstamp 1 3, mockBlockstamp 1 4]) ∧
      (ForkChoice .insertion s.forks (mockBlockstamp 0 1) ∅ ↔
        ChoiceCondition .insertion s.forks (mockBlockstamp 0 1) ∅) := by
  have hrun : ∃ s, forkForksOps.foldlM ForksOp.apply default = .ok s ∧
      forkResolutionAlgo .insertion s.forks (mockBlockstamp 0 1) ∅ = .ok (some
        [mockBlockstamp 1 1, mockBlockstamp 1 2, mockBlockstamp 1 3, mockBlockstamp 1 4]) :=
    ⟨_, rfl, rfl⟩
  obtain ⟨s, hs, halgo⟩ := hrun
  have hreached : Reached default ForksOp.apply (fun _ op => op.Bounded) s :=
    .of_foldlM .init
      (fun op hop _ => (by decide : ∀ op ∈ forkForksOps, op.Bounded) op hop) hs
  exact ⟨s, hs, halgo, forkChoice_iff_of_reached _ _ _ hreached⟩

/-! ## A sheet stranded by a pruning -/

/-- Three heads, and a fork of the first one with two blocks above it. -/
def strandForksOps : List ForksOp :=
  [.head (mockDALBlock 0 0), .head (mockDALBlock 0 1), .head (mockDALBlock 0 2),
    .fork (mockDALBlock 1 1), .fork (mockDALBlock 1 2),
    .fork ⟨genEmptyTimedBlock (mockBlockstamp 2 2) 600 (mockBlockstamp 1 1).hash, none⟩]

/-- The same operations on the tree. -/
def strandOps : List TreeOp :=
  [.head (mockBlockstamp 0 0), .head (mockBlockstamp 0 1), .head (mockBlockstamp 0 2),
    .fork (mockBlockstamp 1 1) (mockBlockstamp 0 0).hash,
    .fork (mockBlockstamp 1 2) (mockBlockstamp 1 1).hash,
    .fork (mockBlockstamp 2 2) (mockBlockstamp 1 1).hash]

/-- The state they lead to. -/
theorem exists_strandForksOps : ∃ s : ForksState,
    strandForksOps.foldlM ForksOp.apply default = .ok s ∧
    strandOps.foldlM TreeOp.apply default = .ok s.forks.forkTreeDb ∧
    s.forks.forkTreeDb.mainBranch.get? 1 = some 1 ∧
    s.forks.forkTreeDb.mainBranch.get? 2 = some 2 ∧
    s.forks.forkTreeDb.mainBranch.len = 3 ∧ s.forks.forkTreeDb.root = some 0 ∧
    (∀ k ∈ s.forks.forkTreeDb.mainBranch.keys, k ≤ 2) ∧
    (∀ slot ∈ s.forks.forkTreeDb.nodes, ∀ node ∈ slot, node.data.id ≤ 2) ∧
    s.forks.forkTreeDb.nodes.length = 6 ∧
    s.forks.forkTreeDb.node? 0 = some ⟨none, [1, 3], mockBlockstamp 0 0⟩ ∧
    s.forks.forkTreeDb.node? 2 = some ⟨some 1, [], mockBlockstamp 0 2⟩ ∧
    s.forks.forkTreeDb.node? 3 = some ⟨some 0, [4, 5], mockBlockstamp 1 1⟩ ∧
    s.forks.forkTreeDb.node? 4 = some ⟨some 3, [], mockBlockstamp 1 2⟩ ∧
    s.forks.forkTreeDb.node? 5 = some ⟨some 3, [], mockBlockstamp 2 2⟩ ∧
    4 ∈ s.forks.forkTreeDb.sheets := by
  refine ⟨_, rfl, rfl, ?_⟩
  decide

/-- When the window moves past the fork, its first block is pruned and the two above it stay. -/
theorem exists_strandedSheet : ∃ s t tree removed,
    strandForksOps.foldlM ForksOp.apply default = .ok s ∧
    ((List.range' 3 197).map fun k => TreeOp.head (mockBlockstamp 0 k)).foldlM TreeOp.apply
      s.forks.forkTreeDb = .ok t ∧
    t.insertNewHeadBlock (mockBlockstamp 0 200) = .ok (tree, removed) ∧
    tree.node? 4 = some ⟨some 3, [], mockBlockstamp 1 2⟩ ∧ tree.node? 3 = none ∧
    4 ∈ tree.sheets ∧ ∀ id node, tree.node? id = some node → node.data.id ≤ 200 := by
  obtain ⟨s, hs, htree, hmain1, hmain2, hlen, hroot, hkeys, hids, hlength, hnode0, hnode2, hnode3,
    hnode4, hnode5, hsheet⟩ := exists_strandForksOps
  have habove : ∀ k > 2, s.forks.forkTreeDb.mainBranch.get? k = none := by
    intro k hk
    cases hid : s.forks.forkTreeDb.mainBranch.get? k with
    | none => rfl
    | some id => exact absurd (hkeys k ((HashMap.mem_keys_iff _ _).2 ⟨id, hid⟩)) (Nat.not_le.2 hk)
  obtain ⟨t, hrun, hgrows⟩ := exists_growsBy (mockBlockstamp_id 0) 197 hmain2 hnode2 habove
    (by rw [hlen]; decide)
  obtain ⟨-, hbound⟩ := hgrows.inv (treeInv_of_foldlM (by decide) htree) fun id node hnode =>
    hids (some node) (List.mem_of_getElem? (node?_eq_some_iff.1 hnode)) node rfl
  obtain ⟨p, parent, hp, hparent, hle⟩ := hgrows.head
  have hple : 6 ≤ p := hlength ▸ hle.resolve_left (by decide)
  have hplt : p < t.nodes.length := lt_length_of_node? hparent
  -- The first nodes are still there when the last head is placed.
  have hgrown : ∀ i < 6, i ≠ 2 → (t.withHead (mockBlockstamp 0 200) p parent).node? i =
      s.forks.forkTreeDb.node? i := by
    intro i hi hne
    rw [withHead_node? t parent hplt, if_neg (by grind), if_neg (by grind),
      hgrows.node? i (by grind) hne]
  have hgrownMain : (t.withHead (mockBlockstamp 0 200) p parent).mainBranch.get? 1 = some 1 := by
    rw [withHead_get?, if_neg (by decide), hgrows.main 1 (by decide), hmain1]
  have hgrownLen : (t.mainBranch.insert 200 t.nodes.length).len = forkWindowSize + 1 := by
    rw [HashMap.len_insert_of_get?_eq_none _ _ (hgrows.mainAbove 200 (by decide)),
      hgrows.mainLen, hlen]
    rfl
  have hgrownSheet : 4 ∈ (t.withHead (mockBlockstamp 0 200) p parent).sheets := by
    rw [mem_withHead_sheets]
    exact ⟨by grind, (hgrows.sheets 4 (by grind) (by decide)).2 hsheet⟩
  have hgrownBound : ∀ i n, (t.withHead (mockBlockstamp 0 200) p parent).node? i = some n →
      n.data.id ≤ 200 := fun i n hn => id_le_of_withHead hparent rfl hbound hn
  -- Its pruning removes the first block of the fork only.
  generalize hstart : ({ t.withHead (mockBlockstamp 0 200) p parent with
    mainBranch := (t.withHead (mockBlockstamp 0 200) p parent).mainBranch.remove 0
    removedBlockstamps := (t.withHead (mockBlockstamp 0 200) p parent).removedBlockstamps ++
      [mockBlockstamp 0 0] } : ForkTree) = start
  have hstartNode : ∀ i, start.node? i =
      (t.withHead (mockBlockstamp 0 200) p parent).node? i := by
    intro i
    rw [← hstart]
    rfl
  have hstartOld : ∀ i < 6, i ≠ 2 → start.node? i = s.forks.forkTreeDb.node? i :=
    fun i hi hne => (hstartNode i).trans (hgrown i hi hne)
  have hnode3' := (hstartOld 3 (by decide) (by decide)).trans hnode3
  have hnode4' := (hstartOld 4 (by decide) (by decide)).trans hnode4
  have hnode5' := (hstartOld 5 (by decide) (by decide)).trans hnode5
  obtain ⟨ended, hended, hremoves⟩ := exists_removes [3] (List.nodup_singleton 3)
    (by simpa using ⟨_, hnode3'⟩)
  have hremove : ([1, 3].filter (· ≠ 1)).foldlM removeChildOfRoot start = .ok ended := by
    rw [← hended]
    change [3].foldlM removeChildOfRoot start = [3].foldlM removeSlot start
    rw [List.foldlM_cons, List.foldlM_cons,
      removeChildOfRoot_of_leaves hnode3' rfl hnode4' rfl hnode5' rfl]
    rfl
  have hpruned := pruning_eq (t := t.withHead (mockBlockstamp 0 200) p parent)
    (hgrows.root.trans hroot) ((hgrown 0 (by decide) (by decide)).trans hnode0) hgrownMain
    (hstart ▸ hremove)
  have hhead : t.insertNewHeadBlock (mockBlockstamp 0 200) = .ok (_, _) :=
    insertNewHeadBlock_outgrown (by decide) hp hparent (hgrownLen ▸ Nat.lt_succ_self _) hpruned
  have hkept : ∀ i ≠ 0, ForkTree.node? { ended with
      nodes := ended.nodes.set 0 none, root := some 1 } i = ended.node? i := by
    intro i hi
    rw [ForkTree.node?, List.getElem?_set_ne hi.symm]
    rfl
  refine ⟨s, t, _, _, hs, hrun, hhead, ?_, ?_, ?_, ?_⟩
  · rw [withSheet_node?, hkept 4 (by decide), hremoves.node?, if_neg (by decide), hnode4']
  · rw [withSheet_node?, hkept 3 (by decide), hremoves.node?, if_pos (by decide)]
  · rw [mem_withSheet_sheets]
    refine .inr ((hremoves.sheets 4).2 ⟨?_, by decide⟩)
    rw [← hstart]
    exact hgrownSheet
  · intro i n hn
    rw [withSheet_node?] at hn
    by_cases hi : i = 0
    · subst hi
      simp only [ForkTree.node?, List.getElem?_set] at hn
      grind
    · rw [hkept i hi] at hn
      have hn' := hremoves.node?_of_some hn
      rw [hstartNode] at hn'
      exact hgrownBound i n hn'

/-- The blocks of the main branch that follow, up to the one that outgrows the window. -/
def strandedForksOps : List ForksOp :=
  (List.range' 3 198).map fun k => .head (mockDALBlock 0 k)

/-- The algorithm fails on the sheets that lost their parent. -/
theorem not_forkChoice_strandedForksOps :
    ∃ s, (strandForksOps ++ strandedForksOps).foldlM ForksOp.apply default = .ok s ∧
      ∀ S, ¬ ForkChoice S s.forks (mockBlockstamp 0 200) ∅ := by
  obtain ⟨s, t, tree, removed, hs, hrun, hhead, hnode4, hnode3, hsheet, hbound⟩ :=
    exists_strandedSheet
  obtain ⟨s', hs', rfl⟩ := heads_ok_of_tree 0 hrun
  have hstamp : (mockDALBlock 0 200).blockstamp = .ok (mockBlockstamp 0 200) := rfl
  obtain ⟨s'', hs'', rfl, -⟩ := head_ok_of_tree hstamp hhead
  have hops : strandedForksOps =
      ((List.range' 3 197).map fun k => ForksOp.head (mockDALBlock 0 k)) ++
        [.head (mockDALBlock 0 200)] := by
    rw [strandedForksOps, show 198 = 197 + 1 from rfl, ← List.range'_append_1, List.map_append]
    rfl
  have hfold : (strandForksOps ++ strandedForksOps).foldlM ForksOp.apply default = .ok s'' := by
    rw [List.foldlM_append, hs, ok_bind, hops, List.foldlM_append, hs', ok_bind, List.foldlM_cons,
      hs'']
    rfl
  have hreached : Reached default ForksOp.apply (fun _ op => op.Bounded) s'' := by
    refine .of_foldlM .init (fun op hop _ => ?_) hfold
    rcases List.mem_append.1 hop with hop | hop
    · have hbounded : ∀ op ∈ strandForksOps, op.Bounded := by decide
      exact hbounded op hop
    · obtain ⟨k, hk, rfl⟩ := List.mem_map.1 hop
      have hlt : k < 201 := (List.mem_range'_1.1 hk).2
      change k + 200 < 4294967296 ∧ 300 * k + 900 < 18446744073709551616
      exact ⟨by omega, by omega⟩
  refine ⟨s'', hfold, fun S hchoice => ?_⟩
  have hcondition := (choiceInv_of_reached hreached).forkChoice_iff.1 hchoice
  obtain ⟨sheets, hsheets⟩ := exists_getSheets_iff.2 hcondition.live
  have hmem : ((4, mockBlockstamp 1 2) : Sheet) ∈ S.sort sheets :=
    (S.perm sheets).mem_iff.2 ((mem_getSheets_iff hsheets _).2 ⟨hsheet, _, hnode4, rfl⟩)
  obtain ⟨before, after, hsplit⟩ := List.append_of_mem hmem
  have hineligible : ∀ id branch, ¬ Eligible s''.forks (mockBlockstamp 0 200) ∅ id branch := by
    rintro id branch heligible
    obtain ⟨-, -, head, -, -, -, hhead, -, hahead, -⟩ := heligible.ahead
    obtain ⟨node, p, above, hnode, -⟩ := heligible.branchOf
    rw [heligible.branchOf.getLast?_eq hnode] at hhead
    obtain rfl := Option.some.inj hhead
    have hle := hbound id node hnode
    rw [mockBlockstamp_id, advanceBlocks] at hahead
    grind
  obtain ⟨⟨node, hnode, hwhole⟩, -⟩ := hcondition.whole sheets before _ after hsheets hsplit
    (fun s _ branch => hineligible s.1 branch) (by decide)
  rw [hnode4] at hnode
  obtain rfl := Option.some.inj hnode
  obtain ⟨above, hpath⟩ := hwhole 3 rfl
  obtain ⟨parent, hparent⟩ := hpath.live
  rw [hnode3] at hparent
  cases hparent

end Durs
