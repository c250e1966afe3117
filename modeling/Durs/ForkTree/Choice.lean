/-
# Fork choice

The fork resolution algorithm returns the branch of the first eligible sheet in the order in which
it reads them.  It fails on a sheet whose ancestors were pruned away below the main branch, unless
an eligible sheet comes first.
-/

import Durs.Blockchain.ForkAlgo
import Durs.ForkTree.Shape
import Durs.ForkTree.Store
import Mathlib.Data.List.Chain

namespace Durs

open RustStd Lib

namespace ForkTree

/-! ## Branches -/

/-- The branch of a node: its block and those climbed above it, read outwards. -/
def BranchOf (t : ForkTree) (id : TreeNodeId) (branch : List Blockstamp) : Prop :=
  ∃ node p above, t.node? id = some node ∧ node.parent = some p ∧ t.OffMainPath p above ∧
    branch = (node.data :: above.map fun e => e.2.data).reverse

/-- A node is live and so are its ancestors up to the main branch. -/
def Whole (t : ForkTree) (id : TreeNodeId) : Prop :=
  ∃ node, t.node? id = some node ∧ ∀ p, node.parent = some p → ∃ above, t.OffMainPath p above

/-- A whole path: live nodes, each the parent of the next and numbered one below it, off the main
branch but for the last, from the child of a main-branch block up to a given node. -/
structure WholePath (t : ForkTree) (id : TreeNodeId) (path : List (TreeNodeId × TreeNode)) :
    Prop where
  live : ∀ e ∈ path, t.node? e.1 = some e.2
  linked : path.IsChain fun e e' => e'.2.parent = some e.1 ∧ e'.2.data.id = e.2.data.id + 1
  off : ∀ e ∈ path.dropLast, t.OffMain e.2
  first : ∃ e p main, path.head? = some e ∧ e.2.parent = some p ∧ t.node? p = some main ∧
    t.OnMain main
  last : path.getLast?.map Prod.fst = some id

variable {t : ForkTree} {id p : TreeNodeId} {node : TreeNode} {branch : List Blockstamp}

/-- The branch function returns on a whole node. -/
theorem getForkBranch_eq_ok_iff (h : TreeShape t) :
    t.getForkBranch id = .ok branch ↔
      (∃ node, t.node? id = some node ∧ node.parent = none ∧ branch = [node.data]) ∨
        t.BranchOf id branch := by
  simp only [getForkBranch, bind_eq_ok_iff, getRefNode_eq_ok_iff, pure_eq_ok_iff]
  constructor
  · rintro ⟨node, hnode, above, habove, rfl⟩
    cases hparent : node.parent with
    | none =>
        simp only [climbAbove, hparent, pure_eq_ok_iff] at habove
        subst habove
        exact .inl ⟨node, hnode, hparent, rfl⟩
    | some p =>
        simp only [climbAbove, hparent] at habove
        exact .inr ⟨node, p, above, hnode, hparent, offMainPath_of_climb habove, rfl⟩
  · rintro (⟨node, hnode, hparent, rfl⟩ | ⟨node, p, above, hnode, hparent, hpath, rfl⟩)
    · exact ⟨node, hnode, [], by rw [climbAbove, hparent]; rfl, rfl⟩
    · refine ⟨node, hnode, above, ?_, rfl⟩
      rw [climbAbove, hparent]
      refine climb_of_offMainPath _ hpath (Nat.lt_succ_of_le ?_)
      have hlt := h.parentLt id node p hnode hparent
      have hlen := lt_length_of_node? hnode
      exact Nat.le_trans (hpath.length_le h.parentLt) (Nat.le_of_lt (Nat.lt_of_le_of_lt hlt hlen))

/-- The head of a branch is the block of its node. -/
theorem BranchOf.getLast?_eq (h : t.BranchOf id branch) (hnode : t.node? id = some node) :
    branch.getLast? = some node.data := by
  obtain ⟨node', p, above, hnode', -, -, rfl⟩ := h
  rw [hnode] at hnode'
  obtain rfl := Option.some.inj hnode'
  simp

/-- A node with a branch is whole. -/
theorem BranchOf.whole (h : t.BranchOf id branch) : t.Whole id := by
  obtain ⟨node, p, above, hnode, hparent, hpath, -⟩ := h
  refine ⟨node, hnode, fun q hq => ⟨above, ?_⟩⟩
  rw [hparent] at hq
  obtain rfl := Option.some.inj hq
  exact hpath

/-- The nodes climbed from `p` on, read outwards, are a whole path but for the node below. -/
theorem wholePath_of_offMainPath (h : TreeShape t) {above : List (TreeNodeId × TreeNode)}
    (hpath : t.OffMainPath p above) :
    ∀ {id node}, t.node? id = some node → node.parent = some p →
      t.WholePath id (((id, node) :: above).reverse) := by
  induction hpath with
  | @onMain p main hnode hon =>
      intro id node hid hparent
      exact {
        live := by simpa using hid
        linked := by simp
        off := by simp
        first := ⟨(id, node), p, main, rfl, hparent, hnode, hon⟩
        last := rfl }
  | top hnode hoff hparent =>
      exact absurd (h.onMain_of_parentless hnode hparent) (not_onMain_of_offMain hoff)
  | @step p q pNode rest hnode hoff hparent hrest ih =>
      intro id node hid hidParent
      have hbelow := ih hnode hparent
      have hentries := OffMainPath.step hnode hoff hparent hrest
      have hnumber := h.numbered id node p pNode hid hidParent hnode
      rw [List.reverse_cons]
      refine {
        live := ?_
        linked := ?_
        off := ?_
        first := ?_
        last := by simp }
      · intro e he
        rcases List.mem_append.1 he with he | he
        · exact hbelow.live e he
        · rw [List.mem_singleton.1 he]
          exact hid
      · refine List.isChain_append.2 ⟨hbelow.linked, .singleton _, ?_⟩
        rintro e he e' he'
        simp only [List.getLast?_reverse, List.head?_cons, Option.mem_some] at he he'
        subst he he'
        exact ⟨hidParent, hnumber⟩
      · intro e he
        rw [List.dropLast_concat, List.mem_reverse] at he
        exact (hentries.mem he).2
      · obtain ⟨e, q', main, he, hfirst⟩ := hbelow.first
        exact ⟨e, q', main, by rw [List.head?_append, he]; rfl, hfirst⟩

/-- The branch of a node is a whole path. -/
theorem BranchOf.wholePath (h : TreeShape t) (hbranch : t.BranchOf id branch) :
    ∃ path, t.WholePath id path ∧ branch = path.map fun e => e.2.data := by
  obtain ⟨node, p, above, hnode, hparent, hpath, rfl⟩ := hbranch
  exact ⟨_, wholePath_of_offMainPath h hpath hnode hparent, by simp⟩

/-- The sheets the tree returns. -/
theorem mem_getSheets_iff {sheets : List Sheet} (h : t.getSheets = .ok sheets) (sheet : Sheet) :
    sheet ∈ sheets ↔ sheet.1 ∈ t.sheets ∧ ∃ node, t.node? sheet.1 = some node ∧
      sheet.2 = node.data := by
  rw [mem_mapM_iff h]
  simp only [bind_eq_ok_iff, getRefNode_eq_ok_iff, pure_eq_ok_iff, HashSet.mem_iter]
  constructor
  · rintro ⟨id, hid, node, hnode, rfl⟩
    exact ⟨hid, node, hnode, rfl⟩
  · rintro ⟨hid, node, hnode, hdata⟩
    exact ⟨sheet.1, hid, node, hnode, by rw [← hdata]⟩

/-- The tree returns its sheets exactly when all of them are live. -/
theorem exists_getSheets_iff :
    (∃ sheets, t.getSheets = .ok sheets) ↔ ∀ id ∈ t.sheets, ∃ node, t.node? id = some node := by
  constructor
  · rintro ⟨sheets, hsheets⟩ id hid
    obtain ⟨sheet, hsheet⟩ := exists_of_mapM hsheets id hid
    simp only [bind_eq_ok_iff, getRefNode_eq_ok_iff] at hsheet
    obtain ⟨node, hnode, -⟩ := hsheet
    exact ⟨node, hnode⟩
  · intro h
    refine exists_mapM fun id hid => ?_
    obtain ⟨node, hnode⟩ := h id hid
    exact ⟨(id, node.data), by rw [getRefNode_eq_ok_iff.2 hnode]; rfl⟩

end ForkTree

/-! ## Eligible sheets -/

/-- A sheet is eligible with its branch: its head is far enough ahead of the current block, in
number and in median time, its first block is within the fork window of the current block, and no
block of the branch is invalid. -/
structure Eligible (forks : ForksDBs) (currentBlockstamp : Blockstamp)
    (invalidBlocks : HashSet Blockstamp) (id : TreeNodeId) (branch : List Blockstamp) : Prop where
  branchOf : forks.forkTreeDb.BranchOf id branch
  ahead : ∃ currentBlock first head headBlock,
    forks.forkBlocksDb.get? currentBlockstamp = some currentBlock ∧
    branch.head? = some first ∧ branch.getLast? = some head ∧
    forks.forkBlocksDb.get? head = some headBlock ∧
    currentBlockstamp.id + advanceBlocks ≤ head.id ∧
    currentBlock.block.medianTime + advanceTime ≤ headBlock.block.medianTime ∧
    currentBlockstamp.id < first.id + forkWindowSize
  valid : ∀ blockstamp ∈ branch, blockstamp ∉ invalidBlocks

/-- What the algorithm should do: it returns, it returns a branch exactly when some sheet is
eligible, and that branch is the whole path up to an eligible sheet. -/
def ForkChoice (S : SheetSort) (forks : ForksDBs) (currentBlockstamp : Blockstamp)
    (invalidBlocks : HashSet Blockstamp) : Prop :=
  ∃ result, forkResolutionAlgo S forks currentBlockstamp invalidBlocks = .ok result ∧
    (result.isSome ↔ ∃ id ∈ forks.forkTreeDb.sheets, ∃ branch,
      Eligible forks currentBlockstamp invalidBlocks id branch) ∧
    ∀ branch, result = some branch → ∃ id ∈ forks.forkTreeDb.sheets,
      Eligible forks currentBlockstamp invalidBlocks id branch ∧
      ∃ path, forks.forkTreeDb.WholePath id path ∧ branch = path.map fun e => e.2.data

/-- When it does: the current block is stored, the sheets are live, and every sheet but the current
block that no eligible sheet precedes is stored and whole. -/
structure ChoiceCondition (S : SheetSort) (forks : ForksDBs) (currentBlockstamp : Blockstamp)
    (invalidBlocks : HashSet Blockstamp) : Prop where
  current : forks.forkBlocksDb.containsKey currentBlockstamp = true
  live : ∀ id ∈ forks.forkTreeDb.sheets, ∃ node, forks.forkTreeDb.node? id = some node
  whole : ∀ sheets before sheet after, forks.forkTreeDb.getSheets = .ok sheets →
    S.sort sheets = before ++ sheet :: after →
    (∀ s ∈ before, ∀ branch, ¬ Eligible forks currentBlockstamp invalidBlocks s.1 branch) →
    sheet.2 ≠ currentBlockstamp →
    forks.forkTreeDb.Whole sheet.1 ∧ forks.forkBlocksDb.containsKey sheet.2 = true

/-- A block whose number and median time leave room for the thresholds. -/
def DALBlock.Bounded (dalBlock : DALBlock) : Prop :=
  dalBlock.block.number + forkWindowSize < 4294967296 ∧
    dalBlock.block.medianTime + advanceTime < 18446744073709551616

/-- What the algorithm relies on: the shape of the tree, stored blocks that the tree carries, and
numbers and times that leave room for the thresholds. -/
structure ChoiceInv (forks : ForksDBs) : Prop where
  shape : forks.forkTreeDb.TreeShape
  numbers : ∀ blockstamp, forks.forkTreeDb.Carries blockstamp →
    blockstamp.id + forkWindowSize < 4294967296
  stored : ∀ blockstamp dalBlock, forks.forkBlocksDb.get? blockstamp = some dalBlock →
    forks.forkTreeDb.Carries blockstamp ∧
      dalBlock.block.medianTime + advanceTime < 18446744073709551616
  orphans : ∀ blockstamp dalBlocks, forks.orphanBlocksDb.get? blockstamp = some dalBlocks →
    ∀ dalBlock ∈ dalBlocks, dalBlock.Bounded

variable {S : SheetSort} {forks : ForksDBs} {currentBlockstamp : Blockstamp}
  {invalidBlocks : HashSet Blockstamp} {currentBlock : DALBlock} {sheet : Sheet}
  {branch : List Blockstamp}

/-- The current block is not ahead of itself. -/
theorem Eligible.ne_current {node : TreeNode}
    (h : Eligible forks currentBlockstamp invalidBlocks sheet.1 branch)
    (hnode : forks.forkTreeDb.node? sheet.1 = some node) (hdata : sheet.2 = node.data) :
    sheet.2 ≠ currentBlockstamp := by
  rintro hcurrent
  obtain ⟨-, -, head, -, -, -, hhead, -, hahead, -⟩ := h.ahead
  rw [h.branchOf.getLast?_eq hnode, Option.some.injEq] at hhead
  rw [← hhead, ← hdata, hcurrent, advanceBlocks] at hahead
  grind

/-- A branch is never empty. -/
theorem ForkTree.ne_nil_of_getForkBranch {t : ForkTree} {id : TreeNodeId}
    (h : t.getForkBranch id = .ok branch) : branch ≠ [] := by
  simp only [getForkBranch, bind_eq_ok_iff, pure_eq_ok_iff] at h
  obtain ⟨node, -, above, -, rfl⟩ := h
  simp

/-- The body of the loop returns when the branch does and its head is stored. -/
theorem selectBranch_eq_ok_iff {currentBcTime : Nat} {result : Option (List Blockstamp)} :
    selectBranch forks currentBlockstamp currentBcTime invalidBlocks sheet = .ok result ↔
      ∃ branch first head headBlock, forks.forkTreeDb.getForkBranch sheet.1 = .ok branch ∧
        branch.head? = some first ∧ branch.getLast? = some head ∧
        forks.forkBlocksDb.get? head = some headBlock ∧
        result = if Advanced currentBlockstamp currentBcTime invalidBlocks branch first head
          headBlock.block.medianTime then some branch else none := by
  rw [selectBranch, bind_eq_ok_iff]
  constructor
  · rintro ⟨branch, hbranch, h⟩
    have hne := ForkTree.ne_nil_of_getForkBranch hbranch
    have hfirst := List.head?_eq_some_head hne
    have hhead := List.getLast?_eq_some_getLast hne
    simp only [hfirst, hhead, bind_eq_ok_iff, expect_eq_ok_iff, pure_eq_ok_iff] at h
    obtain ⟨headBlock, hblock, rfl⟩ := h
    exact ⟨branch, _, _, headBlock, hbranch, hfirst, hhead, hblock, rfl⟩
  · rintro ⟨branch, first, head, headBlock, hbranch, hfirst, hhead, hblock, rfl⟩
    refine ⟨branch, hbranch, ?_⟩
    simp only [hfirst, hhead, hblock, expect_some, ok_bind]
    rfl

namespace ChoiceInv

/-- The additions of the loop do not wrap. -/
theorem advanced_iff (h : ChoiceInv forks)
    (hcurrent : forks.forkBlocksDb.get? currentBlockstamp = some currentBlock)
    {id : TreeNodeId} (hbranch : forks.forkTreeDb.getForkBranch id = .ok branch)
    {first head : Blockstamp} (hfirst : branch.head? = some first) {headTime : Nat} :
    Advanced currentBlockstamp currentBlock.block.medianTime invalidBlocks branch first head
        headTime ↔
      currentBlockstamp.id + advanceBlocks ≤ head.id ∧
      currentBlock.block.medianTime + advanceTime ≤ headTime ∧
      currentBlockstamp.id < first.id + forkWindowSize ∧
      ∀ blockstamp ∈ branch, blockstamp ∉ invalidBlocks := by
  obtain ⟨hcarries, htime⟩ := h.stored _ _ hcurrent
  have hnumber := h.numbers _ hcarries
  have hnumber' := h.numbers _
    (ForkTree.carries_of_getForkBranch hbranch first (List.mem_of_head? hfirst))
  have hle : currentBlockstamp.id + advanceBlocks < 4294967296 :=
    Nat.lt_of_le_of_lt (Nat.add_le_add_left (by decide) _) hnumber
  simp only [Advanced, addU32, addU64, Nat.mod_eq_of_lt hle, Nat.mod_eq_of_lt htime,
    Nat.mod_eq_of_lt hnumber', ge_iff_le, gt_iff_lt, List.all_eq_true, Bool.not_eq_true',
    ← HashSet.contains_iff, Bool.not_eq_true]

/-- No stored block is below a root without parent. -/
theorem root_le_current (h : ChoiceInv forks)
    (hcurrent : forks.forkBlocksDb.get? currentBlockstamp = some currentBlock)
    {id : TreeNodeId} {node : TreeNode} (hnode : forks.forkTreeDb.node? id = some node)
    (hparent : node.parent = none) : node.data.id ≤ currentBlockstamp.id := by
  obtain ⟨⟨i, current, hi, rfl⟩, -⟩ := h.stored _ _ hcurrent
  exact h.shape.nodeAbove id node i current (h.shape.parentless id node hnode hparent) hnode
    hparent hi

/-- The body of the loop returns the branch of an eligible sheet. -/
theorem selectBranch_eq_some_iff (h : ChoiceInv forks)
    (hcurrent : forks.forkBlocksDb.get? currentBlockstamp = some currentBlock) :
    selectBranch forks currentBlockstamp currentBlock.block.medianTime invalidBlocks sheet =
      .ok (some branch) ↔ Eligible forks currentBlockstamp invalidBlocks sheet.1 branch := by
  rw [selectBranch_eq_ok_iff]
  constructor
  · rintro ⟨branch', first, head, headBlock, hbranch, hfirst, hhead, hblock, hresult⟩
    split at hresult
    case isFalse => cases hresult
    case isTrue hadvanced =>
      obtain rfl := Option.some.inj hresult
      obtain ⟨hblocks, htime, hwindow, hvalid⟩ :=
        (h.advanced_iff hcurrent hbranch hfirst).1 hadvanced
      rcases (ForkTree.getForkBranch_eq_ok_iff h.shape).1 hbranch with
        ⟨node, hnode, hparent, rfl⟩ | hbranchOf
      · -- The sheet is the root, which is not ahead of any stored block.
        have hle := h.root_le_current hcurrent hnode hparent
        obtain rfl := Option.some.inj hhead
        rw [advanceBlocks] at hblocks
        grind
      · exact ⟨hbranchOf, ⟨currentBlock, first, head, headBlock, hcurrent, hfirst, hhead, hblock,
          hblocks, htime, hwindow⟩, hvalid⟩
  · intro heligible
    obtain ⟨currentBlock', first, head, headBlock, hcurrent', hfirst, hhead, hblock, hblocks, htime,
      hwindow⟩ := heligible.ahead
    rw [hcurrent] at hcurrent'
    obtain rfl := Option.some.inj hcurrent'
    have hbranch := (ForkTree.getForkBranch_eq_ok_iff h.shape).2 (.inr heligible.branchOf)
    refine ⟨branch, first, head, headBlock, hbranch, hfirst, hhead, hblock, ?_⟩
    rw [if_pos ((h.advanced_iff hcurrent hbranch hfirst).2
      ⟨hblocks, htime, hwindow, heligible.valid⟩)]

/-- The body of the loop returns on a stored sheet that is whole. -/
theorem exists_selectBranch_iff (h : ChoiceInv forks) {currentBcTime : Nat} {node : TreeNode}
    (hnode : forks.forkTreeDb.node? sheet.1 = some node) :
    (∃ result, selectBranch forks currentBlockstamp currentBcTime invalidBlocks sheet =
      .ok result) ↔ forks.forkTreeDb.Whole sheet.1 ∧
        forks.forkBlocksDb.containsKey node.data = true := by
  simp only [selectBranch_eq_ok_iff, HashMap.containsKey_iff]
  constructor
  · rintro ⟨-, branch, first, head, headBlock, hbranch, -, hhead, hblock, -⟩
    rcases (ForkTree.getForkBranch_eq_ok_iff h.shape).1 hbranch with
      ⟨node', hnode', hparent, rfl⟩ | hbranchOf
    · rw [hnode] at hnode'
      obtain rfl := Option.some.inj hnode'
      obtain rfl := Option.some.inj hhead
      refine ⟨⟨node, hnode, fun p hp => ?_⟩, headBlock, hblock⟩
      rw [hparent] at hp
      cases hp
    · rw [hbranchOf.getLast?_eq hnode, Option.some.injEq] at hhead
      exact ⟨hbranchOf.whole, headBlock, hhead ▸ hblock⟩
  · rintro ⟨⟨node', hnode', hwhole⟩, headBlock, hblock⟩
    rw [hnode] at hnode'
    obtain rfl := Option.some.inj hnode'
    cases hparent : node.parent with
    | none =>
        have hbranch := (ForkTree.getForkBranch_eq_ok_iff h.shape).2
          (.inl ⟨node, hnode, hparent, rfl⟩)
        exact ⟨_, _, node.data, node.data, headBlock, hbranch, rfl, rfl, hblock, rfl⟩
    | some p =>
        obtain ⟨above, hpath⟩ := hwhole p hparent
        have hbranchOf : forks.forkTreeDb.BranchOf sheet.1 _ :=
          ⟨node, p, above, hnode, hparent, hpath, rfl⟩
        have hbranch := (ForkTree.getForkBranch_eq_ok_iff h.shape).2 (.inr hbranchOf)
        have hfirst := List.head?_eq_some_head (ForkTree.ne_nil_of_getForkBranch hbranch)
        exact ⟨_, _, _, node.data, headBlock, hbranch, hfirst, hbranchOf.getLast?_eq hnode,
          hblock, rfl⟩

end ChoiceInv

/-! ## The loop over the sheets -/

/-- The body of the loop goes on to the next sheet. -/
def Passes (forks : ForksDBs) (currentBlockstamp : Blockstamp) (currentBcTime : Nat)
    (invalidBlocks : HashSet Blockstamp) (sheet : Sheet) : Prop :=
  sheet.2 = currentBlockstamp ∨
    selectBranch forks currentBlockstamp currentBcTime invalidBlocks sheet = .ok none

theorem resolveSheets_of_passes {currentBcTime : Nat} {sheets : List Sheet}
    (h : Passes forks currentBlockstamp currentBcTime invalidBlocks sheet) :
    resolveSheets forks currentBlockstamp currentBcTime invalidBlocks (sheet :: sheets) =
      resolveSheets forks currentBlockstamp currentBcTime invalidBlocks sheets := by
  by_cases hcurrent : sheet.2 = currentBlockstamp
  · simp only [resolveSheets, hcurrent, ne_eq, not_true_eq_false, if_false, pure_bind]
  · simp only [resolveSheets, ne_eq, hcurrent, not_false_eq_true, if_true,
      h.resolve_left hcurrent, ok_bind]

theorem resolveSheets_of_selected {currentBcTime : Nat} {sheets : List Sheet}
    (hcurrent : sheet.2 ≠ currentBlockstamp)
    (h : selectBranch forks currentBlockstamp currentBcTime invalidBlocks sheet =
      .ok (some branch)) :
    resolveSheets forks currentBlockstamp currentBcTime invalidBlocks (sheet :: sheets) =
      .ok (some branch) := by
  simp only [resolveSheets, ne_eq, hcurrent, not_false_eq_true, if_true, h, ok_bind]
  rfl

/-- The loop returns after passing over all sheets, or with the branch of the first sheet it does
not pass over. -/
theorem resolveSheets_ok {currentBcTime : Nat} {sheets : List Sheet}
    {result : Option (List Blockstamp)}
    (h : resolveSheets forks currentBlockstamp currentBcTime invalidBlocks sheets = .ok result) :
    (result = none ∧
      ∀ s ∈ sheets, Passes forks currentBlockstamp currentBcTime invalidBlocks s) ∨
    ∃ branch before sheet after, result = some branch ∧ sheets = before ++ sheet :: after ∧
      (∀ s ∈ before, Passes forks currentBlockstamp currentBcTime invalidBlocks s) ∧
      selectBranch forks currentBlockstamp currentBcTime invalidBlocks sheet =
        .ok (some branch) := by
  induction sheets with
  | nil =>
      rw [resolveSheets, pure_eq_ok_iff] at h
      exact .inl ⟨h.symm, by simp⟩
  | cons s sheets ih =>
      by_cases hs : Passes forks currentBlockstamp currentBcTime invalidBlocks s
      · rw [resolveSheets_of_passes hs] at h
        rcases ih h with ⟨rfl, hall⟩ | ⟨branch, before, sheet, after, rfl, rfl, hbefore, hselect⟩
        · exact .inl ⟨rfl, List.forall_mem_cons.2 ⟨hs, hall⟩⟩
        · exact .inr ⟨branch, s :: before, sheet, after, rfl, rfl,
            List.forall_mem_cons.2 ⟨hs, hbefore⟩, hselect⟩
      · obtain ⟨hcurrent, hnone⟩ := not_or.1 hs
        simp only [resolveSheets, ne_eq, hcurrent, not_false_eq_true, if_true,
          bind_eq_ok_iff] at h
        obtain ⟨selected, hselect, h⟩ := h
        cases selected with
        | none => exact absurd hselect hnone
        | some branch =>
            rw [pure_eq_ok_iff] at h
            exact .inr ⟨branch, [], s, sheets, h.symm, rfl, by simp, hselect⟩

/-- The loop returns when its body does on every sheet it comes to. -/
theorem exists_resolveSheets {currentBcTime : Nat} {sheets : List Sheet}
    (h : ∀ before sheet after, sheets = before ++ sheet :: after →
      (∀ s ∈ before, Passes forks currentBlockstamp currentBcTime invalidBlocks s) →
      sheet.2 ≠ currentBlockstamp → ∃ result,
        selectBranch forks currentBlockstamp currentBcTime invalidBlocks sheet = .ok result) :
    ∃ result, resolveSheets forks currentBlockstamp currentBcTime invalidBlocks sheets =
      .ok result := by
  induction sheets with
  | nil => exact ⟨none, rfl⟩
  | cons s sheets ih =>
      by_cases hs : Passes forks currentBlockstamp currentBcTime invalidBlocks s
      · rw [resolveSheets_of_passes hs]
        refine ih fun before sheet after hsplit hbefore => ?_
        exact h (s :: before) sheet after (by rw [hsplit]; rfl)
          (List.forall_mem_cons.2 ⟨hs, hbefore⟩)
      · obtain ⟨hcurrent, hnone⟩ := not_or.1 hs
        obtain ⟨result, hselect⟩ := h [] s sheets rfl (by simp) hcurrent
        cases result with
        | none => exact absurd hselect hnone
        | some branch => exact ⟨_, resolveSheets_of_selected hcurrent hselect⟩

/-! ## The choice and its condition -/

namespace ChoiceInv

/-- A sheet passed over is not eligible, and is whole and stored unless it is the current block. -/
theorem passes (h : ChoiceInv forks)
    (hcurrent : forks.forkBlocksDb.get? currentBlockstamp = some currentBlock) {node : TreeNode}
    (hnode : forks.forkTreeDb.node? sheet.1 = some node) (hdata : sheet.2 = node.data)
    (hpasses : Passes forks currentBlockstamp currentBlock.block.medianTime invalidBlocks sheet) :
    (∀ branch, ¬ Eligible forks currentBlockstamp invalidBlocks sheet.1 branch) ∧
      (sheet.2 ≠ currentBlockstamp → forks.forkTreeDb.Whole sheet.1 ∧
        forks.forkBlocksDb.containsKey sheet.2 = true) := by
  rcases hpasses with heq | hselect
  · exact ⟨fun branch heligible => heligible.ne_current hnode hdata heq, fun hne => absurd heq hne⟩
  · refine ⟨fun branch heligible => ?_, fun _ => ?_⟩
    · rw [(h.selectBranch_eq_some_iff hcurrent).2 heligible] at hselect
      cases hselect
    · rw [hdata]
      exact (h.exists_selectBranch_iff hnode).1 ⟨none, hselect⟩

/-- The algorithm makes the right choice exactly under the condition. -/
theorem forkChoice_iff (h : ChoiceInv forks) :
    ForkChoice S forks currentBlockstamp invalidBlocks ↔
      ChoiceCondition S forks currentBlockstamp invalidBlocks := by
  constructor
  · rintro ⟨result, hrun, -, -⟩
    simp only [forkResolutionAlgo, bind_eq_ok_iff, expect_eq_ok_iff] at hrun
    obtain ⟨currentBlock, hcurrent, sheets, hsheets, hloop⟩ := hrun
    refine ⟨(HashMap.containsKey_iff _ _).2 ⟨currentBlock, hcurrent⟩,
      ForkTree.exists_getSheets_iff.1 ⟨sheets, hsheets⟩, ?_⟩
    intro sheets' before sheet after hsheets' hsplit hbefore hne
    rw [hsheets] at hsheets'
    obtain rfl := Except.ok.inj hsheets'
    have hlive : ∀ s ∈ S.sort sheets, ∃ node, forks.forkTreeDb.node? s.1 = some node ∧
        s.2 = node.data := fun s hs =>
      ((ForkTree.mem_getSheets_iff hsheets s).1 ((S.perm sheets).mem_iff.1 hs)).2
    obtain ⟨node, hnode, hdata⟩ := hlive sheet (by rw [hsplit]; simp)
    rcases resolveSheets_ok hloop with ⟨-, hall⟩ |
      ⟨branch, before', sheet', after', -, hsplit', hbefore', hselect⟩
    · exact (h.passes hcurrent hnode hdata (hall sheet (by rw [hsplit]; simp))).2 hne
    · have heligible := (h.selectBranch_eq_some_iff hcurrent).1 hselect
      rw [hsplit] at hsplit'
      rcases List.append_eq_append_iff.1 hsplit' with ⟨l, rfl, hl⟩ | ⟨l, rfl, hl⟩
      · cases l with
        | nil =>
            -- The sheet is the one selected.
            obtain ⟨rfl, -⟩ := List.cons.inj hl
            rw [hdata]
            exact (h.exists_selectBranch_iff hnode).1 ⟨_, hselect⟩
        | cons s l =>
            obtain ⟨rfl, -⟩ := List.cons.inj hl
            exact (h.passes hcurrent hnode hdata (hbefore' sheet (by simp))).2 hne
      · cases l with
        | nil =>
            obtain ⟨rfl, -⟩ := List.cons.inj hl
            rw [hdata]
            exact (h.exists_selectBranch_iff hnode).1 ⟨_, hselect⟩
        | cons s l =>
            obtain ⟨rfl, -⟩ := List.cons.inj hl
            exact absurd heligible (hbefore sheet' (by simp) branch)
  · intro hcondition
    obtain ⟨currentBlock, hcurrent⟩ := (HashMap.containsKey_iff _ _).1 hcondition.current
    obtain ⟨sheets, hsheets⟩ := ForkTree.exists_getSheets_iff.2 hcondition.live
    have hlive : ∀ s, s ∈ S.sort sheets ↔ s.1 ∈ forks.forkTreeDb.sheets ∧
        ∃ node, forks.forkTreeDb.node? s.1 = some node ∧ s.2 = node.data := fun s => by
      rw [(S.perm sheets).mem_iff, ForkTree.mem_getSheets_iff hsheets]
    obtain ⟨result, hloop⟩ : ∃ result, resolveSheets forks currentBlockstamp
        currentBlock.block.medianTime invalidBlocks (S.sort sheets) = .ok result := by
      refine exists_resolveSheets fun before sheet after hsplit hbefore hne => ?_
      obtain ⟨-, node, hnode, hdata⟩ := (hlive sheet).1 (by rw [hsplit]; simp)
      refine (h.exists_selectBranch_iff hnode).2 ?_
      rw [← hdata]
      refine hcondition.whole sheets before sheet after hsheets hsplit (fun s hs => ?_) hne
      obtain ⟨-, node', hnode', hdata'⟩ := (hlive s).1 (by rw [hsplit]; simp [hs])
      exact (h.passes hcurrent hnode' hdata' (hbefore s hs)).1
    have hrun : forkResolutionAlgo S forks currentBlockstamp invalidBlocks = .ok result := by
      simp only [forkResolutionAlgo, hcurrent, expect_some, ok_bind, hsheets, hloop]
    refine ⟨result, hrun, ?_⟩
    rcases resolveSheets_ok hloop with ⟨rfl, hall⟩ |
      ⟨branch, before, sheet, after, rfl, hsplit, -, hselect⟩
    · refine ⟨⟨fun hsome => absurd hsome Bool.false_ne_true, ?_⟩,
        fun branch hsome => absurd hsome (by simp)⟩
      rintro ⟨id, hid, branch, heligible⟩
      obtain ⟨node, hnode⟩ := hcondition.live id hid
      have hmem := (hlive (id, node.data)).2 ⟨hid, node, hnode, rfl⟩
      have hpasses := hall (id, node.data) hmem
      exact absurd heligible ((h.passes hcurrent hnode rfl hpasses).1 branch)
    · have heligible := (h.selectBranch_eq_some_iff hcurrent).1 hselect
      obtain ⟨hid, -⟩ := (hlive sheet).1 (by rw [hsplit]; simp)
      refine ⟨⟨fun _ => ⟨sheet.1, hid, branch, heligible⟩, fun _ => rfl⟩, ?_⟩
      intro branch' hsome
      obtain rfl := Option.some.inj hsome
      exact ⟨sheet.1, hid, heligible, heligible.branchOf.wholePath h.shape⟩

end ChoiceInv

end Durs
