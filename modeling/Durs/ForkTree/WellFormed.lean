/-
# Well-formed trees and the change of their main branch

A well-formed tree satisfies the representation invariant, numbers every block one above its parent
and keeps its main branch within the window.  The main branch of such a tree can be changed to any
live node; what that leaves of the abandoned branch depends on how many blocks the window moves.
-/

import Durs.ForkTree.MainChange
import Durs.ForkTree.Runs

namespace Durs

open RustStd Lib Relation

namespace ForkTree

/-- The representation invariant, with blocks numbered from their parents, each child listed once,
and a main branch that fits the window. -/
structure WellFormed (t : ForkTree) : Prop extends RepInv t where
  numbered : ∀ id node p parent, t.node? id = some node → node.parent = some p →
    t.node? p = some parent → node.data.id = parent.data.id + 1
  childrenNodup : ∀ id node, t.node? id = some node → node.children.Nodup
  window : t.mainBranch.len ≤ forkWindowSize

variable {t : ForkTree} {id : TreeNodeId} {node : TreeNode}

/-- The local invariant gives the global one. -/
theorem TreeInv.wellFormed (h : TreeInv t)
    (hnodup : ∀ id node, t.node? id = some node → node.children.Nodup)
    (hwindow : t.mainBranch.len ≤ forkWindowSize) : t.WellFormed :=
  { h.repInv with
    numbered := h.numbered
    childrenNodup := hnodup
    window := hwindow }

namespace WellFormed

/-- Every live node of a well-formed tree hangs from its root. -/
theorem hangs (h : t.WellFormed) (hnode : t.node? id = some node) : t.Hangs id := by
  rcases h.root id node hnode with ⟨r, rootNode, hroot, hr, hpath⟩
  refine ⟨r, rootNode, hroot, hr, ReflTransGen.mono ?_ _ _ hpath⟩
  rintro p c ⟨child, hchild, hname⟩
  exact h.parentLink c child p hchild hname

theorem rooted (h : t.WellFormed) (hnode : t.node? id = some node) : t.Rooted where
  childLink := by
    intro i n c _ hn hc
    rcases h.childLink i n c hn hc with ⟨child, hchild, hname⟩
    exact ⟨child, hchild, hname, h.numbered c child i n hchild hname hn⟩
  parentLink := by
    intro i n p hn hname _
    exact h.parentLink i n p hn hname
  childrenNodup := fun i n _ hn => h.childrenNodup i n hn
  mainBranch := by
    rcases h.mainBranch with ⟨hnone, -⟩ | hpath
    · rcases h.root id node hnode with ⟨r, -, hroot, -⟩
      rw [hnone] at hroot
      cases hroot
    · exact hpath
  unique := h.unique

/-- The root of a well-formed tree has no parent. -/
theorem root_parent (h : t.WellFormed) (hroot : t.root = some id) (hnode : t.node? id = some node) :
    node.parent = none := by
  cases hname : node.parent with
  | none => rfl
  | some p =>
      -- The parent would hang from the root and be numbered below it.
      rcases h.parentLink id node p hnode hname with ⟨parent, hparent, -⟩
      have hnumber := h.numbered id node p parent hnode hname hparent
      rcases h.hangs hparent with ⟨r, rootNode, hroot', hr, hpath⟩
      rw [hroot] at hroot'
      cases hroot'
      have hle := (h.rooted hnode).forest.rank_le (h.hangs hnode) hpath
      rw [number_eq hnode, number_eq hparent, hnumber] at hle
      exact absurd hle (Nat.not_succ_le_self _)

/-- The main branch is a path from the root to its last block. -/
theorem mainPath (h : t.WellFormed) {r : TreeNodeId} {rootNode : TreeNode}
    (hroot : t.root = some r) (hr : t.node? r = some rootNode) {last : BlockNumber}
    (hend : (t.mainBranch.get? last).isSome) (hlast : t.mainBranch.get? (last + 1) = none) :
    t.MainPath rootNode.data.id last := by
  rcases (h.rooted hr).mainBranch with ⟨first, last', hmain⟩
  rcases Rooted.exists_root hmain with ⟨r', rootNode', hroot', hr', hfirst, -⟩
  rw [hroot] at hroot'
  cases hroot'
  rw [hr] at hr'
  cases hr'
  have hrange := (hmain.range last).1 hend
  have hsame : last' = last := by
    refine Nat.le_antisymm (Nat.le_of_not_lt fun hlt => ?_) hrange.2
    have hnext := (hmain.range (last + 1)).2 ⟨Nat.le_succ_of_le hrange.1, hlt⟩
    rw [hlast] at hnext
    cases hnext
  rw [hfirst, ← hsame]
  exact hmain

end WellFormed

/-- A root that moves by what the new head is above the old one does not lengthen the branch. -/
theorem window_le (first old new : Nat) : new + 1 - (first + (new - old)) ≤ old + 1 - first := by
  omega

/-- A change of the main branch of a well-formed tree from its last block to any live node returns.
Then the main branch is the path from the root to that node and fits the window, no abandoned block
is on it, and the abandoned blocks are the fork branch of the old head when the fork block is at
least as high above the root as the new head is above the old one. -/
theorem changeMainBranch_path {oldHead newHead : TreeNodeId} {old new : TreeNode}
    (h : t.WellFormed) (hold : t.node? oldHead = some old)
    (hend : t.mainBranch.get? old.data.id = some oldHead)
    (hlast : t.mainBranch.get? (old.data.id + 1) = none) (hnew : t.node? newHead = some new) :
    ∃ t' r rootNode first fork, t.changeMainBranch old.data new.data = .ok t' ∧
      t.root = some r ∧ t.node? r = some rootNode ∧
      t'.MainPath first new.data.id ∧ t'.mainBranch.get? new.data.id = some newHead ∧
      t'.mainBranch.len ≤ forkWindowSize ∧ t.ForksAt newHead fork ∧
      (∀ k id, fork < k → t.mainBranch.get? k = some id →
        ∀ k', t'.mainBranch.get? k' ≠ some id) ∧
      (rootNode.data.id + (new.data.id - old.data.id) ≤ fork → fork < old.data.id →
        t'.getForkBranch oldHead = .ok (t.mainBlockstamps (fork + 1) old.data.id)) := by
  have hrooted := h.rooted hold
  rcases h.root oldHead old hold with ⟨r, rootNode, hroot, hr, -⟩
  have hmain := h.mainPath hroot hr (by rw [hend]; rfl) hlast
  rcases hrooted.changeMainBranch_ok hmain hnew (h.hangs hnew)
    (fun hroot' => h.root_parent hroot' hnew) with ⟨t', fork, hrun, hchange⟩
  refine ⟨t', r, rootNode, _, fork, hrun, hroot, hr, hchange.mainPath, hchange.top, ?_,
    hchange.forks, fun k id hk hid => hchange.main_ne hk hid, fun hkept hlt => ?_⟩
  · -- The window moves by what the new head is above the old one.
    have hwindow := h.window
    rw [hmain.len_eq] at hwindow
    rw [hchange.mainPath.len_eq]
    exact Nat.le_trans (window_le _ _ _) hwindow
  · exact hchange.getForkBranch_eq hrooted hmain hkept hlt hend

theorem childrenNodup_of_nodes (h : ∀ slot ∈ t.nodes, ∀ node ∈ slot, node.children.Nodup) :
    ∀ id node, t.node? id = some node → node.children.Nodup := by
  intro id node hnode
  exact h (some node) (List.mem_of_getElem? (node?_eq_some_iff.1 hnode)) node rfl

/-- Three heads, and two fork blocks above the second one. -/
def overtakingOps : List TreeOp :=
  [.head (mockBlockstamp 0 0), .head (mockBlockstamp 0 1), .head (mockBlockstamp 0 2),
    .fork (mockBlockstamp 1 2) (mockBlockstamp 0 1).hash,
    .fork (mockBlockstamp 1 3) (mockBlockstamp 1 2).hash]

/-- The main branch of this tree can be changed to the fork, which is longer. -/
theorem changeMainBranch_path_overtakingOps :
    ∃ t t' first, overtakingOps.foldlM TreeOp.apply default = .ok t ∧
      t.changeMainBranch (mockBlockstamp 0 2) (mockBlockstamp 1 3) = .ok t' ∧
      t'.MainPath first 3 ∧ t'.mainBranch.get? 3 = some 4 := by
  rcases Option.isSome_iff_exists.1 (show (guardedRun TreeOp.apply (fun t op => op.Allowed t)
    overtakingOps default).isSome by decide) with ⟨t, hguarded⟩
  have hrun := foldlM_of_guardedRun hguarded
  have hfacts : (∀ slot ∈ t.nodes, ∀ node ∈ slot, node.children.Nodup) ∧
      t.mainBranch.len ≤ forkWindowSize ∧ t.mainBranch.get? 2 = some 2 ∧
      t.mainBranch.get? 3 = none ∧ t.node? 2 = some ⟨some 1, [], mockBlockstamp 0 2⟩ ∧
      t.node? 4 = some ⟨some 3, [], mockBlockstamp 1 3⟩ := by
    obtain rfl := Except.ok.inj hrun
    decide
  rcases hfacts with ⟨hnodup, hwindow, hend, hlast, hold, hnew⟩
  have hformed : t.WellFormed :=
    (treeInv_of_reached (.of_guardedRun .init hguarded)).wellFormed
      (childrenNodup_of_nodes hnodup) hwindow
  rcases changeMainBranch_path hformed hold hend hlast hnew with
    ⟨t', -, -, first, -, hchange, -, -, hmain, htop, -⟩
  exact ⟨t, t', first, hrun, hchange, hmain, htop⟩

/-! ## A fork below a full window -/

/-- The node of the main block of a number, in its slot. -/
def deepMainNode (k : Nat) : TreeNode :=
  { parent := if k = 0 then none else some (k - 1)
    children := if k = 0 then [1, 200] else if k < 199 then [k + 1] else []
    data := mockBlockstamp 0 k }

/-- The node of the fork block of a number, in the slot after the main ones. -/
def deepForkNode (k : Nat) : TreeNode :=
  { parent := some (if k = 1 then 0 else 198 + k)
    children := if k < 200 then [200 + k] else []
    data := mockBlockstamp 1 k }

/-- A main branch that fills the window, and a fork of its first block that is as long. -/
def deepForkTree : ForkTree :=
  { root := some 0
    nodes := (List.range 200).map (fun k => some (deepMainNode k)) ++
      (List.range 200).map (fun k => some (deepForkNode (k + 1)))
    mainBranch := HashMap.ofList ((List.range 200).map fun k => (k, k))
    sheets := HashSet.ofList [199, 399]
    removedBlockstamps := [] }

theorem deepMainNode_parent (k p : Nat) : (deepMainNode k).parent = some p ↔ p + 1 = k := by
  rw [deepMainNode]
  cases k with
  | zero => simp
  | succ k => simp [eq_comm]

theorem mem_deepMainNode_children (k c : Nat) :
    c ∈ (deepMainNode k).children ↔ (c = k + 1 ∧ k < 199) ∨ (c = 200 ∧ k = 0) := by
  rw [deepMainNode]
  by_cases hzero : k = 0
  · simp [hzero]
  · by_cases hlt : k < 199 <;> simp [hzero, hlt]

theorem deepForkNode_parent (k p : Nat) :
    (deepForkNode k).parent = some p ↔ (k = 1 ∧ p = 0) ∨ (k ≠ 1 ∧ p = 198 + k) := by
  rw [deepForkNode]
  by_cases hone : k = 1 <;> simp [hone, eq_comm]

theorem mem_deepForkNode_children (k c : Nat) :
    c ∈ (deepForkNode k).children ↔ c = 200 + k ∧ k < 200 := by
  rw [deepForkNode]
  by_cases hlt : k < 200 <;> simp [hlt]

theorem deepForkTree_main (k : Nat) (hk : k < 200) :
    deepForkTree.node? k = some (deepMainNode k) := by
  rw [ForkTree.node?, deepForkTree, List.getElem?_append_left (by simpa using hk)]
  simp [hk]

theorem deepForkTree_fork (k : Nat) (hk : 1 ≤ k) (hk' : k ≤ 200) :
    deepForkTree.node? (199 + k) = some (deepForkNode k) := by
  have hslot : 199 + k - 200 = k - 1 := by omega
  have hlt : k - 1 < 200 := by omega
  rw [ForkTree.node?, deepForkTree, List.getElem?_append_right (by simp; omega)]
  simp [hslot, hlt, Nat.sub_add_cancel hk]

/-- Every live node is one of these. -/
theorem deepForkTree_cases {id : Nat} (hnode : deepForkTree.node? id = some node) :
    (id < 200 ∧ node = deepMainNode id) ∨
      ∃ k, id = 199 + k ∧ 1 ≤ k ∧ k ≤ 200 ∧ node = deepForkNode k := by
  have hlength : deepForkTree.nodes.length = 400 := by simp [deepForkTree]
  have hlt : id < 400 := hlength ▸ lt_length_of_node? hnode
  by_cases hmain : id < 200
  · rw [deepForkTree_main id hmain] at hnode
    exact .inl ⟨hmain, (Option.some.inj hnode).symm⟩
  · have hslot : id = 199 + (id - 199) := by omega
    rw [hslot, deepForkTree_fork (id - 199) (by omega) (by omega)] at hnode
    exact .inr ⟨id - 199, hslot, by omega, by omega, (Option.some.inj hnode).symm⟩

theorem deepForkTree_get? (k : Nat) :
    deepForkTree.mainBranch.get? k = if k < 200 then some k else none := by
  by_cases hk : k < 200
  · have hkeys : ((List.range 200).map fun k => ((k, k) : BlockNumber × TreeNodeId)).Pairwise
        fun e e' => e.1 ≠ e'.1 := by
      rw [List.pairwise_map]
      exact List.nodup_range
    have hmem : ((k, k) : BlockNumber × TreeNodeId) ∈ (List.range 200).map fun k => (k, k) :=
      List.mem_map.2 ⟨k, List.mem_range.2 hk, rfl⟩
    rw [if_pos hk]
    exact HashMap.get?_insertAll_of_mem ∅ hkeys hmem
  · rw [if_neg hk]
    refine HashMap.get?_insertAll_of_forall_ne (K := BlockNumber) _ fun entry hentry => ?_
    rcases List.mem_map.1 hentry with ⟨j, hj, rfl⟩
    have hlt := List.mem_range.1 hj
    exact fun hsame => hk (hsame ▸ hlt)

/-- Blocks of two branches differ. -/
theorem mockBlockstamp_ne (j k : Nat) : mockBlockstamp 0 j ≠ mockBlockstamp 1 k := by
  intro hsame
  have hnumber : j = k := congrArg Blockstamp.id hsame
  have hhash := congrArg (fun b : Blockstamp => BitVec.toNat b.hash) hsame
  simp only [mockBlockstamp, BitVec.toNat_ofNat] at hhash
  omega

theorem treeInv_deepForkTree : TreeInv deepForkTree := by
  have hroot : deepForkTree.root = some 0 := rfl
  constructor
  case parentLink =>
    intro id node p hid hp
    rcases deepForkTree_cases hid with ⟨hlt, rfl⟩ | ⟨k, rfl, hk, hk', rfl⟩
    · rw [deepMainNode_parent] at hp
      subst hp
      exact ⟨_, deepForkTree_main p (Nat.lt_of_succ_lt hlt),
        (mem_deepMainNode_children p (p + 1)).2 (.inl ⟨rfl, Nat.lt_of_succ_lt_succ hlt⟩)⟩
    · rcases (deepForkNode_parent k p).1 hp with ⟨rfl, rfl⟩ | ⟨hne, rfl⟩
      · exact ⟨_, deepForkTree_main 0 (by omega), (mem_deepMainNode_children 0 200).2 (.inr ⟨rfl, rfl⟩)⟩
      · have hslot : 198 + k = 199 + (k - 1) := by omega
        rw [hslot]
        refine ⟨_, deepForkTree_fork (k - 1) (by omega) (by omega), ?_⟩
        exact (mem_deepForkNode_children (k - 1) (199 + k)).2 ⟨by omega, by omega⟩
  case childLink =>
    intro id node c hid hc
    rcases deepForkTree_cases hid with ⟨hlt, rfl⟩ | ⟨k, rfl, hk, hk', rfl⟩
    · rcases (mem_deepMainNode_children id c).1 hc with ⟨rfl, hlast⟩ | ⟨rfl, rfl⟩
      · exact ⟨_, deepForkTree_main (id + 1) (Nat.succ_lt_succ hlast),
          (deepMainNode_parent (id + 1) id).2 rfl⟩
      · exact ⟨_, deepForkTree_fork 1 (by omega) (by omega),
          (deepForkNode_parent 1 0).2 (.inl ⟨rfl, rfl⟩)⟩
    · rcases (mem_deepForkNode_children k c).1 hc with ⟨rfl, hlast⟩
      have hslot : 200 + k = 199 + (k + 1) := by omega
      rw [hslot]
      exact ⟨_, deepForkTree_fork (k + 1) (by omega) (by omega),
        (deepForkNode_parent (k + 1) (199 + k)).2 (.inr ⟨by omega, by omega⟩)⟩
  case parentLt =>
    intro id node p hid hp
    rcases deepForkTree_cases hid with ⟨hlt, rfl⟩ | ⟨k, rfl, hk, hk', rfl⟩
    · rw [deepMainNode_parent] at hp
      exact hp ▸ Nat.lt_succ_self p
    · rcases (deepForkNode_parent k p).1 hp with ⟨rfl, rfl⟩ | ⟨hne, rfl⟩
      · decide
      · exact Nat.add_lt_add_right (by decide) k
  case numbered =>
    intro id node p parent hid hp hparent
    rcases deepForkTree_cases hid with ⟨hlt, rfl⟩ | ⟨k, rfl, hk, hk', rfl⟩
    · rw [deepMainNode_parent] at hp
      subst hp
      rw [deepForkTree_main p (Nat.lt_of_succ_lt hlt)] at hparent
      cases hparent
      rfl
    · rcases (deepForkNode_parent k p).1 hp with ⟨rfl, rfl⟩ | ⟨hne, rfl⟩
      · rw [deepForkTree_main 0 (by omega)] at hparent
        cases hparent
        rfl
      · have hslot : 198 + k = 199 + (k - 1) := by omega
        rw [hslot, deepForkTree_fork (k - 1) (by omega) (by omega)] at hparent
        cases hparent
        exact (Nat.sub_add_cancel hk).symm
  case parentless =>
    intro id node hid
    rw [hroot]
    rcases deepForkTree_cases hid with ⟨hlt, rfl⟩ | ⟨k, rfl, hk, hk', rfl⟩
    · rw [deepMainNode]
      by_cases hzero : id = 0
      · simp [hzero]
      · simp [hzero, eq_comm]
    · constructor
      · intro hnone
        cases hnone
      · intro hsame
        have hzero : 0 = 199 + k := Option.some.inj hsame
        omega
  case rootLive =>
    intro r hr
    cases hr
    exact ⟨_, deepForkTree_main 0 (by omega)⟩
  case sheets =>
    intro id
    have hsheets : id ∈ deepForkTree.sheets ↔ id = 399 ∨ id = 199 := by
      change id ∈ ((∅ : HashSet TreeNodeId).insert 199).insert 399 ↔ _
      simp only [HashSet.mem_insert, HashSet.not_mem_empty, or_false]
    rw [hsheets]
    constructor
    · rintro (rfl | rfl)
      · exact ⟨_, deepForkTree_fork 200 (by omega) (by omega), rfl⟩
      · exact ⟨_, deepForkTree_main 199 (by omega), rfl⟩
    · rintro ⟨node, hnode, hleaf⟩
      rcases deepForkTree_cases hnode with ⟨hlt, rfl⟩ | ⟨k, rfl, hk, hk', rfl⟩
      · have hnext := mem_deepMainNode_children id (id + 1)
        rw [hleaf] at hnext
        simp only [List.not_mem_nil, true_and, false_iff] at hnext
        exact .inr (Nat.le_antisymm (Nat.le_of_lt_succ hlt)
          (Nat.le_of_not_lt fun hlt' => hnext (.inl hlt')))
      · have hnext := mem_deepForkNode_children k (200 + k)
        rw [hleaf] at hnext
        simp only [List.not_mem_nil, true_and, false_iff] at hnext
        have hlast : k = 200 := Nat.le_antisymm hk' (Nat.le_of_not_lt hnext)
        rw [hlast]
        exact .inl rfl
  case unique =>
    intro id id' node node' hid hid' hdata
    rcases deepForkTree_cases hid with ⟨hlt, rfl⟩ | ⟨k, rfl, hk, hk', rfl⟩ <;>
      rcases deepForkTree_cases hid' with ⟨hlt', rfl⟩ | ⟨j, rfl, hj, hj', rfl⟩
    · exact congrArg Blockstamp.id hdata
    · exact absurd hdata (mockBlockstamp_ne id j)
    · exact absurd hdata.symm (mockBlockstamp_ne id' k)
    · have hsame : k = j := congrArg Blockstamp.id hdata
      rw [hsame]
  case mainLive =>
    intro k id hid
    rw [deepForkTree_get?] at hid
    by_cases hk : k < 200
    · rw [if_pos hk] at hid
      cases hid
      exact ⟨_, deepForkTree_main k hk, rfl⟩
    · rw [if_neg hk] at hid
      cases hid
  case mainRoot =>
    intro r rootNode hr hnode
    cases hr
    rw [deepForkTree_main 0 (by omega)] at hnode
    cases hnode
    exact deepForkTree_get? 0
  case mainClosed =>
    intro k id node p hid hnode hp
    rw [deepForkTree_get?] at hid ⊢
    by_cases hk : k + 1 < 200
    · rw [if_pos hk] at hid
      cases hid
      rw [deepForkTree_main (k + 1) hk] at hnode
      cases hnode
      rw [deepMainNode_parent] at hp
      rw [if_pos (Nat.lt_of_succ_lt hk), Nat.succ_injective hp]
    · rw [if_neg hk] at hid
      cases hid

theorem wellFormed_deepForkTree : deepForkTree.WellFormed := by
  refine treeInv_deepForkTree.wellFormed ?_ ?_
  · intro id node hnode
    rcases deepForkTree_cases hnode with ⟨-, rfl⟩ | ⟨k, -, -, -, rfl⟩
    · rw [deepMainNode]
      by_cases hzero : id = 0
      · simp [hzero]
      · by_cases hlt : id < 199 <;> simp [hzero, hlt]
    · rw [deepForkNode]
      by_cases hlt : k < 200 <;> simp [hlt]
  · have hlen : deepForkTree.mainBranch.len = 200 := by
      have hkeys : deepForkTree.mainBranch.keys.Perm (List.range 200) := by
        refine (List.perm_ext_iff_of_nodup (HashMap.keys_nodup _) List.nodup_range).2 fun k => ?_
        rw [HashMap.mem_keys_iff, deepForkTree_get?, List.mem_range]
        by_cases hk : k < 200 <;> simp [hk]
      rw [HashMap.len, hkeys.length_eq, List.length_range]
    rw [hlen]
    exact Nat.le_refl _

/-- Only main blocks are below a main block above the root. -/
theorem lt_of_below_deepMain {j i : TreeNodeId} (hj : 1 ≤ j ∧ j < 200)
    (hbelow : ReflTransGen deepForkTree.ChildOf j i) : 1 ≤ i ∧ i < 200 := by
  induction hbelow with
  | refl => exact hj
  | @tail p c _ hc ih =>
      rcases hc with ⟨node, hnode, hmem⟩
      rw [deepForkTree_main p ih.2] at hnode
      cases hnode
      rcases (mem_deepMainNode_children p c).1 hmem with ⟨rfl, hlt⟩ | ⟨-, rfl⟩
      · exact ⟨Nat.succ_pos p, Nat.succ_lt_succ hlt⟩
      · exact absurd ih.1 (Nat.lt_irrefl 0)

/-- The tree is well formed, its main branch fills the window, and a change to the fork, one block
higher, moves the window past the fork block: the abandoned branch is gone. -/
theorem not_getForkBranch_deepForkTree :
    deepForkTree.WellFormed ∧ deepForkTree.node? 199 = some (deepMainNode 199) ∧
      deepForkTree.mainBranch.get? 199 = some 199 ∧ deepForkTree.mainBranch.get? 200 = none ∧
      deepForkTree.node? 399 = some (deepForkNode 200) ∧
      ∀ t' branch, deepForkTree.changeMainBranch (mockBlockstamp 0 199) (mockBlockstamp 1 200) =
        .ok t' → t'.getForkBranch 199 ≠ .ok branch := by
  have hformed := wellFormed_deepForkTree
  have hold := deepForkTree_main 199 (by decide)
  have hend : deepForkTree.mainBranch.get? 199 = some 199 := deepForkTree_get? 199
  have hlast : deepForkTree.mainBranch.get? 200 = none := deepForkTree_get? 200
  have hnew := deepForkTree_fork 200 (by decide) (by decide)
  refine ⟨hformed, hold, hend, hlast, hnew, fun t' branch hrun => ?_⟩
  have hrooted := hformed.rooted hold
  have hmain : deepForkTree.MainPath 0 (deepMainNode 199).data.id :=
    hformed.mainPath rfl (deepForkTree_main 0 (by decide))
      (Option.isSome_iff_exists.2 ⟨199, hend⟩) hlast
  rcases hrooted.changeMainBranch_ok hmain hnew (hformed.hangs hnew)
    (fun hroot => by cases hroot) with ⟨t'', fork, hrun', hchange⟩
  have hsame : t'' = t' := Except.ok.inj (hrun'.symm.trans hrun)
  subst hsame
  -- The fork block is the root, which the change prunes.
  have hfork : fork = 0 := by
    rcases hchange.forks with ⟨⟨forkId, hforkId, hbelow⟩, -⟩
    rw [deepForkTree_get?] at hforkId
    by_cases hlt : fork < 200
    · rw [if_pos hlt] at hforkId
      cases hforkId
      by_contra hne
      have habsurd := (lt_of_below_deepMain ⟨Nat.pos_of_ne_zero hne, hlt⟩ hbelow).2
      exact absurd habsurd (by decide)
    · rw [if_neg hlt] at hforkId
      cases hforkId
  subst hfork
  exact hchange.getForkBranch_ne hmain (by decide) (by decide) hend branch

end ForkTree

end Durs
