/-
# Fork branches

The two branch functions climb from a node towards the main branch.  The path they climb is
described here without fuel; a branch is that path read from the main branch outwards.
-/

import Durs.ForkTree.Slots

namespace Durs

open RustStd

namespace ForkTree

variable {t : ForkTree} {id p : TreeNodeId} {node : TreeNode}
  {path : List (TreeNodeId × TreeNode)}

/-! ## The guard of the climb -/

/-- The block of the main branch at the number of a node carries the hash of that node. -/
def OnMain (t : ForkTree) (node : TreeNode) : Prop :=
  ∃ m main, t.mainBranch.get? node.data.id = some m ∧ t.node? m = some main ∧
    main.data.hash = node.data.hash

/-- The main branch has no block at the number of a node, or one of another hash. -/
def OffMain (t : ForkTree) (node : TreeNode) : Prop :=
  t.mainBranch.get? node.data.id = none ∨
    ∃ m main, t.mainBranch.get? node.data.id = some m ∧ t.node? m = some main ∧
      main.data.hash ≠ node.data.hash

theorem getMainBranchBlockHash_eq_ok_iff {blockId : BlockNumber} {m : TreeNodeId}
    {hash : Option BlockHash} (hm : t.mainBranch.get? blockId = some m) :
    t.getMainBranchBlockHash blockId = .ok hash ↔
      ∃ main, t.node? m = some main ∧ hash = some main.data.hash := by
  simp only [getMainBranchBlockHash, hm, bind_eq_ok_iff, getRefNode_eq_ok_iff, pure_eq_ok_iff]
  constructor
  · rintro ⟨main, hmain, rfl⟩
    exact ⟨main, hmain, rfl⟩
  · rintro ⟨main, hmain, rfl⟩
    exact ⟨main, hmain, rfl⟩

/-- The guard returns with its value; it stops the process when the main branch refers to a dead
node. -/
theorem isOffMainBranch_eq_ok_iff {b : Bool} :
    t.isOffMainBranch node = .ok b ↔
      (b = true ∧ t.OffMain node) ∨ (b = false ∧ t.OnMain node) := by
  cases hm : t.mainBranch.get? node.data.id with
  | none =>
      have hkey : t.mainBranch.containsKey node.data.id = false :=
        (HashMap.containsKey_eq_false_iff _ _).2 hm
      simp only [isOffMainBranch, hkey, Bool.false_eq_true, if_false, pure_eq_ok_iff, OffMain,
        OnMain, hm]
      grind
  | some m =>
      have hkey : t.mainBranch.containsKey node.data.id = true :=
        (HashMap.containsKey_iff _ _).2 ⟨m, hm⟩
      simp only [isOffMainBranch, hkey, if_true, bind_eq_ok_iff, expect_eq_ok_iff,
        getMainBranchBlockHash_eq_ok_iff hm, pure_eq_ok_iff, OffMain, OnMain, hm]
      grind

theorem isOffMainBranch_eq_true_iff : t.isOffMainBranch node = .ok true ↔ t.OffMain node := by
  simp [isOffMainBranch_eq_ok_iff]

theorem isOffMainBranch_eq_false_iff : t.isOffMainBranch node = .ok false ↔ t.OnMain node := by
  simp [isOffMainBranch_eq_ok_iff]

theorem not_onMain_of_offMain (h : t.OffMain node) : ¬ t.OnMain node := by
  rintro ⟨m, main, hm, hmain, hhash⟩
  rcases h with h | ⟨m', main', hm', hmain', hne⟩
  · rw [h] at hm
    cases hm
  · rw [hm] at hm'
    obtain rfl := Option.some.inj hm'
    rw [hmain] at hmain'
    obtain rfl := Option.some.inj hmain'
    exact hne hhash

/-- When the main branch refers to live nodes of its numbers and blockstamps are distinct, a node is
on the main branch exactly when the branch refers to it. -/
theorem onMain_iff
    (hlive : ∀ k id, t.mainBranch.get? k = some id → ∃ node, t.node? id = some node ∧
      node.data.id = k)
    (hunique : ∀ id id' node node', t.node? id = some node → t.node? id' = some node' →
      node.data = node'.data → id = id')
    (hnode : t.node? id = some node) :
    t.OnMain node ↔ t.mainBranch.get? node.data.id = some id := by
  constructor
  · rintro ⟨m, main, hm, hmain, hhash⟩
    obtain ⟨main', hmain', hnumber⟩ := hlive _ _ hm
    rw [hmain] at hmain'
    obtain rfl := Option.some.inj hmain'
    have hdata : main.data = node.data := by
      cases hd : main.data
      cases hd' : node.data
      simp_all
    rw [← hunique m id main node hmain hnode hdata]
    exact hm
  · intro hm
    exact ⟨id, node, hm, hnode, rfl⟩

/-- When the main branch refers to live nodes, a node is on it or off it. -/
theorem offMain_of_not_onMain
    (hlive : ∀ k id, t.mainBranch.get? k = some id → ∃ node, t.node? id = some node ∧
      node.data.id = k) (h : ¬ t.OnMain node) : t.OffMain node := by
  cases hm : t.mainBranch.get? node.data.id with
  | none => exact .inl hm
  | some m =>
      obtain ⟨main, hmain, -⟩ := hlive _ _ hm
      exact .inr ⟨m, main, hm, hmain, fun hhash => h ⟨m, main, hm, hmain, hhash⟩⟩

/-! ## The climb -/

/-- The nodes climbed from `p` on, nearest first: live nodes off the main branch, each the parent
of the one before, up to the first one on the main branch (left out) or without parent. -/
inductive OffMainPath (t : ForkTree) : TreeNodeId → List (TreeNodeId × TreeNode) → Prop
  | onMain {p : TreeNodeId} {node : TreeNode} :
      t.node? p = some node → t.OnMain node → OffMainPath t p []
  | top {p : TreeNodeId} {node : TreeNode} :
      t.node? p = some node → t.OffMain node → node.parent = none →
        OffMainPath t p [(p, node)]
  | step {p q : TreeNodeId} {node : TreeNode} {rest : List (TreeNodeId × TreeNode)} :
      t.node? p = some node → t.OffMain node → node.parent = some q → OffMainPath t q rest →
        OffMainPath t p ((p, node) :: rest)

/-- The climb returns a path. -/
theorem offMainPath_of_climb {fuel : Nat} :
    ∀ {p : TreeNodeId} {path : List (TreeNodeId × TreeNode)},
      t.climbOffMainBranch fuel p = .ok path → t.OffMainPath p path := by
  induction fuel with
  | zero =>
      intro p path h
      cases h
  | succ fuel ih =>
      intro p path h
      simp only [climbOffMainBranch, bind_eq_ok_iff, getRefNode_eq_ok_iff] at h
      obtain ⟨node, hnode, b, hguard, hrest⟩ := h
      cases b with
      | false =>
          simp only [Bool.false_eq_true, if_false, pure_eq_ok_iff] at hrest
          subst hrest
          exact .onMain hnode (isOffMainBranch_eq_false_iff.1 hguard)
      | true =>
          have hoff := isOffMainBranch_eq_true_iff.1 hguard
          cases hparent : node.parent with
          | none =>
              simp only [if_true, hparent, pure_eq_ok_iff] at hrest
              subst hrest
              exact .top hnode hoff hparent
          | some q =>
              simp only [if_true, hparent, bind_eq_ok_iff, pure_eq_ok_iff] at hrest
              obtain ⟨rest, hclimb, rfl⟩ := hrest
              exact .step hnode hoff hparent (ih hclimb)

/-- A path shorter than the fuel is climbed. -/
theorem climb_of_offMainPath (fuel : Nat) (h : t.OffMainPath p path)
    (hfuel : path.length < fuel) : t.climbOffMainBranch fuel p = .ok path := by
  induction h generalizing fuel with
  | onMain hnode hon =>
      obtain ⟨fuel, rfl⟩ : ∃ k, fuel = k + 1 := ⟨fuel - 1, by omega⟩
      rw [climbOffMainBranch, getRefNode_eq_ok_iff.2 hnode, ok_bind,
        isOffMainBranch_eq_false_iff.2 hon]
      rfl
  | top hnode hoff hparent =>
      obtain ⟨fuel, rfl⟩ : ∃ k, fuel = k + 1 := ⟨fuel - 1, by omega⟩
      rw [climbOffMainBranch, getRefNode_eq_ok_iff.2 hnode, ok_bind,
        isOffMainBranch_eq_true_iff.2 hoff, ok_bind, if_pos rfl, hparent]
      rfl
  | step hnode hoff hparent hrest ih =>
      obtain ⟨fuel, rfl⟩ : ∃ k, fuel = k + 1 := ⟨fuel - 1, by omega⟩
      rw [climbOffMainBranch, getRefNode_eq_ok_iff.2 hnode, ok_bind,
        isOffMainBranch_eq_true_iff.2 hoff, ok_bind, if_pos rfl, hparent]
      simp only [ih fuel (by simpa using hfuel), ok_bind]
      rfl

namespace OffMainPath

/-- The path from a node is unique. -/
theorem unique {path' : List (TreeNodeId × TreeNode)} (h : t.OffMainPath p path)
    (h' : t.OffMainPath p path') : path = path' := by
  have hclimb := climb_of_offMainPath (path.length + path'.length + 1) h (by omega)
  have hclimb' := climb_of_offMainPath (path.length + path'.length + 1) h' (by omega)
  rw [hclimb] at hclimb'
  exact Except.ok.inj hclimb'

/-- Every entry of a path is a live node off the main branch. -/
theorem mem (h : t.OffMainPath p path) {entry : TreeNodeId × TreeNode} (hmem : entry ∈ path) :
    t.node? entry.1 = some entry.2 ∧ t.OffMain entry.2 := by
  induction h with
  | onMain hnode hon => cases hmem
  | top hnode hoff hparent =>
      rw [List.mem_singleton] at hmem
      subst hmem
      exact ⟨hnode, hoff⟩
  | step hnode hoff hparent hrest ih =>
      rcases List.mem_cons.1 hmem with rfl | hmem
      · exact ⟨hnode, hoff⟩
      · exact ih hmem

/-- A climb starts at a live node. -/
theorem live (h : t.OffMainPath p path) : ∃ node, t.node? p = some node := by
  cases h with
  | onMain hnode _ => exact ⟨_, hnode⟩
  | top hnode _ _ => exact ⟨_, hnode⟩
  | step hnode _ _ _ => exact ⟨_, hnode⟩

/-- In a tree whose nodes come after their parents, a path is no longer than the id it starts
from. -/
theorem length_le (hlt : ∀ i n q, t.node? i = some n → n.parent = some q → q < i)
    (h : t.OffMainPath p path) : path.length ≤ p + 1 := by
  induction h with
  | onMain hnode hon => simp
  | top hnode hoff hparent => simp
  | @step p q node rest hnode hoff hparent hrest ih =>
      have hbelow : q < p := hlt p node q hnode hparent
      calc
        ((p, node) :: rest).length = rest.length + 1 := List.length_cons
        _ ≤ p + 1 := Nat.succ_le_succ (Nat.le_trans ih hbelow)

end OffMainPath

end ForkTree

end Durs
