/-
# The order in which fork blocks arrive

Fork blocks may arrive before their parents.  The tree does not depend on the order of arrival, but
the orphan store does: a block that was an orphan stays there after it entered the tree.
-/

import Durs.ForkTree.Store
import Durs.Lib.Arrival

namespace Durs

open RustStd Lib Relation

/-- The blockstamp of a block that carries its hash. -/
def DALBlock.stamp (dalBlock : DALBlock) : Blockstamp :=
  { id := dalBlock.block.number, hash := dalBlock.block.hash.getD 0 }

theorem DALBlock.blockstamp_eq_stamp {dalBlock : DALBlock}
    (hhash : dalBlock.block.hash.isSome = true) : dalBlock.blockstamp = .ok dalBlock.stamp := by
  rw [DALBlock.blockstamp, BlockDocument.blockstamp_eq_ok_iff, DALBlock.stamp]
  rcases Option.isSome_iff_exists.1 hhash with ⟨hash, hsome⟩
  exact ⟨rfl, by rw [hsome]; rfl⟩

namespace ForkTree

variable {t : ForkTree} {p : TreeNodeId} {parent : TreeNode} {blockstamp : Blockstamp}

/-- The tree has a block, below the block of a blockstamp or without parent. -/
def HasNode (t : ForkTree) (blockstamp : Blockstamp) (above : Option Blockstamp) : Prop :=
  ∃ id node, t.node? id = some node ∧ node.data = blockstamp ∧
    (node.parent.bind fun p => (t.node? p).map TreeNode.data) = above

/-- The recorded parents are slots of the tree. -/
def ParentsInRange (t : ForkTree) : Prop :=
  ∀ id node p, t.node? id = some node → node.parent = some p → p < t.nodes.length

theorem parentsInRange_of_nodes
    (h : ∀ slot ∈ t.nodes, ∀ node ∈ slot, ∀ p ∈ node.parent, p < t.nodes.length) :
    t.ParentsInRange := by
  intro id node p hnode hp
  exact h (some node) (List.mem_of_getElem? (node?_eq_some_iff.1 hnode)) node rfl p hp

theorem hasNode_of_node? {id : TreeNodeId} {node : TreeNode} (hnode : t.node? id = some node) :
    ∃ above, t.HasNode node.data above :=
  ⟨_, id, node, hnode, rfl, rfl⟩

/-- A new child changes the parent of no other node. -/
theorem hasNode_withChild (hp : t.node? p = some parent) (hrange : t.ParentsInRange)
    (s : Blockstamp) (above : Option Blockstamp) :
    ((t.withChild blockstamp p parent).withSheet t.nodes.length).HasNode s above ↔
      t.HasNode s above ∨ (s = blockstamp ∧ above = some parent.data) := by
  have hlt := lt_length_of_node? hp
  have hnodes := withChild_node? t blockstamp parent hlt
  have hdata : ∀ q, q < t.nodes.length →
      ((t.withChild blockstamp p parent).node? q).map TreeNode.data =
        (t.node? q).map TreeNode.data := by
    intro q hq
    rw [hnodes]
    by_cases hsame : q = p
    · rw [if_pos hsame, hsame, hp]
      rfl
    · rw [if_neg hsame, if_neg (Nat.ne_of_lt hq)]
  have habove : ∀ id node, t.node? id = some node →
      (node.parent.bind fun q => ((t.withChild blockstamp p parent).node? q).map TreeNode.data) =
        node.parent.bind fun q => (t.node? q).map TreeNode.data := by
    intro id node hnode
    cases hparent : node.parent with
    | none => rfl
    | some q => exact hdata q (hrange id node q hnode hparent)
  have hnew : (t.withChild blockstamp p parent).node? t.nodes.length =
      some (TreeNode.new (some p) blockstamp) := by
    rw [hnodes, if_neg (Nat.ne_of_gt hlt), if_pos rfl]
  simp only [HasNode, withSheet_node?]
  constructor
  · rintro ⟨id, node, hnode, rfl, rfl⟩
    rw [hnodes] at hnode
    by_cases hid : id = p
    · rw [if_pos hid] at hnode
      cases hnode
      exact .inl ⟨p, parent, hp, rfl, (habove p parent hp).symm⟩
    · by_cases hlast : id = t.nodes.length
      · rw [if_neg hid, if_pos hlast] at hnode
        cases hnode
        refine .inr ⟨rfl, ?_⟩
        change ((t.withChild blockstamp p parent).node? p).map TreeNode.data = _
        rw [hdata p hlt, hp]
        rfl
      · rw [if_neg hid, if_neg hlast] at hnode
        exact .inl ⟨id, node, hnode, rfl, (habove id node hnode).symm⟩
  · rintro (⟨id, node, hnode, rfl, rfl⟩ | ⟨rfl, rfl⟩)
    · by_cases hid : id = p
      · subst hid
        rw [hp] at hnode
        cases hnode
        refine ⟨id, parent.addChild t.nodes.length, ?_, rfl, habove id parent hp⟩
        rw [hnodes, if_pos rfl]
      · refine ⟨id, node, ?_, rfl, habove id node hnode⟩
        rw [hnodes, if_neg hid, if_neg (Nat.ne_of_lt (lt_length_of_node? hnode)), hnode]
    · refine ⟨t.nodes.length, _, hnew, rfl, ?_⟩
      change ((t.withChild s p parent).node? p).map TreeNode.data = _
      rw [hdata p hlt, hp]
      rfl

theorem ParentsInRange.withChild (h : t.ParentsInRange) (hp : t.node? p = some parent) :
    ((t.withChild blockstamp p parent).withSheet t.nodes.length).ParentsInRange := by
  intro id node q hnode hq
  have hlt := lt_length_of_node? hp
  change q < (t.withChild blockstamp p parent).nodes.length
  rw [withChild_length]
  rw [withSheet_node?, withChild_node? t blockstamp parent hlt] at hnode
  refine Nat.lt_succ_of_le ?_
  by_cases hid : id = p
  · rw [if_pos hid] at hnode
    cases hnode
    exact Nat.le_of_lt (h p parent q hp hq)
  · by_cases hlast : id = t.nodes.length
    · rw [if_neg hid, if_pos hlast] at hnode
      cases hnode
      cases hq
      exact Nat.le_of_lt hlt
    · rw [if_neg hid, if_neg hlast] at hnode
      exact Nat.le_of_lt (h id node q hnode hq)

/-- A fork block whose parent is in the tree is placed below it. -/
theorem exists_insertNewForkBlock (blockstamp : Blockstamp) {previousHash : Hash} (hrange : t.ParentsInRange)
    (habove : ∃ above, t.HasNode ⟨previousBlockNumber blockstamp.id, previousHash⟩ above) :
    ∃ t', t.insertNewForkBlock blockstamp previousHash = .ok (t', true) ∧ t'.ParentsInRange ∧
      ∀ s above, t'.HasNode s above ↔ t.HasNode s above ∨
        (s = blockstamp ∧ above = some ⟨previousBlockNumber blockstamp.id, previousHash⟩) := by
  rcases habove with ⟨_, id, node, hnode, hdata, -⟩
  cases hfind : t.findNodeWithBlockstamp ⟨previousBlockNumber blockstamp.id, previousHash⟩ with
  | none => exact absurd hdata (findNodeWithBlockstamp_eq_none_iff.1 hfind id node hnode)
  | some p =>
      rcases node?_of_findNodeWithBlockstamp hfind with ⟨parent, hp, hparent⟩
      refine ⟨(t.withChild blockstamp p parent).withSheet t.nodes.length, ?_, hrange.withChild hp,
        fun s above => ?_⟩
      · simp only [insertNewForkBlock, hfind, insertNewNode_some _ _ hp, Bool.false_eq_true,
          if_false, ok_bind, pure_bind]
        rfl
      · rw [hasNode_withChild hp hrange, hparent]

/-- A fork block whose parent is not in the tree is not inserted. -/
theorem insertNewForkBlock_none {previousHash : Hash}
    (habove : ¬ ∃ above, t.HasNode ⟨previousBlockNumber blockstamp.id, previousHash⟩ above) :
    t.insertNewForkBlock blockstamp previousHash = .ok (t, false) := by
  have hfind : t.findNodeWithBlockstamp ⟨previousBlockNumber blockstamp.id, previousHash⟩ =
      none := by
    refine findNodeWithBlockstamp_eq_none_iff.2 fun id node hnode hdata => habove ?_
    rw [← hdata]
    exact hasNode_of_node? hnode
  simp only [insertNewForkBlock, hfind]
  rfl

end ForkTree

/-! ## One block and the orphans it brings in -/

/-- A block waits in the orphan store for another one. -/
def Awaits (orphans : HashMap Blockstamp (List DALBlock)) (p x : DALBlock) : Prop :=
  x ∈ (orphans.get? p.stamp).getD []

/-- The tree and the fork store take some blocks; the orphan store stays as it is. -/
structure Places (forks : ForksDBs) (placed : DALBlock → Prop) (forks' : ForksDBs) : Prop where
  range : forks'.forkTreeDb.ParentsInRange
  orphans : forks'.orphanBlocksDb = forks.orphanBlocksDb
  nodes : ∀ s above, forks'.forkTreeDb.HasNode s above ↔ forks.forkTreeDb.HasNode s above ∨
    ∃ x, placed x ∧ x.stamp = s ∧ above = some x.previousBlockstamp
  store : ∀ s, forks'.forkBlocksDb.containsKey s = true ↔
    forks.forkBlocksDb.containsKey s = true ∨ ∃ x, placed x ∧ x.stamp = s

namespace Places

variable {forks mid forks' : ForksDBs} {placed placed' placed'' : DALBlock → Prop}

theorem refl (hrange : forks.forkTreeDb.ParentsInRange) : Places forks (fun _ => False) forks where
  range := hrange
  orphans := rfl
  nodes := by simp
  store := by simp

theorem trans (h : Places forks placed mid) (h' : Places mid placed' forks')
    (hplaced : ∀ x, placed'' x ↔ placed x ∨ placed' x) : Places forks placed'' forks' where
  range := h'.range
  orphans := h'.orphans.trans h.orphans
  nodes := by
    intro s above
    rw [h'.nodes, h.nodes, or_assoc, ← exists_or]
    simp only [hplaced, or_and_right]
  store := by
    intro s
    rw [h'.store, h.store, or_assoc, ← exists_or]
    simp only [hplaced, or_and_right]

end Places

/-- Fewer numbers are left above a block than above the one it waits for. -/
theorem countP_lt_countP {α : Type} {p q : α → Bool} {l : List α} {a : α} (ha : a ∈ l)
    (hqa : q a = true) (hpa : p a = false) (hpq : ∀ x, p x = true → q x = true) :
    l.countP p < l.countP q := by
  rcases List.append_of_mem ha with ⟨l₁, l₂, rfl⟩
  have hle₁ : l₁.countP p ≤ l₁.countP q := List.countP_mono_left fun x _ => hpq x
  have hle₂ : l₂.countP p ≤ l₂.countP q := List.countP_mono_left fun x _ => hpq x
  rw [List.countP_append, List.countP_append, List.countP_cons_of_pos hqa,
    List.countP_cons_of_neg (by rw [hpa]; exact Bool.false_ne_true)]
  omega

/-- The blocks that a block brings in carry their hash, have a number, and wait for their parent. -/
structure WellKeyed (orphans : HashMap Blockstamp (List DALBlock)) (dalBlock : DALBlock) :
    Prop where
  hashed : ∀ x, ReflTransGen (Awaits orphans) dalBlock x → x.block.hash.isSome = true
  numbered : ∀ x, ReflTransGen (Awaits orphans) dalBlock x → x.block.number ≠ 0
  keyed : ∀ p x, ReflTransGen (Awaits orphans) dalBlock p → Awaits orphans p x →
    x.previousBlockstamp = p.stamp

namespace WellKeyed

variable {orphans : HashMap Blockstamp (List DALBlock)} {dalBlock x : DALBlock}

theorem tail (h : WellKeyed orphans dalBlock) (hx : Awaits orphans dalBlock x) :
    WellKeyed orphans x where
  hashed := fun y hy => h.hashed y (hy.head hx)
  numbered := fun y hy => h.numbered y (hy.head hx)
  keyed := fun p y hp => h.keyed p y (hp.head hx)

/-- A block that waits is numbered one above the block it waits for. -/
theorem number_eq (h : WellKeyed orphans dalBlock) (hx : Awaits orphans dalBlock x) :
    x.block.number = dalBlock.block.number + 1 := by
  have hkey := congrArg Blockstamp.id (h.keyed dalBlock x .refl hx)
  have hpos := h.numbered x (.single hx)
  change previousBlockNumber x.block.number = dalBlock.block.number at hkey
  rw [previousBlockNumber, if_neg hpos] at hkey
  rw [← hkey]
  exact (Nat.sub_add_cancel (Nat.pos_of_ne_zero hpos)).symm

end WellKeyed

/-- The keys of the orphan store from a block number on. -/
def keysFrom (orphans : HashMap Blockstamp (List DALBlock)) (number : BlockNumber) : Nat :=
  orphans.keys.countP fun key => decide (number ≤ key.id)

theorem keysFrom_lt {orphans : HashMap Blockstamp (List DALBlock)} {dalBlock x : DALBlock}
    (h : WellKeyed orphans dalBlock) (hx : Awaits orphans dalBlock x) :
    keysFrom orphans x.block.number < keysFrom orphans dalBlock.block.number := by
  have hkey : dalBlock.stamp ∈ orphans.keys := by
    rw [HashMap.mem_keys_iff]
    cases hget : orphans.get? dalBlock.stamp with
    | some waiting => exact ⟨waiting, rfl⟩
    | none =>
        rw [Awaits, hget] at hx
        cases hx
  refine countP_lt_countP hkey ?_ ?_ ?_
  · exact decide_eq_true (Nat.le_refl dalBlock.block.number)
  · rw [h.number_eq hx]
    exact decide_eq_false (Nat.not_succ_le_self dalBlock.block.number)
  · intro key hle
    have hle := of_decide_eq_true hle
    rw [h.number_eq hx] at hle
    exact decide_eq_true (Nat.le_of_succ_le hle)

/-- Placing blocks that are all below placed ones, one after the other. -/
theorem foldlM_places {orphans : HashMap Blockstamp (List DALBlock)} (above : Blockstamp)
    (step : ForksDBs → DALBlock → Run ForksDBs) (l : List DALBlock)
    (hstep : ∀ x ∈ l, ∀ forks, forks.orphanBlocksDb = orphans → forks.forkTreeDb.ParentsInRange →
      (∃ up, forks.forkTreeDb.HasNode above up) →
      ∃ forks', step forks x = .ok forks' ∧ Places forks (ReflTransGen (Awaits orphans) x) forks') :
    ∀ forks, forks.orphanBlocksDb = orphans → forks.forkTreeDb.ParentsInRange →
      (∃ up, forks.forkTreeDb.HasNode above up) →
      ∃ forks', l.foldlM step forks = .ok forks' ∧
        Places forks (fun y => ∃ x ∈ l, ReflTransGen (Awaits orphans) x y) forks' := by
  induction l with
  | nil =>
      intro forks _ hrange _
      refine ⟨forks, rfl, (Places.refl hrange).trans (Places.refl hrange) (by simp)⟩
  | cons x l ih =>
      intro forks horphans hrange hup
      rcases hstep x List.mem_cons_self forks horphans hrange hup with ⟨mid, hmid, hplaces⟩
      rcases hup with ⟨up, hup⟩
      rcases ih (fun y hy => hstep y (List.mem_cons_of_mem _ hy)) mid
        (hplaces.orphans.trans horphans) hplaces.range
        ⟨up, (hplaces.nodes above up).2 (.inl hup)⟩ with ⟨forks', hrun, hplaces'⟩
      refine ⟨forks', by rw [List.foldlM_cons, hmid, ok_bind, hrun],
        hplaces.trans hplaces' fun y => ?_⟩
      simp only [List.mem_cons, exists_eq_or_imp]

/-- A block whose parent is in the tree is placed with everything that waits for it. -/
theorem insertNewForkBlockAux_placed (fuel : Nat) :
    ∀ (forks : ForksDBs) (dalBlock : DALBlock), forks.forkTreeDb.ParentsInRange →
      WellKeyed forks.orphanBlocksDb dalBlock →
      (∃ up, forks.forkTreeDb.HasNode dalBlock.previousBlockstamp up) →
      keysFrom forks.orphanBlocksDb dalBlock.block.number < fuel →
      ∃ forks', insertNewForkBlockAux fuel forks dalBlock = .ok (forks', true) ∧
        Places forks (ReflTransGen (Awaits forks.orphanBlocksDb) dalBlock) forks' := by
  induction fuel with
  | zero =>
      intro forks dalBlock _ _ _ hfuel
      cases hfuel
  | succ fuel ih =>
      intro forks dalBlock hrange hkeyed hup hfuel
      have hstamp := DALBlock.blockstamp_eq_stamp (hkeyed.hashed dalBlock .refl)
      rcases ForkTree.exists_insertNewForkBlock dalBlock.stamp hrange hup with
        ⟨tree, hinsert, hrange', hnodes⟩
      -- The block alone.
      have hplaces : Places forks (fun x => x = dalBlock) { forks with
          forkTreeDb := tree
          forkBlocksDb := forks.forkBlocksDb.insert dalBlock.stamp dalBlock } := {
        range := hrange'
        orphans := rfl
        nodes := by
          intro s above
          rw [hnodes]
          simp only [exists_eq_left, eq_comm (a := dalBlock.stamp)]
          rfl
        store := by
          intro s
          simp only [HashMap.containsKey_insert_iff, exists_eq_left, eq_comm (a := dalBlock.stamp)]
          exact or_comm }
      -- The blocks that wait for it, each with its own.
      rcases foldlM_places dalBlock.stamp
        (fun forks stackable => insertNewForkBlockAux fuel forks stackable >>= fun p => pure p.1)
        ((forks.orphanBlocksDb.get? dalBlock.stamp).getD [])
        (fun x hx mid horphans hrange hup => by
          have hx : Awaits forks.orphanBlocksDb dalBlock x := hx
          have hlt := keysFrom_lt hkeyed hx
          rcases ih mid x hrange (by rw [horphans]; exact hkeyed.tail hx)
            (by rw [hkeyed.keyed dalBlock x .refl hx]; exact hup)
            (by rw [horphans]; exact Nat.lt_of_lt_of_le hlt (Nat.le_of_lt_succ hfuel)) with
            ⟨mid', hrun, hplaces'⟩
          rw [horphans] at hplaces'
          refine ⟨mid', ?_, hplaces'⟩
          rw [hrun]
          rfl)
        _ rfl hplaces.range ⟨_, (hplaces.nodes dalBlock.stamp _).2
          (.inr ⟨dalBlock, rfl, rfl, rfl⟩)⟩ with ⟨forks', hrun, hplaces'⟩
      refine ⟨forks', ?_, hplaces.trans hplaces' fun y => ?_⟩
      · rw [insertNewForkBlockAux, hstamp, ok_bind]
        rw [show forks.forkTreeDb.insertNewForkBlock dalBlock.stamp dalBlock.block.previousHash =
          .ok (tree, true) from hinsert, ok_bind]
        simp only [if_true, hrun, ok_bind]
        rfl
      · rw [ReflTransGen.cases_head_iff]
        exact or_congr eq_comm Iff.rfl

/-! ## Blocks in their order of arrival -/

/-- A block of the tree. -/
def InTree (forks : ForksDBs) (blockstamp : Blockstamp) : Prop :=
  ∃ above, forks.forkTreeDb.HasNode blockstamp above

theorem not_inTree_of_find {forks : ForksDBs} {blockstamp : Blockstamp}
    (h : forks.forkTreeDb.findNodeWithBlockstamp blockstamp = none) : ¬ InTree forks blockstamp := by
  rintro ⟨_, id, node, hnode, hdata, -⟩
  exact ForkTree.findNodeWithBlockstamp_eq_none_iff.1 h id node hnode hdata

/-- All the ancestors of a block, down to the tree there was, have been received. -/
abbrev AncestorsReceived (forks : ForksDBs) (received : List DALBlock) (dalBlock : DALBlock) :
    Prop :=
  Connected DALBlock.stamp DALBlock.previousBlockstamp (InTree forks) received dalBlock

/-- A block that was an orphan when it was received. -/
abbrev WasOrphan (forks : ForksDBs) (received : List DALBlock) (dalBlock : DALBlock) : Prop :=
  SetAside DALBlock.stamp DALBlock.previousBlockstamp (InTree forks) received dalBlock

/-- No block is both in the fork store and in the orphan store. -/
def StoresDisjoint (forks : ForksDBs) : Prop :=
  ∀ key, ∀ x ∈ (forks.orphanBlocksDb.get? key).getD [],
    forks.forkBlocksDb.containsKey x.stamp = false

/-- Blocks above the first one, with their hashes, that the databases know nothing of. -/
structure NewBlocks (forks : ForksDBs) (l : List DALBlock) : Prop where
  hashed : ∀ x ∈ l, x.block.hash.isSome = true
  numbered : ∀ x ∈ l, x.block.number ≠ 0
  distinct : l.Pairwise fun x y => x.stamp ≠ y.stamp
  notInTree : ∀ x ∈ l, ¬ InTree forks x.stamp
  notStored : ∀ x ∈ l, forks.forkBlocksDb.containsKey x.stamp = false
  notAwaited : ∀ x ∈ l, forks.orphanBlocksDb.get? x.stamp = none
  notOrphan : ∀ x ∈ l, ∀ key, ∀ y ∈ (forks.orphanBlocksDb.get? key).getD [], y.stamp ≠ x.stamp

/-- Receive a block. -/
def receive (forks : ForksDBs) (dalBlock : DALBlock) : Run ForksDBs := do
  let (forks, _) ← insertNewForkBlock forks dalBlock
  return forks

namespace NewBlocks

variable {forks : ForksDBs} {l l' : List DALBlock} {x y : DALBlock}

theorem of_subset (h : NewBlocks forks l) (hdistinct : l'.Pairwise fun x y => x.stamp ≠ y.stamp)
    (hsub : ∀ x ∈ l', x ∈ l) : NewBlocks forks l' where
  hashed := fun x hx => h.hashed x (hsub x hx)
  numbered := fun x hx => h.numbered x (hsub x hx)
  distinct := hdistinct
  notInTree := fun x hx => h.notInTree x (hsub x hx)
  notStored := fun x hx => h.notStored x (hsub x hx)
  notAwaited := fun x hx => h.notAwaited x (hsub x hx)
  notOrphan := fun x hx => h.notOrphan x (hsub x hx)

theorem of_begin (h : NewBlocks forks l) (hbegin : l' <+: l) : NewBlocks forks l' :=
  h.of_subset (h.distinct.sublist hbegin.sublist) fun _ hx => hbegin.subset hx

theorem of_perm (h : NewBlocks forks l) (hperm : l.Perm l') : NewBlocks forks l' :=
  h.of_subset (hperm.pairwise h.distinct fun hne => hne.symm) fun _ hx => hperm.mem_iff.2 hx

/-- A block is known by its blockstamp. -/
theorem eq_of_stamp_eq (h : NewBlocks forks l) (hx : x ∈ l) (hy : y ∈ l)
    (hstamp : x.stamp = y.stamp) : x = y := by
  by_contra hne
  have : Std.Symm fun x y : DALBlock => x.stamp ≠ y.stamp := ⟨fun _ _ hne => hne.symm⟩
  exact h.distinct.forall hx hy hne hstamp

end NewBlocks

/-! ## One more block -/

/-- The databases after some blocks were received: the tree and the fork store have those whose
ancestors were received, the orphan store those that were orphans. -/
structure Received (forks : ForksDBs) (received : List DALBlock) (mid : ForksDBs) : Prop where
  range : mid.forkTreeDb.ParentsInRange
  nodes : ∀ s above, mid.forkTreeDb.HasNode s above ↔ forks.forkTreeDb.HasNode s above ∨
    ∃ x, AncestorsReceived forks received x ∧ x.stamp = s ∧ above = some x.previousBlockstamp
  store : ∀ s, mid.forkBlocksDb.containsKey s = true ↔
    forks.forkBlocksDb.containsKey s = true ∨
      ∃ x, AncestorsReceived forks received x ∧ x.stamp = s
  orphans : ∀ key x, x ∈ (mid.orphanBlocksDb.get? key).getD [] ↔
    x ∈ (forks.orphanBlocksDb.get? key).getD [] ∨
      (x.previousBlockstamp = key ∧ WasOrphan forks received x)

namespace Received

variable {forks mid : ForksDBs} {received : List DALBlock} {dalBlock p x : DALBlock}

theorem inTree_iff (h : Received forks received mid) (s : Blockstamp) :
    InTree mid s ↔ InTree forks s ∨ ∃ x, AncestorsReceived forks received x ∧ s = x.stamp := by
  constructor
  · rintro ⟨above, hnode⟩
    rcases (h.nodes s above).1 hnode with hnode | ⟨x, hx, rfl, -⟩
    · exact .inl ⟨above, hnode⟩
    · exact .inr ⟨x, hx, rfl⟩
  · rintro (⟨above, hnode⟩ | ⟨x, hx, rfl⟩)
    · exact ⟨above, (h.nodes s above).2 (.inl hnode)⟩
    · exact ⟨_, (h.nodes x.stamp _).2 (.inr ⟨x, hx, rfl, rfl⟩)⟩

/-- The blocks that wait for one that is not in the tree are those received so far whose parent it
is, and they are not in the tree either. -/
theorem awaits_iff (h : Received forks received mid) (hnew : NewBlocks forks (received ++ [dalBlock]))
    (hp : p = dalBlock ∨ (p ∈ received ∧ ¬ AncestorsReceived forks received p)) :
    (Awaits mid.orphanBlocksDb p x ↔
      WaitsFor DALBlock.stamp DALBlock.previousBlockstamp received p x) ∧
    (WaitsFor DALBlock.stamp DALBlock.previousBlockstamp received p x →
      x ∈ received ∧ ¬ AncestorsReceived forks received x) := by
  have hpMem : p ∈ received ++ [dalBlock] := by
    rcases hp with rfl | ⟨hp, -⟩
    · exact List.mem_append_right _ (List.mem_singleton_self p)
    · exact List.mem_append_left _ hp
  have hnot : WaitsFor DALBlock.stamp DALBlock.previousBlockstamp received p x →
      x ∈ received ∧ ¬ AncestorsReceived forks received x := by
    rintro ⟨hx, hdep⟩
    refine ⟨hx, fun hconnected => ?_⟩
    cases hconnected with
    | known _ hknown =>
        rw [hdep] at hknown
        exact hnew.notInTree p hpMem hknown
    | @above q _ hq _ hdep' =>
        have hsame := hnew.eq_of_stamp_eq (List.mem_append_left _ hq.mem) hpMem
          (by rw [← hdep', hdep])
        rcases hp with rfl | ⟨-, hpNot⟩
        · -- The block received now was not received before.
          subst hsame
          have hdisjoint := (List.pairwise_append.1 hnew.distinct).2.2 q hq.mem q
            (List.mem_singleton_self q)
          exact hdisjoint rfl
        · exact hpNot (hsame ▸ hq)
  refine ⟨?_, hnot⟩
  rw [Awaits, h.orphans, hnew.notAwaited p hpMem]
  constructor
  · rintro (hmem | ⟨hdep, before, hbegin, -⟩)
    · cases hmem
    · exact ⟨hbegin.subset (List.mem_append_right _ (List.mem_singleton_self x)), hdep⟩
  · rintro hwaits
    exact .inr ⟨hwaits.2, setAside_of_not_connected (hnot hwaits).1 (hnot hwaits).2⟩

/-- What a block brings in from the orphan store is what waits for it. -/
theorem reflTransGen_awaits_iff (h : Received forks received mid)
    (hnew : NewBlocks forks (received ++ [dalBlock])) :
    ReflTransGen (Awaits mid.orphanBlocksDb) dalBlock x ↔
      ReflTransGen (WaitsFor DALBlock.stamp DALBlock.previousBlockstamp received) dalBlock x := by
  constructor
  · intro hx
    suffices hboth : ReflTransGen (WaitsFor DALBlock.stamp DALBlock.previousBlockstamp received)
        dalBlock x ∧ (x = dalBlock ∨ (x ∈ received ∧ ¬ AncestorsReceived forks received x)) from
      hboth.1
    induction hx with
    | refl => exact ⟨.refl, .inl rfl⟩
    | tail _ hstep ih =>
        have hwaits := (h.awaits_iff hnew ih.2).1.1 hstep
        exact ⟨ih.1.tail hwaits, .inr ((h.awaits_iff hnew ih.2).2 hwaits)⟩
  · intro hx
    suffices hboth : ReflTransGen (Awaits mid.orphanBlocksDb) dalBlock x ∧
        (x = dalBlock ∨ (x ∈ received ∧ ¬ AncestorsReceived forks received x)) from hboth.1
    induction hx with
    | refl => exact ⟨.refl, .inl rfl⟩
    | tail _ hstep ih =>
        exact ⟨ih.1.tail ((h.awaits_iff hnew ih.2).1.2 hstep),
          .inr ((h.awaits_iff hnew ih.2).2 hstep)⟩

theorem mem_of_reflTransGen
    (hx : ReflTransGen (WaitsFor DALBlock.stamp DALBlock.previousBlockstamp received) dalBlock x) :
    x ∈ received ++ [dalBlock] := by
  rcases ReflTransGen.cases_tail hx with rfl | ⟨_, _, hwaits⟩
  · exact List.mem_append_right _ (List.mem_singleton_self x)
  · exact List.mem_append_left _ hwaits.1

theorem wellKeyed (h : Received forks received mid)
    (hnew : NewBlocks forks (received ++ [dalBlock])) :
    WellKeyed mid.orphanBlocksDb dalBlock where
  hashed := fun x hx =>
    hnew.hashed x (mem_of_reflTransGen ((h.reflTransGen_awaits_iff hnew).1 hx))
  numbered := fun x hx =>
    hnew.numbered x (mem_of_reflTransGen ((h.reflTransGen_awaits_iff hnew).1 hx))
  keyed := by
    intro p x hp hx
    have hpx := (h.reflTransGen_awaits_iff hnew).1 hp
    have hor := mem_of_reflTransGen hpx
    rw [Awaits, h.orphans, hnew.notAwaited p hor] at hx
    rcases hx with hmem | ⟨hdep, -⟩
    · cases hmem
    · exact hdep

/-- A block whose parent is in the tree brings in the orphans that wait for it. -/
theorem receive_placed (h : Received forks received mid)
    (hnew : NewBlocks forks (received ++ [dalBlock]))
    (hup : InTree mid dalBlock.previousBlockstamp) :
    ∃ mid', receive mid dalBlock = .ok mid' ∧ Received forks (received ++ [dalBlock]) mid' := by
  have hfuel : keysFrom mid.orphanBlocksDb dalBlock.block.number < mid.orphanBlocksDb.len + 1 :=
    Nat.lt_succ_of_le List.countP_le_length
  rcases insertNewForkBlockAux_placed _ mid dalBlock h.range (h.wellKeyed hnew) hup hfuel with
    ⟨mid', hrun, hplaces⟩
  have hready := (h.inTree_iff _).1 hup
  have hconnected := fun x => Connected.append_iff (x := x) hready
  refine ⟨mid', by rw [receive, insertNewForkBlock, hrun]; rfl, {
    range := hplaces.range
    nodes := ?_
    store := ?_
    orphans := ?_ }⟩
  · intro s above
    rw [hplaces.nodes, h.nodes, or_assoc, ← exists_or]
    refine or_congr_right (exists_congr fun x => ?_)
    rw [h.reflTransGen_awaits_iff hnew, ← or_and_right, ← hconnected]
  · intro s
    rw [hplaces.store, h.store, or_assoc, ← exists_or]
    refine or_congr_right (exists_congr fun x => ?_)
    rw [h.reflTransGen_awaits_iff hnew, ← or_and_right, ← hconnected]
  · intro key x
    rw [hplaces.orphans, h.orphans, WasOrphan, WasOrphan, setAside_append_iff]
    have hself := (hconnected dalBlock).2 (.inr .refl)
    constructor
    · rintro (hx | ⟨hdep, hx⟩)
      · exact .inl hx
      · exact .inr ⟨hdep, .inl hx⟩
    · rintro (hx | ⟨hdep, hx | ⟨-, hnot⟩⟩)
      · exact .inl hx
      · exact .inr ⟨hdep, hx⟩
      · exact absurd hself hnot

/-- A block whose parent is not in the tree becomes an orphan. -/
theorem receive_orphan (h : Received forks received mid)
    (hnew : NewBlocks forks (received ++ [dalBlock]))
    (hup : ¬ InTree mid dalBlock.previousBlockstamp) :
    ∃ mid', receive mid dalBlock = .ok mid' ∧ Received forks (received ++ [dalBlock]) mid' := by
  have hmem : dalBlock ∈ received ++ [dalBlock] :=
    List.mem_append_right _ (List.mem_singleton_self dalBlock)
  have hrun : receive mid dalBlock = .ok (insertOrphanBlock mid dalBlock) := by
    rw [receive, insertNewForkBlock, insertNewForkBlockAux,
      DALBlock.blockstamp_eq_stamp (hnew.hashed dalBlock hmem), ok_bind]
    rw [show mid.forkTreeDb.insertNewForkBlock dalBlock.stamp dalBlock.block.previousHash =
      .ok (mid.forkTreeDb, false) from ForkTree.insertNewForkBlock_none hup]
    rfl
  have hready := fun hready => hup ((h.inTree_iff _).2 hready)
  have hconnected := fun x => Connected.append_iff_of_not (x := x) hready
  refine ⟨_, hrun, {
    range := h.range
    nodes := ?_
    store := ?_
    orphans := ?_ }⟩
  · intro s above
    simp only [AncestorsReceived, hconnected]
    exact h.nodes s above
  · intro s
    simp only [AncestorsReceived, hconnected]
    exact h.store s
  · intro key x
    have hnot : ¬ AncestorsReceived forks (received ++ [dalBlock]) dalBlock := by
      rw [AncestorsReceived, hconnected]
      intro hbefore
      have hdisjoint := (List.pairwise_append.1 hnew.distinct).2.2 dalBlock hbefore.mem dalBlock
        (List.mem_singleton_self dalBlock)
      exact hdisjoint rfl
    rw [WasOrphan, setAside_append_iff]
    change x ∈ ((mid.orphanBlocksDb.insert dalBlock.previousBlockstamp _).get? key).getD [] ↔ _
    rw [HashMap.get?_insert]
    by_cases hkey : key = dalBlock.previousBlockstamp
    · rw [if_pos hkey, ← hkey, Option.getD_some, List.mem_append, List.mem_singleton, h.orphans,
        or_assoc]
      refine or_congr_right ?_
      constructor
      · rintro (⟨hdep, hx⟩ | rfl)
        · exact ⟨hdep, .inl hx⟩
        · exact ⟨hkey.symm, .inr ⟨rfl, hnot⟩⟩
      · rintro ⟨hdep, hx | ⟨rfl, -⟩⟩
        · exact .inl ⟨hdep, hx⟩
        · exact .inr rfl
    · rw [if_neg hkey, h.orphans]
      refine or_congr_right (and_congr_right fun hdep => ?_)
      constructor
      · exact .inl
      · rintro (hx | ⟨rfl, -⟩)
        · exact hx
        · exact absurd hdep.symm hkey

end Received

/-! ## A whole sequence of blocks -/

/-- Every sequence of new blocks is received. -/
theorem exists_received {forks : ForksDBs} (hrange : forks.forkTreeDb.ParentsInRange)
    {received : List DALBlock} (hnew : NewBlocks forks received) :
    ∃ mid, received.foldlM receive forks = .ok mid ∧ Received forks received mid := by
  induction received using List.reverseRecOn with
  | nil =>
      have hnone : ∀ x, ¬ AncestorsReceived forks [] x := fun x hx => List.not_mem_nil hx.mem
      have hnever : ∀ x, ¬ WasOrphan forks [] x := by
        rintro x ⟨before, hbegin, -⟩
        exact absurd (List.prefix_nil.1 hbegin) (by simp)
      exact ⟨forks, rfl, {
        range := hrange
        nodes := by simp [hnone]
        store := by simp [hnone]
        orphans := by simp [hnever] }⟩
  | append_singleton received dalBlock ih =>
      rcases ih (hnew.of_begin (List.prefix_append _ _)) with ⟨mid, hrun, hreceived⟩
      have hstep : ∃ mid', receive mid dalBlock = .ok mid' ∧
          Received forks (received ++ [dalBlock]) mid' := by
        by_cases hup : InTree mid dalBlock.previousBlockstamp
        · exact hreceived.receive_placed hnew hup
        · exact hreceived.receive_orphan hnew hup
      rcases hstep with ⟨mid', hmid', hreceived'⟩
      refine ⟨mid', ?_, hreceived'⟩
      rw [List.foldlM_append, hrun, ok_bind, List.foldlM_cons, hmid']
      rfl

/-- At every moment of a sequence the tree has exactly the received blocks whose ancestors were
received, and no block is in both stores. -/
def Settles (forks : ForksDBs) (l : List DALBlock) : Prop :=
  ∀ received, received <+: l → ∃ mid, received.foldlM receive forks = .ok mid ∧
    StoresDisjoint mid ∧ ∀ x ∈ received, InTree mid x.stamp ↔ AncestorsReceived forks received x

/-- The order of two sequences does not matter: both settle, and they end with the same tree. -/
def ArrivalOrderFree (forks : ForksDBs) (l l' : List DALBlock) : Prop :=
  Settles forks l ∧ Settles forks l' ∧ ∃ ended ended', l.foldlM receive forks = .ok ended ∧
    l'.foldlM receive forks = .ok ended' ∧
    ∀ s above, ended.forkTreeDb.HasNode s above ↔ ended'.forkTreeDb.HasNode s above

/-- No block that ends up in the tree is received before its parent. -/
abbrev ParentsFirst (forks : ForksDBs) (l : List DALBlock) : Prop :=
  InOrder DALBlock.stamp DALBlock.previousBlockstamp (InTree forks) l

variable {forks mid : ForksDBs} {l l' received : List DALBlock}

/-- The tree has a received block exactly when all its ancestors were received. -/
theorem Received.inTree_stamp_iff (h : Received forks received mid)
    (hnew : NewBlocks forks received) {x : DALBlock} (hx : x ∈ received) :
    InTree mid x.stamp ↔ AncestorsReceived forks received x := by
  rw [h.inTree_iff]
  constructor
  · rintro (hknown | ⟨y, hy, hstamp⟩)
    · exact absurd hknown (hnew.notInTree x hx)
    · exact hnew.eq_of_stamp_eq hx hy.mem hstamp ▸ hy
  · exact fun hconnected => .inr ⟨x, hconnected, rfl⟩

/-- The stores are disjoint exactly when no orphan has got its ancestors. -/
theorem Received.storesDisjoint_iff (h : Received forks received mid)
    (hdisjoint : StoresDisjoint forks) (hnew : NewBlocks forks received) :
    StoresDisjoint mid ↔
      ∀ x, WasOrphan forks received x → ¬ AncestorsReceived forks received x := by
  constructor
  · intro hmid x horphan hconnected
    have hkey := hmid x.previousBlockstamp x ((h.orphans _ x).2 (.inr ⟨rfl, horphan⟩))
    rw [(h.store x.stamp).2 (.inr ⟨x, hconnected, rfl⟩)] at hkey
    cases hkey
  · intro hnone key x hx
    by_contra hstored
    rw [Bool.not_eq_false, h.store] at hstored
    rcases (h.orphans key x).1 hx with hold | ⟨-, horphan⟩
    · rcases hstored with hstored | ⟨y, hy, hstamp⟩
      · rw [hdisjoint key x hold] at hstored
        cases hstored
      · exact hnew.notOrphan y hy.mem key x hold hstamp.symm
    · have hmem : x ∈ received := by
        rcases horphan with ⟨before, hbegin, -⟩
        exact hbegin.subset (List.mem_append_right _ (List.mem_singleton_self x))
      rcases hstored with hstored | ⟨y, hy, hstamp⟩
      · rw [hnew.notStored x hmem] at hstored
        cases hstored
      · exact hnone x horphan (hnew.eq_of_stamp_eq hy.mem hmem hstamp ▸ hy)

/-- A sequence settles exactly when parents come first. -/
theorem settles_iff (hrange : forks.forkTreeDb.ParentsInRange) (hdisjoint : StoresDisjoint forks)
    (hnew : NewBlocks forks l) : Settles forks l ↔ ParentsFirst forks l := by
  have horder : ParentsFirst forks l ↔
      ∀ x, WasOrphan forks l x → ¬ AncestorsReceived forks l x :=
    inOrder_iff hnew.distinct hnew.notInTree
  rw [horder]
  constructor
  · intro hsettles
    rcases hsettles l List.prefix_rfl with ⟨mid, hrun, hmid, -⟩
    rcases exists_received hrange hnew with ⟨mid', hrun', hreceived⟩
    have hsame : mid = mid' := Except.ok.inj (hrun.symm.trans hrun')
    subst hsame
    exact (hreceived.storesDisjoint_iff hdisjoint hnew).1 hmid
  · intro hnone received hbegin
    have hnew' := hnew.of_begin hbegin
    rcases exists_received hrange hnew' with ⟨mid, hrun, hreceived⟩
    refine ⟨mid, hrun, (hreceived.storesDisjoint_iff hdisjoint hnew').2 ?_,
      fun x hx => hreceived.inTree_stamp_iff hnew' hx⟩
    rintro x ⟨before, hbefore, hnot⟩ hconnected
    exact hnone x ⟨before, hbefore.trans hbegin, hnot⟩
      (hconnected.mono fun _ hy => hbegin.subset hy)

/-- The order of arrival does not matter exactly when parents come first in both orders: the trees
are the same in any case, but a block that comes before its parent stays in the orphan store. -/
theorem arrivalOrderFree_iff (hrange : forks.forkTreeDb.ParentsInRange)
    (hdisjoint : StoresDisjoint forks) (hnew : NewBlocks forks l) (hperm : l.Perm l') :
    ArrivalOrderFree forks l l' ↔ ParentsFirst forks l ∧ ParentsFirst forks l' := by
  have hnew' := hnew.of_perm hperm
  rw [ArrivalOrderFree, settles_iff hrange hdisjoint hnew, settles_iff hrange hdisjoint hnew']
  rcases exists_received hrange hnew with ⟨ended, hrun, hreceived⟩
  rcases exists_received hrange hnew' with ⟨ended', hrun', hreceived'⟩
  have hsame : ∀ x, AncestorsReceived forks l x ↔ AncestorsReceived forks l' x := fun x =>
    ⟨fun hx => hx.mono fun _ => hperm.mem_iff.1, fun hx => hx.mono fun _ => hperm.mem_iff.2⟩
  constructor
  · rintro ⟨hfirst, hfirst', -⟩
    exact ⟨hfirst, hfirst'⟩
  · rintro ⟨hfirst, hfirst'⟩
    refine ⟨hfirst, hfirst', ended, ended', hrun, hrun', fun s above => ?_⟩
    rw [hreceived.nodes, hreceived'.nodes]
    simp only [hsame]

/-- Two blocks of one branch and one of another, each after its parent, in two orders. -/
theorem arrivalOrderFree_mockBlocks :
    ∃ s, [ForksOp.head (mockDALBlock 0 0)].foldlM ForksOp.apply default = .ok s ∧
      ArrivalOrderFree s.forks [mockDALBlock 1 1, mockDALBlock 1 2, mockDALBlock 2 1]
        [mockDALBlock 2 1, mockDALBlock 1 1, mockDALBlock 1 2] := by
  rcases Option.isSome_iff_exists.1 (show (guardedRun ForksOp.apply (fun _ _ => True)
    [ForksOp.head (mockDALBlock 0 0)] default).isSome by decide) with ⟨s, hguarded⟩
  have hrun := foldlM_of_guardedRun hguarded
  have hfacts : (∀ slot ∈ s.forks.forkTreeDb.nodes, ∀ node ∈ slot, ∀ p ∈ node.parent,
      p < s.forks.forkTreeDb.nodes.length) ∧ s.forks.orphanBlocksDb = ∅ ∧
      ∀ x ∈ [mockDALBlock 1 1, mockDALBlock 1 2, mockDALBlock 2 1],
        x.block.hash.isSome = true ∧ x.block.number ≠ 0 ∧
        s.forks.forkTreeDb.findNodeWithBlockstamp x.stamp = none ∧
        s.forks.forkBlocksDb.containsKey x.stamp = false := by
    obtain rfl := Except.ok.inj hrun
    refine ⟨?_, rfl, ?_⟩
    · decide
    · decide
  rcases hfacts with ⟨hrange, horphans, hblocks⟩
  have hempty : ∀ key, (s.forks.orphanBlocksDb.get? key).getD [] = [] := by
    intro key
    rw [horphans]
    rfl
  have hnew : NewBlocks s.forks [mockDALBlock 1 1, mockDALBlock 1 2, mockDALBlock 2 1] := {
    hashed := fun x hx => (hblocks x hx).1
    numbered := fun x hx => (hblocks x hx).2.1
    distinct := by decide
    notInTree := fun x hx => not_inTree_of_find (hblocks x hx).2.2.1
    notStored := fun x hx => (hblocks x hx).2.2.2
    notAwaited := fun x _ => by rw [horphans]; rfl
    notOrphan := fun x _ key y hy => by rw [hempty] at hy; cases hy }
  have hdisjoint : StoresDisjoint s.forks := fun key x hx => by rw [hempty] at hx; cases hx
  refine ⟨s, hrun, (arrivalOrderFree_iff (ForkTree.parentsInRange_of_nodes hrange) hdisjoint hnew
    (by decide)).2 ⟨?_, ?_⟩⟩
  · -- No block waits for one that comes later.
    have hpairs : [mockDALBlock 1 1, mockDALBlock 1 2, mockDALBlock 2 1].Pairwise
        fun x p => x.previousBlockstamp ≠ p.stamp := by decide
    exact hpairs.imp fun hne hdep => absurd hdep hne
  · have hpairs : [mockDALBlock 2 1, mockDALBlock 1 1, mockDALBlock 1 2].Pairwise
        fun x p => x.previousBlockstamp ≠ p.stamp := by decide
    exact hpairs.imp fun hne hdep => absurd hdep hne

/-- A block that comes before its parent is in both stores once the parent has come. -/
theorem not_arrivalOrderFree_mockBlocks :
    ∃ s, [ForksOp.head (mockDALBlock 0 0)].foldlM ForksOp.apply default = .ok s ∧
      ¬ ArrivalOrderFree s.forks [mockDALBlock 1 2, mockDALBlock 1 1]
        [mockDALBlock 1 1, mockDALBlock 1 2] := by
  refine ⟨_, rfl, fun h => ?_⟩
  rcases h.1 _ List.prefix_rfl with ⟨mid, hrun, hdisjoint, -⟩
  have hboth := hdisjoint (ForkTree.mockBlockstamp 1 1) (mockDALBlock 1 2)
  obtain rfl := Except.ok.inj hrun
  revert hboth
  decide

end Durs
