/-
# Changing the main branch

What a change of the main branch does to a well-formed tree, for any pair of an old and a new head:
the main branch becomes the path to the new head, and the abandoned blocks stay a fork branch as
long as the block they fork from stays in the tree.
-/

import Durs.ForkTree.Rooted

namespace Durs

open RustStd Lib Relation

namespace ForkTree

variable {t t' : ForkTree} {id p : TreeNodeId} {node : TreeNode} {first last : BlockNumber}

/-- The blockstamps of the main branch from one block number to another, both included. -/
def mainBlockstamps (t : ForkTree) (first last : BlockNumber) : List Blockstamp :=
  (List.range' first (last + 1 - first)).filterMap fun k =>
    (t.mainBranch.get? k).bind fun id => (t.node? id).map TreeNode.data

/-- The branch of a node leaves the main branch above the block numbered `fork`: that block is the
highest one of the main branch that the node is below. -/
def ForksAt (t : ForkTree) (id : TreeNodeId) (fork : BlockNumber) : Prop :=
  (∃ forkId, t.mainBranch.get? fork = some forkId ∧ ReflTransGen t.ChildOf forkId id) ∧
    ∀ k mainId, fork < k → t.mainBranch.get? k = some mainId →
      ¬ ReflTransGen t.ChildOf mainId id

/-! ## The main path -/

/-- A main path has one block for each number. -/
theorem MainPath.len_eq (hmain : t.MainPath first last) :
    t.mainBranch.len = last + 1 - first := by
  have hperm : t.mainBranch.keys.Perm (List.range' first (last + 1 - first)) := by
    refine (List.perm_ext_iff_of_nodup (HashMap.keys_nodup _) List.nodup_range').2 fun k => ?_
    have hordered := hmain.ordered
    rw [HashMap.mem_keys_iff, ← Option.isSome_iff_exists, hmain.range, List.mem_range'_1]
    change first ≤ k ∧ k ≤ last ↔ _
    constructor
    · rintro ⟨hle, hle'⟩
      exact ⟨hle, by omega⟩
    · rintro ⟨hle, hlt⟩
      exact ⟨hle, by omega⟩
  rw [HashMap.len, hperm.length_eq, List.length_range']

namespace Rooted

/-- The invariant does not depend on the main branch, as long as it is a path from the root. -/
theorem of_mainPath (h : t.Rooted) (hnodes : t'.nodes = t.nodes) (hroot : t'.root = t.root)
    (hmain : t'.MainPath first last) : t'.Rooted := by
  have hnode : t'.node? = t.node? := by
    funext i
    rw [ForkTree.node?, hnodes, ForkTree.node?]
  have hchildOf : t'.ChildOf = t.ChildOf := by
    funext p c
    rw [ForkTree.ChildOf, hnode, ForkTree.ChildOf]
  have hhangs : t'.Hangs = t.Hangs := by
    funext i
    rw [ForkTree.Hangs, hnode, hroot, hchildOf, ForkTree.Hangs]
  exact {
    childLink := by
      rw [hnode, hhangs]
      exact h.childLink
    parentLink := by
      rw [hnode, hhangs, hchildOf]
      exact h.parentLink
    childrenNodup := by
      rw [hnode, hhangs]
      exact h.childrenNodup
    mainBranch := ⟨first, last, hmain⟩
    unique := by
      rw [hnode]
      exact h.unique }

/-- The main branch can be extended with a child of its last block. -/
theorem withMain (h : t.Rooted) (hmain : t.MainPath first last)
    (hp : t.mainBranch.get? last = some p) (hc : t.ChildOf p id) :
    (t.withMain (last + 1) id).Rooted ∧ (t.withMain (last + 1) id).MainPath first (last + 1) := by
  rcases hc with ⟨parent, hparent, hmem⟩
  rcases h.childLink p parent id (h.hangs_of_main hmain hp) hparent hmem with
    ⟨node, hnode, hname, hnumber⟩
  rcases hmain.live last p hp with ⟨parent', hparent', hlast⟩
  rw [hparent] at hparent'
  cases hparent'
  have hordered := hmain.ordered
  have hpath : (t.withMain (last + 1) id).MainPath first (last + 1) := {
    ordered := Nat.le_succ_of_le hordered
    range := by
      intro k
      rw [withMain_mainBranch, HashMap.get?_insert]
      by_cases hk : k = last + 1
      · subst hk
        rw [if_pos rfl]
        exact ⟨fun _ => ⟨Nat.le_succ_of_le hordered, Nat.le_refl _⟩, fun _ => rfl⟩
      · rw [if_neg hk, hmain.range]
        exact ⟨fun hrange => ⟨hrange.1, Nat.le_succ_of_le hrange.2⟩,
          fun hrange => ⟨hrange.1, Nat.le_of_lt_succ (Nat.lt_of_le_of_ne hrange.2 hk)⟩⟩
    root := by
      rw [withMain_mainBranch, HashMap.get?_insert,
        if_neg (Nat.ne_of_lt (Nat.lt_succ_of_le hordered)), hmain.root, withMain_root]
    live := by
      intro k i hi
      rw [withMain_mainBranch, HashMap.get?_insert] at hi
      rw [withMain_node?]
      by_cases hk : k = last + 1
      · rw [if_pos hk] at hi
        cases hi
        exact ⟨node, hnode, by rw [hk, hnumber, hlast]⟩
      · rw [if_neg hk] at hi
        exact hmain.live k i hi
    linked := by
      intro k i hi hk
      rw [withMain_mainBranch, HashMap.get?_insert] at hi
      by_cases hlast' : k + 1 = last + 1
      · rw [if_pos hlast'] at hi
        cases hi
        refine ⟨p, ?_, node, hnode, hname⟩
        rw [withMain_mainBranch, HashMap.get?_insert, if_neg (Nat.ne_of_lt
          (Nat.lt_succ_of_le (Nat.le_of_eq (Nat.succ_injective hlast')))),
          Nat.succ_injective hlast', hp]
      · rw [if_neg hlast'] at hi
        rcases hmain.linked k i hi hk with ⟨q, hq, hparentOf⟩
        refine ⟨q, ?_, hparentOf⟩
        have hrange := (hmain.range (k + 1)).1 (Option.isSome_iff_exists.2 ⟨i, hi⟩)
        rw [withMain_mainBranch, HashMap.get?_insert,
          if_neg (Nat.ne_of_lt (Nat.lt_succ_of_lt hrange.2)), hq] }
  exact ⟨h.of_mainPath rfl rfl hpath, hpath⟩

end Rooted

/-! ## Selecting the nodes of the branch -/

/-- `t'` is `t` with nodes removed: the blocks of the main branch before `kept`, and none below the
later ones. -/
structure Keeps (t : ForkTree) (kept last : BlockNumber) (t' : ForkTree) : Prop where
  old : ∀ i node, t'.node? i = some node → t.node? i = some node
  main : ∀ k q, kept ≤ k → k ≤ last → t.mainBranch.get? k = some q → t'.mainBranch.get? k = some q
  below : ∀ k q i, kept ≤ k → k ≤ last → t.mainBranch.get? k = some q →
    ReflTransGen t.ChildOf q i → t'.node? i = t.node? i
  pruned : ∀ k q, k < kept → k ≤ last → t.mainBranch.get? k = some q → t'.node? q = none

namespace Keeps

variable {kept : BlockNumber}

theorem childOf (h : Keeps t kept last t') {q c : TreeNodeId} (hc : t'.ChildOf q c) :
    t.ChildOf q c := by
  rcases hc with ⟨n, hn, hmem⟩
  exact ⟨n, h.old q n hn, hmem⟩

/-- What is below a block that is kept stays below it. -/
theorem reflTransGen (h : Keeps t kept last t') {k : BlockNumber} {q i : TreeNodeId}
    (hkept : kept ≤ k) (hlast : k ≤ last) (hq : t.mainBranch.get? k = some q)
    (hi : ReflTransGen t.ChildOf q i) : ReflTransGen t'.ChildOf q i := by
  induction hi with
  | refl => exact .refl
  | @tail j i hj hc ih =>
      rcases hc with ⟨n, hn, hmem⟩
      exact ih.tail ⟨n, by rw [h.below k q j hkept hlast hq hj, hn], hmem⟩

theorem refl (hmain : t.MainPath first last) : Keeps t first last t where
  old := fun _ _ hn => hn
  main := fun _ _ _ _ hq => hq
  below := fun _ _ _ _ _ _ _ => rfl
  pruned := by
    intro k q hk _ hq
    exact absurd ((hmain.range k).1 (Option.isSome_iff_exists.2 ⟨q, hq⟩)).1 (Nat.not_le.2 hk)

theorem trans {t₁ : ForkTree} {kept₁ last₁ : BlockNumber} (h : Keeps t kept last t₁)
    (h' : Keeps t₁ kept₁ last₁ t') (hkept : kept ≤ kept₁) (hlast : last ≤ last₁) :
    Keeps t kept₁ last t' where
  old := fun i node hn => h.old i node (h'.old i node hn)
  main := by
    intro k q hk hk' hq
    exact h'.main k q hk (Nat.le_trans hk' hlast) (h.main k q (Nat.le_trans hkept hk) hk' hq)
  below := by
    intro k q i hk hk' hq hi
    have hq₁ := h.main k q (Nat.le_trans hkept hk) hk' hq
    have hi₁ := h.reflTransGen (Nat.le_trans hkept hk) hk' hq hi
    rw [h'.below k q i hk (Nat.le_trans hk' hlast) hq₁ hi₁,
      h.below k q i (Nat.le_trans hkept hk) hk' hq hi]
  pruned := by
    intro k q hk hk' hq
    rcases Nat.lt_or_ge k kept with hlt | hge
    · cases hn : t'.node? q with
      | none => rfl
      | some n =>
          have hnone := h.pruned k q hlt hk' hq
          rw [h'.old q n hn] at hnone
          cases hnone
    · exact h'.pruned k q hk (Nat.le_trans hk' hlast) (h.main k q hge hk' hq)

end Keeps

namespace Rooted

/-- One node more: it goes on the main branch, and the tree is pruned above the old head. -/
theorem selectNode_ok (h : t.Rooted) (hmain : t.MainPath first last) (oldCurrent : Blockstamp)
    (hp : t.mainBranch.get? last = some p) (hc : t.ChildOf p id) :
    ∃ t', selectNode oldCurrent t id = .ok t' ∧ t'.Rooted ∧
      t'.MainPath (first + (last + 1 - max last oldCurrent.id)) (last + 1) ∧
      t'.mainBranch.get? (last + 1) = some id ∧
      Keeps t (first + (last + 1 - max last oldCurrent.id)) last t' ∧
      ∀ i, ReflTransGen t.ChildOf id i → t'.node? i = t.node? i := by
  have hhangs := h.hangs_of_main hmain hp
  rcases h.live (hhangs.tail hc) with ⟨node, hnode⟩
  have hnumber : node.data.id = last + 1 := by
    rcases hmain.live last p hp with ⟨parent, hparent, hlast⟩
    rw [← number_eq hnode, h.forest.rank hhangs hc, number_eq hparent, hlast]
  rcases h.withMain hmain hp hc with ⟨hrooted, hmain'⟩
  have hget : ∀ k, (t.withMain (last + 1) id).mainBranch.get? k =
      if k = last + 1 then some id else t.mainBranch.get? k := by
    intro k
    rw [withMain_mainBranch, HashMap.get?_insert]
  have hselect : selectNode oldCurrent t id =
      if last + 1 > oldCurrent.id then (t.withMain (last + 1) id).pruning
      else .ok (t.withMain (last + 1) id) := by
    rw [selectNode, node?_eq_some_iff.1 hnode, expect_some, ok_bind, expect_some, ok_bind, hnumber]
    rfl
  by_cases habove : last + 1 > oldCurrent.id
  · have hmax : last + 1 - max last oldCurrent.id = 1 := by
      rw [Nat.max_eq_left (Nat.le_of_lt_succ habove), Nat.add_sub_cancel_left]
    rcases hrooted.exists_pruning hmain' (Nat.lt_succ_of_le hmain.ordered) with
      ⟨t', rootId, rootNode, mainChildId, ids, hrun, hprunes, hfirst⟩
    rcases hrooted.prunes hmain' hprunes hfirst (Nat.lt_succ_of_le hmain.ordered) with
      ⟨hrooted', hmain''⟩
    have hget' : ∀ k, t'.mainBranch.get? k =
        if k = first then none else if k = last + 1 then some id else t.mainBranch.get? k := by
      intro k
      rw [hprunes.mainBranch, HashMap.get?_remove, hfirst, hget]
    have hchild := hprunes.mainChild
    rw [hfirst] at hchild
    -- Every block above the root is below the one that becomes the root.
    have hbelow : ∀ k q i, first < k → (t.withMain (last + 1) id).mainBranch.get? k = some q →
        ReflTransGen t.ChildOf q i → t'.node? i = t.node? i := by
      intro k q i hk hq hi
      refine hrooted.node?_of_prunes hmain' hprunes hfirst (ReflTransGen.trans ?_ hi)
      rcases Nat.exists_eq_add_of_le hk with ⟨j, rfl⟩
      exact hrooted.below_of_main hmain' hchild j q hq
    have hordered := hmain.ordered
    refine ⟨t', by rw [hselect, if_pos habove, hrun], hrooted', by rw [hmax]; exact hmain'', ?_,
      ?_, ?_⟩
    · rw [hget', if_neg (Nat.ne_of_gt (Nat.lt_succ_of_le hordered)), if_pos rfl]
    · rw [hmax]
      exact {
        old := fun i n hn => (hprunes.node?_of_some hn).1
        main := by
          intro k q hk hk' hq
          rw [hget', if_neg (Nat.ne_of_gt hk), if_neg (Nat.ne_of_lt (Nat.lt_succ_of_le hk')), hq]
        below := by
          intro k q i hk hk' hq hi
          refine hbelow k q i hk ?_ hi
          rw [hget, if_neg (Nat.ne_of_lt (Nat.lt_succ_of_le hk')), hq]
        pruned := by
          intro k q hk hk' hq
          have hle := ((hmain.range k).1 (Option.isSome_iff_exists.2 ⟨q, hq⟩)).1
          rw [Nat.le_antisymm (Nat.le_of_lt_succ hk) hle, hmain.root] at hq
          have hroot : (t.withMain (last + 1) id).root = some rootId := hprunes.oldRoot
          rw [withMain_root, hq] at hroot
          cases hroot
          rw [hprunes.node?, if_pos (.inl rfl)] }
    · intro i hi
      refine hbelow (last + 1) id i (Nat.lt_succ_of_le hordered) ?_ hi
      rw [hget, if_pos rfl]
  · have hmax : last + 1 - max last oldCurrent.id = 0 := by
      have hle : last + 1 ≤ oldCurrent.id := Nat.le_of_not_gt habove
      exact Nat.sub_eq_zero_of_le (Nat.le_trans hle (Nat.le_max_right _ _))
    refine ⟨t.withMain (last + 1) id, by rw [hselect, if_neg habove], hrooted, ?_, ?_, ?_, ?_⟩
    · rw [hmax]
      exact hmain'
    · rw [hget, if_pos rfl]
    · exact {
        old := fun i n hn => hn
        main := by
          intro k q hk hk' hq
          rw [hget, if_neg (Nat.ne_of_lt (Nat.lt_succ_of_le hk')), hq]
        below := fun _ _ _ _ _ _ _ => rfl
        pruned := by
          intro k q hk _ hq
          rw [hmax, Nat.add_zero] at hk
          exact absurd ((hmain.range k).1 (Option.isSome_iff_exists.2 ⟨q, hq⟩)).1
            (Nat.not_le.2 hk) }
    · exact fun _ _ => rfl

/-- The blocks pruned for a branch, counted one node at a time. -/
theorem pruned_add (first last n old : Nat) :
    first + (last + 1 + n - max last old) =
      first + (last + 1 - max last old) + (last + 1 + n - max (last + 1) old) := by
  omega

/-- All the nodes of the branch: the main branch ends at the last one, and its root has moved up by
one block for each node above the old head. -/
theorem foldlM_selectNode_ok (oldCurrent : Blockstamp) (ids : List TreeNodeId) :
    ∀ {t : ForkTree} {first last : BlockNumber} {p : TreeNodeId}, t.Rooted →
      t.MainPath first last → t.mainBranch.get? last = some p → (p :: ids).IsChain t.ChildOf →
      ∃ t', ids.foldlM (selectNode oldCurrent) t = .ok t' ∧ t'.Rooted ∧
        t'.MainPath (first + (last + ids.length - max last oldCurrent.id)) (last + ids.length) ∧
        t'.mainBranch.get? (last + ids.length) = some ((p :: ids).getLast (List.cons_ne_nil _ _)) ∧
        Keeps t (first + (last + ids.length - max last oldCurrent.id)) last t' := by
  induction ids with
  | nil =>
      intro t first last p h hmain hp hchain
      have hmax : last + 0 - max last oldCurrent.id = 0 :=
        Nat.sub_eq_zero_of_le (Nat.le_max_left _ _)
      refine ⟨t, rfl, h, ?_, hp, ?_⟩
      · rw [List.length_nil, hmax]
        exact hmain
      · rw [List.length_nil, hmax]
        exact .refl hmain
  | cons id ids ih =>
      intro t first last p h hmain hp hchain
      rcases List.isChain_cons_cons.1 hchain with ⟨hc, hrest⟩
      rcases h.selectNode_ok hmain oldCurrent hp hc with
        ⟨t₁, hrun₁, hrooted₁, hmain₁, hid₁, hkeeps₁, hbelow₁⟩
      have hrest₁ : (id :: ids).IsChain t₁.ChildOf := by
        refine hrest.imp_of_mem_imp fun a b ha _ hab => ?_
        rcases hab with ⟨n, hn, hmem⟩
        refine ⟨n, ?_, hmem⟩
        rcases List.mem_cons.1 ha with rfl | ha
        · rw [hbelow₁ a .refl, hn]
        · rw [hbelow₁ a (Forest.below_of_isChain hrest a ha).to_reflTransGen, hn]
      rcases ih hrooted₁ hmain₁ hid₁ hrest₁ with ⟨t', hrun, hrooted, hmain', htop, hkeeps⟩
      have hlast : last + (id :: ids).length = last + 1 + ids.length := by
        rw [List.length_cons]
        exact Nat.add_right_comm last ids.length 1
      have hfirst : first + (last + (id :: ids).length - max last oldCurrent.id) =
          first + (last + 1 - max last oldCurrent.id) +
            (last + 1 + ids.length - max (last + 1) oldCurrent.id) := by
        rw [hlast]
        exact pruned_add first last ids.length oldCurrent.id
      refine ⟨t', by rw [List.foldlM_cons, hrun₁, ok_bind, hrun], hrooted, ?_, ?_, ?_⟩
      · rw [hfirst, hlast]
        exact hmain'
      · rw [hlast, htop]
        rfl
      · rw [hfirst]
        exact hkeeps₁.trans hkeeps (Nat.le_add_right _ _) (Nat.le_succ _)

end Rooted

/-! ## The branch of a node -/

theorem MainPath.onMain_iff (hmain : t.MainPath first last) (h : t.Rooted)
    (hnode : t.node? id = some node) : t.OnMain node ↔ t.mainBranch.get? node.data.id = some id :=
  ForkTree.onMain_iff hmain.live h.unique hnode

namespace Rooted

/-- A node that hangs is below a block of the main branch, and the climb from it goes through the
nodes in between. -/
theorem exists_branch (h : t.Rooted) (hmain : t.MainPath first last) (hid : t.Hangs id) :
    ∃ fork forkId path, t.ForksAt id fork ∧ t.mainBranch.get? fork = some forkId ∧
      t.OffMainPath id path ∧ (forkId :: path.reverse.map Prod.fst).IsChain t.ChildOf ∧
      (forkId :: path.reverse.map Prod.fst).getLast (List.cons_ne_nil _ _) = id ∧
      t.number id = fork + path.length := by
  have hmainNumber : ∀ k q, t.mainBranch.get? k = some q → t.number q = k := by
    intro k q hq
    rcases hmain.live k q hq with ⟨n, hn, hk⟩
    rw [number_eq hn, hk]
  -- A node on the main branch is its own fork block.
  have hon : ∀ i, t.Hangs i → t.mainBranch.get? (t.number i) = some i →
      ∃ fork forkId path, t.ForksAt i fork ∧ t.mainBranch.get? fork = some forkId ∧
        t.OffMainPath i path ∧ (forkId :: path.reverse.map Prod.fst).IsChain t.ChildOf ∧
        (forkId :: path.reverse.map Prod.fst).getLast (List.cons_ne_nil _ _) = i ∧
        t.number i = fork + path.length := by
    intro i hi hmainId
    rcases h.live hi with ⟨n, hn⟩
    have hnumber := number_eq hn
    refine ⟨t.number i, i, [], ⟨⟨i, hmainId, .refl⟩, ?_⟩, hmainId, ?_, List.isChain_singleton i,
      rfl, rfl⟩
    · intro k mainId hk hmainK hbelow
      have hle := h.forest.rank_le (h.hangs_of_main hmain hmainK) hbelow
      rw [hmainNumber k mainId hmainK] at hle
      exact Nat.not_lt.2 hle hk
    · exact .onMain hn ((hmain.onMain_iff h hn).2 (by rw [← hnumber, hmainId]))
  rcases hid with ⟨r, rootNode, hroot, hr, hpath⟩
  have hhangs : t.Hangs r := ⟨r, rootNode, hroot, hr, .refl⟩
  induction hpath with
  | refl =>
      refine hon r hhangs ?_
      rcases exists_root hmain with ⟨r', rootNode', hroot', hr', hnumber, hfirst⟩
      rw [hroot] at hroot'
      cases hroot'
      rw [hmainNumber first r hfirst, hfirst]
  | @tail p i hp hc ih =>
      have hpHangs : t.Hangs p := hhangs.below hp
      have hiHangs : t.Hangs i := hpHangs.tail hc
      by_cases hmainId : t.mainBranch.get? (t.number i) = some i
      · exact hon i hiHangs hmainId
      · rcases h.live hiHangs with ⟨n, hn⟩
        rcases hc with ⟨parent, hparent, hmem⟩
        rcases h.childLink p parent i hpHangs hparent hmem with ⟨n', hn', hname, hnumber⟩
        rw [hn] at hn'
        cases hn'
        have hoff : t.OffMain n := by
          refine offMain_of_not_onMain hmain.live fun honMain => hmainId ?_
          rw [number_eq hn, (hmain.onMain_iff h hn).1 honMain]
        rcases ih with ⟨fork, forkId, path, ⟨⟨forkId', hfork', hbelow⟩, hhighest⟩, hfork, hclimb,
          hchain, hlast, hlength⟩
        refine ⟨fork, forkId, (i, n) :: path,
          ⟨⟨forkId', hfork', hbelow.tail ⟨parent, hparent, hmem⟩⟩, ?_⟩, hfork,
          .step hn hoff hname hclimb, ?_, ?_, ?_⟩
        · intro k mainId hk hmainK hmainBelow
          rcases ReflTransGen.cases_tail hmainBelow with hsame | ⟨q, hq, hqi⟩
          · subst hsame
            rw [hmainNumber k i hmainK] at hmainId
            exact hmainId hmainK
          · have hqHangs := (h.hangs_of_main hmain hmainK).below hq
            rw [h.forest.unique hqHangs hpHangs hqi ⟨parent, hparent, hmem⟩] at hq
            exact hhighest k mainId hk hmainK hq
        · rw [List.reverse_cons, List.map_append, ← List.cons_append]
          refine hchain.append (List.isChain_singleton i) ?_
          intro x hx y hy
          rw [List.getLast?_eq_some_getLast (List.cons_ne_nil _ _), hlast] at hx
          cases hx
          cases hy
          exact ⟨parent, hparent, hmem⟩
        · simp
        · rw [h.forest.rank hpHangs ⟨parent, hparent, hmem⟩, hlength, List.length_cons,
            Nat.add_assoc]

/-- The branch of a node that hangs is read off its climb; the root must have no parent when it is
the node itself. -/
theorem getForkBranchNodesIds_eq (h : t.Rooted) (hmain : t.MainPath first last)
    (hnode : t.node? id = some node) (htop : t.root = some id → node.parent = none)
    {path : List (TreeNodeId × TreeNode)} (hpath : t.OffMainPath id path)
    (hlength : path.length ≤ t.nodes.length) :
    t.getForkBranchNodesIds id = .ok (path.reverse.map Prod.fst) := by
  cases hpath with
  | @onMain _ node' hnode' hon =>
      rw [hnode] at hnode'
      cases hnode'
      have hclimb : t.climbAbove node = .ok [] := by
        cases hparent : node.parent with
        | none =>
            rw [climbAbove, hparent]
            rfl
        | some p =>
            have hmainId := (hmain.onMain_iff h hnode).1 hon
            have hrange := (hmain.range _).1 (Option.isSome_iff_exists.2 ⟨id, hmainId⟩)
            rcases Nat.eq_or_lt_of_le hrange.1 with hfirst | hlt
            · -- The first block of the main branch is the root.
              rw [← hfirst, hmain.root] at hmainId
              rw [htop hmainId] at hparent
              cases hparent
            · rcases Nat.exists_eq_add_of_le' (Nat.zero_lt_of_lt hlt) with ⟨k, hk⟩
              rw [hk] at hmainId hlt
              rcases hmain.linked k id hmainId (Nat.le_of_lt_succ hlt) with
                ⟨q, hq, node', hnode', hname⟩
              rw [hnode] at hnode'
              cases hnode'
              rw [hparent] at hname
              cases hname
              rcases hmain.live k p hq with ⟨parent, hp, hnumber⟩
              have hpOn : t.OnMain parent := (hmain.onMain_iff h hp).2 (by rw [hnumber, hq])
              rw [climbAbove, hparent]
              exact climb_of_offMainPath _ (.onMain hp hpOn) (Nat.succ_pos _)
      rw [getForkBranchNodesIds, getRefNode_eq_ok_iff.2 hnode, ok_bind,
        isOffMainBranch_eq_false_iff.2 hon, ok_bind, hclimb]
      rfl
  | @top _ node' hnode' hoff hparent =>
      rw [hnode] at hnode'
      cases hnode'
      rw [getForkBranchNodesIds, getRefNode_eq_ok_iff.2 hnode, ok_bind,
        isOffMainBranch_eq_true_iff.2 hoff, ok_bind, climbAbove, hparent]
      rfl
  | @step _ q node' rest hnode' hoff hparent hrest =>
      rw [hnode] at hnode'
      cases hnode'
      rw [List.length_cons] at hlength
      rw [getForkBranchNodesIds, getRefNode_eq_ok_iff.2 hnode, ok_bind,
        isOffMainBranch_eq_true_iff.2 hoff, ok_bind, climbAbove, hparent]
      simp only [climb_of_offMainPath _ hrest (Nat.lt_succ_of_le (Nat.le_of_succ_le hlength)),
        ok_bind, if_true, List.singleton_append, List.map_reverse]
      rfl

/-! ## The change -/

/-- Both cuts of the main branch leave the blocks up to the fork block. -/
theorem exists_cut (h : t.Rooted) (hmain : t.MainPath first last) {fork : BlockNumber}
    {forkId : TreeNodeId} {oldCurrent newCurrent : Blockstamp} {ids : List TreeNodeId}
    (hfork : t.mainBranch.get? fork = some forkId) (hchain : (forkId :: ids).IsChain t.ChildOf)
    (hlast : last = oldCurrent.id) (hnew : newCurrent.id = fork + ids.length) :
    ∃ cut cut', t.cutMainBranch newCurrent ids = .ok cut ∧
      (if oldCurrent.id > newCurrent.id
        then cut.removeMainBranchRange (newCurrent.id + 1) oldCurrent.id else cut) = cut' ∧
      cut'.nodes = t.nodes ∧ cut'.Rooted ∧ cut'.MainPath first fork ∧
      ∀ k, k ≤ fork → cut'.mainBranch.get? k = t.mainBranch.get? k := by
  have hrange := (hmain.range fork).1 (Option.isSome_iff_exists.2 ⟨forkId, hfork⟩)
  have habove : ∀ k, oldCurrent.id < k → t.mainBranch.get? k = none := by
    intro k hk
    cases hid : t.mainBranch.get? k with
    | none => rfl
    | some id =>
        have hle := (hmain.range k).1 (Option.isSome_iff_exists.2 ⟨id, hid⟩)
        exact absurd (hlast ▸ hle.2) (Nat.not_le.2 hk)
  have hcut : ∃ cut, t.cutMainBranch newCurrent ids = .ok cut ∧ cut.nodes = t.nodes ∧
      cut.root = t.root ∧ ∀ k, cut.mainBranch.get? k =
        if fork + 1 ≤ k ∧ k ≤ newCurrent.id then none else t.mainBranch.get? k := by
    cases ids with
    | nil =>
        rw [List.length_nil, Nat.add_zero] at hnew
        refine ⟨t, rfl, rfl, rfl, fun k => ?_⟩
        rw [if_neg]
        rintro ⟨hk, hk'⟩
        rw [hnew] at hk'
        exact Nat.not_lt.2 hk' hk
    | cons c rest =>
        rcases List.isChain_cons_cons.1 hchain with ⟨⟨parent, hparent, hmem⟩, -⟩
        rcases h.childLink forkId parent c (h.hangs_of_main hmain hfork) hparent hmem with
          ⟨child, hchild, -, hnumber⟩
        rcases hmain.live fork forkId hfork with ⟨parent', hparent', hk⟩
        rw [hparent] at hparent'
        cases hparent'
        refine ⟨t.removeMainBranchRange child.data.id newCurrent.id, ?_, rfl, rfl, fun k => ?_⟩
        · rw [cutMainBranch, node?_eq_some_iff.1 hchild]
          rfl
        · rw [removeMainBranchRange_get?, hnumber, hk]
  rcases hcut with ⟨cut, hrun, hnodes, hroot, hget⟩
  generalize hcut' : (if oldCurrent.id > newCurrent.id
    then cut.removeMainBranchRange (newCurrent.id + 1) oldCurrent.id else cut) = cut'
  have hspec : cut'.nodes = t.nodes ∧ cut'.root = t.root ∧ ∀ k, cut'.mainBranch.get? k =
      if fork < k then none else t.mainBranch.get? k := by
    by_cases hgt : oldCurrent.id > newCurrent.id
    · rw [if_pos hgt] at hcut'
      subst hcut'
      refine ⟨hnodes, hroot, fun k => ?_⟩
      rw [removeMainBranchRange_get?, hget]
      have habove' := habove k
      grind
    · rw [if_neg hgt] at hcut'
      subst hcut'
      refine ⟨hnodes, hroot, fun k => ?_⟩
      rw [hget]
      have habove' := habove k
      grind
  rcases hspec with ⟨hnodes', hroot', hget'⟩
  have hnode' : ∀ i, cut'.node? i = t.node? i := by
    intro i
    rw [ForkTree.node?, hnodes', ForkTree.node?]
  have hget'' : ∀ k id, cut'.mainBranch.get? k = some id →
      k ≤ fork ∧ t.mainBranch.get? k = some id := by
    intro k id hid
    rw [hget'] at hid
    by_cases hk : fork < k
    · rw [if_pos hk] at hid
      cases hid
    · rw [if_neg hk] at hid
      exact ⟨Nat.le_of_not_lt hk, hid⟩
  have hkeep : ∀ k, k ≤ fork → cut'.mainBranch.get? k = t.mainBranch.get? k := by
    intro k hk
    rw [hget', if_neg (Nat.not_lt.2 hk)]
  have hpath : cut'.MainPath first fork := {
    ordered := hrange.1
    range := by
      intro k
      rw [hget']
      by_cases hk : fork < k
      · rw [if_pos hk]
        constructor
        · intro hnone
          cases hnone
        · exact fun hle => absurd hle.2 (Nat.not_le.2 hk)
      · rw [if_neg hk, hmain.range]
        exact ⟨fun hle => ⟨hle.1, Nat.le_of_not_lt hk⟩,
          fun hle => ⟨hle.1, Nat.le_trans hle.2 hrange.2⟩⟩
    root := by rw [hkeep first hrange.1, hmain.root, hroot']
    live := by
      intro k id hid
      rw [hnode']
      exact hmain.live k id (hget'' k id hid).2
    linked := by
      intro k id hid hk
      rcases hget'' (k + 1) id hid with ⟨hle, hid'⟩
      rcases hmain.linked k id hid' hk with ⟨q, hq, n, hn, hname⟩
      exact ⟨q, by rw [hkeep k (Nat.le_of_succ_le hle), hq], n, by rw [hnode', hn], hname⟩ }
  exact ⟨cut, cut', hrun, hcut', hnodes', h.of_mainPath hnodes' hroot' hpath, hpath, hkeep⟩

end Rooted

/-- What a change of the main branch does: it becomes the path from `first` to the new head, which
leaves the old one above the block numbered `fork`. -/
structure ChangesTo (t : ForkTree) (newHead : TreeNodeId) (fork first last : BlockNumber)
    (t' : ForkTree) : Prop where
  forks : t.ForksAt newHead fork
  rooted : t'.Rooted
  mainPath : t'.MainPath first last
  top : t'.mainBranch.get? last = some newHead
  keeps : Keeps t first fork t'

namespace Rooted

/-- A change to any node that hangs returns, and moves the root up by one block for each block the
new head is above the old one. -/
theorem changeMainBranch_ok (h : t.Rooted) {old new : TreeNode} {newHead : TreeNodeId}
    (hmain : t.MainPath first old.data.id) (hnew : t.node? newHead = some new)
    (hhangs : t.Hangs newHead) (htop : t.root = some newHead → new.parent = none) :
    ∃ t' fork, t.changeMainBranch old.data new.data = .ok t' ∧
      ChangesTo t newHead fork (first + (new.data.id - old.data.id)) new.data.id t' := by
  rcases h.exists_branch hmain hhangs with
    ⟨fork, forkId, path, hforks, hfork, hpath, hchain, hlast, hnumber⟩
  have hforkLe := ((hmain.range fork).1 (Option.isSome_iff_exists.2 ⟨forkId, hfork⟩)).2
  have hids : (path.reverse.map Prod.fst).length = path.length := by simp
  rw [number_eq hnew, ← hids] at hnumber
  have hbranch : t.getForkBranchNodesIds newHead = .ok (path.reverse.map Prod.fst) := by
    refine h.getForkBranchNodesIds_eq hmain hnew htop hpath ?_
    have hbelow : ReflTransGen t.ChildOf forkId newHead := by
      rw [← hlast]
      exact List.relationReflTransGen_of_exists_isChain_cons _ hchain rfl
    have hle := h.number_le (h.hangs_of_main hmain hfork) hbelow
    rcases hmain.live fork forkId hfork with ⟨forkNode, hforkNode, hk⟩
    rw [number_eq hnew, number_eq hforkNode, hk, hnumber, hids] at hle
    exact Nat.le_of_add_le_add_left hle
  have hfind : t.findNodeWithBlockstamp new.data = some newHead := by
    cases hfind : t.findNodeWithBlockstamp new.data with
    | none => exact absurd rfl (findNodeWithBlockstamp_eq_none_iff.1 hfind newHead new hnew)
    | some target =>
        rcases node?_of_findNodeWithBlockstamp hfind with ⟨n, hn, hdata⟩
        rw [h.unique target newHead n new hn hnew hdata]
  rcases h.exists_cut hmain hfork hchain rfl hnumber with
    ⟨cut, cut', hcut, hcut', hnodes, hrooted, hmainCut, hkeep⟩
  have hnode : cut'.node? = t.node? := by
    funext i
    rw [ForkTree.node?, hnodes, ForkTree.node?]
  have hchildOf : cut'.ChildOf = t.ChildOf := by
    funext q c
    rw [ForkTree.ChildOf, hnode, ForkTree.ChildOf]
  rcases hrooted.foldlM_selectNode_ok old.data (path.reverse.map Prod.fst)
    hmainCut (by rw [hkeep fork (Nat.le_refl _), hfork]) (by rw [hchildOf]; exact hchain) with
    ⟨t', hrun, hrooted', hmain', htop', hkeeps⟩
  rw [← hnumber, Nat.max_eq_right hforkLe] at hmain' hkeeps
  rw [← hnumber, hlast] at htop'
  refine ⟨t', fork, ?_, hforks, hrooted', hmain', htop', {
    old := ?_
    main := ?_
    below := ?_
    pruned := ?_ }⟩
  · rw [changeMainBranch, hfind, expect_some, ok_bind, hbranch, ok_bind, hcut, ok_bind]
    simp only [hcut', hrun]
  · intro i n hn
    rw [← hnode]
    exact hkeeps.old i n hn
  · intro k q hk hk' hq
    exact hkeeps.main k q hk hk' (by rw [hkeep k hk', hq])
  · intro k q i hk hk' hq hi
    rw [← hnode]
    exact hkeeps.below k q i hk hk' (by rw [hkeep k hk', hq]) (by rw [hchildOf]; exact hi)
  · intro k q hk hk' hq
    exact hkeeps.pruned k q hk hk' (by rw [hkeep k hk', hq])

end Rooted

/-! ## The abandoned branch -/

theorem mainBlockstamps_succ {k : BlockNumber} (hle : first ≤ k + 1)
    (hid : t.mainBranch.get? (k + 1) = some id) (hnode : t.node? id = some node) :
    t.mainBlockstamps first (k + 1) = t.mainBlockstamps first k ++ [node.data] := by
  rcases Nat.exists_eq_add_of_le hle with ⟨j, hj⟩
  have hlong : k + 1 + 1 - first = j + 1 := by
    rw [hj, Nat.add_assoc, Nat.add_sub_cancel_left]
  have hshort : k + 1 - first = j := by rw [hj, Nat.add_sub_cancel_left]
  rw [mainBlockstamps, hlong, List.range'_concat, List.filterMap_append, mainBlockstamps, hshort,
    Nat.one_mul, ← hj]
  simp [hid, hnode]

namespace ChangesTo

variable {fork first' last' : BlockNumber} {newHead oldHead : TreeNodeId}

/-- A block of the old branch above the fork block is not on the new main branch. -/
theorem main_ne (hchange : ChangesTo t newHead fork first' last' t') {k : BlockNumber}
    (hk : fork < k) (hid : t.mainBranch.get? k = some id) (k' : BlockNumber) :
    t'.mainBranch.get? k' ≠ some id := by
  intro hid'
  have hrange := (hchange.mainPath.range _).1 (Option.isSome_iff_exists.2 ⟨id, hid'⟩)
  rcases Nat.exists_eq_add_of_le hrange.2 with ⟨i, hi⟩
  have htop := hchange.top
  rw [hi] at htop
  have hbelow := hchange.rooted.below_of_main hchange.mainPath hid' i newHead htop
  exact hchange.forks.2 k id hk hid
    (ReflTransGen.mono (fun _ _ => hchange.keeps.childOf) _ _ hbelow)

theorem offMain (hchange : ChangesTo t newHead fork first' last' t') {k : BlockNumber}
    (hk : fork < k) (hid : t.mainBranch.get? k = some id) (hnode : t'.node? id = some node) :
    t'.OffMain node := by
  refine offMain_of_not_onMain hchange.mainPath.live fun hon => ?_
  exact hchange.main_ne hk hid _ ((hchange.mainPath.onMain_iff hchange.rooted hnode).1 hon)

/-- The blocks of the old branch are climbed one after the other from the fork block, as long as
that block stays in the tree. -/
theorem exists_abandonedPath (hchange : ChangesTo t newHead fork first' last' t') (h : t.Rooted)
    (hmain : t.MainPath first last) (hkept : first' ≤ fork) :
    ∀ (j : Nat) (q : TreeNodeId), t.mainBranch.get? (fork + j) = some q →
      ∃ path, t'.OffMainPath q path ∧ path.length ≤ t'.nodes.length ∧
        (path.map fun entry => entry.2.data).reverse = t.mainBlockstamps (fork + 1) (fork + j) := by
  have hkeeps := hchange.keeps
  rcases hchange.forks with ⟨⟨forkId, hfork, -⟩, -⟩
  have hforkRange := (hmain.range fork).1 (Option.isSome_iff_exists.2 ⟨forkId, hfork⟩)
  have hfork' := hkeeps.main fork forkId hkept (Nat.le_refl _) hfork
  -- The old blocks above the fork block are below it, before the change and after it.
  have hlive : ∀ j q, t.mainBranch.get? (fork + j) = some q →
      ReflTransGen t'.ChildOf forkId q ∧ ∃ n, t'.node? q = some n ∧ n.data.id = fork + j ∧
        t.node? q = some n := by
    intro j q hq
    have hbelow := h.below_of_main hmain hfork j q hq
    rcases hmain.live (fork + j) q hq with ⟨n, hn, hnumber⟩
    refine ⟨hkeeps.reflTransGen hkept (Nat.le_refl _) hfork hbelow, n, ?_, hnumber, hn⟩
    rw [hkeeps.below fork forkId q hkept (Nat.le_refl _) hfork hbelow, hn]
  have hlength : ∀ (j : Nat) (q : TreeNodeId), t.mainBranch.get? (fork + j) = some q →
      j ≤ t'.nodes.length := by
    intro j q hq
    rcases hlive j q hq with ⟨hbelow, n, hn, hnumber, -⟩
    rcases hlive 0 forkId hfork with ⟨-, forkNode, hforkNode, hforkNumber, -⟩
    have hle := hchange.rooted.number_le (hchange.rooted.hangs_of_main hchange.mainPath hfork')
      hbelow
    rw [number_eq hn, hnumber, number_eq hforkNode, hforkNumber, Nat.add_zero] at hle
    exact Nat.le_of_add_le_add_left hle
  suffices hpath : ∀ (j : Nat) (q : TreeNodeId), t.mainBranch.get? (fork + j) = some q →
      ∃ path, t'.OffMainPath q path ∧ path.length = j ∧
        (path.map fun entry => entry.2.data).reverse =
          t.mainBlockstamps (fork + 1) (fork + j) by
    intro j q hq
    rcases hpath j q hq with ⟨path, hclimb, hlen, hdata⟩
    exact ⟨path, hclimb, hlen ▸ hlength j q hq, hdata⟩
  intro j
  induction j with
  | zero =>
      intro q hq
      rcases hlive 0 q hq with ⟨-, n, hn, hnumber, -⟩
      rw [Nat.add_zero] at hq hnumber
      rw [hfork] at hq
      cases hq
      refine ⟨[], .onMain hn ((hchange.mainPath.onMain_iff hchange.rooted hn).2
        (by rw [hnumber, hfork'])), rfl, ?_⟩
      rw [mainBlockstamps, Nat.add_zero, Nat.sub_self]
      rfl
  | succ j ih =>
      intro q hq
      rcases hlive (j + 1) q hq with ⟨-, n, hn, hnumber, hnOld⟩
      rcases hmain.linked (fork + j) q hq (Nat.le_trans hforkRange.1 (Nat.le_add_right _ _)) with
        ⟨p, hp, n', hn', hname⟩
      rw [hnOld] at hn'
      cases hn'
      rcases ih p hp with ⟨path, hclimb, hlen, hdata⟩
      have hoff := hchange.offMain (Nat.lt_add_of_pos_right (Nat.succ_pos j)) hq hn
      refine ⟨(q, n) :: path, .step hn hoff hname hclimb, by rw [List.length_cons, hlen], ?_⟩
      rw [List.map_cons, List.reverse_cons, hdata]
      exact (mainBlockstamps_succ (Nat.succ_le_succ (Nat.le_add_right _ _)) hq hnOld).symm

/-- The abandoned blocks are the fork branch of the old head, as long as the fork block stays in the
tree. -/
theorem getForkBranch_eq (hchange : ChangesTo t newHead fork first' last' t') (h : t.Rooted)
    (hmain : t.MainPath first last) (hkept : first' ≤ fork) (hlt : fork < last)
    (hold : t.mainBranch.get? last = some oldHead) :
    t'.getForkBranch oldHead = .ok (t.mainBlockstamps (fork + 1) last) := by
  rcases hchange.forks with ⟨⟨forkId, hfork, -⟩, -⟩
  have hforkRange := (hmain.range fork).1 (Option.isSome_iff_exists.2 ⟨forkId, hfork⟩)
  rcases Nat.exists_eq_add_of_lt hlt with ⟨j, hj⟩
  rw [hj] at hold ⊢
  rcases hmain.linked (fork + j) oldHead hold
    (Nat.le_trans hforkRange.1 (Nat.le_add_right _ _)) with ⟨p, hp, node, hnode, hname⟩
  rcases hchange.exists_abandonedPath h hmain hkept j p hp with ⟨path, hclimb, hlength, hdata⟩
  have hnode' : t'.node? oldHead = some node := by
    rw [hchange.keeps.below fork forkId oldHead hkept (Nat.le_refl _) hfork
      (h.below_of_main hmain hfork (j + 1) oldHead hold), hnode]
  rw [getForkBranch, getRefNode_eq_ok_iff.2 hnode', ok_bind, climbAbove, hname]
  simp only [climb_of_offMainPath _ hclimb (Nat.lt_succ_of_le hlength), ok_bind, pure_eq_ok_iff,
    List.reverse_cons, hdata]
  exact (mainBlockstamps_succ (Nat.succ_le_succ (Nat.le_add_right _ _)) hold hnode).symm

/-- Once the fork block is pruned, no climb from an abandoned block returns. -/
theorem not_offMainPath (hchange : ChangesTo t newHead fork first' last' t')
    (hmain : t.MainPath first last) (hpruned : fork < first') :
    ∀ (j : Nat) (q : TreeNodeId) (path : List (TreeNodeId × TreeNode)),
      t.mainBranch.get? (fork + j) = some q → ¬ t'.OffMainPath q path := by
  rcases hchange.forks with ⟨⟨forkId, hfork, -⟩, -⟩
  have hforkRange := (hmain.range fork).1 (Option.isSome_iff_exists.2 ⟨forkId, hfork⟩)
  intro j
  induction j with
  | zero =>
      intro q path hq hclimb
      rcases hclimb.live with ⟨n, hn⟩
      rw [hchange.keeps.pruned fork q hpruned (Nat.le_refl _) hq] at hn
      cases hn
  | succ j ih =>
      intro q path hq hclimb
      rcases hclimb.live with ⟨n, hn⟩
      have hoff := hchange.offMain (Nat.lt_add_of_pos_right (Nat.succ_pos j)) hq hn
      rcases hmain.linked (fork + j) q hq (Nat.le_trans hforkRange.1 (Nat.le_add_right _ _)) with
        ⟨p, hp, n', hn', hname⟩
      rw [hchange.keeps.old q n hn] at hn'
      cases hn'
      cases hclimb with
      | onMain hnode hon =>
          rw [hn] at hnode
          cases hnode
          exact not_onMain_of_offMain hoff hon
      | top hnode _ hparent =>
          rw [hn] at hnode
          cases hnode
          rw [hname] at hparent
          cases hparent
      | step hnode _ hparent hrest =>
          rw [hn] at hnode
          cases hnode
          rw [hname] at hparent
          cases hparent
          exact ih p _ hp hrest

/-- Once the fork block is pruned, the old head has no fork branch any more. -/
theorem getForkBranch_ne (hchange : ChangesTo t newHead fork first' last' t')
    (hmain : t.MainPath first last) (hpruned : fork < first') (hlt : fork < last)
    (hold : t.mainBranch.get? last = some oldHead) (branch : List Blockstamp) :
    t'.getForkBranch oldHead ≠ .ok branch := by
  rcases hchange.forks with ⟨⟨forkId, hfork, -⟩, -⟩
  have hforkRange := (hmain.range fork).1 (Option.isSome_iff_exists.2 ⟨forkId, hfork⟩)
  intro hbranch
  rcases Nat.exists_eq_add_of_lt hlt with ⟨j, hj⟩
  rw [hj] at hold
  rcases hmain.linked (fork + j) oldHead hold
    (Nat.le_trans hforkRange.1 (Nat.le_add_right _ _)) with ⟨p, hp, node, hnode, hname⟩
  simp only [getForkBranch, bind_eq_ok_iff, getRefNode_eq_ok_iff] at hbranch
  rcases hbranch with ⟨node', hnode', above, habove, -⟩
  rw [hchange.keeps.old oldHead node' hnode'] at hnode
  cases hnode
  rw [climbAbove, hname] at habove
  exact hchange.not_offMainPath hmain hpruned j p above hp (offMainPath_of_climb habove)

end ChangesTo

end ForkTree

end Durs
