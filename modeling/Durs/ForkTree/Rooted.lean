/-
# The part of the fork tree that hangs from its root

A pruning may leave nodes behind that no longer hang from the root, and the new root keeps naming
the old one as its parent.  The invariant stated here is about the nodes that do hang, so it holds
before and after a pruning, and a pruning of such a tree always returns.
-/

import Durs.ForkTree.Growth
import Durs.Lib.Forest
import Mathlib.Data.List.Perm.Subperm

namespace Durs

open RustStd Lib Relation

namespace ForkTree

/-- A node reached from a live root through the lists of children. -/
def Hangs (t : ForkTree) (id : TreeNodeId) : Prop :=
  ∃ r rootNode, t.root = some r ∧ t.node? r = some rootNode ∧ ReflTransGen t.ChildOf r id

/-- The number of the block of a live node. -/
def number (t : ForkTree) (id : TreeNodeId) : Nat :=
  (t.node? id).elim 0 fun node => node.data.id

/-- What links the nodes that hang from the root to each other and to the main branch. -/
structure Rooted (t : ForkTree) : Prop where
  childLink : ∀ (id : TreeNodeId) (node : TreeNode) (c : TreeNodeId), t.Hangs id →
    t.node? id = some node → c ∈ node.children →
      ∃ child, t.node? c = some child ∧ child.parent = some id ∧
        child.data.id = node.data.id + 1
  parentLink : ∀ (id : TreeNodeId) (node : TreeNode) (p : TreeNodeId), t.node? id = some node →
    node.parent = some p → t.Hangs p → t.ChildOf p id
  childrenNodup : ∀ (id : TreeNodeId) (node : TreeNode), t.Hangs id → t.node? id = some node →
    node.children.Nodup
  mainBranch : ∃ first last, t.MainPath first last
  unique : ∀ (id id' : TreeNodeId) (node node' : TreeNode), t.node? id = some node →
    t.node? id' = some node' → node.data = node'.data → id = id'

variable {t t' mid : ForkTree} {id p c : TreeNodeId} {node parent : TreeNode}
  {first last : BlockNumber}

theorem number_eq (hnode : t.node? id = some node) : t.number id = node.data.id := by
  rw [number, hnode]
  rfl

namespace Hangs

theorem tail (h : t.Hangs p) (hc : t.ChildOf p c) : t.Hangs c := by
  rcases h with ⟨r, rootNode, hroot, hr, hpath⟩
  exact ⟨r, rootNode, hroot, hr, hpath.tail hc⟩

theorem below (h : t.Hangs p) (hc : ReflTransGen t.ChildOf p c) : t.Hangs c := by
  rcases h with ⟨r, rootNode, hroot, hr, hpath⟩
  exact ⟨r, rootNode, hroot, hr, hpath.trans hc⟩

end Hangs

namespace Rooted

/-- The root of the main path is the root of the tree, and it is live. -/
theorem exists_root (hmain : t.MainPath first last) :
    ∃ r rootNode, t.root = some r ∧ t.node? r = some rootNode ∧ rootNode.data.id = first ∧
      t.mainBranch.get? first = some r := by
  have hsome := (hmain.range first).2 ⟨Nat.le_refl _, hmain.ordered⟩
  rcases Option.isSome_iff_exists.1 hsome with ⟨r, hr⟩
  rcases hmain.live first r hr with ⟨rootNode, hnode, hnumber⟩
  exact ⟨r, rootNode, by rw [← hmain.root, hr], hnode, hnumber, hr⟩

/-- A node that hangs is live. -/
theorem live (h : t.Rooted) (hid : t.Hangs id) : ∃ node, t.node? id = some node := by
  rcases hid with ⟨r, rootNode, hroot, hr, hpath⟩
  rcases ReflTransGen.cases_tail hpath with hsame | ⟨p, hp, parent, hparent, hc⟩
  · subst hsame
    exact ⟨rootNode, hr⟩
  · rcases h.childLink p parent id ⟨r, rootNode, hroot, hr, hp⟩ hparent hc with ⟨node, hnode, -⟩
    exact ⟨node, hnode⟩

/-- The nodes that hang form a forest, ranked by their block numbers. -/
theorem forest (h : t.Rooted) : Forest t.ChildOf t.Hangs t.number where
  closed := Hangs.tail
  unique := by
    rintro p q c hp hq ⟨parent, hparent, hc⟩ ⟨parent', hparent', hc'⟩
    rcases h.childLink p parent c hp hparent hc with ⟨child, hchild, hname, -⟩
    rcases h.childLink q parent' c hq hparent' hc' with ⟨child', hchild', hname', -⟩
    rw [hchild] at hchild'
    cases hchild'
    rw [hname] at hname'
    exact Option.some.inj hname'
  rank := by
    rintro p c hp ⟨parent, hparent, hc⟩
    rcases h.childLink p parent c hp hparent hc with ⟨child, hchild, -, hnumber⟩
    rw [number_eq hchild, number_eq hparent, hnumber]

/-- The blocks of the main branch hang from the root, each below the one before. -/
theorem main_hangs (h : t.Rooted) (hmain : t.MainPath first last) :
    ∀ (j : Nat) (id : TreeNodeId), t.mainBranch.get? (first + j) = some id → t.Hangs id := by
  intro j
  induction j with
  | zero =>
      intro id hid
      rcases exists_root hmain with ⟨r, rootNode, hroot, hr, -, hfirst⟩
      rw [Nat.add_zero, hfirst] at hid
      cases hid
      exact ⟨_, rootNode, hroot, hr, .refl⟩
  | succ j ih =>
      intro id hid
      rcases hmain.linked (first + j) id hid (Nat.le_add_right _ _) with ⟨p, hp, node, hnode, hname⟩
      exact (ih p hp).tail (h.parentLink id node p hnode hname (ih p hp))

theorem hangs_of_main (h : t.Rooted) (hmain : t.MainPath first last) {k : BlockNumber}
    (hid : t.mainBranch.get? k = some id) : t.Hangs id := by
  have hrange := (hmain.range k).1 (Option.isSome_iff_exists.2 ⟨id, hid⟩)
  rcases Nat.exists_eq_add_of_le hrange.1 with ⟨j, rfl⟩
  exact h.main_hangs hmain j id hid

theorem childOf_of_main (h : t.Rooted) (hmain : t.MainPath first last) {k : BlockNumber}
    (hp : t.mainBranch.get? k = some p) (hid : t.mainBranch.get? (k + 1) = some id) :
    t.ChildOf p id := by
  have hrange := (hmain.range k).1 (Option.isSome_iff_exists.2 ⟨p, hp⟩)
  rcases hmain.linked k id hid hrange.1 with ⟨p', hp', node, hnode, hname⟩
  rw [hp] at hp'
  cases hp'
  exact h.parentLink id node p hnode hname (h.hangs_of_main hmain hp)

/-- On the main branch, what is higher is below. -/
theorem below_of_main (h : t.Rooted) (hmain : t.MainPath first last) {k : BlockNumber}
    (hp : t.mainBranch.get? k = some p) :
    ∀ (j : Nat) (id : TreeNodeId), t.mainBranch.get? (k + j) = some id →
      ReflTransGen t.ChildOf p id := by
  have hrange := (hmain.range k).1 (Option.isSome_iff_exists.2 ⟨p, hp⟩)
  intro j
  induction j with
  | zero =>
      intro id hid
      rw [Nat.add_zero, hp] at hid
      cases hid
      exact .refl
  | succ j ih =>
      intro id hid
      rcases hmain.linked (k + j) id hid (Nat.le_trans hrange.1 (Nat.le_add_right _ _)) with
        ⟨q, hq, -⟩
      exact (ih q hq).tail (h.childOf_of_main hmain hq hid)

end Rooted

/-! ## Removals return -/

/-- `mid` has the nodes of `t` in a region. -/
def AgreesOn (t mid : ForkTree) (region : TreeNodeId → Prop) : Prop :=
  mid.nodes.length = t.nodes.length ∧ ∀ i, region i → mid.node? i = t.node? i

namespace AgreesOn

variable {region region' : TreeNodeId → Prop} {ids : List TreeNodeId}

theorem mono (h : t.AgreesOn mid region) (hsub : ∀ i, region' i → region i) :
    t.AgreesOn mid region' :=
  ⟨h.1, fun i hi => h.2 i (hsub i hi)⟩

/-- Removing slots outside a region leaves it as it is. -/
theorem removes (h : t.AgreesOn mid region) (hremoves : Removes mid ids t')
    (hids : ∀ i ∈ ids, ¬ region i) : t.AgreesOn t' region := by
  refine ⟨hremoves.length.trans h.1, fun i hi => ?_⟩
  rw [hremoves.node?, if_neg fun hmem => hids i hmem hi, h.2 i hi]

end AgreesOn

/-- Steps on disjoint regions, each returning and removing slots of its region only, can be taken
one after the other. -/
theorem exists_foldlM_removes (step : ForkTree → TreeNodeId → Run ForkTree)
    (region : TreeNodeId → TreeNodeId → Prop) (l : List TreeNodeId) (hnodup : l.Nodup)
    (hdisjoint : ∀ c ∈ l, ∀ d ∈ l, ∀ i, region c i → region d i → c = d)
    (hstep : ∀ c ∈ l, ∀ mid, t.AgreesOn mid (region c) →
      ∃ mid' ids, step mid c = .ok mid' ∧ Removes mid ids mid' ∧ ∀ i ∈ ids, region c i) :
    ∀ mid, (∀ c ∈ l, t.AgreesOn mid (region c)) →
      ∃ mid' ids, l.foldlM step mid = .ok mid' ∧ Removes mid ids mid' ∧
        ∀ i ∈ ids, ∃ c ∈ l, region c i := by
  induction l with
  | nil => exact fun mid _ => ⟨mid, [], rfl, .refl mid, by simp⟩
  | cons c l ih =>
      intro mid hagrees
      rcases List.nodup_cons.1 hnodup with ⟨hnot, hnodup'⟩
      rcases hstep c List.mem_cons_self mid (hagrees c List.mem_cons_self) with
        ⟨mid₁, ids₁, hrun₁, hremoves₁, hregion₁⟩
      have hagrees₁ : ∀ d ∈ l, t.AgreesOn mid₁ (region d) := by
        intro d hd
        refine (hagrees d (List.mem_cons_of_mem _ hd)).removes hremoves₁ fun i hi hdi => hnot ?_
        have hsame := hdisjoint c List.mem_cons_self d (List.mem_cons_of_mem _ hd) i
          (hregion₁ i hi) hdi
        rw [hsame]
        exact hd
      rcases ih hnodup' (fun d hd e he => hdisjoint d (List.mem_cons_of_mem _ hd) e
        (List.mem_cons_of_mem _ he)) (fun d hd => hstep d (List.mem_cons_of_mem _ hd)) mid₁ hagrees₁
        with ⟨mid₂, ids₂, hrun₂, hremoves₂, hregion₂⟩
      refine ⟨mid₂, ids₁ ++ ids₂, ?_, hremoves₁.trans hremoves₂, fun i hi => ?_⟩
      · rw [List.foldlM_cons, hrun₁, ok_bind, hrun₂]
      · rcases List.mem_append.1 hi with hi | hi
        · exact ⟨c, List.mem_cons_self, hregion₁ i hi⟩
        · rcases hregion₂ i hi with ⟨d, hd, hdi⟩
          exact ⟨d, List.mem_cons_of_mem _ hd, hdi⟩

namespace Rooted

/-- No line of descent is longer than the vector of slots. -/
theorem number_le (h : t.Rooted) (hid : t.Hangs id) {i : TreeNodeId}
    (hi : ReflTransGen t.ChildOf id i) : t.number i ≤ t.number id + t.nodes.length := by
  rcases h.forest.exists_isChain hid hi with ⟨l, hchain, hrank, hbelow⟩
  have hnodup := (List.nodup_cons.1 (h.forest.nodup_of_isChain hid hchain)).2
  have hsub : l ⊆ List.range t.nodes.length := by
    intro j hj
    rcases h.live (hid.below (hbelow j hj)) with ⟨node, hnode⟩
    exact List.mem_range.2 (lt_length_of_node? hnode)
  have hlength := (hnodup.subperm hsub).length_le
  rw [List.length_range] at hlength
  rw [hrank]
  exact Nat.add_le_add_left hlength _

/-- Going down the only children returns, with the line of nodes gone through. -/
theorem descendOnlyChildren_ok (h : t.Rooted) (fuel : Nat) :
    ∀ {id : TreeNodeId} {node : TreeNode} (idsToRm : List TreeNodeId), t.Hangs id →
      t.node? id = some node → t.AgreesOn mid (ReflTransGen t.ChildOf id) →
      (∀ i, ReflTransGen t.ChildOf id i → t.number i < t.number id + fuel) →
      ∃ lastId last ids, mid.descendOnlyChildren fuel node idsToRm = .ok (last, idsToRm ++ ids) ∧
        t.node? lastId = some last ∧ ReflTransGen t.ChildOf id lastId ∧ ids.Nodup ∧
        ∀ i ∈ ids, TransGen t.ChildOf id i ∧ ReflTransGen t.ChildOf i lastId := by
  induction fuel with
  | zero =>
      intro id node idsToRm hid hnode hagrees hfuel
      exact absurd (hfuel id .refl) (Nat.lt_irrefl _)
  | succ fuel ih =>
      intro id node idsToRm hid hnode hagrees hfuel
      have hstop : ∃ lastId last ids,
          Except.ok (node, idsToRm) = (Except.ok (last, idsToRm ++ ids) : Run _) ∧
          t.node? lastId = some last ∧ ReflTransGen t.ChildOf id lastId ∧ ids.Nodup ∧
          ∀ i ∈ ids, TransGen t.ChildOf id i ∧ ReflTransGen t.ChildOf i lastId :=
        ⟨id, node, [], by rw [List.append_nil], hnode, .refl, List.nodup_nil, by simp⟩
      rw [descendOnlyChildren]
      cases hchildren : node.children with
      | nil => exact hstop
      | cons c rest =>
          cases rest with
          | cons d rest => exact hstop
          | nil =>
              have hc : t.ChildOf id c := ⟨node, hnode, by simp [hchildren]⟩
              rcases h.childLink id node c hid hnode (by simp [hchildren]) with ⟨child, hchild, -⟩
              have hrank := h.forest.rank hid hc
              rcases ih (idsToRm ++ [c]) (hid.tail hc) hchild
                (hagrees.mono fun i hi => hi.head hc) (fun i hi => by
                  have hlt := hfuel i (hi.head hc)
                  rw [hrank]
                  omega) with ⟨lastId, last, ids, hrun, hlast, hbelow, hnodup, hids⟩
              refine ⟨lastId, last, c :: ids, ?_, hlast, hbelow.head hc, ?_, ?_⟩
              · have hmid : mid.node? c = some child := by rw [hagrees.2 c (.single hc), hchild]
                simp only [getRefNode_eq_ok_iff.2 hmid, ok_bind, hrun, List.append_assoc,
                  List.singleton_append]
              · refine List.nodup_cons.2 ⟨fun hmem => ?_, hnodup⟩
                have hlt := h.forest.rank_lt (hid.tail hc) (hids c hmem).1
                exact Nat.lt_irrefl _ hlt
              · intro i hi
                rcases List.mem_cons.1 hi with rfl | hi
                · exact ⟨.single hc, hbelow⟩
                · exact ⟨(hids i hi).1.head hc, (hids i hi).2⟩

/-- Removing what is below a node that hangs returns, and removes only what is strictly below. -/
theorem removeNodeChildren_ok (h : t.Rooted) (fuel : Nat) :
    ∀ {id : TreeNodeId} {mid : ForkTree}, t.Hangs id →
      t.AgreesOn mid (ReflTransGen t.ChildOf id) →
      (∀ i, ReflTransGen t.ChildOf id i → t.number i < t.number id + fuel) →
      ∃ mid' ids, removeNodeChildren fuel mid id = .ok mid' ∧ Removes mid ids mid' ∧
        ∀ i ∈ ids, TransGen t.ChildOf id i := by
  induction fuel with
  | zero =>
      intro id mid hid hagrees hfuel
      exact absurd (hfuel id .refl) (Nat.lt_irrefl _)
  | succ fuel ih =>
      intro id mid hid hagrees hfuel
      rcases h.live hid with ⟨node, hnode⟩
      have hmid : mid.node? id = some node := by rw [hagrees.2 id .refl, hnode]
      rcases h.descendOnlyChildren_ok (mid.nodes.length + 1) [] hid hnode hagrees
        (fun i hi => by
          have hle := h.number_le hid hi
          rw [hagrees.1]
          omega) with ⟨lastId, last, line, hdescend, hlast, hbelow, hnodup, hline⟩
      have hlastHangs := hid.below hbelow
      have hchildOf : ∀ d ∈ last.children, t.ChildOf lastId d := fun d hd => ⟨last, hlast, hd⟩
      -- The subtrees of the children of the last node are disjoint.
      rcases exists_foldlM_removes (t := t) (removeNodeChildren fuel) (ReflTransGen t.ChildOf)
        last.children
        (h.childrenNodup lastId last hlastHangs hlast)
        (fun c hc d hd i => h.forest.eq_of_siblings hlastHangs (hchildOf c hc) (hchildOf d hd))
        (fun d hd mid' hagrees' => by
          have hrank := h.forest.rank hlastHangs (hchildOf d hd)
          have hle := h.forest.rank_le hid hbelow
          rcases ih (hlastHangs.tail (hchildOf d hd)) hagrees' (fun i hi => by
            have hlt := hfuel i (hbelow.trans (hi.head (hchildOf d hd)))
            rw [hrank]
            omega) with ⟨mid'', ids, hrun, hremoves, hids⟩
          exact ⟨mid'', ids, hrun, hremoves, fun i hi => (hids i hi).to_reflTransGen⟩)
        mid (fun d hd => hagrees.mono fun i hi => hbelow.trans (hi.head (hchildOf d hd)))
        with ⟨mid₁, ids₁, hrun₁, hremoves₁, hids₁⟩
      have hstrict₁ : ∀ i ∈ ids₁, TransGen t.ChildOf lastId i := by
        intro i hi
        rcases hids₁ i hi with ⟨d, hd, hdi⟩
        exact TransGen.head' (hchildOf d hd) hdi
      -- What was removed is below the last node, the line gone through is not.
      have hlive : ∀ i ∈ line, ∃ node, mid₁.node? i = some node := by
        intro i hi
        rcases hline i hi with ⟨hstrict, habove⟩
        rcases h.live (hid.below hstrict.to_reflTransGen) with ⟨n, hn⟩
        refine ⟨n, ?_⟩
        rw [hremoves₁.node?, if_neg, hagrees.2 i hstrict.to_reflTransGen, hn]
        intro hmem
        have hlt := h.forest.rank_lt hlastHangs (hstrict₁ i hmem)
        have hle := h.forest.rank_le (hid.below hstrict.to_reflTransGen) habove
        omega
      rcases exists_removes line hnodup hlive with ⟨mid₂, hrun₂, hremoves₂⟩
      refine ⟨mid₂, ids₁ ++ line, ?_, hremoves₁.trans hremoves₂, fun i hi => ?_⟩
      · rw [removeNodeChildren, getRefNode_eq_ok_iff.2 hmid, ok_bind, hdescend, ok_bind]
        simp only [hrun₁, ok_bind, List.nil_append, hrun₂]
      · rcases List.mem_append.1 hi with hi | hi
        · exact TransGen.trans_right hbelow (hstrict₁ i hi)
        · exact (hline i hi).1

/-- Removing a child of the root with what is below it returns. -/
theorem removeChildOfRoot_ok (h : t.Rooted) (hid : t.Hangs id)
    (hagrees : t.AgreesOn mid (ReflTransGen t.ChildOf id)) :
    ∃ mid' ids, mid.removeChildOfRoot id = .ok mid' ∧ Removes mid ids mid' ∧
      ∀ i ∈ ids, ReflTransGen t.ChildOf id i := by
  rcases h.removeNodeChildren_ok (mid.nodes.length + 1) hid hagrees (fun i hi => by
    have hle := h.number_le hid hi
    rw [hagrees.1]
    omega) with ⟨mid₁, ids, hrun, hremoves, hids⟩
  rcases h.live hid with ⟨node, hnode⟩
  have hnode₁ : mid₁.node? id = some node := by
    rw [hremoves.node?, if_neg, hagrees.2 id .refl, hnode]
    intro hmem
    exact Nat.lt_irrefl _ (h.forest.rank_lt hid (hids id hmem))
  have hslot := removeSlot_eq hnode₁
  refine ⟨_, ids ++ [id], ?_, hremoves.trans (removeSlot_removes hslot), fun i hi => ?_⟩
  · rw [removeChildOfRoot, hrun, ok_bind, hslot]
  · rcases List.mem_append.1 hi with hi | hi
    · exact (hids i hi).to_reflTransGen
    · rw [List.mem_singleton.1 hi]

end Rooted

/-! ## Pruning -/

namespace Prunes

variable {rootId mainChildId : TreeNodeId} {rootNode : TreeNode} {ids : List TreeNodeId}

/-- What is below a node after a pruning was below it before. -/
theorem childOf (h : Prunes t rootId rootNode mainChildId ids t') (hc : t'.ChildOf p c) :
    t.ChildOf p c := by
  rcases hc with ⟨parent, hparent, hmem⟩
  exact ⟨parent, (h.node?_of_some hparent).1, hmem⟩

/-- What hangs after a pruning hung below the main child before. -/
theorem below_of_hangs (h : Prunes t rootId rootNode mainChildId ids t') (hid : t'.Hangs id) :
    ReflTransGen t.ChildOf mainChildId id := by
  rcases hid with ⟨r, -, hroot, -, hpath⟩
  rw [h.root] at hroot
  cases hroot
  exact ReflTransGen.mono (fun _ _ => h.childOf) _ _ hpath

end Prunes

namespace Rooted

/-- A pruning returns as long as the main branch has a block above the root. -/
theorem exists_pruning (h : t.Rooted) (hmain : t.MainPath first last) (hlt : first < last) :
    ∃ t' rootId rootNode mainChildId ids, t.pruning = .ok t' ∧
      Prunes t rootId rootNode mainChildId ids t' ∧ rootNode.data.id = first := by
  rcases exists_root hmain with ⟨r, rootNode, hroot, hr, hnumber, hfirst⟩
  rcases Option.isSome_iff_exists.1 ((hmain.range (first + 1)).2 ⟨Nat.le_succ _, hlt⟩) with
    ⟨mainChildId, hchild⟩
  have hhangs : t.Hangs r := ⟨r, rootNode, hroot, hr, .refl⟩
  have hsome : ∃ t', t.pruning = .ok t' := by
    have hmem : ∀ c ∈ rootNode.children.filter (· ≠ mainChildId), t.ChildOf r c := by
      intro c hc
      exact ⟨rootNode, hr, (List.mem_filter.1 hc).1⟩
    rcases exists_foldlM_removes (t := t) removeChildOfRoot (ReflTransGen t.ChildOf)
      (rootNode.children.filter (· ≠ mainChildId))
      ((h.childrenNodup r rootNode hhangs hr).filter _)
      (fun c hc d hd i => h.forest.eq_of_siblings hhangs (hmem c hc) (hmem d hd))
      (fun c hc mid hagrees => h.removeChildOfRoot_ok (hhangs.tail (hmem c hc)) hagrees)
      { t with
        mainBranch := t.mainBranch.remove rootNode.data.id
        removedBlockstamps := t.removedBlockstamps ++ [rootNode.data] }
      (fun c hc => ⟨rfl, fun _ _ => rfl⟩) with ⟨mid, ids, hrun, -⟩
    exact ⟨_, pruning_eq hroot hr (by rw [hnumber, hchild]) hrun⟩
  rcases hsome with ⟨t', hrun⟩
  rcases pruning_prunes hrun with ⟨rootId, rootNode', mainChild', ids, hprunes⟩
  have hsame := hprunes.oldRoot
  rw [hroot] at hsame
  cases hsame
  have hsame := hprunes.oldRootNode
  rw [hr] at hsame
  cases hsame
  exact ⟨t', r, rootNode, mainChild', ids, hrun, hprunes, hnumber⟩

/-- A pruning leaves everything below the main child of the root as it is. -/
theorem node?_of_prunes (h : t.Rooted) (hmain : t.MainPath first last) {rootId mainChildId}
    {rootNode : TreeNode} {ids : List TreeNodeId}
    (hprunes : Prunes t rootId rootNode mainChildId ids t') (hnumber : rootNode.data.id = first)
    {i : TreeNodeId} (hi : ReflTransGen t.ChildOf mainChildId i) : t'.node? i = t.node? i := by
  have hhangs : t.Hangs rootId :=
    ⟨rootId, rootNode, hprunes.oldRoot, hprunes.oldRootNode, .refl⟩
  have hfirst : t.mainBranch.get? first = some rootId := by rw [hmain.root, hprunes.oldRoot]
  have hnext := hprunes.mainChild
  rw [hnumber] at hnext
  have hchild := h.childOf_of_main hmain hfirst hnext
  rw [hprunes.node?, if_neg]
  rintro (rfl | hmem)
  · exact Nat.lt_irrefl _ (h.forest.rank_lt hhangs (TransGen.head' hchild hi))
  · rcases hprunes.below i hmem with ⟨c, hc, hne, hci⟩
    exact hne (h.forest.eq_of_siblings hhangs ⟨rootNode, hprunes.oldRootNode, hc⟩ hchild hci hi)

/-- A pruning keeps the invariant and moves the main path up by one block. -/
theorem prunes (h : t.Rooted) (hmain : t.MainPath first last) {rootId mainChildId}
    {rootNode : TreeNode} {ids : List TreeNodeId}
    (hprunes : Prunes t rootId rootNode mainChildId ids t') (hnumber : rootNode.data.id = first)
    (hlt : first < last) : t'.Rooted ∧ t'.MainPath (first + 1) last := by
  have hnext := hprunes.mainChild
  rw [hnumber] at hnext
  have hkeep : ∀ i, ReflTransGen t.ChildOf mainChildId i → t'.node? i = t.node? i :=
    fun i => h.node?_of_prunes hmain hprunes hnumber
  have hhangs : t.Hangs mainChildId := h.hangs_of_main hmain hnext
  have hget : ∀ k, t'.mainBranch.get? k = if k = first then none else t.mainBranch.get? k := by
    intro k
    rw [hprunes.mainBranch, HashMap.get?_remove, hnumber]
  have hget' : ∀ k id, t'.mainBranch.get? k = some id → first + 1 ≤ k ∧
      t.mainBranch.get? k = some id := by
    intro k id hid
    rw [hget] at hid
    by_cases hk : k = first
    · rw [if_pos hk] at hid
      cases hid
    · rw [if_neg hk] at hid
      have hrange := (hmain.range k).1 (Option.isSome_iff_exists.2 ⟨id, hid⟩)
      exact ⟨Nat.lt_of_le_of_ne hrange.1 (Ne.symm hk), hid⟩
  have hbelow : ∀ k id, first + 1 ≤ k → t.mainBranch.get? k = some id →
      ReflTransGen t.ChildOf mainChildId id := by
    intro k id hk hid
    rcases Nat.exists_eq_add_of_le hk with ⟨j, rfl⟩
    exact h.below_of_main hmain hnext j id hid
  have hpath : t'.MainPath (first + 1) last := {
    ordered := hlt
    range := by
      intro k
      rw [hget]
      by_cases hk : k = first
      · subst hk
        simp
      · rw [if_neg hk, hmain.range]
        constructor
        · rintro ⟨hle, hle'⟩
          exact ⟨Nat.lt_of_le_of_ne hle (Ne.symm hk), hle'⟩
        · rintro ⟨hle, hle'⟩
          exact ⟨Nat.le_of_succ_le hle, hle'⟩
    root := by
      rw [hget, if_neg (Nat.succ_ne_self _), hnext, hprunes.root]
    live := by
      intro k id hid
      rcases hget' k id hid with ⟨hk, hid'⟩
      rw [hkeep id (hbelow k id hk hid')]
      exact hmain.live k id hid'
    linked := by
      intro k id hid hk
      rcases hget' (k + 1) id hid with ⟨-, hid'⟩
      rcases hmain.linked k id hid' (Nat.le_of_succ_le hk) with ⟨p, hp, node, hnode, hname⟩
      refine ⟨p, ?_, node, ?_, hname⟩
      · rw [hget, if_neg (Nat.ne_of_gt hk), hp]
      · rw [hkeep id (hbelow (k + 1) id (Nat.le_succ_of_le hk) hid'), hnode] }
  refine ⟨{
    childLink := ?_
    parentLink := ?_
    childrenNodup := ?_
    mainBranch := ⟨first + 1, last, hpath⟩
    unique := ?_ }, hpath⟩
  · intro id node c hid hnode hc
    have hpath := hprunes.below_of_hangs hid
    rw [hkeep id hpath] at hnode
    rw [hkeep c (hpath.tail ⟨node, hnode, hc⟩)]
    exact h.childLink id node c (hhangs.below hpath) hnode hc
  · intro id node p hnode hname hp
    have hpath := hprunes.below_of_hangs hp
    rcases h.parentLink id node p (hprunes.node?_of_some hnode).1 hname (hhangs.below hpath) with
      ⟨parent, hparent, hmem⟩
    exact ⟨parent, by rw [hkeep p hpath, hparent], hmem⟩
  · intro id node hid hnode
    have hpath := hprunes.below_of_hangs hid
    rw [hkeep id hpath] at hnode
    exact h.childrenNodup id node (hhangs.below hpath) hnode
  · intro id id' node node' hnode hnode' hdata
    exact h.unique id id' node node' (hprunes.node?_of_some hnode).1
      (hprunes.node?_of_some hnode').1 hdata

end Rooted

end ForkTree

end Durs
