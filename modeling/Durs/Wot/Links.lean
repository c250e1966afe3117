/-
# Adding links

What adding links leaves: the nodes and their flags, at most one link more for each call, and never
more links from a node than allowed.
-/

import Durs.Wot.Invariant
import Mathlib.Data.List.Induction

namespace Durs

open RustStd

namespace WebOfTrust

variable {wot : WebOfTrust} {source target : NodeId}

/-- The enabled flags of the nodes. -/
def flags (wot : WebOfTrust) : List Bool := wot.nodes.map WotNode.enabled

theorem flags_length (wot : WebOfTrust) : wot.flags.length = wot.size := List.length_map _

theorem isEnabled_eq (wot : WebOfTrust) (n : NodeId) : wot.isEnabled n = wot.flags[n]? :=
  (List.getElem?_map ..).symm

/-- The number of links of the web. -/
def totalLinks (wot : WebOfTrust) : Nat := (wot.nodes.map fun node => node.linksSource.len).sum

/-! ## One link -/

/-- A link can be added when its ends are two nodes and the source may still issue one. -/
def CanLink (wot : WebOfTrust) (source target : NodeId) : Prop :=
  source ≠ target ∧ target < wot.size ∧
    ∃ node, wot.nodes[source]? = some node ∧ node.issuedCount < wot.maxLinks

/-- The web with a link added. -/
def withLink (wot : WebOfTrust) (source target : NodeId) : WebOfTrust :=
  (wot.modifyNode source fun node =>
    { node with issuedCount := node.issuedCount + 1 }).modifyNode target fun node =>
      { node with linksSource := node.linksSource.insert source }

theorem addLink_of_canLink (h : wot.CanLink source target) :
    (wot.addLink source target).1 = wot.withLink source target := by
  rcases h with ⟨hne, htarget, node, hnode, hlt⟩
  have hsource := Nat.not_le_of_lt (lt_size hnode)
  have hmax : (wot.issuedCount source).any (wot.maxLinks ≤ ·) = false := by
    simp [issuedCount, hnode, hlt]
  rw [addLink, if_neg hne, if_neg hsource, if_neg (Nat.not_le_of_lt htarget), hmax]
  rfl

theorem addLink_of_not_canLink (h : ¬ wot.CanLink source target) :
    (wot.addLink source target).1 = wot := by
  rcases addLink_cases wot source target with heq | ⟨hne, hnode, ⟨node, htarget⟩, -⟩
  · exact heq
  · exact absurd ⟨hne, lt_size htarget, hnode⟩ h

/-- Whether a link can be added reads the links issued only. -/
theorem canLink_iff : wot.CanLink source target ↔ source ≠ target ∧ target < wot.size ∧
      ∃ issued, wot.issuedCount source = some issued ∧ issued < wot.maxLinks := by
  simp only [CanLink, issuedCount, Option.map_eq_some_iff]
  constructor
  · rintro ⟨hne, htarget, node, hnode, hlt⟩
    exact ⟨hne, htarget, node.issuedCount, ⟨node, hnode, rfl⟩, hlt⟩
  · rintro ⟨hne, htarget, _, ⟨node, hnode, rfl⟩, hlt⟩
    exact ⟨hne, htarget, node, hnode, hlt⟩

/-- A link that can be added is accepted. -/
theorem addLink_snd_of_canLink (h : wot.CanLink source target) :
    ∃ count, (wot.addLink source target).2 = .ok count := by
  rcases h with ⟨hne, htarget, node, hnode, hlt⟩
  have hmax : (wot.issuedCount source).any (wot.maxLinks ≤ ·) = false := by
    simp [issuedCount, hnode, hlt]
  rw [addLink, if_neg hne, if_neg (Nat.not_le_of_lt (lt_size hnode)),
    if_neg (Nat.not_le_of_lt htarget), hmax]
  exact ⟨_, rfl⟩

/-- A link that cannot be added is not accepted. -/
theorem addLink_snd_of_not_canLink (h : ¬ wot.CanLink source target) (count : Nat) :
    (wot.addLink source target).2 ≠ .ok count := by
  intro hok
  rw [addLink] at hok
  split at hok
  case isTrue => cases hok
  case isFalse hne =>
    split at hok
    case isTrue => cases hok
    case isFalse hsource =>
      split at hok
      case isTrue => cases hok
      case isFalse htarget =>
        split at hok
        case isTrue => cases hok
        case isFalse hmax =>
          rcases exists_node (Nat.not_le.1 hsource) with ⟨node, hnode⟩
          refine h ⟨hne, Nat.not_le.1 htarget, node, hnode, ?_⟩
          simpa [issuedCount, hnode] using hmax

/-- A property of webs that a link keeps, adding a link keeps. -/
theorem addLink_preserves {P : WebOfTrust → Prop} (h : P wot)
    (hlink : wot.CanLink source target → P (wot.withLink source target)) :
    P (wot.addLink source target).1 := by
  by_cases hcan : wot.CanLink source target
  · rw [addLink_of_canLink hcan]
    exact hlink hcan
  · rw [addLink_of_not_canLink hcan]
    exact h

theorem withLink_getElem? (id : NodeId) :
    (wot.withLink source target).nodes[id]? = wot.nodes[id]?.map fun node =>
      { node with
        issuedCount := node.issuedCount + (if source = id then 1 else 0)
        linksSource :=
          if target = id then node.linksSource.insert source else node.linksSource } := by
  rw [withLink, modifyNode_getElem?, modifyNode_getElem?, Option.map_map]
  congr 1
  funext node
  by_cases hs : source = id <;> by_cases ht : target = id <;> simp [hs, ht]

@[simp]
theorem withLink_size : (wot.withLink source target).size = wot.size := by
  rw [withLink, modifyNode_size, modifyNode_size]

@[simp]
theorem withLink_maxLinks : (wot.withLink source target).maxLinks = wot.maxLinks := rfl

@[simp]
theorem withLink_flags : (wot.withLink source target).flags = wot.flags := by
  apply List.ext_getElem?
  intro id
  rw [flags, flags, List.getElem?_map, List.getElem?_map, withLink_getElem?, Option.map_map]
  rfl

/-- The links of the web with a link added. -/
theorem hasLink_withLink (htarget : target < wot.size) (source' target' : NodeId) :
    (wot.withLink source target).hasLink source' target' = true ↔
      wot.hasLink source' target' = true ∨ source' = source ∧ target' = target := by
  rw [hasLink_iff, hasLink_iff]
  simp only [withLink_getElem?, Option.map_eq_some_iff]
  constructor
  · rintro ⟨node, ⟨old, hold, rfl⟩, hmem⟩
    by_cases ht : target = target'
    · simp only [if_pos ht, HashSet.mem_insert] at hmem
      rcases hmem with rfl | hmem
      · exact .inr ⟨rfl, ht.symm⟩
      · exact .inl ⟨old, hold, hmem⟩
    · simp only [if_neg ht] at hmem
      exact .inl ⟨old, hold, hmem⟩
  · rintro (⟨old, hold, hmem⟩ | ⟨rfl, rfl⟩)
    · refine ⟨_, ⟨old, hold, rfl⟩, ?_⟩
      by_cases ht : target = target'
      · simp [ht, hmem]
      · simp [ht, hmem]
    · rcases exists_node htarget with ⟨old, hold⟩
      exact ⟨_, ⟨old, hold, rfl⟩, by simp⟩

/-! ## Counting links -/

/-- Counting over a list goes through its positions. -/
theorem countP_eq_countP_range {α : Type} (p : α → Bool) (l : List α) :
    l.countP p = (List.range l.length).countP fun i => (l[i]?).any p := by
  induction l using List.reverseRecOn with
  | nil => rfl
  | append_singleton l a ih =>
      rw [List.countP_append, ih, List.length_append, List.length_singleton, List.range_succ,
        List.countP_append]
      congr 1
      · apply List.countP_congr
        intro i hi
        rw [List.getElem?_append_left (List.mem_range.1 hi)]
      · rw [List.countP_singleton, List.countP_singleton, List.getElem?_concat_length]
        rfl

/-- The links from a node, counted through their targets. -/
theorem linksFrom_eq_countP (wot : WebOfTrust) (id : NodeId) :
    wot.linksFrom id = (List.range wot.size).countP (wot.hasLink id) := by
  rw [linksFrom, countP_eq_countP_range]
  apply List.countP_congr
  intro target _
  rw [hasLink]
  cases wot.nodes[target]? with
  | none => rfl
  | some node => rfl

/-- Of two webs of one size, the one with more links from a node counts more of them. -/
theorem linksFrom_le_of_hasLink {wot' : WebOfTrust} {id : NodeId} (hsize : wot'.size = wot.size)
    (h : ∀ target, wot.hasLink id target = true → wot'.hasLink id target = true) :
    wot.linksFrom id ≤ wot'.linksFrom id := by
  rw [linksFrom_eq_countP, linksFrom_eq_countP, hsize]
  exact List.countP_mono_left fun target _ => h target

/-- A link added counts at most once. -/
theorem linksFrom_withLink_le (htarget : target < wot.size) (id : NodeId) :
    (wot.withLink source target).linksFrom id ≤
      wot.linksFrom id + if id = source then 1 else 0 := by
  have hmid : ∀ id, (wot.modifyNode source fun node =>
      { node with issuedCount := node.issuedCount + 1 }).linksFrom id = wot.linksFrom id :=
    linksFrom_modifyNode_of_linksSource fun _ => rfl
  have hsize : target < (wot.modifyNode source fun node =>
      { node with issuedCount := node.issuedCount + 1 }).size := by
    rw [modifyNode_size]
    exact htarget
  rcases exists_node hsize with ⟨node, hnode⟩
  by_cases hnew : source ∈ node.linksSource
  · rw [← hmid id, linksFrom_eq_countP, linksFrom_eq_countP, withLink, modifyNode_size]
    apply Nat.le_add_right_of_le
    apply List.countP_mono_left
    intro target' _ hlink
    rcases hasLink_iff.1 hlink with ⟨node', hnode', hmem⟩
    rw [modifyNode_getElem?, Option.map_eq_some_iff] at hnode'
    rcases hnode' with ⟨old, hold, rfl⟩
    refine hasLink_iff.2 ⟨old, hold, ?_⟩
    by_cases ht : target = target'
    · subst ht
      rw [hnode] at hold
      obtain rfl := Option.some.inj hold
      rw [if_pos rfl, HashSet.mem_insert] at hmem
      rcases hmem with rfl | hmem
      · exact hnew
      · exact hmem
    · rwa [if_neg ht] at hmem
  · rw [withLink, linksFrom_modifyNode_insert (fun _ => rfl) hnode hnew, hmid]

/-- Summing over a list in which one element changes. -/
theorem sum_map_modify {α : Type} (g : α → Nat) (f : α → α) {l : List α} {i : Nat} {a : α}
    (h : l[i]? = some a) :
    ((l.modify i f).map g).sum + g a = (l.map g).sum + g (f a) := by
  induction l generalizing i with
  | nil => cases h
  | cons b l ih =>
      cases i with
      | zero =>
          obtain rfl := Option.some.inj h
          simp only [List.modify_zero_cons, List.map_cons, List.sum_cons]
          omega
      | succ i =>
          have hrest := ih h
          simp only [List.modify_succ_cons, List.map_cons, List.sum_cons]
          omega

theorem totalLinks_modifyNode {id : NodeId} {node : WotNode} (f : WotNode → WotNode)
    (h : wot.nodes[id]? = some node) :
    (wot.modifyNode id f).totalLinks + node.linksSource.len =
      wot.totalLinks + (f node).linksSource.len :=
  sum_map_modify (fun node : WotNode => node.linksSource.len) f h

theorem totalLinks_withLink_le (h : wot.CanLink source target) :
    (wot.withLink source target).totalLinks ≤ wot.totalLinks + 1 := by
  rcases h with ⟨-, htarget, sourceNode, hsource, -⟩
  have hsize : target < (wot.modifyNode source fun node =>
      { node with issuedCount := node.issuedCount + 1 }).size := by
    rw [modifyNode_size]
    exact htarget
  rcases exists_node hsize with ⟨node, hnode⟩
  have hmid := totalLinks_modifyNode
    (fun node => { node with issuedCount := node.issuedCount + 1 }) hsource
  have hend := totalLinks_modifyNode
    (fun node => { node with linksSource := node.linksSource.insert source }) hnode
  have hlen := HashSet.len_insert_le node.linksSource source
  simp only at hmid hend
  rw [withLink]
  omega

/-! ## Webs made by adding links -/

/-- What adding links keeps, repeated or not: the links from a node are no more than it issued, and
it issued no more than allowed. -/
structure LinksBound (wot : WebOfTrust) : Prop where
  issued : ∀ (id : NodeId) (node : WotNode), wot.nodes[id]? = some node →
    wot.linksFrom id ≤ node.issuedCount
  known : ∀ source target, wot.hasLink source target = true → source < wot.size
  bounded : ∀ (id : NodeId) (node : WotNode), wot.nodes[id]? = some node →
    node.issuedCount ≤ wot.maxLinks

/-- Adding a link keeps the bound. -/
theorem LinksBound.addLink (h : LinksBound wot) (source target : NodeId) :
    LinksBound (wot.addLink source target).1 := by
  apply addLink_preserves h
  rintro ⟨hne, htarget, sourceNode, hsource, hlt⟩
  have hnodes : ∀ (id : NodeId) (node : WotNode),
      (wot.withLink source target).nodes[id]? = some node → ∃ old, wot.nodes[id]? = some old ∧
        node.issuedCount = old.issuedCount + if source = id then 1 else 0 := by
    intro id node hnode
    rw [withLink_getElem?, Option.map_eq_some_iff] at hnode
    rcases hnode with ⟨old, hold, rfl⟩
    exact ⟨old, hold, rfl⟩
  constructor
  case issued =>
    intro id node hnode
    rcases hnodes id node hnode with ⟨old, hold, hissued⟩
    rw [hissued, show (if source = id then 1 else 0) = (if id = source then 1 else 0) by
      simp only [eq_comm]]
    exact Nat.le_trans (linksFrom_withLink_le htarget id)
      (Nat.add_le_add_right (h.issued id old hold) _)
  case known =>
    intro source' target' hlink
    rw [withLink_size]
    rcases (hasLink_withLink htarget source' target').1 hlink with hlink | ⟨rfl, -⟩
    · exact h.known source' target' hlink
    · exact lt_size hsource
  case bounded =>
    intro id node hnode
    rcases hnodes id node hnode with ⟨old, hold, hissued⟩
    rw [hissued, withLink_maxLinks]
    by_cases hid : source = id
    · subst hid
      rw [hsource] at hold
      obtain rfl := Option.some.inj hold
      rw [if_pos rfl]
      exact hlt
    · rw [if_neg hid]
      exact h.bounded id old hold

end WebOfTrust

end Durs
