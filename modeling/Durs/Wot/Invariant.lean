/-
# The issued counts and the links

The number of links a node issued is stored beside the links themselves, and each operation on the
web of trust updates the two by hand.  They agree as long as no link is added twice and no node is
removed while a link starts or ends there.
-/

import Durs.Lib.Reached
import Durs.Run
import Durs.Wot.Rusty

namespace Durs

open RustStd Lib

namespace WebOfTrust

/-- `RustyWebOfTrust::new`. -/
def new (maxLinks : Nat) : WebOfTrust :=
  { nodes := [], maxLinks }

/-- The number of nodes that a node links to. -/
def linksFrom (wot : WebOfTrust) (source : NodeId) : Nat :=
  wot.nodes.countP fun node => node.linksSource.contains source

/-! ## What the operations do to a node -/

variable {wot : WebOfTrust}

@[simp]
theorem modifyNode_size (id : NodeId) (f : WotNode → WotNode) :
    (wot.modifyNode id f).size = wot.size := by
  simp [modifyNode, size]

@[simp]
theorem modifyNode_maxLinks (id : NodeId) (f : WotNode → WotNode) :
    (wot.modifyNode id f).maxLinks = wot.maxLinks := rfl

theorem modifyNode_getElem? (id : NodeId) (f : WotNode → WotNode) (id' : NodeId) :
    (wot.modifyNode id f).nodes[id']? =
      wot.nodes[id']?.map fun node => if id = id' then f node else node :=
  List.getElem?_modify f id wot.nodes id'

theorem exists_node {id : NodeId} (h : id < wot.size) : ∃ node, wot.nodes[id]? = some node :=
  ⟨_, List.getElem?_eq_getElem h⟩

theorem lt_size {id : NodeId} {node : WotNode} (h : wot.nodes[id]? = some node) : id < wot.size :=
  (List.getElem?_eq_some_iff.1 h).1

/-- Counting over a list in which one element changes. -/
theorem countP_modify {α : Type} (p : α → Bool) (f : α → α) {l : List α} {i : Nat} {a : α}
    (h : l[i]? = some a) :
    (l.modify i f).countP p + (if p a then 1 else 0) =
      l.countP p + (if p (f a) then 1 else 0) := by
  induction l generalizing i with
  | nil => cases h
  | cons b l ih =>
      cases i with
      | zero =>
          obtain rfl := Option.some.inj h
          simp only [List.modify_zero_cons, List.countP_cons]
          omega
      | succ i =>
          have hrest := ih h
          simp only [List.modify_succ_cons, List.countP_cons]
          omega

/-- A change of a node that keeps its sources keeps the number of links of every node. -/
theorem linksFrom_modifyNode_of_linksSource {id : NodeId} {f : WotNode → WotNode}
    (hf : ∀ node, (f node).linksSource = node.linksSource) (source : NodeId) :
    (wot.modifyNode id f).linksFrom source = wot.linksFrom source := by
  cases hnode : wot.nodes[id]? with
  | none =>
      have hlen : wot.nodes.length ≤ id := List.getElem?_eq_none_iff.1 hnode
      simp only [linksFrom, modifyNode, List.modify_eq_self hlen]
  | some node =>
      have h := countP_modify (fun node => node.linksSource.contains source) f hnode
      simp only [hf] at h
      exact Nat.add_right_cancel h

theorem hasLink_iff {source target : NodeId} :
    wot.hasLink source target = true ↔
      ∃ node, wot.nodes[target]? = some node ∧ source ∈ node.linksSource := by
  cases h : wot.nodes[target]? with
  | none => simp [hasLink, h]
  | some node => simp [hasLink, h]

/-- A node links to as many nodes as there are links that start there. -/
theorem linksFrom_eq_zero_iff {source : NodeId} :
    wot.linksFrom source = 0 ↔ ∀ target, wot.hasLink source target = false := by
  rw [linksFrom, List.countP_eq_zero]
  constructor
  · intro h target
    cases hlink : wot.hasLink source target with
    | false => rfl
    | true =>
        obtain ⟨node, hnode, hmem⟩ := hasLink_iff.1 hlink
        exact absurd ((HashSet.contains_iff _ _).2 hmem) (h node (List.mem_of_getElem? hnode))
  · intro h node hmem hcontains
    obtain ⟨target, htarget⟩ := List.mem_iff_getElem?.1 hmem
    have hlink : wot.hasLink source target = true :=
      hasLink_iff.2 ⟨node, htarget, (HashSet.contains_iff _ _).1 hcontains⟩
    rw [h target] at hlink
    cases hlink

/-- A new source of a node adds one link from it. -/
theorem linksFrom_modifyNode_insert {source target : NodeId} {f : WotNode → WotNode}
    (hf : ∀ node, (f node).linksSource = node.linksSource.insert source) {node : WotNode}
    (hnode : wot.nodes[target]? = some node) (hnew : source ∉ node.linksSource) (id : NodeId) :
    (wot.modifyNode target f).linksFrom id = wot.linksFrom id + if id = source then 1 else 0 := by
  have h := countP_modify (fun node => node.linksSource.contains id) f hnode
  simp only [hf, HashSet.contains_iff, HashSet.mem_insert] at h
  by_cases hid : id = source
  · subst hid
    simpa [linksFrom, modifyNode, hnew] using h
  · simpa [linksFrom, modifyNode, hid] using h

/-- A source removed from a node takes away one link from it. -/
theorem linksFrom_modifyNode_remove {source target : NodeId} {f : WotNode → WotNode}
    (hf : ∀ node, (f node).linksSource = node.linksSource.remove source) {node : WotNode}
    (hnode : wot.nodes[target]? = some node) (hold : source ∈ node.linksSource) (id : NodeId) :
    (wot.modifyNode target f).linksFrom id + (if id = source then 1 else 0) =
      wot.linksFrom id := by
  have h := countP_modify (fun node => node.linksSource.contains id) f hnode
  simp only [hf, HashSet.contains_iff, HashSet.mem_remove] at h
  by_cases hid : id = source
  · subst hid
    simpa [linksFrom, modifyNode, hold] using h
  · simpa [linksFrom, modifyNode, hid] using h

/-- Adding a link leaves the web unchanged, or counts the link and makes the source one of the
target's. -/
theorem addLink_cases (wot : WebOfTrust) (source target : NodeId) :
    (wot.addLink source target).1 = wot ∨
      source ≠ target ∧ (∃ node, wot.nodes[source]? = some node ∧ node.issuedCount < wot.maxLinks) ∧
        (∃ node, wot.nodes[target]? = some node) ∧
        (wot.addLink source target).1 =
          (wot.modifyNode source fun node =>
            { node with issuedCount := node.issuedCount + 1 }).modifyNode target fun node =>
              { node with linksSource := node.linksSource.insert source } := by
  rw [addLink]
  split
  case isTrue => exact .inl rfl
  case isFalse hne =>
    split
    case isTrue => exact .inl rfl
    case isFalse hsource =>
      split
      case isTrue => exact .inl rfl
      case isFalse htarget =>
        split
        case isTrue => exact .inl rfl
        case isFalse hmax =>
          rcases exists_node (Nat.lt_of_not_le hsource) with ⟨node, hnode⟩
          refine .inr ⟨hne, ⟨node, hnode, ?_⟩, exists_node (Nat.lt_of_not_le htarget), rfl⟩
          simpa [issuedCount, hnode] using hmax

/-- Removing a link leaves the web unchanged, or takes the link off the issued count and off the
sources of the target. -/
theorem remLink_cases (wot : WebOfTrust) (source target : NodeId) :
    (wot.remLink source target).1 = wot ∨
      (∃ node, wot.nodes[source]? = some node) ∧
        (∃ node, wot.nodes[target]? = some node ∧ source ∈ node.linksSource) ∧
        (wot.remLink source target).1 =
          (wot.modifyNode source fun node =>
            { node with issuedCount := decrementCount node.issuedCount }).modifyNode target fun node =>
              { node with linksSource := node.linksSource.remove source } := by
  rw [remLink]
  split
  case isTrue => exact .inl rfl
  case isFalse hsource =>
    split
    case isTrue => exact .inl rfl
    case isFalse htarget =>
      split
      case isTrue => exact .inl rfl
      case isFalse hlink =>
        rw [Bool.not_eq_false, hasLink_iff] at hlink
        exact .inr ⟨exists_node (Nat.lt_of_not_le hsource), hlink, rfl⟩

end WebOfTrust

/-! ## The invariant -/

/-- The two views of the links agree: each node issued as many links as there are nodes with it
among their sources, no node is its own source, every source is a node, and no node issued more
links than allowed. -/
structure WotInv (wot : WebOfTrust) : Prop where
  issued : ∀ (id : NodeId) (node : WotNode), wot.nodes[id]? = some node →
    node.issuedCount = wot.linksFrom id
  noSelfLink : ∀ (id : NodeId) (node : WotNode), wot.nodes[id]? = some node →
    id ∉ node.linksSource
  known : ∀ (id : NodeId) (node : WotNode), wot.nodes[id]? = some node →
    ∀ source ∈ node.linksSource, source < wot.size
  bounded : ∀ (id : NodeId) (node : WotNode), wot.nodes[id]? = some node →
    node.issuedCount ≤ wot.maxLinks

/-- The operations on a web of trust. -/
inductive WotOp
  | addNode
  | remNode
  | setEnabled (id : NodeId) (enabled : Bool)
  | addLink (source target : NodeId)
  | remLink (source target : NodeId)
deriving DecidableEq, Repr

/-- Perform an operation. -/
def WotOp.apply (wot : WebOfTrust) : WotOp → WebOfTrust
  | .addNode => wot.addNode
  | .remNode => wot.remNode
  | .setEnabled id enabled => wot.setEnabled id enabled
  | .addLink source target => (wot.addLink source target).1
  | .remLink source target => (wot.remLink source target).1

/-- The operations after which the two views still agree: a link that is there is not added again
(unless its source may issue no more), and the node removed has no link left, in either
direction. -/
def WotOp.Allowed (wot : WebOfTrust) : WotOp → Prop
  | .addLink source target =>
      wot.hasLink source target = true → wot.maxLinks ≤ (wot.issuedCount source).getD 0
  | .remNode => ∀ id < wot.size,
      wot.hasLink (wot.size - 1) id = false ∧ wot.hasLink id (wot.size - 1) = false
  | .addNode | .setEnabled _ _ | .remLink _ _ => True

instance WotOp.decidableAllowed (wot : WebOfTrust) : ∀ op : WotOp, Decidable (op.Allowed wot)
  | .addLink source target => inferInstanceAs (Decidable
      (wot.hasLink source target = true → wot.maxLinks ≤ (wot.issuedCount source).getD 0))
  | .remNode => inferInstanceAs (Decidable (∀ id < wot.size,
      wot.hasLink (wot.size - 1) id = false ∧ wot.hasLink id (wot.size - 1) = false))
  | .addNode | .setEnabled _ _ | .remLink _ _ => isTrue trivial

namespace WotInv

variable {wot : WebOfTrust}

theorem new (maxLinks : Nat) : WotInv (WebOfTrust.new maxLinks) := by
  constructor <;> (intro id node hnode; cases hnode)

/-- A new node has no link yet. -/
theorem addNode (h : WotInv wot) : WotInv wot.addNode := by
  have hsize : wot.addNode.size = wot.size + 1 := by simp [WebOfTrust.addNode, WebOfTrust.size]
  have hcases : ∀ (id : NodeId) (node : WotNode), wot.addNode.nodes[id]? = some node →
      wot.nodes[id]? = some node ∨ id = wot.size ∧ node = WotNode.new := by
    intro id node hnode
    rw [WebOfTrust.addNode, List.getElem?_append] at hnode
    split at hnode
    case isTrue => exact .inl hnode
    case isFalse hlt =>
      rw [List.getElem?_singleton] at hnode
      split at hnode
      case isTrue hid =>
        exact .inr ⟨Nat.le_antisymm (Nat.sub_eq_zero_iff_le.1 hid) (Nat.le_of_not_lt hlt),
          (Option.some.inj hnode).symm⟩
      case isFalse => cases hnode
  have hlinks : ∀ id, wot.addNode.linksFrom id = wot.linksFrom id := by
    intro id
    have hnew : WotNode.new.linksSource.contains id = false := rfl
    simp [WebOfTrust.linksFrom, WebOfTrust.addNode, List.countP_append, hnew]
  have hfresh : wot.linksFrom wot.size = 0 := by
    rw [WebOfTrust.linksFrom_eq_zero_iff]
    intro target
    cases hlink : wot.hasLink wot.size target with
    | false => rfl
    | true =>
        rcases WebOfTrust.hasLink_iff.1 hlink with ⟨node, hnode, hmem⟩
        exact absurd (h.known target node hnode _ hmem) (Nat.lt_irrefl _)
  constructor
  case issued =>
    intro id node hnode
    rw [hlinks]
    rcases hcases id node hnode with hnode | ⟨rfl, rfl⟩
    · exact h.issued id node hnode
    · exact hfresh.symm
  case noSelfLink =>
    intro id node hnode
    rcases hcases id node hnode with hnode | ⟨rfl, rfl⟩
    · exact h.noSelfLink id node hnode
    · exact HashSet.not_mem_empty _
  case known =>
    intro id node hnode source hmem
    rw [hsize]
    rcases hcases id node hnode with hnode | ⟨rfl, rfl⟩
    · exact Nat.lt_succ_of_lt (h.known id node hnode source hmem)
    · exact absurd hmem (HashSet.not_mem_empty _)
  case bounded =>
    intro id node hnode
    rcases hcases id node hnode with hnode | ⟨rfl, rfl⟩
    · exact h.bounded id node hnode
    · exact Nat.zero_le _

/-- The last node can go when no link starts or ends there. -/
theorem remNode (h : WotInv wot) (hallowed : WotOp.remNode.Allowed wot) : WotInv wot.remNode := by
  have hnodes : ∀ (id : NodeId) (node : WotNode), wot.remNode.nodes[id]? = some node →
      id < wot.size - 1 ∧ wot.nodes[id]? = some node := by
    intro id node hnode
    rw [WebOfTrust.remNode, List.dropLast_eq_take, List.getElem?_take] at hnode
    split at hnode
    case isTrue hlt => exact ⟨hlt, hnode⟩
    case isFalse => cases hnode
  have hlinks : ∀ id, wot.remNode.linksFrom id = wot.linksFrom id := by
    intro id
    rw [WebOfTrust.linksFrom, WebOfTrust.linksFrom, WebOfTrust.remNode]
    rcases List.eq_nil_or_concat wot.nodes with hnil | ⟨nodes, last, hconcat⟩
    · rw [hnil]
      rfl
    · rw [hconcat, List.concat_eq_append, List.dropLast_concat, List.countP_append,
        List.countP_singleton]
      have hlast : wot.nodes[wot.size - 1]? = some last := by
        simp [WebOfTrust.size, hconcat]
      have hnone : last.linksSource.contains id = false := by
        cases hmem : last.linksSource.contains id with
        | false => rfl
        | true =>
            have hmem := (HashSet.contains_iff _ _).1 hmem
            have hno := (hallowed id (h.known _ last hlast id hmem)).2
            rw [WebOfTrust.hasLink_iff.2 ⟨last, hlast, hmem⟩] at hno
            cases hno
      rw [hnone]
      rfl
  constructor
  case issued =>
    intro id node hnode
    rw [hlinks]
    exact h.issued id node (hnodes id node hnode).2
  case noSelfLink =>
    intro id node hnode
    exact h.noSelfLink id node (hnodes id node hnode).2
  case known =>
    intro id node hnode source hmem
    rcases hnodes id node hnode with ⟨hlt, hnode⟩
    have hsource := h.known id node hnode source hmem
    have hno := (hallowed id (WebOfTrust.lt_size hnode)).1
    have hne : source ≠ wot.size - 1 := by
      rintro rfl
      rw [WebOfTrust.hasLink_iff.2 ⟨node, hnode, hmem⟩] at hno
      cases hno
    have hsize : wot.remNode.size = wot.size - 1 := List.length_dropLast
    rw [hsize]
    exact Nat.lt_of_le_of_ne (Nat.le_sub_one_of_lt hsource) hne
  case bounded =>
    intro id node hnode
    exact h.bounded id node (hnodes id node hnode).2

/-- The invariant of a web that has the same nodes, with other counts and sources. -/
theorem of_nodes (h : WotInv wot) {wot' : WebOfTrust} (hsize : wot'.size = wot.size)
    (hmax : wot'.maxLinks = wot.maxLinks)
    (hnodes : ∀ (id : NodeId) (node : WotNode), wot'.nodes[id]? = some node →
      ∃ old, wot.nodes[id]? = some old ∧ node.issuedCount = wot'.linksFrom id ∧
        node.issuedCount ≤ wot.maxLinks ∧
        ∀ source ∈ node.linksSource,
          source ∈ old.linksSource ∨ source ≠ id ∧ source < wot.size) : WotInv wot' := by
  constructor
  case issued =>
    intro id node hnode
    rcases hnodes id node hnode with ⟨old, hold, hissued, -⟩
    exact hissued
  case noSelfLink =>
    intro id node hnode hmem
    rcases hnodes id node hnode with ⟨old, hold, -, -, hsources⟩
    rcases hsources id hmem with hmem | ⟨hne, -⟩
    · exact h.noSelfLink id old hold hmem
    · exact hne rfl
  case known =>
    intro id node hnode source hmem
    rw [hsize]
    rcases hnodes id node hnode with ⟨old, hold, -, -, hsources⟩
    rcases hsources source hmem with hmem | ⟨-, hlt⟩
    · exact h.known id old hold source hmem
    · exact hlt
  case bounded =>
    intro id node hnode
    rcases hnodes id node hnode with ⟨old, hold, -, hbounded, -⟩
    rw [hmax]
    exact hbounded

/-- The enabled flag plays no part. -/
theorem setEnabled (h : WotInv wot) (id : NodeId) (enabled : Bool) :
    WotInv (wot.setEnabled id enabled) := by
  have hlinks : ∀ source, (wot.setEnabled id enabled).linksFrom source = wot.linksFrom source :=
    WebOfTrust.linksFrom_modifyNode_of_linksSource fun _ => rfl
  have hsize : (wot.setEnabled id enabled).size = wot.size := WebOfTrust.modifyNode_size _ _
  apply h.of_nodes hsize rfl
  intro id' node hnode
  rw [WebOfTrust.setEnabled, WebOfTrust.modifyNode_getElem?, Option.map_eq_some_iff] at hnode
  rcases hnode with ⟨old, hold, rfl⟩
  refine ⟨old, hold, ?_⟩
  rw [hlinks]
  have hissued := h.issued id' old hold
  have hbounded := h.bounded id' old hold
  by_cases hid : id = id'
  · rw [if_pos hid]
    exact ⟨hissued, hbounded, fun source hmem => .inl hmem⟩
  · rw [if_neg hid]
    exact ⟨hissued, hbounded, fun source hmem => .inl hmem⟩

/-- A link that is not there yet can be added. -/
theorem addLink (h : WotInv wot) {source target : NodeId}
    (hallowed : (WotOp.addLink source target).Allowed wot) :
    WotInv (wot.addLink source target).1 := by
  rcases WebOfTrust.addLink_cases wot source target with
    heq | ⟨hne, ⟨sourceNode, hsource, hlt⟩, ⟨targetNode, htarget⟩, heq⟩
  · rw [heq]
    exact h
  · have hnew : source ∉ targetNode.linksSource := by
      intro hmem
      have hmax := hallowed (WebOfTrust.hasLink_iff.2 ⟨targetNode, htarget, hmem⟩)
      rw [WebOfTrust.issuedCount, hsource] at hmax
      exact absurd hmax (Nat.not_le_of_lt hlt)
    have hcounted : ∀ id, (wot.modifyNode source fun node =>
        { node with issuedCount := node.issuedCount + 1 }).linksFrom id = wot.linksFrom id :=
      WebOfTrust.linksFrom_modifyNode_of_linksSource fun _ => rfl
    have hmid : (wot.modifyNode source fun node =>
        { node with issuedCount := node.issuedCount + 1 }).nodes[target]? = some targetNode := by
      rw [WebOfTrust.modifyNode_getElem?, htarget, Option.map_some, if_neg hne]
    have hlinks : ∀ id, (wot.addLink source target).1.linksFrom id =
        wot.linksFrom id + if id = source then 1 else 0 := by
      intro id
      rw [heq, WebOfTrust.linksFrom_modifyNode_insert (fun _ => rfl) hmid hnew, hcounted]
    apply h.of_nodes
    · rw [heq, WebOfTrust.modifyNode_size, WebOfTrust.modifyNode_size]
    · rw [heq]
      rfl
    intro id node hnode
    rw [heq, WebOfTrust.modifyNode_getElem?, WebOfTrust.modifyNode_getElem?, Option.map_map,
      Option.map_eq_some_iff] at hnode
    rcases hnode with ⟨old, hold, rfl⟩
    refine ⟨old, hold, ?_⟩
    rw [hlinks]
    have hissued := h.issued id old hold
    have hbounded := h.bounded id old hold
    by_cases hs : id = source
    · subst hs
      rw [hsource] at hold
      obtain rfl := Option.some.inj hold
      rw [Function.comp, if_pos rfl, if_neg (Ne.symm hne), if_pos rfl, hissued]
      rw [hissued] at hlt
      exact ⟨rfl, hlt, fun source hmem => .inl hmem⟩
    · rw [Function.comp, if_neg (Ne.symm hs), if_neg hs]
      by_cases ht : target = id
      · rw [if_pos ht]
        refine ⟨hissued, hbounded, fun source' hmem => ?_⟩
        rcases (HashSet.mem_insert _ _ _).1 hmem with rfl | hmem
        · exact .inr ⟨Ne.symm hs, WebOfTrust.lt_size hsource⟩
        · exact .inl hmem
      · rw [if_neg ht]
        exact ⟨hissued, hbounded, fun source hmem => .inl hmem⟩

/-- A link can be removed. -/
theorem remLink (h : WotInv wot) (source target : NodeId) :
    WotInv (wot.remLink source target).1 := by
  rcases WebOfTrust.remLink_cases wot source target with
    heq | ⟨⟨sourceNode, hsource⟩, ⟨targetNode, htarget, hold⟩, heq⟩
  · rw [heq]
    exact h
  · have hne : source ≠ target := by
      rintro rfl
      exact h.noSelfLink source targetNode htarget hold
    have hcounted : ∀ id, (wot.modifyNode source fun node =>
        { node with issuedCount := decrementCount node.issuedCount }).linksFrom id =
          wot.linksFrom id :=
      WebOfTrust.linksFrom_modifyNode_of_linksSource fun _ => rfl
    have hmid : (wot.modifyNode source fun node =>
        { node with issuedCount := decrementCount node.issuedCount }).nodes[target]? =
          some targetNode := by
      rw [WebOfTrust.modifyNode_getElem?, htarget, Option.map_some, if_neg hne]
    have hlinks : ∀ id, (wot.remLink source target).1.linksFrom id +
        (if id = source then 1 else 0) = wot.linksFrom id := by
      intro id
      rw [← hcounted, heq]
      exact WebOfTrust.linksFrom_modifyNode_remove (fun _ => rfl) hmid hold id
    apply h.of_nodes
    · rw [heq, WebOfTrust.modifyNode_size, WebOfTrust.modifyNode_size]
    · rw [heq]
      rfl
    intro id node hnode
    rw [heq, WebOfTrust.modifyNode_getElem?, WebOfTrust.modifyNode_getElem?, Option.map_map,
      Option.map_eq_some_iff] at hnode
    rcases hnode with ⟨old, hold, rfl⟩
    refine ⟨old, hold, ?_⟩
    have hissued := h.issued id old hold
    have hbounded := h.bounded id old hold
    have hlink := hlinks id
    by_cases hs : id = source
    · subst hs
      rw [if_pos rfl] at hlink
      rw [Function.comp, if_pos rfl, if_neg (Ne.symm hne)]
      have hdec : decrementCount old.issuedCount = (wot.remLink id target).1.linksFrom id := by
        rw [hissued, ← hlink]
        rfl
      rw [hdec]
      refine ⟨rfl, ?_, fun source hmem => .inl hmem⟩
      calc
        (wot.remLink id target).1.linksFrom id ≤ wot.linksFrom id := hlink ▸ Nat.le_succ _
        _ = old.issuedCount := hissued.symm
        _ ≤ wot.maxLinks := hbounded
    · rw [if_neg hs, Nat.add_zero] at hlink
      rw [Function.comp, if_neg (Ne.symm hs), hlink]
      by_cases ht : target = id
      · rw [if_pos ht]
        exact ⟨hissued, hbounded, fun source' hmem => .inl ((HashSet.mem_remove _ _ _).1 hmem).2⟩
      · rw [if_neg ht]
        exact ⟨hissued, hbounded, fun source hmem => .inl hmem⟩

/-- An allowed operation keeps the invariant. -/
theorem step (h : WotInv wot) {op : WotOp} (hallowed : op.Allowed wot) : WotInv (op.apply wot) := by
  cases op with
  | addNode => exact h.addNode
  | remNode => exact h.remNode hallowed
  | setEnabled id enabled => exact h.setEnabled id enabled
  | addLink source target => exact h.addLink hallowed
  | remLink source target => exact h.remLink source target

end WotInv

/-- The step of a run of operations, none of which fails. -/
def WotOp.step (wot : WebOfTrust) (op : WotOp) : Run WebOfTrust := .ok (op.apply wot)

/-- In every run whose operations are all allowed, the issued counts and the links agree in every
state reached. -/
theorem wotInv_of_reached {maxLinks : Nat} {wot : WebOfTrust}
    (h : Reached (WebOfTrust.new maxLinks) WotOp.step (fun wot op => op.Allowed wot) wot) :
    WotInv wot := by
  apply h.invariant (WotInv.new maxLinks)
  intro wot op wot' hinv hallowed hrun
  obtain rfl := Except.ok.inj hrun
  exact hinv.step hallowed

/-- Four nodes, links in both directions, the removal of one, and of the node without links. -/
def linkOps : List WotOp :=
  [.addNode, .addNode, .addNode, .addNode, .addLink 0 1, .addLink 1 0, .addLink 0 2,
    .setEnabled 2 false, .remLink 0 1, .remNode]

theorem wotInv_linkOps :
    ∃ wot, linkOps.foldlM WotOp.step (WebOfTrust.new 2) = .ok wot ∧ WotInv wot := by
  have hsome : (guardedRun WotOp.step (fun wot op => op.Allowed wot) linkOps
      (WebOfTrust.new 2)).isSome := by decide
  rcases Option.isSome_iff_exists.1 hsome with ⟨wot, hrun⟩
  exact ⟨wot, foldlM_of_guardedRun hrun, wotInv_of_reached (.of_guardedRun .init hrun)⟩

/-- A link added twice is counted twice. -/
def twiceLinkedOps : List WotOp :=
  [.addNode, .addNode, .addLink 0 1, .addLink 0 1]

theorem not_wotInv_twiceLinkedOps :
    ∃ wot, twiceLinkedOps.foldlM WotOp.step (WebOfTrust.new 2) = .ok wot ∧ ¬ WotInv wot := by
  refine ⟨_, rfl, fun h => ?_⟩
  have hissued := h.issued 0 _ rfl
  revert hissued
  decide

end Durs
