/-
# The certifications as a graph

A node that certifies another is a source of it.  The operations that explore the graph go from a
node to its sources, that is against the certifications.
-/

import Durs.Lib.Walks
import Durs.Run
import Durs.Wot.Invariant
import Mathlib.Data.Set.Card

namespace Durs

open RustStd Lib

namespace WebOfTrust

/-- The sources of the links to a node, none for an unknown node. -/
def sources (wot : WebOfTrust) (target : NodeId) : Finset NodeId :=
  ((wot.getLinksSource target).getD []).toFinset

variable {wot : WebOfTrust} {u v : NodeId} {l : List NodeId}

theorem nodup_of_getLinksSource (h : wot.getLinksSource v = some l) : l.Nodup := by
  rw [getLinksSource, Option.map_eq_some_iff] at h
  rcases h with ⟨node, -, rfl⟩
  exact node.linksSource.nodup_iter

theorem mem_of_getLinksSource (h : wot.getLinksSource v = some l) : u ∈ l ↔ u ∈ wot.sources v := by
  rw [sources, h, Option.getD_some, List.mem_toFinset]

theorem lt_size_of_mem_sources (h : u ∈ wot.sources v) : v < wot.size := by
  rw [sources, getLinksSource] at h
  cases hnode : wot.nodes[v]? with
  | none =>
      rw [hnode] at h
      cases List.mem_toFinset.1 h
  | some node => exact lt_size hnode

theorem lt_size_of_getLinksSource (h : wot.getLinksSource v = some l) : v < wot.size := by
  rw [getLinksSource, Option.map_eq_some_iff] at h
  rcases h with ⟨node, hnode, -⟩
  exact lt_size hnode

theorem exists_getLinksSource (h : v < wot.size) : ∃ l, wot.getLinksSource v = some l := by
  rcases exists_node h with ⟨node, hnode⟩
  exact ⟨_, congrArg (Option.map _) hnode⟩

/-- The sources of a node are those that link to it. -/
theorem mem_sources_iff : u ∈ wot.sources v ↔ wot.hasLink u v = true := by
  rw [sources, getLinksSource, hasLink]
  cases wot.nodes[v]? with
  | none => exact ⟨fun h => absurd (List.mem_toFinset.1 h) List.not_mem_nil, fun h => by cases h⟩
  | some node => exact List.mem_toFinset.trans (HashSet.contains_iff _ _).symm

/-- The nodes at a distance each have known sources only, up to but not at a number of steps. -/
def KnownWithin (wot : WebOfTrust) (target : NodeId) (steps : Nat) : Prop :=
  ∀ k < steps, ∀ v, AtDist wot.sources target k v → ∀ u ∈ wot.sources v, u < wot.size

theorem knownWithin_zero {target : NodeId} : wot.KnownWithin target 0 :=
  fun _ hlt => absurd hlt (Nat.not_lt_zero _)

theorem knownWithin_succ_iff {target : NodeId} {k : Nat} : wot.KnownWithin target (k + 1) ↔
    wot.KnownWithin target k ∧
      ∀ v, AtDist wot.sources target k v → ∀ u ∈ wot.sources v, u < wot.size :=
  Nat.forall_lt_succ_right

/-- The nodes within reach of known sources are known. -/
theorem KnownWithin.lt_size {target : NodeId} {steps k : Nat} (h : wot.KnownWithin target steps)
    (htarget : target < wot.size) (hle : k ≤ steps) (hdist : AtDist wot.sources target k v) :
    v < wot.size := by
  cases k with
  | zero =>
      obtain rfl := atDist_zero_iff.1 hdist
      exact htarget
  | succ k =>
      obtain ⟨⟨u, hu, hlink⟩, -⟩ := atDist_succ_iff.1 hdist
      exact h k hle u hu v hlink

/-- All is known in a web of trust without a link from an unknown node. -/
theorem knownWithin_of_forall (h : ∀ v < wot.size, ∀ u ∈ wot.sources v, u < wot.size)
    (target : NodeId) (steps : Nat) : wot.KnownWithin target steps :=
  fun _ _ v _ u hu => h v (lt_size_of_mem_sources hu) u hu

end WebOfTrust

/-- The links and the issued counts agree only when all the nodes are known. -/
theorem WotInv.knownWithin {wot : WebOfTrust} (h : WotInv wot) (target : NodeId) (steps : Nat) :
    wot.KnownWithin target steps := by
  apply WebOfTrust.knownWithin_of_forall
  intro v _ u hu
  rcases WebOfTrust.hasLink_iff.1 (WebOfTrust.mem_sources_iff.1 hu) with ⟨node, hnode, hmem⟩
  exact h.known v node hnode u hmem

/-! ## Lists of links -/

/-- The nodes that a list of links goes from to reach a node. -/
def closerNodes (links : List (NodeId × NodeId)) (v : NodeId) : List NodeId :=
  (links.filter fun link => link.2 = v).map Prod.fst

section

variable {links : List (NodeId × NodeId)} {u v w : NodeId}

theorem mem_closerNodes_iff : u ∈ closerNodes links v ↔ (u, v) ∈ links := by
  simp [closerNodes]

theorem nodup_closerNodes (h : links.Nodup) : (closerNodes links v).Nodup := by
  apply (h.filter _).map_on
  rintro ⟨u, v'⟩ hu ⟨w, v''⟩ hw rfl
  obtain rfl : v' = v := of_decide_eq_true (List.mem_filter.1 hu).2
  obtain rfl : v'' = v' := of_decide_eq_true (List.mem_filter.1 hw).2
  rfl

theorem closerNodes_concat_self :
    closerNodes (links ++ [(u, v)]) v = closerNodes links v ++ [u] := by
  simp [closerNodes, List.filter_append]

theorem closerNodes_concat_of_ne (h : v ≠ w) :
    closerNodes (links ++ [(u, v)]) w = closerNodes links w := by
  simp [closerNodes, List.filter_append, h]

end

/-- The links to a node. -/
def linksTo (wot : WebOfTrust) (u : NodeId) : List (NodeId × NodeId) :=
  ((wot.getLinksSource u).getD []).map fun v => (u, v)

theorem mem_linksTo_iff {wot : WebOfTrust} {u v w : NodeId} :
    (w, v) ∈ linksTo wot u ↔ w = u ∧ v ∈ wot.sources u := by
  rw [linksTo, List.mem_map, WebOfTrust.sources]
  constructor
  · rintro ⟨v', hv, heq⟩
    obtain ⟨rfl, rfl⟩ := Prod.mk.inj heq
    exact ⟨rfl, List.mem_toFinset.2 hv⟩
  · rintro ⟨rfl, hv⟩
    exact ⟨v, List.mem_toFinset.1 hv, rfl⟩

/-- Each link of a list of nodes is there once. -/
theorem nodup_flatMap_linksTo {wot : WebOfTrust} {l : List NodeId} (h : l.Nodup) :
    (l.flatMap (linksTo wot)).Nodup := by
  rw [List.nodup_flatMap]
  constructor
  · intro u _
    apply List.Nodup.map (Prod.mk_right_injective u)
    cases hsources : wot.getLinksSource u with
    | none => exact List.nodup_nil
    | some sources => exact WebOfTrust.nodup_of_getLinksSource hsources
  · apply h.imp
    rintro u v hne ⟨w, w'⟩ hu hv
    exact hne ((mem_linksTo_iff.1 hu).1.symm.trans (mem_linksTo_iff.1 hv).1)

/-- What a finite set of nodes or of paths counts. -/
theorem ncard_setOf_eq_card {α : Type} {s : Finset α} {P : α → Prop} (h : ∀ a, a ∈ s ↔ P a) :
    {a | P a}.ncard = s.card := by
  rw [← Set.ncard_coe_finset]
  congr 1
  ext a
  exact (h a).symm

/-- Two certifications of a first node lead to a fourth one, that certifies the first in turn. -/
def diamondWot : WebOfTrust :=
  [(0, 1), (0, 2), (1, 3), (2, 3), (3, 0)].foldl (fun wot link => (wot.addLink link.1 link.2).1)
    (WebOfTrust.new 3).addNode.addNode.addNode.addNode

/-- The removed node certified one of those left. -/
def danglingWot : WebOfTrust :=
  ((WebOfTrust.new 3).addNode.addNode.addNode.addLink 2 1).1.remNode

end Durs
