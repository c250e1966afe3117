/-
# Changes of the web of trust

What a block does to the web of trust and what undoing it does: flags that are set, links that are
added one after the other, links that are removed.  Links can be added again when a web that has
them all exists.
-/

import Durs.Blockchain.Identities

namespace Durs

open RustStd

namespace WebOfTrust

variable {wot : WebOfTrust}

/-! ## Flags -/

/-- The web with the flags of some nodes set. -/
def withFlags (wot : WebOfTrust) (ids : List NodeId) (enabled : Bool) : WebOfTrust :=
  ids.foldl (fun wot id => wot.setEnabled id enabled) wot

@[simp]
theorem withFlags_size (ids : List NodeId) (enabled : Bool) :
    (wot.withFlags ids enabled).size = wot.size := by
  induction ids generalizing wot with
  | nil => rfl
  | cons id ids ih => exact ih.trans (modifyNode_size _ _)

@[simp]
theorem withFlags_maxLinks (ids : List NodeId) (enabled : Bool) :
    (wot.withFlags ids enabled).maxLinks = wot.maxLinks := by
  induction ids generalizing wot with
  | nil => rfl
  | cons id ids ih => exact ih

@[simp]
theorem hasLink_withFlags (ids : List NodeId) (enabled : Bool) (source target : NodeId) :
    (wot.withFlags ids enabled).hasLink source target = wot.hasLink source target := by
  induction ids generalizing wot with
  | nil => rfl
  | cons id ids ih => exact ih.trans (Collected.hasLink_setEnabled ..)

theorem isEnabled_withFlags (ids : List NodeId) (enabled : Bool) (id : NodeId) :
    (wot.withFlags ids enabled).isEnabled id =
      if id ∈ ids then (wot.isEnabled id).map fun _ => enabled else wot.isEnabled id := by
  induction ids generalizing wot with
  | nil => simp [withFlags]
  | cons first ids ih =>
      refine ih.trans ?_
      rw [isEnabled_setEnabled]
      by_cases hid : id = first
      · simp [hid, Function.comp_def]
      · simp [hid]

/-! ## Links that are added -/

/-- The web with some links added. -/
def withLinks (wot : WebOfTrust) (pairs : List (NodeId × NodeId)) : WebOfTrust :=
  pairs.foldl (fun wot pair => wot.withLink pair.1 pair.2) wot

/-- Links that can be added one after the other. -/
def CanLinks : WebOfTrust → List (NodeId × NodeId) → Prop
  | _, [] => True
  | wot, pair :: pairs => wot.CanLink pair.1 pair.2 ∧ (wot.withLink pair.1 pair.2).CanLinks pairs

@[simp]
theorem withLinks_size (pairs : List (NodeId × NodeId)) :
    (wot.withLinks pairs).size = wot.size := by
  induction pairs generalizing wot with
  | nil => rfl
  | cons pair pairs ih => exact ih.trans withLink_size

@[simp]
theorem withLinks_maxLinks (pairs : List (NodeId × NodeId)) :
    (wot.withLinks pairs).maxLinks = wot.maxLinks := by
  induction pairs generalizing wot with
  | nil => rfl
  | cons pair pairs ih => exact ih

@[simp]
theorem isEnabled_withLinks (pairs : List (NodeId × NodeId)) (id : NodeId) :
    (wot.withLinks pairs).isEnabled id = wot.isEnabled id := by
  induction pairs generalizing wot with
  | nil => rfl
  | cons pair pairs ih => exact ih.trans (isEnabled_withLink ..)

theorem hasLink_withLinks {pairs : List (NodeId × NodeId)} (hcan : wot.CanLinks pairs)
    (source target : NodeId) : (wot.withLinks pairs).hasLink source target = true ↔
      wot.hasLink source target = true ∨ (source, target) ∈ pairs := by
  induction pairs generalizing wot with
  | nil => exact (or_iff_left List.not_mem_nil).symm
  | cons pair pairs ih =>
      refine (ih hcan.2).trans ?_
      rw [hasLink_withLink hcan.1.2.1, List.mem_cons, or_assoc]
      exact or_congr Iff.rfl (or_congr (@Prod.ext_iff _ _ (source, target) pair).symm Iff.rfl)

theorem KnownSources.withLink {source target : NodeId} (hknown : wot.KnownSources)
    (hcan : wot.CanLink source target) : (wot.withLink source target).KnownSources := by
  obtain ⟨-, htarget, node, hnode, -⟩ := hcan
  intro source' target' hlink
  rw [withLink_size]
  rcases (hasLink_withLink htarget source' target').1 hlink with hlink | ⟨rfl, -⟩
  · exact hknown source' target' hlink
  · exact lt_size hnode

theorem KnownSources.withLinks {pairs : List (NodeId × NodeId)} (hknown : wot.KnownSources)
    (hcan : wot.CanLinks pairs) : (wot.withLinks pairs).KnownSources := by
  induction pairs generalizing wot with
  | nil => exact hknown
  | cons pair pairs ih => exact ih (hknown.withLink hcan.1) hcan.2

/-- A new link counts once. -/
theorem linksFrom_withLink {source target : NodeId} (htarget : target < wot.size)
    (hnew : wot.hasLink source target = false) (id : NodeId) :
    (wot.withLink source target).linksFrom id =
      wot.linksFrom id + if id = source then 1 else 0 := by
  have hmid : ∀ id, (wot.modifyNode source fun node =>
      { node with issuedCount := node.issuedCount + 1 }).linksFrom id = wot.linksFrom id :=
    linksFrom_modifyNode_of_linksSource fun _ => rfl
  obtain ⟨node, hnode⟩ := exists_node htarget
  have hsource : source ∉ node.linksSource := by
    intro hmem
    rw [hasLink_iff.2 ⟨node, hnode, hmem⟩] at hnew
    cases hnew
  obtain ⟨counted, hcounted, hlinks⟩ : ∃ counted, (wot.modifyNode source fun node =>
      { node with issuedCount := node.issuedCount + 1 }).nodes[target]? = some counted ∧
        counted.linksSource = node.linksSource := by
    rw [modifyNode_getElem?, hnode]
    refine ⟨_, rfl, ?_⟩
    split
    · rfl
    · rfl
  rw [withLink, linksFrom_modifyNode_insert (fun _ => rfl) hcounted (hlinks ▸ hsource), hmid]

/-! ## Links that are removed -/

/-- The web with some links removed. -/
def withoutLinks (wot : WebOfTrust) (pairs : List (NodeId × NodeId)) : WebOfTrust :=
  pairs.foldl (fun wot pair => (wot.remLink pair.1 pair.2).1) wot

@[simp]
theorem withoutLinks_size (pairs : List (NodeId × NodeId)) :
    (wot.withoutLinks pairs).size = wot.size := by
  induction pairs generalizing wot with
  | nil => rfl
  | cons pair pairs ih => exact ih.trans (size_remLink ..)

theorem maxLinks_remLink (source target : NodeId) :
    (wot.remLink source target).1.maxLinks = wot.maxLinks := by
  rcases remLink_cases wot source target with heq | ⟨-, -, heq⟩
  · rw [heq]
  · rw [heq, modifyNode_maxLinks, modifyNode_maxLinks]

@[simp]
theorem withoutLinks_maxLinks (pairs : List (NodeId × NodeId)) :
    (wot.withoutLinks pairs).maxLinks = wot.maxLinks := by
  induction pairs generalizing wot with
  | nil => rfl
  | cons pair pairs ih => exact ih.trans (maxLinks_remLink ..)

@[simp]
theorem isEnabled_withoutLinks (pairs : List (NodeId × NodeId)) (id : NodeId) :
    (wot.withoutLinks pairs).isEnabled id = wot.isEnabled id := by
  induction pairs generalizing wot with
  | nil => rfl
  | cons pair pairs ih => exact ih.trans (isEnabled_remLink ..)

theorem KnownSources.remLink (hknown : wot.KnownSources) (source target : NodeId) :
    (wot.remLink source target).1.KnownSources := by
  intro source' target' hlink
  rw [size_remLink]
  exact hknown _ _ ((hasLink_remLink hknown source target source' target').1 hlink).1

theorem hasLink_withoutLinks (hknown : wot.KnownSources) (pairs : List (NodeId × NodeId))
    (source target : NodeId) : (wot.withoutLinks pairs).hasLink source target = true ↔
      wot.hasLink source target = true ∧ (source, target) ∉ pairs := by
  induction pairs generalizing wot with
  | nil => exact (and_iff_left List.not_mem_nil).symm
  | cons pair pairs ih =>
      refine (ih (hknown.remLink pair.1 pair.2)).trans ?_
      rw [hasLink_remLink hknown, List.mem_cons, not_or, and_assoc]

end WebOfTrust

namespace WotInv

open WebOfTrust

variable {wot wot' : WebOfTrust} {pairs : List (NodeId × NodeId)}

theorem knownSources (h : WotInv wot) : wot.KnownSources := by
  intro source target hlink
  obtain ⟨node, hnode, hmem⟩ := hasLink_iff.1 hlink
  exact h.known target node hnode source hmem

theorem withFlags (h : WotInv wot) (ids : List NodeId) (enabled : Bool) :
    WotInv (wot.withFlags ids enabled) := by
  induction ids generalizing wot with
  | nil => exact h
  | cons id ids ih => exact ih (h.setEnabled id enabled)

/-- A link that is not there yet keeps the invariant. -/
theorem withLink (h : WotInv wot) {source target : NodeId} (hcan : wot.CanLink source target)
    (hnew : wot.hasLink source target = false) : WotInv (wot.withLink source target) := by
  have hadd : WotInv (wot.addLink source target).1 := by
    refine h.addLink fun hlink => ?_
    rw [hnew] at hlink
    cases hlink
  exact addLink_of_canLink hcan ▸ hadd

/-- Links that are not there yet keep the invariant. -/
theorem withLinks (h : WotInv wot) (hcan : wot.CanLinks pairs) (hnodup : pairs.Nodup)
    (hnew : ∀ pair ∈ pairs, wot.hasLink pair.1 pair.2 = false) : WotInv (wot.withLinks pairs) := by
  induction pairs generalizing wot with
  | nil => exact h
  | cons pair pairs ih =>
      obtain ⟨hnot, hnodup⟩ := List.nodup_cons.1 hnodup
      obtain ⟨hfirst, hrest⟩ := List.forall_mem_cons.1 hnew
      refine ih (h.withLink hcan.1 hfirst) hcan.2 hnodup fun other hmem => ?_
      refine Bool.eq_false_iff.2 fun hlink => ?_
      rcases (hasLink_withLink hcan.1.2.1 _ _).1 hlink with hlink | heq
      · exact absurd hlink (Bool.eq_false_iff.1 (hrest other hmem))
      · exact hnot (Prod.ext heq.1 heq.2 ▸ hmem)

theorem withoutLinks (h : WotInv wot) (pairs : List (NodeId × NodeId)) :
    WotInv (wot.withoutLinks pairs) := by
  induction pairs generalizing wot with
  | nil => exact h
  | cons pair pairs ih => exact ih (h.remLink pair.1 pair.2)

/-- A link can be added when another web of these nodes has it, and all the links that are there. -/
theorem canLink (h : WotInv wot) (h' : WotInv wot') (hsize : wot'.size = wot.size)
    (hmax : wot'.maxLinks = wot.maxLinks) {source target : NodeId}
    (hsub : ∀ target', wot.hasLink source target' = true → wot'.hasLink source target' = true)
    (hlink : wot'.hasLink source target = true) (hnew : wot.hasLink source target = false) :
    wot.CanLink source target := by
  obtain ⟨node', hnode', hmem⟩ := hasLink_iff.1 hlink
  have hne : source ≠ target := by
    rintro rfl
    exact h'.noSelfLink _ node' hnode' hmem
  have htarget : target < wot.size := hsize ▸ lt_size hnode'
  have hsource : source < wot'.size := h'.knownSources _ _ hlink
  obtain ⟨sourceNode', hsourceNode'⟩ := exists_node hsource
  obtain ⟨sourceNode, hsourceNode⟩ := exists_node (hsize ▸ hsource)
  refine ⟨hne, htarget, sourceNode, hsourceNode, ?_⟩
  have hmore : wot.linksFrom source < wot'.linksFrom source := by
    have hle : (wot.withLink source target).linksFrom source ≤ wot'.linksFrom source := by
      refine linksFrom_le_of_hasLink (hsize.trans withLink_size.symm) fun target' hold => ?_
      rcases (hasLink_withLink htarget _ _).1 hold with hold | ⟨-, rfl⟩
      · exact hsub target' hold
      · exact hlink
    rwa [linksFrom_withLink htarget hnew, if_pos rfl] at hle
  calc
    sourceNode.issuedCount = wot.linksFrom source := h.issued _ _ hsourceNode
    _ < wot'.linksFrom source := hmore
    _ = sourceNode'.issuedCount := (h'.issued _ _ hsourceNode').symm
    _ ≤ wot'.maxLinks := h'.bounded _ _ hsourceNode'
    _ = wot.maxLinks := hmax

/-- Links can be added one after the other when another web of these nodes has them, and all the
links that are there. -/
theorem canLinks (h : WotInv wot) (h' : WotInv wot') (hsize : wot'.size = wot.size)
    (hmax : wot'.maxLinks = wot.maxLinks)
    (hsub : ∀ source target, wot.hasLink source target = true → wot'.hasLink source target = true)
    (hlinks : ∀ pair ∈ pairs, wot'.hasLink pair.1 pair.2 = true)
    (hnodup : pairs.Nodup) (hnew : ∀ pair ∈ pairs, wot.hasLink pair.1 pair.2 = false) :
    wot.CanLinks pairs := by
  induction pairs generalizing wot with
  | nil => trivial
  | cons pair pairs ih =>
      obtain ⟨hnot, hnodup⟩ := List.nodup_cons.1 hnodup
      obtain ⟨hlink, hlinks⟩ := List.forall_mem_cons.1 hlinks
      obtain ⟨hfirst, hrest⟩ := List.forall_mem_cons.1 hnew
      have hcan : wot.CanLink pair.1 pair.2 :=
        h.canLink h' hsize hmax (fun target' => hsub _ target') hlink hfirst
      have hiff := @hasLink_withLink wot pair.1 pair.2 hcan.2.1
      refine ⟨hcan, ih (h.withLink hcan hfirst) (hsize.trans withLink_size.symm) hmax ?_ hlinks
        hnodup fun other hmem => ?_⟩
      · intro source target hold
        rcases (hiff source target).1 hold with hold | ⟨rfl, rfl⟩
        · exact hsub source target hold
        · exact hlink
      · refine Bool.eq_false_iff.2 fun hold => ?_
        rcases (hiff _ _).1 hold with hold | heq
        · exact absurd hold (Bool.eq_false_iff.1 (hrest other hmem))
        · exact hnot (Prod.ext heq.1 heq.2 ▸ hmem)

end WotInv

end Durs
