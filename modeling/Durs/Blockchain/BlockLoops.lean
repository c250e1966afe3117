/-
# The loops of a block

What applying a block leaves of the web of trust and of the index, and what reverting it leaves:
who has a node, which flags are set, which links there are.
-/

import Durs.Blockchain.Newcomers

namespace Durs

open RustStd WebOfTrust WotMemory

variable {C : Crypto} {block : BlockDocument} {memory memory' : WotMemory} {s s' : ApplyState}
  {blockstamp : Blockstamp} {expireCerts : HashMap (NodeId × NodeId) BlockNumber}

/-! ## The parts of a block -/

namespace BlockDocument

/-- The keys whose membership the block renews. -/
def renewing (block : BlockDocument) : List PubKey :=
  renewedKeys block block.joiners ++ renewedKeys block block.actives

/-- The keys that the block excludes or revokes. -/
def dismissing (block : BlockDocument) : List PubKey :=
  block.excluded ++ block.revoked.map CompactRevocationDocument.issuer

/-- The links that the block makes. -/
def linking (block : BlockDocument) (memory : WotMemory) : List (NodeId × NodeId) :=
  certPairs (memory.withNewcomers block).wotIndex block.certifications

end BlockDocument

/-- The links that expire. -/
def expiring (expireCerts : HashMap (NodeId × NodeId) BlockNumber) : List (NodeId × NodeId) :=
  expireCerts.iter.map Prod.fst

/-- The index of the newcomers gives a renewed key the node that it had. -/
theorem nodesOf_renewedKeys (hindex : memory'.wotIndex = (memory.withNewcomers block).wotIndex)
    (memberships : List MembershipDocument) :
    memory'.nodesOf (renewedKeys block memberships) =
      memory.nodesOf (renewedKeys block memberships) := by
  refine List.filterMap_congr fun key hkey => ?_
  rw [hindex]
  rcases get?_newcomers (newcomersAmong block block.joiners) memory key with
    ⟨-, hget⟩ | ⟨hmem, -⟩
  · exact hget
  · exact absurd hmem (not_mem_newKeys_of_mem_renewedKeys hkey)

/-! ## Applying -/

/-- What the part of a block that concerns the web of trust leaves, its expiring certifications
apart. -/
structure Applied (block : BlockDocument) (memory memory' : WotMemory) : Prop where
  index : memory'.wotIndex = (memory.withNewcomers block).wotIndex
  size : memory'.wotDb.size = memory.wotDb.size + (newKeys block block.joiners).length
  maxLinks : memory'.wotDb.maxLinks = memory.wotDb.maxLinks
  flags : ∀ id, id < memory.wotDb.size → memory'.wotDb.isEnabled id =
    if id ∈ memory'.nodesOf block.dismissing then (memory.wotDb.isEnabled id).map fun _ => false
    else if id ∈ memory.nodesOf block.renewing then (memory.wotDb.isEnabled id).map fun _ => true
    else memory.wotDb.isEnabled id
  links : ∀ source target, memory'.wotDb.hasLink source target = true ↔
    memory.wotDb.hasLink source target = true ∨ (source, target) ∈ block.linking memory
  renewers : ∀ ms ∈ block.joiners ++ block.actives, block.isRenewal ms = true →
    memory'.wotIndex.containsKey ms.issuer = true
  dismissed : ∀ key ∈ block.dismissing, memory'.wotIndex.containsKey key = true
  certified : ∀ certification ∈ block.certifications,
    (certPair memory'.wotIndex certification).isSome = true
  known : memory.wotDb.KnownSources → memory'.wotDb.KnownSources
  inv : WotInv memory.wotDb → (block.linking memory).Nodup →
    (∀ pair ∈ block.linking memory, memory.wotDb.hasLink pair.1 pair.2 = false) →
    WotInv memory'.wotDb

theorem applied_of_applyWot (h : applyWot block memory blockstamp = .ok s) :
    Applied block memory s.memory := by
  simp only [applyWot, bind_eq_ok_iff] at h
  obtain ⟨s₁, hjoiners, s₂, hactives, s₃, hexcluded, s₄, hrevoked, hcertified⟩ := h
  have hsame : SameCounts (memory.withNewcomers block) s₁.memory ∧
      ∀ ms ∈ block.joiners, block.IsNewOrKnown memory ms := by
    rcases foldlM_joiners blockstamp (s := ⟨memory, []⟩) (SameCounts.refl memory) with
      ⟨hknown, s', hrun, hsame⟩ | ⟨-, ending, -, hrun⟩
    · obtain rfl := Except.ok.inj (hjoiners.symm.trans hrun)
      exact ⟨hsame, hknown⟩
    · cases hjoiners.symm.trans hrun
  have hjoined : Joined block block.joiners memory s₁.memory := joined_of_foldlM hjoiners
  obtain ⟨hactive, heq₂⟩ := (setsFlag_applyActive block).foldlM_eq_ok hactives
  obtain ⟨hexclude, heq₃⟩ := (setsFlag_applyExclusion blockstamp).foldlM_eq_ok hexcluded
  obtain ⟨hrevoke, heq₄⟩ := (setsFlag_applyRevocation blockstamp).foldlM_eq_ok hrevoked
  obtain ⟨hpairs, hcan, heq₅⟩ := applyCertifications_eq_ok hcertified
  simp only [List.filter_true, List.map_id] at heq₃ heq₄
  have hindex₂ : s₂.memory.wotIndex = s₁.memory.wotIndex := by
    rw [heq₂, flagKeys_wotIndex]
  have hindex₃ : s₃.memory.wotIndex = s₁.memory.wotIndex := by
    rw [heq₃, flagKeys_wotIndex, hindex₂]
  have hindex₄ : s₄.memory.wotIndex = s₁.memory.wotIndex := by
    rw [heq₄, flagKeys_wotIndex, hindex₃]
  have hindex : s.memory.wotIndex = s₁.memory.wotIndex := by
    rw [heq₅, hindex₄]
  have hlinking : certPairs s₄.memory.wotIndex block.certifications = block.linking memory := by
    rw [hindex₄, hsame.1.index]
    rfl
  have hlinks₄ : ∀ source target, s₄.memory.wotDb.hasLink source target =
      memory.wotDb.hasLink source target := by
    intro source target
    rw [heq₄, hasLink_flagKeys, heq₃, hasLink_flagKeys, heq₂, hasLink_flagKeys, hjoined.links]
  have hsize₄ : s₄.memory.wotDb.size =
      memory.wotDb.size + (newKeys block block.joiners).length := by
    rw [heq₄, flagKeys_size, heq₃, flagKeys_size, heq₂, flagKeys_size, hsame.1.size]
    exact (size_newcomers _ _).trans (congrArg _ (List.length_map _).symm)
  rw [hlinking] at hcan heq₅
  constructor
  case index => exact hindex.trans hsame.1.index
  case size =>
    rw [heq₅]
    exact (withLinks_size _).trans hsize₄
  case maxLinks =>
    rw [heq₅]
    refine (withLinks_maxLinks _).trans ?_
    rw [heq₄, flagKeys_maxLinks, heq₃, flagKeys_maxLinks, heq₂, flagKeys_maxLinks,
      hsame.1.maxLinks]
    exact maxLinks_newcomers _ _
  case flags =>
    intro id hid
    have hflag : s.memory.wotDb.isEnabled id = s₄.memory.wotDb.isEnabled id := by
      rw [heq₅]
      exact isEnabled_withLinks _ _
    have hflag₄ := @isEnabled_flagKeys s₃.memory
      (block.revoked.map CompactRevocationDocument.issuer) false id
    have hflag₃ := @isEnabled_flagKeys s₂.memory block.excluded false id
    have hflag₂ := @isEnabled_flagKeys s₁.memory (renewedKeys block block.actives) true id
    rw [← heq₄, nodesOf_congr hindex₃] at hflag₄
    rw [← heq₃, nodesOf_congr hindex₂] at hflag₃
    rw [nodesOf_renewedKeys hsame.1.index] at hflag₂
    rw [nodesOf_congr hindex]
    simp only [hflag, hflag₄, hflag₃, heq₂.symm ▸ hflag₂, hjoined.flags id hid,
      BlockDocument.dismissing, BlockDocument.renewing, nodesOf_append, List.mem_append]
    by_cases hr : id ∈ s₁.memory.nodesOf (block.revoked.map CompactRevocationDocument.issuer) <;>
      by_cases he : id ∈ s₁.memory.nodesOf block.excluded <;>
      by_cases ha : id ∈ memory.nodesOf (renewedKeys block block.actives) <;>
      by_cases hj : id ∈ memory.nodesOf (renewedKeys block block.joiners) <;>
      simp [hr, he, ha, hj, Function.comp_def]
  case links =>
    intro source target
    rw [heq₅]
    exact (hasLink_withLinks hcan source target).trans (or_congr (by rw [hlinks₄]) Iff.rfl)
  case renewers =>
    intro ms hms hkeep
    rw [hindex]
    rcases List.mem_append.1 hms with hmem | hmem
    · have hknown : memory.wotIndex.containsKey ms.issuer = true := by
        refine (hsame.2 ms hmem).resolve_left fun hnew => ?_
        rw [BlockDocument.isRenewal_eq_true_iff.1 hkeep] at hnew
        cases hnew
      obtain ⟨id, hget⟩ := (HashMap.containsKey_iff _ _).1 hknown
      rw [hsame.1.index]
      rcases get?_newcomers (newcomersAmong block block.joiners) memory ms.issuer with
        ⟨-, hsome⟩ | ⟨-, id', -, hsome⟩
      · exact (HashMap.containsKey_iff _ _).2 ⟨id, hsome.trans hget⟩
      · exact (HashMap.containsKey_iff _ _).2 ⟨id', hsome⟩
    · exact hactive ms hmem hkeep
  case dismissed =>
    intro key hkey
    rw [hindex]
    rcases List.mem_append.1 hkey with hmem | hmem
    · exact hindex₂ ▸ hexclude key hmem rfl
    · obtain ⟨revocation, hrevocation, rfl⟩ := List.mem_map.1 hmem
      exact hindex₃ ▸ hrevoke revocation hrevocation rfl
  case certified =>
    intro certification hmem
    rw [hindex, ← hindex₄]
    exact hpairs certification hmem
  case known =>
    intro hknown
    have hknown₄ : s₄.memory.wotDb.KnownSources := by
      intro source target hlink
      rw [hlinks₄] at hlink
      rw [hsize₄]
      exact Nat.lt_add_right _ (hknown source target hlink)
    rw [heq₅]
    exact hknown₄.withLinks hcan
  case inv =>
    intro hinv hnodup hnew
    have hinv₄ : WotInv s₄.memory.wotDb := by
      rw [heq₄, WotMemory.flagKeys, heq₃, WotMemory.flagKeys, heq₂, WotMemory.flagKeys]
      exact (((hjoined.inv hinv).withFlags _ _).withFlags _ _).withFlags _ _
    rw [heq₅]
    exact hinv₄.withLinks hcan hnodup fun pair hmem => (hlinks₄ _ _).trans (hnew pair hmem)

/-! ## Reverting -/

theorem newKeys_reverse (joiners : List MembershipDocument) :
    newKeys block joiners.reverse = (newKeys block joiners).reverse := by
  rw [newKeys, newcomersAmong, List.filter_reverse, List.map_reverse]
  rfl

theorem renewedKeys_reverse (joiners : List MembershipDocument) :
    renewedKeys block joiners.reverse = (renewedKeys block joiners).reverse := by
  rw [renewedKeys, List.filter_reverse, List.map_reverse]
  rfl

/-- What reverting the part of a block that concerns the web of trust leaves. -/
structure Reverted (block : BlockDocument) (expired : List (NodeId × NodeId))
    (memory memory' : WotMemory) : Prop where
  distinct : (certPairs memory.wotIndex block.certifications).Nodup
  index : ∀ key, memory'.wotIndex.get? key =
    if key ∈ newKeys block block.joiners then none else memory.wotIndex.get? key
  size : memory'.wotDb.size = memory.wotDb.size - (newKeys block block.joiners).length
  maxLinks : memory'.wotDb.maxLinks = memory.wotDb.maxLinks
  flags : ∀ id, id < memory'.wotDb.size → memory'.wotDb.isEnabled id =
    if id ∈ memory.nodesOf block.renewing then (memory.wotDb.isEnabled id).map fun _ => true
    else if id ∈ memory.nodesOf block.dismissing then
      (memory.wotDb.isEnabled id).map fun _ => false
    else memory.wotDb.isEnabled id
  links : ∀ source target, memory'.wotDb.hasLink source target = true ↔
    ((memory.wotDb.hasLink source target = true ∨ (source, target) ∈ expired) ∧
      (source, target) ∉ certPairs memory.wotIndex block.certifications) ∧
    target < memory'.wotDb.size
  inv : WotInv memory.wotDb → expired.Nodup →
    (∀ pair ∈ expired, memory.wotDb.hasLink pair.1 pair.2 = false) →
    (∀ source target, (memory.wotDb.hasLink source target = true ∨ (source, target) ∈ expired) →
      (source, target) ∉ certPairs memory.wotIndex block.certifications →
      source < memory'.wotDb.size ∧ target < memory'.wotDb.size) → WotInv memory'.wotDb

theorem reverted_of_revertWot (hknown : memory.wotDb.KnownSources)
    (hpairs : ∀ certification ∈ block.certifications,
      (certPair memory.wotIndex certification).isSome = true)
    (h : revertWot block memory blockstamp expireCerts = .ok s) :
    Reverted block (expiring expireCerts) memory s.memory := by
  simp only [revertWot, bind_eq_ok_iff] at h
  obtain ⟨s₁, hexpired, s₂, hcertified, s₃, hrevoked, s₄, hexcluded, s₅, hactives, hjoiners⟩ := h
  obtain ⟨hcan, heq₁⟩ := revertExpiries_eq_ok hexpired
  change memory.wotDb.CanLinks (expiring expireCerts) at hcan
  replace heq₁ : s₁.memory =
      { memory with wotDb := memory.wotDb.withLinks (expiring expireCerts) } := heq₁
  have hindex₁ : s₁.memory.wotIndex = memory.wotIndex := by rw [heq₁]
  have hlinks₁ : ∀ source target, s₁.memory.wotDb.hasLink source target = true ↔
      memory.wotDb.hasLink source target = true ∨ (source, target) ∈ expiring expireCerts := by
    rw [heq₁]
    exact hasLink_withLinks hcan
  have hknown₁ : s₁.memory.wotDb.KnownSources := by
    rw [heq₁]
    exact hknown.withLinks hcan
  obtain ⟨hnodup, heq₂⟩ := revertCertifications_eq_ok hknown₁ (hindex₁ ▸ hpairs) hcertified
  rw [hindex₁] at hnodup heq₂
  obtain ⟨-, heq₃⟩ := (setsFlag_revertRevocation blockstamp).foldlM_eq_ok hrevoked
  obtain ⟨-, heq₄⟩ := (setsFlag_revertExclusion blockstamp).foldlM_eq_ok hexcluded
  obtain ⟨-, heq₅⟩ := (setsFlag_revertActive block).foldlM_eq_ok hactives
  simp only [List.filter_true, List.map_id] at heq₃ heq₄
  have hleft : Left block block.joiners.reverse s₅.memory s.memory := left_of_foldlM hjoiners
  have hindex₂ : s₂.memory.wotIndex = memory.wotIndex := by
    rw [heq₂, hindex₁]
  have hindex₃ : s₃.memory.wotIndex = memory.wotIndex := by
    rw [heq₃, flagKeys_wotIndex, hindex₂]
  have hindex₄ : s₄.memory.wotIndex = memory.wotIndex := by
    rw [heq₄, flagKeys_wotIndex, hindex₃]
  have hindex₅ : s₅.memory.wotIndex = memory.wotIndex := by
    rw [heq₅, flagKeys_wotIndex, hindex₄]
  have hlinks₅ : ∀ source target, s₅.memory.wotDb.hasLink source target = true ↔
      (memory.wotDb.hasLink source target = true ∨ (source, target) ∈ expiring expireCerts) ∧
        (source, target) ∉ certPairs memory.wotIndex block.certifications := by
    intro source target
    rw [heq₅, hasLink_flagKeys, heq₄, hasLink_flagKeys, heq₃, hasLink_flagKeys, heq₂, ← hlinks₁]
    exact hasLink_withoutLinks hknown₁ _ source target
  constructor
  case distinct => exact hnodup
  case index =>
    intro key
    rw [hleft.index, newKeys_reverse, hindex₅]
    simp only [List.mem_reverse]
  case size =>
    rw [hleft.size, newKeys_reverse, List.length_reverse, heq₅, flagKeys_size, heq₄, flagKeys_size,
      heq₃, flagKeys_size, heq₂, heq₁]
    refine congrArg (· - _) ((withoutLinks_size _).trans (withLinks_size _))
  case maxLinks =>
    rw [hleft.maxLinks, heq₅, flagKeys_maxLinks, heq₄, flagKeys_maxLinks, heq₃, flagKeys_maxLinks,
      heq₂, heq₁]
    exact (withoutLinks_maxLinks _).trans (withLinks_maxLinks _)
  case flags =>
    intro id hid
    have hflag : s₂.memory.wotDb.isEnabled id = memory.wotDb.isEnabled id := by
      rw [heq₂, heq₁]
      exact (isEnabled_withoutLinks _ _).trans (isEnabled_withLinks _ _)
    have hflag₃ := @isEnabled_flagKeys s₂.memory
      (block.revoked.map CompactRevocationDocument.issuer) false id
    have hflag₄ := @isEnabled_flagKeys s₃.memory block.excluded false id
    have hflag₅ := @isEnabled_flagKeys s₄.memory (renewedKeys block block.actives) true id
    rw [← heq₃, nodesOf_congr hindex₂] at hflag₃
    rw [← heq₄, nodesOf_congr hindex₃] at hflag₄
    rw [nodesOf_congr hindex₄] at hflag₅
    have hjoined := hleft.flags id hid
    rw [nodesOf_congr hindex₅, renewedKeys_reverse, nodesOf_reverse] at hjoined
    simp only [hjoined, heq₅.symm ▸ hflag₅, hflag₄, hflag₃, hflag, BlockDocument.dismissing,
      BlockDocument.renewing, nodesOf_append, List.mem_append, List.mem_reverse]
    by_cases hj : id ∈ memory.nodesOf (renewedKeys block block.joiners) <;>
      by_cases ha : id ∈ memory.nodesOf (renewedKeys block block.actives) <;>
      by_cases he : id ∈ memory.nodesOf block.excluded <;>
      by_cases hr : id ∈ memory.nodesOf (block.revoked.map CompactRevocationDocument.issuer) <;>
      simp [hj, ha, he, hr, Function.comp_def]
  case links =>
    intro source target
    rw [hleft.links, hlinks₅]
  case inv =>
    intro hinv hexpired hnew hends
    have hinv₁ : WotInv s₁.memory.wotDb := by
      rw [heq₁]
      exact hinv.withLinks hcan hexpired hnew
    have hinv₅ : WotInv s₅.memory.wotDb := by
      rw [heq₅, flagKeys, heq₄, flagKeys, heq₃, flagKeys, heq₂]
      exact (((hinv₁.withoutLinks _).withFlags _ _).withFlags _ _).withFlags _ _
    refine hleft.inv hinv₅ fun source target hlink => ?_
    exact hends source target ((hlinks₅ source target).1 hlink).1 ((hlinks₅ source target).1
      hlink).2

/-- The part of a block that concerns the web of trust can be reverted when its keys are known, its
links are all there and different, and the expired links can be added again. -/
theorem exists_revertWot (hknown : memory.wotDb.KnownSources)
    (hpairs : ∀ certification ∈ block.certifications,
      (certPair memory.wotIndex certification).isSome = true)
    (hcan : memory.wotDb.CanLinks (expiring expireCerts))
    (hnodup : (certPairs memory.wotIndex block.certifications).Nodup)
    (hlinked : ∀ pair ∈ certPairs memory.wotIndex block.certifications,
      memory.wotDb.hasLink pair.1 pair.2 = true ∨ pair ∈ expiring expireCerts)
    (hdismissed : ∀ key ∈ block.dismissing, memory.wotIndex.containsKey key = true)
    (hrenewers : ∀ ms ∈ block.joiners ++ block.actives, block.isRenewal ms = true →
      memory.wotIndex.containsKey ms.issuer = true) (blockstamp : Blockstamp) :
    ∃ s, revertWot block memory blockstamp expireCerts = .ok s := by
  obtain ⟨s₁, hexpired⟩ := @exists_revertExpiries ⟨memory, []⟩ expireCerts.iter hcan
  have heq₁ : s₁.memory =
      { memory with wotDb := memory.wotDb.withLinks (expiring expireCerts) } :=
    (revertExpiries_eq_ok hexpired).2
  have hindex₁ : s₁.memory.wotIndex = memory.wotIndex := by rw [heq₁]
  have hknown₁ : s₁.memory.wotDb.KnownSources := by
    rw [heq₁]
    exact hknown.withLinks hcan
  have hlinked₁ : ∀ pair ∈ certPairs s₁.memory.wotIndex block.certifications,
      s₁.memory.wotDb.hasLink pair.1 pair.2 = true := by
    rw [hindex₁, heq₁]
    exact fun pair hmem => (hasLink_withLinks hcan _ _).2 (hlinked pair hmem)
  obtain ⟨s₂, hcertified⟩ :=
    exists_revertCertifications hknown₁ (hindex₁ ▸ hpairs) (hindex₁ ▸ hnodup) hlinked₁
  have hindex₂ : s₂.memory.wotIndex = memory.wotIndex := by
    rw [(revertCertifications_eq_ok hknown₁ (hindex₁ ▸ hpairs) hcertified).2, hindex₁]
  obtain ⟨s₃, hrevoked⟩ := (setsFlag_revertRevocation blockstamp).exists_foldlM
    (s := s₂) (l := block.revoked) fun revocation hmem _ => hindex₂ ▸ hdismissed _
      (List.mem_append_right _ (List.mem_map_of_mem hmem))
  have hindex₃ : s₃.memory.wotIndex = memory.wotIndex := by
    rw [((setsFlag_revertRevocation blockstamp).foldlM_eq_ok hrevoked).2, flagKeys_wotIndex,
      hindex₂]
  obtain ⟨s₄, hexcluded⟩ := (setsFlag_revertExclusion blockstamp).exists_foldlM
    (s := s₃) (l := block.excluded) fun exclusion hmem _ => hindex₃ ▸ hdismissed _
      (List.mem_append_left _ hmem)
  have hindex₄ : s₄.memory.wotIndex = memory.wotIndex := by
    rw [((setsFlag_revertExclusion blockstamp).foldlM_eq_ok hexcluded).2, flagKeys_wotIndex,
      hindex₃]
  obtain ⟨s₅, hactives⟩ := (setsFlag_revertActive block).exists_foldlM
    (s := s₄) (l := block.actives) fun active hmem hkeep => hindex₄ ▸ hrenewers active
      (List.mem_append_right _ hmem) hkeep
  have hindex₅ : s₅.memory.wotIndex = memory.wotIndex := by
    rw [((setsFlag_revertActive block).foldlM_eq_ok hactives).2, flagKeys_wotIndex, hindex₄]
  obtain ⟨s₆, hjoiners⟩ : ∃ s₆, block.joiners.reverse.foldlM (revertJoiner block) s₅ = .ok s₆ :=
    exists_revertJoiners fun joiner hmem hkeep => hindex₅ ▸ hrenewers joiner
      (List.mem_append_left _ (List.mem_reverse.1 hmem)) hkeep
  refine ⟨s₆, ?_⟩
  simp only [revertWot, bind_eq_ok_iff]
  exact ⟨s₁, hexpired, s₂, hcertified, s₃, hrevoked, s₄, hexcluded, s₅, hactives, hjoiners⟩

end Durs
