/-
# Undoing a block in the web of trust

Applying a block and reverting it go through the same lists in opposite orders.  Each loop sets the
flags of some keys, adds or removes some links, or gives nodes to the newcomers and takes them away;
from what each loop leaves follows when the web of trust is the one before the block again.
-/

import Durs.Blockchain.RevertBlock
import Durs.Blockchain.WebUndo

namespace Durs

open RustStd

variable {ε α : Type} {block : BlockDocument} {memory memory' : WotMemory} {s s' : ApplyState}

/-! ## Loops that set flags -/

namespace WotMemory

/-- The nodes of some keys. -/
def nodesOf (memory : WotMemory) (keys : List PubKey) : List NodeId :=
  keys.filterMap memory.wotIndex.get?

/-- The graph with the flags of some keys set. -/
def flagKeys (memory : WotMemory) (keys : List PubKey) (enabled : Bool) : WotMemory :=
  { memory with wotDb := memory.wotDb.withFlags (memory.nodesOf keys) enabled }

theorem mem_nodesOf {keys : List PubKey} {id : NodeId} :
    id ∈ memory.nodesOf keys ↔ ∃ key ∈ keys, memory.wotIndex.get? key = some id :=
  List.mem_filterMap

theorem nodesOf_append (keys keys' : List PubKey) :
    memory.nodesOf (keys ++ keys') = memory.nodesOf keys ++ memory.nodesOf keys' :=
  List.filterMap_append

theorem nodesOf_reverse (keys : List PubKey) :
    memory.nodesOf keys.reverse = (memory.nodesOf keys).reverse :=
  List.filterMap_reverse

theorem nodesOf_congr (h : memory'.wotIndex = memory.wotIndex) (keys : List PubKey) :
    memory'.nodesOf keys = memory.nodesOf keys := by
  rw [nodesOf, nodesOf, h]

@[simp]
theorem flagKeys_wotIndex (keys : List PubKey) (enabled : Bool) :
    (memory.flagKeys keys enabled).wotIndex = memory.wotIndex := rfl

@[simp]
theorem flagKeys_size (keys : List PubKey) (enabled : Bool) :
    (memory.flagKeys keys enabled).wotDb.size = memory.wotDb.size :=
  WebOfTrust.withFlags_size ..

@[simp]
theorem flagKeys_maxLinks (keys : List PubKey) (enabled : Bool) :
    (memory.flagKeys keys enabled).wotDb.maxLinks = memory.wotDb.maxLinks :=
  WebOfTrust.withFlags_maxLinks ..

@[simp]
theorem hasLink_flagKeys (keys : List PubKey) (enabled : Bool) (source target : NodeId) :
    (memory.flagKeys keys enabled).wotDb.hasLink source target =
      memory.wotDb.hasLink source target :=
  WebOfTrust.hasLink_withFlags ..

theorem isEnabled_flagKeys (keys : List PubKey) (enabled : Bool) (id : NodeId) :
    (memory.flagKeys keys enabled).wotDb.isEnabled id =
      if id ∈ memory.nodesOf keys then (memory.wotDb.isEnabled id).map fun _ => enabled
      else memory.wotDb.isEnabled id :=
  WebOfTrust.isEnabled_withFlags ..

end WotMemory

/-- A step of a loop over the keys that are kept, which sets the flag of the node of a key and stops
where there is none. -/
structure SetsFlag (step : ApplyState → α → Except ε ApplyState) (key : α → PubKey)
    (keep : α → Bool) (enabled : Bool) : Prop where
  skip : ∀ s a, keep a = false → step s a = .ok s
  known : ∀ s a id, keep a = true → s.memory.wotIndex.get? (key a) = some id →
    ∃ requests, step s a =
      .ok ⟨{ s.memory with wotDb := s.memory.wotDb.setEnabled id enabled }, requests⟩
  unknown : ∀ s a, keep a = true → s.memory.wotIndex.get? (key a) = none →
    ∃ e, step s a = .error e

namespace SetsFlag

variable {step : ApplyState → α → Except ε ApplyState} {key : α → PubKey} {keep : α → Bool}
  {enabled : Bool}

/-- The loop sets the flags of the keys that are kept, which all have a node. -/
theorem foldlM_eq_ok (h : SetsFlag step key keep enabled) {l : List α}
    (hrun : l.foldlM step s = .ok s') :
    (∀ a ∈ l, keep a = true → s.memory.wotIndex.containsKey (key a) = true) ∧
      s'.memory = s.memory.flagKeys ((l.filter keep).map key) enabled := by
  induction l generalizing s with
  | nil => exact ⟨List.forall_mem_nil _, (congrArg _ (Except.ok.inj hrun)).symm⟩
  | cons a l ih =>
      rw [List.foldlM_cons, bind_eq_ok_iff] at hrun
      obtain ⟨mid, hstep, hrun⟩ := hrun
      cases hkeep : keep a with
      | false =>
          obtain rfl := Except.ok.inj ((h.skip s a hkeep).symm.trans hstep)
          rw [List.filter_cons_of_neg (Bool.eq_false_iff.1 hkeep)]
          refine ⟨List.forall_mem_cons.2 ⟨fun hkept => ?_, (ih hrun).1⟩, (ih hrun).2⟩
          cases hkeep.symm.trans hkept
      | true =>
          cases hget : s.memory.wotIndex.get? (key a) with
          | none =>
              obtain ⟨e, herror⟩ := h.unknown s a hkeep hget
              cases hstep.symm.trans herror
          | some id =>
              obtain ⟨requests, hset⟩ := h.known s a id hkeep hget
              obtain rfl := Except.ok.inj (hstep.symm.trans hset)
              obtain ⟨hknown, hmemory⟩ := ih hrun
              refine ⟨List.forall_mem_cons.2 ⟨fun _ => ?_, hknown⟩, hmemory.trans ?_⟩
              · exact (HashMap.containsKey_iff _ _).2 ⟨id, hget⟩
              · rw [List.filter_cons_of_pos hkeep, List.map_cons, WotMemory.flagKeys,
                  WotMemory.flagKeys, WotMemory.nodesOf, WotMemory.nodesOf,
                  List.filterMap_cons_some hget]
                rfl

/-- The loop returns when the keys that are kept have a node. -/
theorem exists_foldlM (h : SetsFlag step key keep enabled) {l : List α}
    (hknown : ∀ a ∈ l, keep a = true → s.memory.wotIndex.containsKey (key a) = true) :
    ∃ s', l.foldlM step s = .ok s' := by
  induction l generalizing s with
  | nil => exact ⟨s, rfl⟩
  | cons a l ih =>
      obtain ⟨hfirst, hrest⟩ := List.forall_mem_cons.1 hknown
      rw [List.foldlM_cons]
      cases hkeep : keep a with
      | false =>
          rw [h.skip s a hkeep, ok_bind]
          exact ih hrest
      | true =>
          obtain ⟨id, hget⟩ := (HashMap.containsKey_iff _ _).1 (hfirst hkeep)
          obtain ⟨requests, hset⟩ := h.known s a id hkeep hget
          rw [hset, ok_bind]
          exact ih hrest

end SetsFlag

/-! ### The loops of a block -/

variable (block) (blockstamp : Blockstamp)

/-- A membership of a key that is no new identity. -/
def BlockDocument.isRenewal (ms : MembershipDocument) : Bool :=
  !block.newIdentities.containsKey ms.issuer

theorem setsFlag_applyActive :
    SetsFlag (applyActive block) MembershipDocument.issuer block.isRenewal true where
  skip s active hkeep := by
    rw [BlockDocument.isRenewal, Bool.not_eq_false'] at hkeep
    rw [applyActive, if_pos hkeep]
    rfl
  known s active id hkeep hget := by
    rw [BlockDocument.isRenewal, Bool.not_eq_true'] at hkeep
    rw [applyActive, if_neg (Bool.eq_false_iff.1 hkeep), ApplyState.index_of_get? hget, ok_bind]
    exact ⟨_, rfl⟩
  unknown s active hkeep hget := by
    rw [BlockDocument.isRenewal, Bool.not_eq_true'] at hkeep
    rw [applyActive, if_neg (Bool.eq_false_iff.1 hkeep), ApplyState.index, hget]
    exact ⟨_, rfl⟩

theorem setsFlag_applyExclusion :
    SetsFlag (applyExclusion blockstamp) id (fun _ => true) false where
  skip s exclusion hkeep := by cases hkeep
  known s exclusion wotId _ hget := by
    change s.memory.wotIndex.get? exclusion = _ at hget
    rw [applyExclusion, hget]
    exact ⟨_, rfl⟩
  unknown s exclusion _ hget := by
    change s.memory.wotIndex.get? exclusion = _ at hget
    rw [applyExclusion, hget]
    exact ⟨_, rfl⟩

theorem setsFlag_applyRevocation :
    SetsFlag (applyRevocation blockstamp) CompactRevocationDocument.issuer (fun _ => true) false
      where
  skip s revocation hkeep := by cases hkeep
  known s revocation wotId _ hget := by
    rw [applyRevocation, hget]
    exact ⟨_, rfl⟩
  unknown s revocation _ hget := by
    rw [applyRevocation, hget]
    exact ⟨_, rfl⟩

theorem setsFlag_revertRevocation :
    SetsFlag (revertRevocation blockstamp) CompactRevocationDocument.issuer (fun _ => true)
      false where
  skip s revocation hkeep := by cases hkeep
  known s revocation wotId _ hget := by
    rw [revertRevocation, hget]
    exact ⟨_, rfl⟩
  unknown s revocation _ hget := by
    rw [revertRevocation, hget]
    exact ⟨_, rfl⟩

theorem setsFlag_revertExclusion :
    SetsFlag (revertExclusion blockstamp) id (fun _ => true) false where
  skip s exclusion hkeep := by cases hkeep
  known s exclusion wotId _ hget := by
    change s.memory.wotIndex.get? exclusion = _ at hget
    rw [revertExclusion, hget]
    exact ⟨_, rfl⟩
  unknown s exclusion _ hget := by
    change s.memory.wotIndex.get? exclusion = _ at hget
    rw [revertExclusion, hget]
    exact ⟨_, rfl⟩

theorem setsFlag_revertActive :
    SetsFlag (revertActive block) MembershipDocument.issuer block.isRenewal true where
  skip s active hkeep := by
    rw [BlockDocument.isRenewal, Bool.not_eq_false'] at hkeep
    rw [revertActive, if_pos hkeep]
    rfl
  known s active id hkeep hget := by
    rw [BlockDocument.isRenewal, Bool.not_eq_true'] at hkeep
    rw [revertActive, if_neg (Bool.eq_false_iff.1 hkeep), WotMemory.index, hget]
    exact ⟨_, rfl⟩
  unknown s active hkeep hget := by
    rw [BlockDocument.isRenewal, Bool.not_eq_true'] at hkeep
    rw [revertActive, if_neg (Bool.eq_false_iff.1 hkeep), WotMemory.index, hget]
    exact ⟨_, rfl⟩

variable {block}

/-! ## Certifications -/

/-- The nodes of the keys of a certification. -/
def certPair (wotIndex : HashMap PubKey NodeId) (certification : CompactCertificationDocument) :
    Option (NodeId × NodeId) :=
  (wotIndex.get? certification.issuer).bind fun source =>
    (wotIndex.get? certification.target).map fun target => (source, target)

/-- The nodes of the keys of some certifications. -/
def certPairs (wotIndex : HashMap PubKey NodeId)
    (certifications : List CompactCertificationDocument) : List (NodeId × NodeId) :=
  certifications.filterMap (certPair wotIndex)

/-- The certifications of a block link the nodes of their keys, one after the other. -/
theorem applyCertifications_eq_ok {certifications : List CompactCertificationDocument}
    (hrun : certifications.foldlM (applyCertification block) s = .ok s') :
    (∀ certification ∈ certifications,
      (certPair s.memory.wotIndex certification).isSome = true) ∧
    s.memory.wotDb.CanLinks (certPairs s.memory.wotIndex certifications) ∧
    s'.memory = { s.memory with
      wotDb := s.memory.wotDb.withLinks (certPairs s.memory.wotIndex certifications) } := by
  induction certifications generalizing s with
  | nil => exact ⟨List.forall_mem_nil _, trivial, (congrArg _ (Except.ok.inj hrun)).symm⟩
  | cons certification certifications ih =>
      rw [List.foldlM_cons, bind_eq_ok_iff] at hrun
      obtain ⟨mid, hmid, hrun⟩ := hrun
      obtain ⟨source, target, hsource, htarget, hcan, rfl⟩ := applyCertification_eq_ok hmid
      have hpair : certPair s.memory.wotIndex certification = some (source, target) := by
        rw [certPair, hsource, htarget]
        rfl
      obtain ⟨hknown, hrest, hmemory⟩ := ih hrun
      rw [certPairs, List.filterMap_cons_some hpair]
      refine ⟨List.forall_mem_cons.2 ⟨?_, hknown⟩, ⟨hcan, hrest⟩, hmemory⟩
      rw [hpair]
      rfl

/-- A link that is there can be removed, and no other. -/
theorem remLink_eq (hknown : memory.wotDb.KnownSources) (source target : NodeId) :
    (memory.wotDb.hasLink source target = true ∧
      ∃ count, (memory.wotDb.remLink source target).2 = .removed count) ∨
    (memory.wotDb.hasLink source target = false ∧
      ∀ count, (memory.wotDb.remLink source target).2 ≠ .removed count) := by
  cases hlink : memory.wotDb.hasLink source target with
  | true =>
      obtain ⟨node, hnode, -⟩ := WebOfTrust.hasLink_iff.1 hlink
      refine .inl ⟨rfl, ?_⟩
      rw [WebOfTrust.remLink, if_neg (Nat.not_le.2 (hknown _ _ hlink)),
        if_neg (Nat.not_le.2 (WebOfTrust.lt_size hnode)), if_neg (by rw [hlink]; decide)]
      exact ⟨_, rfl⟩
  | false =>
      refine .inr ⟨rfl, fun count hremoved => ?_⟩
      rw [WebOfTrust.remLink, if_pos hlink] at hremoved
      split at hremoved
      case isTrue => cases hremoved
      case isFalse =>
        split at hremoved
        case isTrue => cases hremoved
        case isFalse => cases hremoved

/-- Reverting a certification removes the link of its keys, which has to be there. -/
theorem revertCertification_cases (hknown : s.memory.wotDb.KnownSources)
    {certification : CompactCertificationDocument} {source target : NodeId}
    (hpair : certPair s.memory.wotIndex certification = some (source, target)) :
    (s.memory.wotDb.hasLink source target = true ∧ ∃ requests,
      revertCertification s certification = .ok ⟨{ s.memory with
        wotDb := (s.memory.wotDb.remLink source target).1 }, requests⟩) ∨
    (s.memory.wotDb.hasLink source target = false ∧
      ∃ e, revertCertification s certification = .error e) := by
  obtain ⟨source', hsource, hpair⟩ := Option.bind_eq_some_iff.1 hpair
  obtain ⟨target', htarget, hpair⟩ := Option.map_eq_some_iff.1 hpair
  obtain ⟨rfl, rfl⟩ := Prod.mk.inj hpair
  rw [revertCertification, WotMemory.index, WotMemory.index, hsource, htarget, expect_some,
    expect_some, ok_bind, ok_bind]
  have hcases := remLink_eq hknown source' target'
  cases hrem : s.memory.wotDb.remLink source' target' with
  | mk wotDb result =>
      rw [hrem] at hcases
      rcases hcases with ⟨hlink, count, hremoved⟩ | ⟨hlink, hnot⟩
      · obtain rfl : result = .removed count := hremoved
        exact .inl ⟨hlink, _, rfl⟩
      · refine .inr ⟨hlink, ?_⟩
        cases result with
        | removed count => exact absurd rfl (hnot count)
        | unknownCert count => exact ⟨_, rfl⟩
        | unknownSource => exact ⟨_, rfl⟩
        | unknownTarget => exact ⟨_, rfl⟩

/-- Reverting certifications removes the links of their keys, which were all there and are all
different. -/
theorem revertCertifications_eq_ok (hknown : s.memory.wotDb.KnownSources)
    {certifications : List CompactCertificationDocument}
    (hpairs : ∀ certification ∈ certifications,
      (certPair s.memory.wotIndex certification).isSome = true)
    (hrun : certifications.foldlM revertCertification s = .ok s') :
    (certPairs s.memory.wotIndex certifications).Nodup ∧
    s'.memory = { s.memory with
      wotDb := s.memory.wotDb.withoutLinks (certPairs s.memory.wotIndex certifications) } := by
  have hall : (certPairs s.memory.wotIndex certifications).Nodup ∧
      (∀ pair ∈ certPairs s.memory.wotIndex certifications,
        s.memory.wotDb.hasLink pair.1 pair.2 = true) ∧
      s'.memory = { s.memory with
        wotDb := s.memory.wotDb.withoutLinks (certPairs s.memory.wotIndex certifications) } := by
    induction certifications generalizing s with
    | nil =>
        exact ⟨List.nodup_nil, List.forall_mem_nil _, (congrArg _ (Except.ok.inj hrun)).symm⟩
    | cons certification certifications ih =>
        obtain ⟨hsome, hpairs⟩ := List.forall_mem_cons.1 hpairs
        obtain ⟨⟨source, target⟩, hpair⟩ := Option.isSome_iff_exists.1 hsome
        rw [List.foldlM_cons, bind_eq_ok_iff] at hrun
        obtain ⟨mid, hmid, hrun⟩ := hrun
        rcases revertCertification_cases hknown hpair with
          ⟨hlink, requests, hremoved⟩ | ⟨-, e, herror⟩
        case inr => cases hmid.symm.trans herror
        obtain rfl := Except.ok.inj (hmid.symm.trans hremoved)
        obtain ⟨hnodup, hlinks, hmemory⟩ := ih (s := ⟨{ s.memory with
          wotDb := (s.memory.wotDb.remLink source target).1 }, requests⟩)
          (hknown.remLink source target) hpairs hrun
        have hmore : ∀ pair ∈ certPairs s.memory.wotIndex certifications,
            s.memory.wotDb.hasLink pair.1 pair.2 = true ∧ pair ≠ (source, target) :=
          fun pair hmem => (WebOfTrust.hasLink_remLink hknown ..).1 (hlinks pair hmem)
        rw [certPairs, List.filterMap_cons_some hpair]
        refine ⟨List.nodup_cons.2 ⟨fun hmem => (hmore _ hmem).2 rfl, hnodup⟩,
          List.forall_mem_cons.2 ⟨hlink, fun pair hmem => (hmore pair hmem).1⟩, hmemory⟩
  exact ⟨hall.1, hall.2.2⟩

/-- Certifications can be reverted when their links are all there and all different. -/
theorem exists_revertCertifications (hknown : s.memory.wotDb.KnownSources)
    {certifications : List CompactCertificationDocument}
    (hpairs : ∀ certification ∈ certifications,
      (certPair s.memory.wotIndex certification).isSome = true)
    (hnodup : (certPairs s.memory.wotIndex certifications).Nodup)
    (hlinks : ∀ pair ∈ certPairs s.memory.wotIndex certifications,
      s.memory.wotDb.hasLink pair.1 pair.2 = true) :
    ∃ s', certifications.foldlM revertCertification s = .ok s' := by
  induction certifications generalizing s with
  | nil => exact ⟨s, rfl⟩
  | cons certification certifications ih =>
      obtain ⟨hsome, hpairs⟩ := List.forall_mem_cons.1 hpairs
      obtain ⟨⟨source, target⟩, hpair⟩ := Option.isSome_iff_exists.1 hsome
      rw [certPairs, List.filterMap_cons_some hpair] at hnodup hlinks
      obtain ⟨hnot, hnodup⟩ := List.nodup_cons.1 hnodup
      obtain ⟨hlink, hlinks⟩ := List.forall_mem_cons.1 hlinks
      rcases revertCertification_cases hknown hpair with
        ⟨-, requests, hremoved⟩ | ⟨hnone, -⟩
      case inr => cases hlink.symm.trans hnone
      rw [List.foldlM_cons, hremoved, ok_bind]
      refine ih (hknown.remLink source target) hpairs hnodup fun pair hmem => ?_
      refine (WebOfTrust.hasLink_remLink hknown ..).2 ⟨hlinks pair hmem, fun heq => hnot ?_⟩
      exact (show pair = (source, target) from heq) ▸ hmem

/-! ## Expired certifications -/

/-- Reverting an expiry adds the link again, which has to be possible. -/
theorem revertExpiry_cases (expireCert : (NodeId × NodeId) × BlockNumber) :
    (s.memory.wotDb.CanLink expireCert.1.1 expireCert.1.2 ∧ ∃ requests,
      revertExpiry s expireCert = .ok ⟨{ s.memory with
        wotDb := s.memory.wotDb.withLink expireCert.1.1 expireCert.1.2 }, requests⟩) ∨
    (¬ s.memory.wotDb.CanLink expireCert.1.1 expireCert.1.2 ∧
      ∃ e, revertExpiry s expireCert = .error e) := by
  obtain ⟨⟨source, target⟩, createdBlockId⟩ := expireCert
  rw [revertExpiry]
  by_cases hcan : s.memory.wotDb.CanLink source target
  · obtain ⟨count, hcount⟩ := WebOfTrust.addLink_snd_of_canLink hcan
    have hadd : s.memory.wotDb.addLink source target =
        (s.memory.wotDb.withLink source target, .ok count) :=
      Prod.ext (WebOfTrust.addLink_of_canLink hcan) hcount
    rw [hadd]
    exact .inl ⟨hcan, _, rfl⟩
  · have hnot := WebOfTrust.addLink_snd_of_not_canLink hcan
    refine .inr ⟨hcan, ?_⟩
    cases hadd : s.memory.wotDb.addLink source target with
    | mk wotDb result =>
        rw [hadd] at hnot
        cases result with
        | ok count => exact absurd rfl (hnot count)
        | allCertificationsUsed count => exact ⟨_, rfl⟩
        | unknownSource => exact ⟨_, rfl⟩
        | unknownTarget => exact ⟨_, rfl⟩
        | selfLinkingForbidden => exact ⟨_, rfl⟩

/-- Reverting expiries adds the links again, one after the other. -/
theorem revertExpiries_eq_ok {expireCerts : List ((NodeId × NodeId) × BlockNumber)}
    (hrun : expireCerts.foldlM revertExpiry s = .ok s') :
    s.memory.wotDb.CanLinks (expireCerts.map Prod.fst) ∧
    s'.memory = { s.memory with
      wotDb := s.memory.wotDb.withLinks (expireCerts.map Prod.fst) } := by
  induction expireCerts generalizing s with
  | nil => exact ⟨trivial, (congrArg _ (Except.ok.inj hrun)).symm⟩
  | cons expireCert expireCerts ih =>
      rw [List.foldlM_cons, bind_eq_ok_iff] at hrun
      obtain ⟨mid, hmid, hrun⟩ := hrun
      rcases revertExpiry_cases expireCert with ⟨hcan, requests, hadded⟩ | ⟨-, e, herror⟩
      case inr => cases hmid.symm.trans herror
      obtain rfl := Except.ok.inj (hmid.symm.trans hadded)
      exact ⟨⟨hcan, (ih hrun).1⟩, (ih hrun).2⟩

/-- Expiries can be reverted when the links can be added again. -/
theorem exists_revertExpiries {expireCerts : List ((NodeId × NodeId) × BlockNumber)}
    (hcan : s.memory.wotDb.CanLinks (expireCerts.map Prod.fst)) :
    ∃ s', expireCerts.foldlM revertExpiry s = .ok s' := by
  induction expireCerts generalizing s with
  | nil => exact ⟨s, rfl⟩
  | cons expireCert expireCerts ih =>
      rcases revertExpiry_cases expireCert with ⟨-, requests, hadded⟩ | ⟨hnot, -⟩
      case inr => exact absurd hcan.1 hnot
      rw [List.foldlM_cons, hadded, ok_bind]
      exact ih hcan.2

end Durs
