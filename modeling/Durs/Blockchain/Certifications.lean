/-
# Links and recorded certifications

The web of trust holds a set of links, and the databases record each certification under the block
that emitted it.  The two agree as long as the blocks in which certifications expire take away all
the records of what they unlink.
-/

import Durs.Blockchain.BlockRuns
import Durs.Blockchain.LocalChainRuns

namespace Durs

open RustStd Lib WotMemory Relation

/-! ## Records of certifications -/

/-- A certification is recorded under a block. -/
def RecordedAt (certsDb : CertsDb) (cert : NodeId × NodeId) (b : BlockNumber) : Prop :=
  cert ∈ (certsDb.get? b).getD ∅

instance (certsDb : CertsDb) (cert : NodeId × NodeId) (b : BlockNumber) :
    Decidable (RecordedAt certsDb cert b) :=
  inferInstanceAs (Decidable (cert ∈ (certsDb.get? b).getD ∅))

theorem not_recordedAt_empty (cert : NodeId × NodeId) (b : BlockNumber) :
    ¬ RecordedAt ∅ cert b := HashSet.not_mem_empty cert

theorem recordedAt_insertCert {certsDb : CertsDb} {source target : NodeId}
    {createdBlockId : BlockNumber} (cert : NodeId × NodeId) (b : BlockNumber) :
    RecordedAt (insertCert certsDb source target createdBlockId) cert b ↔
      RecordedAt certsDb cert b ∨ cert = (source, target) ∧ b = createdBlockId := by
  rw [RecordedAt, insertCert, HashMap.get?_insert]
  by_cases hb : b = createdBlockId
  · subst hb
    rw [if_pos rfl, Option.getD_some, HashSet.mem_insert, or_comm]
    exact or_congr Iff.rfl (and_iff_left rfl).symm
  · rw [if_neg hb]
    exact (or_iff_left fun h => hb h.2).symm

theorem recordedAt_remove {certsDb : CertsDb} {createdBlockId : BlockNumber}
    (cert : NodeId × NodeId) (b : BlockNumber) :
    RecordedAt (certsDb.remove createdBlockId) cert b ↔
      RecordedAt certsDb cert b ∧ b ≠ createdBlockId := by
  rw [RecordedAt, HashMap.get?_remove]
  by_cases hb : b = createdBlockId
  · rw [if_pos hb]
    exact iff_of_false (HashSet.not_mem_empty cert) fun h => h.2 hb
  · rw [if_neg hb]
    exact (and_iff_left hb).symm

/-- Of the blocks that recorded a certification, the last one is found. -/
theorem findExpireCerts_append (certsDb : CertsDb) (blocks : List BlockNumber) (b : BlockNumber)
    (cert : NodeId × NodeId) : (findExpireCerts certsDb (blocks ++ [b])).get? cert =
      if RecordedAt certsDb cert b then some b else (findExpireCerts certsDb blocks).get? cert := by
  rw [findExpireCerts, List.foldl_append, List.foldl_cons, List.foldl_nil]
  cases hget : certsDb.get? b with
  | none =>
      rw [if_neg]
      · rfl
      · rw [RecordedAt, hget]
        exact HashSet.not_mem_empty cert
  | some expireCerts =>
      have hmap := HashMap.get?_insertAll_map (findExpireCerts certsDb blocks) (fun _ => b)
        expireCerts.iter cert
      rw [HashMap.insertAll, List.foldl_map] at hmap
      have hrecorded : RecordedAt certsDb cert b ↔ cert ∈ expireCerts.iter := by
        rw [RecordedAt, hget]
        rfl
      by_cases hmem : cert ∈ expireCerts.iter
      · exact (hmap.trans (if_pos hmem)).trans (if_pos (hrecorded.2 hmem)).symm
      · exact (hmap.trans (if_neg hmem)).trans (if_neg fun h => hmem (hrecorded.1 h)).symm

/-- The certifications that were emitted in expiring blocks are found, each with one of the blocks
that recorded it. -/
theorem findExpireCerts_cases (certsDb : CertsDb) (blocksExpiring : List BlockNumber)
    (cert : NodeId × NodeId) :
    (∃ b ∈ blocksExpiring, RecordedAt certsDb cert b ∧
      (findExpireCerts certsDb blocksExpiring).get? cert = some b) ∨
    (∀ b ∈ blocksExpiring, ¬ RecordedAt certsDb cert b) ∧
      (findExpireCerts certsDb blocksExpiring).get? cert = none := by
  induction blocksExpiring using List.reverseRecOn with
  | nil => exact .inr ⟨List.forall_mem_nil _, rfl⟩
  | append_singleton blocks b ih =>
      rw [findExpireCerts_append]
      by_cases hrecorded : RecordedAt certsDb cert b
      · rw [if_pos hrecorded]
        exact .inl ⟨b, List.mem_append_right _ (List.mem_singleton_self b), hrecorded, rfl⟩
      · rw [if_neg hrecorded]
        rcases ih with ⟨b', hmem, hrecorded', hget⟩ | ⟨hnone, hget⟩
        · exact .inl ⟨b', List.mem_append_left _ hmem, hrecorded', hget⟩
        · refine .inr ⟨fun b' hmem => ?_, hget⟩
          rcases List.mem_append.1 hmem with hmem | hmem
          · exact hnone b' hmem
          · exact List.mem_singleton.1 hmem ▸ hrecorded

/-! ## Links -/

namespace WebOfTrust

/-- Every link is from a node of the web. -/
def KnownSources (wot : WebOfTrust) : Prop :=
  ∀ source target, wot.hasLink source target = true → source < wot.size

variable {wot : WebOfTrust}

/-- The links of the web without one of them. -/
theorem hasLink_remLink (hknown : wot.KnownSources) (source target source' target' : NodeId) :
    (wot.remLink source target).1.hasLink source' target' = true ↔
      wot.hasLink source' target' = true ∧ (source', target') ≠ (source, target) := by
  by_cases hlink : wot.hasLink source target = true
  · rcases hasLink_iff.1 hlink with ⟨node, hnode, hmem⟩
    have hremoved : (wot.remLink source target).1 =
        (wot.modifyNode source fun node =>
          { node with issuedCount := decrementCount node.issuedCount }).modifyNode target fun node =>
            { node with linksSource := node.linksSource.remove source } := by
      rw [remLink, if_neg (Nat.not_le.2 (hknown _ _ hlink)), if_neg (Nat.not_le.2 (lt_size hnode)),
        if_neg (by rw [hlink]; decide)]
    rw [hremoved, hasLink_iff, hasLink_iff]
    simp only [modifyNode_getElem?, Option.map_map, Option.map_eq_some_iff, Function.comp_apply]
    constructor
    · rintro ⟨_, ⟨old, hold, rfl⟩, hmem'⟩
      by_cases ht : target = target'
      · by_cases hs : source = target'
        · simp only [if_pos ht, if_pos hs, HashSet.mem_remove] at hmem'
          exact ⟨⟨old, hold, hmem'.2⟩, fun h => hmem'.1 (Prod.mk.inj h).1⟩
        · simp only [if_pos ht, if_neg hs, HashSet.mem_remove] at hmem'
          exact ⟨⟨old, hold, hmem'.2⟩, fun h => hmem'.1 (Prod.mk.inj h).1⟩
      · refine ⟨⟨old, hold, ?_⟩, fun h => ht (Prod.mk.inj h).2.symm⟩
        by_cases hs : source = target'
        · simpa only [if_neg ht, if_pos hs] using hmem'
        · simpa only [if_neg ht, if_neg hs] using hmem'
    · rintro ⟨⟨old, hold, hmem'⟩, hne⟩
      refine ⟨_, ⟨old, hold, rfl⟩, ?_⟩
      by_cases ht : target = target'
      · have hs' : source' ≠ source := fun h => hne (Prod.ext h ht.symm)
        by_cases hs : source = target'
        · simpa only [if_pos ht, if_pos hs, HashSet.mem_remove] using ⟨hs', hmem'⟩
        · simpa only [if_pos ht, if_neg hs, HashSet.mem_remove] using ⟨hs', hmem'⟩
      · by_cases hs : source = target'
        · simpa only [if_neg ht, if_pos hs] using hmem'
        · simpa only [if_neg ht, if_neg hs] using hmem'
  · have hunchanged : (wot.remLink source target).1 = wot := by
      rcases remLink_cases wot source target with heq | ⟨-, hremoved, -⟩
      · exact heq
      · exact absurd (hasLink_iff.2 hremoved) hlink
    rw [hunchanged]
    refine ⟨fun h => ⟨h, fun heq => hlink ?_⟩, fun h => h.1⟩
    rcases Prod.mk.inj heq with ⟨rfl, rfl⟩
    exact h

theorem size_remLink (source target : NodeId) :
    (wot.remLink source target).1.size = wot.size := by
  rcases remLink_cases wot source target with heq | ⟨-, -, hremoved⟩
  · rw [heq]
  · rw [hremoved, modifyNode_size, modifyNode_size]

/-- The links of the web without some of them. -/
theorem hasLink_foldl_remLink (hknown : wot.KnownSources)
    (entries : List ((NodeId × NodeId) × BlockNumber)) :
    (entries.foldl (fun wot entry => (wot.remLink entry.1.1 entry.1.2).1) wot).KnownSources ∧
      ∀ source target,
        (entries.foldl (fun wot entry => (wot.remLink entry.1.1 entry.1.2).1) wot).hasLink source
          target = true ↔
          wot.hasLink source target = true ∧ ∀ b, ((source, target), b) ∉ entries := by
  induction entries generalizing wot with
  | nil => exact ⟨hknown, fun source target => (and_iff_left fun _ => List.not_mem_nil).symm⟩
  | cons entry entries ih =>
      rcases entry with ⟨⟨s, t⟩, b⟩
      have hrest : (wot.remLink s t).1.KnownSources := by
        intro source target hlink
        rw [size_remLink]
        exact hknown source target ((hasLink_remLink hknown s t source target).1 hlink).1
      refine ⟨(ih hrest).1, fun source target => ((ih hrest).2 source target).trans ?_⟩
      rw [hasLink_remLink hknown, and_assoc]
      refine and_congr_right fun _ => ?_
      constructor
      · rintro ⟨hne, hnot⟩ b' hmem
        rcases List.mem_cons.1 hmem with heq | hmem
        · exact hne (Prod.mk.inj heq).1
        · exact hnot b' hmem
      · intro hnot
        exact ⟨fun heq => hnot b (heq ▸ List.mem_cons_self),
          fun b' hmem => hnot b' (List.mem_cons_of_mem _ hmem)⟩

end WebOfTrust

/-! ## Certifications of a block -/

/-- The certification that a request creates, with the block that emitted it. -/
def WotsDBsWriteQuery.created : WotsDBsWriteQuery → Option ((NodeId × NodeId) × BlockNumber)
  | .createCert _ source target createdBlockId _ => some ((source, target), createdBlockId)
  | _ => none

/-- The certifications that a block creates: those whose keys have a node once the newcomers have
theirs. -/
def BlockDocument.certified (block : BlockDocument) (memory : WotMemory) :
    List ((NodeId × NodeId) × BlockNumber) :=
  let wotIndex := (memory.withNewcomers block).wotIndex
  block.certifications.filterMap fun certification =>
    match wotIndex.get? certification.issuer, wotIndex.get? certification.target with
    | some source, some target => some ((source, target), certification.blockNumber)
    | _, _ => none

/-- While a block is applied, the links are those before it and those of the certifications in the
requests, which the databases will record. -/
structure Collected (memory : WotMemory) (s : ApplyState)
    (created : List ((NodeId × NodeId) × BlockNumber)) : Prop where
  known : s.memory.wotDb.KnownSources
  links : ∀ source target, s.memory.wotDb.hasLink source target = true ↔
    memory.wotDb.hasLink source target = true ∨ ∃ b, ((source, target), b) ∈ created
  records : ∀ certsDb cert b,
    RecordedAt (s.requests.foldl WotsDBsWriteQuery.certsAfter certsDb) cert b ↔
      RecordedAt certsDb cert b ∨ (cert, b) ∈ created

namespace Collected

variable {block : BlockDocument} {memory : WotMemory} {s s' : ApplyState}
  {created : List ((NodeId × NodeId) × BlockNumber)}

theorem nil (hknown : memory.wotDb.KnownSources) : Collected memory ⟨memory, []⟩ [] where
  known := hknown
  links _ _ := (or_iff_left fun ⟨_, h⟩ => List.not_mem_nil h).symm
  records _ _ _ := (or_iff_left List.not_mem_nil).symm

/-- A new node has no link. -/
theorem hasLink_addNode (wot : WebOfTrust) (source target : NodeId) :
    wot.addNode.hasLink source target = wot.hasLink source target := by
  rw [WebOfTrust.hasLink, WebOfTrust.hasLink, WebOfTrust.addNode]
  by_cases ht : target < wot.nodes.length
  · rw [List.getElem?_append_left ht]
  · have hnone : wot.nodes[target]? = none := List.getElem?_eq_none (Nat.not_lt.1 ht)
    rw [hnone, List.getElem?_append_right (Nat.not_lt.1 ht)]
    cases target - wot.nodes.length with
    | zero => rfl
    | succ n => rfl

theorem hasLink_setEnabled (wot : WebOfTrust) (id : NodeId) (enabled : Bool)
    (source target : NodeId) :
    (wot.setEnabled id enabled).hasLink source target = wot.hasLink source target := by
  rw [WebOfTrust.hasLink, WebOfTrust.hasLink, WebOfTrust.setEnabled,
    WebOfTrust.modifyNode_getElem?]
  cases wot.nodes[target]? with
  | none => rfl
  | some node => by_cases h : id = target <;> simp [h]

/-- The steps of the members neither change the links nor record a certification. -/
theorem member (h : Collected memory s created) (hstep : MemberStep block s s') :
    Collected memory s' created := by
  have hrequests : ∀ request : WotsDBsWriteQuery, (∀ certsDb, request.certsAfter certsDb = certsDb) →
      ∀ certsDb, (s.requests ++ [request]).foldl WotsDBsWriteQuery.certsAfter certsDb =
        s.requests.foldl WotsDBsWriteQuery.certsAfter certsDb := by
    intro request hrequest certsDb
    rw [List.foldl_append]
    exact hrequest _
  cases hstep with
  | newcomer blockstamp time hget =>
      refine ⟨fun source target hlink => ?_, fun source target => ?_, fun certsDb cert b => ?_⟩
      · have hsource := h.known source target ((hasLink_addNode _ source target).symm.trans hlink)
        have hsize : s.memory.wotDb.addNode.size = s.memory.wotDb.size + 1 := List.length_append
        exact Nat.lt_of_lt_of_le hsource (hsize.symm ▸ Nat.le_succ _)
      · rw [← h.links]
        exact Bool.eq_iff_iff.1 (hasLink_addNode _ source target)
      · rw [hrequests _ fun _ => rfl]
        exact h.records certsDb cert b
  | flag hget hrequest =>
      refine ⟨fun source target hlink => ?_, fun source target => ?_, fun certsDb cert b => ?_⟩
      · exact Nat.lt_of_lt_of_eq
          (h.known source target ((hasLink_setEnabled _ _ _ source target).symm.trans hlink))
          (WebOfTrust.modifyNode_size _ _).symm
      · rw [← h.links]
        exact Bool.eq_iff_iff.1 (hasLink_setEnabled _ _ _ source target)
      · rw [ApplyState.setEnabled, hrequests _ fun _ => by cases hrequest <;> rfl]
        exact h.records certsDb cert b

/-- A certification links its nodes and is recorded. -/
theorem certify (h : Collected memory s created) {source target : NodeId}
    (hcan : s.memory.wotDb.CanLink source target)
    (certification : CompactCertificationDocument) (time : Nat) :
    Collected memory (s.certify certification source target time)
      (created ++ [((source, target), certification.blockNumber)]) := by
  have htarget := hcan.2.1
  rcases hcan.2.2 with ⟨node, hnode, -⟩
  refine ⟨fun source' target' hlink => ?_, fun source' target' => ?_, fun certsDb cert b => ?_⟩
  · refine Nat.lt_of_lt_of_eq ?_ WebOfTrust.withLink_size.symm
    rcases (WebOfTrust.hasLink_withLink htarget source' target').1 hlink with hlink | ⟨rfl, -⟩
    · exact h.known source' target' hlink
    · exact WebOfTrust.lt_size hnode
  · refine (WebOfTrust.hasLink_withLink htarget source' target').trans ?_
    rw [h.links, or_assoc]
    refine or_congr Iff.rfl ?_
    simp only [List.mem_append, List.mem_singleton, Prod.mk.injEq]
    constructor
    · rintro (⟨b, hmem⟩ | hends)
      · exact ⟨b, .inl hmem⟩
      · exact ⟨certification.blockNumber, .inr ⟨hends, rfl⟩⟩
    · rintro ⟨b, hmem | ⟨hends, -⟩⟩
      · exact .inl ⟨b, hmem⟩
      · exact .inr hends
  · rw [ApplyState.certify, List.foldl_append]
    refine (recordedAt_insertCert cert b).trans ?_
    rw [h.records, or_assoc, List.mem_append, List.mem_singleton]
    exact or_congr Iff.rfl (or_congr Iff.rfl Prod.mk_inj.symm)

/-- The certifications of a block link their nodes and are recorded. -/
theorem certifications {certifications : List CompactCertificationDocument}
    {wotIndex : HashMap PubKey NodeId} (h : Collected memory s created)
    (hindex : s.memory.wotIndex = wotIndex)
    (hrun : certifications.foldlM (applyCertification block) s = .ok s') :
    Collected memory s' (created ++ certifications.filterMap fun certification =>
      match wotIndex.get? certification.issuer, wotIndex.get? certification.target with
      | some source, some target => some ((source, target), certification.blockNumber)
      | _, _ => none) := by
  induction certifications generalizing s created with
  | nil =>
      obtain rfl := Except.ok.inj hrun
      exact (List.append_nil created).symm ▸ h
  | cons certification certifications ih =>
      rw [List.foldlM_cons, bind_eq_ok_iff] at hrun
      rcases hrun with ⟨mid, hmid, hrun⟩
      rcases applyCertification_eq_ok hmid with ⟨source, target, hsource, htarget, hcan, rfl⟩
      have hrest := ih (h.certify hcan certification block.medianTime) hindex hrun
      rw [hindex] at hsource htarget
      rw [List.append_assoc, List.singleton_append] at hrest
      rw [List.filterMap_cons, hsource, htarget]
      exact hrest

/-- The part of a block that concerns the web of trust links what it certifies. -/
theorem of_applyWot (hknown : memory.wotDb.KnownSources) {blockstamp : Blockstamp}
    (h : applyWot block memory blockstamp = .ok s) :
    Collected memory s (block.certified memory) := by
  rcases applyWot_eq_ok h with ⟨mid, hsteps, hsame, hrun⟩
  have hmid : Collected memory mid [] := by
    clear hsame hrun
    induction hsteps with
    | refl => exact .nil hknown
    | tail _ hstep ih => exact ih.member hstep
  exact hmid.certifications hsame.index hrun

end Collected

/-! ## Agreement -/

/-- The links of the web of trust are the certifications that are recorded. -/
def CertsAgree (bc : BlockchainModule) : Prop :=
  ∀ source target, bc.dbs.wots.wotDb.hasLink source target = true ↔
    ∃ b, RecordedAt bc.dbs.wots.certsDb (source, target) b

/-- Whether a certification stays recorded: under a block none of whose certifications is found to
expire. -/
def BlockOp.StaysRecorded (op : BlockOp) (bc : BlockchainModule) (cert : NodeId × NodeId) : Prop :=
  ∃ b, (RecordedAt bc.dbs.wots.certsDb cert b ∨ (cert, b) ∈ op.block.certified bc.memory) ∧
    ∀ cert', (op.expireCerts bc).get? cert' ≠ some b

/-- Whether a block unlinks nothing that stays recorded, and takes no record away that it has just
made. -/
structure BlockOp.ExpiresRecords (op : BlockOp) (bc : BlockchainModule) : Prop where
  expired : ∀ cert, (op.expireCerts bc).containsKey cert = true → ¬ op.StaysRecorded bc cert
  certified : ∀ cert b, (cert, b) ∈ op.block.certified bc.memory →
    (op.expireCerts bc).containsKey cert = false → op.StaysRecorded bc cert

/-- The blocks that the node applies, in which no certification is looked for to expire, keep the
records. -/
theorem BlockOp.expiresRecords_of_nil {op : BlockOp} (h : op.blocksExpiring = [])
    (bc : BlockchainModule) : op.ExpiresRecords bc := by
  have hempty : op.expireCerts bc = ∅ := by
    rw [BlockOp.expireCerts, h]
    rfl
  constructor
  case expired =>
    intro cert hcontains
    rw [hempty] at hcontains
    cases hcontains
  case certified =>
    intro cert b hmem _
    refine ⟨b, .inr hmem, fun cert' hget => ?_⟩
    rw [hempty] at hget
    cases hget

/-- Requests that expire certifications take away all the records of some blocks. -/
theorem recordedAt_foldl_expireCerts (blocks : List BlockNumber) (certsDb : CertsDb)
    (cert : NodeId × NodeId) (b : BlockNumber) :
    RecordedAt ((blocks.map WotsDBsWriteQuery.expireCerts).foldl WotsDBsWriteQuery.certsAfter
      certsDb) cert b ↔ RecordedAt certsDb cert b ∧ b ∉ blocks := by
  induction blocks generalizing certsDb with
  | nil => exact (and_iff_left List.not_mem_nil).symm
  | cons block blocks ih =>
      refine (ih (certsDb.remove block)).trans ?_
      rw [recordedAt_remove, and_assoc, List.mem_cons, not_or]

/-- What a block leaves of the links and of the records. -/
structure CertsAfter (bc : BlockchainModule) (op : BlockOp) (bc' : BlockchainModule) : Prop where
  known : bc'.dbs.wots.wotDb.KnownSources
  links : ∀ source target, bc'.dbs.wots.wotDb.hasLink source target = true ↔
    (bc.dbs.wots.wotDb.hasLink source target = true ∨
      ∃ b, ((source, target), b) ∈ op.block.certified bc.memory) ∧
    (op.expireCerts bc).containsKey (source, target) = false
  records : ∀ cert, (∃ b, RecordedAt bc'.dbs.wots.certsDb cert b) ↔ op.StaysRecorded bc cert

theorem certsAfter_of_applyBlock {C : Crypto} {bc bc' : BlockchainModule} {op : BlockOp}
    (hknown : bc.dbs.wots.wotDb.KnownSources) (h : applyBlock C bc op = .ok bc') :
    CertsAfter bc op bc' := by
  rcases applyBlock_eq_ok h with ⟨blockstamp, s, hwot, hmemory, hwots, -⟩
  have hcollected : Collected bc.memory s (op.block.certified bc.memory) :=
    Collected.of_applyWot hknown hwot
  rcases expired_expire s (op.expireCerts bc) with ⟨already, hexpired⟩
  have hlinks := WebOfTrust.hasLink_foldl_remLink hcollected.known (op.expireCerts bc).iter
  have hdb : bc'.dbs.wots.wotDb = (s.expire (op.expireCerts bc)).memory.wotDb :=
    congrArg WotMemory.wotDb hmemory
  rw [← hexpired.links, ← hdb] at hlinks
  refine ⟨hlinks.1, fun source target => ?_, fun cert => ?_⟩
  · rw [hlinks.2, hcollected.links]
    refine and_congr_right fun _ => ?_
    rw [HashMap.containsKey_eq_false_iff, Option.eq_none_iff_forall_ne_some]
    exact forall_congr' fun b => not_congr (HashMap.mem_iter_iff _ _ _)
  · rcases hexpired.requests with ⟨blocks, hrequests, hblocks⟩
    rw [(foldlM_apply_eq_ok hwots).2, hrequests, List.foldl_append]
    refine exists_congr fun b => ?_
    rw [recordedAt_foldl_expireCerts, hcollected.records, hblocks, hexpired.already, not_exists]
    refine and_congr_right fun _ => ?_
    exact forall_congr' fun cert' => not_congr (HashMap.mem_iter_iff _ _ _)

/-- From a state in which links and records agree, they agree after a block exactly when it unlinks
nothing that stays recorded and keeps the records that it makes. -/
theorem certsAgree_applyBlock_iff {C : Crypto} {bc bc' : BlockchainModule} {op : BlockOp}
    (hagree : CertsAgree bc) (hknown : bc.dbs.wots.wotDb.KnownSources)
    (h : applyBlock C bc op = .ok bc') : CertsAgree bc' ↔ op.ExpiresRecords bc := by
  have hafter := certsAfter_of_applyBlock hknown h
  have hunexpired : ∀ cert b, RecordedAt bc.dbs.wots.certsDb cert b →
      (op.expireCerts bc).containsKey cert = false → op.StaysRecorded bc cert := by
    intro cert b hrecorded hnot
    refine ⟨b, .inl hrecorded, fun cert' hget => ?_⟩
    rcases findExpireCerts_cases bc.dbs.wots.certsDb op.blocksExpiring cert' with
      ⟨b', hexpiring, -, hget'⟩ | ⟨-, hget'⟩
    · obtain rfl := Option.some.inj (hget'.symm.trans hget)
      rcases findExpireCerts_cases bc.dbs.wots.certsDb op.blocksExpiring cert with
        ⟨_, -, -, hfound⟩ | ⟨hnone, -⟩
      · exact absurd ((HashMap.containsKey_iff _ _).2 ⟨_, hfound⟩) (Bool.eq_false_iff.1 hnot)
      · exact hnone b' hexpiring hrecorded
    · cases hget'.symm.trans hget
  constructor
  · intro hagree'
    constructor
    case expired =>
      rintro ⟨source, target⟩ hcontains hstays
      have hlink := (hagree' source target).2 ((hafter.records _).2 hstays)
      rw [((hafter.links source target).1 hlink).2] at hcontains
      cases hcontains
    case certified =>
      rintro ⟨source, target⟩ b hmem hnot
      exact (hafter.records _).1
        ((hagree' source target).1 ((hafter.links source target).2 ⟨.inr ⟨b, hmem⟩, hnot⟩))
  · intro hkeeps source target
    rw [hafter.links, hafter.records]
    constructor
    · rintro ⟨hlink | ⟨b, hmem⟩, hnot⟩
      · rcases (hagree source target).1 hlink with ⟨b, hrecorded⟩
        exact hunexpired _ b hrecorded hnot
      · exact hkeeps.certified _ b hmem hnot
    · intro hstays
      refine ⟨?_, Bool.eq_false_iff.2 fun hcontains => hkeeps.expired _ hcontains hstays⟩
      rcases hstays with ⟨b, hrecorded | hmem, -⟩
      · exact .inl ((hagree source target).2 ⟨b, hrecorded⟩)
      · exact .inr ⟨b, hmem⟩

/-- In every run of blocks each of which expires the records of what it unlinks, links and records
agree; and a block that does not ends the agreement. -/
theorem certsAgree_of_reached {C : Crypto} {params : CurrencyParameters} {bc : BlockchainModule}
    (h : Reached (emptyModule params) (applyBlock C) (fun bc op => op.ExpiresRecords bc) bc) :
    CertsAgree bc ∧
      ∀ op bc', applyBlock C bc op = .ok bc' → (CertsAgree bc' ↔ op.ExpiresRecords bc) := by
  have hinv : CertsAgree bc ∧ bc.dbs.wots.wotDb.KnownSources := by
    refine h.invariant (I := fun bc => CertsAgree bc ∧ bc.dbs.wots.wotDb.KnownSources) ?_ ?_
    · refine ⟨fun source target => iff_of_false ?_ ?_, fun source target hlink => ?_⟩
      · exact Bool.false_ne_true
      · exact fun ⟨b, hrecorded⟩ => not_recordedAt_empty _ b hrecorded
      · exact absurd hlink Bool.false_ne_true
    · exact fun bc op bc' hbc hguard hrun =>
        ⟨(certsAgree_applyBlock_iff hbc.1 hbc.2 hrun).2 hguard,
          (certsAfter_of_applyBlock hbc.2 hrun).known⟩
  exact ⟨hinv.1, fun op bc' => certsAgree_applyBlock_iff hinv.1 hinv.2⟩

/-- An identity of a key. -/
def mockIdentity (key : Nat) : IdentityDocument where
  text := none
  currency := "g1"
  username := ""
  blockstamp := default
  issuer := ⟨BitVec.ofNat 256 key⟩
  signature := ⟨0⟩

/-- A membership of a key. -/
def mockMembership (key : Nat) : MembershipDocument where
  text := none
  currency := "g1"
  issuer := ⟨BitVec.ofNat 256 key⟩
  blockstamp := default
  membership := .in
  identityUsername := ""
  identityBlockstamp := default
  signature := ⟨0⟩

/-- The first key certifies the second one. -/
def mockCertification (b : BlockNumber) : CompactCertificationDocument where
  issuer := ⟨1⟩
  target := ⟨2⟩
  blockNumber := b
  signature := ⟨0⟩

/-- Two blocks that certify the same key: the second one before the first certification expires. -/
def certifyingOps : List BlockOp :=
  [⟨{ mockBlock 0 0 with
      identities := [mockIdentity 1, mockIdentity 2]
      joiners := [mockMembership 1, mockMembership 2]
      certifications := [mockCertification 0] }, []⟩,
    ⟨{ mockBlock 0 1 with certifications := [mockCertification 1] }, []⟩]

/-- The same blocks, and one in which the first certification expires. -/
def expiringOps : List BlockOp := certifyingOps ++ [⟨mockBlock 0 2, [0]⟩]

/-- After the two blocks, links and records agree. -/
theorem certsAgree_certifyingOps :
    ∃ bc, certifyingOps.foldlM (applyBlock mockCrypto) (emptyModule default) = .ok bc ∧
      bc.dbs.wots.wotDb.hasLink 0 1 = true ∧ CertsAgree bc := by
  have hrun : ∃ bc, certifyingOps.foldlM (applyBlock mockCrypto) (emptyModule default) = .ok bc ∧
      bc.dbs.wots.wotDb.hasLink 0 1 = true := ⟨_, rfl, by decide +kernel⟩
  rcases hrun with ⟨bc, hrun, hlink⟩
  have hguard : ∀ op ∈ certifyingOps, ∀ bc, op.ExpiresRecords bc := by
    intro op hop bc
    refine BlockOp.expiresRecords_of_nil ?_ bc
    revert op
    simp [certifyingOps]
  exact ⟨bc, hrun, hlink, (certsAgree_of_reached (Reached.of_foldlM .init hguard hrun)).1⟩

/-- When the first certification expires, the link is gone and the second one is still recorded. -/
theorem not_certsAgree_expiringOps :
    ∃ bc, expiringOps.foldlM (applyBlock mockCrypto) (emptyModule default) = .ok bc ∧
      ¬ CertsAgree bc := by
  have hrun : ∃ bc, expiringOps.foldlM (applyBlock mockCrypto) (emptyModule default) = .ok bc ∧
      bc.dbs.wots.wotDb.hasLink 0 1 = false ∧
      RecordedAt bc.dbs.wots.certsDb (0, 1) 1 := ⟨_, rfl, by decide +kernel⟩
  rcases hrun with ⟨bc, hrun, hlink, hrecorded⟩
  refine ⟨bc, hrun, fun hagree => ?_⟩
  rw [(hagree 0 1).2 ⟨1, hrecorded⟩] at hlink
  cases hlink

end Durs
