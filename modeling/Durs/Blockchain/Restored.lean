/-
# The web of trust before a block

When reverting a block gives back the web of trust and the index that were there before the block.
The flags are the weak point: reverting an exclusion or a revocation leaves the node disabled, and
reverting a renewal leaves it enabled.
-/

import Durs.Blockchain.BlockLoops

namespace Durs

open RustStd WebOfTrust WotMemory

variable {C : Crypto} {block : BlockDocument} {memory memory' : WotMemory} {s s' : ApplyState}
  {blockstamp : Blockstamp} {expireCerts : HashMap (NodeId × NodeId) BlockNumber}

/-! ## Applying, then reverting -/

/-- The same web of trust and index, as far as anything reads them. -/
structure WotRestored (memory memory' : WotMemory) : Prop where
  index : ∀ key, memory'.wotIndex.get? key = memory.wotIndex.get? key
  size : memory'.wotDb.size = memory.wotDb.size
  maxLinks : memory'.wotDb.maxLinks = memory.wotDb.maxLinks
  flags : ∀ id, memory'.wotDb.isEnabled id = memory.wotDb.isEnabled id
  links : ∀ source target, memory'.wotDb.hasLink source target = memory.wotDb.hasLink source target
  issued : ∀ id, memory'.wotDb.issuedCount id = memory.wotDb.issuedCount id

/-- A block that reverting undoes: its newcomers were unknown, who is renewed was a member and who
is only dismissed was none, its links are new and different, and what expires was a link or is one
of these. -/
structure Undoable (block : BlockDocument) (memory : WotMemory)
    (expireCerts : HashMap (NodeId × NodeId) BlockNumber) : Prop where
  newcomers : ∀ key ∈ newKeys block block.joiners, memory.wotIndex.get? key = none
  renewed : ∀ id ∈ memory.nodesOf block.renewing, memory.wotDb.isEnabled id = some true
  dismissed : ∀ id ∈ memory.nodesOf block.dismissing, id ∉ memory.nodesOf block.renewing →
    memory.wotDb.isEnabled id = some false
  distinct : (block.linking memory).Nodup
  created : ∀ pair ∈ block.linking memory, memory.wotDb.hasLink pair.1 pair.2 = false
  expired : ∀ pair ∈ expiring expireCerts,
    memory.wotDb.hasLink pair.1 pair.2 = true ∨ pair ∈ block.linking memory

/-- The issued counts of webs that agree with their links are those of the links. -/
theorem WotInv.issuedCount_eq {wot wot' : WebOfTrust} (h : WotInv wot) (h' : WotInv wot')
    (hsize : wot'.size = wot.size)
    (hlinks : ∀ source target, wot'.hasLink source target = wot.hasLink source target)
    (id : NodeId) : wot'.issuedCount id = wot.issuedCount id := by
  have hfrom : wot'.linksFrom id = wot.linksFrom id := by
    rw [linksFrom_eq_countP, linksFrom_eq_countP, hsize]
    exact congrArg (fun p => List.countP p _) (funext (hlinks id))
  rw [issuedCount, issuedCount]
  by_cases hid : id < wot.size
  · obtain ⟨node, hnode⟩ := exists_node hid
    obtain ⟨node', hnode'⟩ := exists_node (hsize.symm ▸ hid : id < wot'.size)
    rw [hnode, hnode', Option.map_some, Option.map_some, h.issued id node hnode,
      h'.issued id node' hnode', hfrom]
  · rw [List.getElem?_eq_none (Nat.not_lt.1 hid),
      List.getElem?_eq_none (hsize.symm ▸ Nat.not_lt.1 hid : wot'.size ≤ id)]

/-- The nodes that a block dismisses, where its newcomers were unknown. -/
theorem mem_nodesOf_of_unknown (hindex : memory'.wotIndex = (memory.withNewcomers block).wotIndex)
    (hnew : ∀ key ∈ newKeys block block.joiners, memory.wotIndex.get? key = none)
    {id : NodeId} (hid : id < memory.wotDb.size) (keys : List PubKey) :
    id ∈ memory'.nodesOf keys ↔ id ∈ memory.nodesOf keys := by
  rw [mem_nodesOf, mem_nodesOf, hindex]
  refine exists_congr fun key => and_congr_right fun _ => ?_
  rcases get?_newcomers (newcomersAmong block block.joiners) memory key with
    ⟨-, hget⟩ | ⟨hmem, id', hle, hget⟩
  · exact iff_of_eq (congrArg (· = some id) hget)
  · refine iff_of_false (fun hsome => ?_) fun hsome => ?_
    · obtain rfl := Option.some.inj (hget.symm.trans hsome)
      exact Nat.not_le.2 hid hle
    · rw [hnew key hmem] at hsome
      cases hsome

/-- The web of trust after some certifications have expired. -/
theorem expire_wotDb (s : ApplyState) (expireCerts : HashMap (NodeId × NodeId) BlockNumber) :
    (s.expire expireCerts).memory.wotDb =
      s.memory.wotDb.withoutLinks (expiring expireCerts) := by
  obtain ⟨already, hexpired⟩ := expired_expire s expireCerts
  rw [hexpired.links, withoutLinks, expiring, List.foldl_map]

/-- What a block leaves, some links of which have expired at once. -/
structure AppliedAndExpired (block : BlockDocument) (expired : List (NodeId × NodeId))
    (memory memory' : WotMemory) : Prop where
  index : memory'.wotIndex = (memory.withNewcomers block).wotIndex
  size : memory'.wotDb.size = memory.wotDb.size + (newKeys block block.joiners).length
  maxLinks : memory'.wotDb.maxLinks = memory.wotDb.maxLinks
  flags : ∀ id, id < memory.wotDb.size → memory'.wotDb.isEnabled id =
    if id ∈ memory'.nodesOf block.dismissing then (memory.wotDb.isEnabled id).map fun _ => false
    else if id ∈ memory.nodesOf block.renewing then (memory.wotDb.isEnabled id).map fun _ => true
    else memory.wotDb.isEnabled id
  links : ∀ source target, memory'.wotDb.hasLink source target = true ↔
    (memory.wotDb.hasLink source target = true ∨ (source, target) ∈ block.linking memory) ∧
      (source, target) ∉ expired
  known : memory'.wotDb.KnownSources

theorem Applied.expire (h : Applied block memory s.memory) (hknown : memory.wotDb.KnownSources)
    (expireCerts : HashMap (NodeId × NodeId) BlockNumber) :
    AppliedAndExpired block (expiring expireCerts) memory (s.expire expireCerts).memory := by
  have hindex : (s.expire expireCerts).memory.wotIndex = s.memory.wotIndex := by
    obtain ⟨already, hexpired⟩ := expired_expire s expireCerts
    exact hexpired.index
  have hlinks : ∀ source target,
      (s.expire expireCerts).memory.wotDb.hasLink source target = true ↔
        (memory.wotDb.hasLink source target = true ∨ (source, target) ∈ block.linking memory) ∧
          (source, target) ∉ expiring expireCerts := by
    intro source target
    rw [expire_wotDb, hasLink_withoutLinks (h.known hknown), h.links]
  constructor
  case index => exact hindex.trans h.index
  case size => rw [expire_wotDb, withoutLinks_size, h.size]
  case maxLinks => rw [expire_wotDb, withoutLinks_maxLinks, h.maxLinks]
  case flags =>
    intro id hid
    rw [expire_wotDb, isEnabled_withoutLinks, nodesOf_congr hindex, h.flags id hid]
  case links => exact hlinks
  case known =>
    intro source target hlink
    rw [expire_wotDb, withoutLinks_size]
    rw [expire_wotDb, hasLink_withoutLinks (h.known hknown)] at hlink
    exact h.known hknown source target hlink.1

namespace AppliedAndExpired

variable {after final : WotMemory} {expired : List (NodeId × NodeId)}

theorem certPairs_eq (h : AppliedAndExpired block expired memory after) :
    certPairs after.wotIndex block.certifications = block.linking memory := by
  rw [h.index]
  rfl

/-- The links after the block was reverted: what expired is there, too, and what it had certified is
not. -/
theorem hasLink_final (h : AppliedAndExpired block expired memory after)
    (hreverted : Reverted block expired after final) (source target : NodeId) :
    final.wotDb.hasLink source target = true ↔
      ((memory.wotDb.hasLink source target = true ∨ (source, target) ∈ expired) ∧
        (source, target) ∉ block.linking memory) ∧ target < final.wotDb.size := by
  rw [hreverted.links, h.links, h.certPairs_eq]
  refine and_congr_left fun _ => and_congr_left fun hnot => ?_
  by_cases hexpired : (source, target) ∈ expired
  · exact iff_of_true (.inr hexpired) (.inr hexpired)
  · simp only [hexpired, hnot, or_false, not_false_eq_true, and_true]

theorem size_final (h : AppliedAndExpired block expired memory after)
    (hreverted : Reverted block expired after final) :
    final.wotDb.size = memory.wotDb.size := by
  rw [hreverted.size, h.size, Nat.add_sub_cancel]

/-- The flag of a node after the block was reverted: renewed, or dismissed, or as it was. -/
theorem isEnabled_final (h : AppliedAndExpired block expired memory after)
    (hreverted : Reverted block expired after final) {id : NodeId} (hid : id < memory.wotDb.size) :
    final.wotDb.isEnabled id =
      if id ∈ memory.nodesOf block.renewing then (memory.wotDb.isEnabled id).map fun _ => true
      else if id ∈ after.nodesOf block.dismissing then
        (memory.wotDb.isEnabled id).map fun _ => false
      else memory.wotDb.isEnabled id := by
  have hrenewing : after.nodesOf block.renewing = memory.nodesOf block.renewing := by
    rw [BlockDocument.renewing, nodesOf_append, nodesOf_append, nodesOf_renewedKeys h.index,
      nodesOf_renewedKeys h.index]
  rw [hreverted.flags id (h.size_final hreverted ▸ hid), hrenewing, h.flags id hid]
  by_cases hr : id ∈ memory.nodesOf block.renewing <;>
    by_cases hd : id ∈ after.nodesOf block.dismissing <;>
    simp [hr, hd, Function.comp_def]

/-- A block can be undone when reverting it has given everything back. -/
theorem undoable (h : AppliedAndExpired block (expiring expireCerts) memory after)
    (hreverted : Reverted block (expiring expireCerts) after final)
    (hbounded : ∀ key id, memory.wotIndex.get? key = some id → id < memory.wotDb.size)
    (hends : ∀ pair ∈ expiring expireCerts, pair.2 < memory.wotDb.size)
    (hrestored : WotRestored memory final) : Undoable block memory expireCerts := by
  have hnew : ∀ key ∈ newKeys block block.joiners, memory.wotIndex.get? key = none := by
    intro key hkey
    rw [← hrestored.index, hreverted.index, if_pos hkey]
  have hsome : ∀ (enabled : Bool) (id : NodeId), id < memory.wotDb.size →
      (memory.wotDb.isEnabled id).map (fun _ => enabled) = some enabled := by
    intro enabled id hid
    obtain ⟨flag, hflag⟩ := isEnabled_of_lt hid
    rw [hflag]
    rfl
  have hlt : ∀ keys, ∀ id ∈ memory.nodesOf keys, id < memory.wotDb.size := by
    intro keys id hmem
    obtain ⟨key, -, hget⟩ := mem_nodesOf.1 hmem
    exact hbounded key id hget
  constructor
  case newcomers => exact hnew
  case renewed =>
    intro id hmem
    have hid := hlt _ id hmem
    rw [← hrestored.flags, h.isEnabled_final hreverted hid, if_pos hmem]
    exact hsome true id hid
  case dismissed =>
    intro id hmem hnot
    have hid := hlt _ id hmem
    have hmem' := (mem_nodesOf_of_unknown h.index hnew hid _).2 hmem
    rw [← hrestored.flags, h.isEnabled_final hreverted hid, if_neg hnot, if_pos hmem']
    exact hsome false id hid
  case distinct => exact h.certPairs_eq ▸ hreverted.distinct
  case created =>
    intro pair hmem
    refine Bool.eq_false_iff.2 fun hlink => ?_
    rw [← hrestored.links, h.hasLink_final hreverted] at hlink
    exact hlink.1.2 hmem
  case expired =>
    intro pair hmem
    by_cases hlinked : pair ∈ block.linking memory
    · exact .inr hlinked
    · refine .inl ?_
      rw [← hrestored.links, h.hasLink_final hreverted]
      exact ⟨⟨.inr hmem, hlinked⟩, h.size_final hreverted ▸ hends pair hmem⟩

/-- Reverting a block that can be undone gives everything back. -/
theorem restored (h : AppliedAndExpired block (expiring expireCerts) memory after)
    (hreverted : Reverted block (expiring expireCerts) after final)
    (hinv : WotInv memory.wotDb) (hfinal : WotInv final.wotDb)
    (hundoable : Undoable block memory expireCerts) : WotRestored memory final := by
  have hsize : final.wotDb.size = memory.wotDb.size := h.size_final hreverted
  have hlinks : ∀ source target, final.wotDb.hasLink source target =
      memory.wotDb.hasLink source target := by
    intro source target
    refine Bool.eq_iff_iff.2 ((h.hasLink_final hreverted source target).trans ?_)
    constructor
    · rintro ⟨⟨hlink | hexpired, hnot⟩, -⟩
      · exact hlink
      · exact (hundoable.expired _ hexpired).resolve_right hnot
    · intro hlink
      obtain ⟨node, hnode, -⟩ := hasLink_iff.1 hlink
      refine ⟨⟨.inl hlink, fun hcreated => ?_⟩, hsize ▸ lt_size hnode⟩
      exact Bool.eq_false_iff.1 (hundoable.created _ hcreated) hlink
  constructor
  case index =>
    intro key
    rw [hreverted.index, h.index]
    by_cases hkey : key ∈ newKeys block block.joiners
    · rw [if_pos hkey, hundoable.newcomers key hkey]
    · rw [if_neg hkey]
      rcases get?_newcomers (newcomersAmong block block.joiners) memory key with
        ⟨-, hget⟩ | ⟨hmem, -⟩
      · exact hget
      · exact absurd hmem hkey
  case size => exact hsize
  case maxLinks => exact hreverted.maxLinks.trans h.maxLinks
  case flags =>
    intro id
    by_cases hid : id < memory.wotDb.size
    · rw [h.isEnabled_final hreverted hid]
      by_cases hr : id ∈ memory.nodesOf block.renewing
      · rw [if_pos hr, hundoable.renewed id hr]
        rfl
      · rw [if_neg hr]
        by_cases hd : id ∈ after.nodesOf block.dismissing
        · have hold := (mem_nodesOf_of_unknown h.index hundoable.newcomers hid _).1 hd
          rw [if_pos hd, hundoable.dismissed id hold hr]
          rfl
        · rw [if_neg hd]
    · rw [isEnabled, isEnabled, List.getElem?_eq_none (Nat.not_lt.1 hid),
        List.getElem?_eq_none (hsize.symm ▸ Nat.not_lt.1 hid : final.wotDb.size ≤ id)]
  case links => exact hlinks
  case issued => exact hinv.issuedCount_eq hfinal hsize hlinks

end AppliedAndExpired

/-- A block that can be undone is undone. -/
theorem Undoable.exists_revertWot (hundoable : Undoable block memory expireCerts)
    (hinv : WotInv memory.wotDb) (happlied : Applied block memory s.memory)
    (blockstamp : Blockstamp) :
    ∃ s', revertWot block (s.expire expireCerts).memory blockstamp expireCerts = .ok s' ∧
      WotRestored memory s'.memory := by
  have h := happlied.expire hinv.knownSources expireCerts
  have hinv' : WotInv s.memory.wotDb := happlied.inv hinv hundoable.distinct hundoable.created
  have hafter : WotInv (s.expire expireCerts).memory.wotDb := by
    rw [expire_wotDb]
    exact hinv'.withoutLinks _
  have hdistinct : (expiring expireCerts).Nodup := HashMap.nodup_map_fst_iter expireCerts
  have hgone : ∀ pair ∈ expiring expireCerts,
      (s.expire expireCerts).memory.wotDb.hasLink pair.1 pair.2 = false := by
    intro pair hmem
    refine Bool.eq_false_iff.2 fun hlink => ?_
    exact ((h.links pair.1 pair.2).1 hlink).2 hmem
  -- the links before the expiry leave room for those that expired
  have hcan : (s.expire expireCerts).memory.wotDb.CanLinks (expiring expireCerts) := by
    refine hafter.canLinks hinv' ?_ ?_ (fun source target hlink => ?_) (fun pair hmem => ?_)
      hdistinct hgone
    · rw [expire_wotDb, withoutLinks_size]
    · rw [expire_wotDb, withoutLinks_maxLinks]
    · exact (happlied.links source target).2 ((h.links source target).1 hlink).1
    · exact (happlied.links pair.1 pair.2).2 (hundoable.expired pair hmem)
  have hindex : (s.expire expireCerts).memory.wotIndex = s.memory.wotIndex :=
    h.index.trans happlied.index.symm
  have hpairs : ∀ certification ∈ block.certifications,
      (certPair (s.expire expireCerts).memory.wotIndex certification).isSome = true :=
    hindex ▸ happlied.certified
  obtain ⟨s', hrun⟩ := Durs.exists_revertWot h.known hpairs hcan
    (h.certPairs_eq ▸ hundoable.distinct)
    (fun pair hmem => by
      rw [h.certPairs_eq] at hmem
      by_cases hexpired : pair ∈ expiring expireCerts
      · exact .inr hexpired
      · exact .inl ((h.links pair.1 pair.2).2 ⟨.inr hmem, hexpired⟩))
    (hindex ▸ happlied.dismissed) (hindex ▸ happlied.renewers) blockstamp
  have hreverted := reverted_of_revertWot h.known hpairs hrun
  have hfinal : WotInv s'.memory.wotDb := by
    refine hreverted.inv hafter hdistinct hgone fun source target hlink hnot => ?_
    rw [h.certPairs_eq] at hnot
    have hold : memory.wotDb.hasLink source target = true := by
      rcases hlink with hlink | hexpired
      · exact ((h.links source target).1 hlink).1.resolve_right hnot
      · exact (hundoable.expired _ hexpired).resolve_right hnot
    obtain ⟨node, hnode, -⟩ := hasLink_iff.1 hold
    rw [h.size_final hreverted]
    exact ⟨hinv.knownSources source target hold, lt_size hnode⟩
  exact ⟨s', hrun, h.restored hreverted hinv hfinal hundoable⟩

/-- Reverting the part of a block that concerns the web of trust gives everything back exactly when
the block can be undone. -/
theorem revertWot_restores_iff (hinv : WotInv memory.wotDb)
    (hbounded : ∀ key id, memory.wotIndex.get? key = some id → id < memory.wotDb.size)
    (hends : ∀ pair ∈ expiring expireCerts, pair.2 < memory.wotDb.size)
    (happly : applyWot block memory blockstamp = .ok s) (blockstamp' : Blockstamp) :
    (∃ s', revertWot block (s.expire expireCerts).memory blockstamp' expireCerts = .ok s' ∧
      WotRestored memory s'.memory) ↔ Undoable block memory expireCerts := by
  have happlied := applied_of_applyWot happly
  have h := happlied.expire hinv.knownSources expireCerts
  constructor
  · rintro ⟨s', hrun, hrestored⟩
    have hpairs : ∀ certification ∈ block.certifications,
        (certPair (s.expire expireCerts).memory.wotIndex certification).isSome = true := by
      rw [h.index, ← happlied.index]
      exact happlied.certified
    exact h.undoable (reverted_of_revertWot h.known hpairs hrun) hbounded hends hrestored
  · exact fun hundoable => hundoable.exists_revertWot hinv happlied blockstamp'

/-! ## Stored blocks -/

theorem containsKey_newIdentities_iff (key : PubKey) :
    block.newIdentities.containsKey key = true ↔
      key ∈ block.identities.map IdentityDocument.issuer := by
  rw [BlockDocument.newIdentities, HashMap.containsKey_iff, ← HashMap.mem_keys_iff,
    HashMap.mem_keys_ofList_iff, List.map_map]
  rfl

/-- What reverting reads of a lightened block. -/
structure BlockDocument.LightenedTo (block reduced : BlockDocument) : Prop where
  number : reduced.number = block.number
  hash : reduced.hash = block.hash
  previousIssuer : reduced.previousIssuer = block.previousIssuer
  issuers : reduced.issuers = block.issuers
  medianTime : reduced.medianTime = block.medianTime
  identities : reduced.identities = block.identities.map IdentityDocument.reduce
  joiners : reduced.joiners = block.joiners.map MembershipDocument.reduce
  actives : reduced.actives = block.actives.map MembershipDocument.reduce
  revoked : reduced.revoked = block.revoked
  excluded : reduced.excluded = block.excluded
  certifications : reduced.certifications = block.certifications
  transactions : reduced.transactions = block.transactions

theorem lightenedTo_of_reduce {reduced : BlockDocument} (h : block.reduce C = .ok reduced) :
    block.LightenedTo reduced := by
  rw [BlockDocument.reduce, bind_eq_ok_iff] at h
  obtain ⟨txs, -, h⟩ := h
  obtain rfl := Except.ok.inj h
  constructor
  all_goals rfl

namespace BlockDocument.LightenedTo

variable {reduced : BlockDocument}

theorem withInnerHash (h : block.LightenedTo reduced) (innerHash : Option Hash) :
    block.LightenedTo { reduced with innerHash } := by
  obtain ⟨⟩ := h
  constructor
  all_goals assumption

theorem blockstamp_eq (h : block.LightenedTo reduced) : reduced.blockstamp = block.blockstamp := by
  rw [BlockDocument.blockstamp, BlockDocument.blockstamp, h.number, h.hash]

/-- Lightening a block changes neither its new identities nor what reverting reads of it. -/
theorem revertWot_eq (h : block.LightenedTo reduced) (memory : WotMemory) (blockstamp : Blockstamp)
    (expireCerts : HashMap (NodeId × NodeId) BlockNumber) :
    revertWot reduced memory blockstamp expireCerts =
      revertWot block memory blockstamp expireCerts := by
  have hnew : ∀ key, reduced.newIdentities.containsKey key =
      block.newIdentities.containsKey key := by
    intro key
    rw [Bool.eq_iff_iff, containsKey_newIdentities_iff, containsKey_newIdentities_iff, h.identities,
      List.map_map]
    rfl
  have hactive : ∀ s (active : MembershipDocument),
      revertActive reduced s active.reduce = revertActive block s active := by
    intro s active
    rw [revertActive, revertActive, hnew, h.medianTime]
    rfl
  have hjoiner : ∀ s (joiner : MembershipDocument),
      revertJoiner reduced s joiner.reduce = revertJoiner block s joiner := by
    intro s joiner
    rw [revertJoiner, revertJoiner, hnew, h.medianTime]
    rfl
  simp only [revertWot, h.joiners, h.actives, h.revoked, h.excluded, h.certifications,
    ← List.map_reverse, List.foldlM_map, hactive, hjoiner]

/-- Printing the inner text can only fail at the issuers. -/
theorem returns_generateCompactInnerText (hlight : block.LightenedTo reduced)
    (h : Returns block.generateCompactInnerText) : Returns reduced.generateCompactInnerText := by
  obtain ⟨text, htext⟩ := h
  rw [BlockDocument.generateCompactInnerText] at htext
  rw [BlockDocument.generateCompactInnerText, hlight.number, hlight.previousIssuer, hlight.issuers]
  cases hlist : block.issuers with
  | nil =>
      rw [hlist] at htext
      cases hissuer : block.previousIssuer with
      | none =>
          rw [hissuer] at htext
          split at htext
          case isTrue => cases htext
          case isFalse => cases htext
      | some issuer =>
          rw [hissuer] at htext
          split at htext
          case isTrue => cases htext
          case isFalse => cases htext
  | cons first issuers =>
      cases hissuer : block.previousIssuer with
      | none =>
          rw [hissuer] at htext
          split
          case isTrue habove =>
            rw [if_pos habove] at htext
            cases htext
          case isFalse => exact ⟨_, rfl⟩
      | some issuer =>
          split
          case isTrue => exact ⟨_, rfl⟩
          case isFalse => exact ⟨_, rfl⟩

end BlockDocument.LightenedTo

/-- The block that is stored keeps its transactions as documents, and is reverted only when it has
none. -/
theorem revertBlock_stored {reduced : BlockDocument} (hlight : block.LightenedTo reduced)
    (hstamp : block.blockstamp = .ok blockstamp) (htext : Returns block.generateCompactInnerText)
    (hdocs : Returns (block.transactions.mapM TxDocOrTxHash.unwrapDoc))
    (memory : WotMemory) (txDb : HashMap Hash DALTxV10)
    (expireCerts : HashMap (NodeId × NodeId) BlockNumber) (P : WotMemory → Prop) :
    (∃ before reqs, revertBlock C ⟨reduced, some expireCerts⟩ memory txDb = .ok (before, reqs) ∧
      P before) ↔
    block.transactions = [] ∧
      ∃ s, revertWot block memory blockstamp expireCerts = .ok s ∧ P s.memory := by
  constructor
  · rintro ⟨before, reqs, hrun, hbefore⟩
    rw [revertBlock, expect_some, ok_bind, bind_eq_ok_iff] at hrun
    obtain ⟨dalTxs, htxs, hrun⟩ := hrun
    rw [bind_eq_ok_iff] at hrun
    obtain ⟨hashed, hhashed, hrun⟩ := hrun
    rw [bind_eq_ok_iff] at hrun
    obtain ⟨stamp, hstamp', hrun⟩ := hrun
    rw [bind_eq_ok_iff] at hrun
    obtain ⟨s, hwot, hrun⟩ := hrun
    obtain ⟨rfl, -⟩ := Prod.mk.inj (Except.ok.inj hrun)
    rw [BlockDocument.computeInnerHash, bind_eq_ok_iff] at hhashed
    obtain ⟨text, -, hhashed⟩ := hhashed
    obtain rfl := Except.ok.inj hhashed
    have hlight' := hlight.withInnerHash (some (C.hashInnerText text))
    rw [hlight'.blockstamp_eq] at hstamp'
    obtain rfl : blockstamp = stamp := Except.ok.inj (hstamp.symm.trans hstamp')
    refine ⟨?_, s, (hlight'.revertWot_eq ..).symm.trans hwot, hbefore⟩
    -- a transaction that is a document is not reverted
    cases htransactions : block.transactions with
    | nil => rfl
    | cons transaction transactions =>
        obtain ⟨docs, hdocs⟩ := hdocs
        rw [hlight.transactions] at htxs
        rw [htransactions, List.mapM_cons, bind_eq_ok_iff] at htxs hdocs
        obtain ⟨dalTx, hstored, -⟩ := htxs
        obtain ⟨doc, hdoc, -⟩ := hdocs
        cases transaction with
        | txDoc txDoc => cases hstored
        | txHash txHash => cases hdoc
  · rintro ⟨hnil, s, hwot, hbefore⟩
    obtain ⟨text, htext⟩ := hlight.returns_generateCompactInnerText htext
    have hlight' := hlight.withInnerHash (some (C.hashInnerText text))
    have hhashed : reduced.computeInnerHash C =
        .ok { reduced with innerHash := some (C.hashInnerText text) } := by
      rw [BlockDocument.computeInnerHash, htext]
      rfl
    refine ⟨s.memory, ?_⟩
    rw [revertBlock, expect_some, ok_bind, hlight.transactions, hnil, List.mapM_nil, pure_bind,
      hhashed, ok_bind, hlight'.blockstamp_eq, hstamp, ok_bind, hlight'.revertWot_eq, hwot, ok_bind]
    exact ⟨_, rfl, hbefore⟩

/-- Reverting the block that was stored gives back the web of trust and the index exactly when the
block has no transaction and can be undone. -/
theorem revertBlock_restores_iff {reqs : ValidBlockApplyReqs} {dalBlock : DALBlock}
    (happly : applyValidBlock C block memory expireCerts = .ok (memory', reqs))
    (hquery : reqs.blocksQuery = .writeBlock dalBlock)
    (htext : Returns block.generateCompactInnerText) (hinv : WotInv memory.wotDb)
    (hbounded : ∀ key id, memory.wotIndex.get? key = some id → id < memory.wotDb.size)
    (hends : ∀ pair ∈ expiring expireCerts, pair.2 < memory.wotDb.size)
    (txDb : HashMap Hash DALTxV10) :
    (∃ before reqs', revertBlock C dalBlock memory' txDb = .ok (before, reqs') ∧
      WotRestored memory before) ↔
    block.transactions = [] ∧ Undoable block memory expireCerts := by
  obtain ⟨blockstamp, s, currencyQueries, reduced, hstamp, hwot, hcurrency, hreduced, hmemory,
    rfl⟩ := applyValidBlock_eq_ok happly
  obtain rfl := BlocksDBsWriteQuery.writeBlock.inj hquery
  rw [currencyRequests, bind_eq_ok_iff] at hcurrency
  obtain ⟨docs, hdocs, -⟩ := hcurrency
  rw [revertBlock_stored (lightenedTo_of_reduce hreduced) hstamp htext ⟨docs, hdocs⟩, hmemory]
  exact and_congr_right fun _ => revertWot_restores_iff hinv hbounded hends hwot blockstamp

/-- Two members, the first of whom has certified the second. -/
def certifiedMemory : WotMemory where
  wotIndex := HashMap.ofList [(⟨1⟩, 0), (⟨2⟩, 1)]
  wotDb := (WebOfTrust.new 3).addNode.addNode.withLink 0 1

/-- A block in which a third key joins and is certified and the first one is renewed. -/
def joiningBlock : BlockDocument :=
  { mockBlock 0 1 with
    identities := [mockIdentity 3]
    joiners := [mockMembership 3]
    actives := [mockMembership 1]
    certifications := [{ mockCertification 0 with target := ⟨3⟩ }] }

/-- The certification between them expires. -/
def expiringCert : HashMap (NodeId × NodeId) BlockNumber := HashMap.ofList [((0, 1), 0)]

/-- This block is undone, also where that certification expires. -/
theorem revertBlock_restores_joiningBlock :
    ∃ memory' reqs dalBlock,
      applyValidBlock mockCrypto joiningBlock certifiedMemory expiringCert = .ok (memory', reqs) ∧
      reqs.blocksQuery = .writeBlock dalBlock ∧
      ∃ before reqs', revertBlock mockCrypto dalBlock memory' ∅ = .ok (before, reqs') ∧
        WotRestored certifiedMemory before := by
  have hok : (applyValidBlock mockCrypto joiningBlock certifiedMemory
      expiringCert).toOption.isSome = true := by decide +kernel
  obtain ⟨memory', reqs, happly⟩ : ∃ memory' reqs, applyValidBlock mockCrypto joiningBlock
      certifiedMemory expiringCert = .ok (memory', reqs) := by
    cases hrun : applyValidBlock mockCrypto joiningBlock certifiedMemory expiringCert with
    | ok result => exact ⟨_, _, rfl⟩
    | error ending =>
        rw [hrun] at hok
        cases hok
  obtain ⟨blockstamp, s, currencyQueries, reduced, -, -, -, -, -, hreqs⟩ :=
    applyValidBlock_eq_ok happly
  have hquery : reqs.blocksQuery = .writeBlock ⟨reduced, some expiringCert⟩ := by rw [hreqs]
  have hinv : WotInv certifiedMemory.wotDb := by
    refine (WotInv.new 3).addNode.addNode.withLink ?_ (by decide)
    exact ⟨by decide, by decide, WotNode.new, rfl, by decide⟩
  have hbounded : ∀ key id, certifiedMemory.wotIndex.get? key = some id →
      id < certifiedMemory.wotDb.size := by
    intro key id hget
    have hall : ∀ entry ∈ certifiedMemory.wotIndex.iter,
        entry.2 < certifiedMemory.wotDb.size := by decide +kernel
    exact hall _ ((HashMap.mem_iter_iff _ _ _).2 hget)
  have hundoable : Undoable joiningBlock certifiedMemory expiringCert := by
    constructor <;> decide +kernel
  refine ⟨memory', reqs, _, happly, hquery, ?_⟩
  exact (revertBlock_restores_iff happly hquery ⟨_, rfl⟩ hinv hbounded (by decide +kernel) ∅).2
    ⟨rfl, hundoable⟩

end Durs
