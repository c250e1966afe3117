/-
# Newcomers

The joiners of a block who are new identities get the next nodes of the graph, and reverting them
takes the last nodes away; the other joiners are enabled both times.
-/

import Durs.Blockchain.BlockUndo

namespace Durs

open RustStd

namespace WebOfTrust

variable {wot : WebOfTrust}

theorem remNode_size : wot.remNode.size = wot.size - 1 := List.length_dropLast

theorem remNode_getElem? (id : NodeId) :
    wot.remNode.nodes[id]? = if id < wot.size - 1 then wot.nodes[id]? else none := by
  rw [remNode, List.dropLast_eq_take, List.getElem?_take]
  rfl

theorem isEnabled_remNode {id : NodeId} (hid : id < wot.size - 1) :
    wot.remNode.isEnabled id = wot.isEnabled id := by
  rw [isEnabled, isEnabled, remNode_getElem?, if_pos hid]

/-- The links of the other nodes stay. -/
theorem hasLink_remNode (source target : NodeId) :
    wot.remNode.hasLink source target = true ↔
      wot.hasLink source target = true ∧ target < wot.size - 1 := by
  rw [hasLink_iff, hasLink_iff, remNode_getElem?]
  constructor
  · rintro ⟨node, hnode, hmem⟩
    split at hnode
    case isTrue hlt => exact ⟨⟨node, hnode, hmem⟩, hlt⟩
    case isFalse => cases hnode
  · rintro ⟨⟨node, hnode, hmem⟩, hlt⟩
    exact ⟨node, (if_pos hlt).trans hnode, hmem⟩

end WebOfTrust

open WebOfTrust WotMemory

variable {C : Crypto} {block : BlockDocument} {memory memory' : WotMemory} {s s' : ApplyState}
  {blockstamp : Blockstamp} {joiners : List MembershipDocument} {joiner : MembershipDocument}

theorem BlockDocument.isRenewal_eq_true_iff {ms : MembershipDocument} :
    block.isRenewal ms = true ↔ block.newIdentities.containsKey ms.issuer = false := by
  rw [BlockDocument.isRenewal, Bool.not_eq_true']

theorem BlockDocument.isRenewal_eq_false_iff {ms : MembershipDocument} :
    block.isRenewal ms = false ↔ block.newIdentities.containsKey ms.issuer = true := by
  rw [BlockDocument.isRenewal, Bool.not_eq_false']

/-- The keys of the newcomers among some joiners. -/
def newKeys (block : BlockDocument) (joiners : List MembershipDocument) : List PubKey :=
  (newcomersAmong block joiners).map MembershipDocument.issuer

/-- The keys of the others. -/
def renewedKeys (block : BlockDocument) (memberships : List MembershipDocument) : List PubKey :=
  (memberships.filter block.isRenewal).map MembershipDocument.issuer

theorem newKeys_cons_of_new (h : block.isRenewal joiner = false)
    (joiners : List MembershipDocument) :
    newKeys block (joiner :: joiners) = joiner.issuer :: newKeys block joiners := by
  rw [newKeys, newcomersAmong, List.filter_cons, if_pos (BlockDocument.isRenewal_eq_false_iff.1 h)]
  rfl

theorem newKeys_cons_of_renewal (h : block.isRenewal joiner = true)
    (joiners : List MembershipDocument) :
    newKeys block (joiner :: joiners) = newKeys block joiners := by
  rw [newKeys, newcomersAmong, List.filter_cons,
    if_neg (Bool.eq_false_iff.1 (BlockDocument.isRenewal_eq_true_iff.1 h))]
  rfl

theorem renewedKeys_cons_of_new (h : block.isRenewal joiner = false)
    (joiners : List MembershipDocument) :
    renewedKeys block (joiner :: joiners) = renewedKeys block joiners := by
  rw [renewedKeys, List.filter_cons_of_neg (Bool.eq_false_iff.1 h)]
  rfl

theorem renewedKeys_cons_of_renewal (h : block.isRenewal joiner = true)
    (joiners : List MembershipDocument) :
    renewedKeys block (joiner :: joiners) = joiner.issuer :: renewedKeys block joiners := by
  rw [renewedKeys, List.filter_cons_of_pos h]
  rfl

/-- A key that is renewed is not the one of a newcomer. -/
theorem ne_issuer_of_mem_renewedKeys {key : PubKey} {memberships : List MembershipDocument}
    (h : key ∈ renewedKeys block memberships) (hnew : block.isRenewal joiner = false) :
    key ≠ joiner.issuer := by
  obtain ⟨ms, hms, rfl⟩ := List.mem_map.1 h
  intro heq
  have hfalse := BlockDocument.isRenewal_eq_true_iff.1 (List.mem_filter.1 hms).2
  rw [heq, BlockDocument.isRenewal_eq_false_iff.1 hnew] at hfalse
  cases hfalse

theorem not_mem_newKeys_of_mem_renewedKeys {key : PubKey} {memberships : List MembershipDocument}
    (h : key ∈ renewedKeys block memberships) : key ∉ newKeys block joiners := by
  intro hmem
  obtain ⟨joiner, hjoiner, rfl⟩ := List.mem_map.1 hmem
  exact ne_issuer_of_mem_renewedKeys h
    (BlockDocument.isRenewal_eq_false_iff.2 (List.mem_filter.1 hjoiner).2) rfl

/-- The index gives the newcomers the next nodes, and the other keys the nodes they had. -/
theorem get?_newcomers (newcomers : List MembershipDocument) (memory : WotMemory) (key : PubKey) :
    (key ∉ newcomers.map MembershipDocument.issuer ∧
      (newcomers.foldl withNewcomer memory).wotIndex.get? key = memory.wotIndex.get? key) ∨
    (key ∈ newcomers.map MembershipDocument.issuer ∧ ∃ id, memory.wotDb.size ≤ id ∧
      (newcomers.foldl withNewcomer memory).wotIndex.get? key = some id) := by
  induction newcomers generalizing memory with
  | nil => exact .inl ⟨List.not_mem_nil, rfl⟩
  | cons newcomer newcomers ih =>
      rw [List.map_cons, List.mem_cons, List.foldl_cons]
      rcases ih (memory.withNewcomer newcomer) with ⟨hnot, hget⟩ | ⟨hmem, id, hid, hget⟩
      · rw [get?_withNewcomer] at hget
        by_cases heq : key = newcomer.issuer
        · rw [if_pos heq] at hget
          exact .inr ⟨.inl heq, _, Nat.le_refl _, hget⟩
        · rw [if_neg heq] at hget
          exact .inl ⟨not_or.2 ⟨heq, hnot⟩, hget⟩
      · rw [size_withNewcomer] at hid
        exact .inr ⟨.inr hmem, id, Nat.le_of_succ_le hid, hget⟩

theorem size_newcomers (newcomers : List MembershipDocument) (memory : WotMemory) :
    (newcomers.foldl withNewcomer memory).wotDb.size = memory.wotDb.size + newcomers.length := by
  induction newcomers generalizing memory with
  | nil => rfl
  | cons newcomer newcomers ih =>
      rw [List.foldl_cons, ih, size_withNewcomer, List.length_cons, Nat.add_assoc,
        Nat.add_comm 1]

theorem maxLinks_newcomers (newcomers : List MembershipDocument) (memory : WotMemory) :
    (newcomers.foldl withNewcomer memory).wotDb.maxLinks = memory.wotDb.maxLinks := by
  induction newcomers generalizing memory with
  | nil => rfl
  | cons newcomer newcomers ih => exact ih (memory.withNewcomer newcomer)

/-! ## Joining -/

/-- A joiner gets a node or is enabled. -/
theorem applyJoiner_cases (hrun : applyJoiner block blockstamp s joiner = .ok s') :
    (block.isRenewal joiner = false ∧ s'.memory = s.memory.withNewcomer joiner) ∨
    (block.isRenewal joiner = true ∧ ∃ id, s.memory.wotIndex.get? joiner.issuer = some id ∧
      s'.memory = { s.memory with wotDb := s.memory.wotDb.setEnabled id true }) := by
  rw [applyJoiner] at hrun
  cases hget : block.newIdentities.get? joiner.issuer with
  | some idtyDoc =>
      rw [hget] at hrun
      obtain rfl := Except.ok.inj hrun
      exact .inl ⟨BlockDocument.isRenewal_eq_false_iff.2 ((HashMap.containsKey_iff _ _).2
        ⟨idtyDoc, hget⟩), rfl⟩
  | none =>
      rw [hget] at hrun
      obtain ⟨id, hindex, heq⟩ := bind_eq_ok_iff.1 hrun
      obtain rfl := Except.ok.inj heq
      exact .inr ⟨BlockDocument.isRenewal_eq_true_iff.2 ((HashMap.containsKey_eq_false_iff _ _).2
        hget), id, ApplyState.index_eq_ok hindex, rfl⟩

/-- What the joiners of a block leave of the graph: the links, and the flags of the nodes that were
there, up to those of the joiners who were known. -/
structure Joined (block : BlockDocument) (joiners : List MembershipDocument)
    (memory memory' : WotMemory) : Prop where
  links : ∀ source target, memory'.wotDb.hasLink source target = memory.wotDb.hasLink source target
  flags : ∀ id, id < memory.wotDb.size → memory'.wotDb.isEnabled id =
    if id ∈ memory.nodesOf (renewedKeys block joiners) then
      (memory.wotDb.isEnabled id).map fun _ => true
    else memory.wotDb.isEnabled id
  inv : WotInv memory.wotDb → WotInv memory'.wotDb

theorem joined_of_foldlM (hrun : joiners.foldlM (applyJoiner block blockstamp) s = .ok s') :
    Joined block joiners s.memory s'.memory := by
  induction joiners generalizing s with
  | nil =>
      obtain rfl := Except.ok.inj hrun
      exact ⟨fun _ _ => rfl, fun _ _ => (if_neg List.not_mem_nil).symm, fun h => h⟩
  | cons joiner joiners ih =>
      rw [List.foldlM_cons, bind_eq_ok_iff] at hrun
      obtain ⟨mid, hmid, hrun⟩ := hrun
      have hrest := ih hrun
      rcases applyJoiner_cases hmid with ⟨hkeep, heq⟩ | ⟨hkeep, wotId, hget, heq⟩
      · rw [heq] at hrest
        have hnodes : (s.memory.withNewcomer joiner).nodesOf (renewedKeys block joiners) =
            s.memory.nodesOf (renewedKeys block joiners) := by
          refine List.filterMap_congr fun key hkey => ?_
          rw [get?_withNewcomer, if_neg (ne_issuer_of_mem_renewedKeys hkey hkeep)]
        refine ⟨fun source target => ?_, fun id hid => ?_, fun h => hrest.inv h.addNode⟩
        · exact (hrest.links source target).trans (Collected.hasLink_addNode ..)
        · have hflag : (s.memory.withNewcomer joiner).wotDb.isEnabled id =
              s.memory.wotDb.isEnabled id :=
            (isEnabled_addNode _ _).trans (if_neg (Nat.ne_of_lt hid))
          have hlt : id < (s.memory.withNewcomer joiner).wotDb.size := by
            rw [size_withNewcomer]
            exact Nat.lt_succ_of_lt hid
          rw [hrest.flags id hlt, hnodes, hflag, renewedKeys_cons_of_new hkeep]
      · rw [heq] at hrest
        have hnodes : s.memory.nodesOf (renewedKeys block (joiner :: joiners)) =
            wotId :: s.memory.nodesOf (renewedKeys block joiners) := by
          rw [renewedKeys_cons_of_renewal hkeep, nodesOf, List.filterMap_cons_some hget]
          rfl
        refine ⟨fun source target => ?_, fun id hid => ?_, fun h => hrest.inv (h.setEnabled _ _)⟩
        · exact (hrest.links source target).trans (Collected.hasLink_setEnabled ..)
        · refine (hrest.flags id (Nat.lt_of_lt_of_eq hid (modifyNode_size _ _).symm)).trans ?_
          change (if id ∈ s.memory.nodesOf (renewedKeys block joiners) then _ else _) = _
          rw [hnodes, isEnabled_setEnabled]
          by_cases heq : id = wotId
          · simp [heq, Function.comp_def]
          · simp [heq]

/-! ## Leaving again -/

/-- Reverting a joiner takes a node away, or leaves the joiner enabled. -/
theorem revertJoiner_cases (s : ApplyState) (joiner : MembershipDocument) :
    (block.isRenewal joiner = false ∧ ∃ requests, revertJoiner block s joiner =
      .ok ⟨⟨s.memory.wotIndex.remove joiner.issuer, s.memory.wotDb.remNode⟩, requests⟩) ∨
    (block.isRenewal joiner = true ∧ ∃ id, s.memory.wotIndex.get? joiner.issuer = some id ∧
      ∃ requests, revertJoiner block s joiner =
        .ok ⟨{ s.memory with wotDb := s.memory.wotDb.setEnabled id true }, requests⟩) ∨
    (block.isRenewal joiner = true ∧ s.memory.wotIndex.get? joiner.issuer = none ∧
      ∃ e, revertJoiner block s joiner = .error e) := by
  rw [revertJoiner]
  cases hkeep : block.isRenewal joiner with
  | false =>
      rw [if_pos (BlockDocument.isRenewal_eq_false_iff.1 hkeep)]
      exact .inl ⟨rfl, _, rfl⟩
  | true =>
      rw [if_neg (Bool.eq_false_iff.1 (BlockDocument.isRenewal_eq_true_iff.1 hkeep)),
        WotMemory.index]
      cases hget : s.memory.wotIndex.get? joiner.issuer with
      | some id => exact .inr (.inl ⟨rfl, id, rfl, _, rfl⟩)
      | none => exact .inr (.inr ⟨rfl, rfl, _, rfl⟩)

/-- What reverting some joiners leaves: the newcomers and the last nodes are gone, the others are
enabled. -/
structure Left (block : BlockDocument) (joiners : List MembershipDocument)
    (memory memory' : WotMemory) : Prop where
  index : ∀ key, memory'.wotIndex.get? key =
    if key ∈ newKeys block joiners then none else memory.wotIndex.get? key
  size : memory'.wotDb.size = memory.wotDb.size - (newKeys block joiners).length
  maxLinks : memory'.wotDb.maxLinks = memory.wotDb.maxLinks
  links : ∀ source target, memory'.wotDb.hasLink source target = true ↔
    memory.wotDb.hasLink source target = true ∧ target < memory'.wotDb.size
  flags : ∀ id, id < memory'.wotDb.size → memory'.wotDb.isEnabled id =
    if id ∈ memory.nodesOf (renewedKeys block joiners) then
      (memory.wotDb.isEnabled id).map fun _ => true
    else memory.wotDb.isEnabled id
  inv : WotInv memory.wotDb → (∀ source target, memory.wotDb.hasLink source target = true →
    source < memory'.wotDb.size ∧ target < memory'.wotDb.size) → WotInv memory'.wotDb

theorem left_nil (memory : WotMemory) : Left block [] memory memory where
  index _ := (if_neg List.not_mem_nil).symm
  size := rfl
  maxLinks := rfl
  links source target := by
    refine (and_iff_left_of_imp fun hlink => ?_).symm
    obtain ⟨node, hnode, -⟩ := hasLink_iff.1 hlink
    exact lt_size hnode
  flags _ _ := (if_neg List.not_mem_nil).symm
  inv h _ := h

/-- A newcomer is taken away first. -/
theorem Left.cons_new {memory' : WotMemory} (hkeep : block.isRenewal joiner = false)
    (h : Left block joiners ⟨memory.wotIndex.remove joiner.issuer, memory.wotDb.remNode⟩ memory') :
    Left block (joiner :: joiners) memory memory' := by
  have hsize : memory'.wotDb.size =
      memory.wotDb.size - (newKeys block (joiner :: joiners)).length := by
    rw [h.size, newKeys_cons_of_new hkeep, List.length_cons, remNode_size]
    omega
  have hle : memory'.wotDb.size ≤ memory.wotDb.size - 1 := by
    rw [h.size, remNode_size]
    exact Nat.sub_le _ _
  constructor
  case index =>
    intro key
    rw [h.index, newKeys_cons_of_new hkeep, HashMap.get?_remove]
    by_cases hkey : key = joiner.issuer
    · simp [hkey]
    · simp [hkey]
  case size => exact hsize
  case maxLinks => exact h.maxLinks
  case links =>
    intro source target
    rw [h.links, hasLink_remNode, and_assoc]
    exact and_congr_right fun _ => and_iff_right_of_imp fun hlt => Nat.lt_of_lt_of_le hlt hle
  case flags =>
    intro id hid
    have hnodes : WotMemory.nodesOf
        ⟨memory.wotIndex.remove joiner.issuer, memory.wotDb.remNode⟩ (renewedKeys block joiners) =
          memory.nodesOf (renewedKeys block joiners) := by
      refine List.filterMap_congr fun key hkey => ?_
      rw [HashMap.get?_remove, if_neg (ne_issuer_of_mem_renewedKeys hkey hkeep)]
    rw [h.flags id hid, hnodes, renewedKeys_cons_of_new hkeep,
      isEnabled_remNode (Nat.lt_of_lt_of_le hid hle)]
  case inv =>
    intro hinv hends
    refine h.inv (hinv.remNode fun id _ => ⟨?_, ?_⟩) fun source target hlink => ?_
    · refine Bool.eq_false_iff.2 fun hlink => ?_
      exact absurd (hends _ _ hlink).1 (Nat.not_lt.2 hle)
    · refine Bool.eq_false_iff.2 fun hlink => ?_
      exact absurd (hends _ _ hlink).2 (Nat.not_lt.2 hle)
    · exact hends source target ((hasLink_remNode source target).1 hlink).1

/-- Another joiner is enabled first. -/
theorem Left.cons_renewal {memory' : WotMemory} (hkeep : block.isRenewal joiner = true)
    {wotId : NodeId} (hget : memory.wotIndex.get? joiner.issuer = some wotId)
    (h : Left block joiners { memory with wotDb := memory.wotDb.setEnabled wotId true } memory') :
    Left block (joiner :: joiners) memory memory' := by
  constructor
  case index => exact fun key => newKeys_cons_of_renewal hkeep joiners ▸ h.index key
  case size =>
    rw [h.size, newKeys_cons_of_renewal hkeep]
    exact congrArg (· - _) (modifyNode_size _ _)
  case maxLinks => exact h.maxLinks
  case links =>
    intro source target
    rw [h.links]
    exact and_congr_left fun _ => Bool.eq_iff_iff.1 (Collected.hasLink_setEnabled ..)
  case flags =>
    intro id hid
    have hnodes : memory.nodesOf (renewedKeys block (joiner :: joiners)) =
        wotId :: memory.nodesOf (renewedKeys block joiners) := by
      rw [renewedKeys_cons_of_renewal hkeep, nodesOf, List.filterMap_cons_some hget]
      rfl
    refine (h.flags id hid).trans ?_
    change (if id ∈ memory.nodesOf (renewedKeys block joiners) then _ else _) = _
    rw [hnodes, isEnabled_setEnabled]
    by_cases heq : id = wotId
    · simp [heq, Function.comp_def]
    · simp [heq]
  case inv =>
    intro hinv hends
    refine h.inv (hinv.setEnabled _ _) fun source target hlink => hends source target ?_
    exact (Collected.hasLink_setEnabled ..).symm.trans hlink

theorem left_of_foldlM (hrun : joiners.foldlM (revertJoiner block) s = .ok s') :
    Left block joiners s.memory s'.memory := by
  induction joiners generalizing s with
  | nil =>
      obtain rfl := Except.ok.inj hrun
      exact left_nil _
  | cons joiner joiners ih =>
      rw [List.foldlM_cons, bind_eq_ok_iff] at hrun
      obtain ⟨mid, hmid, hrun⟩ := hrun
      have hrest := ih hrun
      rcases @revertJoiner_cases block s joiner with ⟨hkeep, requests, heq⟩ |
        ⟨hkeep, wotId, hget, requests, heq⟩ | ⟨-, -, e, heq⟩
      · obtain rfl := Except.ok.inj (hmid.symm.trans heq)
        exact hrest.cons_new hkeep
      · obtain rfl := Except.ok.inj (hmid.symm.trans heq)
        exact hrest.cons_renewal hkeep hget
      · cases hmid.symm.trans heq

/-- The joiners can be reverted when the others have a node. -/
theorem exists_revertJoiners (hknown : ∀ joiner ∈ joiners, block.isRenewal joiner = true →
    s.memory.wotIndex.containsKey joiner.issuer = true) :
    ∃ s', joiners.foldlM (revertJoiner block) s = .ok s' := by
  induction joiners generalizing s with
  | nil => exact ⟨s, rfl⟩
  | cons joiner joiners ih =>
      obtain ⟨hfirst, hrest⟩ := List.forall_mem_cons.1 hknown
      rw [List.foldlM_cons]
      rcases @revertJoiner_cases block s joiner with ⟨hkeep, requests, heq⟩ |
        ⟨hkeep, wotId, hget, requests, heq⟩ | ⟨hkeep, hnone, -⟩
      · rw [heq, ok_bind]
        refine ih fun other hmem hother => ?_
        obtain ⟨id, hget⟩ := (HashMap.containsKey_iff _ _).1 (hrest other hmem hother)
        refine (HashMap.containsKey_iff _ _).2 ⟨id, ?_⟩
        refine (HashMap.get?_remove_of_ne _ fun hissuer => ?_).trans hget
        have hnew := BlockDocument.isRenewal_eq_false_iff.1 hkeep
        rw [← hissuer, BlockDocument.isRenewal_eq_true_iff.1 hother] at hnew
        cases hnew
      · rw [heq, ok_bind]
        exact ih hrest
      · have hsome := hfirst hkeep
        rw [(HashMap.containsKey_eq_false_iff _ _).2 hnone] at hsome
        cases hsome

end Durs
