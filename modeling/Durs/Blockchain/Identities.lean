/-
# Identities, nodes and their index

The index in memory, the nodes of the graph and the store of identities.  The index follows the
store, and the members are the enabled nodes; the index numbers all the nodes as long as no newcomer
joins twice in a block.
-/

import Durs.Blockchain.Certifications

namespace Durs

open RustStd Lib WotMemory Relation

/-! ## Agreement -/

/-- Whether an identity is in the member state. -/
def DALIdentityState.IsMember : DALIdentityState → Prop
  | .member _ => True
  | _ => False

/-- The index gives each known key a node of its own. -/
structure WotMemory.OneToOne (memory : WotMemory) : Prop where
  bounded : ∀ pubkey wotId, memory.wotIndex.get? pubkey = some wotId → wotId < memory.wotDb.size
  injective : ∀ pubkey pubkey' wotId, memory.wotIndex.get? pubkey = some wotId →
    memory.wotIndex.get? pubkey' = some wotId → pubkey = pubkey'

/-- The index in memory is that of the store, and an identity is a member exactly when its node is
enabled. -/
structure IndexAgrees (memory : WotMemory) (identitiesDb : HashMap PubKey DALIdentity) : Prop
    extends memory.OneToOne where
  index : ∀ pubkey, memory.wotIndex.get? pubkey = (getWotIndex identitiesDb).get? pubkey
  member : ∀ pubkey idty, identitiesDb.get? pubkey = some idty →
    (idty.state.IsMember ↔ memory.wotDb.isEnabled idty.wotId = some true)

/-- Every node is that of a known key. -/
def WotMemory.Onto (memory : WotMemory) : Prop :=
  ∀ wotId, wotId < memory.wotDb.size → ∃ pubkey, memory.wotIndex.get? pubkey = some wotId

theorem get?_getWotIndex (identitiesDb : HashMap PubKey DALIdentity) (pubkey : PubKey) :
    (getWotIndex identitiesDb).get? pubkey = (identitiesDb.get? pubkey).map DALIdentity.wotId := by
  have hmap := HashMap.get?_insertAll_map_iter ∅ identitiesDb Function.injective_id
    (fun _ idty => idty.wotId) pubkey
  rw [HashMap.get?_empty, Option.or_none] at hmap
  exact hmap

namespace IndexAgrees

variable {memory memory' : WotMemory} {identitiesDb : HashMap PubKey DALIdentity}
  {pubkey : PubKey} {idty idty' : DALIdentity}

theorem wotId_eq (h : IndexAgrees memory identitiesDb)
    (hget : identitiesDb.get? pubkey = some idty) :
    memory.wotIndex.get? pubkey = some idty.wotId := by
  rw [h.index, get?_getWotIndex, hget]
  rfl

/-- Changing the state of one identity and the flag of its node. -/
theorem update (h : IndexAgrees memory identitiesDb)
    (hget : identitiesDb.get? pubkey = some idty) (hid : idty'.wotId = idty.wotId)
    (hindex : memory'.wotIndex = memory.wotIndex) (hsize : memory'.wotDb.size = memory.wotDb.size)
    (hmember : idty'.state.IsMember ↔ memory'.wotDb.isEnabled idty.wotId = some true)
    (hothers : ∀ id, id ≠ idty.wotId → memory'.wotDb.isEnabled id = memory.wotDb.isEnabled id) :
    IndexAgrees memory' (identitiesDb.insert pubkey idty') where
  index k := by
    rw [hindex, h.index, get?_getWotIndex, get?_getWotIndex, HashMap.get?_insert]
    split
    case isTrue hk => rw [hk, hget, Option.map_some, Option.map_some, hid]
    case isFalse => rfl
  bounded k wotId hk := by
    rw [hindex] at hk
    exact hsize ▸ h.bounded k wotId hk
  injective k k' wotId hk hk' := by
    rw [hindex] at hk hk'
    exact h.injective k k' wotId hk hk'
  member k idty'' hk := by
    rw [HashMap.get?_insert] at hk
    split at hk
    case isTrue =>
      obtain rfl := Option.some.inj hk
      rw [hid]
      exact hmember
    case isFalse hne =>
      rw [hothers, h.member k idty'' hk]
      intro hid'
      have hother := h.wotId_eq hk
      rw [hid'] at hother
      exact hne (h.injective k pubkey _ hother (h.wotId_eq hget))

/-- Changing the graph but the flags of its nodes. -/
theorem of_flags (h : IndexAgrees memory identitiesDb)
    (hindex : memory'.wotIndex = memory.wotIndex) (hsize : memory'.wotDb.size = memory.wotDb.size)
    (hflags : ∀ id, memory'.wotDb.isEnabled id = memory.wotDb.isEnabled id) :
    IndexAgrees memory' identitiesDb where
  index k := by rw [hindex, h.index]
  bounded k wotId hk := by
    rw [hindex] at hk
    exact hsize ▸ h.bounded k wotId hk
  injective k k' wotId hk hk' := by
    rw [hindex] at hk hk'
    exact h.injective k k' wotId hk hk'
  member k idty hk := by rw [hflags, h.member k idty hk]

end IndexAgrees

/-- A new identity is found under its own key. -/
theorem BlockDocument.issuer_of_get?_newIdentities {block : BlockDocument} {pubkey : PubKey}
    {idtyDoc : IdentityDocument} (h : block.newIdentities.get? pubkey = some idtyDoc) :
    idtyDoc.issuer = pubkey := by
  have hmem := HashMap.mem_of_mem_iter_ofList ((HashMap.mem_iter_iff _ _ _).2 h)
  rcases List.mem_map.1 hmem with ⟨identity, -, heq⟩
  rcases Prod.mk.inj heq with ⟨rfl, rfl⟩
  rfl

/-! ## Flags of the nodes -/

namespace WebOfTrust

variable {wot : WebOfTrust}

theorem isEnabled_setEnabled (wot : WebOfTrust) (id : NodeId) (enabled : Bool) (id' : NodeId) :
    (wot.setEnabled id enabled).isEnabled id' =
      if id' = id then (wot.isEnabled id').map fun _ => enabled else wot.isEnabled id' := by
  rw [isEnabled, isEnabled, setEnabled, modifyNode_getElem?]
  cases wot.nodes[id']? with
  | none => simp
  | some node =>
      by_cases h : id' = id
      · simp [h]
      · simp [h, Ne.symm h]

theorem isEnabled_of_lt {id : NodeId} (h : id < wot.size) :
    ∃ enabled, wot.isEnabled id = some enabled := by
  rcases exists_node h with ⟨node, hnode⟩
  exact ⟨node.enabled, by rw [isEnabled, hnode]; rfl⟩

theorem isEnabled_addNode (wot : WebOfTrust) (id : NodeId) :
    wot.addNode.isEnabled id = if id = wot.size then some true else wot.isEnabled id := by
  rw [isEnabled, isEnabled, addNode]
  by_cases h : id = wot.size
  · rw [if_pos h, h, WebOfTrust.size, List.getElem?_concat_length]
    rfl
  · rw [if_neg h]
    rcases Nat.lt_or_gt_of_ne h with hlt | hgt
    · rw [List.getElem?_append_left hlt]
    · have hlast : (wot.nodes ++ [WotNode.new]).length ≤ id := by
        rw [List.length_append]
        exact hgt
      rw [List.getElem?_eq_none hlast, List.getElem?_eq_none (Nat.le_of_lt hgt)]

theorem isEnabled_withLink (source target id : NodeId) :
    (wot.withLink source target).isEnabled id = wot.isEnabled id := by
  rw [isEnabled_eq, isEnabled_eq, withLink_flags]

theorem isEnabled_remLink (source target id : NodeId) :
    (wot.remLink source target).1.isEnabled id = wot.isEnabled id := by
  rcases remLink_cases wot source target with heq | ⟨-, -, hremoved⟩
  · rw [heq]
  · rw [hremoved, isEnabled, isEnabled, modifyNode_getElem?, modifyNode_getElem?, Option.map_map,
      Option.map_map]
    congr 1
    funext node
    by_cases hs : source = id <;> by_cases ht : target = id <;> simp [hs, ht]

theorem foldl_remLink (entries : List ((NodeId × NodeId) × BlockNumber)) (wot : WebOfTrust) :
    (entries.foldl (fun wot entry => (wot.remLink entry.1.1 entry.1.2).1) wot).size = wot.size ∧
      ∀ id, (entries.foldl (fun wot entry => (wot.remLink entry.1.1 entry.1.2).1) wot).isEnabled id =
        wot.isEnabled id := by
  induction entries generalizing wot with
  | nil => exact ⟨rfl, fun _ => rfl⟩
  | cons entry entries ih =>
      rcases ih (wot.remLink entry.1.1 entry.1.2).1 with ⟨hsize, hflags⟩
      exact ⟨hsize.trans (size_remLink _ _),
        fun id => (hflags id).trans (isEnabled_remLink _ _ id)⟩

end WebOfTrust

theorem size_withNewcomer (memory : WotMemory) (joiner : MembershipDocument) :
    (memory.withNewcomer joiner).wotDb.size = memory.wotDb.size + 1 := List.length_append

theorem get?_withNewcomer (memory : WotMemory) (joiner : MembershipDocument) (pubkey : PubKey) :
    (memory.withNewcomer joiner).wotIndex.get? pubkey =
      if pubkey = joiner.issuer then some memory.wotDb.size else memory.wotIndex.get? pubkey :=
  HashMap.get?_insert _ _ _ _

theorem WotMemory.OneToOne.withNewcomer {memory : WotMemory} (h : memory.OneToOne)
    (joiner : MembershipDocument) : (memory.withNewcomer joiner).OneToOne where
  bounded k wotId hk := by
    rw [get?_withNewcomer] at hk
    rw [size_withNewcomer]
    split at hk
    case isTrue =>
      obtain rfl := Option.some.inj hk
      exact Nat.lt_succ_self _
    case isFalse => exact Nat.lt_succ_of_lt (h.bounded k wotId hk)
  injective k k' wotId hk hk' := by
    rw [get?_withNewcomer] at hk hk'
    split at hk <;> split at hk'
    case isTrue.isTrue hk₁ hk₂ => exact hk₁.trans hk₂.symm
    case isTrue.isFalse =>
      obtain rfl := Option.some.inj hk
      exact absurd (h.bounded k' _ hk') (Nat.lt_irrefl _)
    case isFalse.isTrue =>
      obtain rfl := Option.some.inj hk'
      exact absurd (h.bounded k _ hk) (Nat.lt_irrefl _)
    case isFalse.isFalse => exact h.injective k k' wotId hk hk'

/-- A new identity gets the next node, which is enabled. -/
theorem IndexAgrees.create {memory : WotMemory} {identitiesDb : HashMap PubKey DALIdentity}
    (h : IndexAgrees memory identitiesDb) (joiner : MembershipDocument) {idty : DALIdentity}
    (hid : idty.wotId = memory.wotDb.size) (hmember : idty.state.IsMember) :
    IndexAgrees (memory.withNewcomer joiner) (identitiesDb.insert joiner.issuer idty) where
  toOneToOne := h.toOneToOne.withNewcomer joiner
  index k := by
    have hindex := h.index k
    rw [get?_getWotIndex] at hindex ⊢
    rw [get?_withNewcomer, HashMap.get?_insert, hindex]
    split
    case isTrue => rw [Option.map_some, hid]
    case isFalse => rfl
  member k idty' hk := by
    rw [HashMap.get?_insert] at hk
    rw [WotMemory.withNewcomer, WebOfTrust.isEnabled_addNode]
    split at hk
    case isTrue =>
      obtain rfl := Option.some.inj hk
      rw [if_pos hid]
      exact iff_of_true hmember rfl
    case isFalse =>
      rw [if_neg (Nat.ne_of_lt (h.bounded _ _ (h.wotId_eq hk)))]
      exact h.member k idty' hk

/-! ## Requests of the block -/

/-- While a block is applied, the requests that a part of it collects make the store follow what the
part makes of the graph and of the index. -/
def Follows (params : CurrencyParameters) (s s' : ApplyState) : Prop :=
  ∃ requests, s'.requests = s.requests ++ requests ∧
    ∀ dbs dbs' : WotsV10DBs, IndexAgrees s.memory dbs.identitiesDb →
      requests.foldlM (WotsDBsWriteQuery.apply params) dbs = .ok dbs' →
      IndexAgrees s'.memory dbs'.identitiesDb

namespace Follows

variable {params : CurrencyParameters} {s s' s'' : ApplyState}

theorem refl (s : ApplyState) : Follows params s s := by
  refine ⟨[], (List.append_nil _).symm, fun dbs dbs' hagree hrun => ?_⟩
  obtain rfl := Except.ok.inj hrun
  exact hagree

theorem trans (h : Follows params s s') (h' : Follows params s' s'') : Follows params s s'' := by
  rcases h with ⟨requests, happend, hfollow⟩
  rcases h' with ⟨requests', happend', hfollow'⟩
  refine ⟨requests ++ requests', ?_, fun dbs dbs' hagree hrun => ?_⟩
  · rw [happend', happend, List.append_assoc]
  · rw [List.foldlM_append, bind_eq_ok_iff] at hrun
    rcases hrun with ⟨mid, hmid, hrest⟩
    exact hfollow' mid dbs' (hfollow dbs mid hagree hmid) hrest

/-- A part that collects one request. -/
theorem single {request : WotsDBsWriteQuery} (happend : s'.requests = s.requests ++ [request])
    (hfollow : ∀ dbs dbs' : WotsV10DBs, IndexAgrees s.memory dbs.identitiesDb →
      request.apply params dbs = .ok dbs' → IndexAgrees s'.memory dbs'.identitiesDb) :
    Follows params s s' := by
  refine ⟨[request], happend, fun dbs dbs' hagree hrun => hfollow dbs dbs' hagree ?_⟩
  rw [List.foldlM_cons, bind_eq_ok_iff] at hrun
  rcases hrun with ⟨mid, hmid, hrest⟩
  obtain rfl := Except.ok.inj hrest
  exact hmid

/-- Every part of a loop is followed. -/
theorem of_foldlM {α : Type} {step : ApplyState → α → Applying ApplyState}
    (hstep : ∀ s a s', step s a = .ok s' → Follows params s s') {l : List α}
    (hrun : l.foldlM step s = .ok s') : Follows params s s' :=
  foldlM_preserves (P := Follows params s)
    (fun mid a mid' _ hmid hnext => hmid.trans (hstep mid a mid' hnext)) (refl s) hrun

end Follows

section Steps

variable {params : CurrencyParameters} {block : BlockDocument} {s s' : ApplyState}

/-- What the request that comes with a flag makes of the identity: it is a member when the flag is
set. -/
theorem FlagRequest.apply_eq_ok {pubkey : PubKey} {wotId : NodeId} {enabled : Bool}
    {request : WotsDBsWriteQuery} (hflag : FlagRequest pubkey wotId enabled request)
    {dbs dbs' : WotsV10DBs} (h : request.apply params dbs = .ok dbs') :
    ∃ idty idty', dbs.identitiesDb.get? pubkey = some idty ∧ idty'.wotId = idty.wotId ∧
      (idty'.state.IsMember ↔ enabled = true) ∧
      dbs'.identitiesDb = dbs.identitiesDb.insert pubkey idty' := by
  cases hflag with
  | renewal time msCreatedBlockId =>
      simp only [WotsDBsWriteQuery.apply, Durs.renewalIdentity, bind_eq_ok_iff, pure_eq_ok_iff,
        expect_eq_ok_iff] at h
      rcases h with ⟨idty, hget, state, hstate, rfl⟩
      refine ⟨idty, _, hget, ?_, ?_, rfl⟩
      · rfl
      refine iff_of_true ?_ rfl
      revert hstate
      cases idty.state with
      | member counts =>
          intro hstate
          rcases bind_eq_ok_iff.1 hstate with ⟨last, -, heq⟩
          obtain rfl := Except.ok.inj heq
          trivial
      | expireMember counts =>
          intro hstate
          obtain rfl := Except.ok.inj hstate
          trivial
      | _ =>
          intro hstate
          cases hstate
  | exclusion blockstamp =>
      simp only [WotsDBsWriteQuery.apply, Durs.excludeIdentity, bind_eq_ok_iff, pure_eq_ok_iff,
        expect_eq_ok_iff] at h
      rcases h with ⟨idty, hget, state, hstate, rfl⟩
      refine ⟨idty, _, hget, ?_, ?_, rfl⟩
      · rfl
      refine iff_of_false ?_ Bool.false_ne_true
      revert hstate
      cases idty.state with
      | member counts =>
          intro hstate
          obtain rfl := Except.ok.inj hstate
          exact id
      | _ =>
          intro hstate
          cases hstate
  | revocation blockstamp =>
      simp only [WotsDBsWriteQuery.apply, Durs.revokeIdentity, bind_eq_ok_iff, pure_eq_ok_iff,
        expect_eq_ok_iff] at h
      rcases h with ⟨idty, hget, state, hstate, rfl⟩
      refine ⟨idty, _, hget, ?_, ?_, rfl⟩
      · rfl
      refine iff_of_false ?_ Bool.false_ne_true
      revert hstate
      cases idty.state with
      | member counts =>
          intro hstate
          obtain rfl := Except.ok.inj hstate
          exact id
      | expireMember counts =>
          intro hstate
          obtain rfl := Except.ok.inj hstate
          exact id
      | _ =>
          intro hstate
          cases hstate

/-- The store follows each step of the members. -/
theorem MemberStep.follows (hstep : MemberStep block s s') : Follows params s s' := by
  cases hstep with
  | @newcomer joiner idtyDoc blockstamp time hnew =>
      refine .single rfl fun dbs dbs' hagree happly => ?_
      obtain rfl := Except.ok.inj happly
      have hissuer : idtyDoc.issuer = joiner.issuer := block.issuer_of_get?_newIdentities hnew
      have hreduced : idtyDoc.reduce.issuer = joiner.issuer := hissuer
      rw [Durs.createIdentity, hreduced]
      exact hagree.create joiner rfl trivial
  | @flag pubkey wotId enabled request hget hflag =>
      refine .single rfl fun dbs dbs' hagree happly => ?_
      rcases hflag.apply_eq_ok happly with ⟨idty, idty', hidty, hid, hmember, hdb⟩
      obtain rfl : idty.wotId = wotId :=
        Option.some.inj ((hagree.wotId_eq hidty).symm.trans hget)
      rw [hdb]
      refine hagree.update hidty hid rfl (WebOfTrust.modifyNode_size _ _) ?_ fun id hne => ?_
      · rcases WebOfTrust.isEnabled_of_lt (hagree.bounded _ _ hget) with ⟨old, hold⟩
        rw [hmember, ApplyState.setEnabled, WebOfTrust.isEnabled_setEnabled, if_pos rfl, hold,
          Option.map_some, Option.some.injEq]
      · rw [ApplyState.setEnabled, WebOfTrust.isEnabled_setEnabled, if_neg hne]

/-- The store follows a certification, which only changes the next date of the issuer. -/
theorem applyCertification_follows {certification : CompactCertificationDocument}
    (h : applyCertification block s certification = .ok s') : Follows params s s' := by
  rcases applyCertification_eq_ok h with ⟨source, target, hsource, htarget, hcan, rfl⟩
  refine .single rfl fun dbs dbs' hagree happly => ?_
  simp only [WotsDBsWriteQuery.apply, writeCertification, bind_eq_ok_iff, pure_eq_ok_iff,
    expect_eq_ok_iff] at happly
  rcases happly with ⟨idty, hget, rfl⟩
  have hmember := hagree.member _ _ hget
  have hdated : IndexAgrees s.memory (dbs.identitiesDb.insert certification.issuer { idty with
      certChainableOn := idty.certChainableOn ++ [addU64 block.medianTime params.sigPeriod] }) :=
    hagree.update hget rfl rfl rfl hmember fun id _ => rfl
  have hflags : ∀ id, (s.memory.wotDb.withLink source target).isEnabled id =
      s.memory.wotDb.isEnabled id := WebOfTrust.isEnabled_withLink source target
  exact hdated.of_flags rfl WebOfTrust.withLink_size hflags

/-- The store follows the certifications that expire, which do not concern it. -/
theorem expire_follows (s : ApplyState) (expireCerts : HashMap (NodeId × NodeId) BlockNumber) :
    Follows params s (s.expire expireCerts) := by
  rcases expired_expire s expireCerts with ⟨already, hexpired⟩
  rcases hexpired.requests with ⟨blocks, happend, -⟩
  refine ⟨_, happend, fun dbs dbs' hagree hrun => ?_⟩
  have hidentities : dbs'.identitiesDb = dbs.identitiesDb := by
    clear happend hagree
    induction blocks generalizing dbs with
    | nil =>
        obtain rfl := Except.ok.inj hrun
        rfl
    | cons b blocks ih => exact ih (Durs.expireCerts dbs b) hrun
  rw [hidentities]
  rcases WebOfTrust.foldl_remLink expireCerts.iter s.memory.wotDb with ⟨hsize, hflags⟩
  rw [← hexpired.links] at hsize hflags
  exact hagree.of_flags hexpired.index hsize hflags

end Steps

/-! ## Nodes without a key -/

section Onto

variable {memory : WotMemory}

/-- A newcomer with a key of its own gets the only new node; one whose key has a node already takes
the key from that node. -/
theorem onto_withNewcomer_iff (h : memory.OneToOne) (honto : memory.Onto)
    (joiner : MembershipDocument) :
    (memory.withNewcomer joiner).Onto ↔ memory.wotIndex.get? joiner.issuer = none := by
  constructor
  · intro honto'
    by_contra hknown
    rcases Option.ne_none_iff_exists'.1 hknown with ⟨wotId, hget⟩
    have hlt := h.bounded _ _ hget
    rcases honto' wotId (size_withNewcomer memory joiner ▸ Nat.lt_succ_of_lt hlt) with
      ⟨pubkey, hget'⟩
    rw [get?_withNewcomer] at hget'
    split at hget'
    case isTrue => exact absurd (Option.some.inj hget') (Nat.ne_of_gt hlt)
    case isFalse hne => exact hne (h.injective pubkey joiner.issuer wotId hget' hget)
  · intro hunknown wotId hlt
    rw [size_withNewcomer] at hlt
    rcases Nat.lt_succ_iff_lt_or_eq.1 hlt with hlt | rfl
    · rcases honto wotId hlt with ⟨pubkey, hget⟩
      refine ⟨pubkey, ?_⟩
      rw [get?_withNewcomer, if_neg]
      · exact hget
      · rintro rfl
        rw [hunknown] at hget
        cases hget
    · exact ⟨joiner.issuer, (get?_withNewcomer _ _ _).trans (if_pos rfl)⟩

/-- A node that has no key gets none. -/
theorem onto_of_onto_withNewcomer {joiner : MembershipDocument}
    (h : (memory.withNewcomer joiner).Onto) : memory.Onto := by
  intro wotId hlt
  rcases h wotId (size_withNewcomer memory joiner ▸ Nat.lt_succ_of_lt hlt) with ⟨pubkey, hget⟩
  rw [get?_withNewcomer] at hget
  split at hget
  case isTrue => exact absurd (Option.some.inj hget) (Nat.ne_of_gt hlt)
  case isFalse => exact ⟨pubkey, hget⟩

theorem onto_of_onto_foldl {joiners : List MembershipDocument} :
    ∀ {memory : WotMemory}, (joiners.foldl withNewcomer memory).Onto → memory.Onto := by
  induction joiners with
  | nil => exact id
  | cons joiner joiners ih => exact fun h => onto_of_onto_withNewcomer (ih h)

/-- Every node keeps a key exactly when the newcomers have keys of their own. -/
theorem onto_foldl_withNewcomer_iff {joiners : List MembershipDocument} :
    ∀ {memory : WotMemory}, memory.OneToOne → memory.Onto →
      ((joiners.foldl withNewcomer memory).Onto ↔
        (joiners.map MembershipDocument.issuer).Nodup ∧
          ∀ ms ∈ joiners, memory.wotIndex.get? ms.issuer = none) := by
  induction joiners with
  | nil => exact fun _ honto => iff_of_true honto ⟨List.nodup_nil, List.forall_mem_nil _⟩
  | cons joiner joiners ih =>
      intro memory h honto
      rw [List.foldl_cons, List.map_cons, List.nodup_cons, List.forall_mem_cons]
      by_cases hunknown : memory.wotIndex.get? joiner.issuer = none
      · rw [ih (h.withNewcomer joiner) ((onto_withNewcomer_iff h honto joiner).2 hunknown)]
        have hothers : (∀ ms ∈ joiners, (memory.withNewcomer joiner).wotIndex.get? ms.issuer =
            none) ↔ joiner.issuer ∉ joiners.map MembershipDocument.issuer ∧
              ∀ ms ∈ joiners, memory.wotIndex.get? ms.issuer = none := by
          rw [List.mem_map, not_exists]
          simp only [get?_withNewcomer, not_and]
          constructor
          · intro hnone
            refine ⟨fun ms hmem heq => ?_, fun ms hmem => ?_⟩
            · have hget := hnone ms hmem
              rw [if_pos heq] at hget
              cases hget
            · have hget := hnone ms hmem
              split at hget
              case isTrue => cases hget
              case isFalse => exact hget
          · rintro ⟨hne, hnone⟩ ms hmem
            rw [if_neg (hne ms hmem)]
            exact hnone ms hmem
        rw [hothers]
        constructor
        · rintro ⟨hnodup, hnotin, hnone⟩
          exact ⟨⟨hnotin, hnodup⟩, hunknown, hnone⟩
        · rintro ⟨⟨hnotin, hnodup⟩, -, hnone⟩
          exact ⟨hnodup, hnotin, hnone⟩
      · refine iff_of_false (fun honto' => hunknown ?_) fun hall => hunknown hall.2.1
        exact (onto_withNewcomer_iff h honto joiner).1 (onto_of_onto_foldl honto')

end Onto

/-! ## Agreement over runs -/

/-- The index of the store is in memory and numbers all the nodes, the enabled of which are those of
the members. -/
structure IdentitiesAgree (bc : BlockchainModule) : Prop where
  agrees : IndexAgrees bc.memory bc.dbs.wots.identitiesDb
  onto : bc.memory.Onto

/-- Whether the newcomers of a block are keys that the store does not hold. -/
def BlockOp.NewcomersUnknown (op : BlockOp) (bc : BlockchainModule) : Prop :=
  ∀ ms ∈ newcomersAmong op.block op.block.joiners,
    bc.dbs.wots.identitiesDb.get? ms.issuer = none

/-- Whether no newcomer joins twice in a block. -/
def BlockOp.NewcomersOnce (op : BlockOp) : Prop :=
  ((newcomersAmong op.block op.block.joiners).map MembershipDocument.issuer).Nodup

instance (op : BlockOp) : Decidable op.NewcomersOnce :=
  inferInstanceAs (Decidable (List.Nodup _))

section Runs

variable {C : Crypto} {bc bc' : BlockchainModule} {op : BlockOp}

/-- The nodes and the index after a block are those after its newcomers. -/
theorem onto_applyBlock_iff (h : applyBlock C bc op = .ok bc') :
    bc'.memory.Onto ↔ (bc.memory.withNewcomers op.block).Onto := by
  rcases applyBlock_eq_ok h with ⟨blockstamp, s, hwot, hmemory, -, -⟩
  rcases applyWot_eq_ok hwot with ⟨mid, -, hsame, hrun⟩
  have hkept : s.memory.wotIndex = mid.memory.wotIndex ∧
      s.memory.wotDb.size = mid.memory.wotDb.size := by
    refine foldlM_preserves (P := fun s : ApplyState =>
      s.memory.wotIndex = mid.memory.wotIndex ∧ s.memory.wotDb.size = mid.memory.wotDb.size) ?_
      ⟨rfl, rfl⟩ hrun
    rintro s certification s' - ⟨hindex, hsize⟩ hstep
    rcases applyCertification_eq_ok hstep with ⟨source, target, -, -, -, rfl⟩
    exact ⟨hindex, WebOfTrust.withLink_size.trans hsize⟩
  rcases expired_expire s (op.expireCerts bc) with ⟨already, hexpired⟩
  have hlinks := (WebOfTrust.foldl_remLink (op.expireCerts bc).iter s.memory.wotDb).1
  rw [← hexpired.links] at hlinks
  rw [Onto, Onto, hmemory, hexpired.index, hlinks, hkept.1, hkept.2, hsame.index, hsame.size]

/-- The index and the store agree after every block. -/
theorem indexAgrees_applyBlock (hagree : IndexAgrees bc.memory bc.dbs.wots.identitiesDb)
    (h : applyBlock C bc op = .ok bc') : IndexAgrees bc'.memory bc'.dbs.wots.identitiesDb := by
  rcases applyBlock_eq_ok h with ⟨blockstamp, s, hwot, hmemory, hwots, -⟩
  rcases applyWot_eq_ok hwot with ⟨mid, hsteps, -, hrun⟩
  have hmembers : Follows bc.currencyParams ⟨bc.memory, []⟩ mid := by
    clear hrun
    induction hsteps with
    | refl => exact .refl _
    | tail _ hstep ih => exact ih.trans hstep.follows
  have hcertified : Follows bc.currencyParams mid s :=
    .of_foldlM (fun _ _ _ => applyCertification_follows) hrun
  rcases (hmembers.trans hcertified).trans (expire_follows s (op.expireCerts bc)) with
    ⟨requests, happend, hfollow⟩
  rw [List.nil_append] at happend
  rw [happend] at hwots
  rw [hmemory]
  exact hfollow { bc.dbs.wots with wotDb := bc'.dbs.wots.wotDb } _ hagree hwots

/-- From a state in which identities, nodes and index agree, they agree after a block of newcomers
that the store does not hold exactly when none of them joins twice. -/
theorem identitiesAgree_applyBlock_iff (hagree : IdentitiesAgree bc)
    (hunknown : op.NewcomersUnknown bc) (h : applyBlock C bc op = .ok bc') :
    IdentitiesAgree bc' ↔ op.NewcomersOnce := by
  have honto : bc'.memory.Onto ↔ op.NewcomersOnce := by
    rw [onto_applyBlock_iff h, withNewcomers,
      onto_foldl_withNewcomer_iff hagree.agrees.toOneToOne hagree.onto]
    refine and_iff_left fun ms hmem => ?_
    rw [hagree.agrees.index, get?_getWotIndex, hunknown ms hmem]
    rfl
  constructor
  · exact fun hagree' => honto.1 hagree'.onto
  · exact fun honce => ⟨indexAgrees_applyBlock hagree.agrees h, honto.2 honce⟩

theorem identitiesAgree_emptyModule (params : CurrencyParameters) :
    IdentitiesAgree (emptyModule params) where
  agrees := {
    bounded := fun _ _ h => absurd h.symm (Option.some_ne_none _)
    injective := fun _ _ _ h => absurd h.symm (Option.some_ne_none _)
    index := fun _ => rfl
    member := fun _ _ h => absurd h.symm (Option.some_ne_none _) }
  onto := fun _ h => absurd h (Nat.not_lt_zero _)

/-- In every run of blocks whose newcomers are keys that the store does not hold, and of which none
joins twice in a block, identities, nodes and index agree; and a block in which one joins twice ends
the agreement. -/
theorem identitiesAgree_of_reached {params : CurrencyParameters}
    (h : Reached (emptyModule params) (applyBlock C)
      (fun bc op => op.NewcomersUnknown bc ∧ op.NewcomersOnce) bc) :
    IdentitiesAgree bc ∧ ∀ op bc', op.NewcomersUnknown bc → applyBlock C bc op = .ok bc' →
      (IdentitiesAgree bc' ↔ op.NewcomersOnce) := by
  have hinv : IdentitiesAgree bc := by
    refine h.invariant ?_ fun bc op bc' hbc hguard hrun =>
      (identitiesAgree_applyBlock_iff hbc hguard.1 hrun).2 hguard.2
    exact identitiesAgree_emptyModule params
  exact ⟨hinv, fun op bc' => identitiesAgree_applyBlock_iff hinv⟩

/-- A genesis block of an identity, with some memberships of its key. -/
def joiningOp (joiners : List MembershipDocument) : BlockOp :=
  ⟨{ mockBlock 0 0 with identities := [mockIdentity 1], joiners }, []⟩

/-- After a genesis block with one newcomer, identities, nodes and index agree. -/
theorem identitiesAgree_joiningOp :
    ∃ bc, applyBlock mockCrypto (emptyModule default) (joiningOp [mockMembership 1]) = .ok bc ∧
      bc.memory.wotIndex.get? ⟨1⟩ = some 0 ∧ IdentitiesAgree bc := by
  have hrun : ∃ bc, applyBlock mockCrypto (emptyModule default) (joiningOp [mockMembership 1]) =
      .ok bc ∧ bc.memory.wotIndex.get? ⟨1⟩ = some 0 := ⟨_, rfl, by decide +kernel⟩
  rcases hrun with ⟨bc, hrun, hget⟩
  have hguard : (joiningOp [mockMembership 1]).NewcomersUnknown (emptyModule default) ∧
      (joiningOp [mockMembership 1]).NewcomersOnce := ⟨fun _ _ => rfl, by decide +kernel⟩
  exact ⟨bc, hrun, hget, (identitiesAgree_of_reached (.step .init hguard hrun)).1⟩

/-- A newcomer who joins twice gets two nodes, one of which has no key. -/
theorem not_identitiesAgree_joiningOp :
    (joiningOp [mockMembership 1, mockMembership 1]).NewcomersUnknown (emptyModule default) ∧
      ∃ bc, applyBlock mockCrypto (emptyModule default)
          (joiningOp [mockMembership 1, mockMembership 1]) = .ok bc ∧ ¬ IdentitiesAgree bc := by
  refine ⟨fun _ _ => rfl, ?_⟩
  have hrun : ∃ bc, applyBlock mockCrypto (emptyModule default)
      (joiningOp [mockMembership 1, mockMembership 1]) = .ok bc ∧ bc.memory.wotDb.size = 2 ∧
        ∀ entry ∈ bc.memory.wotIndex.iter, entry.2 ≠ 0 := ⟨_, rfl, by decide +kernel⟩
  rcases hrun with ⟨bc, hrun, hsize, hentries⟩
  refine ⟨bc, hrun, fun hagree => ?_⟩
  rcases hagree.onto 0 (hsize.symm ▸ Nat.zero_lt_two) with ⟨pubkey, hget⟩
  exact hentries _ ((HashMap.mem_iter_iff _ _ _).2 hget) rfl

end Runs

end Durs
