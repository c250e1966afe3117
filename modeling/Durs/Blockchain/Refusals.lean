/-
# What a refused block leaves behind

The graph and its index are changed while a block is applied, so an exclusion, a revocation or a
certification of an unknown key refuses the block after the sections before it have been applied.
The state is as before exactly when these had nothing to change.
-/

import Durs.Blockchain.Identities
import Mathlib.Data.List.TakeWhile

namespace Durs

open RustStd WotMemory

/-! ## Setting the flags of some keys -/

namespace WotMemory

/-- Set the flag of the node of a key, if it has one. -/
def setFlag (enabled : Bool) (memory : WotMemory) (pubkey : PubKey) : WotMemory :=
  match memory.wotIndex.get? pubkey with
  | some wotId => { memory with wotDb := memory.wotDb.setEnabled wotId enabled }
  | none => memory

/-- Set the flags of the nodes of some keys. -/
def setFlags (memory : WotMemory) (enabled : Bool) (pubkeys : List PubKey) : WotMemory :=
  pubkeys.foldl (setFlag enabled) memory

/-- Whether a node is that of one of some keys. -/
def IsNodeOf (memory : WotMemory) (pubkeys : List PubKey) (wotId : NodeId) : Prop :=
  ∃ pubkey ∈ pubkeys, memory.wotIndex.get? pubkey = some wotId

instance (memory : WotMemory) (pubkeys : List PubKey) (wotId : NodeId) :
    Decidable (memory.IsNodeOf pubkeys wotId) :=
  inferInstanceAs (Decidable (∃ pubkey ∈ pubkeys, _))

variable {memory : WotMemory} {enabled : Bool}

theorem setFlag_of_get? {pubkey : PubKey} {wotId : NodeId}
    (h : memory.wotIndex.get? pubkey = some wotId) : memory.setFlag enabled pubkey =
      { memory with wotDb := memory.wotDb.setEnabled wotId enabled } := by
  rw [setFlag, h]

theorem setFlag_wotIndex (pubkey : PubKey) :
    (memory.setFlag enabled pubkey).wotIndex = memory.wotIndex := by
  rw [setFlag]
  split <;> rfl

theorem setFlags_cons (pubkey : PubKey) (pubkeys : List PubKey) :
    memory.setFlags enabled (pubkey :: pubkeys) =
      (memory.setFlag enabled pubkey).setFlags enabled pubkeys := rfl

theorem setFlags_append (pubkeys pubkeys' : List PubKey) :
    memory.setFlags enabled (pubkeys ++ pubkeys') =
      (memory.setFlags enabled pubkeys).setFlags enabled pubkeys' := List.foldl_append

theorem setFlags_wotIndex (pubkeys : List PubKey) :
    ∀ {memory : WotMemory}, (memory.setFlags enabled pubkeys).wotIndex = memory.wotIndex := by
  induction pubkeys with
  | nil => exact rfl
  | cons pubkey pubkeys ih => exact ih.trans (setFlag_wotIndex pubkey)

theorem setFlag_getElem? (pubkey : PubKey) (id : NodeId) :
    (memory.setFlag enabled pubkey).wotDb.nodes[id]? = memory.wotDb.nodes[id]?.map fun node =>
      if memory.wotIndex.get? pubkey = some id then { node with enabled } else node := by
  rw [setFlag]
  cases hget : memory.wotIndex.get? pubkey with
  | none => simp
  | some wotId =>
      simp only [WebOfTrust.setEnabled, WebOfTrust.modifyNode_getElem?, Option.some.injEq]

/-- What setting the flags of some keys makes of a node. -/
theorem setFlags_getElem? (pubkeys : List PubKey) (id : NodeId) :
    ∀ {memory : WotMemory}, (memory.setFlags enabled pubkeys).wotDb.nodes[id]? =
      memory.wotDb.nodes[id]?.map fun node =>
        if memory.IsNodeOf pubkeys id then { node with enabled } else node := by
  induction pubkeys with
  | nil =>
      intro memory
      have hnone : ¬ memory.IsNodeOf [] id := fun ⟨_, hmem, _⟩ => List.not_mem_nil hmem
      simp only [if_neg hnone, Option.map_id']
      rfl
  | cons pubkey pubkeys ih =>
      intro memory
      have hrest : (memory.setFlag enabled pubkey).IsNodeOf pubkeys id ↔
          memory.IsNodeOf pubkeys id := by
        rw [IsNodeOf, IsNodeOf, setFlag_wotIndex]
      have hcons : memory.IsNodeOf (pubkey :: pubkeys) id ↔
          memory.wotIndex.get? pubkey = some id ∨ memory.IsNodeOf pubkeys id := by
        rw [IsNodeOf, List.exists_mem_cons_iff]
        rfl
      rw [setFlags_cons, ih, setFlag_getElem?, Option.map_map]
      congr 1
      funext node
      by_cases hfirst : memory.wotIndex.get? pubkey = some id <;>
        by_cases hothers : memory.IsNodeOf pubkeys id <;>
        simp [hrest, hcons, hfirst, hothers]

theorem setFlags_maxLinks (pubkeys : List PubKey) : ∀ {memory : WotMemory},
    (memory.setFlags enabled pubkeys).wotDb.maxLinks = memory.wotDb.maxLinks := by
  induction pubkeys with
  | nil => exact rfl
  | cons pubkey pubkeys ih =>
      intro memory
      refine ih.trans ?_
      rw [setFlag]
      split <;> rfl

theorem setFlags_size (pubkeys : List PubKey) : ∀ {memory : WotMemory},
    (memory.setFlags enabled pubkeys).wotDb.size = memory.wotDb.size := by
  induction pubkeys with
  | nil => exact rfl
  | cons pubkey pubkeys ih =>
      intro memory
      refine ih.trans ?_
      rw [setFlag]
      split
      case h_1 => exact WebOfTrust.modifyNode_size _ _
      case h_2 => rfl

end WotMemory

/-! ## The sections of a block -/

/-- The keys whose membership a block renews. -/
def BlockDocument.renewed (block : BlockDocument) : List PubKey :=
  ((block.joiners ++ block.actives).filter fun ms =>
    !block.newIdentities.containsKey ms.issuer).map MembershipDocument.issuer

/-- The keys that a block excludes or revokes. -/
def BlockDocument.left (block : BlockDocument) : List PubKey :=
  block.excluded ++ block.revoked.map CompactRevocationDocument.issuer

/-- The keys that a block excludes or revokes before it is refused for an unknown one. -/
def BlockDocument.disabled (block : BlockDocument) (memory : WotMemory) : List PubKey :=
  block.left.takeWhile memory.wotIndex.containsKey

/-- The certifications that a block links before it is refused for one of an unknown key. -/
def BlockDocument.linked (block : BlockDocument) (memory : WotMemory) :
    List CompactCertificationDocument :=
  if block.left.all memory.wotIndex.containsKey then
    block.certifications.takeWhile memory.knows
  else []

variable {block : BlockDocument} {memory memory' : WotMemory} {s s' : ApplyState}
  {blockstamp : Blockstamp}

/-- A loop over memberships that sets the flags of those that it renews. -/
theorem memory_of_foldlM_renewals {step : ApplyState → MembershipDocument → Applying ApplyState}
    {renews : MembershipDocument → Bool} {l : List MembershipDocument}
    (hskip : ∀ s s', ∀ ms ∈ l, renews ms = false → step s ms = .ok s' → s' = s)
    (hrenew : ∀ s s', ∀ ms ∈ l, renews ms = true → step s ms = .ok s' → ∃ wotId request,
      s.memory.wotIndex.get? ms.issuer = some wotId ∧ s' = s.setEnabled wotId true request)
    (h : l.foldlM step s = .ok s') :
    s'.memory = s.memory.setFlags true ((l.filter renews).map MembershipDocument.issuer) := by
  induction l generalizing s with
  | nil =>
      obtain rfl := Except.ok.inj h
      rfl
  | cons ms l ih =>
      rw [List.foldlM_cons, bind_eq_ok_iff] at h
      rcases h with ⟨mid, hstep, hrest⟩
      have hrest := ih (fun s s' ms hmem => hskip s s' ms (List.mem_cons_of_mem _ hmem))
        (fun s s' ms hmem => hrenew s s' ms (List.mem_cons_of_mem _ hmem)) hrest
      rw [List.filter_cons]
      cases hms : renews ms with
      | false =>
          obtain rfl := hskip s mid ms List.mem_cons_self hms hstep
          exact hrest
      | true =>
          rcases hrenew s mid ms List.mem_cons_self hms hstep with ⟨wotId, request, hget, rfl⟩
          refine hrest.trans ?_
          rw [if_pos rfl, List.map_cons, setFlags_cons, setFlag_of_get? hget]
          rfl

/-- A loop over keys that disables those that are known, and refuses the block at the first that is
not. -/
theorem foldlM_disable {α : Type} (step : ApplyState → α → Applying ApplyState) (key : α → PubKey)
    (error : ApplyValidBlockError)
    (hknown : ∀ s a wotId, s.memory.wotIndex.get? (key a) = some wotId →
      ∃ request, step s a = .ok (s.setEnabled wotId false request))
    (hunknown : ∀ s a, s.memory.wotIndex.get? (key a) = none →
      step s a = .error (.refused error s.memory)) (l : List α) :
    ∀ s : ApplyState,
      ((l.map key).all s.memory.wotIndex.containsKey = true ∧ ∃ s', l.foldlM step s = .ok s' ∧
        s'.memory = s.memory.setFlags false (l.map key)) ∨
      ((l.map key).all s.memory.wotIndex.containsKey = false ∧ l.foldlM step s = .error
        (.refused error (s.memory.setFlags false
          ((l.map key).takeWhile s.memory.wotIndex.containsKey)))) := by
  induction l with
  | nil => exact fun s => .inl ⟨rfl, s, rfl, rfl⟩
  | cons a l ih =>
      intro s
      rw [List.foldlM_cons, List.map_cons, List.all_cons, List.takeWhile_cons]
      cases hget : s.memory.wotIndex.get? (key a) with
      | none =>
          rw [(HashMap.containsKey_eq_false_iff _ _).2 hget, hunknown s a hget, error_bind]
          exact .inr ⟨rfl, rfl⟩
      | some wotId =>
          rcases hknown s a wotId hget with ⟨request, hstep⟩
          rw [(HashMap.containsKey_iff _ _).2 ⟨wotId, hget⟩, hstep, ok_bind]
          have hflag : (s.setEnabled wotId false request).memory =
              s.memory.setFlag false (key a) := (setFlag_of_get? hget).symm
          have hindex : (s.setEnabled wotId false request).memory.wotIndex = s.memory.wotIndex :=
            rfl
          rcases ih (s.setEnabled wotId false request) with ⟨hall, s', hrun, hs'⟩ | ⟨hall, hrun⟩
          · rw [hindex] at hall
            refine .inl ⟨hall, s', hrun, hs'.trans ?_⟩
            rw [hflag]
            rfl
          · rw [hindex] at hall hrun
            refine .inr ⟨hall, hrun.trans ?_⟩
            rw [hflag]
            rfl

/-- What a block without newcomers makes of the flags. -/
def BlockDocument.flagged (block : BlockDocument) (memory : WotMemory) : WotMemory :=
  (memory.setFlags true block.renewed).setFlags false (block.disabled memory)

/-- A certification refuses the block when one of its keys is unknown. -/
theorem applyCertification_eq_refused {certification : CompactCertificationDocument}
    {error : ApplyValidBlockError}
    (h : applyCertification block s certification = .error (.refused error memory')) :
    s.memory.knows certification = false ∧ memory' = s.memory := by
  rw [applyCertification] at h
  rw [knows, Bool.and_eq_false_iff, HashMap.containsKey_eq_false_iff,
    HashMap.containsKey_eq_false_iff]
  cases hsource : s.memory.wotIndex.get? certification.issuer with
  | none =>
      rw [hsource] at h
      cases h
      exact ⟨.inl rfl, rfl⟩
  | some source =>
      cases htarget : s.memory.wotIndex.get? certification.target with
      | none =>
          rw [hsource, htarget] at h
          cases h
          exact ⟨.inr rfl, rfl⟩
      | some target =>
          rw [hsource, htarget] at h
          simp only at h
          split at h
          case h_1 => cases h
          case h_2 => cases h

/-- The certifications before the first of an unknown key have been linked. -/
theorem foldlM_certifications_eq_refused {certifications : List CompactCertificationDocument}
    {error : ApplyValidBlockError} {linked : List CompactCertificationDocument}
    (hlinked : LinkedFrom memory linked s.memory)
    (h : certifications.foldlM (applyCertification block) s = .error (.refused error memory')) :
    LinkedFrom memory (linked ++ certifications.takeWhile memory.knows) memory' ∧
      (certifications.takeWhile memory.knows = [] → memory' = s.memory) := by
  induction certifications generalizing s linked with
  | nil => cases h
  | cons first certifications ih =>
      rw [List.foldlM_cons] at h
      have hknows : s.memory.knows first = memory.knows first := by
        rw [knows, knows, hlinked.index]
      rcases applyCertification_cases block hlinked first with ⟨hnot, ending, -, hstep⟩ |
        ⟨hyes, -, mid, hstep, hmid⟩ | ⟨-, -, ending, hends, hstep⟩
      · rw [hstep, error_bind] at h
        obtain rfl := Except.error.inj h
        obtain rfl := (applyCertification_eq_refused hstep).2
        rw [List.takeWhile_cons_of_neg (Bool.eq_false_iff.1 hnot), List.append_nil]
        exact ⟨hlinked, fun _ => rfl⟩
      · rw [hstep, ok_bind] at h
        rw [List.takeWhile_cons_of_pos hyes, List.append_cons]
        exact ⟨(ih hmid h).1, fun hnil => absurd hnil (List.cons_ne_nil _ _)⟩
      · rw [hstep, error_bind] at h
        obtain rfl := Except.error.inj h
        exact absurd hends (not_stops_refused _ _)

theorem foldlM_exclusions (blockstamp : Blockstamp) (excluded : List PubKey) (s : ApplyState) :
    (excluded.all s.memory.wotIndex.containsKey = true ∧
      ∃ s', excluded.foldlM (applyExclusion blockstamp) s = .ok s' ∧
        s'.memory = s.memory.setFlags false excluded) ∨
    (excluded.all s.memory.wotIndex.containsKey = false ∧
      excluded.foldlM (applyExclusion blockstamp) s = .error (.refused .excludeUnknowNodeId
        (s.memory.setFlags false (excluded.takeWhile s.memory.wotIndex.containsKey)))) := by
  have hcases := foldlM_disable (applyExclusion blockstamp) (fun pubkey => pubkey)
    .excludeUnknowNodeId (fun s pubkey wotId hget => ⟨_, by rw [applyExclusion, hget]; rfl⟩)
    (fun s pubkey hget => by rw [applyExclusion, hget]) excluded s
  rw [List.map_id'] at hcases
  exact hcases

theorem foldlM_revocations (blockstamp : Blockstamp) (revoked : List CompactRevocationDocument)
    (s : ApplyState) :
    ((revoked.map CompactRevocationDocument.issuer).all s.memory.wotIndex.containsKey = true ∧
      ∃ s', revoked.foldlM (applyRevocation blockstamp) s = .ok s' ∧
        s'.memory = s.memory.setFlags false (revoked.map CompactRevocationDocument.issuer)) ∨
    ((revoked.map CompactRevocationDocument.issuer).all s.memory.wotIndex.containsKey = false ∧
      revoked.foldlM (applyRevocation blockstamp) s = .error (.refused .revokeUnknowNodeId
        (s.memory.setFlags false ((revoked.map CompactRevocationDocument.issuer).takeWhile
          s.memory.wotIndex.containsKey)))) :=
  foldlM_disable (applyRevocation blockstamp) CompactRevocationDocument.issuer .revokeUnknowNodeId
    (fun s revocation wotId hget => ⟨_, by rw [applyRevocation, hget]; rfl⟩)
    (fun s revocation hget => by rw [applyRevocation, hget]) revoked s

/-- The keys before the first that is not known, when it is among the first list. -/
theorem takeWhile_append_of_not_all {α : Type} {p : α → Bool} {l l' : List α}
    (h : l.all p = false) : (l ++ l').takeWhile p = l.takeWhile p := by
  rw [List.takeWhile_append, if_neg]
  intro hlength
  have hself : l.takeWhile p = l := (List.takeWhile_prefix p).eq_of_length hlength
  rcases List.all_eq_false.1 h with ⟨a, hmem, hnot⟩
  exact hnot (List.takeWhile_eq_self_iff.1 hself a hmem)

/-- Setting flags changes neither the index nor the links issued. -/
theorem WotMemory.SameCounts.setFlags (h : SameCounts memory memory') (enabled : Bool)
    (pubkeys : List PubKey) : SameCounts memory (memory'.setFlags enabled pubkeys) where
  index := (setFlags_wotIndex pubkeys).trans h.index
  size := (setFlags_size pubkeys).trans h.size
  maxLinks := (setFlags_maxLinks pubkeys).trans h.maxLinks
  issued id := by
    rw [← h.issued id, WebOfTrust.issuedCount, WebOfTrust.issuedCount, setFlags_getElem?,
      Option.map_map]
    congr 1
    funext node
    simp only [Function.comp_apply]
    split <;> rfl

/-- Apply the memberships of a block. -/
def applyMembers (block : BlockDocument) (memory : WotMemory) (blockstamp : Blockstamp) :
    Applying ApplyState := do
  let s ← block.joiners.foldlM (applyJoiner block blockstamp) ⟨memory, []⟩
  block.actives.foldlM (applyActive block) s

/-- Apply the exclusions and the revocations of a block. -/
def applyLeft (block : BlockDocument) (blockstamp : Blockstamp) (s : ApplyState) :
    Applying ApplyState := do
  let s ← block.excluded.foldlM (applyExclusion blockstamp) s
  block.revoked.foldlM (applyRevocation blockstamp) s

theorem applyWot_eq (block : BlockDocument) (memory : WotMemory) (blockstamp : Blockstamp) :
    applyWot block memory blockstamp = applyMembers block memory blockstamp >>= fun s =>
      applyLeft block blockstamp s >>= block.certifications.foldlM (applyCertification block) := by
  simp only [applyWot, applyMembers, applyLeft, bind_assoc]

/-- The memberships never refuse a block; those of a block without newcomers set the flags of the
renewed keys. -/
theorem applyMembers_cases (block : BlockDocument) (memory : WotMemory)
    (blockstamp : Blockstamp) :
    (∃ s, applyMembers block memory blockstamp = .ok s ∧
      SameCounts (memory.withNewcomers block) s.memory ∧
      (newcomersAmong block block.joiners = [] →
        s.memory = memory.setFlags true block.renewed)) ∨
    ∃ ending, ending.Stops ∧ applyMembers block memory blockstamp = .error ending := by
  rw [applyMembers]
  rcases foldlM_joiners blockstamp (s := ⟨memory, []⟩) (SameCounts.refl memory) with
    ⟨-, s₁, hjoiners, hsame₁⟩ | ⟨-, ending, hends, hjoiners⟩
  case inr =>
    rw [hjoiners, error_bind]
    exact .inr ⟨ending, hends, rfl⟩
  rw [hjoiners, ok_bind]
  rcases foldlM_of_cases (fun _ => applyActive_cases block) hsame₁ with
    ⟨-, s₂, hactives, hsame₂⟩ | ⟨-, ending, hends, hactives⟩
  case inr => exact .inr ⟨ending, hends, hactives⟩
  refine .inl ⟨s₂, hactives, hsame₂, fun hnone => ?_⟩
  have hold : ∀ ms ∈ block.joiners, (!block.newIdentities.containsKey ms.issuer) = true := by
    intro ms hmem
    rw [Bool.eq_false_iff.2 (List.filter_eq_nil_iff.1 hnone ms hmem)]
    rfl
  have hjoined : s₁.memory = memory.setFlags true ((block.joiners.filter fun ms =>
      !block.newIdentities.containsKey ms.issuer).map MembershipDocument.issuer) := by
    refine memory_of_foldlM_renewals ?_ ?_ hjoiners
    · intro s s' ms hmem hnew
      rw [hold ms hmem] at hnew
      cases hnew
    · intro s s' ms _ hnew hstep
      have hget := (HashMap.containsKey_eq_false_iff _ _).1 (Bool.not_eq_true' _ ▸ hnew)
      rw [applyJoiner, hget] at hstep
      rcases bind_eq_ok_iff.1 hstep with ⟨wotId, hindex, heq⟩
      exact ⟨wotId, _, ApplyState.index_eq_ok hindex, (Except.ok.inj heq).symm⟩
  have hactive : s₂.memory = s₁.memory.setFlags true ((block.actives.filter fun ms =>
      !block.newIdentities.containsKey ms.issuer).map MembershipDocument.issuer) := by
    refine memory_of_foldlM_renewals ?_ ?_ hactives
    · intro s s' ms _ hnew hstep
      rw [applyActive, if_pos (Bool.not_eq_false' _ ▸ hnew)] at hstep
      exact (Except.ok.inj hstep).symm
    · intro s s' ms _ hnew hstep
      rw [applyActive, if_neg (Bool.eq_false_iff.1 (Bool.not_eq_true' _ ▸ hnew))] at hstep
      rcases bind_eq_ok_iff.1 hstep with ⟨wotId, hindex, heq⟩
      exact ⟨wotId, _, ApplyState.index_eq_ok hindex, (Except.ok.inj heq).symm⟩
  rw [hactive, hjoined, BlockDocument.renewed, List.filter_append, List.map_append,
    setFlags_append]

/-- The exclusions and the revocations disable the nodes of the known keys before the first unknown
one, which refuses the block. -/
theorem applyLeft_cases (block : BlockDocument) (blockstamp : Blockstamp) (s : ApplyState) :
    (block.left.all s.memory.wotIndex.containsKey = true ∧
      ∃ s', applyLeft block blockstamp s = .ok s' ∧
        s'.memory = s.memory.setFlags false (block.disabled s.memory)) ∨
    (block.left.all s.memory.wotIndex.containsKey = false ∧
      ∃ error, applyLeft block blockstamp s =
        .error (.refused error (s.memory.setFlags false (block.disabled s.memory)))) := by
  rw [applyLeft, BlockDocument.disabled, BlockDocument.left, List.all_append]
  rcases foldlM_exclusions blockstamp block.excluded s with ⟨hall, mid, hrun, hmid⟩ | ⟨hall, hrun⟩
  case inr =>
    rw [hrun, error_bind, hall, takeWhile_append_of_not_all hall]
    exact .inr ⟨rfl, _, rfl⟩
  have hindex : mid.memory.wotIndex = s.memory.wotIndex := hmid ▸ setFlags_wotIndex _
  rw [hrun, ok_bind, hall, Bool.true_and, List.takeWhile_append_of_pos (List.all_eq_true.1 hall),
    setFlags_append, ← hmid, ← hindex]
  rcases foldlM_revocations blockstamp block.revoked mid with
    ⟨hrevoked, s', hrun', hs'⟩ | ⟨hrevoked, hrun'⟩
  · refine .inl ⟨hrevoked, s', hrun', hs'.trans ?_⟩
    rw [List.takeWhile_eq_self_iff.2 (List.all_eq_true.1 hrevoked)]
  · exact .inr ⟨hrevoked, _, hrun'⟩

/-- What a block leaves behind when it is refused while it is applied: its newcomers, the
certifications linked so far and, when there are none of these, the flags set so far. -/
theorem applyWot_eq_refused {error : ApplyValidBlockError}
    (h : applyWot block memory blockstamp = .error (.refused error memory')) :
    LinkedFrom (memory.withNewcomers block) (block.linked (memory.withNewcomers block)) memory' ∧
      (newcomersAmong block block.joiners = [] →
        block.linked (memory.withNewcomers block) = [] → memory' = block.flagged memory) := by
  rw [applyWot_eq] at h
  rcases applyMembers_cases block memory blockstamp with ⟨s, hrun, hsame, hrenewed⟩ |
    ⟨ending, hends, hrun⟩
  case inr =>
    rw [hrun, error_bind] at h
    obtain rfl := Except.error.inj h
    exact absurd hends (not_stops_refused _ _)
  rw [hrun, ok_bind] at h
  have hindex : s.memory.wotIndex = (memory.withNewcomers block).wotIndex := hsame.index
  have hflagged : newcomersAmong block block.joiners = [] →
      s.memory.setFlags false (block.disabled s.memory) = block.flagged memory := by
    intro hnone
    rw [BlockDocument.flagged, hrenewed hnone, BlockDocument.disabled, BlockDocument.disabled,
      setFlags_wotIndex]
  rcases applyLeft_cases block blockstamp s with ⟨hall, s', hrun', hs'⟩ | ⟨hall, error', hrun'⟩
  · rw [hrun', ok_bind] at h
    rw [hindex] at hall
    have hsame' : SameCounts (memory.withNewcomers block) s'.memory := hs' ▸ hsame.setFlags _ _
    rcases foldlM_certifications_eq_refused hsame'.linkedFrom h with ⟨hlinked, hkept⟩
    rw [BlockDocument.linked, if_pos hall]
    exact ⟨hlinked, fun hnone hnil => (hkept hnil).trans (hs'.trans (hflagged hnone))⟩
  · rw [hrun', error_bind] at h
    rcases ApplyEnd.refused.inj (Except.error.inj h) with ⟨rfl, rfl⟩
    rw [hindex] at hall
    rw [BlockDocument.linked, if_neg (Bool.eq_false_iff.1 hall)]
    exact ⟨(hsame.setFlags _ _).linkedFrom, fun hnone _ => hflagged hnone⟩

/-! ## Refused blocks -/

/-- Whether a block that is refused while it is applied has nothing to change before: no newcomer,
no certification to link, and only flags that are set as they are already. -/
structure LeavesNoTrace (block : BlockDocument) (memory : WotMemory) : Prop where
  newcomers : newcomersAmong block block.joiners = []
  certifications : block.linked memory = []
  disabled : ∀ wotId, memory.IsNodeOf (block.disabled memory) wotId →
    memory.wotDb.isEnabled wotId ≠ some true
  renewed : ∀ wotId, memory.IsNodeOf block.renewed wotId →
    ¬ memory.IsNodeOf (block.disabled memory) wotId → memory.wotDb.isEnabled wotId ≠ some false

/-- What the flags of a block make of a node. -/
theorem flagged_getElem? (block : BlockDocument) (memory : WotMemory) (id : NodeId) :
    (block.flagged memory).wotDb.nodes[id]? = memory.wotDb.nodes[id]?.map fun node =>
      if memory.IsNodeOf (block.disabled memory) id then { node with enabled := false }
      else if memory.IsNodeOf block.renewed id then { node with enabled := true } else node := by
  have hnode : (memory.setFlags true block.renewed).IsNodeOf (block.disabled memory) id ↔
      memory.IsNodeOf (block.disabled memory) id := by
    rw [IsNodeOf, IsNodeOf, setFlags_wotIndex]
  rw [BlockDocument.flagged, setFlags_getElem?, setFlags_getElem?, Option.map_map]
  congr 1
  funext node
  by_cases hleft : memory.IsNodeOf (block.disabled memory) id <;>
    by_cases hrenewed : memory.IsNodeOf block.renewed id <;> simp [hnode, hleft, hrenewed]

theorem flagged_eq_self_iff (block : BlockDocument) (memory : WotMemory) :
    block.flagged memory = memory ↔
      (∀ wotId, memory.IsNodeOf (block.disabled memory) wotId →
        memory.wotDb.isEnabled wotId ≠ some true) ∧
      ∀ wotId, memory.IsNodeOf block.renewed wotId →
        ¬ memory.IsNodeOf (block.disabled memory) wotId →
        memory.wotDb.isEnabled wotId ≠ some false := by
  constructor
  · intro heq
    have hnode := fun id => flagged_getElem? block memory id
    rw [heq] at hnode
    refine ⟨fun wotId hleft henabled => ?_, fun wotId hrenewed hleft henabled => ?_⟩
    · rcases Option.map_eq_some_iff.1 henabled with ⟨node, hget, hflag⟩
      have hsame := hnode wotId
      rw [hget, Option.map_some, if_pos hleft, Option.some.injEq] at hsame
      rw [hsame] at hflag
      cases hflag
    · rcases Option.map_eq_some_iff.1 henabled with ⟨node, hget, hflag⟩
      have hsame := hnode wotId
      rw [hget, Option.map_some, if_neg hleft, if_pos hrenewed, Option.some.injEq] at hsame
      rw [hsame] at hflag
      cases hflag
  · rintro ⟨hdisabled, hrenewed⟩
    have hindex : (block.flagged memory).wotIndex = memory.wotIndex :=
      (setFlags_wotIndex _).trans (setFlags_wotIndex _)
    have hlinks : (block.flagged memory).wotDb.maxLinks = memory.wotDb.maxLinks :=
      (setFlags_maxLinks _).trans (setFlags_maxLinks _)
    have hnodes : (block.flagged memory).wotDb.nodes = memory.wotDb.nodes := by
      refine List.ext_getElem? fun id => ?_
      rw [flagged_getElem?]
      cases hget : memory.wotDb.nodes[id]? with
      | none => rfl
      | some node =>
          have henabled : memory.wotDb.isEnabled id = some node.enabled := by
            rw [WebOfTrust.isEnabled, hget]
            rfl
          rw [Option.map_some, Option.some.injEq]
          split
          case isTrue hleft =>
            have hflag := hdisabled id hleft
            rw [henabled, ne_eq, Option.some.injEq, Bool.not_eq_true] at hflag
            rw [← hflag]
          case isFalse hleft =>
            split
            case isTrue hrenew =>
              have hflag := hrenewed id hrenew hleft
              rw [henabled, ne_eq, Option.some.injEq, Bool.not_eq_false] at hflag
              rw [← hflag]
            case isFalse => rfl
    have hwot : (block.flagged memory).wotDb = memory.wotDb := by
      cases hflagged : (block.flagged memory).wotDb with
      | mk nodes maxLinks =>
          rw [hflagged] at hnodes hlinks
          exact congrArg₂ WebOfTrust.mk hnodes hlinks
    cases hflagged : block.flagged memory with
    | mk wotIndex wotDb =>
        rw [hflagged] at hindex hwot
        exact congrArg₂ WotMemory.mk hindex hwot

theorem size_foldl_withNewcomer (joiners : List MembershipDocument) :
    ∀ memory : WotMemory,
      (joiners.foldl withNewcomer memory).wotDb.size = memory.wotDb.size + joiners.length := by
  induction joiners with
  | nil => exact fun _ => rfl
  | cons joiner joiners ih =>
      intro memory
      rw [List.foldl_cons, ih, size_withNewcomer, List.length_cons, Nat.add_assoc,
        Nat.add_comm 1]

/-- A block that has linked a certification has changed the number of links that a node issues. -/
theorem linked_eq_nil (happlicable : Applicable block memory)
    (hsame : memory.withNewcomers block = memory)
    (hlinked : LinkedFrom memory (block.linked memory) memory) : block.linked memory = [] := by
  by_contra hsome
  rcases List.exists_cons_of_ne_nil hsome with ⟨first, rest, hcons⟩
  have hissued := hlinked.issued
  rw [hcons] at hissued
  rw [BlockDocument.linked] at hcons
  split at hcons
  case isFalse => cases hcons
  case isTrue hall =>
    have hlinkable := happlicable.linkable
    rw [hsame] at hlinkable
    have hfirst := hlinkable (List.all_eq_true.1 hall) [] first rest hcons
    have hknows : memory.knows first = true :=
      List.mem_takeWhile_imp (hcons ▸ List.mem_cons_self : first ∈ _)
    rcases Bool.and_eq_true_iff.1 hknows with ⟨hissuer, htarget⟩
    rcases (HashMap.containsKey_iff _ _).1 hissuer with ⟨source, hsource⟩
    rcases (HashMap.containsKey_iff _ _).1 htarget with ⟨target, htarget⟩
    rcases hfirst source target hsource htarget with ⟨-, -, issued, hcount, -⟩
    have hpos : 0 < memory.issuedAmong source (first :: rest) :=
      List.countP_pos_iff.2 ⟨first, List.mem_cons_self, decide_eq_true hsource⟩
    have hmore := hissued source
    rw [hcount, Option.map_some, Option.some.injEq] at hmore
    exact absurd hmore (Nat.ne_of_lt (Nat.lt_add_of_pos_right hpos))

/-- A block that is refused while it is applied leaves the graph and its index as they are exactly
when it has nothing to change before. -/
theorem applyWot_refused_iff {error : ApplyValidBlockError}
    (h : applyWot block memory blockstamp = .error (.refused error memory')) :
    memory' = memory ↔ LeavesNoTrace block memory := by
  rcases applyWot_eq_refused h with ⟨hlinked, hflagged⟩
  have hsame : newcomersAmong block block.joiners = [] → memory.withNewcomers block = memory :=
    fun hnone => congrArg (List.foldl withNewcomer memory) hnone
  constructor
  · rintro rfl
    have hnone : newcomersAmong block block.joiners = [] := by
      have hsize := hlinked.size.trans (size_foldl_withNewcomer _ memory')
      exact List.eq_nil_of_length_eq_zero (Nat.left_eq_add.1 hsize)
    rw [hsame hnone] at hlinked hflagged
    have happlicable : Applicable block memory' := by
      rw [← notAborted_applyWot_iff blockstamp, h]
      exact notAborted_error_iff.2 (not_stops_refused _ _)
    have hcertifications := linked_eq_nil happlicable (hsame hnone) hlinked
    rcases (flagged_eq_self_iff block memory').1 (hflagged hnone hcertifications).symm with
      ⟨hdisabled, hrenewed⟩
    exact ⟨hnone, hcertifications, hdisabled, hrenewed⟩
  · intro hno
    rw [hsame hno.newcomers] at hflagged
    exact (hflagged hno.newcomers hno.certifications).trans
      ((flagged_eq_self_iff block memory).2 ⟨hno.disabled, hno.renewed⟩)

section Check

variable {C : Crypto} {bc bc' : BlockchainModule} {error : BlockError}

/-- Whether a block passes the checks and is applied: its hashes are right, it is the next one of the
chain, and it follows the rules that concern the previous block. -/
def ReachesApplication (C : Crypto) (bc : BlockchainModule) (block : BlockDocument) : Prop :=
  verifyBlockHashs C block = .ok (.ok ()) ∧ Chainable bc.currentBlockstamp block ∧
    verifyBlockValidity block bc.dbs.blocks = .ok ()

/-- A part of a block that only the process can stop does not refuse it. -/
theorem ofRun_bind_eq_refused {α β : Type} {x : Run α} {f : α → Applying β}
    {error : ApplyValidBlockError} (h : Applying.ofRun x >>= f = .error (.refused error memory')) :
    ∃ a, x = .ok a ∧ f a = .error (.refused error memory') := by
  cases x with
  | ok a => exact ⟨a, rfl, h⟩
  | error reason => cases h

/-- A block is refused in the part that concerns the web of trust. -/
theorem applyValidBlock_eq_refused {expireCerts : HashMap (NodeId × NodeId) BlockNumber}
    {error : ApplyValidBlockError}
    (h : applyValidBlock C block memory expireCerts = .error (.refused error memory')) :
    ∃ blockstamp, applyWot block memory blockstamp = .error (.refused error memory') := by
  rw [applyValidBlock] at h
  rcases ofRun_bind_eq_refused h with ⟨blockstamp, -, h⟩
  refine ⟨blockstamp, ?_⟩
  cases hwot : applyWot block memory blockstamp with
  | error ending =>
      rw [hwot, error_bind] at h
      exact congrArg Except.error (Except.error.inj h)
  | ok s =>
      rw [hwot, ok_bind] at h
      rcases ofRun_bind_eq_refused h with ⟨_, -, h⟩
      rcases ofRun_bind_eq_refused h with ⟨_, -, h⟩
      cases h

/-- A block is refused by the checks, which change nothing, or while it is applied. -/
theorem checkAndApplyBlock_eq_error
    (h : checkAndApplyBlock C bc block = .ok (bc', .error error)) :
    (¬ ReachesApplication C bc block ∧ bc' = bc) ∨
    (ReachesApplication C bc block ∧ ∃ blockstamp error memory',
      applyWot block bc.memory blockstamp = .error (.refused error memory') ∧
        bc' = bc.withMemory memory') := by
  rcases checkAndApplyBlock_eq_ok h with ⟨_, hverify, rfl, -⟩ | ⟨hverify, hchain, h⟩ |
    ⟨-, hchain, _, _, -, -, h⟩
  · refine .inl ⟨fun hreach => ?_, rfl⟩
    cases hverify.symm.trans hreach.1
  · rw [checkAndApplyChainable] at h
    cases hvalid : verifyBlockValidity block bc.dbs.blocks with
    | error e =>
        rw [hvalid] at h
        rcases Prod.mk.inj (Except.ok.inj h) with ⟨rfl, -⟩
        refine .inl ⟨fun hreach => ?_, rfl⟩
        cases hvalid.symm.trans hreach.2.2
    | ok u' =>
        rw [hvalid] at h
        cases happly : applyValidBlock C block bc.memory
            (findExpireCerts bc.dbs.wots.certsDb []) with
        | ok result =>
            simp only [happly] at h
            cases (Prod.mk.inj (Except.ok.inj h)).2
        | error ending =>
            cases ending with
            | abort reason =>
                simp only [happly] at h
                cases h
            | refused e memory' =>
                simp only [happly] at h
                rcases Prod.mk.inj (Except.ok.inj h) with ⟨rfl, -⟩
                rcases applyValidBlock_eq_refused happly with ⟨blockstamp, hwot⟩
                exact .inr ⟨⟨hverify, hchain, hvalid⟩, blockstamp, e, memory', hwot, rfl⟩
  · refine .inl ⟨fun hreach => hchain hreach.2.1, ?_⟩
    rcases storeForkBlock_cases h with ⟨_, rfl, -⟩ | ⟨_, _, -, -, heq⟩
    · rfl
    · cases heq

/-- A refused block leaves the state as it is exactly when it has nothing to change before, or does
not reach its application. -/
theorem unchanged_iff_of_refused (h : checkAndApplyBlock C bc block = .ok (bc', .error error)) :
    bc' = bc ↔ (ReachesApplication C bc block → LeavesNoTrace block bc.memory) := by
  rcases checkAndApplyBlock_eq_error h with ⟨hnot, rfl⟩ |
    ⟨hreach, blockstamp, error, memory', hwot, rfl⟩
  · exact iff_of_true rfl fun hreach => absurd hreach hnot
  · rw [imp_iff_right hreach, ← applyWot_refused_iff hwot]
    constructor
    · intro heq
      exact congrArg BlockchainModule.memory heq
    · rintro rfl
      rfl

/-- A genesis block that excludes an unknown key. -/
def excludingBlock : BlockDocument := { mockBlock 0 0 with excluded := [⟨2⟩] }

/-- The block leaves the state of a node without blocks as it is. -/
theorem unchanged_excludingBlock : ∃ bc error,
    checkAndApplyBlock mockCrypto default excludingBlock = .ok (bc, .error error) ∧
      bc = default := by
  have hrun : ∃ bc, checkAndApplyBlock mockCrypto default excludingBlock =
      .ok (bc, .error (.applyValidBlockError .excludeUnknowNodeId)) := ⟨_, rfl⟩
  have hno : LeavesNoTrace excludingBlock (default : BlockchainModule).memory := by
    refine ⟨by decide, by decide, ?_, ?_⟩
    · rintro wotId ⟨pubkey, -, hget⟩
      cases hget
    · rintro wotId ⟨pubkey, -, hget⟩
      cases hget
  rcases hrun with ⟨bc, hrun⟩
  exact ⟨bc, _, hrun, (unchanged_iff_of_refused hrun).2 fun _ => hno⟩

/-- A genesis block with a newcomer that excludes an unknown key leaves the newcomer in the index and
in the graph. -/
theorem not_unchanged_excludingBlock : ∃ bc error,
    checkAndApplyBlock mockCrypto default { excludingBlock with
        identities := [mockIdentity 1], joiners := [mockMembership 1] } = .ok (bc, .error error) ∧
      bc.wotIndex.get? ⟨1⟩ = some 0 ∧ bc.dbs.wots.wotDb.size = 1 ∧ bc ≠ default := by
  have hrun : ∃ bc, checkAndApplyBlock mockCrypto default { excludingBlock with
      identities := [mockIdentity 1], joiners := [mockMembership 1] } =
        .ok (bc, .error (.applyValidBlockError .excludeUnknowNodeId)) ∧
      bc.wotIndex.get? ⟨1⟩ = some 0 ∧ bc.dbs.wots.wotDb.size = 1 := ⟨_, rfl, by decide +kernel⟩
  rcases hrun with ⟨bc, hrun, hget, hsize⟩
  refine ⟨bc, _, hrun, hget, hsize, ?_⟩
  rintro rfl
  cases hget

end Check

end Durs
