/-
# Undoing what happens to identities

Each of the four events of an identity has a writer and a revert.  The revert reads the earlier
state off the later one, which does not tell everything, and a reverted renewal records the
membership a second time instead of removing it.
-/

import Durs.Blockchain.Identities

namespace Durs

open RustStd

/-- What happens to an identity. -/
inductive IdentityEvent
  | creation (idtyDoc : IdentityDocument) (msCreatedBlockId : BlockNumber) (wotId : NodeId)
      (currentBlockstamp : Blockstamp) (currentBcTime : Nat)
  | renewal (pubkey : PubKey) (idtyWotId : NodeId) (renewalTimestamp : Nat)
      (msCreatedBlockId : BlockNumber)
  | exclusion (pubkey : PubKey) (exclusionBlockstamp : Blockstamp)
  | revocation (pubkey : PubKey) (renewalBlockstamp : Blockstamp) (explicit : Bool)

namespace IdentityEvent

/-- Write an event. -/
def write (params : CurrencyParameters) (dbs : WotsV10DBs) : IdentityEvent → Run WotsV10DBs
  | .creation idtyDoc msCreatedBlockId wotId currentBlockstamp currentBcTime =>
      return createIdentity params dbs idtyDoc msCreatedBlockId wotId currentBlockstamp
        currentBcTime
  | .renewal pubkey idtyWotId renewalTimestamp msCreatedBlockId =>
      renewalIdentity params dbs pubkey idtyWotId renewalTimestamp msCreatedBlockId false
  | .exclusion pubkey exclusionBlockstamp => excludeIdentity dbs pubkey exclusionBlockstamp false
  | .revocation pubkey renewalBlockstamp explicit =>
      revokeIdentity dbs pubkey renewalBlockstamp explicit false

/-- Revert an event. -/
def revert (params : CurrencyParameters) (dbs : WotsV10DBs) : IdentityEvent → Run WotsV10DBs
  | .creation idtyDoc _ _ _ _ => revertCreateIdentity dbs idtyDoc.issuer
  | .renewal pubkey idtyWotId renewalTimestamp msCreatedBlockId =>
      renewalIdentity params dbs pubkey idtyWotId renewalTimestamp msCreatedBlockId true
  | .exclusion pubkey exclusionBlockstamp => excludeIdentity dbs pubkey exclusionBlockstamp true
  | .revocation pubkey renewalBlockstamp explicit =>
      revokeIdentity dbs pubkey renewalBlockstamp explicit true

end IdentityEvent

/-- A membership of a node is recorded under a block. -/
def MembershipAt (dbs : WotsV10DBs) (wotId : NodeId) (b : BlockNumber) : Prop :=
  wotId ∈ (dbs.msDb.get? b).getD ∅

/-- Whether two states of the databases hold the same identities and the same memberships, where a
block without an entry has none. -/
structure SameIdentities (dbs dbs' : WotsV10DBs) : Prop where
  identities : ∀ key, dbs'.identitiesDb.get? key = dbs.identitiesDb.get? key
  memberships : ∀ wotId b, MembershipAt dbs' wotId b ↔ MembershipAt dbs wotId b

/-- Whether a state is that of a member who has renewed since the last time of joining. -/
def DALIdentityState.Renewed : DALIdentityState → Prop
  | .member renewedCounts =>
      ∃ count, renewedCounts.getLast? = some count ∧ 0 < count ∧ count < 2 ^ 64
  | _ => False

/-- Whether the record of a key is known to have a property. -/
def WotsV10DBs.Has (dbs : WotsV10DBs) (pubkey : PubKey) (p : DALIdentity → Prop) : Prop :=
  ∃ datas, dbs.identitiesDb.get? pubkey = some datas ∧ p datas

/-- Whether the state before an event can be told from the state after it: the identity and its
membership were new; the member had already renewed, under the same block; the member had never
been excluded; the identity was not revoked before, and no member is revoked implicitly. -/
def IdentityEvent.Recoverable (dbs : WotsV10DBs) : IdentityEvent → Prop
  | .creation idtyDoc msCreatedBlockId wotId _ _ =>
      dbs.identitiesDb.get? idtyDoc.issuer = none ∧ ¬ MembershipAt dbs wotId msCreatedBlockId
  | .renewal pubkey idtyWotId _ msCreatedBlockId =>
      dbs.Has pubkey (fun datas => datas.state.Renewed) ∧
        MembershipAt dbs idtyWotId msCreatedBlockId
  | .exclusion pubkey _ => dbs.Has pubkey fun datas => datas.expiredOn = none
  | .revocation pubkey _ explicit =>
      dbs.Has pubkey fun datas => datas.revokedOn = none ∧
        (explicit = true ∨ ¬ datas.state.IsMember)

/-- Whether an event is undone by its revert. -/
def IdentityEvent.Undone (params : CurrencyParameters) (dbs dbs' : WotsV10DBs)
    (event : IdentityEvent) : Prop :=
  ∃ dbs'', event.revert params dbs' = .ok dbs'' ∧ SameIdentities dbs dbs''

/-! ## The writers -/

/-- Write the record of a key. -/
def WotsV10DBs.withRecord (dbs : WotsV10DBs) (pubkey : PubKey) (datas : DALIdentity) :
    WotsV10DBs :=
  { dbs with identitiesDb := dbs.identitiesDb.insert pubkey datas }

/-- Write the membership of a node. -/
def WotsV10DBs.withMembership (dbs : WotsV10DBs) (b : BlockNumber) (wotId : NodeId) : WotsV10DBs :=
  { dbs with msDb := insertMembership dbs.msDb b wotId }

def DALIdentity.withExclusion (datas : DALIdentity) (state : DALIdentityState)
    (expiredOn : Option Blockstamp) : DALIdentity := { datas with state, expiredOn }

def DALIdentity.withRevocation (datas : DALIdentity) (state : DALIdentityState)
    (revokedOn : Option Blockstamp) : DALIdentity := { datas with state, revokedOn }

def DALIdentity.withRenewal (datas : DALIdentity) (state : DALIdentityState)
    (msChainableOn : List Nat) : DALIdentity := { datas with state, msChainableOn }

variable {params : CurrencyParameters} {dbs dbs' : WotsV10DBs} {pubkey : PubKey}
  {datas datas' datas'' : DALIdentity}

theorem excludeIdentity_eq_ok_iff {blockstamp : Blockstamp} {revert : Bool} :
    excludeIdentity dbs pubkey blockstamp revert = .ok dbs' ↔ ∃ datas state,
      dbs.identitiesDb.get? pubkey = some datas ∧ datas.state.exclude revert = .ok state ∧
      dbs' = dbs.withRecord pubkey
        (datas.withExclusion state (if revert then none else some blockstamp)) := by
  rw [excludeIdentity, bind_eq_ok_iff]
  simp only [expect_eq_ok_iff, bind_eq_ok_iff, pure_eq_ok_iff]
  constructor
  · rintro ⟨datas, hdatas, state, hstate, rfl⟩
    exact ⟨datas, state, hdatas, hstate, rfl⟩
  · rintro ⟨datas, state, hdatas, hstate, rfl⟩
    exact ⟨datas, hdatas, state, hstate, rfl⟩

theorem revokeIdentity_eq_ok_iff {blockstamp : Blockstamp} {explicit revert : Bool} :
    revokeIdentity dbs pubkey blockstamp explicit revert = .ok dbs' ↔ ∃ datas state,
      dbs.identitiesDb.get? pubkey = some datas ∧
      datas.state.revoke explicit revert = .ok state ∧
      dbs' = dbs.withRecord pubkey
        (datas.withRevocation state (if revert then none else some blockstamp)) := by
  rw [revokeIdentity, bind_eq_ok_iff]
  simp only [expect_eq_ok_iff, bind_eq_ok_iff, pure_eq_ok_iff]
  constructor
  · rintro ⟨datas, hdatas, state, hstate, rfl⟩
    exact ⟨datas, state, hdatas, hstate, rfl⟩
  · rintro ⟨datas, state, hdatas, hstate, rfl⟩
    exact ⟨datas, hdatas, state, hstate, rfl⟩

theorem renewalIdentity_eq_ok_iff {idtyWotId : NodeId} {time : Nat} {b : BlockNumber}
    {revert : Bool} :
    renewalIdentity params dbs pubkey idtyWotId time b revert = .ok dbs' ↔ ∃ datas state,
      dbs.identitiesDb.get? pubkey = some datas ∧ datas.state.renew revert = .ok state ∧
      dbs' = (dbs.withRecord pubkey (datas.withRenewal state
        (if revert then datas.msChainableOn.dropLast
          else datas.msChainableOn ++ [addU64 time params.msPeriod]))).withMembership b
            idtyWotId := by
  rw [renewalIdentity, bind_eq_ok_iff]
  simp only [expect_eq_ok_iff, bind_eq_ok_iff, pure_eq_ok_iff]
  constructor
  · rintro ⟨datas, hdatas, state, hstate, rfl⟩
    exact ⟨datas, state, hdatas, hstate, rfl⟩
  · rintro ⟨datas, state, hdatas, hstate, rfl⟩
    exact ⟨datas, hdatas, state, hstate, rfl⟩

theorem revertCreateIdentity_eq_ok_iff :
    revertCreateIdentity dbs pubkey = .ok dbs' ↔ ∃ datas memberships,
      dbs.identitiesDb.get? pubkey = some datas ∧
      dbs.msDb.get? datas.msCreatedBlockId = some memberships ∧
      dbs' = { dbs with
        msDb := dbs.msDb.insert datas.msCreatedBlockId (memberships.remove datas.wotId)
        identitiesDb := dbs.identitiesDb.remove datas.idtyDoc.issuer } := by
  rw [revertCreateIdentity, bind_eq_ok_iff]
  simp only [expect_eq_ok_iff, bind_eq_ok_iff, pure_eq_ok_iff]
  constructor
  · rintro ⟨datas, hdatas, memberships, hmemberships, rfl⟩
    exact ⟨datas, memberships, hdatas, hmemberships, rfl⟩
  · rintro ⟨datas, memberships, hdatas, hmemberships, rfl⟩
    exact ⟨datas, hdatas, memberships, hmemberships, rfl⟩

/-! ## The states -/

/-- An exclusion is told from the state that it leaves. -/
theorem DALIdentityState.exclude_undone {state state' : DALIdentityState}
    (h : state.exclude false = .ok state') : state'.exclude true = .ok state := by
  cases state with
  | member renewedCounts =>
      obtain rfl := Except.ok.inj h
      rfl
  | _ => cases h

/-- A revocation is told from the state that it leaves, unless it was implicit and of a member. -/
theorem DALIdentityState.revoke_undone {state state' : DALIdentityState} {explicit : Bool}
    (h : state.revoke explicit false = .ok state') :
    ∃ back, state'.revoke explicit true = .ok back ∧
      (back = state ↔ explicit = true ∨ ¬ state.IsMember) := by
  cases state with
  | member renewedCounts =>
      cases explicit with
      | true =>
          obtain rfl := Except.ok.inj h
          exact ⟨_, rfl, iff_of_true rfl (.inl rfl)⟩
      | false =>
          obtain rfl := Except.ok.inj h
          refine ⟨_, rfl, iff_of_false (by nofun) ?_⟩
          rintro (hfalse | hnot)
          · cases hfalse
          · exact hnot trivial
  | expireMember renewedCounts =>
      obtain rfl := Except.ok.inj h
      exact ⟨_, rfl, iff_of_true rfl (.inr id)⟩
  | _ => cases h

/-- A machine integer comes back when one is added and taken away again. -/
theorem decrementCount_addU64_eq_iff {count : Nat} :
    decrementCount (addU64 count 1) = count ↔ count < 2 ^ 64 := by
  unfold decrementCount addU64
  split
  all_goals omega

theorem DALIdentityState.renew_true_member (renewedCounts : List Nat) (last : Nat) :
    (member (renewedCounts ++ [last])).renew true =
      .ok (if decrementCount last > 0 then .member (renewedCounts ++ [decrementCount last])
        else .expireMember (renewedCounts ++ [decrementCount last])) := by
  rw [renew, List.getLast?_concat, List.dropLast_concat]
  show (if decrementCount last > 0 then pure (member (renewedCounts ++ [decrementCount last]))
    else pure (expireMember (renewedCounts ++ [decrementCount last])) : Run DALIdentityState) = _
  split
  case isTrue => rfl
  case isFalse => rfl

/-- A renewal is told from the state that it leaves when it was not the first one. -/
theorem DALIdentityState.renew_undone {state state' : DALIdentityState}
    (h : state.renew false = .ok state') :
    ∃ back, state'.renew true = .ok back ∧ (back = state ↔ state.Renewed) := by
  cases state with
  | member renewedCounts =>
      rw [renew, bind_eq_ok_iff] at h
      rcases h with ⟨last, hlast, h⟩
      obtain rfl := Except.ok.inj h
      rw [expect_eq_ok_iff] at hlast
      have hcounts : renewedCounts = renewedCounts.dropLast ++ [last] :=
        (List.dropLast_append_getLast? last hlast).symm
      have hrenewed : (member renewedCounts).Renewed ↔ 0 < last ∧ last < 2 ^ 64 := by
        rw [Renewed, hlast]
        constructor
        · rintro ⟨count, heq, hcount⟩
          exact Option.some.inj heq ▸ hcount
        · exact fun hcount => ⟨last, rfl, hcount⟩
      refine ⟨_, renew_true_member _ _, ?_⟩
      rw [hrenewed, ← decrementCount_addU64_eq_iff]
      split
      case isTrue hpos =>
        constructor
        · intro heq
          rw [hcounts, List.dropLast_concat] at heq
          have hlast' := List.append_cancel_left (member.inj heq)
          have hsame := (List.cons.inj hlast').1
          exact ⟨hsame ▸ hpos, hsame⟩
        · rintro ⟨-, hsame⟩
          rw [hsame, ← hcounts]
      case isFalse hzero =>
        refine iff_of_false DALIdentityState.noConfusion ?_
        rintro ⟨hpos, hsame⟩
        exact hzero (hsame.symm ▸ hpos)
  | expireMember renewedCounts =>
      obtain rfl := Except.ok.inj h
      exact ⟨_, renew_true_member _ _, iff_of_false DALIdentityState.noConfusion id⟩
  | _ => cases h

/-! ## The undo -/

theorem membershipAt_withMembership {b b' : BlockNumber} {wotId wotId' : NodeId} :
    MembershipAt (dbs.withMembership b wotId) wotId' b' ↔
      MembershipAt dbs wotId' b' ∨ wotId' = wotId ∧ b' = b := by
  rw [MembershipAt, WotsV10DBs.withMembership, insertMembership, HashMap.get?_insert]
  by_cases hb : b' = b
  · subst hb
    rw [if_pos rfl, Option.getD_some, HashSet.mem_insert, or_comm]
    exact or_congr Iff.rfl (and_iff_left rfl).symm
  · rw [if_neg hb]
    exact (or_iff_left fun h => hb h.2).symm

/-- Of a record that is written twice, the last one stays. -/
theorem get?_withRecord_withRecord_iff (h : dbs.identitiesDb.get? pubkey = some datas) :
    (∀ key, ((dbs.withRecord pubkey datas').withRecord pubkey datas'').identitiesDb.get? key =
      dbs.identitiesDb.get? key) ↔ datas'' = datas := by
  constructor
  · intro hall
    have hkey := hall pubkey
    rw [WotsV10DBs.withRecord, HashMap.get?_insert_self, h] at hkey
    exact Option.some.inj hkey
  · rintro rfl key
    rw [WotsV10DBs.withRecord, WotsV10DBs.withRecord, HashMap.get?_insert, HashMap.get?_insert]
    by_cases hkey : key = pubkey
    · rw [if_pos hkey, hkey, h]
    · rw [if_neg hkey, if_neg hkey]

theorem sameIdentities_withRecord_iff (h : dbs.identitiesDb.get? pubkey = some datas) :
    SameIdentities dbs ((dbs.withRecord pubkey datas').withRecord pubkey datas'') ↔
      datas'' = datas := by
  rw [← get?_withRecord_withRecord_iff h]
  exact ⟨fun hsame => hsame.identities, fun hsame => ⟨hsame, fun _ _ => Iff.rfl⟩⟩

/-- Of a membership that is written twice, one stays. -/
theorem sameIdentities_withMembership_iff {b : BlockNumber} {wotId : NodeId}
    (h : dbs.identitiesDb.get? pubkey = some datas) :
    SameIdentities dbs ((((dbs.withRecord pubkey datas').withMembership b wotId).withRecord pubkey
        datas'').withMembership b wotId) ↔ datas'' = datas ∧ MembershipAt dbs wotId b := by
  have hmemberships : ∀ wotId' b', MembershipAt ((((dbs.withRecord pubkey datas').withMembership b
      wotId).withRecord pubkey datas'').withMembership b wotId) wotId' b' ↔
        MembershipAt dbs wotId' b' ∨ wotId' = wotId ∧ b' = b := by
    intro wotId' b'
    have hfirst : MembershipAt (((dbs.withRecord pubkey datas').withMembership b wotId).withRecord
        pubkey datas'') wotId' b' ↔ MembershipAt dbs wotId' b' ∨ wotId' = wotId ∧ b' = b := by
      show MembershipAt ((dbs.withRecord pubkey datas').withMembership b wotId) wotId' b' ↔ _
      rw [membershipAt_withMembership]
      rfl
    rw [membershipAt_withMembership, hfirst, or_assoc, or_self]
  have hidentities : (∀ key, ((dbs.withRecord pubkey datas').withRecord pubkey
      datas'').identitiesDb.get? key = dbs.identitiesDb.get? key) ↔ datas'' = datas :=
    get?_withRecord_withRecord_iff h
  constructor
  · intro hsame
    refine ⟨hidentities.1 hsame.identities, ?_⟩
    exact (hsame.memberships wotId b).1 ((hmemberships wotId b).2 (.inr ⟨rfl, rfl⟩))
  · rintro ⟨hdatas, hat⟩
    refine ⟨hidentities.2 hdatas, fun wotId' b' => ?_⟩
    rw [hmemberships]
    exact ⟨fun hboth => hboth.elim id fun heq => heq.1 ▸ heq.2 ▸ hat, .inl⟩

theorem has_iff {p : DALIdentity → Prop} (h : dbs.identitiesDb.get? pubkey = some datas) :
    dbs.Has pubkey p ↔ p datas := by
  constructor
  · rintro ⟨found, hfound, hp⟩
    exact Option.some.inj (h.symm.trans hfound) ▸ hp
  · exact fun hp => ⟨datas, h, hp⟩

namespace IdentityEvent

/-- The undo is decided by what the revert gives. -/
theorem undone_iff_sameIdentities {event : IdentityEvent} {dbs'' : WotsV10DBs}
    (h : event.revert params dbs' = .ok dbs'') :
    event.Undone params dbs dbs' ↔ SameIdentities dbs dbs'' := by
  constructor
  · rintro ⟨back, hback, hsame⟩
    exact Except.ok.inj (h.symm.trans hback) ▸ hsame
  · exact fun hsame => ⟨dbs'', h, hsame⟩

theorem undone_exclusion_iff {blockstamp : Blockstamp}
    (h : (exclusion pubkey blockstamp).write params dbs = .ok dbs') :
    (exclusion pubkey blockstamp).Undone params dbs dbs' ↔
      (exclusion pubkey blockstamp).Recoverable dbs := by
  rcases excludeIdentity_eq_ok_iff.1 h with ⟨datas, state, hdatas, hstate, rfl⟩
  have hrevert : (exclusion pubkey blockstamp).revert params
      (dbs.withRecord pubkey (datas.withExclusion state (some blockstamp))) =
      .ok ((dbs.withRecord pubkey (datas.withExclusion state (some blockstamp))).withRecord pubkey
        (datas.withExclusion datas.state none)) :=
    excludeIdentity_eq_ok_iff.2
      ⟨_, _, HashMap.get?_insert_self _ _ _, DALIdentityState.exclude_undone hstate, rfl⟩
  refine (undone_iff_sameIdentities hrevert).trans ((sameIdentities_withRecord_iff hdatas).trans ?_)
  refine Iff.trans ?_ (has_iff hdatas).symm
  rcases datas with ⟨⟩
  simp [DALIdentity.withExclusion, eq_comm]

theorem undone_revocation_iff {blockstamp : Blockstamp} {explicit : Bool}
    (h : (revocation pubkey blockstamp explicit).write params dbs = .ok dbs') :
    (revocation pubkey blockstamp explicit).Undone params dbs dbs' ↔
      (revocation pubkey blockstamp explicit).Recoverable dbs := by
  rcases revokeIdentity_eq_ok_iff.1 h with ⟨datas, state, hdatas, hstate, rfl⟩
  rcases DALIdentityState.revoke_undone hstate with ⟨back, hback, hstates⟩
  have hrevert : (revocation pubkey blockstamp explicit).revert params
      (dbs.withRecord pubkey (datas.withRevocation state (some blockstamp))) =
      .ok ((dbs.withRecord pubkey (datas.withRevocation state (some blockstamp))).withRecord pubkey
        (datas.withRevocation back none)) :=
    revokeIdentity_eq_ok_iff.2 ⟨_, _, HashMap.get?_insert_self _ _ _, hback, rfl⟩
  refine (undone_iff_sameIdentities hrevert).trans ((sameIdentities_withRecord_iff hdatas).trans ?_)
  refine Iff.trans ?_ (has_iff hdatas).symm
  rw [← hstates]
  rcases datas with ⟨⟩
  simp [DALIdentity.withRevocation, eq_comm, and_comm]

theorem undone_renewal_iff {idtyWotId : NodeId} {time : Nat} {b : BlockNumber}
    (h : (renewal pubkey idtyWotId time b).write params dbs = .ok dbs') :
    (renewal pubkey idtyWotId time b).Undone params dbs dbs' ↔
      (renewal pubkey idtyWotId time b).Recoverable dbs := by
  rcases renewalIdentity_eq_ok_iff.1 h with ⟨datas, state, hdatas, hstate, rfl⟩
  rcases DALIdentityState.renew_undone hstate with ⟨back, hback, hstates⟩
  let msChainableOn := datas.msChainableOn ++ [addU64 time params.msPeriod]
  have hrevert : (renewal pubkey idtyWotId time b).revert params
      ((dbs.withRecord pubkey (datas.withRenewal state msChainableOn)).withMembership b idtyWotId) =
      .ok ((((dbs.withRecord pubkey (datas.withRenewal state msChainableOn)).withMembership b
        idtyWotId).withRecord pubkey (datas.withRenewal back msChainableOn.dropLast)).withMembership
          b idtyWotId) :=
    renewalIdentity_eq_ok_iff.2 ⟨_, _, HashMap.get?_insert_self _ _ _, hback, rfl⟩
  refine (undone_iff_sameIdentities hrevert).trans
    ((sameIdentities_withMembership_iff hdatas).trans (and_congr ?_ Iff.rfl))
  refine Iff.trans ?_ (has_iff hdatas).symm
  rw [← hstates, List.dropLast_concat]
  rcases datas with ⟨⟩
  simp [DALIdentity.withRenewal]

theorem undone_creation_iff {idtyDoc : IdentityDocument} {b : BlockNumber} {wotId : NodeId}
    {blockstamp : Blockstamp} {time : Nat}
    (h : (creation idtyDoc b wotId blockstamp time).write params dbs = .ok dbs') :
    (creation idtyDoc b wotId blockstamp time).Undone params dbs dbs' ↔
      (creation idtyDoc b wotId blockstamp time).Recoverable dbs := by
  obtain rfl := Except.ok.inj h
  let memberships := ((dbs.msDb.get? b).getD ∅).insert wotId
  have hrevert : (creation idtyDoc b wotId blockstamp time).revert params
      (createIdentity params dbs idtyDoc b wotId blockstamp time) =
      .ok { createIdentity params dbs idtyDoc b wotId blockstamp time with
        msDb := (insertMembership dbs.msDb b wotId).insert b (memberships.remove wotId)
        identitiesDb := (createIdentity params dbs idtyDoc b wotId blockstamp
          time).identitiesDb.remove idtyDoc.issuer } :=
    revertCreateIdentity_eq_ok_iff.2
      ⟨_, _, HashMap.get?_insert_self _ _ _, HashMap.get?_insert_self _ _ _, rfl⟩
  have hidentities : ∀ key, ((createIdentity params dbs idtyDoc b wotId blockstamp
      time).identitiesDb.remove idtyDoc.issuer).get? key =
        if key = idtyDoc.issuer then none else dbs.identitiesDb.get? key := by
    intro key
    rw [HashMap.get?_remove, createIdentity, HashMap.get?_insert]
    by_cases hkey : key = idtyDoc.issuer
    · rw [if_pos hkey, if_pos hkey]
    · rw [if_neg hkey, if_neg hkey]
      exact if_neg hkey
  have hmemberships : ∀ wotId' b', wotId' ∈ ((((insertMembership dbs.msDb b wotId).insert b
      (memberships.remove wotId)).get? b').getD ∅) ↔
        MembershipAt dbs wotId' b' ∧ ¬(wotId' = wotId ∧ b' = b) := by
    intro wotId' b'
    rw [HashMap.get?_insert]
    by_cases hb : b' = b
    · subst hb
      rw [if_pos rfl, Option.getD_some, HashSet.mem_remove, HashSet.mem_insert]
      constructor
      · rintro ⟨hne, heq | hold⟩
        · exact absurd heq hne
        · exact ⟨hold, fun h => hne h.1⟩
      · rintro ⟨hold, hnot⟩
        exact ⟨fun heq => hnot ⟨heq, rfl⟩, .inr hold⟩
    · rw [if_neg hb, insertMembership, HashMap.get?_insert, if_neg hb]
      exact (and_iff_left fun h => hb h.2).symm
  rw [undone_iff_sameIdentities hrevert]
  constructor
  · intro hsame
    refine ⟨?_, fun hat => ?_⟩
    · rw [← hsame.identities, hidentities, if_pos rfl]
    · exact ((hmemberships wotId b).1 ((hsame.memberships wotId b).2 hat)).2 ⟨rfl, rfl⟩
  · rintro ⟨hnone, hnot⟩
    refine ⟨fun key => ?_, fun wotId' b' => (hmemberships wotId' b').trans ?_⟩
    · rw [hidentities]
      by_cases hkey : key = idtyDoc.issuer
      · rw [if_pos hkey, hkey, hnone]
      · rw [if_neg hkey]
    · refine and_iff_left_of_imp ?_
      rintro hat ⟨rfl, rfl⟩
      exact hnot hat

/-- An event that is written is undone exactly when the state before it can be told from the state
after it. -/
theorem undone_iff {event : IdentityEvent} (h : event.write params dbs = .ok dbs') :
    event.Undone params dbs dbs' ↔ event.Recoverable dbs := by
  cases event with
  | creation => exact undone_creation_iff h
  | renewal => exact undone_renewal_iff h
  | exclusion => exact undone_exclusion_iff h
  | revocation => exact undone_revocation_iff h

end IdentityEvent

/-- The first exclusion of a newcomer is undone. -/
theorem undone_exclusion_joiningOp : ∃ bc dbs',
    applyBlock mockCrypto (emptyModule default) (joiningOp [mockMembership 1]) = .ok bc ∧
      (IdentityEvent.exclusion ⟨1⟩ default).write default bc.dbs.wots = .ok dbs' ∧
      (IdentityEvent.exclusion ⟨1⟩ default).Undone default bc.dbs.wots dbs' := by
  have hrun : ∃ bc dbs' datas,
      applyBlock mockCrypto (emptyModule default) (joiningOp [mockMembership 1]) = .ok bc ∧
      (IdentityEvent.exclusion ⟨1⟩ default).write default bc.dbs.wots = .ok dbs' ∧
      bc.dbs.wots.identitiesDb.get? ⟨1⟩ = some datas ∧ datas.expiredOn = none :=
    ⟨_, _, _, rfl, rfl, rfl, rfl⟩
  rcases hrun with ⟨bc, dbs', datas, hrun, hwrite, hdatas, hnone⟩
  exact ⟨bc, dbs', hrun, hwrite, (IdentityEvent.undone_iff hwrite).2 ⟨datas, hdatas, hnone⟩⟩

/-- After the first renewal of a newcomer, the revert leaves an expired member. -/
theorem not_undone_renewal_joiningOp : ∃ bc dbs',
    applyBlock mockCrypto (emptyModule default) (joiningOp [mockMembership 1]) = .ok bc ∧
      (IdentityEvent.renewal ⟨1⟩ 0 0 1).write default bc.dbs.wots = .ok dbs' ∧
      ¬ (IdentityEvent.renewal ⟨1⟩ 0 0 1).Undone default bc.dbs.wots dbs' := by
  have hrun : ∃ bc dbs' dbs'',
      applyBlock mockCrypto (emptyModule default) (joiningOp [mockMembership 1]) = .ok bc ∧
      (IdentityEvent.renewal ⟨1⟩ 0 0 1).write default bc.dbs.wots = .ok dbs' ∧
      (IdentityEvent.renewal ⟨1⟩ 0 0 1).revert default dbs' = .ok dbs'' ∧
      dbs''.identitiesDb.get? ⟨1⟩ ≠ bc.dbs.wots.identitiesDb.get? ⟨1⟩ :=
    ⟨_, _, _, rfl, rfl, rfl, by decide +kernel⟩
  rcases hrun with ⟨bc, dbs', dbs'', hrun, hwrite, hrevert, hne⟩
  refine ⟨bc, dbs', hrun, hwrite, fun hundone => hne ?_⟩
  exact ((IdentityEvent.undone_iff_sameIdentities hrevert).1 hundone).identities ⟨1⟩

end Durs
