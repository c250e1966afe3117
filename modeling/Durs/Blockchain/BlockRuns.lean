/-
# Runs of applied blocks

Blocks applied one after the other, each with its expiring certifications and with its requests for
the databases.  While a block is applied, the graph and its index change at once and the requests
are collected; the steps are listed here, so that what the databases become can be compared with
what the graph has become.
-/

import Durs.Blockchain.Applicable
import Durs.Lib.Reached
import Mathlib.Logic.Relation

namespace Durs

open RustStd Lib WotMemory Relation

/-- A block to apply, with the blocks whose certifications expire in it. -/
structure BlockOp where
  block : BlockDocument
  blocksExpiring : List BlockNumber

/-- The certifications that expire in a block. -/
def BlockOp.expireCerts (op : BlockOp) (bc : BlockchainModule) :
    HashMap (NodeId × NodeId) BlockNumber :=
  findExpireCerts bc.dbs.wots.certsDb op.blocksExpiring

/-- Apply a block, and then its requests. -/
def applyBlock (C : Crypto) (bc : BlockchainModule) (op : BlockOp) : Applying BlockchainModule := do
  let (memory, reqs) ← applyValidBlock C op.block bc.memory (op.expireCerts bc)
  .ofRun ((bc.withMemory memory).applyQueries C.toTxCrypto reqs.blocksQuery reqs.wotQueries
    reqs.currencyQueries)

/-- A node without blocks, under some currency parameters. -/
def emptyModule (params : CurrencyParameters) : BlockchainModule :=
  { (default : BlockchainModule) with currencyParams := params }

variable {C : Crypto} {block : BlockDocument} {memory : WotMemory} {s s' : ApplyState}
  {blockstamp : Blockstamp}

/-! ## The steps of the application of a block -/

/-- The requests that come with the flag of a node. -/
inductive FlagRequest (pubkey : PubKey) (wotId : NodeId) : Bool → WotsDBsWriteQuery → Prop
  | renewal (time : Nat) (msCreatedBlockId : BlockNumber) :
      FlagRequest pubkey wotId true (.renewalIdentity pubkey wotId time msCreatedBlockId)
  | exclusion (blockstamp : Blockstamp) :
      FlagRequest pubkey wotId false (.excludeIdentity pubkey blockstamp)
  | revocation (blockstamp : Blockstamp) :
      FlagRequest pubkey wotId false (.revokeIdentity pubkey blockstamp true)

/-- What the memberships, the exclusions and the revocations of a block do, one after the other. -/
inductive MemberStep (block : BlockDocument) (s : ApplyState) : ApplyState → Prop
  | newcomer {joiner : MembershipDocument} {idtyDoc : IdentityDocument} (blockstamp : Blockstamp)
      (time : Nat) :
      block.newIdentities.get? joiner.issuer = some idtyDoc →
      MemberStep block s {
        memory := s.memory.withNewcomer joiner
        requests := s.requests ++ [.createIdentity s.memory.wotDb.size blockstamp time idtyDoc
          joiner.blockstamp.id] }
  | flag {pubkey : PubKey} {wotId : NodeId} {enabled : Bool} {request : WotsDBsWriteQuery} :
      s.memory.wotIndex.get? pubkey = some wotId → FlagRequest pubkey wotId enabled request →
      MemberStep block s (s.setEnabled wotId enabled request)

theorem ApplyState.index_eq_ok {pubkey : PubKey} {wotId : NodeId}
    (h : s.index pubkey = .ok wotId) : s.memory.wotIndex.get? pubkey = some wotId :=
  expect_eq_ok_iff.1 (Applying.ofRun_eq_ok.1 h)

theorem applyJoiner_eq_ok {joiner : MembershipDocument}
    (h : applyJoiner block blockstamp s joiner = .ok s') : MemberStep block s s' := by
  rw [applyJoiner] at h
  cases hget : block.newIdentities.get? joiner.issuer with
  | some idtyDoc =>
      rw [hget] at h
      obtain rfl := Except.ok.inj h
      exact .newcomer blockstamp block.medianTime hget
  | none =>
      rw [hget] at h
      rcases bind_eq_ok_iff.1 h with ⟨wotId, hindex, heq⟩
      obtain rfl := Except.ok.inj heq
      exact .flag (ApplyState.index_eq_ok hindex) (.renewal _ _)

theorem applyActive_eq_ok {active : MembershipDocument}
    (h : applyActive block s active = .ok s') : s' = s ∨ MemberStep block s s' := by
  rw [applyActive] at h
  split at h
  case isTrue => exact .inl (Except.ok.inj h).symm
  case isFalse =>
    rcases bind_eq_ok_iff.1 h with ⟨wotId, hindex, heq⟩
    obtain rfl := Except.ok.inj heq
    exact .inr (.flag (ApplyState.index_eq_ok hindex) (.renewal _ _))

theorem applyExclusion_eq_ok {exclusion : PubKey}
    (h : applyExclusion blockstamp s exclusion = .ok s') : MemberStep block s s' := by
  rw [applyExclusion] at h
  cases hget : s.memory.wotIndex.get? exclusion with
  | some wotId =>
      rw [hget] at h
      obtain rfl := Except.ok.inj h
      exact .flag hget (.exclusion blockstamp)
  | none =>
      rw [hget] at h
      cases h

theorem applyRevocation_eq_ok {revocation : CompactRevocationDocument}
    (h : applyRevocation blockstamp s revocation = .ok s') : MemberStep block s s' := by
  rw [applyRevocation] at h
  cases hget : s.memory.wotIndex.get? revocation.issuer with
  | some wotId =>
      rw [hget] at h
      obtain rfl := Except.ok.inj h
      exact .flag hget (.revocation blockstamp)
  | none =>
      rw [hget] at h
      cases h

/-- The state after a certification between two nodes. -/
def ApplyState.certify (s : ApplyState) (certification : CompactCertificationDocument)
    (source target : NodeId) (time : Nat) : ApplyState where
  memory := { s.memory with wotDb := s.memory.wotDb.withLink source target }
  requests := s.requests ++
    [.createCert certification.issuer source target certification.blockNumber time]

theorem applyCertification_eq_ok {certification : CompactCertificationDocument}
    (h : applyCertification block s certification = .ok s') :
    ∃ source target, s.memory.wotIndex.get? certification.issuer = some source ∧
      s.memory.wotIndex.get? certification.target = some target ∧
      s.memory.wotDb.CanLink source target ∧
      s' = s.certify certification source target block.medianTime := by
  rw [applyCertification] at h
  cases hsource : s.memory.wotIndex.get? certification.issuer with
  | none =>
      rw [hsource] at h
      cases h
  | some source =>
      cases htarget : s.memory.wotIndex.get? certification.target with
      | none =>
          rw [hsource, htarget] at h
          cases h
      | some target =>
          rw [hsource, htarget] at h
          simp only at h
          by_cases hcan : s.memory.wotDb.CanLink source target
          · rcases WebOfTrust.addLink_snd_of_canLink hcan with ⟨count, hcount⟩
            have hadd : s.memory.wotDb.addLink source target =
                (s.memory.wotDb.withLink source target, .ok count) :=
              Prod.ext (WebOfTrust.addLink_of_canLink hcan) hcount
            rw [hadd] at h
            obtain rfl := Except.ok.inj h
            exact ⟨source, target, rfl, rfl, hcan, rfl⟩
          · have hnot := WebOfTrust.addLink_snd_of_not_canLink hcan
            cases hadd : s.memory.wotDb.addLink source target with
            | mk wotDb result =>
                rw [hadd] at h hnot
                cases result with
                | ok count => exact absurd rfl (hnot count)
                | _ => cases h

/-- A loop whose steps are steps of the members is a run of such steps. -/
theorem memberSteps_of_foldlM {α : Type} {step : ApplyState → α → Applying ApplyState}
    (hstep : ∀ s a s', step s a = .ok s' → s' = s ∨ MemberStep block s s') {l : List α}
    (hrun : l.foldlM step s = .ok s') : ReflTransGen (MemberStep block) s s' := by
  refine foldlM_preserves (P := ReflTransGen (MemberStep block) s) ?_ .refl hrun
  intro mid a mid' _ hmid hrun
  rcases hstep mid a mid' hrun with rfl | hnext
  · exact hmid
  · exact hmid.tail hnext

/-- The part of a block that concerns the web of trust: steps of the members, after which the
newcomers have their nodes, and then the certifications. -/
theorem applyWot_eq_ok (h : applyWot block memory blockstamp = .ok s') :
    ∃ s, ReflTransGen (MemberStep block) ⟨memory, []⟩ s ∧
      SameCounts (memory.withNewcomers block) s.memory ∧
      block.certifications.foldlM (applyCertification block) s = .ok s' := by
  simp only [applyWot, bind_eq_ok_iff] at h
  rcases h with ⟨s₁, hjoiners, s₂, hactives, s₃, hexcluded, s₄, hrevoked, hcertifications⟩
  refine ⟨s₄, ?_, ?_, hcertifications⟩
  · have hjoin : ReflTransGen (MemberStep block) ⟨memory, []⟩ s₁ :=
      memberSteps_of_foldlM (fun _ _ _ hstep => .inr (applyJoiner_eq_ok hstep)) hjoiners
    have hactive : ReflTransGen (MemberStep block) s₁ s₂ :=
      memberSteps_of_foldlM (fun _ _ _ => applyActive_eq_ok) hactives
    have hexclude : ReflTransGen (MemberStep block) s₂ s₃ :=
      memberSteps_of_foldlM (fun _ _ _ hstep => .inr (applyExclusion_eq_ok hstep)) hexcluded
    have hrevoke : ReflTransGen (MemberStep block) s₃ s₄ :=
      memberSteps_of_foldlM (fun _ _ _ hstep => .inr (applyRevocation_eq_ok hstep)) hrevoked
    exact ((hjoin.trans hactive).trans hexclude).trans hrevoke
  · have hsame₁ : SameCounts (memory.withNewcomers block) s₁.memory := by
      rcases foldlM_joiners blockstamp (s := ⟨memory, []⟩) (SameCounts.refl memory) with
        ⟨-, s', hrun, hsame⟩ | ⟨-, ending, -, hrun⟩
      · obtain rfl := Except.ok.inj (hjoiners.symm.trans hrun)
        exact hsame
      · cases hjoiners.symm.trans hrun
    have hsame₂ : SameCounts (memory.withNewcomers block) s₂.memory := by
      rcases foldlM_of_cases (fun _ => applyActive_cases block) hsame₁ with
        ⟨-, s', hrun, hsame⟩ | ⟨-, ending, -, hrun⟩
      · obtain rfl := Except.ok.inj (hactives.symm.trans hrun)
        exact hsame
      · cases hactives.symm.trans hrun
    have hsame₃ : SameCounts (memory.withNewcomers block) s₃.memory := by
      rcases foldlM_of_cases (fun _ => applyExclusion_cases blockstamp) hsame₂ with
        ⟨-, s', hrun, hsame⟩ | ⟨-, ending, -, hrun⟩
      · obtain rfl := Except.ok.inj (hexcluded.symm.trans hrun)
        exact hsame
      · cases hexcluded.symm.trans hrun
    rcases foldlM_of_cases (fun _ => applyRevocation_cases blockstamp) hsame₃ with
      ⟨-, s', hrun, hsame⟩ | ⟨-, ending, -, hrun⟩
    · obtain rfl := Except.ok.inj (hrevoked.symm.trans hrun)
      exact hsame
    · cases hrevoked.symm.trans hrun

/-! ## Expiring certifications -/

/-- The state after some certifications have expired. -/
def ApplyState.expire (s : ApplyState) (expireCerts : HashMap (NodeId × NodeId) BlockNumber) :
    ApplyState :=
  (expireCerts.iter.foldl applyExpiry (s, ∅)).1

/-- What expiring some certifications leaves: the nodes, their flags and the index, and one request
for each block that emitted one of them. -/
structure Expired (s : ApplyState) (entries : List ((NodeId × NodeId) × BlockNumber))
    (s' : ApplyState) (already : HashSet BlockNumber) : Prop where
  index : s'.memory.wotIndex = s.memory.wotIndex
  links : s'.memory.wotDb =
    entries.foldl (fun wot entry => (wot.remLink entry.1.1 entry.1.2).1) s.memory.wotDb
  requests : ∃ blocks : List BlockNumber, s'.requests = s.requests ++ blocks.map .expireCerts ∧
    ∀ b, b ∈ blocks ↔ b ∈ already
  already : ∀ b, b ∈ already ↔ ∃ pair, (pair, b) ∈ entries

theorem Expired.nil (s : ApplyState) : Expired s [] s ∅ where
  index := rfl
  links := rfl
  requests := ⟨[], (List.append_nil _).symm, fun b =>
    iff_of_false List.not_mem_nil (HashSet.not_mem_empty b)⟩
  already b := iff_of_false (HashSet.not_mem_empty b) fun ⟨_, h⟩ => List.not_mem_nil h

/-- One certification more expires. -/
theorem Expired.concat {entries : List ((NodeId × NodeId) × BlockNumber)}
    {already : HashSet BlockNumber} (h : Expired s entries s' already)
    (entry : (NodeId × NodeId) × BlockNumber) :
    Expired s (entries ++ [entry]) (applyExpiry (s', already) entry).1
      (applyExpiry (s', already) entry).2 := by
  rcases entry with ⟨⟨source, target⟩, b⟩
  rcases h.requests with ⟨blocks, hrequests, hblocks⟩
  have hentries : ∀ b', (∃ pair, (pair, b') ∈ entries ++ [((source, target), b)]) ↔
      b' = b ∨ b' ∈ already := by
    intro b'
    rw [h.already]
    constructor
    · rintro ⟨pair, hmem⟩
      rcases List.mem_append.1 hmem with hmem | hmem
      · exact .inr ⟨pair, hmem⟩
      · exact .inl (Prod.mk.inj (List.mem_singleton.1 hmem)).2
    · rintro (rfl | ⟨pair, hmem⟩)
      · exact ⟨_, List.mem_append_right _ (List.mem_singleton_self _)⟩
      · exact ⟨pair, List.mem_append_left _ hmem⟩
  have hlinks : (s'.memory.wotDb.remLink source target).1 = (entries ++ [((source, target), b)]).foldl
      (fun wot entry => (wot.remLink entry.1.1 entry.1.2).1) s.memory.wotDb := by
    rw [List.foldl_append, ← h.links]
    rfl
  by_cases hin : already.contains b = true
  · rw [applyExpiry, if_pos hin]
    refine ⟨h.index, hlinks, ⟨blocks, hrequests, hblocks⟩, fun b' => ?_⟩
    rw [hentries]
    constructor
    · exact .inr
    · rintro (rfl | hmem)
      · exact (HashSet.contains_iff _ _).1 hin
      · exact hmem
  · rw [applyExpiry, if_neg hin]
    refine ⟨h.index, hlinks, ⟨blocks ++ [b], ?_, fun b' => ?_⟩, fun b' => ?_⟩
    · rw [hrequests, List.map_append, List.append_assoc]
      rfl
    · rw [List.mem_append, List.mem_singleton, hblocks, HashSet.mem_insert, or_comm]
    · rw [hentries, HashSet.mem_insert]

theorem expired_expire (s : ApplyState) (expireCerts : HashMap (NodeId × NodeId) BlockNumber) :
    ∃ already, Expired s expireCerts.iter (s.expire expireCerts) already := by
  refine ⟨(expireCerts.iter.foldl applyExpiry (s, ∅)).2, ?_⟩
  rw [ApplyState.expire]
  induction expireCerts.iter using List.reverseRecOn with
  | nil => exact .nil s
  | append_singleton entries entry ih =>
      rw [List.foldl_append]
      exact ih.concat entry

/-! ## The application of a block -/

/-- What a request for the wots databases makes of the certifications. -/
def WotsDBsWriteQuery.certsAfter (certsDb : CertsDb) : WotsDBsWriteQuery → CertsDb
  | .createCert _ source target createdBlockId _ =>
      insertCert certsDb source target createdBlockId
  | .revertCert compactDoc source target =>
      certsDb.insert compactDoc.blockNumber
        (((certsDb.get? compactDoc.blockNumber).getD ∅).remove (source, target))
  | .expireCerts createdBlockId => certsDb.remove createdBlockId
  | .revertExpireCert source target createdBlockId =>
      insertCert certsDb source target createdBlockId
  | _ => certsDb

/-- A request for the wots databases leaves the graph as it is. -/
theorem WotsDBsWriteQuery.apply_eq_ok {params : CurrencyParameters} {dbs dbs' : WotsV10DBs}
    {query : WotsDBsWriteQuery} (h : query.apply params dbs = .ok dbs') :
    dbs'.wotDb = dbs.wotDb ∧ dbs'.certsDb = query.certsAfter dbs.certsDb := by
  cases query <;>
    simp only [WotsDBsWriteQuery.apply, Durs.revertCreateIdentity, Durs.renewalIdentity,
      Durs.excludeIdentity, Durs.revokeIdentity, writeCertification, bind_eq_ok_iff,
      pure_eq_ok_iff] at h
  case createIdentity => subst h; exact ⟨rfl, rfl⟩
  case revertCreateIdentity => rcases h with ⟨_, -, _, -, rfl⟩; exact ⟨rfl, rfl⟩
  case renewalIdentity => rcases h with ⟨_, -, _, -, rfl⟩; exact ⟨rfl, rfl⟩
  case revertRenewalIdentity => rcases h with ⟨_, -, _, -, rfl⟩; exact ⟨rfl, rfl⟩
  case excludeIdentity => rcases h with ⟨_, -, _, -, rfl⟩; exact ⟨rfl, rfl⟩
  case revertExcludeIdentity => rcases h with ⟨_, -, _, -, rfl⟩; exact ⟨rfl, rfl⟩
  case revokeIdentity => rcases h with ⟨_, -, _, -, rfl⟩; exact ⟨rfl, rfl⟩
  case revertRevokeIdentity => rcases h with ⟨_, -, _, -, rfl⟩; exact ⟨rfl, rfl⟩
  case createCert => rcases h with ⟨_, -, rfl⟩; exact ⟨rfl, rfl⟩
  case revertCert => subst h; exact ⟨rfl, rfl⟩
  case expireCerts => subst h; exact ⟨rfl, rfl⟩
  case revertExpireCert => subst h; exact ⟨rfl, rfl⟩

theorem foldlM_apply_eq_ok {params : CurrencyParameters} {queries : List WotsDBsWriteQuery}
    {dbs dbs' : WotsV10DBs}
    (h : queries.foldlM (WotsDBsWriteQuery.apply params) dbs = .ok dbs') :
    dbs'.wotDb = dbs.wotDb ∧
      dbs'.certsDb = queries.foldl WotsDBsWriteQuery.certsAfter dbs.certsDb := by
  induction queries generalizing dbs with
  | nil =>
      obtain rfl := Except.ok.inj h
      exact ⟨rfl, rfl⟩
  | cons query queries ih =>
      rw [List.foldlM_cons, bind_eq_ok_iff] at h
      rcases h with ⟨mid, hmid, hrest⟩
      rcases WotsDBsWriteQuery.apply_eq_ok hmid with ⟨hwot, hcerts⟩
      rcases ih hrest with ⟨hwot', hcerts'⟩
      exact ⟨hwot'.trans hwot, by rw [hcerts', hcerts]; rfl⟩

/-- What the application of a block and its requests leave of the web of trust. -/
theorem applyBlock_eq_ok {bc bc' : BlockchainModule} {op : BlockOp}
    (h : applyBlock C bc op = .ok bc') :
    ∃ blockstamp s, applyWot op.block bc.memory blockstamp = .ok s ∧
      bc'.memory = (s.expire (op.expireCerts bc)).memory ∧
      (s.expire (op.expireCerts bc)).requests.foldlM (WotsDBsWriteQuery.apply bc.currencyParams)
        { bc.dbs.wots with wotDb := bc'.dbs.wots.wotDb } = .ok bc'.dbs.wots ∧
      bc'.currencyParams = bc.currencyParams := by
  rw [applyBlock, bind_eq_ok_iff] at h
  rcases h with ⟨⟨memory, reqs⟩, happly, hqueries⟩
  rcases applyValidBlock_eq_ok happly with
    ⟨blockstamp, s, currencyQueries, reduced, -, hwot, -, -, hmemory, hreqs⟩
  rcases BlockchainModule.applyQueries_eq_ok (Applying.ofRun_eq_ok.1 hqueries) with
    ⟨blocks, forks, wots, currency, -, hwots, -, rfl⟩
  have hkept : wots.wotDb = memory.wotDb := (foldlM_apply_eq_ok hwots).1
  subst hreqs
  refine ⟨blockstamp, s, hwot, ?_, ?_, rfl⟩
  · rw [ApplyState.expire, ← hmemory, BlockchainModule.memory]
    exact congrArg (WotMemory.mk memory.wotIndex) hkept
  · have hstart : ({ bc.dbs.wots with wotDb := wots.wotDb } : WotsV10DBs) =
        (bc.withMemory memory).dbs.wots := by
      rw [hkept]
      rfl
    exact hstart ▸ hwots

end Durs
