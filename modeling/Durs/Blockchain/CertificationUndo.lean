/-
# Undoing certifications

A block that is reverted takes back the certifications that it wrote and gives back those that had
expired in it.  The first undo restores what the writes changed.  The second one starts from a map
with one block for each pair of nodes, and restores the records unless a pair had several.
-/

import Durs.Blockchain.Certifications
import Durs.Blockchain.RevertBlock
import Mathlib.Logic.Function.Iterate

namespace Durs

open RustStd

variable {params : CurrencyParameters} {dbs dbs' : WotsV10DBs}

/-! ## Written certifications -/

/-- The record of an issuer after a certification is written. -/
def DALIdentity.pushChainable (timestamp : Nat) (datas : DALIdentity) : DALIdentity :=
  { datas with certChainableOn := datas.certChainableOn ++ [timestamp] }

/-- The record of an issuer after a certification is reverted. -/
def DALIdentity.popChainable (datas : DALIdentity) : DALIdentity :=
  { datas with certChainableOn := datas.certChainableOn.dropLast }

theorem DALIdentity.popChainable_pushChainable (timestamp : Nat) :
    Function.LeftInverse popChainable (pushChainable timestamp) := by
  intro datas
  rw [pushChainable, popChainable, List.dropLast_concat]

/-- Whether a request changes the record of one key in a given way, and no other record. -/
def WotsDBsWriteQuery.Updates (params : CurrencyParameters) (query : WotsDBsWriteQuery)
    (pubkey : PubKey) (f : DALIdentity → DALIdentity) : Prop :=
  ∀ dbs dbs', query.apply params dbs = .ok dbs' → ∀ key,
    dbs'.identitiesDb.get? key =
      (dbs.identitiesDb.get? key).map (if key = pubkey then f else id)

theorem updates_createCert (pubkey : PubKey) (source target : NodeId) (b : BlockNumber)
    (time : Nat) :
    (WotsDBsWriteQuery.createCert pubkey source target b time).Updates params pubkey
      (DALIdentity.pushChainable (addU64 time params.sigPeriod)) := by
  intro dbs dbs' h key
  rw [WotsDBsWriteQuery.apply, writeCertification, bind_eq_ok_iff] at h
  rcases h with ⟨datas, hdatas, h⟩
  obtain rfl := Except.ok.inj h
  rw [expect_eq_ok_iff] at hdatas
  rw [HashMap.get?_insert]
  by_cases hkey : key = pubkey
  · rw [if_pos hkey, if_pos hkey, hkey, hdatas]
    rfl
  · rw [if_neg hkey, if_neg hkey, Option.map_id_fun, id_eq]

theorem updates_revertCert (compactDoc : CompactCertificationDocument) (source target : NodeId) :
    (WotsDBsWriteQuery.revertCert compactDoc source target).Updates params compactDoc.issuer
      DALIdentity.popChainable := by
  intro dbs dbs' h key
  obtain rfl := Except.ok.inj h
  rw [revertWriteCert]
  cases hdatas : dbs.identitiesDb.get? compactDoc.issuer with
  | none =>
      by_cases hkey : key = compactDoc.issuer
      · rw [hkey, hdatas]
        rfl
      · rw [if_neg hkey, Option.map_id_fun, id_eq]
  | some datas =>
      dsimp only
      rw [HashMap.get?_insert]
      by_cases hkey : key = compactDoc.issuer
      · rw [if_pos hkey, if_pos hkey, hkey, hdatas]
        rfl
      · rw [if_neg hkey, if_neg hkey, Option.map_id_fun, id_eq]

/-- Requests that change the records of some keys in the same way, each one record. -/
theorem get?_of_updates {f : DALIdentity → DALIdentity} {pubkeys : List PubKey}
    {queries : List WotsDBsWriteQuery}
    (hupdates : List.Forall₂ (fun pubkey query => query.Updates params pubkey f) pubkeys queries)
    (h : queries.foldlM (WotsDBsWriteQuery.apply params) dbs = .ok dbs') (key : PubKey) :
    dbs'.identitiesDb.get? key = (dbs.identitiesDb.get? key).map f^[pubkeys.count key] := by
  induction hupdates generalizing dbs with
  | nil =>
      obtain rfl := Except.ok.inj h
      exact (Option.map_id_apply).symm
  | @cons pubkey query pubkeys queries hquery _ ih =>
      rw [List.foldlM_cons, bind_eq_ok_iff] at h
      rcases h with ⟨mid, hmid, hrest⟩
      rw [ih hrest, hquery dbs mid hmid key, Option.map_map, List.count_cons]
      by_cases hkey : key = pubkey
      · rw [if_pos hkey, if_pos (beq_iff_eq.2 hkey.symm), Function.iterate_succ]
      · rw [if_neg hkey, if_neg fun h => hkey (beq_iff_eq.1 h).symm, Nat.add_zero,
          Function.comp_id]

/-- The certifications of a block push one date to the record of their issuer each. -/
theorem updates_of_applyCertifications {block : BlockDocument} {s s' : ApplyState}
    {certifications : List CompactCertificationDocument}
    (h : certifications.foldlM (applyCertification block) s = .ok s') :
    ∃ written, s'.requests = s.requests ++ written ∧
      List.Forall₂ (fun pubkey query => WotsDBsWriteQuery.Updates params query pubkey
        (DALIdentity.pushChainable (addU64 block.medianTime params.sigPeriod)))
        (certifications.map (·.issuer)) written := by
  induction certifications generalizing s with
  | nil =>
      obtain rfl := Except.ok.inj h
      exact ⟨[], (List.append_nil _).symm, .nil⟩
  | cons certification certifications ih =>
      rw [List.foldlM_cons, bind_eq_ok_iff] at h
      rcases h with ⟨mid, hmid, hrest⟩
      rcases applyCertification_eq_ok hmid with ⟨source, target, -, -, -, rfl⟩
      rcases ih hrest with ⟨written, hwritten, hupdates⟩
      refine ⟨.createCert certification.issuer source target certification.blockNumber
        block.medianTime :: written, ?_, .cons (updates_createCert _ source target _ _) hupdates⟩
      rw [hwritten, ApplyState.certify, List.append_assoc]
      rfl

theorem revertCertification_eq_ok {s s' : ApplyState}
    {certification : CompactCertificationDocument}
    (h : revertCertification s certification = .ok s') : ∃ source target,
      s'.requests = s.requests ++ [.revertCert certification source target] := by
  rw [revertCertification, bind_eq_ok_iff] at h
  rcases h with ⟨source, -, h⟩
  rw [bind_eq_ok_iff] at h
  rcases h with ⟨target, -, h⟩
  split at h
  case h_1 => exact ⟨source, target, (Except.ok.inj h) ▸ rfl⟩
  case h_2 => cases h

/-- The reverted certifications of a block pop one date from the record of their issuer each. -/
theorem updates_of_revertCertifications {s s' : ApplyState}
    {certifications : List CompactCertificationDocument}
    (h : certifications.foldlM revertCertification s = .ok s') :
    ∃ reverted, s'.requests = s.requests ++ reverted ∧
      (∀ query ∈ reverted, ∀ dbs, ∃ dbs', query.apply params dbs = .ok dbs') ∧
      List.Forall₂ (fun pubkey query => WotsDBsWriteQuery.Updates params query pubkey
        DALIdentity.popChainable) (certifications.map (·.issuer)) reverted := by
  induction certifications generalizing s with
  | nil =>
      obtain rfl := Except.ok.inj h
      exact ⟨[], (List.append_nil _).symm, List.forall_mem_nil _, .nil⟩
  | cons certification certifications ih =>
      rw [List.foldlM_cons, bind_eq_ok_iff] at h
      rcases h with ⟨mid, hmid, hrest⟩
      rcases revertCertification_eq_ok hmid with ⟨source, target, hrequests⟩
      rcases ih hrest with ⟨reverted, hreverted, htotal, hupdates⟩
      refine ⟨.revertCert certification source target :: reverted, ?_,
        List.forall_mem_cons.2 ⟨fun dbs => ⟨_, rfl⟩, htotal⟩,
        .cons (updates_revertCert certification source target) hupdates⟩
      rw [hreverted, hrequests, List.append_assoc]
      rfl

/-- Requests each of which is carried out are carried out one after the other. -/
theorem exists_foldlM_apply {queries : List WotsDBsWriteQuery}
    (h : ∀ query ∈ queries, ∀ dbs, ∃ dbs', query.apply params dbs = .ok dbs')
    (dbs : WotsV10DBs) :
    ∃ dbs', queries.foldlM (WotsDBsWriteQuery.apply params) dbs = .ok dbs' := by
  induction queries generalizing dbs with
  | nil => exact ⟨dbs, rfl⟩
  | cons query queries ih =>
      rcases h query List.mem_cons_self dbs with ⟨mid, hmid⟩
      rcases ih (fun q hq => h q (List.mem_cons_of_mem _ hq)) mid with ⟨dbs', hrest⟩
      exact ⟨dbs', by rw [List.foldlM_cons, hmid]; exact hrest⟩

/-- Whether two states of the databases hold the same identities and the same certifications, where
a block without an entry has none. -/
structure SameRecords (dbs dbs' : WotsV10DBs) : Prop where
  identities : ∀ key, dbs'.identitiesDb.get? key = dbs.identitiesDb.get? key
  records : ∀ cert b, RecordedAt dbs'.certsDb cert b ↔ RecordedAt dbs.certsDb cert b

theorem recordedAt_removeCert {certsDb : CertsDb} {source target : NodeId} {b : BlockNumber}
    (cert : NodeId × NodeId) (b' : BlockNumber) :
    RecordedAt (certsDb.insert b (((certsDb.get? b).getD ∅).remove (source, target))) cert b' ↔
      RecordedAt certsDb cert b' ∧ ¬(cert = (source, target) ∧ b' = b) := by
  rw [RecordedAt, HashMap.get?_insert]
  by_cases hb : b' = b
  · subst hb
    rw [if_pos rfl, Option.getD_some, HashSet.mem_remove, and_comm]
    exact and_congr Iff.rfl (not_congr (and_iff_left rfl).symm)
  · rw [if_neg hb]
    exact (and_iff_left fun h => hb h.2).symm

theorem sameRecords_revertWriteCert {compactDoc : CompactCertificationDocument}
    {source target : NodeId} {time : Nat}
    (hnew : ¬ RecordedAt dbs.certsDb (source, target) compactDoc.blockNumber)
    (h : writeCertification params dbs compactDoc.issuer source target compactDoc.blockNumber time =
      .ok dbs') : SameRecords dbs (revertWriteCert dbs' compactDoc source target) := by
  have hwrite : (WotsDBsWriteQuery.createCert compactDoc.issuer source target compactDoc.blockNumber
      time).apply params dbs = .ok dbs' := h
  have hrevert : (WotsDBsWriteQuery.revertCert compactDoc source target).apply params dbs' =
      .ok (revertWriteCert dbs' compactDoc source target) := rfl
  constructor
  case identities =>
    intro key
    rw [updates_revertCert compactDoc source target _ _ hrevert key,
      updates_createCert _ _ _ _ _ _ _ hwrite key, Option.map_map]
    by_cases hkey : key = compactDoc.issuer
    · rw [if_pos hkey, if_pos hkey, (DALIdentity.popChainable_pushChainable _).comp_eq_id]
      exact Option.map_id_apply
    · rw [if_neg hkey, if_neg hkey]
      exact Option.map_id_apply
  case records =>
    intro cert b
    rw [(WotsDBsWriteQuery.apply_eq_ok hrevert).2, WotsDBsWriteQuery.certsAfter,
      recordedAt_removeCert, (WotsDBsWriteQuery.apply_eq_ok hwrite).2,
      WotsDBsWriteQuery.certsAfter, recordedAt_insertCert]
    constructor
    · rintro ⟨hrecorded | hboth, hnot⟩
      · exact hrecorded
      · exact absurd hboth hnot
    · intro hrecorded
      refine ⟨.inl hrecorded, ?_⟩
      rintro ⟨rfl, rfl⟩
      exact hnew hrecorded

/-- The certifications of a block are undone in the order they were written in. -/
theorem identities_revertCertifications {block : BlockDocument} {memory memory' : WotMemory}
    {certifications : List CompactCertificationDocument} {s s' : ApplyState}
    (happly : certifications.foldlM (applyCertification block) ⟨memory, []⟩ = .ok s)
    (hwrite : s.requests.foldlM (WotsDBsWriteQuery.apply params) dbs = .ok dbs')
    (hrevert : certifications.foldlM revertCertification ⟨memory', []⟩ = .ok s') :
    ∃ dbs'', s'.requests.foldlM (WotsDBsWriteQuery.apply params) dbs' = .ok dbs'' ∧
      ∀ key, dbs''.identitiesDb.get? key = dbs.identitiesDb.get? key := by
  rcases updates_of_applyCertifications happly with ⟨written, hs, hwritten⟩
  rcases updates_of_revertCertifications hrevert with
    ⟨reverted, hs', htotal, hreverted⟩
  rw [List.nil_append] at hs hs'
  rw [hs] at hwrite
  rw [hs']
  rcases exists_foldlM_apply htotal dbs' with ⟨dbs'', hback⟩
  refine ⟨dbs'', hback, fun key => ?_⟩
  have hinverse := (DALIdentity.popChainable_pushChainable
    (addU64 block.medianTime params.sigPeriod)).iterate ((certifications.map (·.issuer)).count key)
  rw [get?_of_updates hreverted hback key, get?_of_updates hwritten hwrite key, Option.map_map,
    hinverse.comp_eq_id]
  exact Option.map_id_apply

/-- A certification that is new is undone without a trace, and the certifications of a block give
back the records of their issuers. -/
theorem certifications_undone (params : CurrencyParameters) :
    (∀ dbs dbs' compactDoc source target time,
      ¬ RecordedAt dbs.certsDb (source, target) compactDoc.blockNumber →
      writeCertification params dbs compactDoc.issuer source target compactDoc.blockNumber time =
        .ok dbs' →
      SameRecords dbs (revertWriteCert dbs' compactDoc source target)) ∧
    ∀ (block : BlockDocument) memory memory' s s' dbs dbs',
      block.certifications.foldlM (applyCertification block) ⟨memory, []⟩ = .ok s →
      s.requests.foldlM (WotsDBsWriteQuery.apply params) dbs = .ok dbs' →
      block.certifications.foldlM revertCertification ⟨memory', []⟩ = .ok s' →
      ∃ dbs'', s'.requests.foldlM (WotsDBsWriteQuery.apply params) dbs' = .ok dbs'' ∧
        ∀ key, dbs''.identitiesDb.get? key = dbs.identitiesDb.get? key :=
  ⟨fun _ _ _ _ _ _ hnew h => sameRecords_revertWriteCert hnew h,
    fun _ _ _ _ _ _ _ happly hwrite hrevert =>
      identities_revertCertifications happly hwrite hrevert⟩

/-- A block with two newcomers. -/
def newcomersOp : BlockOp :=
  ⟨{ mockBlock 0 0 with
      identities := [mockIdentity 1, mockIdentity 2]
      joiners := [mockMembership 1, mockMembership 2] }, []⟩

/-- A block in which each of the two certifies the other. -/
def mutualBlock : BlockDocument :=
  { mockBlock 0 1 with
    certifications :=
      [mockCertification 1, { mockCertification 1 with issuer := ⟨2⟩, target := ⟨1⟩ }] }

theorem certifications_undone_mutualBlock : ∃ bc s s' dbs dbs',
    applyBlock mockCrypto (emptyModule default) newcomersOp = .ok bc ∧
    writeCertification default bc.dbs.wots ⟨1⟩ 0 1 1 0 = .ok dbs ∧
    SameRecords bc.dbs.wots (revertWriteCert dbs (mockCertification 1) 0 1) ∧
    mutualBlock.certifications.foldlM (applyCertification mutualBlock) ⟨bc.memory, []⟩ = .ok s ∧
    s.requests.foldlM (WotsDBsWriteQuery.apply default) bc.dbs.wots = .ok dbs' ∧
    mutualBlock.certifications.foldlM revertCertification ⟨s.memory, []⟩ = .ok s' ∧
    ∃ dbs'', s'.requests.foldlM (WotsDBsWriteQuery.apply default) dbs' = .ok dbs'' ∧
      ∀ key, dbs''.identitiesDb.get? key = bc.dbs.wots.identitiesDb.get? key := by
  have hrun : ∃ bc s s' dbs dbs',
      applyBlock mockCrypto (emptyModule default) newcomersOp = .ok bc ∧
      writeCertification default bc.dbs.wots ⟨1⟩ 0 1 1 0 = .ok dbs ∧
      ¬ RecordedAt bc.dbs.wots.certsDb (0, 1) 1 ∧
      mutualBlock.certifications.foldlM (applyCertification mutualBlock) ⟨bc.memory, []⟩ = .ok s ∧
      s.requests.foldlM (WotsDBsWriteQuery.apply default) bc.dbs.wots = .ok dbs' ∧
      mutualBlock.certifications.foldlM revertCertification ⟨s.memory, []⟩ = .ok s' :=
    ⟨_, _, _, _, _, rfl, rfl, by decide +kernel, rfl, rfl, rfl⟩
  rcases hrun with ⟨bc, s, s', dbs, dbs', hbc, hdbs, hnew, happly, hwrite, hrevert⟩
  have hundone := certifications_undone default
  exact ⟨bc, s, s', dbs, dbs', hbc, hdbs, hundone.1 _ _ (mockCertification 1) 0 1 0 hnew hdbs,
    happly, hwrite, hrevert, hundone.2 _ _ _ _ _ _ _ happly hwrite hrevert⟩

/-! ## Expired certifications -/

/-- The requests for the certifications that expire in a block. -/
def expiryRequests (memory : WotMemory) (expireCerts : HashMap (NodeId × NodeId) BlockNumber) :
    List WotsDBsWriteQuery :=
  (ApplyState.expire ⟨memory, []⟩ expireCerts).requests

/-- The requests that revert the expiry, one for each entry. -/
def revertExpiryRequests (expireCerts : HashMap (NodeId × NodeId) BlockNumber) :
    List WotsDBsWriteQuery :=
  expireCerts.iter.map fun entry => .revertExpireCert entry.1.1 entry.1.2 entry.2

/-- They are the requests that the application of a block backwards collects. -/
theorem requests_of_revertExpiry {memory : WotMemory} {s : ApplyState}
    {expireCerts : HashMap (NodeId × NodeId) BlockNumber}
    (h : expireCerts.iter.foldlM revertExpiry ⟨memory, []⟩ = .ok s) :
    s.requests = revertExpiryRequests expireCerts := by
  have hall : ∀ (entries : List ((NodeId × NodeId) × BlockNumber)) (start : ApplyState),
      entries.foldlM revertExpiry start = .ok s → s.requests = start.requests ++
        entries.map fun entry => .revertExpireCert entry.1.1 entry.1.2 entry.2 := by
    intro entries
    induction entries with
    | nil =>
        intro start hrun
        obtain rfl := Except.ok.inj hrun
        exact (List.append_nil _).symm
    | cons entry entries ih =>
        intro start hrun
        rw [List.foldlM_cons, bind_eq_ok_iff] at hrun
        rcases hrun with ⟨mid, hmid, hrest⟩
        have hrequests : mid.requests = start.requests ++
            [.revertExpireCert entry.1.1 entry.1.2 entry.2] := by
          rw [revertExpiry] at hmid
          dsimp only at hmid
          split at hmid
          case h_1 => exact (Except.ok.inj hmid) ▸ rfl
          case h_2 => cases hmid
        rw [ih mid hrest, hrequests, List.append_assoc]
        rfl
  exact hall _ _ h

/-- Whether two states hold the same certifications under the same blocks. -/
structure SameCerts (certsDb certsDb' : CertsDb) : Prop where
  blocks : ∀ b, certsDb'.containsKey b = true ↔ certsDb.containsKey b = true
  records : ∀ cert b, RecordedAt certsDb' cert b ↔ RecordedAt certsDb cert b

/-- Whether the expiry leaves no certification under the expiring blocks, and the undo gives back
what was there. -/
def ExpiryUndone (params : CurrencyParameters) (memory : WotMemory) (dbs : WotsV10DBs)
    (blocksExpiring : List BlockNumber) : Prop :=
  let expireCerts := findExpireCerts dbs.certsDb blocksExpiring
  ∃ expired reverted,
    (expiryRequests memory expireCerts).foldlM (WotsDBsWriteQuery.apply params) dbs = .ok expired ∧
    (revertExpiryRequests expireCerts).foldlM (WotsDBsWriteQuery.apply params) expired =
      .ok reverted ∧
    (∀ b ∈ blocksExpiring, ∀ cert, ¬ RecordedAt expired.certsDb cert b) ∧
    SameCerts dbs.certsDb reverted.certsDb

/-- Whether no certification is recorded under two of the expiring blocks. -/
def RecordedOnce (certsDb : CertsDb) (blocksExpiring : List BlockNumber) : Prop :=
  ∀ cert, ∀ b ∈ blocksExpiring, ∀ b' ∈ blocksExpiring,
    RecordedAt certsDb cert b → RecordedAt certsDb cert b' → b = b'

theorem RecordedAt.containsKey {certsDb : CertsDb} {cert : NodeId × NodeId} {b : BlockNumber}
    (h : RecordedAt certsDb cert b) : certsDb.containsKey b = true := by
  rw [HashMap.containsKey_iff]
  cases hget : certsDb.get? b with
  | none =>
      rw [RecordedAt, hget] at h
      exact absurd h (HashSet.not_mem_empty cert)
  | some certs => exact ⟨certs, rfl⟩

/-- The requests that expire certifications take some blocks away. -/
theorem containsKey_foldl_expireCerts (blocks : List BlockNumber) (certsDb : CertsDb)
    (b : BlockNumber) :
    ((blocks.map WotsDBsWriteQuery.expireCerts).foldl WotsDBsWriteQuery.certsAfter
      certsDb).containsKey b = true ↔ certsDb.containsKey b = true ∧ b ∉ blocks := by
  induction blocks generalizing certsDb with
  | nil => exact (and_iff_left List.not_mem_nil).symm
  | cons block blocks ih =>
      refine (ih (certsDb.remove block)).trans ?_
      rw [HashMap.containsKey, HashMap.get?_remove, List.mem_cons, not_or, ← and_assoc]
      refine and_congr ?_ Iff.rfl
      by_cases hb : b = block
      · rw [if_pos hb]
        exact iff_of_false Bool.false_ne_true fun h => h.2 hb
      · rw [if_neg hb]
        exact (and_iff_left hb).symm

/-- The requests that revert the expiry record each certification under its block. -/
theorem recordedAt_foldl_revertExpireCert (entries : List ((NodeId × NodeId) × BlockNumber))
    (certsDb : CertsDb) (cert : NodeId × NodeId) (b : BlockNumber) :
    RecordedAt ((entries.map fun entry => .revertExpireCert entry.1.1 entry.1.2 entry.2).foldl
      WotsDBsWriteQuery.certsAfter certsDb) cert b ↔
        RecordedAt certsDb cert b ∨ (cert, b) ∈ entries := by
  induction entries generalizing certsDb with
  | nil => exact (or_iff_left List.not_mem_nil).symm
  | cons entry entries ih =>
      refine (ih _).trans ?_
      rw [WotsDBsWriteQuery.certsAfter, recordedAt_insertCert, or_assoc, List.mem_cons]
      exact or_congr Iff.rfl (or_congr (Prod.ext_iff (x := (cert, b))).symm Iff.rfl)

theorem containsKey_foldl_revertExpireCert (entries : List ((NodeId × NodeId) × BlockNumber))
    (certsDb : CertsDb) (b : BlockNumber) :
    ((entries.map fun entry => .revertExpireCert entry.1.1 entry.1.2 entry.2).foldl
      WotsDBsWriteQuery.certsAfter certsDb).containsKey b = true ↔
        certsDb.containsKey b = true ∨ ∃ cert, (cert, b) ∈ entries := by
  induction entries generalizing certsDb with
  | nil => exact (or_iff_left fun ⟨_, h⟩ => List.not_mem_nil h).symm
  | cons entry entries ih =>
      refine (ih _).trans ?_
      rw [WotsDBsWriteQuery.certsAfter, insertCert, HashMap.containsKey_insert_iff]
      constructor
      · rintro ((rfl | hold) | ⟨cert, hmem⟩)
        · exact .inr ⟨entry.1, List.mem_cons_self⟩
        · exact .inl hold
        · exact .inr ⟨cert, List.mem_cons_of_mem _ hmem⟩
      · rintro (hold | ⟨cert, hmem⟩)
        · exact .inl (.inr hold)
        · rcases List.mem_cons.1 hmem with heq | hmem
          · exact .inl (.inl (congrArg Prod.snd heq))
          · exact .inr ⟨cert, hmem⟩

/-- What the expiry and its undo leave of the records. -/
structure AfterExpiry (certsDb expired reverted : CertsDb)
    (expireCerts : HashMap (NodeId × NodeId) BlockNumber) : Prop where
  kept : ∀ cert b, RecordedAt expired cert b ↔
    RecordedAt certsDb cert b ∧ ∀ cert', expireCerts.get? cert' ≠ some b
  back : ∀ cert b, RecordedAt reverted cert b ↔
    RecordedAt expired cert b ∨ expireCerts.get? cert = some b
  blocks : ∀ b, reverted.containsKey b = true ↔
    (certsDb.containsKey b = true ∧ ∀ cert, expireCerts.get? cert ≠ some b) ∨
      ∃ cert, expireCerts.get? cert = some b

theorem exists_afterExpiry (params : CurrencyParameters) (memory : WotMemory) (dbs : WotsV10DBs)
    (expireCerts : HashMap (NodeId × NodeId) BlockNumber) : ∃ expired reverted,
      (expiryRequests memory expireCerts).foldlM (WotsDBsWriteQuery.apply params) dbs =
        .ok expired ∧
      (revertExpiryRequests expireCerts).foldlM (WotsDBsWriteQuery.apply params) expired =
        .ok reverted ∧
      AfterExpiry dbs.certsDb expired.certsDb reverted.certsDb expireCerts := by
  rcases expired_expire ⟨memory, []⟩ expireCerts with ⟨already, hexpired⟩
  rcases hexpired.requests with ⟨blocks, hrequests, hblocks⟩
  have hfound : ∀ b, b ∉ blocks ↔ ∀ cert, expireCerts.get? cert ≠ some b := by
    intro b
    rw [hblocks, hexpired.already, not_exists]
    exact forall_congr' fun cert => not_congr (HashMap.mem_iter_iff _ _ _)
  have htotal : ∀ query ∈ expiryRequests memory expireCerts, ∀ dbs,
      ∃ dbs', query.apply params dbs = .ok dbs' := by
    intro query hmem dbs
    rw [expiryRequests, hrequests, List.nil_append] at hmem
    rcases List.mem_map.1 hmem with ⟨b, -, rfl⟩
    exact ⟨_, rfl⟩
  have htotal' : ∀ query ∈ revertExpiryRequests expireCerts, ∀ dbs,
      ∃ dbs', query.apply params dbs = .ok dbs' := by
    intro query hmem dbs
    rcases List.mem_map.1 hmem with ⟨entry, -, rfl⟩
    exact ⟨_, rfl⟩
  rcases exists_foldlM_apply htotal dbs with ⟨expired, hexpire⟩
  rcases exists_foldlM_apply htotal' expired with ⟨reverted, hrevert⟩
  have hcerts := (foldlM_apply_eq_ok hexpire).2
  rw [expiryRequests, hrequests, List.nil_append] at hcerts
  refine ⟨expired, reverted, hexpire, hrevert, fun cert b => ?_, fun cert b => ?_, fun b => ?_⟩
  · rw [hcerts, recordedAt_foldl_expireCerts, hfound]
  · rw [(foldlM_apply_eq_ok hrevert).2, revertExpiryRequests, recordedAt_foldl_revertExpireCert,
      HashMap.mem_iter_iff]
  · rw [(foldlM_apply_eq_ok hrevert).2, revertExpiryRequests, containsKey_foldl_revertExpireCert,
      hcerts, containsKey_foldl_expireCerts, hfound]
    exact or_congr Iff.rfl (exists_congr fun cert => HashMap.mem_iter_iff _ _ _)

/-- When no certification is recorded under two expiring blocks, each is found with its own. -/
theorem RecordedOnce.get?_findExpireCerts {certsDb : CertsDb} {blocksExpiring : List BlockNumber}
    (h : RecordedOnce certsDb blocksExpiring) {cert : NodeId × NodeId} {b : BlockNumber}
    (hmem : b ∈ blocksExpiring) (hrecorded : RecordedAt certsDb cert b) :
    (findExpireCerts certsDb blocksExpiring).get? cert = some b := by
  rcases findExpireCerts_cases certsDb blocksExpiring cert with
    ⟨b', hmem', hrecorded', hget⟩ | ⟨hnone, -⟩
  · rw [hget, h cert b hmem b' hmem' hrecorded hrecorded']
  · exact absurd hrecorded (hnone b hmem)

/-- What is found was recorded under the block that it is found with. -/
theorem recordedAt_of_get?_findExpireCerts {certsDb : CertsDb} {blocksExpiring : List BlockNumber}
    {cert : NodeId × NodeId} {b : BlockNumber}
    (h : (findExpireCerts certsDb blocksExpiring).get? cert = some b) :
    b ∈ blocksExpiring ∧ RecordedAt certsDb cert b := by
  rcases findExpireCerts_cases certsDb blocksExpiring cert with
    ⟨b', hmem, hrecorded, hget⟩ | ⟨-, hget⟩
  · obtain rfl := Option.some.inj (hget.symm.trans h)
    exact ⟨hmem, hrecorded⟩
  · cases hget.symm.trans h

/-- The expiry is complete and undone exactly when no certification is recorded under two of the
expiring blocks. -/
theorem expiryUndone_iff (params : CurrencyParameters) (memory : WotMemory) (dbs : WotsV10DBs)
    (blocksExpiring : List BlockNumber) :
    ExpiryUndone params memory dbs blocksExpiring ↔ RecordedOnce dbs.certsDb blocksExpiring := by
  rcases exists_afterExpiry params memory dbs (findExpireCerts dbs.certsDb blocksExpiring) with
    ⟨expired, reverted, hexpire, hrevert, hafter⟩
  have hundone : ExpiryUndone params memory dbs blocksExpiring ↔
      (∀ b ∈ blocksExpiring, ∀ cert, ¬ RecordedAt expired.certsDb cert b) ∧
        SameCerts dbs.certsDb reverted.certsDb := by
    constructor
    · rintro ⟨expired', reverted', hexpire', hrevert', h⟩
      obtain rfl := Except.ok.inj (hexpire.symm.trans hexpire')
      obtain rfl := Except.ok.inj (hrevert.symm.trans hrevert')
      exact h
    · exact fun h => ⟨expired, reverted, hexpire, hrevert, h⟩
  rw [hundone]
  constructor
  · rintro ⟨hcomplete, hsame⟩
    -- A certification that is not found with a block under which it is recorded is not undone.
    have hfound : ∀ cert, ∀ b ∈ blocksExpiring, RecordedAt dbs.certsDb cert b →
        (findExpireCerts dbs.certsDb blocksExpiring).get? cert = some b := by
      intro cert b hmem hrecorded
      rcases (hafter.back cert b).1 ((hsame.records cert b).2 hrecorded) with hkept | hget
      · exact absurd hkept (hcomplete b hmem cert)
      · exact hget
    intro cert b hmem b' hmem' hrecorded hrecorded'
    exact Option.some.inj ((hfound cert b hmem hrecorded).symm.trans
      (hfound cert b' hmem' hrecorded'))
  · intro honce
    refine ⟨fun b hmem cert hkept => ?_, fun b => ?_, fun cert b => ?_⟩
    · rcases (hafter.kept cert b).1 hkept with ⟨hrecorded, hnot⟩
      exact hnot cert (honce.get?_findExpireCerts hmem hrecorded)
    · rw [hafter.blocks]
      constructor
      · rintro (⟨hold, -⟩ | ⟨cert, hget⟩)
        · exact hold
        · exact (recordedAt_of_get?_findExpireCerts hget).2.containsKey
      · intro hold
        by_cases hex : ∃ cert, (findExpireCerts dbs.certsDb blocksExpiring).get? cert = some b
        · exact .inr hex
        · exact .inl ⟨hold, fun cert hget => hex ⟨cert, hget⟩⟩
    · rw [hafter.back, hafter.kept]
      constructor
      · rintro (⟨hrecorded, -⟩ | hget)
        · exact hrecorded
        · exact (recordedAt_of_get?_findExpireCerts hget).2
      · intro hrecorded
        by_cases hex : ∃ cert', (findExpireCerts dbs.certsDb blocksExpiring).get? cert' = some b
        · rcases hex with ⟨cert', hget⟩
          exact .inr (honce.get?_findExpireCerts (recordedAt_of_get?_findExpireCerts hget).1
            hrecorded)
        · exact .inl ⟨hrecorded, fun cert' hget => hex ⟨cert', hget⟩⟩

/-- A certification that is recorded under two blocks, both of which expire, keeps one record while
it is expired. -/
theorem not_expiryUndone_twice : ∃ bc,
    certifyingOps.foldlM (applyBlock mockCrypto) (emptyModule default) = .ok bc ∧
      ¬ ExpiryUndone default bc.memory bc.dbs.wots [0, 1] := by
  have hrun : ∃ bc expired, certifyingOps.foldlM (applyBlock mockCrypto) (emptyModule default) =
      .ok bc ∧
      (expiryRequests bc.memory (findExpireCerts bc.dbs.wots.certsDb [0, 1])).foldlM
        (WotsDBsWriteQuery.apply default) bc.dbs.wots = .ok expired ∧
      RecordedAt expired.certsDb (0, 1) 0 := ⟨_, _, rfl, rfl, by decide +kernel⟩
  rcases hrun with ⟨bc, expired, hrun, hexpire, hrecorded⟩
  refine ⟨bc, hrun, ?_⟩
  rintro ⟨expired', -, hexpire', -, hcomplete, -⟩
  obtain rfl := Except.ok.inj (hexpire.symm.trans hexpire')
  exact hcomplete 0 List.mem_cons_self (0, 1) hrecorded

end Durs
