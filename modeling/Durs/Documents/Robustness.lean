/-
# Texts that stop the parsers

The parsers of documents unwrap what they read, and index the vectors that they fill.  A text stops
the process exactly when a number in it does not fit, a key or a signature does not decode, or the
document lacks a signature that is asked for, and in one parser when the grammar refuses it.  The
signatures of a document that is accepted can always be checked.
-/

import Durs.Documents.Conversions
import Durs.Documents.Signatures

namespace Durs

open RustStd Lib.Peg Grammar

variable {C : DocCrypto}

/-! ## Checking the signatures -/

/-- A text has as many lines as are dropped from it. -/
theorem returns_asTextWithoutSignature {text : List Char} {signatures : List Sig}
    (hnil : signatures ≠ []) (hlines : signatures.length ≤ (splitLines text).length) :
    Returns (asTextWithoutSignature text signatures) := by
  have hcount : ((splitLines text).drop ((splitLines text).length - signatures.length)).length =
      signatures.length := by
    rw [List.length_drop]
    omega
  have hlast : (splitLines text).drop ((splitLines text).length - signatures.length) ≠ [] := by
    apply List.ne_nil_of_length_pos
    rw [hcount]
    exact List.length_pos_of_ne_nil hnil
  exact ⟨_, asTextWithoutSignature_eq (List.take_append_drop _ _).symm hcount hlast⟩

theorem returns_findMismatches {asBytes : Run String} (h : Returns asBytes) (i : Nat)
    (pairs : List (PubKey × Sig)) : Returns (findMismatches C asBytes i pairs) := by
  rcases h with ⟨bytes, rfl⟩
  induction pairs generalizing i with
  | nil => exact returns_pure _
  | cons pair pairs ih =>
      rcases ih (i + 1) with ⟨mismatches, hrest⟩
      rw [findMismatches, ok_bind, hrest]
      exact returns_pure _

/-- Signatures are checked only when there are as many as issuers, and some. -/
theorem returns_verifySignatures {text : String} {issuers : List PubKey} {signatures : List Sig}
    (h : issuers.length = signatures.length → signatures ≠ [] →
      Returns (asTextWithoutSignature text.toList signatures)) :
    Returns (verifySignatures C (pure text) issuers signatures) := by
  rw [verifySignatures]
  split
  case isTrue => exact returns_pure _
  case isFalse hcount =>
    refine (returns_bind_iff_of_forall fun _ => returns_pure _).2 ?_
    by_cases hnil : signatures = []
    · rw [hnil, List.zip_nil_right]
      exact returns_pure _
    · rcases h (not_not.1 hcount) hnil with ⟨body, hbody⟩
      refine returns_findMismatches ⟨String.ofList body, ?_⟩ 0 _
      rw [pure_bind, hbody]
      rfl

/-- A text has a line, which can be that of its signature. -/
theorem returns_verifySignature (text : String) (issuer : PubKey) (signature : Sig) :
    Returns (verifySignatures C (pure text) [issuer] [signature]) := by
  refine returns_verifySignatures fun _ hnil => returns_asTextWithoutSignature hnil ?_
  rw [length_splitLines]
  exact Nat.le_add_left 1 _

/-! ## What converts -/

/-- Whether the text of a rule of a document converts. -/
def textConverts (C : DocCrypto) (r : Rule) (text : List Char) : Bool :=
  match r with
  | .blockId => (parseUnsigned 32 text).isSome
  | .txLocktime => (parseUnsigned 64 text).isSome
  | .ed25519Sig => (C.fromBase64 (String.ofList text)).isSome
  | _ => ruleConverts C r text

/-- Whether the texts of a pair and of those within convert. -/
def TextsConvert (C : DocCrypto) (pair : DocPair) : Prop := pair.all (textConverts C) = true

/-- The number of signatures among some rules. -/
def sigCount (fields : List DocPair) : Nat := fields.countP fun field => field.rule = .ed25519Sig

/-- Whether a document has the signatures that are read: its own one, which comes after that of the
identity in a certification and in a revocation.  The signature of an identity or a membership
without one is read from an empty text. -/
def hasSigs (C : DocCrypto) (pair : DocPair) : Bool :=
  match pair.rule with
  | .idtyV10 | .membershipV10 => 1 ≤ sigCount pair.inner || (C.fromBase64 "").isSome
  | .certV10 | .revocV10 => 2 ≤ sigCount pair.inner
  | _ => true

/-- Whether all that is read in a document can be. -/
structure DocConverts (C : DocCrypto) (pair : DocPair) : Prop where
  texts : TextsConvert C pair
  sigs : hasSigs C pair = true

/-! ## Fields -/

theorem textsConvert_node_iff {r : Rule} {text : List Char} {inner : List DocPair} :
    TextsConvert C (.node r text inner) ↔
      textConverts C r text = true ∧ ∀ pair ∈ inner, TextsConvert C pair := Pair.all_node_iff

theorem returns_readBlockstamp_iff {stamp : DocPair} (h : IsBlockstamp stamp) :
    Returns (readBlockstamp stamp) ↔ TextsConvert C stamp := by
  cases h with
  | mk hid hhash =>
      rw [readBlockstamp_node, returns_bind_iff_and fun id => returns_bind_iff_of_forall fun hash =>
        returns_pure _]
      simp only [textsConvert_node_iff, List.forall_mem_cons, textConverts, ruleConverts,
        List.not_mem_nil, false_imp_iff, implies_true, true_and, and_true, returns_unwrap_iff,
        isSome_fromHex_of_isHash hhash]

theorem returns_readPubkey_iff {key : List Char} :
    Returns (readPubkey C (.leaf .pubkey key)) ↔ TextsConvert C (.leaf .pubkey key) := by
  rw [readPubkey, returns_unwrap_iff, textsConvert_node_iff]
  exact (and_iff_left (List.forall_mem_nil _)).symm

theorem returns_readSig_iff {sig : List Char} :
    Returns (readSig C (.leaf .ed25519Sig sig)) ↔ TextsConvert C (.leaf .ed25519Sig sig) := by
  rw [readSig, returns_unwrap_iff, textsConvert_node_iff]
  exact (and_iff_left (List.forall_mem_nil _)).symm

/-! ## Documents with one signature -/

theorem rule_ne_of_isBlockstamp {stamp : DocPair} (h : IsBlockstamp stamp) :
    stamp.rule ≠ .ed25519Sig := by
  cases h with
  | mk =>
      rw [Pair.rule_node]
      decide

/-- The signature at the end, when an empty text stands for a missing one. -/
theorem sigPairs_convert_iff {sig : Option (List Char)} :
    ((∀ pair ∈ sigPairs sig.toList, TextsConvert C pair) ∧
      (1 ≤ sigCount (sigPairs sig.toList) ∨
        (C.fromBase64 "").isSome)) ↔
      (C.fromBase64 (String.ofList (sig.getD []))).isSome := by
  cases sig with
  | none | some sig =>
      simp [sigCount, sigPairs, textsConvert_node_iff, textConverts, ruleConverts]

/-- The signature at the end, which must be there. -/
theorem returns_readOwnSig_iff {sig : Option (List Char)} :
    Returns (readOwnSig C sig) ↔ (∀ pair ∈ sigPairs sig.toList, TextsConvert C pair) ∧
      1 ≤ sigCount (sigPairs sig.toList) := by
  cases sig with
  | none =>
      simp [readOwnSig, sigCount, sigPairs]
  | some sig =>
      simp [readOwnSig, returns_readSig_iff, sigCount, sigPairs, textsConvert_node_iff,
        textConverts, ruleConverts]

/-- The rules of a document convert when those before the signatures do, and the signatures do. -/
theorem textsConvert_document_iff {r : Rule} {text : List Char} {fields sigs : List DocPair}
    (hr : textConverts C r text = true) : TextsConvert C (.node r text (fields ++ sigs)) ↔
      (∀ pair ∈ fields, TextsConvert C pair) ∧ ∀ pair ∈ sigs, TextsConvert C pair := by
  rw [textsConvert_node_iff, and_iff_right hr, List.forall_mem_append]

theorem docConverts_iff {pair : DocPair} :
    DocConverts C pair ↔ TextsConvert C pair ∧ hasSigs C pair = true :=
  ⟨fun h => ⟨h.texts, h.sigs⟩, fun h => ⟨h.1, h.2⟩⟩

/-- An identity or a membership converts when its fields do and its signature does. -/
theorem docConverts_signed_iff {r : Rule} {text : List Char} {fields : List DocPair}
    {sig : Option (List Char)} (hr : r = .idtyV10 ∨ r = .membershipV10)
    (hcount : sigCount fields = 0) :
    DocConverts C (.node r text (fields ++ sigPairs sig.toList)) ↔
      (∀ pair ∈ fields, TextsConvert C pair) ∧
        (C.fromBase64 (String.ofList (sig.getD []))).isSome := by
  have hrule : textConverts C r text = true := by
    obtain rfl | rfl := hr
    · rfl
    · rfl
  have hsigs : hasSigs C (.node r text (fields ++ sigPairs sig.toList)) = true ↔
      1 ≤ sigCount (sigPairs sig.toList) ∨ (C.fromBase64 "").isSome := by
    have hsum : sigCount (fields ++ sigPairs sig.toList) = sigCount (sigPairs sig.toList) := by
      rw [sigCount, List.countP_append, ← sigCount, hcount, zero_add, sigCount]
    rw [← hsum]
    obtain rfl | rfl := hr
    · exact (Bool.or_eq_true _ _).to_iff.trans (or_congr_left decide_eq_true_iff)
    · exact (Bool.or_eq_true _ _).to_iff.trans (or_congr_left decide_eq_true_iff)
  rw [docConverts_iff, textsConvert_document_iff hrule, hsigs, and_assoc]
  exact and_congr_right fun _ => sigPairs_convert_iff

/-- A certification or a revocation converts when its fields do and its own signature does, which
must be there. -/
theorem docConverts_countersigned_iff {r : Rule} {text : List Char} {fields : List DocPair}
    {sig : Option (List Char)} (hr : r = .certV10 ∨ r = .revocV10) (hcount : sigCount fields = 1) :
    DocConverts C (.node r text (fields ++ sigPairs sig.toList)) ↔
      (∀ pair ∈ fields, TextsConvert C pair) ∧ Returns (readOwnSig C sig) := by
  have hrule : textConverts C r text = true := by
    obtain rfl | rfl := hr
    · rfl
    · rfl
  have hsigs : hasSigs C (.node r text (fields ++ sigPairs sig.toList)) = true ↔
      1 ≤ sigCount (sigPairs sig.toList) := by
    have hsum : sigCount (fields ++ sigPairs sig.toList) =
        1 + sigCount (sigPairs sig.toList) := by
      rw [sigCount, List.countP_append, ← sigCount, hcount, sigCount]
    rw [← Nat.add_le_add_iff_left (n := 1), ← hsum]
    obtain rfl | rfl := hr
    · exact decide_eq_true_iff
    · exact decide_eq_true_iff
  rw [docConverts_iff, textsConvert_document_iff hrule, hsigs, and_assoc]
  exact and_congr_right fun _ => returns_readOwnSig_iff.symm

/-! ## The documents -/

theorem returns_identityParser_iff {text currency key uid : List Char} {stamp : DocPair}
    {sig : Option (List Char)} (hstamp : IsBlockstamp stamp) :
    Returns (IdentityDocumentParser.fromPestPair C (.node .idtyV10 text
      (idtyFields currency key uid stamp ++ sigPairs sig.toList))) ↔
    DocConverts C (.node .idtyV10 text
      (idtyFields currency key uid stamp ++ sigPairs sig.toList)) := by
  have hcount : sigCount (idtyFields currency key uid stamp) = 0 := by
    simp [sigCount, idtyFields, rule_ne_of_isBlockstamp hstamp]
  rw [docConverts_signed_iff (.inl rfl) hcount, IdentityDocumentParser.fromPestPair_eq C hstamp,
    returns_bind_iff_and fun stamp => returns_bind_iff_and fun issuer =>
    returns_bind_iff_of_forall fun signature => returns_pure _, returns_readBlockstamp_iff hstamp,
    returns_unwrap_iff, returns_unwrap_iff]
  simp only [idtyFields, List.forall_mem_cons, textsConvert_node_iff, textConverts, ruleConverts,
    List.not_mem_nil, false_imp_iff, implies_true, true_and, and_true]
  tauto

theorem returns_membershipParser_iff {text currency key uid : List Char}
    {block type stamp : DocPair}
    {sig : Option (List Char)} (hblock : IsBlockstamp block) (htype : IsMembershipType type)
    (hstamp : IsBlockstamp stamp) :
    Returns (MembershipDocumentParser.fromPestPair C (.node .membershipV10 text
      (membershipFields currency key block type uid stamp ++ sigPairs sig.toList))) ↔
    DocConverts C (.node .membershipV10 text
      (membershipFields currency key block type uid stamp ++ sigPairs sig.toList)) := by
  have hcount : sigCount (membershipFields currency key block type uid stamp) = 0 := by
    have hne : type.rule ≠ .ed25519Sig := by
      cases htype with
      | «in» => decide
      | out => decide
    simp [sigCount, membershipFields, rule_ne_of_isBlockstamp hblock, hne,
      rule_ne_of_isBlockstamp hstamp]
  have hconverts : TextsConvert C type := by
    cases htype with
    | «in» => rfl
    | out => rfl
  rw [docConverts_signed_iff (.inr rfl) hcount,
    MembershipDocumentParser.fromPestPair_eq C hblock htype hstamp,
    returns_bind_iff_and fun block => returns_bind_iff_and fun stamp =>
    returns_bind_iff_and fun issuer => returns_bind_iff_of_forall fun signature => returns_pure _,
    returns_readBlockstamp_iff hblock, returns_readBlockstamp_iff hstamp, returns_unwrap_iff,
    returns_unwrap_iff]
  simp only [membershipFields, List.forall_mem_cons, textsConvert_node_iff, textConverts,
    ruleConverts, List.not_mem_nil, false_imp_iff, implies_true, true_and, and_true, hconverts]
  tauto

theorem returns_certificationParser_iff {text currency key target uid idtySig : List Char}
    {stamp stamp' : DocPair} {sig : Option (List Char)} (hstamp : IsBlockstamp stamp)
    (hstamp' : IsBlockstamp stamp') :
    Returns (CertificationDocumentParser.fromPestPair C (.node .certV10 text
      (certFields currency key target uid stamp idtySig stamp' ++ sigPairs sig.toList))) ↔
    DocConverts C (.node .certV10 text
      (certFields currency key target uid stamp idtySig stamp' ++ sigPairs sig.toList)) := by
  have hcount : sigCount (certFields currency key target uid stamp idtySig stamp') = 1 := by
    simp [sigCount, certFields, rule_ne_of_isBlockstamp hstamp, rule_ne_of_isBlockstamp hstamp']
  rw [docConverts_countersigned_iff (.inl rfl) hcount,
    CertificationDocumentParser.fromPestPair_eq C hstamp hstamp',
    returns_bind_iff_and fun issuer => returns_bind_iff_and fun target =>
    returns_bind_iff_and fun stamp => returns_bind_iff_and fun idtySig =>
    returns_bind_iff_and fun stamp' => returns_bind_iff_of_forall fun signature => returns_pure _,
    returns_readPubkey_iff, returns_readPubkey_iff, returns_readBlockstamp_iff hstamp,
    returns_readSig_iff, returns_readBlockstamp_iff hstamp']
  simp only [certFields, List.forall_mem_cons, textsConvert_node_iff, textConverts, ruleConverts,
    List.not_mem_nil, false_imp_iff, implies_true, true_and, and_true]
  tauto

theorem returns_revocationParser_iff {text currency key uid idtySig : List Char} {stamp : DocPair}
    {sig : Option (List Char)} (hstamp : IsBlockstamp stamp) :
    Returns (RevocationDocumentParser.fromPestPair C (.node .revocV10 text
      (revocFields currency key uid stamp idtySig ++ sigPairs sig.toList))) ↔
    DocConverts C (.node .revocV10 text
      (revocFields currency key uid stamp idtySig ++ sigPairs sig.toList)) := by
  have hcount : sigCount (revocFields currency key uid stamp idtySig) = 1 := by
    simp [sigCount, revocFields, rule_ne_of_isBlockstamp hstamp]
  rw [docConverts_countersigned_iff (.inr rfl) hcount,
    RevocationDocumentParser.fromPestPair_eq C hstamp, returns_bind_iff_and fun issuer =>
    returns_bind_iff_and fun stamp => returns_bind_iff_and fun idtySig =>
    returns_bind_iff_of_forall fun signature => returns_pure _, returns_readPubkey_iff,
    returns_readBlockstamp_iff hstamp, returns_readSig_iff]
  simp only [revocFields, List.forall_mem_cons, textsConvert_node_iff, textConverts, ruleConverts,
    List.not_mem_nil, false_imp_iff, implies_true, true_and, and_true]
  tauto

/-! ## Transactions -/

theorem textsConvert_input_iff {pair : DocPair} (h : IsInput pair) :
    TextsConvert C pair ↔ PairConverts C pair := by
  cases h with
  | du | tx =>
      simp only [textsConvert_node_iff, pairConverts_node_iff, List.forall_mem_cons,
        List.not_mem_nil, false_imp_iff, implies_true, textConverts]

theorem textsConvert_unlockCond_iff {cond : DocPair} (h : IsUnlockCond cond) :
    TextsConvert C cond ↔ PairConverts C cond := by
  cases h with
  | sig | xhx =>
      simp only [textsConvert_node_iff, pairConverts_node_iff, List.forall_mem_cons,
        List.not_mem_nil, false_imp_iff, implies_true, textConverts]

theorem textsConvert_unlock_iff {pair : DocPair} (h : IsUnlock pair) :
    TextsConvert C pair ↔ PairConverts C pair := by
  cases h with
  | mk _ hcond hconds =>
      simp only [textsConvert_node_iff, pairConverts_node_iff, List.forall_mem_cons,
        List.not_mem_nil, false_imp_iff, implies_true, textConverts,
        textsConvert_unlockCond_iff hcond]
      refine and_congr_right fun _ => and_congr_right fun _ => and_congr_right fun _ => ?_
      exact forall₂_congr fun cond hmem => textsConvert_unlockCond_iff (hconds cond hmem)

theorem textsConvert_cond_iff {cond : DocPair} (h : IsCond cond) :
    TextsConvert C cond ↔ PairConverts C cond := by
  induction h with
  | sig | xhx | csv | cltv =>
      simp only [textsConvert_node_iff, pairConverts_node_iff, List.forall_mem_cons,
        List.not_mem_nil, false_imp_iff, implies_true, textConverts]
  | and _ _ _ hfirst hsecond hconds =>
      simp only [textsConvert_node_iff, pairConverts_node_iff, List.forall_mem_cons, textConverts,
        hfirst, hsecond]
      refine and_congr_right fun _ => and_congr_right fun _ => and_congr_right fun _ => ?_
      exact forall₂_congr hconds
  | or _ _ _ hfirst hsecond hconds =>
      simp only [textsConvert_node_iff, pairConverts_node_iff, List.forall_mem_cons, textConverts,
        hfirst, hsecond]
      refine and_congr_right fun _ => and_congr_right fun _ => and_congr_right fun _ => ?_
      exact forall₂_congr hconds

theorem textsConvert_output_iff {pair : DocPair} (h : IsOutput pair) :
    TextsConvert C pair ↔ PairConverts C pair := by
  cases h with
  | mk _ _ hcond =>
      simp only [textsConvert_node_iff, pairConverts_node_iff, List.forall_mem_cons,
        List.not_mem_nil, false_imp_iff, implies_true, textConverts, textsConvert_cond_iff hcond]

theorem returns_transactionParser_iff {text : List Char} {tx : TxParts} {sigs : List (List Char)}
    (htx : tx.WellFormed) :
    Returns (TransactionDocumentParser.fromPestPair C
      (.node .txV10 text (tx.fields ++ sigPairs sigs))) ↔
    DocConverts C (.node .txV10 text (tx.fields ++ sigPairs sigs)) := by
  have hissuers : (∀ issuer ∈ tx.issuers, Returns (readPubkey C issuer)) ↔
      ∀ issuer ∈ tx.issuers, TextsConvert C issuer := by
    refine forall₂_congr fun issuer hmem => ?_
    rcases htx.issuers issuer hmem with ⟨key, rfl⟩
    exact returns_readPubkey_iff
  have hinputs : (∀ input ∈ tx.inputs, Returns (TransactionInput.fromPestPair C input.inner)) ↔
      ∀ input ∈ tx.inputs, TextsConvert C input := forall₂_congr fun input hmem =>
    (returns_input_iff (htx.inputs input hmem)).trans
      (textsConvert_input_iff (htx.inputs input hmem)).symm
  have hunlocks : (∀ unlock ∈ tx.unlocks,
      Returns (TransactionInputUnlocks.fromPestPair unlock.inner)) ↔
      ∀ unlock ∈ tx.unlocks, TextsConvert C unlock := forall₂_congr fun unlock hmem =>
    (returns_unlocks_iff (htx.unlocks unlock hmem)).trans
      (textsConvert_unlock_iff (htx.unlocks unlock hmem)).symm
  have houtputs : (∀ output ∈ tx.outputs,
      Returns (TransactionOutput.fromPestPair C output.inner)) ↔
      ∀ output ∈ tx.outputs, TextsConvert C output := forall₂_congr fun output hmem =>
    (returns_output_iff (htx.outputs output hmem)).trans
      (textsConvert_output_iff (htx.outputs output hmem)).symm
  have hsigs : (∀ sig ∈ sigs.map (Pair.leaf Rule.ed25519Sig), Returns (readSig C sig)) ↔
      ∀ pair ∈ sigPairs sigs, TextsConvert C pair := by
    have heoi : TextsConvert C (.leaf .eoi []) := rfl
    rw [sigPairs, List.forall_mem_append, List.forall_mem_singleton, and_iff_left heoi]
    refine forall₂_congr fun pair hmem => ?_
    obtain ⟨sig, -, rfl⟩ := List.mem_map.1 hmem
    exact returns_readSig_iff
  rw [docConverts_iff, textsConvert_document_iff rfl,
    TransactionDocumentParser.fromPestPair_eq C htx,
    returns_bind_iff_and fun blockstamp => returns_bind_iff_and fun locktime =>
    returns_bind_iff_and fun issuers => returns_bind_iff_and fun inputs =>
    returns_bind_iff_and fun unlocks => returns_bind_iff_and fun outputs =>
    returns_bind_iff_of_forall fun signatures => returns_pure _,
    returns_readBlockstamp_iff htx.blockstamp, returns_unwrap_iff, returns_mapM_iff,
    returns_mapM_iff, returns_mapM_iff, returns_mapM_iff, returns_mapM_iff, hissuers, hinputs,
    hunlocks, houtputs, hsigs]
  simp only [TxParts.fields, List.forall_mem_append, List.forall_mem_cons, textsConvert_node_iff,
    textConverts, ruleConverts, List.not_mem_nil, false_imp_iff, implies_true, true_and, and_true,
    hasSigs, Pair.rule_node]
  tauto

/-- A transaction has a line for each of its issuers. -/
theorem length_issuers_le {tx : TxParts} (sigs : List (List Char)) (breaks : Nat) :
    tx.issuers.length ≤ (splitLines (tx.body ++ sigTail sigs breaks)).length := by
  have hlines :
      tx.issuers.length ≤ (tx.issuers.flatMap fun pair => pair.text ++ ['\n']).count '\n' := by
    induction tx.issuers with
    | nil => exact Nat.zero_le _
    | cons issuer issuers ih =>
        rw [List.flatMap_cons, List.count_append, List.count_append, List.count_singleton_self,
          List.length_cons]
        omega
  rw [length_splitLines, TxParts.body, TxParts.header, TxParts.block]
  simp only [List.count_append]
  omega

theorem returns_verifyTransaction {text : List Char} {tx : TxParts} {sigs : List (List Char)}
    {breaks : Nat} {doc : TransactionDocument}
    (htext : text = tx.body ++ sigTail sigs breaks) (h : doc.ReadFrom C text tx sigs) :
    Returns (doc.verifySignatures C) := by
  rw [TransactionDocument.verifySignatures, TransactionDocument.asText, h.text]
  refine returns_verifySignatures fun hcount hnil => returns_asTextWithoutSignature hnil ?_
  rw [← hcount, length_of_mapM h.issuers, String.toList_ofList, htext]
  exact length_issuers_le sigs breaks

/-! ## The parsers -/

/-- Neither the parser nor the check of the signatures of what it accepts stops the process. -/
structure TextSafe {D : Type} (parse : String → Run (Except TextDocumentParseError D))
    (verify : D → Run VerificationResult) (text : String) : Prop where
  parses : Returns (parse text)
  verifies : ∀ doc, parse text = .ok (.ok doc) → Returns (verify doc)

/-- The rules within the ones that a text matches, which are those of the versions. -/
def versionsIn (e : Lib.Peg.Expr Rule) (text : String) : List DocPair :=
  ((DocumentsParser.parse e text).getD []).flatMap Pair.inner

theorem versionsIn_of_parse {e : Lib.Peg.Expr Rule} {text : String} {r : Rule}
    {chars : List Char} {inner : List DocPair}
    (h : DocumentsParser.parse e text = some [.node r chars inner]) :
    versionsIn e text = inner := by
  rw [versionsIn, h, Option.getD_some, List.flatMap_singleton, Pair.inner_node]

theorem versionsIn_of_parse_eq_none {e : Lib.Peg.Expr Rule} {text : String}
    (h : DocumentsParser.parse e text = none) : versionsIn e text = [] := by
  rw [versionsIn, h]
  rfl

/-- A parser is safe on a text exactly when what it finds there converts, and its own error does not
stop the process. -/
theorem textSafe_iff {D : Type} {e : Lib.Peg.Expr Rule} {r version : Rule}
    {fromPestPair : DocPair → Run D} {onPestError : Run (Except TextDocumentParseError D)}
    {verify : D → Run VerificationResult} (he : e.Finishes)
    (hversion : ∀ text inner, e.lang text inner → ∃ fields, inner = [.node version text fields])
    (hreturns : ∀ text pair, e.lang text [pair] →
      (Returns (fromPestPair pair) ↔ DocConverts C pair))
    (hverify : ∀ text pair doc, e.lang text [pair] → fromPestPair pair = .ok doc →
      Returns (verify doc))
    (herror : ∀ doc, onPestError ≠ .ok (.ok doc)) (text : String) :
    TextSafe (parseVersion (.rule r (atV10 ++ e)) version fromPestPair onPestError) verify text ↔
      (DocumentsParser.parse (.rule r (atV10 ++ e)) text = none → Returns onPestError) ∧
        ∀ pair ∈ versionsIn (.rule r (atV10 ++ e)) text, DocConverts C pair := by
  rcases parseVersion_cases (r := r) he hversion fromPestPair onPestError text with
    ⟨hnone, hrefused⟩ | ⟨fields, hlang, hsome, hread⟩
  · rw [versionsIn_of_parse_eq_none hnone]
    constructor
    · intro h
      exact ⟨fun _ => hrefused ▸ h.parses, List.forall_mem_nil _⟩
    · intro h
      refine ⟨?_, fun doc hdoc => absurd (hrefused.symm.trans hdoc) (herror doc)⟩
      rw [hrefused]
      exact h.1 hnone
  · rw [versionsIn_of_parse hsome, List.forall_mem_singleton, ← hreturns _ _ hlang, hsome]
    have hparses : Returns (parseVersion (.rule r (atV10 ++ e)) version fromPestPair onPestError
        text) ↔ Returns (fromPestPair (.node version text.toList fields)) := by
      rw [hread]
      exact returns_bind_iff_of_forall fun _ => returns_pure _
    constructor
    · intro h
      refine ⟨fun hc => ?_, hparses.1 h.parses⟩
      cases hc
    · rintro ⟨-, h⟩
      refine ⟨hparses.2 h, fun doc hdoc => ?_⟩
      rw [hread, bind_eq_ok_iff] at hdoc
      rcases hdoc with ⟨doc', hdoc', heq⟩
      obtain rfl := Except.ok.inj (pure_eq_ok_iff.1 heq)
      exact hverify _ _ _ hlang hdoc'

/-! ## Each kind of document -/

theorem of_lang_identity {text : List Char} {pair : DocPair} (h : idtyV10.lang text [pair]) :
    (Returns (IdentityDocumentParser.fromPestPair C pair) ↔ DocConverts C pair) ∧
      ∀ doc, IdentityDocumentParser.fromPestPair C pair = .ok doc →
        Returns (doc.verifySignatures C) := by
  rcases of_lang_idtyV10 h with ⟨currency, key, uid, stamp, sig, -, hstamp, -, -, hpair⟩
  obtain rfl := List.singleton_inj.1 hpair
  refine ⟨returns_identityParser_iff hstamp, fun doc hdoc => ?_⟩
  simp only [IdentityDocumentParser.fromPestPair_eq C hstamp, bind_eq_ok_iff,
    pure_eq_ok_iff] at hdoc
  rcases hdoc with ⟨-, -, issuer, -, signature, -, rfl⟩
  exact returns_verifySignature _ issuer signature

theorem of_lang_membership {text : List Char} {pair : DocPair}
    (h : membershipV10.lang text [pair]) :
    (Returns (MembershipDocumentParser.fromPestPair C pair) ↔ DocConverts C pair) ∧
      ∀ doc, MembershipDocumentParser.fromPestPair C pair = .ok doc →
        Returns (doc.verifySignatures C) := by
  rcases of_lang_membershipV10 h with
    ⟨currency, key, block, type, uid, stamp, sig, -, hblock, htype, hstamp, -, -, hpair⟩
  obtain rfl := List.singleton_inj.1 hpair
  refine ⟨returns_membershipParser_iff hblock htype hstamp, fun doc hdoc => ?_⟩
  simp only [MembershipDocumentParser.fromPestPair_eq C hblock htype hstamp, bind_eq_ok_iff,
    pure_eq_ok_iff] at hdoc
  rcases hdoc with ⟨-, -, -, -, issuer, -, signature, -, rfl⟩
  exact returns_verifySignature _ issuer signature

theorem of_lang_certification {text : List Char} {pair : DocPair} (h : certV10.lang text [pair]) :
    (Returns (CertificationDocumentParser.fromPestPair C pair) ↔ DocConverts C pair) ∧
      ∀ doc, CertificationDocumentParser.fromPestPair C pair = .ok doc →
        Returns (doc.verifySignatures C) := by
  rcases of_lang_certV10 h with
    ⟨currency, key, target, uid, stamp, idtySig, stamp', sig, hstamp, hstamp', hpair⟩
  obtain rfl := List.singleton_inj.1 hpair
  exact ⟨returns_certificationParser_iff hstamp hstamp', fun doc _ => returns_verifySignature _ _ _⟩

theorem of_lang_revocation {text : List Char} {pair : DocPair} (h : revocV10.lang text [pair]) :
    (Returns (RevocationDocumentParser.fromPestPair C pair) ↔ DocConverts C pair) ∧
      ∀ doc, RevocationDocumentParser.fromPestPair C pair = .ok doc →
        Returns (doc.verifySignatures C) := by
  rcases of_lang_revocV10 h with ⟨currency, key, uid, stamp, idtySig, sig, hstamp, hpair⟩
  obtain rfl := List.singleton_inj.1 hpair
  exact ⟨returns_revocationParser_iff hstamp, fun doc _ => returns_verifySignature _ _ _⟩

theorem of_lang_transaction {text : List Char} {pair : DocPair} (h : txV10.lang text [pair]) :
    (Returns (TransactionDocumentParser.fromPestPair C pair) ↔ DocConverts C pair) ∧
      ∀ doc, TransactionDocumentParser.fromPestPair C pair = .ok doc →
        Returns (doc.verifySignatures C) := by
  rcases of_lang_txV10 h with ⟨tx, sigs, breaks, htx, -, htext, hpair⟩
  obtain rfl := List.singleton_inj.1 hpair
  exact ⟨returns_transactionParser_iff htx, fun doc hdoc =>
    returns_verifyTransaction htext (TransactionDocument.readFrom_of_fromPestPair htx hdoc)⟩

theorem exists_fields_of_rule {e : Lib.Peg.Expr Rule} {r : Rule} {text : List Char}
    {inner : List DocPair} (h : (Lib.Peg.Expr.rule r e).lang text inner) :
    ∃ fields, inner = [.node r text fields] := by
  rcases h with ⟨fields, -, hinner⟩
  exact ⟨fields, hinner⟩

/-- A document that a text holds is built by the parser of its kind. -/
theorem of_lang_document {text : List Char} {inner : List DocPair}
    (h : idtyV10.lang text inner ∨ membershipV10.lang text inner ∨ certV10.lang text inner ∨
      revocV10.lang text inner ∨ txV10.lang text inner) :
    (Returns (DUBPDocument.fromPestPairV10 C (.node .documentV10 text inner)) ↔
        ∀ pair ∈ inner, DocConverts C pair) ∧
      ∀ doc, DUBPDocument.fromPestPairV10 C (.node .documentV10 text inner) = .ok doc →
        Returns (doc.verifySignatures C) := by
  have hkind {D : Type} {x : Run D} {toDoc : D → DUBPDocument} {pair : DocPair}
      {verify : D → Run VerificationResult}
      (hpair : (Returns x ↔ DocConverts C pair) ∧ ∀ doc, x = .ok doc → Returns (verify doc))
      (hverify : ∀ doc, (toDoc doc).verifySignatures C = verify doc) :
      (Returns (toDoc <$> x) ↔ ∀ pair' ∈ [pair], DocConverts C pair') ∧
        ∀ doc, toDoc <$> x = .ok doc → Returns (doc.verifySignatures C) := by
    rw [List.forall_mem_singleton, ← hpair.1]
    cases x with
    | error e =>
        refine ⟨iff_of_false ?_ ?_, ?_⟩
        · rintro ⟨doc, hdoc⟩
          cases hdoc
        · rintro ⟨doc, hdoc⟩
          cases hdoc
        · intro doc hdoc
          cases hdoc
    | ok doc =>
        refine ⟨iff_of_true ⟨_, rfl⟩ ⟨_, rfl⟩, ?_⟩
        rintro _ ⟨⟩
        rw [hverify]
        exact hpair.2 doc rfl
  rcases h with h | h | h | h | h
  · obtain ⟨fields, rfl⟩ := exists_fields_of_rule h
    exact hkind (of_lang_identity h) fun _ => rfl
  · obtain ⟨fields, rfl⟩ := exists_fields_of_rule h
    exact hkind (of_lang_membership h) fun _ => rfl
  · obtain ⟨fields, rfl⟩ := exists_fields_of_rule h
    exact hkind (of_lang_certification h) fun _ => rfl
  · obtain ⟨fields, rfl⟩ := exists_fields_of_rule h
    exact hkind (of_lang_revocation h) fun _ => rfl
  · obtain ⟨fields, rfl⟩ := exists_fields_of_rule h
    exact hkind (of_lang_transaction h) fun _ => rfl

/-- The parser of documents of any type is safe on a text exactly when the document that it holds
converts. -/
theorem textSafe_document_iff (text : String) :
    TextSafe (DUBPDocument.parse C) (·.verifySignatures C) text ↔
      ∀ version ∈ versionsIn Grammar.document text, ∀ pair ∈ version.inner, DocConverts C pair := by
  cases hparse : DocumentsParser.parse Grammar.document text with
  | none =>
      have hread : DUBPDocument.parse C text = .ok (.error .pestError) := by
        unfold DUBPDocument.parse
        rw [hparse]
        rfl
      rw [versionsIn_of_parse_eq_none hparse]
      refine iff_of_true ⟨⟨_, hread⟩, fun doc hdoc => ?_⟩ (List.forall_mem_nil _)
      cases hread.symm.trans hdoc
  | some pairs =>
      rcases of_parse_document hparse with ⟨inner, hlang, rfl⟩
      obtain ⟨hreturns, hverify⟩ := of_lang_document (C := C) hlang
      have hread : DUBPDocument.parse C text = do
          let doc ← DUBPDocument.fromPestPairV10 C (.node .documentV10 text.toList inner)
          return .ok doc := by
        unfold DUBPDocument.parse
        rw [hparse]
        rfl
      rw [versionsIn_of_parse hparse, List.forall_mem_singleton, Pair.inner_node, ← hreturns]
      constructor
      · intro h
        have hparses := h.parses
        rw [hread] at hparses
        exact (returns_bind_iff_of_forall fun _ => returns_pure _).1 hparses
      · intro h
        refine ⟨?_, fun doc hdoc => ?_⟩
        · rw [hread]
          exact (returns_bind_iff_of_forall fun _ => returns_pure _).2 h
        · rw [hread, bind_eq_ok_iff] at hdoc
          rcases hdoc with ⟨doc', hdoc', heq⟩
          obtain rfl := Except.ok.inj (pure_eq_ok_iff.1 heq)
          exact hverify _ hdoc'

variable (C) in
/-- Each of the parsers of documents is safe on a text. -/
structure ParsersSafe (text : String) : Prop where
  identity : TextSafe (IdentityDocumentParser.parse C) (·.verifySignatures C) text
  membership : TextSafe (MembershipDocumentParser.parse C) (·.verifySignatures C) text
  certification : TextSafe (CertificationDocumentParser.parse C) (·.verifySignatures C) text
  revocation : TextSafe (RevocationDocumentParser.parse C) (·.verifySignatures C) text
  transaction : TextSafe (TransactionDocumentParser.parse C) (·.verifySignatures C) text
  document : TextSafe (DUBPDocument.parse C) (·.verifySignatures C) text

/-- Each parser is safe on a text exactly when what its grammar finds there converts.  The one of
certifications asks besides that its grammar matches. -/
theorem parsersSafe_iff (C : DocCrypto) (text : String) :
    (TextSafe (IdentityDocumentParser.parse C) (·.verifySignatures C) text ↔
      ∀ pair ∈ versionsIn Grammar.idty text, DocConverts C pair) ∧
    (TextSafe (MembershipDocumentParser.parse C) (·.verifySignatures C) text ↔
      ∀ pair ∈ versionsIn Grammar.membership text, DocConverts C pair) ∧
    (TextSafe (CertificationDocumentParser.parse C) (·.verifySignatures C) text ↔
      (DocumentsParser.parse Grammar.cert text).isSome ∧
        ∀ pair ∈ versionsIn Grammar.cert text, DocConverts C pair) ∧
    (TextSafe (RevocationDocumentParser.parse C) (·.verifySignatures C) text ↔
      ∀ pair ∈ versionsIn Grammar.revoc text, DocConverts C pair) ∧
    (TextSafe (TransactionDocumentParser.parse C) (·.verifySignatures C) text ↔
      ∀ pair ∈ versionsIn Grammar.tx text, DocConverts C pair) ∧
    (TextSafe (DUBPDocument.parse C) (·.verifySignatures C) text ↔
      ∀ version ∈ versionsIn Grammar.document text,
        ∀ pair ∈ version.inner, DocConverts C pair) := by
  have hrefuses {D : Type} (doc : D) :
      (pure (.error .pestError) : Run (Except TextDocumentParseError D)) ≠ .ok (.ok doc) := by
    intro h
    cases h
  have hsome : (DocumentsParser.parse Grammar.cert text).isSome ↔
      (DocumentsParser.parse Grammar.cert text = none →
        Returns (fatalError "\x7b\x7d" :
          Run (Except TextDocumentParseError CertificationDocument))) := by
    cases DocumentsParser.parse Grammar.cert text with
    | none => exact iff_of_false Bool.false_ne_true fun h => not_returns_fatalError _ (h rfl)
    | some pairs => exact iff_of_true rfl fun h => by cases h
  refine ⟨?_, ?_, ?_, ?_, ?_, textSafe_document_iff text⟩
  · refine (textSafe_iff finishes_idtyV10 (fun _ _ => exists_fields_of_rule)
      (fun _ _ h => (of_lang_identity h).1) (fun _ _ doc h => (of_lang_identity h).2 doc)
      hrefuses text).trans (and_iff_right fun _ => returns_pure _)
  · refine (textSafe_iff finishes_membershipV10 (fun _ _ => exists_fields_of_rule)
      (fun _ _ h => (of_lang_membership h).1) (fun _ _ doc h => (of_lang_membership h).2 doc)
      hrefuses text).trans (and_iff_right fun _ => returns_pure _)
  · rw [hsome]
    refine textSafe_iff finishes_certV10 (fun _ _ => exists_fields_of_rule)
      (fun _ _ h => (of_lang_certification h).1) (fun _ _ doc h => (of_lang_certification h).2 doc)
      (fun doc h => ?_) text
    cases h
  · refine (textSafe_iff finishes_revocV10 (fun _ _ => exists_fields_of_rule)
      (fun _ _ h => (of_lang_revocation h).1) (fun _ _ doc h => (of_lang_revocation h).2 doc)
      hrefuses text).trans (and_iff_right fun _ => returns_pure _)
  · refine (textSafe_iff finishes_txV10 (fun _ _ => exists_fields_of_rule)
      (fun _ _ h => (of_lang_transaction h).1) (fun _ _ doc h => (of_lang_transaction h).2 doc)
      hrefuses text).trans (and_iff_right fun _ => returns_pure _)

/-- A text that is no certification stops the process in the parser of certifications. -/
theorem not_parsersSafe_empty : ¬∀ text, ParsersSafe exampleCrypto text := by
  intro h
  rcases (h "").certification.parses with ⟨doc, hdoc⟩
  have hfatal : CertificationDocumentParser.parse exampleCrypto "" = fatalError "\x7b\x7d" := by
    decide +kernel
  cases hfatal.symm.trans hdoc

end Durs
