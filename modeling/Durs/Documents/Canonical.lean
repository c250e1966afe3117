/-
# Text documents are canonical

What a parser accepts is what the builder prints from the fields read, followed by the signatures,
one a line, and line breaks.
-/

import Durs.Documents.Lines
import Durs.Documents.Reading

namespace Durs

open RustStd Lib.Peg Grammar

variable {C : DocCrypto}

/-- Whether the public keys print what they are read from. -/
def DocCrypto.PrintsPubkeys (C : DocCrypto) : Prop :=
  ∀ text key, C.fromBase58 text = some key → C.base58 key = text

/-! ## Fields -/

theorem toText_of_readBlockstamp {stamp : DocPair} (hstamp : IsBlockstamp stamp)
    {blockstamp : Blockstamp} (h : readBlockstamp stamp = .ok blockstamp) :
    blockstamp.toText.toList = stamp.text := by
  cases hstamp with
  | mk hid hhash =>
      rcases Hash.fromHex_of_upper hhash.1 hhash.2 with ⟨hash, hread, hprint⟩
      simp only [readBlockstamp_node, hread, bind_eq_ok_iff, unwrap_eq_ok_iff,
        pure_eq_ok_iff] at h
      rcases h with ⟨id, hvalue, hash', hhash', rfl⟩
      obtain rfl := Option.some.inj hhash'
      simp only [Blockstamp.toText, String.toList_append, hid.toString_of_parseUnsigned hvalue,
        hprint, List.append_assoc]
      rfl

theorem DocCrypto.PrintsPubkeys.toList (hprints : C.PrintsPubkeys) {text : List Char}
    {key : PubKey} (h : C.fromBase58 (String.ofList text) = some key) :
    (C.base58 key).toList = text := by
  rw [hprints _ _ h, String.toList_ofList]

theorem toText_of_input (hprints : C.PrintsPubkeys) {pair : DocPair} (hpair : IsInput pair)
    {input : TransactionInput} (h : TransactionInput.fromPestPair C pair.inner = .ok input) :
    (input.toText C).toList = pair.text := by
  cases hpair with
  | du hamount hbase hblock htext =>
      simp only [Pair.inner_node, TransactionInput.fromPestPair_du, bind_eq_ok_iff,
        unwrap_eq_ok_iff, pure_eq_ok_iff] at h
      rcases h with ⟨amount, hamount', base, hbase', key, hkey, block, hblock', rfl⟩
      simp only [TransactionInput.toText, String.toList_append, Pair.text_node, htext,
        hamount.toString_of_parseSigned hamount', hbase.toString_of_parseUnsigned hbase',
        hprints.toList hkey, hblock.toString_of_parseUnsigned hblock']
  | tx hamount hbase hhash hindex htext =>
      rcases Hash.fromHex_of_upper hhash.1 hhash.2 with ⟨hash, hread, hprint⟩
      simp only [Pair.inner_node, TransactionInput.fromPestPair_tx, bind_eq_ok_iff,
        unwrap_eq_ok_iff, pure_eq_ok_iff, hread] at h
      rcases h with ⟨amount, hamount', base, hbase', hash', hhash', index, hindex', rfl⟩
      obtain rfl := Option.some.inj hhash'
      simp only [TransactionInput.toText, String.toList_append, Pair.text_node, htext,
        hamount.toString_of_parseSigned hamount', hbase.toString_of_parseUnsigned hbase',
        hprint, hindex.toString_of_parseUnsigned hindex']

theorem toText_of_unlockProof {cond : DocPair} (hcond : IsUnlockCond cond)
    {proof : TransactionUnlockProof} (h : readUnlockProof cond = .ok proof) :
    proof.toText.toList = cond.text := by
  cases hcond with
  | sig hindex =>
      simp only [readUnlockProof_unlockSig, bind_eq_ok_iff, unwrap_eq_ok_iff,
        pure_eq_ok_iff] at h
      rcases h with ⟨index, hindex', rfl⟩
      simp only [TransactionUnlockProof.toText, String.toList_append, Pair.text_node,
        hindex.toString_of_parseUnsigned hindex']
  | @xhx secret =>
      obtain rfl := Except.ok.inj h
      simp only [TransactionUnlockProof.toText, String.toList_append, Pair.text_node,
        DocPair.asStr, String.toList_ofList]

theorem toText_of_output {pair : DocPair} (hpair : IsOutput pair) {output : TransactionOutput}
    (h : TransactionOutput.fromPestPair C pair.inner = .ok output) :
    (output.toText C).toList = pair.text := by
  cases hpair with
  | mk hamount hbase hcond =>
      simp only [Pair.inner_node, TransactionOutput.fromPestPair_eq, bind_eq_ok_iff,
        unwrap_eq_ok_iff, pure_eq_ok_iff] at h
      rcases h with ⟨amount, hamount', base, hbase', conditions, -, rfl⟩
      simp only [TransactionOutput.toText, UTXOConditions.toText, DocPair.asStr,
        String.toList_append, String.toList_ofList, Pair.text_node,
        hamount.toString_of_parseSigned hamount', hbase.toString_of_parseUnsigned hbase']

/-! ## Lines -/

theorem toList_foldl_append {α : Type} (print : α → String) (values : List α) (start : String) :
    (values.foldl (fun text value => text ++ print value) start).toList =
      start.toList ++ values.flatMap fun value => (print value).toList := by
  induction values generalizing start with
  | nil => exact (List.append_nil _).symm
  | cons value values ih =>
      rw [List.foldl_cons, ih, String.toList_append, List.append_assoc, List.flatMap_cons]

/-- The blank after the last of some texts can go before the others instead. -/
theorem flatMap_append_blank {α : Type} (print : α → List Char) (values : List α)
    (first : List Char) :
    first ++ ' ' :: values.flatMap (fun value => print value ++ [' ']) =
      first ++ values.flatMap (fun value => ' ' :: print value) ++ [' '] := by
  induction values generalizing first with
  | nil => rw [List.flatMap_nil, List.flatMap_nil, List.append_nil]
  | cons value values ih =>
      have hrest := ih (first ++ ' ' :: print value)
      simp only [List.flatMap_cons, List.append_assoc, List.cons_append, List.nil_append]
        at hrest ⊢
      exact hrest

theorem toText_of_unlocks {pair : DocPair} (hpair : IsUnlock pair)
    {unlocks : TransactionInputUnlocks}
    (h : TransactionInputUnlocks.fromPestPair pair.inner = .ok unlocks) :
    unlocks.toText.toList = pair.text := by
  cases hpair with
  | @mk index cond conds hindex hcond hconds =>
      have hall : ∀ c ∈ cond :: conds, IsUnlockCond c := List.forall_mem_cons.2 ⟨hcond, hconds⟩
      simp only [Pair.inner_node, TransactionInputUnlocks.fromPestPair_eq hall, bind_eq_ok_iff,
        unwrap_eq_ok_iff, pure_eq_ok_iff] at h
      rcases h with ⟨index', hindex', proofs, hproofs, rfl⟩
      have hprint : proofs.map (fun proof => proof.toText.toList) = (cond :: conds).map Pair.text :=
        map_of_mapM (fun c hc _ => toText_of_unlockProof (hall c hc)) hproofs
      have htext : proofs.flatMap (fun proof => (proof.toText ++ " ").toList) =
          cond.text ++ ' ' :: conds.flatMap (fun c => c.text ++ [' ']) := by
        have hflat := congrArg (List.flatMap (· ++ [' '])) hprint
        rw [List.flatMap_map, List.flatMap_map, List.flatMap_cons, List.append_assoc] at hflat
        simpa using hflat
      rw [TransactionInputUnlocks.toText, String.toList_ofList, toList_foldl_append, htext,
        flatMap_append_blank, ← List.append_assoc, ← List.append_assoc, List.dropLast_concat]
      simp only [String.toList_append, hindex.toString_of_parseUnsigned hindex', Pair.text_node]
      rfl

theorem printLines_toList (texts : List String) :
    (printLines texts).toList = texts.flatMap fun text => text.toList ++ ['\n'] := by
  rw [printLines, toList_foldl_append]
  simp

/-- The lines printed for the values read from some rules are the texts of the rules. -/
theorem toList_printLines {α : Type} {print : α → String} {values : List α}
    {pairs : List DocPair}
    (h : values.map (fun value => (print value).toList) = pairs.map Pair.text) :
    (printLines (values.map print)).toList = pairs.flatMap fun pair => pair.text ++ ['\n'] := by
  have hflat := congrArg (List.flatMap (· ++ ['\n'])) h
  rw [List.flatMap_map, List.flatMap_map] at hflat
  rw [printLines_toList, List.flatMap_map]
  exact hflat

/-! ## Transactions -/

/-- The builder with the fields of a document. -/
def TransactionDocument.builder (doc : TransactionDocument) : TransactionDocumentBuilder where
  currency := doc.currency
  blockstamp := doc.blockstamp
  locktime := doc.locktime
  issuers := doc.issuers
  inputs := doc.inputs
  unlocks := doc.unlocks
  outputs := doc.outputs
  comment := doc.comment
  hash := doc.hash

variable (C) in
/-- What a transaction document is read from. -/
structure TransactionDocument.ReadFrom (doc : TransactionDocument) (text : List Char)
    (tx : TxParts) (sigs : List (List Char)) : Prop where
  text : doc.text = some (String.ofList text)
  currency : doc.currency = String.ofList tx.currency
  blockstamp : readBlockstamp tx.blockstamp = .ok doc.blockstamp
  locktime : parseUnsigned 64 tx.locktime = some doc.locktime
  issuers : tx.issuers.mapM (readPubkey C) = .ok doc.issuers
  inputs : (tx.inputs.mapM fun input => TransactionInput.fromPestPair C input.inner) =
    .ok doc.inputs
  unlocks : (tx.unlocks.mapM fun unlock => TransactionInputUnlocks.fromPestPair unlock.inner) =
    .ok doc.unlocks
  outputs : (tx.outputs.mapM fun output => TransactionOutput.fromPestPair C output.inner) =
    .ok doc.outputs
  comment : doc.comment = String.ofList tx.comment
  signatures : (sigs.map (Pair.leaf Rule.ed25519Sig)).mapM (readSig C) = .ok doc.signatures
  hash : doc.hash = none

theorem TransactionDocument.readFrom_of_fromPestPair {text : List Char} {tx : TxParts}
    {sigs : List (List Char)} (htx : tx.WellFormed) {doc : TransactionDocument}
    (h : TransactionDocumentParser.fromPestPair C (.node .txV10 text (tx.fields ++ sigPairs sigs)) =
      .ok doc) : doc.ReadFrom C text tx sigs := by
  simp only [TransactionDocumentParser.fromPestPair_eq C htx, bind_eq_ok_iff, unwrap_eq_ok_iff,
    pure_eq_ok_iff] at h
  rcases h with ⟨blockstamp, hblockstamp, locktime, hlocktime, issuers, hissuers, inputs, hinputs,
    unlocks, hunlocks, outputs, houtputs, signatures, hsignatures, rfl⟩
  exact ⟨rfl, rfl, hblockstamp, hlocktime, hissuers, hinputs, hunlocks, houtputs, rfl, hsignatures,
    rfl⟩

/-- A transaction that is accepted, with the rules that it is read from. -/
theorem of_parse_transaction {text : String} {doc : TransactionDocument}
    (h : TransactionDocumentParser.parse C text = .ok (.ok doc)) :
    ∃ tx sigs breaks, TxParts.WellFormed tx ∧ (∀ sig ∈ sigs, IsSig sig) ∧
      text.toList = tx.body ++ sigTail sigs breaks ∧ doc.ReadFrom C text.toList tx sigs := by
  have hversion : ∀ text inner, txV10.lang text inner → ∃ fields, inner = [.node .txV10 text fields] :=
    fun _ _ ⟨fields, _, hinner⟩ => ⟨fields, hinner⟩
  rcases parseVersion_cases (r := .tx) finishes_txV10 hversion
      (TransactionDocumentParser.fromPestPair C) (pure (.error .pestError)) text with
    ⟨-, hrefused⟩ | ⟨fields, hlang, -, hread⟩
  · cases hrefused.symm.trans h
  · rcases of_lang_txV10 hlang with ⟨tx, sigs, breaks, htx, hsigs, htext, hfields⟩
    have hdoc := hread.symm.trans h
    rw [bind_eq_ok_iff] at hdoc
    rcases hdoc with ⟨doc', hdoc', heq⟩
    obtain rfl := Except.ok.inj (Except.ok.inj heq)
    rw [List.singleton_inj] at hfields
    rw [hfields] at hdoc'
    exact ⟨tx, sigs, breaks, htx, hsigs, htext,
      TransactionDocument.readFrom_of_fromPestPair htx hdoc'⟩

/-- The text before the signatures is what the builder prints. -/
theorem TransactionDocument.ReadFrom.generateText (hprints : C.PrintsPubkeys) {text : List Char}
    {tx : TxParts} {sigs : List (List Char)} (htx : tx.WellFormed) {doc : TransactionDocument}
    (h : doc.ReadFrom C text tx sigs) : (doc.builder.generateText C).toList = tx.body := by
  have hissuers : doc.issuers.map (fun key => (C.base58 key).toList) = tx.issuers.map Pair.text := by
    refine map_of_mapM (fun issuer hissuer key hkey => ?_) h.issuers
    rcases htx.issuers issuer hissuer with ⟨text, rfl⟩
    exact hprints.toList (unwrap_eq_ok_iff.1 hkey)
  have hinputs := toList_printLines
    (map_of_mapM (fun input hinput _ => toText_of_input hprints (htx.inputs input hinput)) h.inputs)
  have hunlocks := toList_printLines
    (map_of_mapM (fun unlock hunlock _ => toText_of_unlocks (htx.unlocks unlock hunlock)) h.unlocks)
  have houtputs := toList_printLines
    (map_of_mapM (fun output houtput _ => toText_of_output (htx.outputs output houtput)) h.outputs)
  have hlocktime : Nat.toDigits 10 doc.locktime = tx.locktime :=
    Nat.toList_repr.symm.trans (htx.locktime.toString_of_parseUnsigned h.locktime)
  unfold TransactionDocumentBuilder.generateText TransactionDocument.builder TxParts.body
    TxParts.header TxParts.block head field
  simp [toText_of_readBlockstamp htx.blockstamp h.blockstamp, toList_printLines hissuers, hinputs,
    hunlocks, houtputs, hlocktime, h.currency, h.comment]

/-! ## Identities and memberships -/

/-- The builder with the fields of a document. -/
def IdentityDocument.builder (doc : IdentityDocument) : IdentityDocumentBuilder where
  currency := doc.currency
  username := doc.username
  blockstamp := doc.blockstamp
  issuer := doc.issuer

/-- The builder with the fields of a document. -/
def MembershipDocument.builder (doc : MembershipDocument) : MembershipDocumentBuilder where
  currency := doc.currency
  issuer := doc.issuer
  blockstamp := doc.blockstamp
  membership := doc.membership
  identityUsername := doc.identityUsername
  identityBlockstamp := doc.identityBlockstamp

/-- An identity that is accepted is what its builder prints, and the signature. -/
theorem of_parse_identity (hprints : C.PrintsPubkeys) {text : String} {doc : IdentityDocument}
    (h : IdentityDocumentParser.parse C text = .ok (.ok doc)) :
    ∃ currency key uid stamp sigs breaks, IsBlockstamp stamp ∧ (∀ sig ∈ sigs, IsSig sig) ∧
      text.toList = idtyBody currency key uid stamp.text ++ sigTail sigs breaks ∧
      (doc.builder.generateText C).toList = idtyBody currency key uid stamp.text := by
  have hversion : ∀ text inner, idtyV10.lang text inner →
      ∃ fields, inner = [.node .idtyV10 text fields] := fun _ _ ⟨fields, _, hinner⟩ => ⟨fields, hinner⟩
  rcases parseVersion_cases (r := .idty) finishes_idtyV10 hversion
      (IdentityDocumentParser.fromPestPair C) (pure (.error .pestError)) text with
    ⟨-, hrefused⟩ | ⟨fields, hlang, -, hread⟩
  · cases hrefused.symm.trans h
  · rcases of_lang_idtyV10 hlang with
      ⟨currency, key, uid, stamp, sig, breaks, hstamp, hsig, htext, hfields⟩
    have hdoc := hread.symm.trans h
    rw [List.singleton_inj] at hfields
    simp only [hfields, IdentityDocumentParser.fromPestPair_eq C hstamp, bind_eq_ok_iff,
      unwrap_eq_ok_iff, pure_eq_ok_iff] at hdoc
    rcases hdoc with ⟨_, ⟨blockstamp, hblockstamp, issuer, hissuer, signature, -, rfl⟩, heq⟩
    obtain rfl := Except.ok.inj heq
    refine ⟨currency, key, uid, stamp, sig.toList, breaks, hstamp, hsig, htext, ?_⟩
    unfold IdentityDocumentBuilder.generateText IdentityDocument.builder idtyBody head field
    simp [toText_of_readBlockstamp hstamp hblockstamp, hprints.toList hissuer]

theorem toText_membershipType {type : DocPair} (htype : IsMembershipType type) :
    (membershipType type).toText.toList = type.text := by
  cases htype with
  | «in» => rfl
  | out => rfl

/-- A membership that is accepted is what its builder prints, and the signature. -/
theorem of_parse_membership (hprints : C.PrintsPubkeys) {text : String}
    {doc : MembershipDocument} (h : MembershipDocumentParser.parse C text = .ok (.ok doc)) :
    ∃ currency key block type uid stamp sigs breaks, IsBlockstamp stamp ∧
      (∀ sig ∈ sigs, IsSig sig) ∧
      text.toList = membershipBody currency key block type uid stamp.text ++ sigTail sigs breaks ∧
      (doc.builder.generateText C).toList =
        membershipBody currency key block type uid stamp.text := by
  have hversion : ∀ text inner, membershipV10.lang text inner →
      ∃ fields, inner = [.node .membershipV10 text fields] :=
    fun _ _ ⟨fields, _, hinner⟩ => ⟨fields, hinner⟩
  rcases parseVersion_cases (r := .membership) finishes_membershipV10 hversion
      (MembershipDocumentParser.fromPestPair C) (pure (.error .pestError)) text with
    ⟨-, hrefused⟩ | ⟨fields, hlang, -, hread⟩
  · cases hrefused.symm.trans h
  · rcases of_lang_membershipV10 hlang with ⟨currency, key, block, type, uid, stamp, sig, breaks,
      hblock, htype, hstamp, hsig, htext, hfields⟩
    have hdoc := hread.symm.trans h
    rw [List.singleton_inj] at hfields
    simp only [hfields, MembershipDocumentParser.fromPestPair_eq C hblock htype hstamp,
      bind_eq_ok_iff, unwrap_eq_ok_iff, pure_eq_ok_iff] at hdoc
    rcases hdoc with ⟨_, ⟨blockstamp, hblockstamp, identityBlockstamp, hidentityBlockstamp,
      issuer, hissuer, signature, -, rfl⟩, heq⟩
    obtain rfl := Except.ok.inj heq
    refine ⟨currency, key, block.text, type.text, uid, stamp, sig.toList, breaks, hstamp, hsig,
      htext, ?_⟩
    unfold MembershipDocumentBuilder.generateText MembershipDocument.builder membershipBody head
      field
    simp [toText_of_readBlockstamp hblock hblockstamp, hprints.toList hissuer,
      toText_of_readBlockstamp hstamp hidentityBlockstamp, toText_membershipType htype]

/-! ## Printing back -/

/-- Whether what a parser accepts is what a builder prints from the fields read, up to the last line
with a label, then signatures, one a line, and line breaks. -/
structure PrintsBack {Doc Builder : Type}
    (parse : String → Run (Except TextDocumentParseError Doc)) (builder : Doc → Builder)
    (generateText : Builder → String) (label : String) : Prop where
  printed : ∀ text doc, parse text = .ok (.ok doc) →
    signedText label text.toList = (generateText (builder doc)).toList
  signed : ∀ text doc, parse text = .ok (.ok doc) →
    ∃ sigs breaks, (∀ sig ∈ sigs, IsSig sig) ∧
      text.toList = signedText label text.toList ++ sigTail sigs breaks
  unique : ∀ text text' doc doc', parse text = .ok (.ok doc) → parse text' = .ok (.ok doc') →
    builder doc = builder doc' → signedText label text.toList = signedText label text'.toList

theorem PrintsBack.of_forall {Doc Builder : Type}
    {parse : String → Run (Except TextDocumentParseError Doc)} {builder : Doc → Builder}
    {generateText : Builder → String} {label : String}
    (h : ∀ text doc, parse text = .ok (.ok doc) → ∃ body sigs breaks, (∀ sig ∈ sigs, IsSig sig) ∧
      text.toList = body ++ sigTail sigs breaks ∧ signedText label text.toList = body ∧
      (generateText (builder doc)).toList = body) :
    PrintsBack parse builder generateText label := by
  have hprinted : ∀ text doc, parse text = .ok (.ok doc) →
      signedText label text.toList = (generateText (builder doc)).toList := by
    intro text doc hdoc
    rcases h text doc hdoc with ⟨body, -, -, -, -, hsigned, hprint⟩
    rw [hsigned, hprint]
  refine ⟨hprinted, fun text doc hdoc => ?_, fun text text' doc doc' hdoc hdoc' heq => ?_⟩
  · rcases h text doc hdoc with ⟨body, sigs, breaks, hsigs, htext, hsigned, -⟩
    exact ⟨sigs, breaks, hsigs, hsigned.symm ▸ htext⟩
  · rw [hprinted text doc hdoc, hprinted text' doc' hdoc', heq]

/-- The texts of transactions, identities and memberships are canonical. -/
theorem printsBack_documents (hprints : C.PrintsPubkeys) :
    PrintsBack (TransactionDocumentParser.parse C) TransactionDocument.builder
        (TransactionDocumentBuilder.generateText C) "Comment: " ∧
      PrintsBack (IdentityDocumentParser.parse C) IdentityDocument.builder
        (IdentityDocumentBuilder.generateText C) "Timestamp: " ∧
      PrintsBack (MembershipDocumentParser.parse C) MembershipDocument.builder
        (MembershipDocumentBuilder.generateText C) "CertTS: " := by
  refine ⟨.of_forall fun text doc h => ?_, .of_forall fun text doc h => ?_,
    .of_forall fun text doc h => ?_⟩
  · rcases of_parse_transaction h with ⟨tx, sigs, breaks, htx, hsigs, htext, hread⟩
    refine ⟨tx.body, sigs, breaks, hsigs, htext, ?_, hread.generateText hprints htx⟩
    rw [htext, signedText_transaction htx hsigs]
  · rcases of_parse_identity hprints h with
      ⟨currency, key, uid, stamp, sigs, breaks, hstamp, hsigs, htext, hprinted⟩
    refine ⟨_, sigs, breaks, hsigs, htext, ?_, hprinted⟩
    rw [htext]
    exact signedText_blockstamp (by decide) (by decide) hstamp hsigs
      ((endsLine_field "UniqueID: " uid).append _) breaks
  · rcases of_parse_membership hprints h with
      ⟨currency, key, block, type, uid, stamp, sigs, breaks, hstamp, hsigs, htext, hprinted⟩
    refine ⟨_, sigs, breaks, hsigs, htext, ?_, hprinted⟩
    rw [htext]
    exact signedText_blockstamp (by decide) (by decide) hstamp hsigs
      ((endsLine_field "UserID: " uid).append _) breaks

/-- A key, as the example documents print it. -/
def exampleKeyText : String := "DNann1Lh55eZMEDXeYt59bzHbA3NJR46DeQYCS2qQdLV"

/-- The key pair of the example documents. -/
def exampleKeyPair : KeyPair where
  pubkey := ⟨0xb7d3a54e1c20172cd38e0d803776a3bacf11f895ef8ef846043a0d628431c872⟩
  privkey := ⟨0x9a79083cc34322eb8cf0965aa5226df9ba263edbc8c172e95aaca72e975e0d4f#256 ++
    0xb7d3a54e1c20172cd38e0d803776a3bacf11f895ef8ef846043a0d628431c872#256⟩

/-- The signature of the example transaction, as it is printed. -/
def exampleSigText : String :=
  "8UeOJE+7vss7hcBcE1kMHKBk90OfKANkAm7odm0QguO/0VrKoBbhsclOtOCW0NBEoTjCR23kHlT91andHc3MBA=="

/-- The signature of the example transaction. -/
def exampleSig : Sig where
  bytes := 0xf1478e244fbbbecb3b85c05c13590c1ca064f7439f280364026ee8766d1082e3#256 ++
    0xbfd15acaa016e1b1c94eb4e096d0d044a138c2476de41e54fdd5a9dd1dcdcc04#256

/-- The text of the example transaction before its signature. -/
def exampleBody : String := "Version: 10
Type: Transaction
Currency: g1
Blockstamp: 0-E3B0C44298FC1C149AFBF4C8996FB92427AE41E4649B934CA495991B7852B855
Locktime: 0
Issuers:
DNann1Lh55eZMEDXeYt59bzHbA3NJR46DeQYCS2qQdLV
Inputs:
10:0:D:DNann1Lh55eZMEDXeYt59bzHbA3NJR46DeQYCS2qQdLV:0
Unlocks:
0:SIG(0)
Outputs:
10:0:SIG(DNann1Lh55eZMEDXeYt59bzHbA3NJR46DeQYCS2qQdLV)
Comment: test
"

/-- The example transaction. -/
def exampleTransaction : String := exampleBody ++ exampleSigText ++ "\n"

/-- The cryptographic library on the example transaction: its key, its signature, and the hashes of
its text with and without the signature, each followed by the signature. -/
def exampleCrypto : DocCrypto where
  base58 _ := exampleKeyText
  fromBase58 text := if text = exampleKeyText then some exampleKeyPair.pubkey else none
  base64 _ := exampleSigText
  fromBase64 text := if text = exampleSigText then some exampleSig else none
  hashStr text := if text.length = 524 then
      0xf48c3f898b86d8a66b3459e97fb02b0b31e7f13fc8e4b32f7671011af5a17e88
    else 0x8402bcfa662e51680f41456c16288a30f34562edea75ec480c7d6e9291b880a9
  sign _ _ := exampleSig
  verify _ text _ := text = exampleBody
  txHash text sigs :=
    let text := text ++ printLines (sigs.map fun _ => exampleSigText)
    if text.length = 524 then
      0xf48c3f898b86d8a66b3459e97fb02b0b31e7f13fc8e4b32f7671011af5a17e88
    else 0x8402bcfa662e51680f41456c16288a30f34562edea75ec480c7d6e9291b880a9
  txHash_eq _ _ := rfl

theorem fromBase58_exampleKeyText :
    exampleCrypto.fromBase58 exampleKeyText = some exampleKeyPair.pubkey := by
  unfold exampleCrypto
  simp only [if_true]

theorem printsPubkeys_exampleCrypto : exampleCrypto.PrintsPubkeys := by
  intro text key h
  have htext : text = exampleKeyText := by
    by_contra hne
    cases (if_neg hne).symm.trans h
  exact htext.symm

/-- The rules that the example transaction matches. -/
def exampleParts : TxParts where
  currency := "g1".toList
  blockstamp := .node .blockstamp
    "0-E3B0C44298FC1C149AFBF4C8996FB92427AE41E4649B934CA495991B7852B855".toList
    [.leaf .blockId "0".toList,
      .leaf .hash "E3B0C44298FC1C149AFBF4C8996FB92427AE41E4649B934CA495991B7852B855".toList]
  locktime := "0".toList
  issuers := [.leaf .pubkey exampleKeyText.toList]
  inputs :=
    [.node .txInput "10:0:D:DNann1Lh55eZMEDXeYt59bzHbA3NJR46DeQYCS2qQdLV:0".toList
      [.node .txInputDu "10:0:D:DNann1Lh55eZMEDXeYt59bzHbA3NJR46DeQYCS2qQdLV:0".toList
        [.leaf .txAmount "10".toList, .leaf .txAmountBase "0".toList,
          .leaf .pubkey exampleKeyText.toList, .leaf .duBlockId "0".toList]]]
  unlocks :=
    [.node .txUnlock "0:SIG(0)".toList [.leaf .inputIndex "0".toList,
      .node .unlockSig "SIG(0)".toList [.leaf .issuerIndex "0".toList]]]
  outputs :=
    [.node .txOutput "10:0:SIG(DNann1Lh55eZMEDXeYt59bzHbA3NJR46DeQYCS2qQdLV)".toList
      [.leaf .txAmount "10".toList, .leaf .txAmountBase "0".toList,
        .node .outputCondSig "SIG(DNann1Lh55eZMEDXeYt59bzHbA3NJR46DeQYCS2qQdLV)".toList
          [.leaf .pubkey exampleKeyText.toList]]]
  comment := "test".toList

theorem wellFormed_exampleParts : exampleParts.WellFormed := by
  have hzero : IsUInt "0".toList := .inl rfl
  have hten : IsUInt "10".toList :=
    .inr ⟨'1', ['0'], rfl, by decide, List.forall_mem_singleton.2 rfl⟩
  constructor
  case blockstamp =>
    have hid : IsUInt ['0'] := .inl rfl
    unfold exampleParts
    repeat rw [String.toList_ofList]
    exact .mk hid ⟨rfl, List.all_eq_true.1 rfl⟩
  case locktime => exact hzero
  case issuers => exact List.forall_mem_singleton.2 ⟨_, rfl⟩
  case inputs =>
    refine List.forall_mem_singleton.2 (.du hten hzero hzero ?_)
    unfold exampleKeyText
    repeat rw [String.toList_ofList]
    decide +kernel
  case unlocks =>
    exact List.forall_mem_singleton.2 (.mk hzero (.sig hzero) (List.forall_mem_nil _))
  case outputs => exact List.forall_mem_singleton.2 (.mk hten hzero .sig)
  case comment =>
    unfold exampleParts
    rw [String.toList_ofList]
    decide +kernel

theorem body_exampleParts : exampleParts.body = exampleBody.toList := by
  unfold TxParts.body TxParts.header TxParts.block head field exampleParts exampleKeyText
    exampleBody
  repeat rw [String.toList_ofList]
  decide +kernel

theorem documentsParser_exampleTransaction :
    DocumentsParser.parse Grammar.tx exampleTransaction =
      some [.node .tx exampleTransaction.toList [.node .txV10 exampleTransaction.toList
        (exampleParts.fields ++ sigPairs [exampleSigText.toList])]] := by
  unfold DocumentsParser.parse TxParts.fields exampleTransaction exampleBody exampleParts
    exampleKeyText exampleSigText
  rw [String.toList_append, String.toList_append]
  repeat rw [String.toList_ofList]
  decide +kernel

/-- The example transaction is accepted. -/
theorem exists_parse_exampleTransaction :
    ∃ doc, TransactionDocumentParser.parse exampleCrypto exampleTransaction = .ok (.ok doc) ∧
      doc.ReadFrom exampleCrypto exampleTransaction.toList exampleParts
        [exampleSigText.toList] := by
  have hread : Returns (TransactionDocumentParser.fromPestPair exampleCrypto
      (.node .txV10 exampleTransaction.toList
        (exampleParts.fields ++ sigPairs [exampleSigText.toList]))) := by
    unfold TxParts.fields exampleParts exampleKeyText exampleSigText
    repeat rw [String.toList_ofList]
    decide +kernel
  rcases hread with ⟨doc, hdoc⟩
  refine ⟨doc, ?_, TransactionDocument.readFrom_of_fromPestPair wellFormed_exampleParts hdoc⟩
  rw [TransactionDocumentParser.parse, parseVersion_of_parse documentsParser_exampleTransaction,
    hdoc]
  rfl

theorem printsBack_exampleTransaction :
    ∃ doc, TransactionDocumentParser.parse exampleCrypto exampleTransaction = .ok (.ok doc) ∧
      signedText "Comment: " exampleTransaction.toList =
        (doc.builder.generateText exampleCrypto).toList := by
  rcases exists_parse_exampleTransaction with ⟨doc, hdoc, -⟩
  exact ⟨doc, hdoc, (printsBack_documents printsPubkeys_exampleCrypto).1.printed _ _ hdoc⟩

end Durs
