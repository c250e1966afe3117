/-
# Signed transactions

When the signatures of a transaction that is built verify, when the text of a transaction that is
parsed, without its signatures, is the text that they sign, and when the hash of a transaction that
is parsed is the one that it has when it is built again.
-/

import Durs.Documents.Canonical

namespace Durs

open RustStd Lib.Peg Grammar

variable {C : DocCrypto}

/-! ## Verification -/

theorem findMismatches_eq_nil_iff {asBytes : Run String} {i : Nat}
    {pairs : List (PubKey × Sig)} : findMismatches C asBytes i pairs = .ok [] ↔
      ∀ pair ∈ pairs, ∃ bytes, asBytes = .ok bytes ∧ C.verify pair.1 bytes pair.2 = true := by
  induction pairs generalizing i with
  | nil => exact ⟨fun _ => List.forall_mem_nil _, fun _ => rfl⟩
  | cons pair pairs ih =>
      simp only [findMismatches, bind_eq_ok_iff, pure_eq_ok_iff]
      rw [List.forall_mem_cons, ← ih (i := i + 1)]
      constructor
      · rintro ⟨bytes, hbytes, mismatches, hmismatches, hnil⟩
        split at hnil
        case isTrue hverify => exact ⟨⟨bytes, hbytes, hverify⟩, hnil ▸ hmismatches⟩
        case isFalse => cases hnil
      · rintro ⟨⟨bytes, hbytes, hverify⟩, hrest⟩
        exact ⟨bytes, hbytes, [], hrest, if_pos hverify⟩

/-- The signatures are valid when there is one for each issuer, which it verifies. -/
theorem verifySignatures_eq_valid_iff {text : String} {issuers : List PubKey}
    {signatures : List Sig} (hcount : issuers.length = signatures.length) :
    verifySignatures C (pure text) issuers signatures = .ok .valid ↔
      ∀ pair ∈ issuers.zip signatures, ∃ body,
        asTextWithoutSignature text.toList signatures = .ok body ∧
          C.verify pair.1 (String.ofList body) pair.2 = true := by
  have hbytes : ∀ pair : PubKey × Sig, (∃ bytes, (do
      let text ← (pure text : Run String)
      let body ← asTextWithoutSignature text.toList signatures
      return String.ofList body) = Except.ok bytes ∧ C.verify pair.1 bytes pair.2 = true) ↔
      ∃ body, asTextWithoutSignature text.toList signatures = .ok body ∧
        C.verify pair.1 (String.ofList body) pair.2 = true := by
    intro pair
    simp only [bind_eq_ok_iff, pure_eq_ok_iff]
    constructor
    · rintro ⟨_, ⟨_, rfl, body, hbody, rfl⟩, hverify⟩
      exact ⟨body, hbody, hverify⟩
    · rintro ⟨body, hbody, hverify⟩
      exact ⟨_, ⟨text, rfl, body, hbody, rfl⟩, hverify⟩
  rw [verifySignatures, if_neg (not_not.2 hcount), bind_eq_ok_iff]
  simp only [pure_eq_ok_iff]
  constructor
  · rintro ⟨mismatches, hmismatches, hvalid⟩
    split at hvalid
    case isTrue hnil =>
      rw [List.isEmpty_iff.1 hnil, findMismatches_eq_nil_iff] at hmismatches
      exact fun pair hpair => (hbytes pair).1 (hmismatches pair hpair)
    case isFalse => cases hvalid
  · intro hverify
    exact ⟨[], findMismatches_eq_nil_iff.2 fun pair hpair => (hbytes pair).2 (hverify pair hpair),
      rfl⟩

/-! ## Transactions that are built -/

theorem length_splitLines (text : List Char) :
    (splitLines text).length = text.count '\n' + 1 := by
  induction text with
  | nil => rfl
  | cons c text ih =>
      by_cases hc : c = '\n'
      · subst hc
        have happend := splitLines_append [] text
        rw [List.nil_append] at happend
        rw [happend, List.length_append, ih, List.count_cons_self]
        exact Nat.add_comm 1 _
      · rw [splitLines, List.splitOn_cons_eq_if_modifyHead, if_neg (by simpa using hc),
          List.length_modifyHead, List.count_cons_of_ne hc]
        exact ih

theorem length_le_count_printLines (texts : List String) :
    texts.length ≤ (printLines texts).toList.count '\n' := by
  rw [printLines_toList]
  induction texts with
  | nil => exact Nat.le_refl 0
  | cons text texts ih =>
      rw [List.flatMap_cons, List.count_append, List.count_append, List.count_singleton_self,
        List.length_cons]
      omega

theorem endsLine_generateText (b : TransactionDocumentBuilder) :
    EndsLine (b.generateText C).toList := by
  unfold TransactionDocumentBuilder.generateText
  rw [String.toList_append]
  exact ⟨_, rfl⟩

/-- The text of a transaction has a line for each issuer. -/
theorem length_issuers_lt (b : TransactionDocumentBuilder) :
    b.issuers.length < (splitLines (b.generateText C).toList).length := by
  have hissuers := length_le_count_printLines (b.issuers.map C.base58)
  rw [List.length_map] at hissuers
  rw [length_splitLines]
  unfold TransactionDocumentBuilder.generateText
  simp only [String.toList_append, List.count_append]
  omega

theorem length_le_flatMap_lines (lines : List (List Char)) :
    lines.length ≤ (lines.flatMap (· ++ ['\n'])).length := by
  induction lines with
  | nil => exact Nat.le_refl 0
  | cons line lines ih =>
      rw [List.flatMap_cons, List.length_append, List.length_append, List.length_singleton,
        List.length_cons]
      omega

/-- A text that ends with a line break is left whole when there is one signature, and loses its last
line when there are more. -/
theorem asTextWithoutSignature_unsigned {text : List Char} (htext : EndsLine text)
    {signatures : List Sig} (hnil : signatures ≠ [])
    (hlines : signatures.length < (splitLines text).length) :
    ∃ body, asTextWithoutSignature text signatures = .ok body ∧
      (body = text ↔ signatures.length = 1) := by
  have hpos : 0 < signatures.length := List.length_pos_of_ne_nil hnil
  let count := (splitLines text).length - signatures.length
  have hsplit : splitLines text = (splitLines text).take count ++ (splitLines text).drop count :=
    (List.take_append_drop _ _).symm
  have hcount : ((splitLines text).drop count).length = signatures.length := by
    rw [List.length_drop]
    omega
  have hlast : (splitLines text).drop count ≠ [] := by
    intro h
    rw [h] at hcount
    exact Nat.ne_of_lt hpos hcount
  refine ⟨_, asTextWithoutSignature_eq hsplit hcount hlast, ?_⟩
  have hwhole : ((splitLines text).take count).flatMap (· ++ ['\n']) ++
      ((splitLines text).drop count).flatMap (· ++ ['\n']) = text ++ ['\n'] := by
    rw [← List.flatMap_append, List.take_append_drop, flatMap_splitLines]
  constructor
  · intro hbody
    rw [hbody] at hwhole
    have hlength := congrArg List.length (List.append_cancel_left hwhole)
    have hle := length_le_flatMap_lines ((splitLines text).drop count)
    rw [hcount, hlength, List.length_singleton] at hle
    omega
  · intro hone
    rcases htext with ⟨front, rfl⟩
    have hlines : splitLines (front ++ ['\n']) = splitLines front ++ [[]] := splitLines_append _ _
    have hempty : (splitLines (front ++ ['\n'])).drop count = [[]] := by
      have hfront : count = (splitLines front).length := by
        show (splitLines (front ++ ['\n'])).length - signatures.length = _
        rw [hlines, hone, List.length_append]
        rfl
      rw [hfront, hlines, List.drop_left]
    rw [hempty] at hwhole
    exact List.append_cancel_right hwhole

variable (C) in
/-- Whether each key verifies what its private key signs of a text, on that text only. -/
def SignsOnly (keyPairs : List KeyPair) (text : String) : Prop :=
  ∀ pair ∈ keyPairs, ∀ message,
    C.verify pair.pubkey message (C.sign pair.privkey text) = true ↔ message = text

/-- The signatures of a text that ends with a line break verify when there is only one of them. -/
theorem verifySignatures_signed_iff {text : String} (htext : EndsLine text.toList)
    {keyPairs : List KeyPair} (hnil : keyPairs ≠ [])
    (hlines : keyPairs.length < (splitLines text.toList).length)
    (hsigns : SignsOnly C keyPairs text) :
    verifySignatures C (pure text) (keyPairs.map KeyPair.pubkey)
        (keyPairs.map fun pair => C.sign pair.privkey text) = .ok .valid ↔
      keyPairs.length = 1 := by
  let signatures := keyPairs.map fun pair => C.sign pair.privkey text
  have hcount : signatures.length = keyPairs.length := List.length_map _
  have hsigs : signatures ≠ [] := fun h => hnil (List.map_eq_nil_iff.1 h)
  rcases asTextWithoutSignature_unsigned htext hsigs (hcount ▸ hlines) with ⟨body, hbody, hwhole⟩
  rw [hcount] at hwhole
  rw [← hwhole, verifySignatures_eq_valid_iff ((List.length_map _).trans hcount.symm),
    List.zip_map']
  constructor
  · intro hverify
    rcases List.exists_mem_of_ne_nil _ hnil with ⟨pair, hpair⟩
    rcases hverify _ (List.mem_map_of_mem hpair) with ⟨body', hbody', hmessage⟩
    rw [hbody] at hbody'
    cases hbody'
    rw [← (hsigns pair hpair _).1 hmessage, String.toList_ofList]
  · intro hbodyText pair hpair
    rcases List.mem_map.1 hpair with ⟨keyPair, hmem, rfl⟩
    refine ⟨body, hbody, (hsigns keyPair hmem _).2 ?_⟩
    rw [hbodyText, String.ofList_toList]

/-- The signatures of a transaction that is built verify when there is only one of them. -/
theorem verifySignatures_buildAndSign_iff {b : TransactionDocumentBuilder}
    {keyPairs : List KeyPair} (hnil : keyPairs ≠ [])
    (hissuers : b.issuers = keyPairs.map KeyPair.pubkey)
    (hsigns : SignsOnly C keyPairs (b.generateText C)) :
    (b.buildAndSign C (keyPairs.map KeyPair.privkey)).verifySignatures C = .ok .valid ↔
      keyPairs.length = 1 := by
  have hlines := length_issuers_lt (C := C) b
  rw [hissuers, List.length_map] at hlines
  have hsigs : (keyPairs.map fun pair => C.sign pair.privkey (b.generateText C)) =
      (keyPairs.map KeyPair.privkey).map fun key => C.sign key (b.generateText C) := by
    rw [List.map_map]
    rfl
  rw [← verifySignatures_signed_iff (endsLine_generateText b) hnil hlines hsigns, ← hissuers,
    hsigs]
  exact Iff.rfl

/-! ## Transactions that are parsed -/

/-- The lines of a signed text. -/
theorem splitLines_signed (body : List Char) {sigs : List (List Char)}
    (hsigs : ∀ sig ∈ sigs, IsSig sig) (hnil : sigs ≠ []) (breaks : Nat) :
    splitLines (body ++ ['\n'] ++ sigTail sigs breaks) =
      splitLines body ++ (sigs ++ List.replicate breaks []) := by
  rw [List.append_assoc, List.singleton_append, splitLines_append,
    splitLines_sigTail fun sig hsig => not_mem_of_isSig (hsigs sig hsig) (by decide), if_neg hnil]

/-- A signed text ends with a line break when one follows the signatures. -/
theorem endsLine_signed_iff {body : List Char} (hbody : EndsLine body) {sigs : List (List Char)}
    (hsigs : ∀ sig ∈ sigs, IsSig sig) (hnil : sigs ≠ []) (breaks : Nat) :
    EndsLine (body ++ sigTail sigs breaks) ↔ breaks ≠ 0 := by
  rcases hbody with ⟨body, rfl⟩
  constructor
  · rintro ⟨front, htext⟩ rfl
    have hlines := splitLines_signed body hsigs hnil 0
    rw [htext, splitLines_append, List.replicate_zero, List.append_nil] at hlines
    have hlast := congrArg List.getLast? hlines
    rw [List.getLast?_append_of_ne_nil _ hnil, List.getLast?_eq_some_getLast hnil] at hlast
    have hempty : [] = sigs.getLast hnil := by simpa [splitLines] using hlast
    have hsig := hsigs _ (List.getLast_mem hnil)
    rw [← hempty] at hsig
    exact absurd hsig.1 (by decide)
  · intro hbreaks
    rcases Nat.exists_eq_succ_of_ne_zero hbreaks with ⟨breaks, rfl⟩
    rw [sigTail, List.replicate_succ', ← List.append_assoc, ← List.append_assoc]
    exact ⟨_, rfl⟩

/-- A signed text without its signatures is what comes before them when no line break follows
them. -/
theorem asTextWithoutSignature_signed_iff {body : List Char} (hbody : EndsLine body)
    {sigs : List (List Char)} (hsigs : ∀ sig ∈ sigs, IsSig sig) (hnil : sigs ≠ []) (breaks : Nat)
    {signatures : List Sig} (hcount : sigs.length = signatures.length) :
    asTextWithoutSignature (body ++ sigTail sigs breaks) signatures = .ok body ↔ breaks = 0 := by
  rcases hbody with ⟨body, rfl⟩
  let tail := sigs ++ List.replicate breaks []
  have htail : tail.length = signatures.length + breaks := by
    rw [List.length_append, List.length_replicate, hcount]
  have hlines : splitLines (body ++ ['\n'] ++ sigTail sigs breaks) =
      (splitLines body ++ tail.take breaks) ++ tail.drop breaks := by
    rw [splitLines_signed body hsigs hnil, List.append_assoc, List.take_append_drop]
  have hlast : (tail.drop breaks).length = signatures.length := by
    rw [List.length_drop, htail, Nat.add_sub_cancel]
  have hpos : 0 < signatures.length := hcount ▸ List.length_pos_of_ne_nil hnil
  rw [asTextWithoutSignature_eq hlines hlast (List.ne_nil_of_length_pos (hlast.symm ▸ hpos)),
    Except.ok.injEq, List.flatMap_append, flatMap_splitLines, List.append_right_eq_self]
  constructor
  · intro hempty
    have hle := length_le_flatMap_lines (tail.take breaks)
    rw [hempty, List.length_take, htail] at hle
    rw [Nat.min_eq_left (Nat.le_add_left _ _)] at hle
    exact Nat.le_zero.1 hle
  · rintro rfl
    rfl

/-- The text of a transaction that is parsed, without its signatures, is what they sign when no line
break follows them. -/
theorem asTextWithoutSignature_iff_of_parse {text : String} {doc : TransactionDocument}
    (h : TransactionDocumentParser.parse C text = .ok (.ok doc)) (hnil : doc.signatures ≠ []) :
    doc.asTextWithoutSignature = .ok (signedText "Comment: " text.toList) ↔
      ¬ EndsLine text.toList := by
  rcases of_parse_transaction h with ⟨tx, sigs, breaks, htx, hsigs, htext, hread⟩
  have hcount : sigs.length = doc.signatures.length :=
    (List.length_map _).symm.trans (length_of_mapM hread.signatures).symm
  have hsigsNil : sigs ≠ [] := by
    rintro rfl
    exact hnil (List.length_eq_zero_iff.1 hcount.symm)
  have hbody : EndsLine tx.body := (endsLine_field "Comment: " tx.comment).append _
  have hasText : doc.asTextWithoutSignature = asTextWithoutSignature text.toList doc.signatures := by
    rw [TransactionDocument.asTextWithoutSignature, TransactionDocument.asText, hread.text,
      String.ofList_toList]
    rfl
  rw [hasText, htext, signedText_transaction htx hsigs, endsLine_signed_iff hbody hsigs hsigsNil,
    not_not, asTextWithoutSignature_signed_iff hbody hsigs hsigsNil breaks hcount]

/-- The signatures of a transaction that is built verify when there is only one of them, and the text
of one that is parsed, without its signatures, is what they sign when it does not end with a line
break. -/
theorem signedTransactions_iff (C : DocCrypto) :
    (∀ (b : TransactionDocumentBuilder) (keyPairs : List KeyPair), keyPairs ≠ [] →
      b.issuers = keyPairs.map KeyPair.pubkey → SignsOnly C keyPairs (b.generateText C) →
      ((b.buildAndSign C (keyPairs.map KeyPair.privkey)).verifySignatures C = .ok .valid ↔
        keyPairs.length = 1)) ∧
    ∀ (text : String) (doc : TransactionDocument),
      TransactionDocumentParser.parse C text = .ok (.ok doc) → doc.signatures ≠ [] →
      (doc.asTextWithoutSignature = .ok (signedText "Comment: " text.toList) ↔
        ¬ EndsLine text.toList) :=
  ⟨fun _ _ => verifySignatures_buildAndSign_iff, fun _ _ => asTextWithoutSignature_iff_of_parse⟩

theorem TransactionDocument.ReadFrom.signatures_ne_nil {doc : TransactionDocument}
    {text : List Char} {tx : TxParts} {sigs : List (List Char)} (h : doc.ReadFrom C text tx sigs)
    (hsigs : sigs ≠ []) : doc.signatures ≠ [] := by
  have hlength := length_of_mapM h.signatures
  rw [List.length_map] at hlength
  exact List.ne_nil_of_length_pos (hlength ▸ List.length_pos_of_ne_nil hsigs)

theorem verify_exampleCrypto {key : PubKey} {text : String} {sig : Sig} :
    exampleCrypto.verify key text sig = true ↔ text = exampleBody := by
  unfold exampleCrypto
  simp only [decide_eq_true_eq]

theorem endsLine_exampleTransaction : EndsLine exampleTransaction.toList := by
  unfold exampleTransaction
  rw [String.toList_append]
  exact ⟨_, rfl⟩

/-- The example transaction, built again and signed by its issuer, verifies, and its text without
its signature is not what it signs. -/
theorem signedTransactions_exampleTransaction :
    ∃ doc, TransactionDocumentParser.parse exampleCrypto exampleTransaction = .ok (.ok doc) ∧
      (doc.builder.buildAndSign exampleCrypto [exampleKeyPair.privkey]).verifySignatures
        exampleCrypto = .ok .valid ∧
      doc.asTextWithoutSignature ≠ .ok (signedText "Comment: " exampleTransaction.toList) := by
  rcases exists_parse_exampleTransaction with ⟨doc, hdoc, hread⟩
  rcases signedTransactions_iff exampleCrypto with ⟨hbuilt, hparsed⟩
  have hnil := hread.signatures_ne_nil (List.cons_ne_nil _ _)
  refine ⟨doc, hdoc, (hbuilt doc.builder [exampleKeyPair] (List.cons_ne_nil _ _) ?_ ?_).2 rfl,
    fun h => (hparsed _ doc hdoc hnil).1 h endsLine_exampleTransaction⟩
  · have hkey : readPubkey exampleCrypto (.leaf .pubkey exampleKeyText.toList) =
        .ok exampleKeyPair.pubkey := by
      unfold readPubkey DocPair.asStr
      rw [Pair.text_node, String.ofList_toList]
      exact unwrap_eq_ok_iff.2 fromBase58_exampleKeyText
    have hissuers := hread.issuers
    unfold exampleParts at hissuers
    simp only [List.mapM_cons, hkey, ok_bind, List.mapM_nil] at hissuers
    exact (Except.ok.inj hissuers).symm
  · have htext := hread.generateText printsPubkeys_exampleCrypto wellFormed_exampleParts
    rw [body_exampleParts] at htext
    rw [String.toList_injective htext]
    exact fun _ _ _ => verify_exampleCrypto

/-- The text of the example transaction without its signature keeps the signature. -/
theorem asTextWithoutSignature_exampleTransaction :
    ∃ doc, TransactionDocumentParser.parse exampleCrypto exampleTransaction = .ok (.ok doc) ∧
      doc.signatures ≠ [] ∧
      doc.asTextWithoutSignature ≠ .ok (signedText "Comment: " exampleTransaction.toList) := by
  rcases exists_parse_exampleTransaction with ⟨doc, hdoc, hread⟩
  have hnil := hread.signatures_ne_nil (List.cons_ne_nil _ _)
  exact ⟨doc, hdoc, hnil, fun h =>
    (asTextWithoutSignature_iff_of_parse hdoc hnil).1 h endsLine_exampleTransaction⟩

/-! ## Hashes of transactions -/

variable (C) in
/-- What the hash of a signed text covers: the text, then its signatures, one a line. -/
def hashingText (text : String) (signatures : List Sig) : String :=
  text ++ printLines (signatures.map C.base64)

variable (C) in
/-- Whether two texts with signatures that have one hash are equal. -/
def NoCollision (text text' : String) (signatures : List Sig) : Prop :=
  C.hashStr (hashingText C text signatures) = C.hashStr (hashingText C text' signatures) →
    hashingText C text signatures = hashingText C text' signatures

variable (C) in
/-- Whether a transaction has a hash, which the transaction built again from its fields with the
same signatures has too, and which is that of a text and of the signatures. -/
def PathIndependent (doc : TransactionDocument) (text : String) : Prop :=
  (∃ doc', doc.getHash C.toTxCrypto = .ok (doc', C.hashStr (hashingText C text doc.signatures))) ∧
    ∃ doc', (doc.builder.buildWithSignature C doc.signatures).getHash C.toTxCrypto =
      .ok (doc', C.hashStr (hashingText C text doc.signatures))

/-- A transaction without hash gets that of its text and of its signatures. -/
theorem getHash_of_text {doc : TransactionDocument} (hhash : doc.hash = none) {text : String}
    (htext : doc.text = some text) : doc.getHash C.toTxCrypto =
      .ok ({ doc with hash := some (C.hashStr (hashingText C text doc.signatures)) },
        C.hashStr (hashingText C text doc.signatures)) := by
  rw [TransactionDocument.getHash, hhash, hashingText, ← C.txHash_eq]
  show TransactionDocument.computeHash C.toTxCrypto doc = _
  rw [TransactionDocument.computeHash, htext]
  rfl

/-- A transaction that is parsed has the hash of its signed part when it has nothing else, as long as
the hashes of what the two cover do not collide. -/
theorem pathIndependent_iff_of_parse (hprints : C.PrintsPubkeys) {text : String}
    {doc : TransactionDocument} (h : TransactionDocumentParser.parse C text = .ok (.ok doc))
    (hcollision : NoCollision C text (String.ofList (signedText "Comment: " text.toList))
      doc.signatures) :
    PathIndependent C doc (String.ofList (signedText "Comment: " text.toList)) ↔
      signedText "Comment: " text.toList = text.toList := by
  rcases of_parse_transaction h with ⟨tx, sigs, breaks, htx, hsigs, htext, hread⟩
  have hprinted := (printsBack_documents hprints).1.printed text doc h
  generalize hbody : String.ofList (signedText "Comment: " text.toList) = body at *
  have hsigned : signedText "Comment: " text.toList = body.toList := by
    rw [← hbody, String.toList_ofList]
  have hgenerated : doc.builder.generateText C = body :=
    String.toList_injective (hprinted.symm.trans hsigned)
  have hparsed := getHash_of_text (C := C) hread.hash hread.text
  have hbuiltHash : (doc.builder.buildWithSignature C doc.signatures).hash = none := hread.hash
  have hbuiltText : (doc.builder.buildWithSignature C doc.signatures).text = some body :=
    congrArg some hgenerated
  have hbuilt := getHash_of_text (C := C) hbuiltHash hbuiltText
  rw [String.ofList_toList] at hparsed
  rw [hsigned]
  constructor
  · rintro ⟨⟨doc', hdoc'⟩, -⟩
    have hhash := congrArg Prod.snd (Except.ok.inj (hparsed.symm.trans hdoc'))
    have hcovered := hcollision hhash
    rw [hashingText, hashingText] at hcovered
    exact congrArg String.toList (String.append_left_inj _ |>.1 hcovered).symm
  · intro hwhole
    obtain rfl := String.toList_injective hwhole
    exact ⟨⟨_, hparsed⟩, ⟨_, hbuilt⟩⟩

/-- What the hash of the example transaction covers, with the signature and without it. -/
theorem length_hashingText_example {signatures : List Sig} (hcount : signatures.length = 1) :
    (hashingText exampleCrypto exampleTransaction signatures).length = 524 ∧
      (hashingText exampleCrypto exampleBody signatures).length = 435 := by
  rcases List.length_eq_one_iff.1 hcount with ⟨sig, rfl⟩
  have hsig : exampleSigText.length = 88 := by
    unfold exampleSigText
    rw [← String.length_toList, String.toList_ofList]
    rfl
  have hbody : exampleBody.length = 346 := by
    unfold exampleBody
    rw [← String.length_toList, String.toList_ofList]
    decide +kernel
  have hline : (printLines ([sig].map exampleCrypto.base64)).length = 89 := by
    show ("" ++ (exampleSigText ++ "\n")).length = 89
    rw [String.length_append, String.length_append, hsig]
    rfl
  unfold hashingText exampleTransaction
  constructor
  · rw [String.length_append, String.length_append, String.length_append, hsig, hbody, hline]
    rfl
  · rw [String.length_append, hbody, hline]

theorem hashStr_exampleCrypto {text : String} :
    exampleCrypto.hashStr text = if text.length = 524 then
      0xf48c3f898b86d8a66b3459e97fb02b0b31e7f13fc8e4b32f7671011af5a17e88
    else 0x8402bcfa662e51680f41456c16288a30f34562edea75ec480c7d6e9291b880a9 := rfl

theorem signedText_exampleTransaction :
    String.ofList (signedText "Comment: " exampleTransaction.toList) = exampleBody := by
  rcases exists_parse_exampleTransaction with ⟨doc, hdoc, hread⟩
  rw [(printsBack_documents printsPubkeys_exampleCrypto).1.printed _ doc hdoc,
    hread.generateText printsPubkeys_exampleCrypto wellFormed_exampleParts, body_exampleParts,
    String.ofList_toList]

/-- The hash of the example transaction is not that of its signed part. -/
theorem pathIndependent_exampleTransaction :
    ∃ doc, TransactionDocumentParser.parse exampleCrypto exampleTransaction = .ok (.ok doc) ∧
      ¬ PathIndependent exampleCrypto doc
        (String.ofList (signedText "Comment: " exampleTransaction.toList)) := by
  rcases exists_parse_exampleTransaction with ⟨doc, hdoc, hread⟩
  have hcount : doc.signatures.length = 1 := length_of_mapM hread.signatures
  rcases length_hashingText_example hcount with ⟨hparsed, hbuilt⟩
  refine ⟨doc, hdoc, fun hindependent => ?_⟩
  have hcollision : NoCollision exampleCrypto exampleTransaction
      (String.ofList (signedText "Comment: " exampleTransaction.toList)) doc.signatures := by
    rw [signedText_exampleTransaction]
    intro hhash
    rw [hashStr_exampleCrypto, hashStr_exampleCrypto, hparsed, hbuilt] at hhash
    exact absurd hhash (by decide)
  have hsigned := (pathIndependent_iff_of_parse printsPubkeys_exampleCrypto hdoc hcollision).1
    hindependent
  have hbody : exampleBody = exampleTransaction := by
    rw [← signedText_exampleTransaction, hsigned, String.ofList_toList]
  rw [← hbody, hbuilt] at hparsed
  exact absurd hparsed (by decide)

/-- The example transaction has one hash when it is parsed, and another one when it is built again
from its fields. -/
theorem getHash_exampleTransaction :
    ∃ doc, TransactionDocumentParser.parse exampleCrypto exampleTransaction = .ok (.ok doc) ∧
      (∃ doc', doc.getHash exampleCrypto.toTxCrypto = .ok (doc',
        0xf48c3f898b86d8a66b3459e97fb02b0b31e7f13fc8e4b32f7671011af5a17e88)) ∧
      ∃ doc', (doc.builder.buildWithSignature exampleCrypto doc.signatures).getHash
        exampleCrypto.toTxCrypto = .ok (doc',
          0x8402bcfa662e51680f41456c16288a30f34562edea75ec480c7d6e9291b880a9) := by
  rcases exists_parse_exampleTransaction with ⟨doc, hdoc, hread⟩
  have hcount : doc.signatures.length = 1 := length_of_mapM hread.signatures
  rcases length_hashingText_example hcount with ⟨hparsed, hbuilt⟩
  have htext : doc.text = some exampleTransaction :=
    hread.text.trans (congrArg some String.ofList_toList)
  have hgenerated : doc.builder.generateText exampleCrypto = exampleBody := by
    refine String.toList_injective ?_
    rw [hread.generateText printsPubkeys_exampleCrypto wellFormed_exampleParts, body_exampleParts]
  have hbuiltHash : (doc.builder.buildWithSignature exampleCrypto doc.signatures).hash = none :=
    hread.hash
  have hbuiltText : (doc.builder.buildWithSignature exampleCrypto doc.signatures).text =
      some exampleBody := congrArg some hgenerated
  have hrebuilt : exampleCrypto.hashStr (hashingText exampleCrypto exampleBody
      (doc.builder.buildWithSignature exampleCrypto doc.signatures).signatures) =
      0x8402bcfa662e51680f41456c16288a30f34562edea75ec480c7d6e9291b880a9 :=
    hashStr_exampleCrypto.trans (if_neg fun h => absurd (hbuilt.symm.trans h) (by decide))
  have hparsedHash := getHash_of_text (C := exampleCrypto) hread.hash htext
  have hrebuiltHash := getHash_of_text (C := exampleCrypto) hbuiltHash hbuiltText
  rw [hashStr_exampleCrypto, hparsed] at hparsedHash
  rw [hrebuilt] at hrebuiltHash
  exact ⟨doc, hdoc, ⟨_, hparsedHash⟩, ⟨_, hrebuiltHash⟩⟩

end Durs
