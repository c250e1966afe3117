/-
# What the parsers read

What each parser builds from the rules of a document that the grammar matches, as the sequence of
the conversions that it unwraps.
-/

import Durs.Documents.GrammarShape
import Durs.Documents.Parsers

namespace Durs

open RustStd Lib.Peg Grammar

variable (C : DocCrypto)

/-! ## Fields -/

theorem readBlockstamp_node (text id hash : List Char) :
    readBlockstamp (.node .blockstamp text [.leaf .blockId id, .leaf .hash hash]) = do
      let id ← unwrap (parseUnsigned 32 id)
      let hash ← unwrap (Hash.fromHex hash)
      return { id, hash } := rfl

theorem TransactionInput.fromPestPair_du (text amount base key block : List Char) :
    fromPestPair C [.node .txInputDu text
      [.leaf .txAmount amount, .leaf .txAmountBase base, .leaf .pubkey key,
        .leaf .duBlockId block]] = do
      let amount ← unwrap (parseSigned 64 amount)
      let base ← unwrap (parseUnsigned 64 base)
      let pubkey ← unwrap (C.fromBase58 (String.ofList key))
      let blockNumber ← unwrap (parseUnsigned 32 block)
      return .D amount base pubkey blockNumber := rfl

theorem TransactionInput.fromPestPair_tx (text amount base hash index : List Char) :
    fromPestPair C [.node .txInputTx text
      [.leaf .txAmount amount, .leaf .txAmountBase base, .leaf .hash hash,
        .leaf .txIndex index]] = do
      let amount ← unwrap (parseSigned 64 amount)
      let base ← unwrap (parseUnsigned 64 base)
      let txHash ← unwrap (Hash.fromHex hash)
      let txIndex ← unwrap (parseUnsigned 64 index)
      return .T amount base txHash txIndex := rfl

theorem TransactionOutput.fromPestPair_eq (amount base : List Char) (cond : DocPair) :
    fromPestPair C [.leaf .txAmount amount, .leaf .txAmountBase base, cond] = do
      let amount ← unwrap (parseSigned 64 amount)
      let base ← unwrap (parseUnsigned 64 base)
      let conditions ← UTXOConditionsGroup.wrapUtxoConds C cond
      return {
        amount
        base
        conditions := { originStr := some (DocPair.asStr cond), conditions } } := rfl

/-! ## Documents with one signature -/

theorem IdentityDocumentParser.fromPestPair_eq {text currency key uid : List Char}
    {stamp : DocPair} {sig : Option (List Char)} (hstamp : IsBlockstamp stamp) :
    fromPestPair C (.node .idtyV10 text
      (idtyFields currency key uid stamp ++ sigPairs sig.toList)) = do
      let blockstamp ← readBlockstamp stamp
      let issuer ← unwrap (C.fromBase58 (String.ofList key))
      let signature ← unwrap (C.fromBase64 (String.ofList (sig.getD [])))
      return {
        text := some (String.ofList text)
        currency := String.ofList currency
        username := String.ofList uid
        blockstamp
        issuer
        signature } := by
  have hstep : ∀ f, step f stamp = do
      let blockstamp ← readBlockstamp stamp
      return { f with blockstamp } := by
    cases hstamp with
    | mk => exact fun f => rfl
  rw [fromPestPair, idtyFields]
  simp only [Pair.inner_node, List.cons_append, List.nil_append, List.foldlM_cons, hstep]
  cases readBlockstamp stamp with
  | error e => rfl
  | ok blockstamp =>
      cases sig with
      | none => rfl
      | some sig => rfl

/-- The type that the rule of a membership stands for. -/
def membershipType (type : DocPair) : MembershipType :=
  match type.rule with
  | .membershipOut => .out
  | _ => .in

theorem MembershipDocumentParser.fromPestPair_eq {text currency key uid : List Char}
    {block type stamp : DocPair} {sig : Option (List Char)} (hblock : IsBlockstamp block)
    (htype : IsMembershipType type) (hstamp : IsBlockstamp stamp) :
    fromPestPair C (.node .membershipV10 text
      (membershipFields currency key block type uid stamp ++ sigPairs sig.toList)) = do
      let blockstamp ← readBlockstamp block
      let identityBlockstamp ← readBlockstamp stamp
      let issuer ← unwrap (C.fromBase58 (String.ofList key))
      let signature ← unwrap (C.fromBase64 (String.ofList (sig.getD [])))
      return {
        text := some (String.ofList text)
        issuer
        currency := String.ofList currency
        blockstamp
        membership := membershipType type
        identityUsername := String.ofList uid
        identityBlockstamp
        signature } := by
  have hstep : ∀ {pair}, IsBlockstamp pair → ∀ f, step f pair = do
      let blockstamp ← readBlockstamp pair
      return { f with blockstamps := f.blockstamps ++ [blockstamp] } := by
    intro pair hpair f
    cases hpair with
    | mk => rfl
  have hstepType : ∀ f, step f type = pure { f with membership := membershipType type } := by
    intro f
    cases htype with
    | «in» => rfl
    | out => rfl
  rw [fromPestPair, membershipFields]
  simp only [Pair.inner_node, List.cons_append, List.nil_append, List.foldlM_cons, hstep hblock,
    hstep hstamp, hstepType]
  cases readBlockstamp block with
  | error e => rfl
  | ok blockstamp =>
      cases readBlockstamp stamp with
      | error e => rfl
      | ok identityBlockstamp =>
          cases sig with
          | none => rfl
          | some sig => rfl

/-! ## Certifications and revocations -/

theorem CertFields.step_pubkey (f : CertFields) (text : List Char) :
    CertFields.step C f (.leaf .pubkey text) = do
      let pubkey ← readPubkey C (.leaf .pubkey text)
      return { f with pubkeys := f.pubkeys ++ [pubkey] } := rfl

theorem CertFields.step_sig (f : CertFields) (text : List Char) :
    CertFields.step C f (.leaf .ed25519Sig text) = do
      let sig ← readSig C (.leaf .ed25519Sig text)
      return { f with sigs := f.sigs ++ [sig] } := rfl

theorem CertFields.step_blockstamp {pair : DocPair} (hpair : IsBlockstamp pair) (f : CertFields) :
    CertFields.step C f pair = do
      let blockstamp ← readBlockstamp pair
      return { f with blockstamps := f.blockstamps ++ [blockstamp] } := by
  cases hpair with
  | mk => rfl

/-- The signature of the document, which comes after that of the identity. -/
def readOwnSig (sig : Option (List Char)) : Run Sig :=
  match sig with
  | some sig => readSig C (.leaf .ed25519Sig sig)
  | none => fatalError "index out of bounds"

/-- Take the signature at the end. -/
theorem CertFields.foldlM_sigPairs (sig : Option (List Char)) (f : CertFields) :
    (sigPairs sig.toList).foldlM (CertFields.step C) f =
      match sig with
      | some sig => do
          let sig ← readSig C (.leaf .ed25519Sig sig)
          return { f with sigs := f.sigs ++ [sig] }
      | none => return f := by
  cases sig with
  | none => rfl
  | some sig =>
      simp only [sigPairs, Option.toList_some, List.map_singleton, List.singleton_append,
        List.foldlM_cons, CertFields.step_sig]
      cases readSig C (.leaf .ed25519Sig sig) with
      | error e => rfl
      | ok signature => rfl

theorem CertificationDocumentParser.fromPestPair_eq
    {text currency key target uid idtySig : List Char} {stamp stamp' : DocPair}
    {sig : Option (List Char)} (hstamp : IsBlockstamp stamp) (hstamp' : IsBlockstamp stamp') :
    fromPestPair C (.node .certV10 text
      (certFields currency key target uid stamp idtySig stamp' ++ sigPairs sig.toList)) = do
      let issuer ← readPubkey C (.leaf .pubkey key)
      let target ← readPubkey C (.leaf .pubkey target)
      let identityBlockstamp ← readBlockstamp stamp
      let identitySig ← readSig C (.leaf .ed25519Sig idtySig)
      let blockstamp ← readBlockstamp stamp'
      let signature ← readOwnSig C sig
      return {
        text := String.ofList text
        issuer
        currency := String.ofList currency
        target
        identityUsername := String.ofList uid
        identityBlockstamp
        identitySig
        blockstamp
        signature } := by
  rw [fromPestPair, certFields]
  simp only [Pair.inner_node, List.cons_append, List.nil_append, List.foldlM_cons,
    CertFields.step_pubkey, CertFields.step_sig, CertFields.step_blockstamp C hstamp,
    CertFields.step_blockstamp C hstamp', CertFields.foldlM_sigPairs]
  cases readPubkey C (.leaf .pubkey key) with
  | error e => rfl
  | ok issuer =>
  cases readPubkey C (.leaf .pubkey target) with
  | error e => rfl
  | ok target =>
  cases readBlockstamp stamp with
  | error e => rfl
  | ok identityBlockstamp =>
  cases readSig C (.leaf .ed25519Sig idtySig) with
  | error e => rfl
  | ok identitySig =>
  cases readBlockstamp stamp' with
  | error e => rfl
  | ok blockstamp =>
  cases sig with
  | none => rfl
  | some sig =>
      simp only [readOwnSig]
      cases readSig C (.leaf .ed25519Sig sig) with
      | error e => rfl
      | ok signature => rfl

theorem RevocationDocumentParser.fromPestPair_eq {text currency key uid idtySig : List Char}
    {stamp : DocPair} {sig : Option (List Char)} (hstamp : IsBlockstamp stamp) :
    fromPestPair C (.node .revocV10 text
      (revocFields currency key uid stamp idtySig ++ sigPairs sig.toList)) = do
      let issuer ← readPubkey C (.leaf .pubkey key)
      let identityBlockstamp ← readBlockstamp stamp
      let identitySig ← readSig C (.leaf .ed25519Sig idtySig)
      let signature ← readOwnSig C sig
      return {
        text := String.ofList text
        issuer
        currency := String.ofList currency
        identityUsername := String.ofList uid
        identityBlockstamp
        identitySig
        signature } := by
  rw [fromPestPair, revocFields]
  simp only [Pair.inner_node, List.cons_append, List.nil_append, List.foldlM_cons,
    CertFields.step_pubkey, CertFields.step_sig, CertFields.step_blockstamp C hstamp,
    CertFields.foldlM_sigPairs]
  cases readPubkey C (.leaf .pubkey key) with
  | error e => rfl
  | ok issuer =>
  cases readBlockstamp stamp with
  | error e => rfl
  | ok identityBlockstamp =>
  cases readSig C (.leaf .ed25519Sig idtySig) with
  | error e => rfl
  | ok identitySig =>
  cases sig with
  | none => rfl
  | some sig =>
      simp only [readOwnSig]
      cases readSig C (.leaf .ed25519Sig sig) with
      | error e => rfl
      | ok signature => rfl

/-! ## Transactions -/

/-- Read a proof that unlocks an input. -/
def readUnlockProof (cond : DocPair) : Run TransactionUnlockProof :=
  match cond.rule with
  | .unlockSig => do
      let (indexPair, _) ← nextPair cond.inner
      let index ← unwrap (parseUnsigned 64 indexPair.text)
      return .sig index
  | _ => do
      let (secretPair, _) ← nextPair cond.inner
      return .xhx (DocPair.asStr secretPair)

theorem readUnlockProof_unlockSig (text index : List Char) :
    readUnlockProof (.node .unlockSig text [.leaf .issuerIndex index]) = do
      let index ← unwrap (parseUnsigned 64 index)
      return .sig index := rfl

theorem TransactionInputUnlocks.step_unlockSig (unlocks : TransactionInputUnlocks)
    (text index : List Char) :
    unlocks.step (.node .unlockSig text [.leaf .issuerIndex index]) = do
      let index ← unwrap (parseUnsigned 64 index)
      return { unlocks with unlocks := unlocks.unlocks ++ [.sig index] } := rfl

theorem TransactionInputUnlocks.fromPestPair_eq {index : List Char} {conds : List DocPair}
    (hconds : ∀ cond ∈ conds, IsUnlockCond cond) :
    fromPestPair (.leaf .inputIndex index :: conds) = do
      let index ← unwrap (parseUnsigned 64 index)
      let unlocks ← conds.mapM readUnlockProof
      return { index, unlocks } := by
  have hfold : ∀ f : TransactionInputUnlocks, conds.foldlM step f = do
      let proofs ← conds.mapM readUnlockProof
      return { f with unlocks := f.unlocks ++ proofs } := by
    intro f
    refine foldlM_eq_mapM
      (fun (f : TransactionInputUnlocks) proofs =>
        { f with unlocks := f.unlocks ++ proofs })
      (fun f => ?_) (fun f proof proofs => ?_) (fun f cond hcond => ?_) f
    · rw [List.append_nil]
    · rw [List.append_assoc, List.singleton_append]
    · cases hconds cond hcond with
      | @sig index =>
          rw [step_unlockSig, readUnlockProof_unlockSig]
          cases unwrap (parseUnsigned 64 index) with
          | error e => rfl
          | ok index => rfl
      | xhx => rfl
  have hindex : ∀ f : TransactionInputUnlocks, step f (.leaf .inputIndex index) = do
      let index ← unwrap (parseUnsigned 64 index)
      return { f with index } := fun _ => rfl
  simp only [fromPestPair, List.foldlM_cons, hindex, hfold]
  cases unwrap (parseUnsigned 64 index) with
  | error e => rfl
  | ok index => rfl

namespace TransactionDocumentParser

theorem foldlM_issuers {issuers : List DocPair}
    (h : ∀ issuer ∈ issuers, ∃ key, issuer = .leaf .pubkey key) (f : Fields) :
    issuers.foldlM (step C) f = do
      let keys ← issuers.mapM (readPubkey C)
      return { f with issuers := f.issuers ++ keys } := by
  refine foldlM_eq_mapM (fun (f : Fields) keys => { f with issuers := f.issuers ++ keys })
    (fun f => ?_) (fun f key keys => ?_) (fun f issuer hissuer => ?_) f
  · rw [List.append_nil]
  · rw [List.append_assoc, List.singleton_append]
  · rcases h issuer hissuer with ⟨key, rfl⟩
    rfl

theorem foldlM_inputs {inputs : List DocPair} (h : ∀ input ∈ inputs, IsInput input)
    (f : Fields) :
    inputs.foldlM (step C) f = do
      let values ← inputs.mapM fun input => TransactionInput.fromPestPair C input.inner
      return { f with inputs := f.inputs ++ values } := by
  refine foldlM_eq_mapM (fun (f : Fields) values => { f with inputs := f.inputs ++ values })
    (fun f => ?_) (fun f value values => ?_) (fun f input hinput => ?_) f
  · rw [List.append_nil]
  · rw [List.append_assoc, List.singleton_append]
  · cases h input hinput with
    | du => rfl
    | tx => rfl

theorem foldlM_unlocks {unlocks : List DocPair} (h : ∀ unlock ∈ unlocks, IsUnlock unlock)
    (f : Fields) :
    unlocks.foldlM (step C) f = do
      let values ← unlocks.mapM fun unlock => TransactionInputUnlocks.fromPestPair unlock.inner
      return { f with unlocks := f.unlocks ++ values } := by
  refine foldlM_eq_mapM (fun (f : Fields) values => { f with unlocks := f.unlocks ++ values })
    (fun f => ?_) (fun f value values => ?_) (fun f unlock hunlock => ?_) f
  · rw [List.append_nil]
  · rw [List.append_assoc, List.singleton_append]
  · cases h unlock hunlock with
    | mk => rfl

theorem foldlM_outputs {outputs : List DocPair} (h : ∀ output ∈ outputs, IsOutput output)
    (f : Fields) :
    outputs.foldlM (step C) f = do
      let values ← outputs.mapM fun output => TransactionOutput.fromPestPair C output.inner
      return { f with outputs := f.outputs ++ values } := by
  refine foldlM_eq_mapM (fun (f : Fields) values => { f with outputs := f.outputs ++ values })
    (fun f => ?_) (fun f value values => ?_) (fun f output houtput => ?_) f
  · rw [List.append_nil]
  · rw [List.append_assoc, List.singleton_append]
  · cases h output houtput with
    | mk => rfl

theorem foldlM_sigPairs (sigs : List (List Char)) (f : Fields) :
    (sigPairs sigs).foldlM (step C) f = do
      let values ← (sigs.map (Pair.leaf Rule.ed25519Sig)).mapM (readSig C)
      return { f with sigs := f.sigs ++ values } := by
  rw [sigPairs, List.foldlM_append, foldlM_eq_mapM
    (fun (f : Fields) values => { f with sigs := f.sigs ++ values })
    (fun f => ?_) (fun f value values => ?_) (fun f sig hsig => ?_) f]
  · cases (sigs.map (Pair.leaf Rule.ed25519Sig)).mapM (readSig C) with
    | error e => rfl
    | ok values => rfl
  · rw [List.append_nil]
  · rw [List.append_assoc, List.singleton_append]
  · rcases List.mem_map.1 hsig with ⟨text, -, rfl⟩
    rfl

theorem fromPestPair_eq {text : List Char} {tx : TxParts} {sigs : List (List Char)}
    (htx : tx.WellFormed) :
    fromPestPair C (.node .txV10 text (tx.fields ++ sigPairs sigs)) = do
      let blockstamp ← readBlockstamp tx.blockstamp
      let locktime ← unwrap (parseUnsigned 64 tx.locktime)
      let issuers ← tx.issuers.mapM (readPubkey C)
      let inputs ← tx.inputs.mapM fun input => TransactionInput.fromPestPair C input.inner
      let unlocks ← tx.unlocks.mapM fun unlock =>
        TransactionInputUnlocks.fromPestPair unlock.inner
      let outputs ← tx.outputs.mapM fun output => TransactionOutput.fromPestPair C output.inner
      let signatures ← (sigs.map (Pair.leaf Rule.ed25519Sig)).mapM (readSig C)
      return {
        text := some (String.ofList text)
        currency := String.ofList tx.currency
        blockstamp
        locktime
        issuers
        inputs
        unlocks
        outputs
        comment := String.ofList tx.comment
        signatures
        hash := none } := by
  have hstep : ∀ {pair}, IsBlockstamp pair → ∀ f, step C f pair = do
      let blockstamp ← readBlockstamp pair
      return { f with blockstamp } := by
    intro pair hpair f
    cases hpair with
    | mk => rfl
  have hlocktime : ∀ f, step C f (.leaf .txLocktime tx.locktime) = do
      let locktime ← unwrap (parseUnsigned 64 tx.locktime)
      return { f with locktime } := fun _ => rfl
  rw [fromPestPair, TxParts.fields]
  simp only [Pair.inner_node, List.cons_append, List.nil_append, List.foldlM_cons, List.foldlM_append,
    hstep htx.blockstamp, hlocktime, foldlM_issuers C htx.issuers, foldlM_inputs C htx.inputs,
    foldlM_unlocks C htx.unlocks, foldlM_outputs C htx.outputs, foldlM_sigPairs]
  cases readBlockstamp tx.blockstamp with
  | error e => rfl
  | ok blockstamp =>
  cases unwrap (parseUnsigned 64 tx.locktime) with
  | error e => rfl
  | ok locktime =>
  cases tx.issuers.mapM (readPubkey C) with
  | error e => rfl
  | ok issuers =>
  cases tx.inputs.mapM fun input => TransactionInput.fromPestPair C input.inner with
  | error e => rfl
  | ok inputs =>
  cases tx.unlocks.mapM fun unlock => TransactionInputUnlocks.fromPestPair unlock.inner with
  | error e => rfl
  | ok unlocks =>
  cases tx.outputs.mapM fun output => TransactionOutput.fromPestPair C output.inner with
  | error e => rfl
  | ok outputs =>
  cases (sigs.map (Pair.leaf Rule.ed25519Sig)).mapM (readSig C) with
  | error e => rfl
  | ok signatures => rfl

end TransactionDocumentParser

/-! ## Texts -/

/-- A parser builds the document from the rule of the version. -/
theorem parseVersion_of_parse {α : Type} {e : Lib.Peg.Expr Rule} {r version : Rule}
    {fromPestPair : DocPair → Run α} {onPestError : Run (Except TextDocumentParseError α)}
    {text : String} {chars chars' : List Char} {fields : List DocPair}
    (h : DocumentsParser.parse e text = some [.node r chars [.node version chars' fields]]) :
    parseVersion e version fromPestPair onPestError text = do
      let doc ← fromPestPair (.node version chars' fields)
      return .ok doc := by
  rw [parseVersion, h]
  show (if version = version then _ else _) = _
  rw [if_pos rfl]

/-- A parser refuses a text that its grammar does not match, and otherwise builds the document from
the rule of the version. -/
theorem parseVersion_cases {α : Type} {e : Lib.Peg.Expr Rule} {r version : Rule}
    (he : e.Finishes)
    (hversion : ∀ text inner, e.lang text inner → ∃ fields, inner = [.node version text fields])
    (fromPestPair : DocPair → Run α) (onPestError : Run (Except TextDocumentParseError α))
    (text : String) :
    DocumentsParser.parse (.rule r (atV10 ++ e)) text = none ∧
        parseVersion (.rule r (atV10 ++ e)) version fromPestPair onPestError text = onPestError ∨
      ∃ fields, e.lang text.toList [.node version text.toList fields] ∧
        DocumentsParser.parse (.rule r (atV10 ++ e)) text =
          some [.node r text.toList [.node version text.toList fields]] ∧
        parseVersion (.rule r (atV10 ++ e)) version fromPestPair onPestError text = do
          let doc ← fromPestPair (.node version text.toList fields)
          return .ok doc := by
  cases h : DocumentsParser.parse (.rule r (atV10 ++ e)) text with
  | none =>
      rw [parseVersion, h]
      exact Or.inl ⟨rfl, rfl⟩
  | some pairs =>
      rcases of_parse he h with ⟨inner, hlang, rfl⟩
      rcases hversion _ _ hlang with ⟨fields, rfl⟩
      exact Or.inr ⟨fields, hlang, rfl, parseVersion_of_parse h⟩

end Durs
