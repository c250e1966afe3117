/-
# Served blocks

What a peer reads from a block that the node serves.  The dividend and the version of the block are
not told, a number from 2^63 on is refused, and the colon of a username is taken for a separator:
a complete block arrives with the content that its inner hash covers exactly when none of these
matters for it.
-/

import Durs.Ws2pV1.Serializers

namespace Durs

open RustStd Lib

variable {C : DocCrypto} {parseF64 : List Char → Option F64} {printF64 : F64 → String}

/-! ## Texts that are cut -/

/-- The text up to the first colon. -/
def upToColon (text : String) : String := (split ':' text).headD ""

theorem split_ne_nil (sep : Char) (text : String) : split sep text ≠ [] := by
  rw [split, Ne, List.map_eq_nil_iff]
  exact List.splitOn_ne_nil _ _

/-- A first part without the separator is cut off. -/
theorem split_append {sep : Char} {part text : String} (rest : String) (h : sep ∉ part.toList)
    (htext : text.toList = part.toList ++ sep :: rest.toList) :
    split sep text = part :: split sep rest := by
  rw [split, htext, List.splitOn_append_cons_self_of_not_mem h, List.map_cons,
    String.ofList_toList, split]

theorem split_eq_singleton {sep : Char} {text : String} (h : sep ∉ text.toList) :
    split sep text = [text] := by
  refine split_intercalate (List.forall_mem_singleton.2 h) (List.cons_ne_nil _ _) ?_
  simp

theorem split_eq_upToColon_cons (text : String) :
    split ':' text = upToColon text :: (split ':' text).tail := by
  unfold upToColon
  cases hsplit : split ':' text with
  | nil => exact absurd hsplit (split_ne_nil _ _)
  | cons part parts => rfl

theorem colon_not_mem_upToColon (text : String) : ':' ∉ (upToColon text).toList := by
  have hmem : upToColon text ∈ split ':' text := by
    rw [split_eq_upToColon_cons text]
    exact List.mem_cons_self
  rcases List.mem_map.1 hmem with ⟨part, hpart, heq⟩
  rw [← heq, String.toList_ofList]
  exact not_mem_of_mem_splitOn hpart

theorem upToColon_eq_iff {text : String} : upToColon text = text ↔ ':' ∉ text.toList := by
  constructor
  · intro h
    rw [← h]
    exact colon_not_mem_upToColon text
  · intro h
    rw [upToColon, split_eq_singleton h]
    rfl

theorem split_tail_eq_nil_iff {text : String} :
    (split ':' text).tail = [] ↔ ':' ∉ text.toList := by
  constructor
  · intro htail
    have hcut := split_eq_upToColon_cons text
    rw [htail, split] at hcut
    have htext : List.intercalate [':'] (text.toList.splitOn ':') = text.toList :=
      List.intercalate_splitOn ':'
    rcases List.map_eq_singleton_iff.1 hcut with ⟨part, hparts, -⟩
    rw [hparts] at htext
    have hpart : text.toList = part := by simpa using htext.symm
    rw [hpart]
    exact not_mem_of_mem_splitOn (hparts ▸ List.mem_singleton_self part)
  · intro h
    rw [split_eq_singleton h]
    rfl

/-! ## Currency parameters -/

variable (parseF64 printF64) in
/-- Parameters that are read back from their text: integers of their type, and floating-point
numbers with texts that are read as the numbers. -/
structure BlockV10Parameters.Printable (params : BlockV10Parameters) : Prop where
  floats : ∀ x ∈ [params.c, params.xPercent, params.percentRot],
    parseF64 (printF64 x).toList = some x ∧ ':' ∉ (printF64 x).toList
  integers : ∀ n ∈ [params.dt, params.ud0, params.sigPeriod, params.sigStock, params.sigWindow,
    params.sigValidity, params.sigQty, params.idtyWindow, params.msWindow, params.msValidity,
    params.stepMax, params.medianTimeBlocks, params.avgGenTime, params.dtDiffEval,
    params.udTime0, params.udReevalTime0, params.dtReeval], n < 2 ^ 64

theorem run_readParam {α : Type} {params : List String} {i : Nat} {param : String}
    {parse : List Char → Option α} {a : α} (hparam : params[i]? = some param)
    (hparse : parse param.toList = some a) :
    (readParam params i parse).run = .ok (some a) := by
  refine run_bind_eq_some_iff.2 ⟨param, run_lift_eq_some_iff.2 ?_, run_option_eq_some_iff.2 hparse⟩
  rw [indexVec, hparam, expect_some]

theorem run_fromStr_toText {params : BlockV10Parameters}
    (h : params.Printable parseF64 printF64) :
    (BlockV10Parameters.fromStr parseF64 (params.toText printF64)).run = .ok (some params) := by
  have hfloats := h.floats
  have hintegers := h.integers
  simp only [List.forall_mem_cons, List.not_mem_nil, false_imp_iff, implies_true, and_true]
    at hfloats hintegers
  have hcolon (n : Nat) : ':' ∉ (toString n).toList := not_mem_toString (by decide) n
  rcases hfloats with ⟨⟨hc, hcText⟩, ⟨hxPercent, hxPercentText⟩, ⟨hpercentRot, hpercentRotText⟩⟩
  rcases hintegers with ⟨hdt, hud0, hsigPeriod, hsigStock, hsigWindow, hsigValidity, hsigQty,
    hidtyWindow, hmsWindow, hmsValidity, hstepMax, hmedianTimeBlocks, havgGenTime, hdtDiffEval,
    hudTime0, hudReevalTime0, hdtReeval⟩
  have hsplit : split ':' (params.toText printF64) = params.texts printF64 := by
    refine split_intercalate ?_ (List.cons_ne_nil _ _) String.toList_intercalate
    simp only [List.forall_mem_cons, List.not_mem_nil, false_imp_iff, implies_true, and_true,
      hcolon, not_false_iff, hcText, hxPercentText, hpercentRotText]
  unfold BlockV10Parameters.fromStr
  rw [hsplit]
  refine run_bind_eq_some_iff.2 ⟨_, run_readParam rfl hc, ?_⟩
  refine run_bind_eq_some_iff.2 ⟨_, run_readParam rfl (parseUnsigned_toString hdt), ?_⟩
  refine run_bind_eq_some_iff.2 ⟨_, run_readParam rfl (parseUnsigned_toString hud0), ?_⟩
  refine run_bind_eq_some_iff.2 ⟨_, run_readParam rfl (parseUnsigned_toString hsigPeriod), ?_⟩
  refine run_bind_eq_some_iff.2 ⟨_, run_readParam rfl (parseUnsigned_toString hsigStock), ?_⟩
  refine run_bind_eq_some_iff.2 ⟨_, run_readParam rfl (parseUnsigned_toString hsigWindow), ?_⟩
  refine run_bind_eq_some_iff.2 ⟨_, run_readParam rfl (parseUnsigned_toString hsigValidity), ?_⟩
  refine run_bind_eq_some_iff.2 ⟨_, run_readParam rfl (parseUnsigned_toString hsigQty), ?_⟩
  refine run_bind_eq_some_iff.2 ⟨_, run_readParam rfl (parseUnsigned_toString hidtyWindow), ?_⟩
  refine run_bind_eq_some_iff.2 ⟨_, run_readParam rfl (parseUnsigned_toString hmsWindow), ?_⟩
  refine run_bind_eq_some_iff.2 ⟨_, run_readParam rfl hxPercent, ?_⟩
  refine run_bind_eq_some_iff.2 ⟨_, run_readParam rfl (parseUnsigned_toString hmsValidity), ?_⟩
  refine run_bind_eq_some_iff.2 ⟨_, run_readParam rfl (parseUnsigned_toString hstepMax), ?_⟩
  refine run_bind_eq_some_iff.2
    ⟨_, run_readParam rfl (parseUnsigned_toString hmedianTimeBlocks), ?_⟩
  refine run_bind_eq_some_iff.2 ⟨_, run_readParam rfl (parseUnsigned_toString havgGenTime), ?_⟩
  refine run_bind_eq_some_iff.2 ⟨_, run_readParam rfl (parseUnsigned_toString hdtDiffEval), ?_⟩
  refine run_bind_eq_some_iff.2 ⟨_, run_readParam rfl hpercentRot, ?_⟩
  refine run_bind_eq_some_iff.2 ⟨_, run_readParam rfl (parseUnsigned_toString hudTime0), ?_⟩
  refine run_bind_eq_some_iff.2
    ⟨_, run_readParam rfl (parseUnsigned_toString hudReevalTime0), ?_⟩
  exact run_bind_eq_some_iff.2 ⟨_, run_readParam rfl (parseUnsigned_toString hdtReeval), rfl⟩

/-- No parameters are read from the empty text. -/
theorem run_fromStr_empty (h : parseF64 [] = none) :
    (BlockV10Parameters.fromStr parseF64 "").run = .ok none := by
  have hsplit : split ':' "" = [""] := rfl
  have hread : (readParam (split ':' "") 0 parseF64).run = .ok none := by
    rw [readParam, hsplit, OptionT.run_bind]
    show Except.ok (parseF64 _) = _
    exact congrArg Except.ok h
  rw [BlockV10Parameters.fromStr, OptionT.run_bind, hread]
  rfl

/-! ## Documents -/

variable (C) in
/-- An identity with fields that are read back from their texts, but perhaps for its username. -/
structure IdentityDocument.Printable (doc : IdentityDocument) : Prop where
  issuer : C.ReadsPubkey doc.issuer
  signature : C.ReadsSig doc.signature
  blockstamp : doc.blockstamp.id < 2 ^ 32

variable (C) in
/-- A membership with fields that are read back from their texts, but perhaps for its username. -/
structure MembershipDocument.Printable (doc : MembershipDocument) : Prop where
  issuer : C.ReadsPubkey doc.issuer
  signature : C.ReadsSig doc.signature
  blockstamp : doc.blockstamp.id < 2 ^ 32
  identityBlockstamp : doc.identityBlockstamp.id < 2 ^ 32

variable (C) in
/-- A revocation with fields that are read back from their texts. -/
structure CompactRevocationDocument.Printable (doc : CompactRevocationDocument) : Prop where
  issuer : C.ReadsPubkey doc.issuer
  signature : C.ReadsSig doc.signature

variable (C) in
/-- A certification with fields that are read back from their texts. -/
structure CompactCertificationDocument.Printable (doc : CompactCertificationDocument) :
    Prop where
  issuer : C.ReadsPubkey doc.issuer
  target : C.ReadsPubkey doc.target
  blockNumber : doc.blockNumber < 2 ^ 32
  signature : C.ReadsSig doc.signature

variable (C) in
/-- A transaction with parts that are read back from their texts. -/
structure TransactionDocument.Printable (doc : TransactionDocument) : Prop where
  blockstamp : doc.blockstamp.id < 2 ^ 32
  issuers : ∀ issuer ∈ doc.issuers, C.ReadsPubkey issuer
  inputs : ∀ input ∈ doc.inputs,
    (TransactionInput.fromStr C (input.toText C)).run = .ok (some input)
  unlocks : ∀ unlocks ∈ doc.unlocks,
    (TransactionInputUnlocks.fromStr unlocks.toText).run = .ok (some unlocks)
  outputs : ∀ output ∈ doc.outputs,
    (TransactionOutput.fromStr C (output.toText C)).run = .ok (some output)
  signatures : ∀ sig ∈ doc.signatures, C.ReadsSig sig

/-- What is read from an identity: its username is cut. -/
def IdentityDocument.served (C : DocCrypto) (currency : String) (doc : IdentityDocument) :
    IdentityDocument :=
  ({ doc with currency, username := upToColon doc.username } :
    IdentityDocument).builder.buildWithSignature C doc.signature

theorem run_parseCompactIdentity {doc : IdentityDocument} (h : doc.Printable C)
    (currency : String) :
    (parseCompactIdentity C currency (doc.toStringObject C).intoWs2pV1Json).run =
      .ok (some (doc.served C currency)) := by
  have hsplit : split ':' (doc.toCompactDocument.asCompactText C) =
      C.base58 doc.issuer :: C.base64 doc.signature :: doc.blockstamp.toText ::
        upToColon doc.username :: (split ':' doc.username).tail := by
    rw [← split_eq_upToColon_cons]
    rw [split_append (C.base64 doc.signature ++ ":" ++ doc.blockstamp.toText ++ ":" ++
        doc.username) h.issuer.colon_not_mem,
      split_append (doc.blockstamp.toText ++ ":" ++ doc.username)
        h.signature.colon_not_mem,
      split_append (doc.username) (colon_not_mem_toText _)]
    all_goals simp [CompactIdentityDocument.asCompactText, IdentityDocument.toCompactDocument]
  show (readCompactIdentity C currency (doc.toCompactDocument.asCompactText C)).run = _
  rw [readCompactIdentity, hsplit]
  refine run_bind_eq_some_iff.2 ⟨_, run_lift_eq_some_iff.2 rfl, ?_⟩
  refine run_bind_eq_some_iff.2 ⟨_, run_option_eq_some_iff.2 h.issuer.read, ?_⟩
  refine run_bind_eq_some_iff.2 ⟨_, run_lift_eq_some_iff.2 rfl, ?_⟩
  refine run_bind_eq_some_iff.2 ⟨_, run_option_eq_some_iff.2 h.signature.read, ?_⟩
  refine run_bind_eq_some_iff.2 ⟨_, run_lift_eq_some_iff.2 rfl, ?_⟩
  refine run_bind_eq_some_iff.2 ⟨_, run_fromString_toText h.blockstamp, ?_⟩
  exact run_bind_eq_some_iff.2 ⟨_, run_lift_eq_some_iff.2 rfl, rfl⟩

/-- What is read from a membership: nothing, if its username holds a colon. -/
def MembershipDocument.served (C : DocCrypto) (currency : String)
    (membershipType : MembershipType) (doc : MembershipDocument) : Option MembershipDocument :=
  if ':' ∈ doc.identityUsername.toList then none
  else some (({ doc with currency, membership := membershipType } :
    MembershipDocument).builder.buildWithSignature C doc.signature)

theorem parseCompactMembership_eq {doc : MembershipDocument} (h : doc.Printable C)
    (currency : String) (membershipType : MembershipType) :
    parseCompactMembership C currency membershipType (doc.toStringObject C).intoWs2pV1Json =
      .ok (doc.served C currency membershipType) := by
  have hsplit : split ':' (doc.asCompactText C) =
      C.base58 doc.issuer :: C.base64 doc.signature :: doc.blockstamp.toText ::
        doc.identityBlockstamp.toText :: upToColon doc.identityUsername ::
          (split ':' doc.identityUsername).tail := by
    rw [← split_eq_upToColon_cons]
    rw [split_append (C.base64 doc.signature ++ ":" ++ doc.blockstamp.toText ++ ":" ++
        doc.identityBlockstamp.toText ++ ":" ++ doc.identityUsername) h.issuer.colon_not_mem,
      split_append (doc.blockstamp.toText ++ ":" ++ doc.identityBlockstamp.toText ++
        ":" ++ doc.identityUsername) h.signature.colon_not_mem,
      split_append (doc.identityBlockstamp.toText ++ ":" ++ doc.identityUsername)
        (colon_not_mem_toText _),
      split_append (doc.identityUsername) (colon_not_mem_toText _)]
    all_goals simp [MembershipDocument.asCompactText]
  have hblockstamp {blockstamp : Blockstamp} (h : blockstamp.id < 2 ^ 32) :
      unwrapBlockstamp blockstamp.toText = .ok blockstamp := by
    rw [unwrapBlockstamp, run_fromString_toText h, ok_bind, unwrap_eq_ok_iff]
  unfold MembershipDocument.served
  by_cases hcolon : ':' ∈ doc.identityUsername.toList
  case pos =>
    have htail : (split ':' doc.identityUsername).tail ≠ [] :=
      fun hnil => split_tail_eq_nil_iff.1 hnil hcolon
    rcases List.exists_cons_of_ne_nil htail with ⟨part, parts, hparts⟩
    rw [if_pos hcolon]
    show (do
      let text ← unwrap (some (doc.asCompactText C))
      _) = _
    rw [show unwrap (some (doc.asCompactText C)) = .ok (doc.asCompactText C) from rfl, ok_bind,
      hsplit, hparts]
    rfl
  case neg =>
    rw [if_neg hcolon]
    show (do
      let text ← unwrap (some (doc.asCompactText C))
      _) = _
    rw [show unwrap (some (doc.asCompactText C)) = .ok (doc.asCompactText C) from rfl, ok_bind,
      hsplit, split_tail_eq_nil_iff.2 hcolon, upToColon_eq_iff.2 hcolon]
    dsimp only
    rw [h.issuer.read, hblockstamp h.blockstamp, hblockstamp h.identityBlockstamp,
      h.signature.read]
    rfl

theorem run_parseMemberships {docs : List MembershipDocument} (h : ∀ doc ∈ docs, doc.Printable C)
    (currency : String) (membershipType : MembershipType) :
    (parseMemberships C currency membershipType (.array ((docs.map
        (MembershipDocument.toStringObject C)).map MembershipStringDocument.intoWs2pV1Json))).run =
      .ok (some (docs.filterMap (MembershipDocument.served C currency membershipType))) := by
  have hread : parseMembershipsFromJsonValue C currency membershipType ((docs.map
      (MembershipDocument.toStringObject C)).map MembershipStringDocument.intoWs2pV1Json) =
      .ok (docs.map (MembershipDocument.served C currency membershipType)) := by
    rw [parseMembershipsFromJsonValue, List.map_map, List.mapM_map]
    exact mapM_eq_ok_map fun doc hdoc => parseCompactMembership_eq (h doc hdoc) _ _
  refine run_bind_eq_some_iff.2 ⟨_, run_option_eq_some_iff.2 rfl, ?_⟩
  refine run_bind_eq_some_iff.2 ⟨_, run_lift_eq_some_iff.2 hread, ?_⟩
  rw [run_pure_eq_some_iff, List.filterMap_map]
  rfl

theorem parseRevocations_eq {docs : List CompactRevocationDocument}
    (h : ∀ doc ∈ docs, doc.Printable C) :
    parseRevocationsIntoCompact C (((docs.map (CompactRevocationDocument.toStringObject C)).map
        CompactRevocationStringDocument.intoWs2pV1Json).map fun v => v.asStr.getD "") =
      .ok docs := by
  rw [List.map_map, List.map_map]
  refine (@mapM_filterMap_id _ _ _ _ _ id _ fun doc hdoc => ?_).trans (by rw [List.map_id])
  let complete : RevocationDocument :=
    { text := "", issuer := doc.issuer, currency := "", identityUsername := "",
      identityBlockstamp := default, identitySig := doc.signature, signature := doc.signature }
  show parseCompactRevocation C (complete.toCompactDocument.asCompactText C) =
    .ok (some complete.toCompactDocument)
  exact parseCompactRevocation_asCompactText ⟨(h doc hdoc).issuer, (h doc hdoc).signature⟩

theorem parseCertifications_eq {docs : List CompactCertificationDocument}
    (h : ∀ doc ∈ docs, doc.Printable C) :
    parseCertificationsIntoCompact C (((docs.map
        (CompactCertificationDocument.toStringObject C)).map
        CompactCertificationStringDocument.intoWs2pV1Json).map fun v => v.asStr.getD "") =
      .ok docs := by
  rw [List.map_map, List.map_map]
  refine (@mapM_filterMap_id _ _ _ _ _ id _ fun doc hdoc => ?_).trans (by rw [List.map_id])
  let complete : CertificationDocument :=
    { text := "", issuer := doc.issuer, currency := "", target := doc.target,
      identityUsername := "", identityBlockstamp := default, identitySig := doc.signature,
      blockstamp := ⟨doc.blockNumber, 0⟩, signature := doc.signature }
  show parseCompactCertification C (complete.toCompactDocument.asCompactText C) =
    .ok (some complete.toCompactDocument)
  exact parseCompactCertification_asCompactText
    ⟨(h doc hdoc).issuer, (h doc hdoc).target, (h doc hdoc).signature, (h doc hdoc).blockNumber⟩

theorem parseExclusions_eq {keys : List PubKey} (h : ∀ key ∈ keys, C.ReadsPubkey key) :
    parseExclusionsFromJsonValue C ((keys.map C.base58).map Json.string) = .ok keys := by
  rw [parseExclusionsFromJsonValue, List.map_map, List.mapM_map]
  refine (mapM_eq_ok_map (g := id) fun key hkey => ?_).trans (by rw [List.map_id])
  exact unwrap_eq_ok_iff.2 (h key hkey).read

/-- What is read from a transaction: it is one of the currency that the reader is told. -/
def TransactionDocument.served (C : DocCrypto) (currency : String) (doc : TransactionDocument) :
    TransactionDocument :=
  ({ doc with currency } : TransactionDocument).builder.buildWithSignature C doc.signatures

/-- Texts that are printed are read one by one. -/
theorem run_mapM_texts {α : Type} {print : α → String} {read : String → OptionT Run α}
    {values : List α} (h : ∀ value ∈ values, (read (print value)).run = .ok (some value)) :
    (((values.map print).map Json.string).mapM fun value => (do
      let text ← Json.asStr value
      read text : OptionT Run α)).run = .ok (some values) := by
  rw [List.map_map, List.mapM_map]
  refine (run_mapM_eq_map (g := id) fun value hvalue => ?_).trans (by rw [List.map_id])
  exact run_bind_eq_some_iff.2 ⟨_, run_option_eq_some_iff.2 rfl, h value hvalue⟩

theorem asU64_of_lt {n : Nat} (h : n < 2 ^ 63) : asU64 (n : Int) = n := by
  rw [asU64]
  omega

/-- A number from 2^63 on is not read as a signed one. -/
theorem lt_of_asI64_posInt {n : Nat} {i : Int} (h : (Json.posInt n).asI64 = some i) :
    n < 2 ^ 63 := by
  rw [Json.asI64] at h
  split at h
  case isTrue hlt => exact hlt
  case isFalse => cases h

theorem run_parseTransaction {doc : TransactionDocument} (h : doc.Printable C)
    (currency : String) (hlocktime : doc.locktime < 2 ^ 63) (hhash : doc.hash.isSome) :
    (parseTransaction C currency (doc.toStringObject C).intoWs2pV1Json).run =
      .ok (some (doc.served C currency)) := by
  rcases Option.isSome_iff_exists.1 hhash with ⟨hash, hhash⟩
  have hhashText : (doc.toStringObject C).intoWs2pV1Json.str "hash" = some hash.toHex := by
    show (Json.ofOption (doc.hash.map Hash.toHex)).asStr = _
    rw [Json.asStr_ofOption, hhash, Option.map_some]
  have hi64 : (doc.toStringObject C).intoWs2pV1Json.i64 "locktime" = some (doc.locktime : Int) :=
    if_pos hlocktime
  unfold parseTransaction
  refine run_bind_eq_some_iff.2 ⟨_, run_option_eq_some_iff.2 rfl, ?_⟩
  refine run_bind_eq_some_iff.2 ⟨_, run_fromString_toText h.blockstamp, ?_⟩
  refine run_bind_eq_some_iff.2 ⟨_, run_option_eq_some_iff.2 hi64, ?_⟩
  refine run_bind_eq_some_iff.2 ⟨_, run_option_eq_some_iff.2 rfl, ?_⟩
  refine run_bind_eq_some_iff.2 ⟨_, run_mapM_texts fun issuer hissuer =>
    run_option_eq_some_iff.2 (h.issuers issuer hissuer).read, ?_⟩
  refine run_bind_eq_some_iff.2 ⟨_, run_option_eq_some_iff.2 rfl, ?_⟩
  refine run_bind_eq_some_iff.2 ⟨_, run_mapM_texts h.inputs, ?_⟩
  refine run_bind_eq_some_iff.2 ⟨_, run_option_eq_some_iff.2 rfl, ?_⟩
  refine run_bind_eq_some_iff.2 ⟨_, run_mapM_texts h.unlocks, ?_⟩
  refine run_bind_eq_some_iff.2 ⟨_, run_option_eq_some_iff.2 rfl, ?_⟩
  refine run_bind_eq_some_iff.2 ⟨_, run_mapM_texts h.outputs, ?_⟩
  refine run_bind_eq_some_iff.2 ⟨_, run_option_eq_some_iff.2 rfl, ?_⟩
  refine run_bind_eq_some_iff.2 ⟨_, run_mapM_texts fun sig hsig =>
    run_option_eq_some_iff.2 (h.signatures sig hsig).read, ?_⟩
  refine run_bind_eq_some_iff.2 ⟨_, run_option_eq_some_iff.2 rfl, ?_⟩
  refine run_bind_eq_some_iff.2 ⟨_, run_option_eq_some_iff.2 hhashText, ?_⟩
  refine run_bind_eq_some_iff.2 ⟨hash, by rw [Hash.fromHexText_toHex]; rfl, ?_⟩
  rw [run_pure_eq_some_iff, asU64_of_lt hlocktime, TransactionDocument.served, ← hhash]
  rfl

/-- A transaction that is read has a locktime that fits, and its hash. -/
theorem of_parseTransaction {doc read : TransactionDocument} {currency : String}
    (h : (parseTransaction C currency (doc.toStringObject C).intoWs2pV1Json).run =
      .ok (some read)) : doc.locktime < 2 ^ 63 ∧ doc.hash.isSome := by
  rw [parseTransaction] at h
  rcases run_bind_eq_some_iff.1 h with ⟨_, -, h⟩
  rcases run_bind_eq_some_iff.1 h with ⟨_, -, h⟩
  rcases run_bind_eq_some_iff.1 h with ⟨locktime, hlocktime, h⟩
  -- the issuers, the parts, the signatures and the comment
  iterate 11 rcases run_bind_eq_some_iff.1 h with ⟨_, -, h⟩
  rcases run_bind_eq_some_iff.1 h with ⟨hash, hhash, h⟩
  constructor
  · exact lt_of_asI64_posInt (run_option_eq_some_iff.1 hlocktime)
  · replace hhash : (Json.ofOption (doc.hash.map Hash.toHex)).asStr = some hash :=
      run_option_eq_some_iff.1 hhash
    rw [Json.asStr_ofOption] at hhash
    obtain ⟨hash, hsome, -⟩ := Option.map_eq_some_iff.1 hhash
    exact Option.isSome_of_mem hsome

/-! ## Blocks -/

namespace BlockDocument

variable (C parseF64 printF64) in
/-- A complete block, with fields that are read back from their texts. -/
structure Complete (block : BlockDocument) : Prop where
  number : block.number < 2 ^ 32
  issuersFrame : block.issuersFrame < 2 ^ 63
  issuersFrameVar : block.issuersFrameVar < 2 ^ 63
  issuer : ∃ issuer, block.issuers = [issuer] ∧ C.ReadsPubkey issuer
  signature : ∃ sig, block.signatures = [sig] ∧ C.ReadsSig sig
  hash : block.hash.isSome
  innerHash : block.innerHash.isSome
  parameters : ∀ params ∈ block.parameters, params.Printable parseF64 printF64
  previousIssuer : ∀ issuer ∈ block.previousIssuer, C.ReadsPubkey issuer
  previous : 0 < block.number → block.previousIssuer.isSome
  identities : ∀ doc ∈ block.identities, doc.Printable C
  joiners : ∀ doc ∈ block.joiners, doc.Printable C
  actives : ∀ doc ∈ block.actives, doc.Printable C
  leavers : ∀ doc ∈ block.leavers, doc.Printable C
  revoked : ∀ doc ∈ block.revoked, doc.Printable C
  excluded : ∀ key ∈ block.excluded, C.ReadsPubkey key
  certifications : ∀ doc ∈ block.certifications, doc.Printable C
  documents : ∀ tx ∈ block.transactions, tx.IsDoc
  transactions : ∀ doc, .txDoc doc ∈ block.transactions → doc.Printable C

/-- What is read from a block with these transactions. -/
def served (C : DocCrypto) (block : BlockDocument) (innerHash : Hash)
    (docs : List TransactionDocument) : BlockDocument :=
  { block with
    version := 10
    dividend := none
    identities := block.identities.map (IdentityDocument.served C block.currency)
    joiners := block.joiners.filterMap (MembershipDocument.served C block.currency .in)
    actives := block.actives.filterMap (MembershipDocument.served C block.currency .in)
    leavers := block.leavers.filterMap (MembershipDocument.served C block.currency .out)
    transactions := docs.map fun doc => .txDoc (doc.served C "g1")
    innerHashAndNonceStr := Durs.innerHashAndNonceStr innerHash block.nonce }

end BlockDocument

theorem exists_documents {transactions : List TxDocOrTxHash} (h : ∀ tx ∈ transactions, tx.IsDoc) :
    ∃ docs : List TransactionDocument, transactions = docs.map .txDoc := by
  induction transactions with
  | nil => exact ⟨[], rfl⟩
  | cons tx transactions ih =>
      rw [List.forall_mem_cons] at h
      rcases ih h.2 with ⟨docs, rfl⟩
      cases tx with
      | txDoc doc => exact ⟨doc :: docs, rfl⟩
      | txHash hash => exact h.1.elim

theorem run_fromHexText_toHex (hash : Hash) :
    (Hash.fromHexText hash.toHex).run = .ok (some hash) := by
  rw [Hash.fromHexText_toHex]
  rfl

theorem asI64_ofInt {n : Int} (h : n < 2 ^ 63) : (Json.ofInt n).asI64 = some n := by
  cases n with
  | ofNat n =>
      refine if_pos ?_
      simpa using h
  | negSucc n => rfl

variable {block : BlockDocument}

theorem run_parseParameters (hempty : parseF64 [] = none)
    (h : ∀ params ∈ block.parameters, params.Printable parseF64 printF64) {source : Json}
    (hsource : source.get "parameters" =
      some (.string ((block.parameters.map (BlockV10Parameters.toText printF64)).getD ""))) :
    (parseParameters parseF64 source).run = .ok (some block.parameters) := by
  rw [parseParameters, hsource]
  refine run_bind_eq_some_iff.2 ⟨_, run_option_eq_some_iff.2 rfl, run_lift_eq_some_iff.2 ?_⟩
  cases hparams : block.parameters with
  | none => exact run_fromStr_empty hempty
  | some params => exact run_fromStr_toText (h params hparams)

theorem run_parseJsonBlock (hempty : parseF64 [] = none)
    (h : block.Complete C parseF64 printF64) {issuer : PubKey} (hissuer : block.issuers = [issuer])
    {sig : Sig} (hsig : block.signatures = [sig]) {hash innerHash : Hash}
    (hhash : block.hash = some hash) (hinner : block.innerHash = some innerHash)
    {docs : List TransactionDocument} (hdocs : block.transactions = docs.map .txDoc)
    (hnonce : block.nonce < 2 ^ 63)
    (htransactions : ∀ doc ∈ docs, doc.locktime < 2 ^ 63 ∧ doc.hash.isSome) :
    (parseJsonBlock C parseF64 ((block.stringified C printF64
        (docs.map (TransactionDocument.toStringObject C))).jsonWith
          (C.base58 issuer) (C.base64 sig))).run =
      .ok (some (block.served C innerHash docs)) := by
  have hreadIssuer : C.ReadsPubkey issuer := by
    rcases h.issuer with ⟨issuer', heq, hread⟩
    obtain rfl := List.singleton_injective (hissuer.symm.trans heq)
    exact hread
  have hreadSig : C.ReadsSig sig := by
    rcases h.signature with ⟨sig', heq, hread⟩
    obtain rfl := List.singleton_injective (hsig.symm.trans heq)
    exact hread
  set json := (block.stringified C printF64
    (docs.map (TransactionDocument.toStringObject C))).jsonWith (C.base58 issuer) (C.base64 sig)
    with hjson
  have hnumber : asU32 block.number = block.number := Nat.mod_eq_of_lt h.number
  have hhashText : json.str "hash" = some hash.toHex := by
    show (Json.ofOption (block.hash.map Hash.toHex)).asStr = _
    rw [Json.asStr_ofOption, hhash, Option.map_some]
  have hinnerText : json.str "inner_hash" = some innerHash.toHex := by
    show (Json.ofOption (block.innerHash.map Hash.toHex)).asStr = _
    rw [Json.asStr_ofOption, hinner, Option.map_some]
  have hpreviousHash : (parsePreviousHash (asU32 block.number) json).run =
      .ok (some block.previousHash) :=
    run_bind_eq_some_iff.2 ⟨_, run_option_eq_some_iff.2 rfl, run_fromHexText_toHex _⟩
  have hpreviousIssuer : parsePreviousIssuer C json = block.previousIssuer := by
    show (Json.ofOption (block.previousIssuer.map C.base58)).asStr.bind C.fromBase58 = _
    rw [Json.asStr_ofOption]
    cases hprevious : block.previousIssuer with
    | none => rfl
    | some previous => exact (h.previousIssuer previous hprevious).read
  have hnonceRead : json.i64 "nonce" = some (block.nonce : Int) := if_pos hnonce
  have hidentities : (((block.identities.map (IdentityDocument.toStringObject C)).map
      IdentityStringDocument.intoWs2pV1Json).mapM (parseCompactIdentity C block.currency)).run =
        .ok (some (block.identities.map (IdentityDocument.served C block.currency))) := by
    rw [List.map_map, List.mapM_map]
    exact run_mapM_eq_map fun doc hdoc => run_parseCompactIdentity (h.identities doc hdoc) _
  have hprintable : ∀ doc ∈ docs, doc.Printable C := by
    intro doc hdoc
    refine h.transactions doc ?_
    rw [hdocs]
    exact List.mem_map_of_mem hdoc
  have htransactionsRead : (((docs.map (TransactionDocument.toStringObject C)).map
      TransactionDocumentStringified.intoWs2pV1Json).mapM (parseTransaction C "g1")).run =
        .ok (some (docs.map (TransactionDocument.served C "g1"))) := by
    rw [List.map_map, List.mapM_map]
    exact run_mapM_eq_map fun doc hdoc => run_parseTransaction (hprintable doc hdoc) _
      (htransactions doc hdoc).1 (htransactions doc hdoc).2
  unfold parseJsonBlock
  refine run_bind_eq_some_iff.2 ⟨block.number, run_option_eq_some_iff.2 rfl, ?_⟩
  refine run_bind_eq_some_iff.2 ⟨block.currency, run_option_eq_some_iff.2 rfl, ?_⟩
  refine run_bind_eq_some_iff.2 ⟨_, run_option_eq_some_iff.2 rfl, ?_⟩
  refine run_bind_eq_some_iff.2 ⟨_, run_option_eq_some_iff.2 hreadIssuer.read, ?_⟩
  refine run_bind_eq_some_iff.2 ⟨_, run_option_eq_some_iff.2 rfl, ?_⟩
  refine run_bind_eq_some_iff.2 ⟨_, run_option_eq_some_iff.2 hreadSig.read, ?_⟩
  refine run_bind_eq_some_iff.2 ⟨_, run_option_eq_some_iff.2 hhashText, ?_⟩
  refine run_bind_eq_some_iff.2 ⟨_, run_fromHexText_toHex hash, ?_⟩
  refine run_bind_eq_some_iff.2 ⟨_, run_parseParameters hempty h.parameters rfl, ?_⟩
  refine run_bind_eq_some_iff.2 ⟨_, hpreviousHash, ?_⟩
  refine run_bind_eq_some_iff.2 ⟨_, run_option_eq_some_iff.2 hinnerText, ?_⟩
  refine run_bind_eq_some_iff.2 ⟨_, run_fromHexText_toHex innerHash, ?_⟩
  refine run_bind_eq_some_iff.2 ⟨.null, run_option_eq_some_iff.2 rfl, ?_⟩
  refine run_bind_eq_some_iff.2 ⟨_, run_option_eq_some_iff.2 rfl, ?_⟩
  refine run_bind_eq_some_iff.2 ⟨_, hidentities, ?_⟩
  refine run_bind_eq_some_iff.2 ⟨_, run_option_eq_some_iff.2 rfl, ?_⟩
  refine run_bind_eq_some_iff.2 ⟨_, run_parseMemberships h.joiners _ _, ?_⟩
  refine run_bind_eq_some_iff.2 ⟨_, run_option_eq_some_iff.2 rfl, ?_⟩
  refine run_bind_eq_some_iff.2 ⟨_, run_parseMemberships h.actives _ _, ?_⟩
  refine run_bind_eq_some_iff.2 ⟨_, run_option_eq_some_iff.2 rfl, ?_⟩
  refine run_bind_eq_some_iff.2 ⟨_, run_parseMemberships h.leavers _ _, ?_⟩
  refine run_bind_eq_some_iff.2 ⟨_, run_option_eq_some_iff.2 rfl, ?_⟩
  refine run_bind_eq_some_iff.2 ⟨_, run_option_eq_some_iff.2 rfl, ?_⟩
  refine run_bind_eq_some_iff.2 ⟨_, run_option_eq_some_iff.2 rfl, ?_⟩
  refine run_bind_eq_some_iff.2 ⟨_, htransactionsRead, ?_⟩
  refine run_bind_eq_some_iff.2 ⟨_, run_option_eq_some_iff.2 hnonceRead, ?_⟩
  refine run_bind_eq_some_iff.2 ⟨10, run_option_eq_some_iff.2 rfl, ?_⟩
  refine run_bind_eq_some_iff.2 ⟨block.powMin, run_option_eq_some_iff.2 rfl, ?_⟩
  refine run_bind_eq_some_iff.2 ⟨block.time, run_option_eq_some_iff.2 rfl, ?_⟩
  refine run_bind_eq_some_iff.2 ⟨block.medianTime, run_option_eq_some_iff.2 rfl, ?_⟩
  refine run_bind_eq_some_iff.2 ⟨block.membersCount, run_option_eq_some_iff.2 rfl, ?_⟩
  refine run_bind_eq_some_iff.2 ⟨block.monetaryMass, run_option_eq_some_iff.2 rfl, ?_⟩
  refine run_bind_eq_some_iff.2 ⟨block.unitBase, run_option_eq_some_iff.2 rfl, ?_⟩
  refine run_bind_eq_some_iff.2 ⟨block.issuersCount, run_option_eq_some_iff.2 rfl, ?_⟩
  refine run_bind_eq_some_iff.2
    ⟨_, run_option_eq_some_iff.2 (asI64_ofInt h.issuersFrame), ?_⟩
  refine run_bind_eq_some_iff.2
    ⟨_, run_option_eq_some_iff.2 (asI64_ofInt h.issuersFrameVar), ?_⟩
  refine run_bind_eq_some_iff.2
    ⟨_, run_lift_eq_some_iff.2 (parseRevocations_eq h.revoked), ?_⟩
  refine run_bind_eq_some_iff.2 ⟨_, run_option_eq_some_iff.2 rfl, ?_⟩
  refine run_bind_eq_some_iff.2
    ⟨_, run_lift_eq_some_iff.2 (parseExclusions_eq h.excluded), ?_⟩
  refine run_bind_eq_some_iff.2
    ⟨_, run_lift_eq_some_iff.2 (parseCertifications_eq h.certifications), ?_⟩
  refine run_bind_eq_some_iff.2 ⟨block.nonce, run_option_eq_some_iff.2 rfl, ?_⟩
  rw [run_pure_eq_some_iff, BlockDocument.served, asU64_of_lt hnonce, hnumber, hpreviousIssuer,
    List.map_map, ← hissuer, ← hsig, ← hhash, ← hinner]
  rfl

/-- A block that is read has a nonce that fits, and so have the locktimes of its transactions, each
of which holds its hash. -/
theorem of_parseJsonBlock {docs : List TransactionDocument} {issuer sig : String}
    {read : BlockDocument}
    (h : (parseJsonBlock C parseF64 ((block.stringified C printF64
      (docs.map (TransactionDocument.toStringObject C))).jsonWith issuer sig)).run =
        .ok (some read)) :
    block.nonce < 2 ^ 63 ∧ ∀ doc ∈ docs, doc.locktime < 2 ^ 63 ∧ doc.hash.isSome := by
  rw [parseJsonBlock] at h
  -- the fields before the list of the transactions
  iterate 23 rcases run_bind_eq_some_iff.1 h with ⟨_, -, h⟩
  rcases run_bind_eq_some_iff.1 h with ⟨elems, helems, h⟩
  rcases run_bind_eq_some_iff.1 h with ⟨transactions, htransactions, h⟩
  rcases run_bind_eq_some_iff.1 h with ⟨nonce, hnonce, -⟩
  constructor
  · exact lt_of_asI64_posInt (run_option_eq_some_iff.1 hnonce)
  · intro doc hdoc
    replace helems : some ((docs.map (TransactionDocument.toStringObject C)).map
        TransactionDocumentStringified.intoWs2pV1Json) = some elems :=
      run_option_eq_some_iff.1 helems
    obtain rfl := Option.some.inj helems
    have hmem : (doc.toStringObject C).intoWs2pV1Json ∈
        (docs.map (TransactionDocument.toStringObject C)).map
          TransactionDocumentStringified.intoWs2pV1Json :=
      List.mem_map_of_mem (List.mem_map_of_mem hdoc)
    rcases forall_of_run_mapM htransactions _ hmem with ⟨read, hread⟩
    exact of_parseTransaction hread

/-! ## Contents -/

namespace BlockDocument

/-- Whether nothing of the block is lost that its inner hash covers. -/
structure ServedWhole (block : BlockDocument) : Prop where
  version : block.version = 10
  dividend : ∀ dividend ∈ block.dividend, dividend = 0
  nonce : block.nonce < 2 ^ 63
  usernames : ∀ idty ∈ block.identities, ':' ∉ idty.username.toList
  joiners : ∀ ms ∈ block.joiners, ':' ∉ ms.identityUsername.toList
  actives : ∀ ms ∈ block.actives, ':' ∉ ms.identityUsername.toList
  leavers : ∀ ms ∈ block.leavers, ':' ∉ ms.identityUsername.toList
  transactions : ∀ doc, .txDoc doc ∈ block.transactions →
    doc.locktime < 2 ^ 63 ∧ doc.hash.isSome

/-- Whether the other block is the same one: it has its blockstamp and its inner text, and its
hashes are verified with the same result. -/
structure SameAs (block read : BlockDocument) : Prop where
  blockstamp : read.blockstamp = block.blockstamp
  innerText : read.generateCompactInnerText = block.generateCompactInnerText
  verifyInnerHash : ∀ K : Crypto, read.verifyInnerHash K = block.verifyInnerHash K
  verifyHash : ∀ K : Crypto, read.verifyHash K = block.verifyHash K

end BlockDocument

theorem served_line_eq_iff {idty : IdentityDocument} {currency : String} :
    (idty.served C currency).line = idty.line ↔ ':' ∉ idty.username.toList := by
  rw [← upToColon_eq_iff]
  constructor
  · intro h
    exact congrArg IdentityLine.username h
  · intro h
    show ({ idty.line with username := upToColon idty.username } : IdentityLine) = idty.line
    rw [h]
    rfl

theorem filterMap_served_lines_eq_iff {docs : List MembershipDocument} {currency : String}
    {membershipType : MembershipType} :
    (docs.filterMap (MembershipDocument.served C currency membershipType)).map
        MembershipDocument.line = docs.map MembershipDocument.line ↔
      ∀ ms ∈ docs, ':' ∉ ms.identityUsername.toList := by
  constructor
  · intro h ms hms hcolon
    have hlength := congrArg List.length h
    rw [List.length_map, List.length_map, List.filterMap_length_eq_length] at hlength
    have hsome := hlength ms hms
    rw [MembershipDocument.served, if_pos hcolon] at hsome
    cases hsome
  · intro h
    rw [List.map_filterMap, ← List.filterMap_eq_map]
    refine List.filterMap_congr fun ms hms => ?_
    rw [MembershipDocument.served, if_neg (h ms hms)]
    rfl

/-- The lines that are printed of a transaction. -/
def TxDocOrTxHash.printedLines : TxDocOrTxHash → Option TransactionLines
  | .txDoc doc => some doc.lines
  | .txHash _ => none

/-- The lines of the transactions that are read. -/
theorem filterMap_printedLines (docs : List TransactionDocument) (currency : String) :
    (docs.map fun doc => TxDocOrTxHash.txDoc (doc.served C currency)).filterMap
        TxDocOrTxHash.printedLines =
      (docs.map TxDocOrTxHash.txDoc).filterMap TxDocOrTxHash.printedLines := by
  rw [List.filterMap_map, List.filterMap_map]
  rfl

namespace BlockDocument

/-- The inner text of a complete block of an issuer. -/
def completeInnerText (block : BlockDocument) (issuer : PubKey) : InnerText where
  version := block.version
  currency := block.currency
  number := block.number
  powMin := block.powMin
  time := block.time
  medianTime := block.medianTime
  dividend := block.dividend.filter (· > 0)
  unitBase := block.unitBase
  issuer
  issuersFrame := block.issuersFrame
  issuersFrameVar := block.issuersFrameVar
  issuersCount := block.issuersCount
  parameters := block.parameters
  previous := if block.number > 0 then block.previousIssuer.map (block.previousHash, ·) else none
  membersCount := block.membersCount
  identities := block.identities.map IdentityDocument.line
  joiners := block.joiners.map MembershipDocument.line
  actives := block.actives.map MembershipDocument.line
  leavers := block.leavers.map MembershipDocument.line
  revoked := block.revoked
  excluded := block.excluded
  certifications := block.certifications
  transactions := block.transactions.filterMap TxDocOrTxHash.printedLines

theorem generateCompactInnerText_eq {issuer : PubKey} (hissuer : block.issuers = [issuer])
    (hprevious : 0 < block.number → block.previousIssuer.isSome) :
    block.generateCompactInnerText = .ok (block.completeInnerText issuer) := by
  rw [generateCompactInnerText, completeInnerText, hissuer]
  by_cases habove : block.number > 0
  case pos =>
    rcases Option.isSome_iff_exists.1 (hprevious habove) with ⟨previous, hprevious⟩
    rw [if_pos habove, if_pos habove, hprevious]
    rfl
  case neg =>
    rw [if_neg habove, if_neg habove]
    rfl

end BlockDocument

theorem filter_eq_none_iff {dividend : Option Nat} :
    dividend.filter (· > 0) = none ↔ ∀ amount ∈ dividend, amount = 0 := by
  rw [Option.filter_eq_none_iff]
  simp only [decide_eq_true_eq, Nat.not_lt, Nat.le_zero, Option.mem_def]

/-- The inner text of what is read is the one of the block exactly when nothing is lost that it
covers. -/
theorem served_innerText_eq_iff (h : block.Complete C parseF64 printF64) {innerHash : Hash}
    {docs : List TransactionDocument} (hdocs : block.transactions = docs.map .txDoc) :
    (block.served C innerHash docs).generateCompactInnerText = block.generateCompactInnerText ↔
      block.version = 10 ∧ (∀ dividend ∈ block.dividend, dividend = 0) ∧
        (∀ idty ∈ block.identities, ':' ∉ idty.username.toList) ∧
        (∀ ms ∈ block.joiners, ':' ∉ ms.identityUsername.toList) ∧
        (∀ ms ∈ block.actives, ':' ∉ ms.identityUsername.toList) ∧
        ∀ ms ∈ block.leavers, ':' ∉ ms.identityUsername.toList := by
  rcases h.issuer with ⟨issuer, hissuer, -⟩
  have hread : (block.served C innerHash docs).generateCompactInnerText =
      .ok ((block.served C innerHash docs).completeInnerText issuer) :=
    BlockDocument.generateCompactInnerText_eq hissuer h.previous
  have htransactions := filterMap_printedLines (C := C) docs "g1"
  have hidentities : (block.identities.map (IdentityDocument.served C block.currency)).map
      IdentityDocument.line = block.identities.map IdentityDocument.line ↔
      ∀ idty ∈ block.identities, ':' ∉ idty.username.toList := by
    rw [List.map_map, List.map_inj_left]
    exact forall₂_congr fun idty _ => served_line_eq_iff
  have hmemberships (docs : List MembershipDocument) (membershipType : MembershipType) :=
    @filterMap_served_lines_eq_iff C docs block.currency membershipType
  rw [hread, BlockDocument.generateCompactInnerText_eq hissuer h.previous, Except.ok.injEq,
    ← filter_eq_none_iff, ← hidentities, ← hmemberships block.joiners .in,
    ← hmemberships block.actives .in, ← hmemberships block.leavers .out]
  constructor
  · intro heq
    have hversion : 10 = block.version := congrArg InnerText.version heq
    have hdividend : none = block.dividend.filter (· > 0) := congrArg InnerText.dividend heq
    exact ⟨hversion.symm, hdividend.symm, congrArg InnerText.identities heq,
      congrArg InnerText.joiners heq, congrArg InnerText.actives heq,
      congrArg InnerText.leavers heq⟩
  · rintro ⟨hversion, hdividend, hidentities, hjoiners, hactives, hleavers⟩
    rw [BlockDocument.completeInnerText, BlockDocument.completeInnerText, hversion, hdividend,
      ← hidentities, ← hjoiners, ← hactives, ← hleavers, hdocs, ← htransactions]
    rfl

/-- A block of one issuer is served with its issuer and its signature. -/
theorem jsonWith_first {doc : BlockDocumentStringified} {issuer sig : String}
    (hissuer : doc.issuers = [issuer]) (hsig : doc.signatures = [sig]) :
    doc.intoWs2pV1Json = .ok (doc.jsonWith issuer sig) := by
  rw [BlockDocumentStringified.intoWs2pV1Json, hissuer, hsig]
  rfl

/-- A peer reads a complete block that is served as the same block exactly when nothing is lost of
it: its version is 10, it has no dividend, its nonce and the locktimes of its transactions are below
2^63, its transactions hold their hashes, and no username holds a colon. -/
theorem served_block_iff (hempty : parseF64 [] = none)
    (h : block.Complete C parseF64 printF64) :
    (∃ json read, block.intoWs2pV1Json C printF64 = .ok json ∧
      (parseJsonBlock C parseF64 json).run = .ok (some read) ∧ block.SameAs read) ↔
    block.ServedWhole := by
  rcases h.issuer with ⟨issuer, hissuer, -⟩
  rcases h.signature with ⟨sig, hsig, -⟩
  rcases Option.isSome_iff_exists.1 h.hash with ⟨hash, hhash⟩
  rcases Option.isSome_iff_exists.1 h.innerHash with ⟨innerHash, hinner⟩
  rcases exists_documents h.documents with ⟨docs, hdocs⟩
  have hjson : block.intoWs2pV1Json C printF64 = .ok ((block.stringified C printF64
      (docs.map (TransactionDocument.toStringObject C))).jsonWith
        (C.base58 issuer) (C.base64 sig)) := by
    have hstringified : block.transactions.mapM (TxDocOrTxHash.toStringObject C) =
        .ok (docs.map (TransactionDocument.toStringObject C)) := by
      rw [hdocs, List.mapM_map]
      exact mapM_eq_ok_map fun doc _ => rfl
    rw [BlockDocument.intoWs2pV1Json, BlockDocument.toStringObject, hstringified, ok_bind,
      pure_bind]
    exact jsonWith_first (congrArg (List.map C.base58) hissuer) (congrArg (List.map C.base64) hsig)
  have hmem (doc : TransactionDocument) : .txDoc doc ∈ block.transactions ↔ doc ∈ docs := by
    rw [hdocs]
    exact List.mem_map_of_injective fun _ _ => TxDocOrTxHash.txDoc.inj
  constructor
  · rintro ⟨json, read, hserved, hread, hsame⟩
    obtain rfl := Except.ok.inj (hjson.symm.trans hserved)
    rcases of_parseJsonBlock hread with ⟨hnonce, htransactions⟩
    have hread' := run_parseJsonBlock hempty h hissuer hsig hhash hinner hdocs hnonce
      htransactions
    obtain rfl := Option.some.inj (Except.ok.inj (hread.symm.trans hread'))
    rcases (served_innerText_eq_iff h hdocs).1 hsame.innerText with
      ⟨hversion, hdividend, husernames, hjoiners, hactives, hleavers⟩
    exact {
      version := hversion
      dividend := hdividend
      nonce := hnonce
      usernames := husernames
      joiners := hjoiners
      actives := hactives
      leavers := hleavers
      transactions := fun doc hdoc => htransactions doc ((hmem doc).1 hdoc) }
  · intro hwhole
    have htransactions (doc : TransactionDocument) (hdoc : doc ∈ docs) :=
      hwhole.transactions doc ((hmem doc).2 hdoc)
    have htext : (block.served C innerHash docs).generateCompactInnerText =
        block.generateCompactInnerText := (served_innerText_eq_iff h hdocs).2
      ⟨hwhole.version, hwhole.dividend, hwhole.usernames, hwhole.joiners, hwhole.actives,
        hwhole.leavers⟩
    refine ⟨_, _, hjson, run_parseJsonBlock hempty h hissuer hsig hhash hinner hdocs hwhole.nonce
      htransactions, ?_⟩
    exact {
      blockstamp := rfl
      innerText := htext
      verifyInnerHash := fun K => by
        show BlockDocument.verifyInnerHash K (block.served C innerHash docs) = _
        rw [BlockDocument.verifyInnerHash, BlockDocument.verifyInnerHash, htext]
        rfl
      verifyHash := fun K => rfl }

/-- A transaction of one input and one output. -/
def servedTransaction : TransactionDocument where
  text := none
  currency := "g1"
  blockstamp := ⟨1, 6⟩
  locktime := 0
  issuers := [exampleKeyPair.pubkey]
  inputs := [.T 10 0 8 0]
  unlocks := [⟨0, [.sig 0]⟩]
  outputs := [⟨10, 0, ⟨some "CSV(1)", .single (.csv 1)⟩⟩]
  comment := "gift: 10"
  signatures := [exampleSig]
  hash := some 9

/-- A block with an identity, its membership and a transaction. -/
def servedBlock : BlockDocument :=
  { genEmptyTimedBlock ⟨2, 5⟩ 100 7 with
    nonce := 12
    currency := "g1"
    issuers := [exampleKeyPair.pubkey]
    signatures := [exampleSig]
    previousIssuer := some exampleKeyPair.pubkey
    innerHash := some 3
    dividend := some 0
    identities := [exampleIdentity]
    joiners := [{
      text := none
      currency := "g1"
      issuer := exampleKeyPair.pubkey
      blockstamp := ⟨1, 6⟩
      membership := .in
      identityUsername := "tic"
      identityBlockstamp := default
      signature := exampleSig }]
    excluded := [exampleKeyPair.pubkey]
    transactions := [.txDoc servedTransaction] }

theorem readsPubkey_example : exampleCrypto.ReadsPubkey exampleKeyPair.pubkey := by
  have hchars : exampleKeyText.toList.all Char.isAlphanum := by decide +kernel
  exact ⟨fromBase58_exampleKeyText, List.all_eq_true.1 hchars⟩

theorem readsSig_example : exampleCrypto.ReadsSig exampleSig := by
  refine ⟨?_, ⟨_, rfl, rfl⟩⟩
  unfold exampleCrypto
  simp only [if_true]

theorem printable_servedTransaction : servedTransaction.Printable exampleCrypto where
  blockstamp := by decide
  issuers := List.forall_mem_singleton.2 readsPubkey_example
  inputs := List.forall_mem_singleton.2 (by decide +kernel)
  unlocks := List.forall_mem_singleton.2 (by decide +kernel)
  outputs := List.forall_mem_singleton.2 (by decide +kernel)
  signatures := List.forall_mem_singleton.2 readsSig_example

theorem complete_servedBlock :
    servedBlock.Complete exampleCrypto (fun _ => none) (fun _ => "") where
  number := by decide
  issuersFrame := by decide
  issuersFrameVar := by decide
  issuer := ⟨_, rfl, readsPubkey_example⟩
  signature := ⟨_, rfl, readsSig_example⟩
  hash := rfl
  innerHash := rfl
  parameters := by
    intro params hparams
    cases hparams
  previousIssuer := by
    intro issuer hissuer
    obtain rfl := Option.some.inj hissuer
    exact readsPubkey_example
  previous := fun _ => rfl
  identities := List.forall_mem_singleton.2 ⟨readsPubkey_example, readsSig_example, by decide⟩
  joiners := List.forall_mem_singleton.2
    ⟨readsPubkey_example, readsSig_example, by decide, by decide⟩
  actives := List.forall_mem_nil _
  leavers := List.forall_mem_nil _
  revoked := List.forall_mem_nil _
  excluded := List.forall_mem_singleton.2 readsPubkey_example
  certifications := List.forall_mem_nil _
  documents := List.forall_mem_singleton.2 trivial
  transactions := by
    intro doc hdoc
    obtain rfl := TxDocOrTxHash.txDoc.inj (List.mem_singleton.1 hdoc)
    exact printable_servedTransaction

theorem served_block_example :
    ∃ json read, servedBlock.intoWs2pV1Json exampleCrypto (fun _ => "") = .ok json ∧
      (parseJsonBlock exampleCrypto (fun _ => none) json).run = .ok (some read) ∧
      servedBlock.SameAs read := by
  refine (served_block_iff rfl complete_servedBlock).2 {
    version := rfl
    dividend := ?_
    nonce := by decide
    usernames := List.forall_mem_singleton.2 (by decide)
    joiners := List.forall_mem_singleton.2 (by decide)
    actives := List.forall_mem_nil _
    leavers := List.forall_mem_nil _
    transactions := ?_ }
  · intro dividend hdividend
    exact (Option.some.inj hdividend).symm
  · intro doc hdoc
    obtain rfl := TxDocOrTxHash.txDoc.inj (List.mem_singleton.1 hdoc)
    exact ⟨by decide, rfl⟩

end Durs
