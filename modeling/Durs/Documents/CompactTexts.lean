/-
# Compact documents

The texts of identities, memberships, certifications and revocations in a block, and what the
parsers of a block build from them.  A block holds neither the text nor the currency of a document,
and a membership holds no type there: they are taken from elsewhere.
-/

import Durs.Documents.Conversions
import Durs.Documents.PartTexts

namespace Durs

open RustStd Lib Lib.Peg

variable (C : DocCrypto)

/-! ## Compact forms -/

/-- The compact form of an identity. -/
structure CompactIdentityDocument where
  username : String
  blockstamp : Blockstamp
  pubkey : PubKey
  signature : Sig
deriving DecidableEq, Repr

def CompactIdentityDocument.asCompactText (doc : CompactIdentityDocument) : String :=
  C.base58 doc.pubkey ++ ":" ++ C.base64 doc.signature ++ ":" ++ doc.blockstamp.toText ++ ":" ++
    doc.username

def IdentityDocument.toCompactDocument (doc : IdentityDocument) : CompactIdentityDocument where
  username := doc.username
  blockstamp := doc.blockstamp
  pubkey := doc.issuer
  signature := doc.signature

/-- A membership is its own compact form. -/
def MembershipDocument.asCompactText (doc : MembershipDocument) : String :=
  C.base58 doc.issuer ++ ":" ++ C.base64 doc.signature ++ ":" ++ doc.blockstamp.toText ++ ":" ++
    doc.identityBlockstamp.toText ++ ":" ++ doc.identityUsername

def CompactCertificationDocument.asCompactText (doc : CompactCertificationDocument) : String :=
  C.base58 doc.issuer ++ ":" ++ C.base58 doc.target ++ ":" ++ toString doc.blockNumber ++ ":" ++
    C.base64 doc.signature

def CertificationDocument.toCompactDocument (doc : CertificationDocument) :
    CompactCertificationDocument where
  issuer := doc.issuer
  target := doc.target
  blockNumber := doc.blockstamp.id
  signature := doc.signature

def CompactRevocationDocument.asCompactText (doc : CompactRevocationDocument) : String :=
  C.base58 doc.issuer ++ ":" ++ C.base64 doc.signature

def RevocationDocument.toCompactDocument (doc : RevocationDocument) :
    CompactRevocationDocument where
  issuer := doc.issuer
  signature := doc.signature

/-! ## Parsers -/

/-- Parse a compact identity: its parts are indexed without a look at how many there are. -/
def readCompactIdentity (currency strIdentity : String) : OptionT Run IdentityDocument := do
  let idtyElements := split ':' strIdentity
  let issuer ← OptionT.lift (indexVec idtyElements 0)
  let issuer ← C.fromBase58 issuer
  let signature ← OptionT.lift (indexVec idtyElements 1)
  let signature ← C.fromBase64 signature
  let blockstamp ← OptionT.lift (indexVec idtyElements 2)
  let blockstamp ← Blockstamp.fromString blockstamp
  let username ← OptionT.lift (indexVec idtyElements 3)
  let builder : IdentityDocumentBuilder := { currency, username, blockstamp, issuer }
  return builder.buildWithSignature C signature

/-- `parse_compact_identities`. -/
def parseCompactIdentities (currency : String) (strIdentities : List String) :
    OptionT Run (List IdentityDocument) :=
  strIdentities.mapM (readCompactIdentity C currency)

/-- Parse a compact membership, of five parts. -/
def readCompactMembership (currency : String) (membershipType : MembershipType)
    (membership : String) : OptionT Run MembershipDocument :=
  match split ':' membership with
  | [issuer, signature, blockstamp, identityBlockstamp, username] => do
      let issuer ← C.fromBase58 issuer
      let blockstamp ← Blockstamp.fromString blockstamp
      let identityBlockstamp ← Blockstamp.fromString identityBlockstamp
      let builder : MembershipDocumentBuilder :=
        { currency, issuer, blockstamp, membership := membershipType,
          identityUsername := username, identityBlockstamp }
      let signature ← C.fromBase64 signature
      return builder.buildWithSignature C signature
  | _ => failure

/-- `parse_compact_memberships`. -/
def parseCompactMemberships (currency : String) (membershipType : MembershipType)
    (arrayMemberships : List String) : OptionT Run (List MembershipDocument) :=
  arrayMemberships.mapM (readCompactMembership C currency membershipType)

variable {C}

/-! ## Texts that are split -/

/-- A text of parts without the character that separates them is split into these parts. -/
theorem split_intercalate {sep : Char} {parts : List String}
    (h : ∀ part ∈ parts, sep ∉ part.toList) (hne : parts ≠ []) {text : String}
    (htext : text.toList = [sep].intercalate (parts.map String.toList)) :
    split sep text = parts := by
  have hparts : ∀ part ∈ parts.map String.toList, sep ∉ part := by
    simpa only [List.forall_mem_map] using h
  rw [split, htext, List.splitOn_intercalate sep hparts (by simpa using hne), List.map_map]
  exact (List.map_congr_left fun part _ => String.ofList_toList).trans (List.map_id _)

/-! ## Blockstamps -/

theorem hexBytes_map_hexDigit {digits : List Nat} (h : ∀ digit ∈ digits, digit < 16) {count : Nat}
    (hlength : digits.length = 2 * count) :
    hexBytes count (digits.map hexDigit) = (return digits : OptionT Run (List Nat)) := by
  induction count generalizing digits with
  | zero =>
      obtain rfl := List.eq_nil_of_length_eq_zero hlength
      rfl
  | succ count ih =>
      rcases digits with _ | ⟨digit, _ | ⟨digit', digits⟩⟩
      · cases hlength
      · simp at hlength
        omega
      · simp only [List.forall_mem_cons] at h
        have hrest : digits.length = 2 * count := by
          simp only [List.length_cons] at hlength
          omega
        rw [List.map_cons, List.map_cons, hexBytes, hexValue_hexDigit _ h.1,
          hexValue_hexDigit _ h.2.1, ih h.2.2 hrest]
        rfl

theorem Hash.fromHexText_toHex (hash : Hash) :
    Hash.fromHexText hash.toHex = (return hash : OptionT Run Hash) := by
  have hlength : hash.digits.length = 2 * 32 := by
    rw [Hash.digits, List.length_map, List.length_range]
  have hbytes : byteLen hash.toHex.toList = 64 := by
    rw [Hash.toList_toHex, byteLen_of_digits, List.length_map, hlength]
    rw [List.all_map, List.all_eq_true]
    intro digit hdigit
    rw [Function.comp_apply, hexValue_hexDigit _ (hash.digits_lt _ hdigit)]
    rfl
  rw [Hash.fromHexText, if_neg (not_not.2 hbytes), Hash.toList_toHex,
    hexBytes_map_hexDigit hash.digits_lt hlength]
  exact congrArg (fun hash => (pure hash : OptionT Run Hash)) hash.ofNat_digits

theorem not_mem_toHex {c : Char} (hc : isHexaUpper c = false) (hash : Hash) :
    c ∉ hash.toHex.toList := by
  rw [Hash.toList_toHex]
  intro hmem
  rcases List.mem_map.1 hmem with ⟨digit, hdigit, rfl⟩
  rw [isHexaUpper_hexDigit _ (hash.digits_lt _ hdigit)] at hc
  cases hc

theorem not_mem_toString {c : Char} (hc : c.isDigit = false) (n : Nat) :
    c ∉ (toString n).toList := by
  intro hmem
  rw [isDigit_of_mem_toString hmem] at hc
  cases hc

theorem Blockstamp.fromString_toText {blockstamp : Blockstamp} (h : blockstamp.id < 2 ^ 32) :
    Blockstamp.fromString blockstamp.toText = (return blockstamp : OptionT Run Blockstamp) := by
  have hsplit : split '-' blockstamp.toText =
      [toString blockstamp.id, blockstamp.hash.toHex] := by
    refine split_intercalate ?_ (List.cons_ne_nil _ _) ?_
    · exact List.forall_mem_cons.2 ⟨not_mem_toString (by decide) _,
        List.forall_mem_singleton.2 (not_mem_toHex (by decide) _)⟩
    · simp [Blockstamp.toText, List.intercalate_cons_cons]
  rw [Blockstamp.fromString, hsplit]
  simp only [Hash.fromHexText_toHex, parseUnsigned_toString h]
  rfl

theorem colon_not_mem_toText (blockstamp : Blockstamp) : ':' ∉ blockstamp.toText.toList := by
  simp only [Blockstamp.toText, String.toList_append, List.mem_append, not_or]
  exact ⟨⟨not_mem_toString (by decide) _, by decide⟩, not_mem_toHex (by decide) _⟩

/-! ## Fields -/

theorem MatchesWhole.lang {e : Expr Rule} {source : String} (h : MatchesWhole e source) :
    ∃ pairs, e.lang source.toList pairs := by
  rcases h with ⟨m, hm, hrest⟩
  rcases e.sound hm with ⟨hsplit, hlang⟩
  rw [hrest, List.append_nil] at hsplit
  exact ⟨m.pairs, hsplit ▸ hlang⟩

variable (C) in
/-- A public key with a base58 text that is read as the key. -/
structure DocCrypto.ReadsPubkey (key : PubKey) : Prop where
  read : C.fromBase58 (C.base58 key) = some key
  chars : ∀ c ∈ (C.base58 key).toList, c.isAlphanum = true

variable (C) in
/-- A signature with a base64 text that the grammar accepts, and that is read as the signature. -/
structure DocCrypto.ReadsSig (sig : Sig) : Prop where
  read : C.fromBase64 (C.base64 sig) = some sig
  accepted : MatchesWhole Grammar.ed25519Sig (C.base64 sig)

theorem DocCrypto.ReadsPubkey.colon_not_mem {key : PubKey} (h : C.ReadsPubkey key) :
    ':' ∉ (C.base58 key).toList := by
  intro hmem
  have hchar := h.chars _ hmem
  revert hchar
  decide

theorem DocCrypto.ReadsSig.colon_not_mem {sig : Sig} (h : C.ReadsSig sig) :
    ':' ∉ (C.base64 sig).toList := by
  intro hmem
  rcases h.accepted.lang with ⟨pairs, hlang⟩
  have hchar := (Grammar.of_lang_sig hlang).1.2 _ hmem
  revert hchar
  decide

theorem colon_not_mem_of_uid {username : String} (h : MatchesWhole Grammar.uid username) :
    ':' ∉ username.toList := by
  rcases h.lang with ⟨pairs, ⟨inner, first, _, others, _, ⟨c, hc, rfl, -⟩, ⟨count, -, hothers⟩,
    htext, -⟩, -⟩
  have hchars : others.length = count ∧
      ∀ c ∈ others, (c.isAlphanum || c = '-' || c = '_') = true := by
    refine Expr.RepLang.chars (fun text pairs hchar => ?_) hothers
    rcases hchar with ⟨c, hc, rfl, -⟩ | ⟨rfl, -⟩ | ⟨rfl, -⟩
    · exact ⟨c, by rw [hc]; rfl, rfl⟩
    · exact ⟨'-', by decide, rfl⟩
    · exact ⟨'_', by decide, rfl⟩
  rw [htext]
  intro hmem
  rcases List.mem_cons.1 hmem with rfl | hmem
  · revert hc
    decide
  · have hchar := hchars.2 _ hmem
    revert hchar
    decide

/-! ## Documents -/

variable (C) in
/-- An identity with fields that the grammar accepts. -/
structure IdentityDocument.Accepted (doc : IdentityDocument) : Prop where
  issuer : C.ReadsPubkey doc.issuer
  signature : C.ReadsSig doc.signature
  blockstamp : doc.blockstamp.id < 2 ^ 32
  username : MatchesWhole Grammar.uid doc.username

variable (C) in
/-- A membership with fields that the grammar accepts. -/
structure MembershipDocument.Accepted (doc : MembershipDocument) : Prop where
  issuer : C.ReadsPubkey doc.issuer
  signature : C.ReadsSig doc.signature
  blockstamp : doc.blockstamp.id < 2 ^ 32
  identityBlockstamp : doc.identityBlockstamp.id < 2 ^ 32
  identityUsername : MatchesWhole Grammar.uid doc.identityUsername

variable (C) in
/-- A certification with fields that the grammar accepts. -/
structure CertificationDocument.Accepted (doc : CertificationDocument) : Prop where
  issuer : C.ReadsPubkey doc.issuer
  target : C.ReadsPubkey doc.target
  signature : C.ReadsSig doc.signature
  blockstamp : doc.blockstamp.id < 2 ^ 32

variable (C) in
/-- A revocation with fields that the grammar accepts. -/
structure RevocationDocument.Accepted (doc : RevocationDocument) : Prop where
  issuer : C.ReadsPubkey doc.issuer
  signature : C.ReadsSig doc.signature

/-- What is read from a blockstamp that is printed. -/
theorem run_fromString_toText {blockstamp : Blockstamp} (h : blockstamp.id < 2 ^ 32) :
    (Blockstamp.fromString blockstamp.toText).run = .ok (some blockstamp) := by
  rw [Blockstamp.fromString_toText h]
  rfl

theorem run_readCompactIdentity {doc : IdentityDocument} (h : doc.Accepted C) :
    (readCompactIdentity C doc.currency (doc.toCompactDocument.asCompactText C)).run =
      .ok (some (doc.builder.buildWithSignature C doc.signature)) := by
  have hsplit : split ':' (doc.toCompactDocument.asCompactText C) =
      [C.base58 doc.issuer, C.base64 doc.signature, doc.blockstamp.toText, doc.username] := by
    refine split_intercalate ?_ (List.cons_ne_nil _ _) ?_
    · simp only [List.forall_mem_cons, List.not_mem_nil, false_imp_iff, implies_true, and_true]
      exact ⟨h.issuer.colon_not_mem, h.signature.colon_not_mem, colon_not_mem_toText _,
        colon_not_mem_of_uid h.username⟩
    · simp [CompactIdentityDocument.asCompactText, IdentityDocument.toCompactDocument,
        List.intercalate_cons_cons]
  rw [readCompactIdentity, hsplit]
  refine run_bind_eq_some_iff.2 ⟨_, run_lift_eq_some_iff.2 rfl, ?_⟩
  refine run_bind_eq_some_iff.2 ⟨_, run_option_eq_some_iff.2 h.issuer.read, ?_⟩
  refine run_bind_eq_some_iff.2 ⟨_, run_lift_eq_some_iff.2 rfl, ?_⟩
  refine run_bind_eq_some_iff.2 ⟨_, run_option_eq_some_iff.2 h.signature.read, ?_⟩
  refine run_bind_eq_some_iff.2 ⟨_, run_lift_eq_some_iff.2 rfl, ?_⟩
  refine run_bind_eq_some_iff.2 ⟨_, run_fromString_toText h.blockstamp, ?_⟩
  exact run_bind_eq_some_iff.2 ⟨_, run_lift_eq_some_iff.2 rfl, rfl⟩

theorem run_readCompactMembership {doc : MembershipDocument} (h : doc.Accepted C)
    (membershipType : MembershipType) :
    (readCompactMembership C doc.currency membershipType (doc.asCompactText C)).run =
      .ok (some (({ doc with membership := membershipType } : MembershipDocument).builder
        |>.buildWithSignature C doc.signature)) := by
  have hsplit : split ':' (doc.asCompactText C) = [C.base58 doc.issuer, C.base64 doc.signature,
      doc.blockstamp.toText, doc.identityBlockstamp.toText, doc.identityUsername] := by
    refine split_intercalate ?_ (List.cons_ne_nil _ _) ?_
    · simp only [List.forall_mem_cons, List.not_mem_nil, false_imp_iff, implies_true, and_true]
      exact ⟨h.issuer.colon_not_mem, h.signature.colon_not_mem, colon_not_mem_toText _,
        colon_not_mem_toText _, colon_not_mem_of_uid h.identityUsername⟩
    · simp [MembershipDocument.asCompactText, List.intercalate_cons_cons]
  rw [readCompactMembership, hsplit]
  refine run_bind_eq_some_iff.2 ⟨_, run_option_eq_some_iff.2 h.issuer.read, ?_⟩
  refine run_bind_eq_some_iff.2 ⟨_, run_fromString_toText h.blockstamp, ?_⟩
  refine run_bind_eq_some_iff.2 ⟨_, run_fromString_toText h.identityBlockstamp, ?_⟩
  exact run_bind_eq_some_iff.2 ⟨_, run_option_eq_some_iff.2 h.signature.read, rfl⟩

theorem parseCompactCertification_asCompactText {doc : CertificationDocument}
    (h : doc.Accepted C) :
    parseCompactCertification C (doc.toCompactDocument.asCompactText C) =
      .ok (some doc.toCompactDocument) := by
  have hsplit : split ':' (doc.toCompactDocument.asCompactText C) = [C.base58 doc.issuer,
      C.base58 doc.target, toString doc.blockstamp.id, C.base64 doc.signature] := by
    refine split_intercalate ?_ (List.cons_ne_nil _ _) ?_
    · simp only [List.forall_mem_cons, List.not_mem_nil, false_imp_iff, implies_true, and_true]
      exact ⟨h.issuer.colon_not_mem, h.target.colon_not_mem, not_mem_toString (by decide) _,
        h.signature.colon_not_mem⟩
    · simp [CompactCertificationDocument.asCompactText, CertificationDocument.toCompactDocument,
        List.intercalate_cons_cons]
  rw [parseCompactCertification, hsplit]
  simp only [h.issuer.read, h.target.read, parseUnsigned_toString h.blockstamp,
    h.signature.read, expect]
  rfl

theorem parseCompactRevocation_asCompactText {doc : RevocationDocument} (h : doc.Accepted C) :
    parseCompactRevocation C (doc.toCompactDocument.asCompactText C) =
      .ok (some doc.toCompactDocument) := by
  have hsplit : split ':' (doc.toCompactDocument.asCompactText C) =
      [C.base58 doc.issuer, C.base64 doc.signature] := by
    refine split_intercalate ?_ (List.cons_ne_nil _ _) ?_
    · exact List.forall_mem_cons.2 ⟨h.issuer.colon_not_mem,
        List.forall_mem_singleton.2 h.signature.colon_not_mem⟩
    · simp [CompactRevocationDocument.asCompactText, RevocationDocument.toCompactDocument,
        List.intercalate_cons_cons]
  rw [parseCompactRevocation, hsplit]
  simp only [h.issuer.read, h.signature.read, expect]
  rfl

/-! ## Lists of documents -/

/-- Whether the parsers of a block read the compact texts of documents of a currency: in their
order, each with the fields of its document.  Nothing but the text of an identity is lost; the type
of a membership is the one given to the parser. -/
structure ReadsCompactTexts (C : DocCrypto) (currency : String) : Prop where
  identities : ∀ docs : List IdentityDocument,
    (∀ doc ∈ docs, doc.currency = currency ∧ doc.Accepted C) →
    ∃ docs', (parseCompactIdentities C currency
        (docs.map fun doc => doc.toCompactDocument.asCompactText C)).run = .ok (some docs') ∧
      docs'.map IdentityDocument.toCompactDocument =
        docs.map IdentityDocument.toCompactDocument ∧
      docs'.map IdentityDocument.reduce = docs.map IdentityDocument.reduce
  memberships : ∀ (docs : List MembershipDocument) (membershipType : MembershipType),
    (∀ doc ∈ docs, doc.currency = currency ∧ doc.Accepted C) →
    ∃ docs', (parseCompactMemberships C currency membershipType
        (docs.map fun doc => doc.asCompactText C)).run = .ok (some docs') ∧
      docs'.map MembershipDocument.reduce =
        docs.map fun doc => { doc.reduce with membership := membershipType }
  certifications : ∀ docs : List CertificationDocument,
    (∀ doc ∈ docs, doc.currency = currency ∧ doc.Accepted C) →
    parseCertificationsIntoCompact C
        (docs.map fun doc => doc.toCompactDocument.asCompactText C) =
      .ok (docs.map CertificationDocument.toCompactDocument)
  revocations : ∀ docs : List RevocationDocument,
    (∀ doc ∈ docs, doc.currency = currency ∧ doc.Accepted C) →
    parseRevocationsIntoCompact C
        (docs.map fun doc => doc.toCompactDocument.asCompactText C) =
      .ok (docs.map RevocationDocument.toCompactDocument)

/-- A parser that leaves out some texts leaves out none of those that are read. -/
theorem mapM_filterMap_id {α β γ : Type} {parse : β → Run (Option γ)} {print : α → β}
    {compact : α → γ} {docs : List α}
    (h : ∀ doc ∈ docs, parse (print doc) = .ok (some (compact doc))) :
    (do let parsed ← (docs.map print).mapM parse; return parsed.filterMap id) =
      .ok (docs.map compact) := by
  have hread : docs.mapM (parse ∘ print) = .ok (docs.map fun doc => some (compact doc)) :=
    mapM_eq_ok_map h
  rw [List.mapM_map, hread, ok_bind, List.filterMap_map]
  exact congrArg (fun f => Except.ok (f docs)) List.filterMap_eq_map

theorem readsCompactTexts (C : DocCrypto) (currency : String) :
    ReadsCompactTexts C currency where
  identities docs h := by
    refine ⟨docs.map fun doc => doc.builder.buildWithSignature C doc.signature, ?_, ?_, ?_⟩
    · rw [parseCompactIdentities, List.mapM_map]
      refine run_mapM_eq_map fun doc hdoc => ?_
      rcases h doc hdoc with ⟨rfl, haccepted⟩
      exact run_readCompactIdentity haccepted
    · rw [List.map_map]
      rfl
    · rw [List.map_map]
      rfl
  memberships docs membershipType h := by
    refine ⟨docs.map fun doc => ({ doc with membership := membershipType } :
      MembershipDocument).builder.buildWithSignature C doc.signature, ?_, ?_⟩
    · rw [parseCompactMemberships, List.mapM_map]
      refine run_mapM_eq_map fun doc hdoc => ?_
      rcases h doc hdoc with ⟨rfl, haccepted⟩
      rw [Function.comp_apply]
      exact run_readCompactMembership haccepted membershipType
    · rw [List.map_map]
      rfl
  certifications docs h :=
    mapM_filterMap_id fun doc hdoc => parseCompactCertification_asCompactText (h doc hdoc).2
  revocations docs h :=
    mapM_filterMap_id fun doc hdoc => parseCompactRevocation_asCompactText (h doc hdoc).2

/-- An identity of the first block. -/
def exampleIdentity : IdentityDocument where
  text := none
  currency := "g1"
  username := "tic"
  blockstamp := default
  issuer := exampleKeyPair.pubkey
  signature := exampleSig

theorem readsCompactTexts_exampleIdentity :
    ∃ docs', (parseCompactIdentities exampleCrypto "g1"
        [exampleIdentity.toCompactDocument.asCompactText exampleCrypto]).run = .ok (some docs') ∧
      docs'.map IdentityDocument.toCompactDocument = [exampleIdentity.toCompactDocument] ∧
      docs'.map IdentityDocument.reduce = [exampleIdentity.reduce] := by
  have hchars : exampleKeyText.toList.all Char.isAlphanum := by decide +kernel
  have hsig : MatchesWhole Grammar.ed25519Sig exampleSigText := ⟨_, rfl, rfl⟩
  have hread : exampleCrypto.fromBase64 exampleSigText = some exampleSig := by
    unfold exampleCrypto
    simp only [if_true]
  have haccepted : exampleIdentity.Accepted exampleCrypto := {
    issuer := ⟨fromBase58_exampleKeyText, List.all_eq_true.1 hchars⟩
    signature := ⟨hread, hsig⟩
    blockstamp := by decide
    username := ⟨_, rfl, rfl⟩ }
  exact (readsCompactTexts exampleCrypto "g1").identities [exampleIdentity]
    (List.forall_mem_singleton.2 ⟨rfl, haccepted⟩)

end Durs
