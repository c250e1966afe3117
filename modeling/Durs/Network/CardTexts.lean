/-
# Printed heads and peer cards

The signed text of a head of version 3 and of a peer card.  The identifier of the node is printed in
hexadecimal and read in decimal, so it is read back exactly when it is a single decimal digit; the
step of a head is not part of the text.
-/

import Durs.Documents.ConditionTexts
import Durs.Network.EndpointTexts

namespace Durs.Network

open RustStd Lib.Peg Lib.Peg.Expr
open Durs.Grammar (IsKey isBase58)

variable {C : DocCrypto} {text rest : List Char}

/-! ## Node identifiers -/

/-- `Display for NodeId`: in hexadecimal. -/
def nodeIdText (nodeId : NodeId) : List Char := Nat.toDigits 16 nodeId

/-- Decimal digits write less in decimal than they do in hexadecimal. -/
theorem ofDigitChars_toDigits_le (n : Nat) (h : ∀ c ∈ Nat.toDigits 16 n, c.isDigit = true) :
    Nat.ofDigitChars 10 (Nat.toDigits 16 n) 0 ≤ n ∧
      (10 ≤ n → Nat.ofDigitChars 10 (Nat.toDigits 16 n) 0 < n) := by
  have hletter : ∀ d < 16, (Nat.digitChar d).isDigit = true → d < 10 := by decide
  have hvalue : ∀ d < 10, (Nat.digitChar d).toNat - 48 = d := by decide
  induction n using Nat.strongRecOn with
  | ind n ih =>
      rcases Nat.lt_or_ge n 16 with hlt | hge
      · rw [Nat.toDigits_of_lt_base hlt] at h ⊢
        have hdigit := hletter n hlt (h _ List.mem_cons_self)
        have hread : Nat.ofDigitChars 10 [Nat.digitChar n] 0 = n := by
          rw [Nat.ofDigitChars_cons, Nat.ofDigitChars_nil]
          show 10 * 0 + ((Nat.digitChar n).toNat - 48) = n
          rw [hvalue n hdigit]
          omega
        rw [hread]
        exact ⟨Nat.le_refl n, fun hge => by omega⟩
      · have hlast : n % 16 < 16 := Nat.mod_lt _ (by decide)
        have happend := Nat.toDigits_append_toDigits (b := 16) (by decide)
          (Nat.div_pos hge (by decide)) hlast
        rw [Nat.div_add_mod, Nat.toDigits_of_lt_base hlast] at happend
        rw [← happend] at h ⊢
        have hquotient := (ih (n / 16) (Nat.div_lt_self (by omega) (by decide))
          fun c hc => h c (List.mem_append_left _ hc)).1
        have hdigit := hletter _ hlast (h _ (List.mem_append_right _ List.mem_cons_self))
        have hread : Nat.ofDigitChars 10 (Nat.toDigits 16 (n / 16) ++ [Nat.digitChar (n % 16)]) 0 =
            10 * Nat.ofDigitChars 10 (Nat.toDigits 16 (n / 16)) 0 + n % 16 := by
          rw [Nat.ofDigitChars_append, Nat.ofDigitChars_cons, Nat.ofDigitChars_nil]
          show 10 * _ + ((Nat.digitChar (n % 16)).toNat - 48) = _
          rw [hvalue _ hdigit]
        rw [hread]
        exact ⟨by omega, fun _ => by omega⟩

/-- A node identifier is read back from its text exactly when it is a decimal digit. -/
theorem parseUnsigned_nodeIdText_iff (nodeId : NodeId) :
    parseUnsigned 32 (nodeIdText nodeId) = some nodeId ↔ nodeId < 10 := by
  have hnoSign : ∀ digits, nodeIdText nodeId ≠ '+' :: digits := by
    intro digits heq
    have hplus := (isSegmentText_segmentText nodeId).digits '+'
      (show '+' ∈ nodeIdText nodeId from heq ▸ List.mem_cons_self)
    revert hplus
    decide
  have hread : parseUnsigned 32 (nodeIdText nodeId) =
      (digitsValue (nodeIdText nodeId)).filter (· < 2 ^ 32) := by
    rw [parseUnsigned]
    exact hnoSign
  rw [hread, Option.filter_eq_some_iff, digitsValue]
  constructor
  · rintro ⟨hvalue, -⟩
    split at hvalue
    case isTrue hdigits =>
      refine Nat.lt_of_not_le fun hge => ?_
      have hlt := (ofDigitChars_toDigits_le nodeId (List.all_eq_true.1 hdigits.2)).2 hge
      exact absurd (Option.some.inj hvalue) (Nat.ne_of_lt hlt)
    case isFalse => cases hvalue
  · intro hlt
    have hall : ∀ n < 10, (if Nat.toDigits 16 n ≠ [] ∧ (Nat.toDigits 16 n).all Char.isDigit then
        some (Nat.ofDigitChars 10 (Nat.toDigits 16 n) 0) else none) = some n := by
      decide +kernel
    exact ⟨hall nodeId hlt, decide_eq_true (Nat.lt_trans hlt (by decide))⟩

/-! ## Heads -/

/-- The text of the name of a currency. -/
def IsCurrencyText (text : List Char) : Prop :=
  ∃ c chars, text = c :: chars ∧ c.isAlpha = true ∧ chars.length ≤ 255 ∧
    ∀ c ∈ chars, (c.isAlphanum || c = '-' || c = '_') = true

/-- The text of the name of a software. -/
def IsSoftwareText (text : List Char) : Prop :=
  ∃ c chars, text = c :: chars ∧ c.isAlpha = true ∧ ∀ c ∈ chars, c.isAlphanum = true

/-- The text of a pre-release: a stage and one to three digits. -/
def IsPreReleaseText (text : List Char) : Prop :=
  ∃ (stage : List Char) (digit : Char) (digits : List Char),
    text = '-' :: stage ++ digit :: digits.flatMap (fun d => ['.', d]) ∧
    stage ∈ ["a".toList, "b".toList, "rc".toList] ∧ digit.isDigit = true ∧ digits.length ≤ 2 ∧
    ∀ d ∈ digits, d.isDigit = true

/-- The text of a version of a software. -/
def IsSoftVersionText (text : List Char) : Prop :=
  ∃ a b c pre, text = [a, '.', b, '.', c] ++ pre ∧
    (a.isDigit = true ∧ b.isDigit = true ∧ c.isDigit = true) ∧ (pre = [] ∨ IsPreReleaseText pre)

def isBase64 (c : Char) : Bool := c.isAlphanum || c = '+' || c = '/'

/-- The text of a signature. -/
def IsSigText (text : List Char) : Prop :=
  ∃ chars padding, text = chars ++ padding ∧ (∀ c ∈ chars, isBase64 c = true) ∧
    (chars.length, padding) ∈ [(88, []), (87, ['=']), (86, ['=', '='])]

variable (C) in
/-- A public key whose text the grammar accepts, and is read as the key. -/
structure ReadsKey (key : PubKey) : Prop where
  read : C.fromBase58 (C.base58 key) = some key
  accepted : IsKey (C.base58 key).toList

variable (C) in
/-- A signature whose text the grammar accepts, and is read as the signature. -/
structure ReadsSignature (sig : Sig) : Prop where
  read : C.fromBase64 (C.base64 sig) = some sig
  accepted : IsSigText (C.base64 sig).toList

/-! ### What the rules match -/

/-- A colon ends a text of a class. -/
theorem not_colon_head {p : Char → Bool} (hp : p ':' = false) (rest : List Char) :
    ∀ c ∈ (':' :: rest).head?, p c = false := by
  rintro _ ⟨⟩
  exact hp

/-- A colon comes after what is matched. -/
theorem append_colon {e : Expr Rule} {pairs : List (Pair Rule)}
    (h : MatchesText e text pairs (':' :: rest)) :
    MatchesText (e ++ str ":") (text ++ [':']) pairs rest := by
  have hcolon : MatchesText (R := Rule) (str ":") [':'] [] rest := matchesText_str ":" rest
  have hread : MatchesText (e ++ str ":") (text ++ [':']) (pairs ++ []) rest := h.append hcolon
  rwa [List.append_nil] at hread

/-- A line break comes after what is matched. -/
theorem append_nl {e : Expr Rule} {pairs : List (Pair Rule)}
    (h : MatchesText e text pairs ('\n' :: rest)) :
    MatchesText (e ++ Grammar.nl) (text ++ ['\n']) pairs rest := by
  have hbreak : MatchesText (R := Rule) Grammar.nl ['\n'] [] rest := matchesText_str "\n" rest
  have hread : MatchesText (e ++ Grammar.nl) (text ++ ['\n']) (pairs ++ []) rest := h.append hbreak
  rwa [List.append_nil] at hread

theorem matchesText_currency (h : IsCurrencyText text) (rest : List Char) :
    MatchesText Grammar.currency text [.leaf .currency text] (':' :: rest) := by
  obtain ⟨c, chars, rfl, hc, hlength, hchars⟩ := h
  refine MatchesText.atomic (?_ : MatchesText _ _ [] _) Rule.currency
  have hfirst : MatchesText (R := Rule) (chr Char.isAlpha) [c] [] (chars ++ ':' :: rest) :=
    matchesText_chr hc _
  exact hfirst.append (matchesText_between_chars (fun c hc => matchesText_chr (hchars c hc))
    (fails_chr (not_colon_head rfl rest)) (Nat.zero_le _) hlength)

theorem matchesText_nodeId {nodeId : NodeId} (h : nodeId < 4294967296) (rest : List Char) :
    MatchesText Grammar.nodeId (nodeIdText nodeId) [.leaf .nodeId (nodeIdText nodeId)]
      (':' :: rest) := by
  have htext := isSegmentText_segmentText nodeId
  exact (matchesText_between_chars (fun c hc => matchesText_chr (htext.digits c hc))
    (fails_hexaLower (not_colon_head rfl rest)) (List.length_pos_of_ne_nil htext.ne_nil)
    (htext.length_le 7 h)).atomic Rule.nodeId

theorem matchesText_base58 {c : Char} (h : isBase58 c = true) (rest : List Char) :
    MatchesText Grammar.base58 [c] [] rest := by
  simp only [isBase58, Bool.and_eq_true, decide_eq_true_eq] at h
  obtain ⟨⟨⟨hchar, hO⟩, hI⟩, hl⟩ := h
  have hexcluded : Fails (R := Rule) (str "O" <|> str "I" <|> str "l") (c :: rest) :=
    (fails_str_cons rfl hO rest).orElse
      ((fails_str_cons rfl hI rest).orElse (fails_str_cons rfl hl rest))
  have hahead : MatchesText (R := Rule) (notFollowedBy (str "O" <|> str "I" <|> str "l")) [] []
      ([c] ++ rest) := hexcluded.notFollowedBy
  exact hahead.append (matchesText_chr hchar rest)

theorem matchesText_pubkey (h : IsKey text) (rest : List Char) :
    MatchesText Grammar.pubkey text [.leaf .pubkey text] (':' :: rest) := by
  have hcolon : Fails Grammar.base58 (':' :: rest) := fun _ => rfl
  exact (matchesText_between_chars (fun c hc => matchesText_base58 (h.2.2 c hc)) hcolon h.1
    h.2.1).atomic Rule.pubkey

/-- The fields within a blockstamp. -/
def stampPairs (blockstamp : Blockstamp) : List (Pair Rule) :=
  [.leaf .blockId (toString blockstamp.id).toList, .leaf .hash blockstamp.hash.toHex.toList]

theorem matchesText_blockstamp (blockstamp : Blockstamp) (rest : List Char) :
    MatchesText Grammar.blockstamp blockstamp.toText.toList
      [.node .blockstamp blockstamp.toText.toList (stampPairs blockstamp)] rest := by
  have hlength : blockstamp.hash.toHex.toList.length = 64 := by
    rw [Hash.toList_toHex, List.length_map, Hash.digits, List.length_map, List.length_range]
  have hupper : ∀ c ∈ blockstamp.hash.toHex.toList, isHexaUpper c = true := by
    intro c hc
    rw [Hash.toList_toHex] at hc
    obtain ⟨digit, hdigit, rfl⟩ := List.mem_map.1 hc
    exact isHexaUpper_hexDigit digit (blockstamp.hash.digits_lt digit hdigit)
  have hhash := matchesText_between_full (R := Rule) (e := Grammar.hexaUpper)
    (fun c hc => matchesText_chr (hupper c hc)) (hlength.symm ▸ Nat.le_refl 64) rest
  rw [hlength] at hhash
  have hdash : ∀ c ∈ ('-' :: (blockstamp.hash.toHex.toList ++ rest)).head?, c.isDigit = false := by
    rintro _ ⟨⟩
    rfl
  have hid := matchesText_uInt (isUInt_toString blockstamp.id) hdash
  have htext : blockstamp.toText.toList =
      (toString blockstamp.id).toList ++ ['-'] ++ blockstamp.hash.toHex.toList := by
    simp only [Blockstamp.toText, String.toList_append]
    rfl
  rw [htext]
  exact (((hid.atomic Rule.blockId).append (matchesText_str "-" _)).append
    (hhash.atomic Rule.hash)).rule Rule.blockstamp

/-- A printed hash is read back. -/
theorem fromHex_toHex (hash : Hash) : Hash.fromHex hash.toHex.toList = some hash := by
  have hlength : hash.toHex.toList.length = 64 := by
    rw [Hash.toList_toHex, List.length_map, Hash.digits, List.length_map, List.length_range]
  have hread : hash.toHex.toList.mapM hexValue = some hash.digits := by
    rw [Hash.toList_toHex, List.mapM_map]
    have hdigits := hash.digits_lt
    generalize hash.digits = digits at hdigits ⊢
    induction digits with
    | nil => rfl
    | cons digit digits ih =>
        obtain ⟨hdigit, hdigits⟩ := List.forall_mem_cons.1 hdigits
        rw [List.mapM_cons, Function.comp_apply, hexValue_hexDigit digit hdigit, ih hdigits]
        rfl
  rw [Hash.fromHex, if_pos hlength, hread, Option.map_some, hash.ofNat_digits]

/-- The fields within a blockstamp are read back. -/
theorem readBlockstamp_stampPairs (text : List Char) {blockstamp : Blockstamp}
    (h : blockstamp.id < 4294967296) :
    readBlockstamp (.node .blockstamp text (stampPairs blockstamp)) = .ok blockstamp := by
  show (do
    let id ← unwrap (parseUnsigned 32 (toString blockstamp.id).toList)
    let hash ← unwrap (Hash.fromHex blockstamp.hash.toHex.toList)
    return { id, hash } : Run Blockstamp) = _
  rw [parseUnsigned_toString h, fromHex_toHex]
  rfl

theorem matchesText_software (h : IsSoftwareText text) (rest : List Char) :
    MatchesText Grammar.software text [.leaf .software text] (':' :: rest) := by
  obtain ⟨c, chars, rfl, hc, hchars⟩ := h
  refine MatchesText.atomic (?_ : MatchesText _ _ [] _) Rule.software
  have hfirst : MatchesText (R := Rule) (chr Char.isAlpha) [c] [] (chars ++ ':' :: rest) :=
    matchesText_chr hc _
  exact hfirst.append (matchesText_atLeast_chars (fun c hc => matchesText_chr (hchars c hc))
    (fails_chr (not_colon_head rfl rest)) (Nat.zero_le _))

theorem matchesText_base64 {c : Char} (h : isBase64 c = true) (rest : List Char) :
    MatchesText Grammar.base64 [c] [] rest := by
  by_cases hchar : c.isAlphanum = true
  · exact (matchesText_chr hchar rest).orElse _
  · have hfails : Fails (R := Rule) (chr Char.isAlphanum) (c :: rest) := by
      refine fails_chr ?_
      rintro _ ⟨⟩
      exact Bool.eq_false_iff.2 hchar
    simp only [isBase64, Bool.or_eq_true, decide_eq_true_eq, or_assoc] at h
    rcases h.resolve_left hchar with rfl | rfl
    · exact hfails.orElse_matchesText ((matchesText_str "+" rest).orElse _)
    · exact hfails.orElse_matchesText ((fails_str_cons rfl (by decide) rest).orElse_matchesText
        (matchesText_str "/" rest))

/-- The characters before the padding of a signature are too few for an alternative with more of
them. -/
theorem fails_between_base64 {chars : List Char} (hchars : ∀ c ∈ chars, isBase64 c = true)
    {count : Nat} (hcount : chars.length < count) (rest : List Char) :
    Fails (between count count Grammar.base64) (chars ++ '=' :: rest) := by
  have hpadding : Fails Grammar.base64 ('=' :: rest) := fun _ => rfl
  have hall := matchesAll_chars (fun c hc => matchesText_base64 (hchars c hc)) hpadding
  rw [← length_chars (R := Rule) chars] at hcount
  have hfails := hall.fails_between hcount (Nat.le_of_lt hcount)
  rwa [flatMap_fst_chars] at hfails

theorem matchesText_sig (h : IsSigText text) (rest : List Char) :
    MatchesText Grammar.ed25519Sig text [.leaf .ed25519Sig text] rest := by
  obtain ⟨chars, padding, rfl, hchars, hcount⟩ := h
  have hfull (rest : List Char) :=
    matchesText_between_full (fun c hc => matchesText_base64 (hchars c hc)) (Nat.le_refl _) rest
  refine MatchesText.atomic (?_ : MatchesText _ _ [] _) Rule.ed25519Sig
  simp only [List.mem_cons, List.not_mem_nil, or_false, Prod.mk.injEq] at hcount
  rcases hcount with ⟨hlength, rfl⟩ | ⟨hlength, rfl⟩ | ⟨hlength, rfl⟩
  · rw [hlength] at hfull
    rw [List.append_nil]
    exact (hfull rest).orElse _
  · have hfirst : Fails (between 88 88 Grammar.base64) (chars ++ '=' :: rest) :=
      fails_between_base64 hchars (by omega) rest
    rw [hlength] at hfull
    rw [← List.singleton_append, ← List.append_assoc] at hfirst
    exact hfirst.orElse_matchesText (((hfull _).append (matchesText_str "=" rest)).orElse _)
  · have hfirst : Fails (between 88 88 Grammar.base64) (chars ++ '=' :: '=' :: rest) :=
      fails_between_base64 hchars (by omega) ('=' :: rest)
    have hsecond : Fails (between 87 87 Grammar.base64) (chars ++ '=' :: '=' :: rest) :=
      fails_between_base64 hchars (by omega) ('=' :: rest)
    rw [hlength] at hfull
    have htext : chars ++ '=' :: '=' :: rest = chars ++ ['=', '='] ++ rest := by simp
    rw [htext] at hfirst hsecond
    exact hfirst.orElse_matchesText ((hsecond.append _).orElse_matchesText
      ((hfull _).append (matchesText_str "==" rest)))

/-- The field of a signature, if there is one. -/
def sigPairs (C : DocCrypto) (signature : Option Sig) : List (Pair Rule) :=
  signature.elim [] fun sig => [.leaf .ed25519Sig (C.base64 sig).toList]

theorem matchesText_optSig {signature : Option Sig}
    (h : ∀ sig ∈ signature, ReadsSignature C sig) :
    MatchesText (opt Grammar.ed25519Sig) (signature.elim [] fun sig => (C.base64 sig).toList)
      (sigPairs C signature) [] := by
  cases signature with
  | none =>
      have hfails : Fails Grammar.ed25519Sig [] := fun _ => rfl
      exact hfails.opt
  | some sig =>
      have hread := matchesText_sig (h sig rfl).accepted []
      exact hread.opt

/-- What is built from a text that an expression matches. -/
theorem build_of_matchesText {D E : Type} {e : Expr Rule} {pair : Pair Rule}
    (h : MatchesText e text [pair] rest) (fromPestPair : Pair Rule → Run D) (pestError : E) :
    NetworkDocsParser.build e fromPestPair pestError (String.ofList (text ++ rest)) = do
      let document ← fromPestPair pair
      return .ok document := by
  have hparse : NetworkDocsParser.parse e (String.ofList (text ++ rest)) = some [pair] := by
    rw [NetworkDocsParser.parse, String.toList_ofList, h true]
    rfl
  rw [NetworkDocsParser.build, hparse]
  rfl

/-- The stage of a pre-release. -/
theorem matchesText_stage {stage : List Char} (h : stage ∈ ["a".toList, "b".toList, "rc".toList])
    (rest : List Char) :
    MatchesText (R := Rule) (str "a" <|> str "b" <|> str "rc") stage [] rest := by
  simp only [List.mem_cons, List.not_mem_nil, or_false] at h
  rcases h with rfl | rfl | rfl
  · exact (matchesText_str "a" rest).orElse _
  · exact (fails_str_cons rfl (by decide) _).orElse_matchesText
      ((matchesText_str "b" rest).orElse _)
  · exact (fails_str_cons rfl (by decide) _).orElse_matchesText
      ((fails_str_cons rfl (by decide) _).orElse_matchesText (matchesText_str "rc" rest))

theorem matchesText_preRelease (h : IsPreReleaseText text) (rest : List Char) :
    MatchesText (R := Rule) (str "-" ++ (str "a" <|> str "b" <|> str "rc") ++ chr Char.isDigit ++
      between 0 2 (str "." ++ chr Char.isDigit)) text [] ('\n' :: rest) := by
  obtain ⟨stage, digit, digits, rfl, hstage, hdigit, hlength, hdigits⟩ := h
  have hall : MatchesAll (R := Rule) (str "." ++ chr Char.isDigit)
      (digits.map fun d => (['.', d], [])) ('\n' :: rest) := by
    clear hlength
    induction digits with
    | nil => exact (fails_str_cons rfl (by decide) rest).append _
    | cons d digits ih =>
        obtain ⟨hd, hdigits⟩ := List.forall_mem_cons.1 hdigits
        exact ⟨List.cons_ne_nil _ _, (matchesText_str "." _).append (matchesText_chr hd _),
          ih hdigits⟩
  have hmost : (digits.map fun d => (['.', d], ([] : List (Pair Rule)))).length ≤ 2 := by
    rwa [List.length_map]
  have hparts := matchesText_between hall (Nat.zero_le _) hmost
  rw [List.flatMap_map, List.flatMap_map, List.flatMap_eq_nil_iff.2 fun _ _ => rfl] at hparts
  have hread := (((matchesText_str "-" _).append (matchesText_stage hstage _)).append
    (matchesText_chr hdigit _)).append hparts
  rwa [List.append_assoc] at hread

theorem matchesText_softVersion (h : IsSoftVersionText text) (rest : List Char) :
    MatchesText Grammar.softVersion text [.leaf .softVersion text] ('\n' :: rest) := by
  obtain ⟨a, b, c, pre, rfl, ⟨ha, hb, hc⟩, hpre⟩ := h
  have hopt : MatchesText (R := Rule) (opt (str "-" ++ (str "a" <|> str "b" <|> str "rc") ++
      chr Char.isDigit ++ between 0 2 (str "." ++ chr Char.isDigit))) pre [] ('\n' :: rest) := by
    rcases hpre with rfl | hpre
    · have hfails : Fails (R := Rule) (str "-") ('\n' :: rest) :=
        fails_str_cons rfl (by decide) rest
      exact (((hfails.append _).append _).append _).opt
    · exact (matchesText_preRelease hpre rest).opt
  refine MatchesText.atomic (?_ : MatchesText _ _ [] _) Rule.softVersion
  exact (((((matchesText_chr ha _).append (matchesText_str "." _)).append
    (matchesText_chr hb _)).append (matchesText_str "." _)).append (matchesText_chr hc _)).append
    hopt

/-! ## Signing texts -/

/-- `SignError`, of the variants that can be returned. -/
inductive SignError
  | alreadySign
deriving DecidableEq, Repr

/-- `SigError`, of the variants that can be returned. -/
inductive SigError
  | invalidSig
  | notSig
deriving DecidableEq, Repr

/-- What can be signed as a text, which does not depend on the signature. -/
class TextSignable (D : Type) where
  asSignableText : DocCrypto → HexCodec → D → List Char
  issuerPubkey : D → PubKey
  signature : D → Option Sig
  setSignature : D → Sig → D
  asSignableText_setSignature : ∀ C X doc sig,
    asSignableText C X (setSignature doc sig) = asSignableText C X doc
  issuerPubkey_setSignature : ∀ doc sig, issuerPubkey (setSignature doc sig) = issuerPubkey doc
  signature_setSignature : ∀ doc sig, signature (setSignature doc sig) = some sig

variable (C) in
/-- Two keys that belong together: what the one signs is read back, and verified with the other. -/
structure IsKeyPair (privKey : PrivKey) (key : PubKey) : Prop where
  readsSignature : ∀ text, ReadsSignature C (C.sign privKey text)
  verify_sign : ∀ text, C.verify key text (C.sign privKey text) = true

section TextSignable

variable {D : Type} [TextSignable D] (X : HexCodec) (C)

open TextSignable

/-- Sign text message: the signed document, and its text with the signature. -/
def signDocument (doc : D) (privKey : PrivKey) : Except SignError (D × List Char) :=
  if (signature doc).isSome then .error .alreadySign
  else
    let text := asSignableText C X doc
    let sig := C.sign privKey (String.ofList text)
    .ok (setSignature doc sig, text ++ (C.base64 sig).toList)

/-- Check signature of text message. -/
def verifyDocument (doc : D) : Except SigError Unit :=
  match signature doc with
  | some sig =>
      if C.verify (issuerPubkey doc) (String.ofList (asSignableText C X doc)) sig then .ok ()
      else .error .invalidSig
  | none => .error .notSig

/-- The text of a document with its signature, if it has one. -/
def signedText (doc : D) : List Char :=
  asSignableText C X doc ++ (signature doc).elim [] fun sig => (C.base64 sig).toList

variable {X C}

/-- Signing a document gives the text of the signed one, whose signature is verified. -/
theorem exists_signed (doc : D) (hnew : signature doc = none) {privKey : PrivKey}
    (hkeys : IsKeyPair C privKey (issuerPubkey doc)) :
    ∃ sig, ReadsSignature C sig ∧
      signDocument C X doc privKey =
        .ok (setSignature doc sig, signedText C X (setSignature doc sig)) ∧
      verifyDocument C X (setSignature doc sig) = .ok () := by
  refine ⟨C.sign privKey (String.ofList (asSignableText C X doc)), hkeys.readsSignature _, ?_, ?_⟩
  · rw [signDocument, hnew, signedText, asSignableText_setSignature, signature_setSignature]
    rfl
  · rw [verifyDocument, signature_setSignature, issuerPubkey_setSignature,
      asSignableText_setSignature]
    exact if_pos (hkeys.verify_sign _)

end TextSignable

/-- The cryptographic library on one text, which it signs with the example keys. -/
def exampleSigner (sigText : String) (sig : Sig) : DocCrypto where
  base58 _ := exampleKeyText
  fromBase58 text := if text = exampleKeyText then some exampleKeyPair.pubkey else none
  base64 _ := sigText
  fromBase64 text := if text = sigText then some sig else none
  hashStr _ := 1
  sign _ _ := sig
  verify key _ sig' := key = exampleKeyPair.pubkey && sig' = sig
  txHash _ _ := 1
  txHash_eq _ _ := rfl

theorem readsKey_exampleSigner (sigText : String) (sig : Sig) :
    ReadsKey (exampleSigner sigText sig) exampleKeyPair.pubkey := by
  have hkey : IsKey exampleKeyText.toList :=
    ⟨by decide +kernel, by decide +kernel, by decide +kernel⟩
  refine ⟨?_, hkey⟩
  simp only [exampleSigner, if_true]

theorem isKeyPair_exampleSigner {sigText : String} (sig : Sig) (h : IsSigText sigText.toList) :
    IsKeyPair (exampleSigner sigText sig) exampleKeyPair.privkey exampleKeyPair.pubkey where
  readsSignature _ := ⟨by simp only [exampleSigner, if_true], h⟩
  verify_sign _ := by
    simp only [exampleSigner, decide_true, Bool.and_self]

/-! ## Heads -/

namespace NetworkHeadV3

variable (X : HexCodec) (C)

instance : TextSignable NetworkHeadV3 where
  asSignableText C _ head := "3:".toList ++ head.currencyName.toList ++ [':'] ++
    (toString head.apiOutgoingConf).toList ++ [':'] ++
    (toString head.apiIncomingConf).toList ++ [':'] ++
    (toString head.freeMemberRooms).toList ++ [':'] ++
    (toString head.freeMirrorRooms).toList ++ [':'] ++ nodeIdText head.nodeId ++ [':'] ++
    (C.base58 head.pubkey).toList ++ [':'] ++ head.blockstamp.toText.toList ++ [':'] ++
    head.software.toList ++ [':'] ++ head.softVersion.toList ++ ['\n']
  issuerPubkey head := head.pubkey
  signature head := head.signature
  setSignature head sig := { head with signature := some sig }
  asSignableText_setSignature _ _ _ _ := rfl
  issuerPubkey_setSignature _ _ := rfl
  signature_setSignature _ _ := rfl

/-- A head with fields that fit their types and that the grammar accepts. -/
structure Accepted (head : NetworkHeadV3) : Prop where
  currencyName : IsCurrencyText head.currencyName.toList
  apiOutgoingConf : head.apiOutgoingConf < 256
  apiIncomingConf : head.apiIncomingConf < 256
  freeMemberRooms : head.freeMemberRooms < 256
  freeMirrorRooms : head.freeMirrorRooms < 256
  nodeId : head.nodeId < 4294967296
  pubkey : ReadsKey C head.pubkey
  blockstamp : head.blockstamp.id < 4294967296
  software : IsSoftwareText head.software.toList
  softVersion : IsSoftVersionText head.softVersion.toList

/-- The fields of a head before its signature. -/
def pairs (head : NetworkHeadV3) : List (Pair Rule) :=
  [.leaf .currency head.currencyName.toList,
    .leaf .apiOutgoingConf (toString head.apiOutgoingConf).toList,
    .leaf .apiIncomingConf (toString head.apiIncomingConf).toList,
    .leaf .freeMemberRooms (toString head.freeMemberRooms).toList,
    .leaf .freeMirrorRooms (toString head.freeMirrorRooms).toList,
    .leaf .nodeId (nodeIdText head.nodeId),
    .leaf .pubkey (C.base58 head.pubkey).toList,
    .node .blockstamp head.blockstamp.toText.toList (stampPairs head.blockstamp),
    .leaf .software head.software.toList,
    .leaf .softVersion head.softVersion.toList]

variable {X C}

/-- A byte of a head. -/
theorem matchesText_conf {n : Nat} (h : n < 256) (r : Rule) (rest : List Char) :
    MatchesText (atomic r Grammar.u8) (toString n).toList [.leaf r (toString n).toList]
      (':' :: rest) :=
  (matchesText_u8 (isU8Text_toString h) (not_colon_head rfl rest)).atomic r

theorem matchesText_signable {head : NetworkHeadV3} (h : head.Accepted C) (rest : List Char) :
    MatchesText (str "3:" ++ Grammar.currency ++ str ":" ++ Grammar.apiOutgoingConf ++ str ":" ++
      Grammar.apiIncomingConf ++ str ":" ++ Grammar.freeMemberRooms ++ str ":" ++
      Grammar.freeMirrorRooms ++ str ":" ++ Grammar.nodeId ++ str ":" ++ Grammar.pubkey ++
      str ":" ++ Grammar.blockstamp ++ str ":" ++ Grammar.software ++ str ":" ++
      Grammar.softVersion ++ Grammar.nl) (TextSignable.asSignableText C X head) (head.pairs C)
      rest := by
  have hstart (rest : List Char) :=
    append_colon ((matchesText_str "3:" _).append (matchesText_currency h.currencyName rest))
  have hconfs (rest : List Char) := append_colon ((append_colon ((append_colon ((append_colon
    ((hstart _).append (matchesText_conf h.apiOutgoingConf .apiOutgoingConf _))).append
    (matchesText_conf h.apiIncomingConf .apiIncomingConf _))).append
    (matchesText_conf h.freeMemberRooms .freeMemberRooms _))).append
    (matchesText_conf h.freeMirrorRooms .freeMirrorRooms rest))
  have hissuer (rest : List Char) := append_colon ((append_colon ((hconfs _).append
    (matchesText_nodeId h.nodeId _))).append (matchesText_pubkey h.pubkey.accepted rest))
  have hread := append_nl ((append_colon ((append_colon ((hissuer _).append
    (matchesText_blockstamp head.blockstamp _))).append
    (matchesText_software h.software _))).append (matchesText_softVersion h.softVersion rest))
  exact hread

/-- The fields of a head, of which the identifier of the node is read in decimal. -/
theorem foldlM_pairs {head : NetworkHeadV3} (h : head.Accepted C) (f : Fields) :
    (head.pairs C).foldlM (takeField C) f = do
      let nodeId ← unwrap (parseUnsigned 32 (nodeIdText head.nodeId))
      return { f with
        currencyStr := head.currencyName
        apiOutgoingConf := head.apiOutgoingConf
        apiIncomingConf := head.apiIncomingConf
        freeMemberRooms := head.freeMemberRooms
        freeMirrorRooms := head.freeMirrorRooms
        nodeId
        pubkey := some head.pubkey
        blockstamp := some head.blockstamp
        software := head.software
        softVersion := head.softVersion } := by
  have hstamp := readBlockstamp_stampPairs head.blockstamp.toText.toList h.blockstamp
  have hbyte {n : Nat} (hn : n < 256) : parseUnsigned 8 (toString n).toList = some n :=
    parseUnsigned_toString hn
  simp only [pairs, List.foldlM_cons, List.foldlM_nil, takeField, Pair.rule_node, Pair.text_node,
    hbyte h.apiOutgoingConf, readPubkey, String.ofList_toList, hbyte h.apiIncomingConf,
    h.pubkey.read, hstamp, hbyte h.freeMemberRooms, hbyte h.freeMirrorRooms, unwrap, expect_some,
    ok_bind, pure_bind, bind_assoc]

/-- The signature of a head, if there is one. -/
theorem foldlM_sigPairs {signature : Option Sig} (h : ∀ sig ∈ signature, ReadsSignature C sig)
    (f : Fields) :
    (sigPairs C signature).foldlM (takeField C) f =
      .ok { f with signature := signature.or f.signature } := by
  cases signature with
  | none => rfl
  | some sig =>
      have hread : readSig C (.leaf .ed25519Sig (C.base64 sig).toList) = .ok sig := by
        rw [readSig, Pair.text_node, String.ofList_toList, (h sig rfl).read]
        rfl
      simp only [sigPairs, Option.elim_some, List.foldlM_cons, List.foldlM_nil, takeField,
        Pair.rule_node, hread, ok_bind, pure_bind, Option.some_or]
      rfl

/-- What is made of the fields of a head. -/
theorem fromPestPair_pairs {head : NetworkHeadV3} (h : head.Accepted C)
    (hsig : ∀ sig ∈ head.signature, ReadsSignature C sig) (text : List Char) :
    fromPestPair C (.node .headV3 text (head.pairs C ++ sigPairs C head.signature)) = do
      let nodeId ← unwrap (parseUnsigned 32 (nodeIdText head.nodeId))
      return { head with nodeId, step := 0 } := by
  simp only [fromPestPair, Pair.inner_node, List.foldlM_append, foldlM_pairs h,
    foldlM_sigPairs hsig, bind_assoc, pure_bind, ok_bind, expect_some, Option.or_none]

/-- A printed head is matched as a whole. -/
theorem matchesText_signedText {head : NetworkHeadV3} (h : head.Accepted C)
    (hsig : ∀ sig ∈ head.signature, ReadsSignature C sig) :
    MatchesText Grammar.headV3 (signedText C X head)
      [.node .headV3 (signedText C X head) (head.pairs C ++ sigPairs C head.signature)] [] := by
  have hbreak : Fails (R := Rule) Grammar.nl [] := fun _ => rfl
  have hparts := (matchesText_signable (X := X) h _).append (matchesText_optSig hsig)
  have hall := hparts.append_missing (hbreak.append Grammar.step)
  exact hall.rule Rule.headV3

/-- A printed head is parsed as itself, of which the identifier of the node is read in decimal, and
without its step. -/
theorem parse_signedText {head : NetworkHeadV3} (h : head.Accepted C)
    (hsig : ∀ sig ∈ head.signature, ReadsSignature C sig) :
    parse C (String.ofList (signedText C X head)) = do
      let nodeId ← unwrap (parseUnsigned 32 (nodeIdText head.nodeId))
      return .ok { head with nodeId, step := 0 } := by
  have hbuild := build_of_matchesText (matchesText_signedText (X := X) h hsig) (fromPestPair C)
    TextDocumentParseError.pestError
  rw [List.append_nil, fromPestPair_pairs h hsig, bind_assoc] at hbuild
  exact hbuild

/-- A printed head is parsed as itself exactly when the identifier of its node is a decimal digit
and its step is zero. -/
theorem parse_signedText_iff {head : NetworkHeadV3} (h : head.Accepted C)
    (hsig : ∀ sig ∈ head.signature, ReadsSignature C sig) :
    parse C (String.ofList (signedText C X head)) = .ok (.ok head) ↔
      head.nodeId < 10 ∧ head.step = 0 := by
  rw [parse_signedText h hsig, ← parseUnsigned_nodeIdText_iff]
  constructor
  · intro hparse
    obtain ⟨nodeId, hread, hhead⟩ := bind_eq_ok_iff.1 hparse
    have heq : { head with nodeId, step := 0 } = head := Except.ok.inj (Except.ok.inj hhead)
    rw [unwrap_eq_ok_iff] at hread
    have hid : nodeId = head.nodeId := congrArg NetworkHeadV3.nodeId heq
    exact ⟨hid ▸ hread, (congrArg NetworkHeadV3.step heq).symm⟩
  · rintro ⟨hread, hstep⟩
    rw [hread]
    show Except.ok (Except.ok { head with step := 0 }) = _
    rw [← hstep]

/-- A head that is signed and sent is received as it was sent exactly when the identifier of its
node is a decimal digit and its step is zero. -/
theorem relayed_head_iff (X : HexCodec) {head : NetworkHeadV3} (h : head.Accepted C)
    (hnew : head.signature = none) {privKey : PrivKey} (hkeys : IsKeyPair C privKey head.pubkey) :
    ∃ signed text, signDocument C X head privKey = .ok (signed, text) ∧
      verifyDocument C X signed = .ok () ∧
      (parse C (String.ofList text) = .ok (.ok signed) ↔ head.nodeId < 10 ∧ head.step = 0) := by
  obtain ⟨sig, hsig, hsign, hverify⟩ := exists_signed (X := X) head hnew hkeys
  refine ⟨{ head with signature := some sig }, _, hsign, hverify, ?_⟩
  have haccepted : Accepted C { head with signature := some sig } := { h with }
  refine parse_signedText_iff haccepted ?_
  rintro _ ⟨⟩
  exact hsig

/-- A head of the first node of a key. -/
def exampleHead : NetworkHeadV3 where
  currencyName := "g1"
  apiOutgoingConf := 0
  apiIncomingConf := 0
  freeMemberRooms := 0
  freeMirrorRooms := 0
  nodeId := 0
  pubkey := exampleKeyPair.pubkey
  blockstamp := ⟨50, 0x000005B1CEB4EC5245EF7E33101A330A1C9A358EC45A25FC13F78BB58C9E7370⟩
  software := "durs"
  softVersion := "0.2.0-a1"
  signature := none
  step := 0

/-- The signature of the example head, as it is printed. -/
def exampleHeadSigText : String :=
  "XenQuXxE8MARfBZZiGjFLmORwSTV+eVSbKMo1xKaEB4yLdWxHRkNd6Yyrt2/mgYKB4AtacPGD/E/kI/EYMMQDA=="

/-- The signature of the example head. -/
def exampleHeadSig : Sig where
  bytes := 0x5de9d0b97c44f0c0117c16598868c52e6391c124d5f9e5526ca328d7129a101e#256 ++
    0x322dd5b11d190d77a632aeddbf9a060a07802d69c3c60ff13f908fc460c3100c#256

theorem accepted_exampleHead (sigText : String) (sig : Sig) :
    exampleHead.Accepted (exampleSigner sigText sig) where
  currencyName := ⟨'g', ['1'], rfl, by decide, by decide, by decide⟩
  apiOutgoingConf := by decide
  apiIncomingConf := by decide
  freeMemberRooms := by decide
  freeMirrorRooms := by decide
  nodeId := by decide
  pubkey := readsKey_exampleSigner sigText sig
  blockstamp := by decide
  software := ⟨'d', ['u', 'r', 's'], rfl, by decide, by decide⟩
  softVersion := ⟨'0', '2', '0', ['-', 'a', '1'], rfl, by decide,
    Or.inr ⟨['a'], '1', [], rfl, by decide, by decide, by decide, by decide⟩⟩

theorem relayed_head_example : ∃ signed text,
    signDocument (exampleSigner exampleHeadSigText exampleHeadSig) exampleHexCodec exampleHead
      exampleKeyPair.privkey = .ok (signed, text) ∧
    verifyDocument (exampleSigner exampleHeadSigText exampleHeadSig) exampleHexCodec signed =
      .ok () ∧
    parse (exampleSigner exampleHeadSigText exampleHeadSig) (String.ofList text) =
      .ok (.ok signed) := by
  have hsig : IsSigText exampleHeadSigText.toList :=
    ⟨exampleHeadSigText.toList.take 86, ['=', '='], by decide +kernel, by decide +kernel,
      by decide +kernel⟩
  obtain ⟨signed, text, hsign, hverify, hread⟩ := relayed_head_iff exampleHexCodec
    (accepted_exampleHead exampleHeadSigText exampleHeadSig) rfl (isKeyPair_exampleSigner _ hsig)
  exact ⟨signed, text, hsign, hverify, hread.2 ⟨by decide, rfl⟩⟩

end NetworkHeadV3

/-! ## Peer cards -/

/-- An endpoint that is read back from its printed form. -/
structure EndpointV2.ReadBack (ep : EndpointV2) : Prop where
  wellFormed : ep.WellFormed
  apiFeatures : FeaturesPrinted ep.apiFeatures
  ipV6 : ∀ addr ∈ ep.ipV6, ¬ Ipv6Addr.EmbedsIpv4 addr

variable {X : HexCodec}

/-- The rule that is found in a printed endpoint is read as the endpoint. -/
theorem exists_endpoint {ep : EndpointV2} (h : ep.ReadBack) (hrest : EndsEndpoint rest) :
    ∃ pair, MatchesText Grammar.endpointV2 (ep.toText X) [pair] rest ∧ pair.rule = .endpointV2 ∧
      EndpointV2.fromPestPair X.toHexDecoder pair = .ok ep := by
  obtain ⟨pairs, hmatch, hfold⟩ := takes_endpoint (X := X) h.wellFormed h.apiFeatures h.ipV6 hrest
  refine ⟨_, hmatch.rule .endpointV2, rfl, bind_eq_ok_iff.2 ⟨_, hfold, ?_⟩⟩
  obtain ⟨api, apiVersion, features, apiFeatures, ipV4, ipV6, host, port, path⟩ := ep
  rcases h.wellFormed.networkFeatures with rfl | ⟨byte, rfl, hne, -⟩
  · rfl
  · have hsome : (buildingFeatures [byte]).all (· = 0) = false := by
      simp [buildingFeatures, hne]
    rw [hsome]
    rfl

/-- There is no endpoint where there is no blank. -/
theorem fails_endpoint_of_no_blank (h : ' ' ∉ rest) : Fails Grammar.endpointV2 rest := by
  have hname : Fails (Grammar.apiName ++ str " ") rest := by
    refine fails_of_lang fun text pairs more hlang heq => h ?_
    obtain ⟨first, _, _, _, -, ⟨rfl, -⟩, rfl, -⟩ := hlang
    rw [← heq]
    exact List.mem_append_left _ (List.mem_append_right _ List.mem_cons_self)
  exact ((((((((hname.append _).append _).append _).append _).append _).append _).append _).append
    _).rule .endpointV2

/-- Lines, each with its line break. -/
def linesText (lines : List (List Char)) : List Char := lines.flatMap (· ++ ['\n'])

/-- Joined lines and a line break are the lines with their line breaks. -/
theorem intercalate_append_nl (line : List Char) (lines : List (List Char)) :
    List.intercalate ['\n'] (line :: lines) ++ ['\n'] = linesText (line :: lines) := by
  induction lines generalizing line with
  | nil => simp [linesText]
  | cons line' lines ih =>
      have hjoin := ih line'
      rw [linesText] at hjoin ⊢
      rw [List.flatMap_cons, ← hjoin]
      simp [List.intercalate]

namespace PeerCardV11

instance : TextSignable PeerCardV11 where
  asSignableText C X card := "11:".toList ++ card.currencyName.toList ++ [':'] ++
    nodeIdText card.nodeId ++ [':'] ++ (C.base58 card.issuer).toList ++ [':'] ++
    card.blockstamp.toText.toList ++ ['\n'] ++
    List.intercalate ['\n'] (card.endpoints.map (EndpointV2.toText X)) ++ ['\n'] ++
    List.intercalate ['\n'] (card.endpointsStr.map String.toList) ++
    if card.endpointsStr.isEmpty then [] else ['\n']
  issuerPubkey card := card.issuer
  signature card := card.sig
  setSignature card sig := { card with sig := some sig }
  asSignableText_setSignature _ _ _ _ := rfl
  issuerPubkey_setSignature _ _ := rfl
  signature_setSignature _ _ := rfl

variable (C) in
/-- A card with fields that fit their types and that the grammar accepts, and endpoints that are
read back; no endpoint is kept as a text, as in each card that is parsed. -/
structure Accepted (card : PeerCardV11) : Prop where
  currencyName : IsCurrencyText card.currencyName.toList
  nodeId : card.nodeId < 4294967296
  issuer : ReadsKey C card.issuer
  blockstamp : card.blockstamp.id < 4294967296
  endpoints : ∀ ep ∈ card.endpoints, ep.ReadBack
  endpointsStr : card.endpointsStr = []

variable (C) in
/-- The fields of a card before its endpoints. -/
def pairs (card : PeerCardV11) : List (Pair Rule) :=
  [.leaf .currency card.currencyName.toList,
    .leaf .nodeId (nodeIdText card.nodeId),
    .leaf .pubkey (C.base58 card.issuer).toList,
    .node .blockstamp card.blockstamp.toText.toList (stampPairs card.blockstamp)]

variable (C) in
/-- The text of a card before its endpoints. -/
def headText (card : PeerCardV11) : List Char :=
  "11:".toList ++ card.currencyName.toList ++ [':'] ++ nodeIdText card.nodeId ++ [':'] ++
    (C.base58 card.issuer).toList ++ [':'] ++ card.blockstamp.toText.toList ++ ['\n']

theorem matchesText_headText {card : PeerCardV11} (h : card.Accepted C) (rest : List Char) :
    MatchesText (str "11:" ++ Grammar.currency ++ str ":" ++ Grammar.nodeId ++ str ":" ++
      Grammar.pubkey ++ str ":" ++ Grammar.blockstamp ++ Grammar.nl) (card.headText C)
      (card.pairs C) rest := by
  have hstart (rest : List Char) :=
    append_colon ((matchesText_str "11:" _).append (matchesText_currency h.currencyName rest))
  have hissuer (rest : List Char) := append_colon ((append_colon ((hstart _).append
    (matchesText_nodeId h.nodeId _))).append (matchesText_pubkey h.issuer.accepted rest))
  have hread :=
    append_nl ((hissuer _).append (matchesText_blockstamp card.blockstamp ('\n' :: rest)))
  exact hread

/-- The fields of a card before its endpoints, of which the identifier of the node is read in
decimal. -/
theorem foldlM_pairs {card : PeerCardV11} (h : card.Accepted C) (H : HexDecoder) (f : Fields) :
    (card.pairs C).foldlM (step H C) f = do
      let nodeId ← unwrap (parseUnsigned 32 (nodeIdText card.nodeId))
      return { f with
        currencyStr := card.currencyName
        nodeId
        issuer := some card.issuer
        blockstamp := some card.blockstamp } := by
  have hstamp := readBlockstamp_stampPairs card.blockstamp.toText.toList h.blockstamp
  simp only [pairs, List.foldlM_cons, List.foldlM_nil, step, Pair.rule_node, Pair.text_node,
    readPubkey, String.ofList_toList, h.issuer.read, hstamp, unwrap, expect_some, ok_bind,
    pure_bind, bind_assoc]

/-- The signature of a card, if there is one. -/
theorem foldlM_sigPairs {signature : Option Sig} (h : ∀ sig ∈ signature, ReadsSignature C sig)
    (H : HexDecoder) (f : Fields) :
    (sigPairs C signature).foldlM (step H C) f = .ok { f with sig := signature.or f.sig } := by
  cases signature with
  | none => rfl
  | some sig =>
      have hread : readSig C (.leaf .ed25519Sig (C.base64 sig).toList) = .ok sig := by
        rw [readSig, Pair.text_node, String.ofList_toList, (h sig rfl).read]
        rfl
      simp only [sigPairs, Option.elim_some, List.foldlM_cons, List.foldlM_nil, step,
        Pair.rule_node, hread, ok_bind, pure_bind, Option.some_or]
      rfl

/-- The lines of endpoints are read one after the other, up to what holds no blank. -/
theorem exists_endpoints {eps : List EndpointV2} (h : ∀ ep ∈ eps, ep.ReadBack)
    (hrest : ' ' ∉ rest) :
    ∃ parts : List (List Char × List (Pair Rule)),
      MatchesAll (Grammar.endpointV2 ++ Grammar.nl) parts rest ∧ parts.length = eps.length ∧
      parts.flatMap Prod.fst = linesText (eps.map (EndpointV2.toText X)) ∧
      ∀ f : Fields, (parts.flatMap Prod.snd).foldlM (step X.toHexDecoder C) f =
        .ok { f with endpoints := f.endpoints ++ eps } := by
  induction eps with
  | nil =>
      refine ⟨[], (fails_endpoint_of_no_blank hrest).append _, rfl, rfl, fun f => ?_⟩
      rw [List.append_nil]
      rfl
  | cons ep eps ih =>
      obtain ⟨hep, heps⟩ := List.forall_mem_cons.1 h
      obtain ⟨parts, hall, hlength, htext, hfold⟩ := ih heps
      have hends : EndsEndpoint ('\n' :: (parts.flatMap Prod.fst ++ rest)) := by
        rintro _ ⟨⟩
        rfl
      obtain ⟨pair, hmatch, hrule, hread⟩ := exists_endpoint (X := X) hep hends
      refine ⟨(ep.toText X ++ ['\n'], [pair]) :: parts, ⟨by simp, append_nl hmatch, hall⟩,
        congrArg Nat.succ hlength, ?_, fun f => ?_⟩
      · rw [List.flatMap_cons, htext]
        rfl
      · have hstep : step X.toHexDecoder C f pair =
            .ok { f with endpoints := f.endpoints ++ [ep] } := by
          rw [step, hrule]
          simp only [hread, ok_bind]
          rfl
        rw [List.flatMap_cons, List.foldlM_append, List.foldlM_cons, hstep]
        simp only [List.foldlM_nil, ok_bind, pure_bind, hfold, List.append_assoc,
          List.singleton_append]

/-- A signature holds no blank. -/
theorem blank_not_mem_sig {signature : Option Sig} (h : ∀ sig ∈ signature, ReadsSignature C sig) :
    ' ' ∉ signature.elim [] fun sig => (C.base64 sig).toList := by
  cases signature with
  | none => exact List.not_mem_nil
  | some sig =>
      obtain ⟨chars, padding, htext, hchars, hcount⟩ := (h sig rfl).accepted
      rw [Option.elim_some, htext]
      intro hmem
      rcases List.mem_append.1 hmem with hmem | hmem
      · have hchar := hchars _ hmem
        revert hchar
        decide
      · have hpadding : ∀ part ∈ [(88, []), (87, ['=']), (86, ['=', '='])], ' ' ∉ part.2 := by
          decide
        exact hpadding _ hcount hmem

/-- The text of a card: its head, its endpoints and its signature. -/
theorem signedText_eq {card : PeerCardV11} (h : card.Accepted C) :
    signedText C X card = card.headText C ++
      (List.intercalate ['\n'] (card.endpoints.map (EndpointV2.toText X)) ++ ['\n']) ++
      card.sig.elim [] fun sig => (C.base64 sig).toList := by
  have htext : TextSignable.asSignableText C X card = card.headText C ++
      List.intercalate ['\n'] (card.endpoints.map (EndpointV2.toText X)) ++ ['\n'] ++
      List.intercalate ['\n'] (card.endpointsStr.map String.toList) ++
      if card.endpointsStr.isEmpty then [] else ['\n'] := rfl
  rw [signedText, htext, h.endpointsStr]
  simp only [List.append_assoc, List.map_nil, List.isEmpty_nil, if_true, List.append_nil]
  rfl

/-- A printed card with endpoints is parsed as itself, of which the identifier of the node is read
in decimal. -/
theorem parse_signedText {card : PeerCardV11} (h : card.Accepted C) (hne : card.endpoints ≠ [])
    (hsig : ∀ sig ∈ card.sig, ReadsSignature C sig) :
    parse X.toHexDecoder C (String.ofList (signedText C X card)) = do
      let nodeId ← unwrap (parseUnsigned 32 (nodeIdText card.nodeId))
      return .ok { card with nodeId } := by
  obtain ⟨parts, hall, hlength, htext, hfold⟩ :=
    exists_endpoints (X := X) (C := C) h.endpoints (blank_not_mem_sig hsig)
  have hlines : linesText (card.endpoints.map (EndpointV2.toText X)) =
      List.intercalate ['\n'] (card.endpoints.map (EndpointV2.toText X)) ++ ['\n'] := by
    obtain ⟨ep, eps, heps⟩ := List.exists_cons_of_ne_nil hne
    rw [heps, List.map_cons, intercalate_append_nl]
  have hleast : 1 ≤ parts.length := hlength ▸ List.length_pos_of_ne_nil hne
  have hendpoints := matchesText_atLeast hall hleast
  rw [htext, hlines] at hendpoints
  have hparts := ((matchesText_headText h _).append hendpoints)
  have hopt := matchesText_optSig hsig
  rw [← List.append_nil (card.sig.elim [] _)] at hparts
  have hmatch := (hparts.append hopt).rule Rule.peerV11
  have hbuild := build_of_matchesText hmatch (fromPestPair X.toHexDecoder C)
    TextDocumentParseError.pestError
  rw [List.append_nil, ← signedText_eq h] at hbuild
  refine hbuild.trans ?_
  simp only [fromPestPair, Pair.inner_node, List.foldlM_append, foldlM_pairs h, hfold,
    foldlM_sigPairs hsig, bind_assoc, pure_bind, ok_bind, expect_some, Option.or_none,
    List.nil_append, ← h.endpointsStr]

/-- A printed card without endpoints is not parsed. -/
theorem parse_signedText_of_nil {card : PeerCardV11} (h : card.Accepted C)
    (hnil : card.endpoints = []) (hsig : ∀ sig ∈ card.sig, ReadsSignature C sig) :
    parse X.toHexDecoder C (String.ofList (signedText C X card)) = .ok (.error .pestError) := by
  have hblank : ' ' ∉ '\n' :: card.sig.elim [] fun sig => (C.base64 sig).toList := by
    intro hmem
    rcases List.mem_cons.1 hmem with heq | hmem
    · revert heq
      decide
    · exact blank_not_mem_sig hsig hmem
  have hloop := ((fails_endpoint_of_no_blank hblank).append Grammar.nl).atLeast Nat.zero_lt_one
  have hfails : Fails Grammar.peerV11 _ := (((matchesText_headText h _).append_fails hloop).append
    (Expr.opt Grammar.ed25519Sig)).rule Rule.peerV11
  have htext : signedText C X card = card.headText C ++
      '\n' :: card.sig.elim [] fun sig => (C.base64 sig).toList := by
    rw [signedText_eq h, hnil, List.append_assoc]
    rfl
  have hparse : NetworkDocsParser.parse Grammar.peerV11 (String.ofList (signedText C X card)) =
      none := by
    rw [NetworkDocsParser.parse, String.toList_ofList, htext, hfails true]
    rfl
  rw [parse, NetworkDocsParser.build, hparse]
  rfl

/-- A printed card is parsed as itself exactly when the identifier of its node is a decimal digit
and it has an endpoint. -/
theorem parse_signedText_iff {card : PeerCardV11} (h : card.Accepted C)
    (hsig : ∀ sig ∈ card.sig, ReadsSignature C sig) :
    parse X.toHexDecoder C (String.ofList (signedText C X card)) = .ok (.ok card) ↔
      card.nodeId < 10 ∧ card.endpoints ≠ [] := by
  rw [← parseUnsigned_nodeIdText_iff]
  by_cases hnil : card.endpoints = []
  · rw [parse_signedText_of_nil h hnil hsig]
    refine iff_of_false (fun heq => ?_) fun hread => hread.2 hnil
    cases Except.ok.inj heq
  · rw [parse_signedText h hnil hsig]
    constructor
    · intro hparse
      obtain ⟨nodeId, hread, hcard⟩ := bind_eq_ok_iff.1 hparse
      have heq : { card with nodeId } = card := Except.ok.inj (Except.ok.inj hcard)
      rw [unwrap_eq_ok_iff] at hread
      have hid : nodeId = card.nodeId := congrArg PeerCardV11.nodeId heq
      exact ⟨hid ▸ hread, hnil⟩
    · rintro ⟨hread, -⟩
      rw [hread]
      rfl

/-- A card that is signed and sent is received as it was sent exactly when the identifier of its
node is a decimal digit and it has an endpoint. -/
theorem relayed_card_iff (X : HexCodec) {card : PeerCardV11} (h : card.Accepted C)
    (hnew : card.sig = none) {privKey : PrivKey} (hkeys : IsKeyPair C privKey card.issuer) :
    ∃ signed text, signDocument C X card privKey = .ok (signed, text) ∧
      verifyDocument C X signed = .ok () ∧
      (parse X.toHexDecoder C (String.ofList text) = .ok (.ok signed) ↔
        card.nodeId < 10 ∧ card.endpoints ≠ []) := by
  obtain ⟨sig, hsig, hsign, hverify⟩ := exists_signed (X := X) card hnew hkeys
  refine ⟨{ card with sig := some sig }, _, hsign, hverify, ?_⟩
  have haccepted : Accepted C { card with sig := some sig } := { h with }
  refine parse_signedText_iff haccepted ?_
  rintro _ ⟨⟩
  exact hsig

/-- A card of two endpoints. -/
def exampleCard : PeerCardV11 where
  currencyName := "g1"
  issuer := exampleKeyPair.pubkey
  nodeId := 0
  blockstamp := ⟨50, 0x000005B1CEB4EC5245EF7E33101A330A1C9A358EC45A25FC13F78BB58C9E7370⟩
  endpoints := [
    { api := "WS2P", apiVersion := 2, networkFeatures := [1], apiFeatures := [7], ipV4 := none,
      ipV6 := none, host := some "g1.durs.ifee.fr", port := 443, path := some "ws2p" },
    { api := "WS2P", apiVersion := 2, networkFeatures := [1], apiFeatures := [7],
      ipV4 := some 0x541048d2#32, ipV6 := none, host := none, port := 443, path := some "ws2p" }]
  endpointsStr := []
  sig := none

/-- The signature of the example card, as it is printed. -/
def exampleCardSigText : String :=
  "jllpeEgxMg1xAL05yTZDTBpxUJgS+sHGAmXg9kid+07H4Z+Oawta+LlbpZRPu4gPJxMiAGYAlzYVi+LVGfn2DQ=="

/-- The signature of the example card. -/
def exampleCardSig : Sig where
  bytes := 0x8e5969784831320d7100bd39c936434c1a71509812fac1c60265e0f6489dfb4e#256 ++
    0xc7e19f8e6b0b5af8b95ba5944fbb880f2713220066009736158be2d519f9f60d#256

theorem accepted_exampleCard (sigText : String) (sig : Sig) :
    exampleCard.Accepted (exampleSigner sigText sig) where
  currencyName := ⟨'g', ['1'], rfl, by decide, by decide, by decide⟩
  nodeId := by decide
  issuer := readsKey_exampleSigner sigText sig
  blockstamp := by decide
  endpoints := by
    have hapi : IsApiText "WS2P".toList := ⟨by decide, by decide +kernel⟩
    have hpath : ∀ text ∈ some "ws2p", IsPathText text.toList := by
      rintro _ ⟨⟩
      exact ⟨by decide, by decide +kernel⟩
    have hhost : ∀ text ∈ some "g1.durs.ifee.fr", IsHostText text.toList := by
      rintro _ ⟨⟩
      exact ⟨'g', "1.durs.ifee.fr".toList, by decide +kernel, by decide, by decide +kernel⟩
    have hnone : ∀ text ∈ (none : Option String), IsHostText text.toList := by
      rintro _ ⟨⟩
    have hfeatures : [(1 : UInt8)] = [] ∨ ∃ byte, [(1 : UInt8)] = [byte] ∧ byte ≠ 0 ∧ byte < 16 :=
      Or.inr ⟨1, rfl, by decide, by decide⟩
    have hno : ∀ addr ∈ (none : Option Ipv6Addr), ¬ Ipv6Addr.EmbedsIpv4 addr := by
      rintro _ ⟨⟩
    refine List.forall_mem_cons.2 ⟨⟨?_, by decide, hno⟩,
      List.forall_mem_singleton.2 ⟨?_, by decide, hno⟩⟩
    · exact ⟨hapi, by decide, hfeatures, hhost, by decide, hpath⟩
    · exact ⟨hapi, by decide, hfeatures, hnone, by decide, hpath⟩
  endpointsStr := rfl

theorem relayed_card_example : ∃ signed text,
    signDocument (exampleSigner exampleCardSigText exampleCardSig) exampleHexCodec
      exampleCard exampleKeyPair.privkey = .ok (signed, text) ∧
    verifyDocument (exampleSigner exampleCardSigText exampleCardSig) exampleHexCodec
      signed = .ok () ∧
    parse exampleHexDecoder (exampleSigner exampleCardSigText exampleCardSig)
      (String.ofList text) = .ok (.ok signed) := by
  have hsig : IsSigText exampleCardSigText.toList :=
    ⟨exampleCardSigText.toList.take 86, ['=', '='], by decide +kernel, by decide +kernel,
      by decide +kernel⟩
  obtain ⟨signed, text, hsign, hverify, hread⟩ := relayed_card_iff exampleHexCodec
    (accepted_exampleCard exampleCardSigText exampleCardSig) rfl
    (isKeyPair_exampleSigner _ hsig)
  exact ⟨signed, text, hsign, hverify, hread.2 ⟨by decide, List.cons_ne_nil _ _⟩⟩

end PeerCardV11

end Durs.Network
