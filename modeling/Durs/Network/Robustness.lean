/-
# Network texts that stop the parsers

The parsers of the network unwrap what they convert, since the grammar is held to exclude the texts
that do not convert.  It does so for bytes, hashes, features and addresses of version 4; a text stops
the process exactly when a number, an address of version 6, a key or a signature that it finds there
does not convert, or a message lacks a field that is asked for.
-/

import Durs.Documents.Canonical
import Durs.Network.Documents
import Durs.Network.HeadMessages

namespace Durs.Network

open RustStd Lib.Peg Lib.Peg.Expr

variable {H : HexDecoder} {C : DocCrypto}

/-! ## What fits -/

/-- Whether the text of a rule fits the type that it is converted to. -/
def textFits (C : DocCrypto) (r : Rule) (text : List Char) : Bool :=
  match r with
  | .apiVersionInner | .port => (parseUnsigned 16 text).isSome
  | .ip6Inner => (Ipv6Addr.fromStr text).isSome
  | .nodeId | .blockId => (parseUnsigned 32 text).isSome
  | .pubkey => (C.fromBase58 (String.ofList text)).isSome
  | .ed25519Sig => (C.fromBase64 (String.ofList text)).isSome
  | .step => (parseUnsigned 8 text).isSome
  | _ => true

/-- Whether the texts of a pair and of those within fit. -/
def TextsFit (C : DocCrypto) (pair : Pair Rule) : Prop := pair.all (textFits C) = true

instance (C : DocCrypto) (pair : Pair Rule) : Decidable (TextsFit C pair) :=
  inferInstanceAs (Decidable (_ = true))

/-- Whether what an expression finds in a text fits. -/
def DocFits (C : DocCrypto) (e : Expr Rule) (text : String) : Prop :=
  ∀ pair ∈ (NetworkDocsParser.parse e text).getD [], TextsFit C pair

instance (C : DocCrypto) (e : Expr Rule) (text : String) : Decidable (DocFits C e text) :=
  inferInstanceAs (Decidable (∀ pair ∈ (NetworkDocsParser.parse e text).getD [], TextsFit C pair))

theorem textsFit_node_iff {r : Rule} {text : List Char} {inner : List (Pair Rule)} :
    TextsFit C (.node r text inner) ↔
      textFits C r text = true ∧ ∀ pair ∈ inner, TextsFit C pair := Pair.all_node_iff

theorem textsFit_leaf_iff {r : Rule} {text : List Char} :
    TextsFit C (.leaf r text) ↔ textFits C r text = true :=
  textsFit_node_iff.trans (and_iff_left (List.forall_mem_nil _))

/-! ## What the grammar bounds -/

/-- Two characters of a class. -/
theorem exists_pair_of_lang {p : Char → Bool} {text : List Char} {pairs : List (Pair Rule)}
    (h : (between 2 2 (chr p)).lang text pairs) :
    ∃ c d, text = [c, d] ∧ p c = true ∧ p d = true := by
  rcases h with ⟨count, hleast, hmost, hchars⟩
  rcases hchars.chars (p := fun c => p c = true) (fun _ _ ⟨c, hc, htext, _⟩ => ⟨c, hc, htext⟩) with
    ⟨hlength, hall⟩
  obtain ⟨c, d, rfl⟩ := List.length_eq_two.1 (hlength.trans (Nat.le_antisymm hmost hleast))
  exact ⟨c, d, rfl, hall c List.mem_cons_self, hall d (List.mem_cons_of_mem _ List.mem_cons_self)⟩

theorem isByteText_hundreds {a b c : Char} (ha : a.isDigit = true) (hb : b.isDigit = true)
    (hc : c.isDigit = true)
    (hlt : 100 * (a.toNat - 48) + 10 * (b.toNat - 48) + (c.toNat - 48) < 256) :
    IsByteText [a, b, c] where
  ne_nil := List.cons_ne_nil _ _
  length_le := le_refl 3
  digits := List.forall_mem_cons.2 ⟨ha, List.forall_mem_cons.2 ⟨hb, List.forall_mem_singleton.2 hc⟩⟩
  lt := by
    have hzero : ('0' : Char).toNat = 48 := rfl
    simp only [Nat.ofDigitChars_cons, Nat.ofDigitChars_nil, hzero]
    omega

theorem isByteText_tens {a b : Char} (ha : a.isDigit = true) (hb : b.isDigit = true) :
    IsByteText [a, b] where
  ne_nil := List.cons_ne_nil _ _
  length_le := Nat.le_succ 2
  digits := List.forall_mem_cons.2 ⟨ha, List.forall_mem_singleton.2 hb⟩
  lt := by
    have hzero : ('0' : Char).toNat = 48 := rfl
    have ha' := toNat_of_isDigit ha
    have hb' := toNat_of_isDigit hb
    simp only [Nat.ofDigitChars_cons, Nat.ofDigitChars_nil, hzero]
    omega

theorem isDigit_of_le_le {c d : Char} (h : ('0' ≤ c && c ≤ d) = true) (hd : d.isDigit = true) :
    c.isDigit = true ∧ c.toNat ≤ d.toNat := by
  rw [Bool.and_eq_true, decide_eq_true_eq, decide_eq_true_eq] at h
  have hlow : ('0' : Char).val ≤ c.val := h.1
  have hhigh : c.val ≤ d.val := h.2
  simp only [Char.isDigit, Bool.and_eq_true, decide_eq_true_eq] at hd ⊢
  exact ⟨⟨hlow, UInt32.le_trans hhigh hd.2⟩, UInt32.le_iff_toNat_le.1 hhigh⟩

/-- A byte in decimal is at most 255. -/
theorem isByteText_of_lang {text : List Char} {pairs : List (Pair Rule)}
    (h : Grammar.u8.lang text pairs) : IsByteText text := by
  have htwo : ('2' : Char).toNat = 50 := rfl
  have hone : ('1' : Char).toNat = 49 := rfl
  rcases h with ⟨⟨inner, h⟩, -⟩
  simp only [Grammar.u8Hundreds, Grammar.tens, lang_orElse, lang_append, lang_chr, lang_str] at h
  rcases h with (⟨_, _, _, _, ⟨rfl, -⟩, hrest, rfl, -⟩ | ⟨_, _, _, _, ⟨rfl, -⟩, hrest, rfl, -⟩) |
    ⟨_, _, _, _, ⟨c, hc, rfl, -⟩, ⟨d, hd, rfl, -⟩, rfl, -⟩ | ⟨c, hc, rfl, -⟩
  · rcases hrest with ⟨_, _, _, _, ⟨c, hc, rfl, -⟩, ⟨d, hd, rfl, -⟩, rfl, -⟩ | hrest
    · have hfour : ('4' : Char).toNat = 52 := rfl
      obtain ⟨hdigit, hle⟩ := isDigit_of_le_le hc rfl
      have hd' := toNat_of_isDigit hd
      show IsByteText ['2', c, d]
      exact isByteText_hundreds rfl hdigit hd (by omega)
    · have hfive : ('5' : Char).toNat = 53 := rfl
      obtain ⟨c, d, rfl, hc, hd⟩ := exists_pair_of_lang hrest
      obtain ⟨hcdigit, hcle⟩ := isDigit_of_le_le hc rfl
      obtain ⟨hddigit, hdle⟩ := isDigit_of_le_le hd rfl
      show IsByteText ['2', c, d]
      exact isByteText_hundreds rfl hcdigit hddigit (by omega)
  · obtain ⟨c, d, rfl, hc, hd⟩ := exists_pair_of_lang hrest
    have hc' := toNat_of_isDigit hc
    have hd' := toNat_of_isDigit hd
    show IsByteText ['1', c, d]
    exact isByteText_hundreds rfl hc hd (by omega)
  · exact isByteText_tens (isDigit_of_le (by simpa using hc)) hd
  · have hc' := toNat_of_isDigit hc
    have hzero : ('0' : Char).toNat = 48 := rfl
    refine ⟨List.cons_ne_nil _ _, Nat.le_add_left 1 2, List.forall_mem_singleton.2 hc, ?_⟩
    simp only [Nat.ofDigitChars_cons, Nat.ofDigitChars_nil, hzero]
    omega

theorem isSome_ipv4_of_lang {text : List Char} {pairs : List (Pair Rule)}
    (h : (Grammar.u8 ++ (str "." ++ (Grammar.u8 ++ (str "." ++ (Grammar.u8 ++ (str "." ++
      Grammar.u8)))))).lang text pairs) : (Ipv4Addr.fromStr text).isSome = true := by
  rcases h with ⟨a, _, _, _, ha, ⟨_, _, _, _, ⟨rfl, -⟩, ⟨b, _, _, _, hb, ⟨_, _, _, _, ⟨rfl, -⟩,
    ⟨c, _, _, _, hc, ⟨_, _, d, _, ⟨rfl, -⟩, hd, rfl, -⟩, rfl, -⟩, rfl, -⟩, rfl, -⟩, rfl, -⟩, rfl, -⟩
  exact isSome_ipv4 (isByteText_of_lang ha) (isByteText_of_lang hb) (isByteText_of_lang hc)
    (isByteText_of_lang hd)

/-- A lower-case digit, as the grammar has them. -/
theorem isSome_hexValue_of_lang {text : List Char} {pairs : List (Pair Rule)}
    (h : Grammar.hexaLower.lang text pairs) : ∃ c, (hexValue c).isSome = true ∧ text = [c] := by
  rcases h with ⟨c, hc, rfl, -⟩
  rcases hexValue_of_hexaLower hc with ⟨digit, hvalue, -⟩
  exact ⟨c, Option.isSome_iff_exists.2 ⟨digit, hvalue⟩, rfl⟩

/-- Features are an even number of digits, or one, before which a zero is put. -/
theorem isSome_features_of_lang (H : HexDecoder) {text : List Char} {pairs : List (Pair Rule)}
    (h : (atLeast 1 (between 2 2 Grammar.hexaLower) <|> Grammar.noZeroHexaLower).lang text pairs) :
    (H.decode (if text.length = 1 then '0' :: text else text)).isSome = true := by
  rcases h with ⟨count, -, hrep⟩ | ⟨c, hc, rfl, -⟩
  · have hblock (text : List Char) (pairs : List (Pair Rule))
        (h : (between 2 2 Grammar.hexaLower).lang text pairs) :
        text.length = 2 ∧ ∀ c ∈ text, (hexValue c).isSome = true := by
      rcases h with ⟨count, hleast, hmost, hchars⟩
      obtain rfl := Nat.le_antisymm hmost hleast
      exact hchars.chars fun _ _ => isSome_hexValue_of_lang
    obtain ⟨hlength, hdigits⟩ := hrep.blocks hblock
    rw [if_neg (by omega)]
    exact H.isSome_decode text (by omega) hdigits
  · have hlower : (c.isDigit || ('a' ≤ c && c ≤ 'f')) = true := by
      rw [Bool.or_eq_true] at hc ⊢
      refine hc.imp_left fun hc => ?_
      exact isDigit_of_le (by simpa using hc)
    rcases hexValue_of_hexaLower hlower with ⟨digit, hvalue, -⟩
    rw [if_pos (List.length_singleton)]
    refine H.isSome_decode _ (Nat.mod_self 2) (List.forall_mem_cons.2 ⟨rfl, List.forall_mem_singleton.2 ?_⟩)
    rw [hvalue, Option.isSome_some]

/-- A hash is 64 upper-case digits. -/
theorem isSome_hash_of_lang {text : List Char} {pairs : List (Pair Rule)}
    (h : (between 64 64 Grammar.hexaUpper).lang text pairs) :
    (Hash.fromHex text).isSome = true := by
  rcases h with ⟨count, hleast, hmost, hchars⟩
  rcases hchars.chars (p := fun c => isHexaUpper c = true)
    (fun _ _ ⟨c, hc, htext, _⟩ => ⟨c, hc, htext⟩) with ⟨hlength, hupper⟩
  rcases Hash.fromHex_of_upper (hlength.trans (Nat.le_antisymm hmost hleast)) hupper with
    ⟨hash, hread, -⟩
  rw [hread, Option.isSome_some]

/-! ## What the steps ask for -/

section Steps

variable {S : Type} {step : S → Pair Rule → Run S} {e : Expr Rule} {r : Rule}

variable (C step) in
/-- Whether a step takes a field exactly when the texts of the field fit. -/
def AsksFit (field : Pair Rule) : Prop := ∀ s, Returns (step s field) ↔ TextsFit C field

/-- A rule whose text is taken over. -/
theorem records_taken (hstep : ∀ s text, Returns (step s (.leaf r text)))
    (hfits : ∀ text, textFits C r text = true) : Records (AsksFit C step) (atomic r e) :=
  records_atomic fun text _ _ s => iff_of_true (hstep s text) (textsFit_leaf_iff.2 (hfits text))

/-- A rule whose text is converted. -/
theorem records_converted {A : Type} {convert : List Char → Option A} {next : S → A → S}
    (hstep : ∀ s text, step s (.leaf r text) = do let a ← unwrap (convert text); return next s a)
    (hfits : ∀ text inner, e.lang text inner → textFits C r text = (convert text).isSome) :
    Records (AsksFit C step) (atomic r e) := by
  intro text pairs h field hfield s
  rcases h with ⟨⟨inner, hinner⟩, rfl⟩
  obtain rfl := List.mem_singleton.1 hfield
  rw [hstep, returns_bind_iff_of_forall fun a => returns_pure _, returns_unwrap_iff,
    textsFit_leaf_iff, hfits text inner hinner]

variable (C r) in
/-- Whether what an expression finds is a rule that is read exactly when it fits. -/
def ReadsFit {A : Type} (read : Pair Rule → Run A) (e : Expr Rule) : Prop :=
  ∀ text pairs, e.lang text pairs → ∃ inner, pairs = [.node r text inner] ∧
    (Returns (read (.node r text inner)) ↔ TextsFit C (.node r text inner))

/-- A rule that is read as a whole. -/
theorem ReadsFit.records {A : Type} {read : Pair Rule → Run A} {next : S → A → S}
    (h : ReadsFit C r read e) (hstep : ∀ s text inner, step s (.node r text inner) = do
      let a ← read (.node r text inner)
      return next s a) : Records (AsksFit C step) e := by
  intro text pairs hlang field hfield s
  rcases h text pairs hlang with ⟨inner, rfl, hread⟩
  obtain rfl := List.mem_singleton.1 hfield
  rw [hstep, returns_bind_iff_of_forall fun a => returns_pure _, hread]

theorem ReadsFit.map {A B : Type} {read : Pair Rule → Run A} (h : ReadsFit C r read e)
    (f : A → B) : ReadsFit C r (fun pair => f <$> read pair) e := by
  intro text pairs hlang
  rcases h text pairs hlang with ⟨inner, rfl, hread⟩
  refine ⟨inner, rfl, ?_⟩
  show Returns (f <$> read (.node r text inner)) ↔ _
  rw [map_eq_pure_bind, returns_bind_iff_of_forall fun a => returns_pure _, hread]

/-- A parser returns exactly when what it finds fits. -/
theorem ReadsFit.returns_build_iff {A E : Type} {read : Pair Rule → Run A}
    (h : ReadsFit C r read e) (pestError : E) (text : String) :
    Returns (NetworkDocsParser.build e read pestError text) ↔ DocFits C e text := by
  unfold NetworkDocsParser.build DocFits
  cases hparse : NetworkDocsParser.parse e text with
  | none => exact iff_of_true ⟨_, rfl⟩ (List.forall_mem_nil _)
  | some pairs =>
      rcases Option.map_eq_some_iff.1 hparse with ⟨m, hm, rfl⟩
      rcases h _ _ (e.sound hm).2 with ⟨inner, hpairs, hread⟩
      rw [hpairs, Option.getD_some, List.forall_mem_singleton, ← hread]
      exact returns_bind_iff_of_forall fun document => returns_pure _

end Steps

/-- A byte is converted. -/
theorem textFits_byte {r : Rule} (hfits : ∀ text, textFits C r text = true)
    {text : List Char} {inner : List (Pair Rule)} (h : Grammar.u8.lang text inner) :
    textFits C r text = (parseUnsigned 8 text).isSome := by
  rw [hfits, (isByteText_of_lang h).isSome_parseUnsigned]

/-! ## Endpoints -/

/-- An address of version 4 is always read. -/
theorem readsFit_ip4 : ReadsFit C .ip4Inner
    (fun field => unwrap (Ipv4Addr.fromStr field.text)) Grammar.ip4Inner := by
  have hbyte : Records (TextsFit C) Grammar.u8 :=
    records_atomic fun _ _ _ => textsFit_leaf_iff.2 rfl
  have hdot : Records (TextsFit C) (str ".") := records_str "."
  have hbytes := hbyte.append (hdot.append (hbyte.append (hdot.append
    (hbyte.append (hdot.append hbyte)))))
  rintro text pairs ⟨inner, hinner, rfl⟩
  refine ⟨inner, rfl, iff_of_true ?_ (textsFit_node_iff.2 ⟨rfl, hbytes text inner hinner⟩)⟩
  exact returns_unwrap_iff.2 (isSome_ipv4_of_lang hinner)

variable (H C) in
/-- An endpoint is built exactly when its texts fit. -/
theorem readsFit_endpointV2 :
    ReadsFit C .endpointV2 (EndpointV2.fromPestPair H) Grammar.endpointV2 := by
  have hstr (s : String) : Records (AsksFit C (EndpointV2.step H)) (str s) := records_str s
  have hname : Records (AsksFit C (EndpointV2.step H)) Grammar.apiName :=
    records_taken (fun _ _ => returns_pure _) (fun _ => rfl)
  have hversion : Records (AsksFit C (EndpointV2.step H)) Grammar.apiVersionInner :=
    records_converted (fun _ _ => rfl) (fun _ _ _ => rfl)
  have hhttp : Records (AsksFit C (EndpointV2.step H)) Grammar.http :=
    records_taken (fun _ _ => returns_pure _) (fun _ => rfl)
  have hws : Records (AsksFit C (EndpointV2.step H)) Grammar.ws :=
    records_taken (fun _ _ => returns_pure _) (fun _ => rfl)
  have htls : Records (AsksFit C (EndpointV2.step H)) Grammar.tls :=
    records_taken (fun _ _ => returns_pure _) (fun _ => rfl)
  have htor : Records (AsksFit C (EndpointV2.step H)) Grammar.tor :=
    records_taken (fun _ _ => returns_pure _) (fun _ => rfl)
  have hfeatures : Records (AsksFit C (EndpointV2.step H)) Grammar.apiFeaturesInner :=
    records_converted (fun _ _ => rfl) (fun _ _ h => (isSome_features_of_lang H h).symm)
  have hhost : Records (AsksFit C (EndpointV2.step H)) Grammar.hostV2Inner :=
    records_taken (fun _ _ => returns_pure _) (fun _ => rfl)
  have hip4 : Records (AsksFit C (EndpointV2.step H)) Grammar.ip4Inner :=
    readsFit_ip4.records fun _ _ _ => rfl
  have hip6 : Records (AsksFit C (EndpointV2.step H)) Grammar.ip6Inner :=
    records_converted (fun _ _ => rfl) (fun _ _ _ => rfl)
  have hport : Records (AsksFit C (EndpointV2.step H)) Grammar.port :=
    records_converted (fun _ _ => rfl) (fun _ _ _ => rfl)
  have hpath : Records (AsksFit C (EndpointV2.step H)) Grammar.pathInner :=
    records_taken (fun _ _ => returns_pure _) (fun _ => rfl)
  have hnetwork := ((hhttp.opt.append hws.opt).append htls.opt).append htor.opt
  have hfields := (((((((((hname.append (hstr " ")).append
    (((hstr "V").append hversion).append (hstr " ")).opt).append hnetwork.opt).append
    (((hstr "0x").append hfeatures).append (hstr " ")).opt).append
    (hhost.append (hstr " ")).opt).append (hip4.append (hstr " ")).opt).append
    (((hstr "[").append hip6).append (hstr "] ")).opt).append hport).append
    ((hstr " ").append hpath).opt)
  have hrest (ep : EndpointV2) : Returns (if ep.networkFeatures.all (· = 0) then
      pure { ep with networkFeatures := [] } else pure ep : Run EndpointV2) := by
    split
    case isTrue => exact returns_pure _
    case isFalse => exact returns_pure _
  rintro text pairs ⟨inner, hinner, rfl⟩
  refine ⟨inner, rfl, ?_⟩
  rw [EndpointV2.fromPestPair, returns_bind_iff_of_forall hrest, Pair.inner_node,
    returns_foldlM_iff (hfields text inner hinner), textsFit_node_iff]
  exact (and_iff_right rfl).symm

/-! ## Peer cards and heads -/

/-- A blockstamp is read exactly when its number fits. -/
theorem readsFit_blockstamp : ReadsFit C .blockstamp readBlockstamp Grammar.blockstamp := by
  rintro text pairs ⟨_, ⟨_, _, hash, _, ⟨id, _, _, _, ⟨-, rfl⟩, ⟨rfl, rfl⟩, rfl, rfl⟩,
    ⟨⟨_, hhash⟩, rfl⟩, rfl, rfl⟩, rfl⟩
  refine ⟨[.leaf .blockId id, .leaf .hash hash], rfl, ?_⟩
  have hread (text : List Char) : readBlockstamp (.node .blockstamp text
      [.leaf .blockId id, .leaf .hash hash]) = do
        let number ← unwrap (parseUnsigned 32 id)
        let hash ← unwrap (Hash.fromHex hash)
        return { id := number, hash } := rfl
  have hfits : Returns (unwrap (Hash.fromHex hash)) :=
    returns_unwrap_iff.2 (isSome_hash_of_lang hhash)
  rw [hread, returns_bind_iff_of_forall fun number =>
      (returns_bind_iff_of_forall fun hash => returns_pure _).2 hfits,
    returns_unwrap_iff, textsFit_node_iff, List.forall_mem_cons, List.forall_mem_singleton,
    textsFit_leaf_iff, textsFit_leaf_iff]
  exact ⟨fun h => ⟨rfl, h, rfl⟩, fun h => h.2.1⟩

/-- What a step of a peer card sets, and that it keeps what is set. -/
theorem PeerCardV11.step_sets {f f' : PeerCardV11.Fields} {field : Pair Rule}
    (h : PeerCardV11.step H C f field = .ok f') :
    (field.rule = .pubkey ∨ f.issuer.isSome = true → f'.issuer.isSome = true) ∧
      (field.rule = .blockstamp ∨ f.blockstamp.isSome = true → f'.blockstamp.isSome = true) := by
  unfold PeerCardV11.step at h
  split at h
  case h_1 hrule =>
    obtain rfl := pure_eq_ok_iff.1 h
    simp [hrule]
  case h_7 => cases h
  all_goals
    rename_i hrule
    obtain ⟨_, -, h⟩ := bind_eq_ok_iff.1 h
    obtain rfl := pure_eq_ok_iff.1 h
    simp [hrule]

/-- What a step of a head sets, and that it keeps what is set. -/
theorem NetworkHeadV3.takeField_sets {f f' : NetworkHeadV3.Fields} {field : Pair Rule}
    (h : NetworkHeadV3.takeField C f field = .ok f') :
    (field.rule = .pubkey ∨ f.pubkey.isSome = true → f'.pubkey.isSome = true) ∧
      (field.rule = .blockstamp ∨ f.blockstamp.isSome = true → f'.blockstamp.isSome = true) := by
  unfold NetworkHeadV3.takeField at h
  split at h
  case h_1 hrule | h_9 hrule | h_10 hrule =>
    obtain rfl := pure_eq_ok_iff.1 h
    simp [hrule]
  case h_13 => cases h
  all_goals
    rename_i hrule
    obtain ⟨_, -, h⟩ := bind_eq_ok_iff.1 h
    obtain rfl := pure_eq_ok_iff.1 h
    simp [hrule]

/-- A document is built from fields exactly when their texts fit: the steps set the key and the
blockstamp, which the grammar asks for. -/
theorem returns_fields_iff {S D : Type} {step : S → Pair Rule → Run S} {start : S}
    {key : S → Option PubKey} {stamp : S → Option Blockstamp} {keyMessage stampMessage : String}
    {make : S → PubKey → Blockstamp → D} {r : Rule} {text : List Char} {inner : List (Pair Rule)}
    (hr : textFits C r text = true) (hasks : ∀ field ∈ inner, AsksFit C step field)
    (hkey : ∃ field ∈ inner, field.rule = .pubkey)
    (hstamp : ∃ field ∈ inner, field.rule = .blockstamp)
    (hsets : ∀ s field s', step s field = .ok s' →
      (field.rule = .pubkey ∨ (key s).isSome = true → (key s').isSome = true) ∧
        (field.rule = .blockstamp ∨ (stamp s).isSome = true → (stamp s').isSome = true)) :
    Returns (do
      let s ← inner.foldlM step start
      let issuer ← expect (key s) keyMessage
      let blockstamp ← expect (stamp s) stampMessage
      return make s issuer blockstamp) ↔ TextsFit C (.node r text inner) := by
  have hfold := returns_foldlM_iff hasks start
  rw [textsFit_node_iff, and_iff_right hr, ← hfold, returns_bind_iff]
  constructor
  · rintro ⟨s, hrun, -⟩
    exact ⟨s, hrun⟩
  · rintro ⟨s, hrun⟩
    have hissuer : (key s).isSome = true := foldlM_brings
      (P := fun s => (key s).isSome = true) (fun s field s' h => (hsets s field s' h).1) hrun
      (Or.inl hkey)
    have hblockstamp : (stamp s).isSome = true := foldlM_brings
      (P := fun s => (stamp s).isSome = true) (fun s field s' h => (hsets s field s' h).2) hrun
      (Or.inl hstamp)
    refine ⟨s, hrun, ?_⟩
    rw [returns_bind_iff_of_forall fun issuer =>
      (returns_bind_iff_of_forall fun blockstamp => returns_pure _).2
        (returns_expect_iff.2 hblockstamp)]
    exact returns_expect_iff.2 hissuer

variable (H C) in
/-- A peer card is built exactly when its texts fit. -/
theorem readsFit_peerV11 : ReadsFit C .peerV11 (PeerCardV11.fromPestPair H C) Grammar.peerV11 := by
  have hstr (s : String) : Records (AsksFit C (PeerCardV11.step H C)) (str s) := records_str s
  have hcurrency : Records (AsksFit C (PeerCardV11.step H C)) Grammar.currency :=
    records_taken (fun _ _ => returns_pure _) (fun _ => rfl)
  have hnode : Records (AsksFit C (PeerCardV11.step H C)) Grammar.nodeId :=
    records_converted (fun _ _ => rfl) (fun _ _ _ => rfl)
  have hpubkey : Records (AsksFit C (PeerCardV11.step H C)) Grammar.pubkey :=
    records_converted (fun _ _ => rfl) (fun _ _ _ => rfl)
  have hblockstamp : Records (AsksFit C (PeerCardV11.step H C)) Grammar.blockstamp :=
    readsFit_blockstamp.records fun _ _ _ => rfl
  have hendpoint : Records (AsksFit C (PeerCardV11.step H C)) Grammar.endpointV2 :=
    (readsFit_endpointV2 H C).records fun _ _ _ => rfl
  have hsig : Records (AsksFit C (PeerCardV11.step H C)) Grammar.ed25519Sig :=
    records_converted (fun _ _ => rfl) (fun _ _ _ => rfl)
  have hfields := ((((((((((hstr "11:").append hcurrency).append (hstr ":")).append hnode).append
    (hstr ":")).append hpubkey).append (hstr ":")).append hblockstamp).append (hstr "\n")).append
    ((hendpoint.append (hstr "\n")).atLeast 1)).append hsig.opt
  rintro text pairs ⟨inner, hinner, rfl⟩
  refine ⟨inner, rfl, returns_fields_iff rfl (hfields text inner hinner) ?_ ?_
    fun s field s' => PeerCardV11.step_sets⟩
  · refine Includes.append_left ?_ _ text inner hinner
    iterate 4 apply Includes.append_left
    exact (includes_atomic _ _).append_right _
  · refine Includes.append_left ?_ _ text inner hinner
    iterate 2 apply Includes.append_left
    exact (includes_rule _ _).append_right _

variable (C) in
/-- A head is built exactly when its texts fit. -/
theorem readsFit_headV3 : ReadsFit C .headV3 (NetworkHeadV3.fromPestPair C) Grammar.headV3 := by
  have hstr (s : String) : Records (AsksFit C (NetworkHeadV3.takeField C)) (str s) := records_str s
  have hcurrency : Records (AsksFit C (NetworkHeadV3.takeField C)) Grammar.currency :=
    records_taken (fun _ _ => returns_pure _) (fun _ => rfl)
  have houtgoing : Records (AsksFit C (NetworkHeadV3.takeField C)) Grammar.apiOutgoingConf :=
    records_converted (fun _ _ => rfl) (fun _ _ => textFits_byte fun _ => rfl)
  have hincoming : Records (AsksFit C (NetworkHeadV3.takeField C)) Grammar.apiIncomingConf :=
    records_converted (fun _ _ => rfl) (fun _ _ => textFits_byte fun _ => rfl)
  have hmember : Records (AsksFit C (NetworkHeadV3.takeField C)) Grammar.freeMemberRooms :=
    records_converted (fun _ _ => rfl) (fun _ _ => textFits_byte fun _ => rfl)
  have hmirror : Records (AsksFit C (NetworkHeadV3.takeField C)) Grammar.freeMirrorRooms :=
    records_converted (fun _ _ => rfl) (fun _ _ => textFits_byte fun _ => rfl)
  have hnode : Records (AsksFit C (NetworkHeadV3.takeField C)) Grammar.nodeId :=
    records_converted (fun _ _ => rfl) (fun _ _ _ => rfl)
  have hpubkey : Records (AsksFit C (NetworkHeadV3.takeField C)) Grammar.pubkey :=
    records_converted (fun _ _ => rfl) (fun _ _ _ => rfl)
  have hblockstamp : Records (AsksFit C (NetworkHeadV3.takeField C)) Grammar.blockstamp :=
    readsFit_blockstamp.records fun _ _ _ => rfl
  have hsoftware : Records (AsksFit C (NetworkHeadV3.takeField C)) Grammar.software :=
    records_taken (fun _ _ => returns_pure _) (fun _ => rfl)
  have hversion : Records (AsksFit C (NetworkHeadV3.takeField C)) Grammar.softVersion :=
    records_taken (fun _ _ => returns_pure _) (fun _ => rfl)
  have hsig : Records (AsksFit C (NetworkHeadV3.takeField C)) Grammar.ed25519Sig :=
    records_converted (fun _ _ => rfl) (fun _ _ _ => rfl)
  have hstep : Records (AsksFit C (NetworkHeadV3.takeField C)) Grammar.step :=
    records_converted (fun _ _ => rfl) (fun _ _ _ => rfl)
  have hfields := ((((((((((((((((((((((hstr "3:").append hcurrency).append (hstr ":")).append
    houtgoing).append (hstr ":")).append hincoming).append (hstr ":")).append hmember).append
    (hstr ":")).append hmirror).append (hstr ":")).append hnode).append (hstr ":")).append
    hpubkey).append (hstr ":")).append hblockstamp).append (hstr ":")).append hsoftware).append
    (hstr ":")).append hversion).append (hstr "\n")).append hsig.opt).append
    ((hstr "\n").append hstep).opt
  rintro text pairs ⟨inner, hinner, rfl⟩
  refine ⟨inner, rfl, returns_fields_iff rfl (hfields text inner hinner) ?_ ?_
    fun s field s' => NetworkHeadV3.takeField_sets⟩
  · refine Includes.append_left ?_ _ text inner hinner
    iterate 8 apply Includes.append_left
    exact (includes_atomic _ _).append_right _
  · refine Includes.append_left ?_ _ text inner hinner
    iterate 6 apply Includes.append_left
    exact (includes_rule _ _).append_right _

variable (H C) in
/-- A network document is built exactly when the texts of the card or the head in it fit. -/
theorem readsFit_networkDocument : ReadsFit C .networkDocument (fun pair => do
    let (document, _) ← nextPair pair.inner
    NetworkDocument.fromPestPair H C document) Grammar.networkDocument := by
  rintro text pairs ⟨_, ⟨_, _, _, _, ⟨_, _, _, _, ⟨rfl, rfl⟩, hdocument, rfl, rfl⟩,
    ⟨rfl, rfl⟩, rfl, rfl⟩, rfl⟩
  have hfits (text : List Char) (pair : Pair Rule) :
      TextsFit C (.node .networkDocument text ([pair] ++ [.leaf .eoi []])) ↔ TextsFit C pair := by
    rw [textsFit_node_iff, List.singleton_append, List.forall_mem_cons,
      List.forall_mem_singleton, textsFit_leaf_iff]
    exact ⟨fun h => h.2.1, fun h => ⟨rfl, h, rfl⟩⟩
  rcases hdocument with hhead | hpeer
  · rcases readsFit_headV3 C _ _ hhead with ⟨inner, rfl, hread⟩
    refine ⟨_, rfl, ?_⟩
    rw [hfits, ← hread]
    exact returns_bind_iff_of_forall fun head => returns_pure _
  · rcases readsFit_peerV11 H C _ _ hpeer with ⟨inner, rfl, hread⟩
    refine ⟨_, rfl, ?_⟩
    rw [hfits, ← hread]
    exact returns_bind_iff_of_forall fun card => returns_pure _

/-! ## The parsers -/

variable (H C) in
/-- Each of the parsers of network texts returns on a text. -/
structure NetworkTextReturns (text : String) : Prop where
  endpointV1 : ∀ issuer status lastCheck,
    Returns (EndpointV1.parseFromRaw C text issuer status lastCheck)
  endpointV2 : Returns (EndpointV2.parseFromRaw H text)
  peerCard : Returns (PeerCardV11.parse H C text)
  head : Returns (NetworkHeadV3.parse C text)
  document : Returns (NetworkDocument.parse H C text)
  headMessage : Returns (NetworkHeadMessage.fromStr C text).run

/-- Each parser returns on a text exactly when what its grammar finds there fits, and the one of
head messages when the fields are there that it comes to. -/
theorem networkTextReturns_iff (H : HexDecoder) (C : DocCrypto) (text : String) :
    (∀ issuer status lastCheck,
      Returns (EndpointV1.parseFromRaw C text issuer status lastCheck) ↔ EndpointFits text) ∧
    (Returns (EndpointV2.parseFromRaw H text) ↔ DocFits C Grammar.endpointV2 text) ∧
    (Returns (PeerCardV11.parse H C text) ↔ DocFits C Grammar.peerV11 text) ∧
    (Returns (NetworkHeadV3.parse C text) ↔ DocFits C Grammar.headV3 text) ∧
    (Returns (NetworkDocument.parse H C text) ↔ DocFits C Grammar.networkDocument text) ∧
    (Returns (NetworkHeadMessage.fromStr C text).run ↔ HeadMessageFits C text) :=
  ⟨fun issuer status lastCheck => returns_parseFromRaw_iff C text issuer status lastCheck,
    ((readsFit_endpointV2 H C).map EndpointEnum.v2).returns_build_iff _ text,
    (readsFit_peerV11 H C).returns_build_iff _ text,
    (readsFit_headV3 C).returns_build_iff _ text,
    (readsFit_networkDocument H C).returns_build_iff _ text,
    returns_headMessage_iff C text⟩

/-- The bytes that the digits of a text write, two at a time. -/
def decodePairs : List Char → Option (List UInt8)
  | [] => some []
  | [_] => none
  | c :: c' :: text => do
      let digit ← hexValue c
      let digit' ← hexValue c'
      let bytes ← decodePairs text
      return UInt8.ofNat (16 * digit + digit') :: bytes

/-- A decoder of hexadecimal texts. -/
def exampleHexDecoder : HexDecoder where
  decode := decodePairs
  isSome_decode text heven hdigits := by
    induction text using decodePairs.induct with
    | case1 => rfl
    | case2 c => cases heven
    | case3 c c' text ih =>
        rcases List.forall_mem_cons.1 hdigits with ⟨hc, hdigits⟩
        rcases List.forall_mem_cons.1 hdigits with ⟨hc', hdigits⟩
        rcases Option.isSome_iff_exists.1 hc with ⟨digit, hdigit⟩
        rcases Option.isSome_iff_exists.1 hc' with ⟨digit', hdigit'⟩
        have hlength : text.length % 2 = 0 := by
          rw [List.length_cons, List.length_cons] at heven
          omega
        rcases Option.isSome_iff_exists.1 (ih hlength hdigits) with ⟨bytes, hbytes⟩
        rw [decodePairs, hdigit, hdigit', hbytes]
        rfl

/-- A blockstamp and what stands before it, in the texts of a head and of a peer card whose node
identifier is ten. -/
def exampleStampText : String :=
  ":a:" ++ exampleKeyText ++ ":50-000005B1CEB4EC5245EF7E33101A330A1C9A358EC45A25FC13F78BB58C9E7370"

/-- Numbers that do not fit, an address that is none, node identifiers in hexadecimal and a message
without fields stop the parsers. -/
theorem not_networkTextReturns :
    (¬ ∀ text, NetworkTextReturns exampleHexDecoder exampleCrypto text) ∧
    ¬ Returns (EndpointV1.parseFromRaw exampleCrypto "WS2P h 18446744073709551616"
      exampleKeyPair.pubkey 0 0) ∧
    ¬ Returns (EndpointV2.parseFromRaw exampleHexDecoder "WS2P 65536") ∧
    ¬ Returns (EndpointV2.parseFromRaw exampleHexDecoder "WS2P [:1::] 80") ∧
    ¬ Returns (PeerCardV11.parse exampleHexDecoder exampleCrypto
      ("11:g1" ++ exampleStampText ++ "\nWS2P 80\n")) ∧
    ¬ Returns (NetworkHeadV3.parse exampleCrypto
      ("3:g1:0:0:0:0" ++ exampleStampText ++ ":durs:0.1.0\n")) ∧
    ¬ Returns (NetworkHeadMessage.fromStr exampleCrypto "").run := by
  have hmessage : ¬ Returns (NetworkHeadMessage.fromStr exampleCrypto "").run := by
    decide +kernel
  refine ⟨fun h => hmessage (h "").headMessage, ?_, ?_, ?_, ?_, ?_, hmessage⟩
  · decide +kernel
  · decide +kernel
  · decide +kernel
  · decide +kernel
  · decide +kernel

end Durs.Network
