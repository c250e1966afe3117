/-
# Texts that convert

What the conversions of the texts of a block ask for: when a text converts, when it is refused and
when its conversion stops the process.
-/

import Durs.Documents.FromStr
import Durs.Documents.Reading

namespace Durs

open RustStd Lib Lib.Reading Lib.Peg

/-! ## Hashes and blockstamps -/

theorem toNat_le_of_hexValue {c : Char} (h : (hexValue c).isSome) : c.toNat ≤ 102 := by
  unfold hexValue at h
  split at h
  case isTrue hdigit =>
    have hbounds : 48 ≤ c.toNat ∧ c.toNat ≤ 57 := by
      simpa [Char.isDigit, UInt32.le_iff_toNat_le] using hdigit
    omega
  case isFalse =>
    split at h
    case isTrue hupper =>
      have hle : c.toNat ≤ 70 := UInt32.le_iff_toNat_le.1 hupper.2
      omega
    case isFalse =>
      split at h
      case isTrue hlower => exact UInt32.le_iff_toNat_le.1 hlower.2
      case isFalse => cases h

theorem utf8Size_of_hexValue {c : Char} (h : (hexValue c).isSome) : c.utf8Size = 1 :=
  if_pos (UInt32.le_iff_toNat_le.2 (Nat.le_trans (toNat_le_of_hexValue h) (by decide)))

theorem byteLen_cons (c : Char) (text : List Char) :
    byteLen (c :: text) = c.utf8Size + byteLen text := by
  rw [byteLen, List.map_cons, List.sum_cons]
  rfl

/-- Whether the digits of a text, two at a time, leave one character at its end: the second digit of
the last byte is asked for and is not there. -/
def hexOverruns : List Char → Bool
  | [] => false
  | [_] => true
  | c :: c' :: text => (hexValue c).isSome && (hexValue c').isSome && hexOverruns text

/-- Indexing the digits of a text of as many bytes. -/
theorem reads_hexBytes (count : Nat) {text : List Char} (h : byteLen text = 2 * count) :
    Reads (hexBytes count text) [.conversion (!hexOverruns text),
      .field (text.all fun c => (hexValue c).isSome)] := by
  induction count generalizing text with
  | zero =>
      have htext : text = [] := by
        cases text with
        | nil => rfl
        | cons c text =>
            have hpos := Char.utf8Size_pos c
            rw [byteLen_cons] at h
            omega
      subst htext
      exact (Reads.pure []).of_iff (by decide) (by decide)
  | succ count ih =>
      rcases text with _ | ⟨c, _ | ⟨c', text⟩⟩
      case nil => exact absurd h (by rw [show byteLen [] = 0 from rfl]; omega)
      case cons.nil =>
          have hfatal : Reads (hexBytes (count + 1) [c]) [.conversion false] :=
            Reads.except (by simp [fatalError])
          exact hfatal.of_iff (by simp [Harmless, hexOverruns])
            (by simp [complete_cons, Met, hexOverruns])
      case cons.cons =>
          have hmissing {x : OptionT Run (List Nat)} (hx : Reads x [.field false])
              (hdigits : ((hexValue c).isSome && (hexValue c').isSome) = false) :
              Reads x [.conversion (!hexOverruns (c :: c' :: text)),
                .field ((c :: c' :: text).all fun c => (hexValue c).isSome)] := by
            refine hx.of_iff ?_ ?_
            · rw [hexOverruns, hdigits, Bool.false_and]
              exact iff_of_true Bool.noConfusion ⟨rfl, fun _ => trivial⟩
            · rw [List.all_cons, List.all_cons, ← Bool.and_assoc, hdigits, Bool.false_and]
              simp only [complete_cons, Met, Bool.false_eq_true, false_and, and_false]
          rw [hexBytes]
          cases hc : hexValue c with
          | none => exact hmissing .failure (by rw [hc]; rfl)
          | some digit =>
              cases hc' : hexValue c' with
              | none => exact hmissing .failure (by rw [hc']; exact Bool.and_false _)
              | some digit' =>
                  have hlen : byteLen text = 2 * count := by
                    have hsize := utf8Size_of_hexValue (by rw [hc]; rfl)
                    have hsize' := utf8Size_of_hexValue (by rw [hc']; rfl)
                    rw [byteLen_cons, byteLen_cons, hsize, hsize'] at h
                    omega
                  rw [hexOverruns, List.all_cons, List.all_cons, hc, hc']
                  exact (ih hlen).map (digit :: digit' :: ·)

theorem isSome_mapM_hexValue (text : List Char) :
    (text.mapM hexValue).isSome = text.all fun c => (hexValue c).isSome := by
  induction text with
  | nil => rfl
  | cons c text ih =>
      rw [List.mapM_cons, List.all_cons, ← ih]
      cases hexValue c with
      | none => rfl
      | some digit =>
          cases text.mapM hexValue with
          | none => rfl
          | some digits => rfl

theorem byteLen_of_digits {text : List Char}
    (h : (text.all fun c => (hexValue c).isSome) = true) : byteLen text = text.length := by
  induction text with
  | nil => rfl
  | cons c text ih =>
      rw [List.all_cons, Bool.and_eq_true] at h
      rw [byteLen_cons, utf8Size_of_hexValue h.1, ih h.2, List.length_cons, Nat.add_comm]

/-- A text of 64 bytes is that of a hash when all of its characters are digits. -/
theorem isSome_fromHex {text : List Char} (h : byteLen text = 64) :
    (Hash.fromHex text).isSome = text.all fun c => (hexValue c).isSome := by
  rw [Hash.fromHex, ← isSome_mapM_hexValue]
  split
  case isTrue => rw [Option.isSome_map]
  case isFalse hlength =>
    rw [Option.isSome_none, isSome_mapM_hexValue, eq_comm, Bool.eq_false_iff]
    intro hdigits
    exact hlength (byteLen_of_digits hdigits ▸ h)

/-- What the conversion of a hash asks for. -/
def hashReadings (text : String) : List Reading :=
  [.field (byteLen text.toList = 64), .conversion (!hexOverruns text.toList),
    .field (Hash.fromHex text.toList).isSome]

theorem reads_hash (text : String) : Reads (Hash.fromHexText text) (hashReadings text) := by
  rw [Hash.fromHexText, hashReadings]
  by_cases h : byteLen text.toList = 64
  · rw [if_neg (not_not.2 h), isSome_fromHex h]
    refine ((reads_hexBytes 32 h).map _).of_iff ?_ ?_
    · simp only [Harmless, h, decide_true, true_imp_iff]
    · simp only [complete_cons, Met, h, decide_true, true_and]
  · rw [if_pos h]
    refine Reads.failure.of_iff ?_ ?_
    · simp only [Harmless, h, decide_false, Bool.false_eq_true, false_imp_iff]
    · simp only [complete_cons, Met, h, decide_false, Bool.false_eq_true, false_and]

/-- What the conversion of a blockstamp asks for: that of the hash is made first. -/
def blockstampReadings (src : String) : List Reading :=
  match split '-' src with
  | [id, hash] =>
      [.conversion (Harmless (hashReadings hash)), .field (parseUnsigned 32 id.toList).isSome,
        .field (Complete (hashReadings hash))]
  | _ => [.field false]

theorem reads_blockstamp (src : String) :
    Reads (Blockstamp.fromString src) (blockstampReadings src) := by
  unfold Blockstamp.fromString blockstampReadings
  match split '-' src with
  | [id, hash] =>
      have hhash := reads_hash hash
      refine hhash.attempt.bind fun hash? hrun => ?_
      rw [run_lift_eq_some_iff] at hrun
      refine (Reads.option _).bind fun id _ => ?_
      have hcomplete : hash?.isSome = decide (Complete (hashReadings hash)) := by
        rw [Bool.eq_iff_iff, decide_eq_true_iff, ← hhash.complete_iff, hrun,
          Option.isSome_iff_exists]
        exact exists_congr fun a => ⟨congrArg Except.ok, Except.ok.inj⟩
      rw [← hcomplete]
      exact (Reads.option hash?).map _
  | [] => exact Reads.failure
  | [_] => exact Reads.failure
  | _ :: _ :: _ :: _ => exact Reads.failure

/-! ## Currency parameters -/

/-- Whether a text is that of a parameter: three of them are floating point numbers. -/
def isParam (parseF64 : List Char → Option F64) (i : Nat) (param : String) : Bool :=
  if i = 0 ∨ i = 10 ∨ i = 16 then (parseF64 param.toList).isSome
  else (parseUnsigned 64 param.toList).isSome

/-- What the reading of a parameter asks for. -/
def paramReadings (parseF64 : List Char → Option F64) (params : List String) (i : Nat) :
    List Reading :=
  [.conversion params[i]?.isSome, .field (params[i]?.any (isParam parseF64 i))]

/-- What the reading of the parameters asks for. -/
def parametersReadings (parseF64 : List Char → Option F64) (source : String) : List Reading :=
  (List.range 20).flatMap (paramReadings parseF64 (split ':' source))

/-- A parameter must be there, and then be one that is parsed. -/
theorem reads_readParam {α : Type} {parse : List Char → Option α} {valid : String → Bool}
    (hvalid : ∀ param, valid param = (parse param.toList).isSome) (params : List String) (i : Nat) :
    Reads (readParam params i parse)
      [.conversion params[i]?.isSome, .field (params[i]?.any valid)] := by
  have hindex : Reads (OptionT.lift (indexVec params i)) [.conversion params[i]?.isSome] :=
    Reads.except returns_expect_iff
  refine hindex.bind fun param hrun => ?_
  rw [run_lift_eq_some_iff, indexVec, expect_eq_ok_iff] at hrun
  rw [hrun, Option.any_some, hvalid]
  exact Reads.option _

section Parameters

variable {parseF64 : List Char → Option F64}

theorem reads_param {α : Type} {parse : List Char → Option α} {i : Nat}
    (hparse : ∀ param, isParam parseF64 i param = (parse param.toList).isSome)
    (params : List String) : Reads (readParam params i parse) (paramReadings parseF64 params i) :=
  reads_readParam hparse params i

theorem reads_parameters (source : String) :
    Reads (BlockV10Parameters.fromStr parseF64 source) (parametersReadings parseF64 source) := by
  have hfloat {i : Nat} (h : i = 0 ∨ i = 10 ∨ i = 16) :
      Reads (readParam (split ':' source) i parseF64)
        (paramReadings parseF64 (split ':' source) i) :=
    reads_param (fun _ => if_pos h) _
  have hint {i : Nat} (h : ¬ (i = 0 ∨ i = 10 ∨ i = 16)) :
      Reads (readParam (split ':' source) i (parseUnsigned 64))
        (paramReadings parseF64 (split ':' source) i) :=
    reads_param (fun _ => if_neg h) _
  rw [parametersReadings,
    show List.range 20 = [0, 1, 2, 3, 4, 5, 6, 7, 8, 9, 10, 11, 12, 13, 14, 15, 16, 17, 18, 19]
      from rfl]
  simp only [List.flatMap_cons, List.flatMap_nil]
  refine (hfloat (by decide)).bind fun c _ => ?_
  refine (hint (by decide)).bind fun dt _ => ?_
  refine (hint (by decide)).bind fun ud0 _ => ?_
  refine (hint (by decide)).bind fun sigPeriod _ => ?_
  refine (hint (by decide)).bind fun sigStock _ => ?_
  refine (hint (by decide)).bind fun sigWindow _ => ?_
  refine (hint (by decide)).bind fun sigValidity _ => ?_
  refine (hint (by decide)).bind fun sigQty _ => ?_
  refine (hint (by decide)).bind fun idtyWindow _ => ?_
  refine (hint (by decide)).bind fun msWindow _ => ?_
  refine (hfloat (by decide)).bind fun xPercent _ => ?_
  refine (hint (by decide)).bind fun msValidity _ => ?_
  refine (hint (by decide)).bind fun stepMax _ => ?_
  refine (hint (by decide)).bind fun medianTimeBlocks _ => ?_
  refine (hint (by decide)).bind fun avgGenTime _ => ?_
  refine (hint (by decide)).bind fun dtDiffEval _ => ?_
  refine (hfloat (by decide)).bind fun percentRot _ => ?_
  refine (hint (by decide)).bind fun udTime0 _ => ?_
  refine (hint (by decide)).bind fun udReevalTime0 _ => ?_
  exact (hint (by decide)).bind fun dtReeval _ => Reads.pure _

end Parameters

variable {C : DocCrypto}

/-! ## Parts of a transaction -/

/-- Whether the text of a rule converts: a number must fit, and a key must have as many bytes as a
key has. -/
def ruleConverts (C : DocCrypto) (r : Rule) (text : List Char) : Bool :=
  match r with
  | .txAmount => (parseSigned 64 text).isSome
  | .txAmountBase | .txIndex | .inputIndex | .issuerIndex | .csvDuration | .cltvTimestamp =>
      (parseUnsigned 64 text).isSome
  | .duBlockId => (parseUnsigned 32 text).isSome
  | .pubkey => (C.fromBase58 (String.ofList text)).isSome
  | _ => true

/-- Whether the texts of a pair and of those within convert. -/
def PairConverts (C : DocCrypto) (pair : DocPair) : Prop := pair.all (ruleConverts C) = true

theorem isSome_fromHex_of_isHash {hash : List Char} (h : Grammar.IsHash hash) :
    (Hash.fromHex hash).isSome := by
  rcases Hash.fromHex_of_upper h.1 h.2 with ⟨value, hread, -⟩
  rw [hread]
  rfl

theorem pairConverts_node_iff {r : Rule} {text : List Char} {inner : List DocPair} :
    PairConverts C (.node r text inner) ↔
      ruleConverts C r text = true ∧ ∀ pair ∈ inner, PairConverts C pair := Pair.all_node_iff

theorem returns_input_iff {pair : DocPair} (h : Grammar.IsInput pair) :
    Returns (TransactionInput.fromPestPair C pair.inner) ↔ PairConverts C pair := by
  cases h with
  | du =>
      rw [Pair.inner_node, TransactionInput.fromPestPair_du,
        returns_bind_iff_and fun amount => returns_bind_iff_and fun base =>
        returns_bind_iff_and fun key => returns_bind_iff_of_forall fun block => returns_pure _]
      simp only [pairConverts_node_iff, List.forall_mem_cons, ruleConverts, List.not_mem_nil,
        false_imp_iff, implies_true, true_and, and_true, returns_unwrap_iff]
  | @tx _ _ hash _ _ _ _ hhash _ _ =>
      rw [Pair.inner_node, TransactionInput.fromPestPair_tx,
        returns_bind_iff_and fun amount => returns_bind_iff_and fun base =>
        returns_bind_iff_and fun hash => returns_bind_iff_of_forall fun index => returns_pure _]
      simp only [pairConverts_node_iff, List.forall_mem_cons, ruleConverts, List.not_mem_nil,
        false_imp_iff, implies_true, true_and, and_true, returns_unwrap_iff,
        isSome_fromHex_of_isHash hhash]

theorem returns_unlockProof_iff {cond : DocPair} (h : Grammar.IsUnlockCond cond) :
    Returns (readUnlockProof cond) ↔ PairConverts C cond := by
  cases h with
  | sig =>
      rw [readUnlockProof_unlockSig, returns_bind_iff_of_forall fun index => returns_pure _]
      simp only [pairConverts_node_iff, List.forall_mem_cons, ruleConverts, List.not_mem_nil,
        false_imp_iff, implies_true, true_and, and_true, returns_unwrap_iff]
  | xhx =>
      refine iff_of_true ⟨_, rfl⟩ ?_
      simp only [pairConverts_node_iff, List.forall_mem_cons, ruleConverts, List.not_mem_nil,
        false_imp_iff, implies_true, and_true]

theorem returns_unlocks_iff {pair : DocPair} (h : Grammar.IsUnlock pair) :
    Returns (TransactionInputUnlocks.fromPestPair pair.inner) ↔ PairConverts C pair := by
  cases h with
  | @mk index cond conds _ hcond hconds =>
      have hall := List.forall_mem_cons.2 ⟨hcond, hconds⟩
      rw [Pair.inner_node, TransactionInputUnlocks.fromPestPair_eq hall,
        returns_bind_iff_and fun index => returns_bind_iff_of_forall fun unlocks => returns_pure _,
        returns_unwrap_iff, returns_mapM_iff]
      have hproofs : (∀ proof ∈ cond :: conds, Returns (readUnlockProof proof)) ↔
          ∀ proof ∈ cond :: conds, PairConverts C proof :=
        forall₂_congr fun proof hmem => returns_unlockProof_iff (hall proof hmem)
      rw [hproofs]
      simp only [pairConverts_node_iff, List.forall_mem_cons, ruleConverts, List.not_mem_nil,
        false_imp_iff, implies_true, true_and, and_true]

theorem wrapAll_eq_mapM (pairs : List DocPair) :
    UTXOConditionsGroup.wrapAll C pairs = pairs.mapM (UTXOConditionsGroup.wrapUtxoConds C) := by
  induction pairs with
  | nil => rfl
  | cons pair pairs ih => rw [UTXOConditionsGroup.wrapAll, List.mapM_cons, ih]

theorem returns_newChain {op : UTXOConditionsGroup → UTXOConditionsGroup → UTXOConditionsGroup}
    {groups : List UTXOConditionsGroup} (h : 2 ≤ groups.length) :
    Returns (UTXOConditionsGroup.newChain op groups) := by
  rw [← List.length_reverse] at h
  rw [UTXOConditionsGroup.newChain]
  cases hgroups : groups.reverse with
  | nil => rw [hgroups] at h; cases h
  | cons last others =>
      cases others with
      | nil => rw [hgroups] at h; exact absurd h (by simp)
      | cons previous others => exact returns_pure _

/-- A group of at least two conditions returns when each of its conditions does. -/
theorem returns_chain_iff {op : UTXOConditionsGroup → UTXOConditionsGroup → UTXOConditionsGroup}
    {first second : DocPair} {conds : List DocPair} :
    Returns (do
      let groups ← UTXOConditionsGroup.wrapAll C (first :: second :: conds)
      let chain ← UTXOConditionsGroup.newChain op groups
      return UTXOConditionsGroup.brackets chain) ↔
      ∀ cond ∈ first :: second :: conds, Returns (UTXOConditionsGroup.wrapUtxoConds C cond) := by
  rw [wrapAll_eq_mapM, returns_bind_iff, ← returns_mapM_iff]
  refine exists_congr fun groups => and_iff_left_of_imp fun hgroups => ?_
  rw [returns_bind_iff_of_forall fun chain => returns_pure _]
  refine returns_newChain ?_
  rw [length_of_mapM hgroups, List.length_cons, List.length_cons]
  omega

theorem returns_wrapUtxoConds_iff {cond : DocPair} (h : Grammar.IsCond cond) :
    Returns (UTXOConditionsGroup.wrapUtxoConds C cond) ↔ PairConverts C cond := by
  have hgroup {r : Rule} {text : List Char} {first second : DocPair} {conds : List DocPair}
      (hr : ruleConverts C r text = true)
      (hfirst : Returns (UTXOConditionsGroup.wrapUtxoConds C first) ↔ PairConverts C first)
      (hsecond : Returns (UTXOConditionsGroup.wrapUtxoConds C second) ↔ PairConverts C second)
      (hconds : ∀ cond ∈ conds,
        (Returns (UTXOConditionsGroup.wrapUtxoConds C cond) ↔ PairConverts C cond)) :
      (∀ cond ∈ first :: second :: conds,
        Returns (UTXOConditionsGroup.wrapUtxoConds C cond)) ↔
        PairConverts C (.node r text (first :: second :: conds)) := by
    rw [pairConverts_node_iff, and_iff_right hr]
    simp only [List.forall_mem_cons, hfirst, hsecond]
    exact and_congr_right fun _ => and_congr_right fun _ => forall₂_congr hconds
  have hsingle {α : Type} {r r' : Rule} {text value : List Char} {x : Option α}
      {cond : α → TransactionOutputCondition} (hr : ruleConverts C r text = true)
      (hr' : ruleConverts C r' value = x.isSome) :
      Returns (do let v ← unwrap x; return UTXOConditionsGroup.single (cond v)) ↔
        PairConverts C (.node r text [.leaf r' value]) := by
    rw [returns_bind_iff_of_forall fun v => returns_pure _, returns_unwrap_iff, ← hr']
    simp only [pairConverts_node_iff, List.forall_mem_cons, hr, List.not_mem_nil, false_imp_iff,
      implies_true, true_and, and_true]
  induction h with
  | sig => exact hsingle rfl rfl
  | xhx hhash => exact hsingle rfl (isSome_fromHex_of_isHash hhash).symm
  | csv => exact hsingle rfl rfl
  | cltv => exact hsingle rfl rfl
  | and _ _ _ hfirst hsecond hconds =>
      rw [UTXOConditionsGroup.wrapUtxoConds, returns_chain_iff]
      exact hgroup rfl hfirst hsecond hconds
  | or _ _ _ hfirst hsecond hconds =>
      rw [UTXOConditionsGroup.wrapUtxoConds, returns_chain_iff]
      exact hgroup rfl hfirst hsecond hconds

theorem returns_output_iff {pair : DocPair} (h : Grammar.IsOutput pair) :
    Returns (TransactionOutput.fromPestPair C pair.inner) ↔ PairConverts C pair := by
  cases h with
  | mk _ _ hcond =>
      rw [Pair.inner_node, TransactionOutput.fromPestPair_eq,
        returns_bind_iff_and fun amount => returns_bind_iff_and fun base =>
        returns_bind_iff_of_forall fun conditions => returns_pure _,
        returns_wrapUtxoConds_iff hcond]
      simp only [pairConverts_node_iff, List.forall_mem_cons, ruleConverts, List.not_mem_nil,
        false_imp_iff, implies_true, true_and, and_true, returns_unwrap_iff]

/-- What the building of a part from the rules within a text asks for: that the grammar matches the
text, and that the texts of the rules convert. -/
def innerReadings (C : DocCrypto) (e : Lib.Peg.Expr Rule) (source : String) : List Reading :=
  match DocumentsParser.parse e source with
  | some pairs => [.field true, .conversion (pairs.all fun pair => pair.all (ruleConverts C))]
  | none => [.field false]

theorem reads_inner {α : Type} {e : Lib.Peg.Expr Rule} {IsPart : DocPair → Prop}
    {fromPestPair : List DocPair → Run α}
    (hlang : ∀ text pairs, e.lang text pairs → ∃ pair, IsPart pair ∧ text = pair.text ∧
      pairs = [pair])
    (hreturns : ∀ pair, IsPart pair → (Returns (fromPestPair pair.inner) ↔ PairConverts C pair))
    (source : String) : Reads (parseInner e fromPestPair source) (innerReadings C e source) := by
  unfold parseInner innerReadings
  cases hparse : DocumentsParser.parse e source with
  | none => exact Reads.failure
  | some pairs =>
      rcases Option.map_eq_some_iff.1 hparse with ⟨m, hm, hpairs⟩
      rcases hlang _ _ (e.sound hm).2 with ⟨pair, hpart, -, hpair⟩
      obtain rfl : pairs = [pair] := hpairs.symm.trans hpair
      refine (Reads.option (some [pair])).bind fun pairs' hrun => ?_
      obtain rfl := Option.some.inj (run_option_eq_some_iff.1 hrun)
      refine Reads.except (x := fromPestPair pair.inner) ?_
      rw [List.all_cons, List.all_nil, Bool.and_true]
      exact hreturns pair hpart

theorem reads_input (source : String) :
    Reads (TransactionInput.fromStr C source) (innerReadings C Grammar.txInput source) :=
  reads_inner (fun _ _ => Grammar.of_lang_txInput) (fun _ => returns_input_iff) source

theorem reads_unlocks (source : String) :
    Reads (TransactionInputUnlocks.fromStr source) (innerReadings C Grammar.txUnlock source) :=
  reads_inner (fun _ _ => Grammar.of_lang_txUnlock) (fun _ => returns_unlocks_iff) source

/-- What the conversion of an output asks for, of the text with brackets if the grammar matches
it. -/
def outputReadings (C : DocCrypto) (source : String) : List Reading :=
  let strToParse := TransactionOutput.strToParse source
  innerReadings C Grammar.txOutput
    (if (DocumentsParser.parse Grammar.txOutput strToParse).isSome then strToParse else source)

theorem reads_output (source : String) :
    Reads (TransactionOutput.fromStr C source) (outputReadings C source) := by
  have h := reads_inner (C := C) (fun _ _ => Grammar.of_lang_txOutput)
    (fun _ => returns_output_iff)
    (if (DocumentsParser.parse Grammar.txOutput (TransactionOutput.strToParse source)).isSome
      then TransactionOutput.strToParse source else source)
  exact h.map _

/-! ## Compact revocations and certifications -/

/-- Whether the parts of a revocation convert, when there are two of them. -/
def revocationConverts (C : DocCrypto) (revocation : String) : Bool :=
  match split ':' revocation with
  | [issuer, signature] => (C.fromBase58 issuer).isSome && (C.fromBase64 signature).isSome
  | _ => true

theorem returns_compactRevocation_iff (revocation : String) :
    Returns (parseCompactRevocation C revocation) ↔ revocationConverts C revocation = true := by
  unfold parseCompactRevocation revocationConverts
  match split ':' revocation with
  | [issuer, signature] =>
      dsimp only
      rw [returns_bind_iff_and fun issuer => returns_bind_iff_of_forall fun _ => returns_pure _,
        returns_expect_iff, returns_expect_iff, Bool.and_eq_true]
  | [] => exact iff_of_true (returns_pure _) rfl
  | [_] => exact iff_of_true (returns_pure _) rfl
  | _ :: _ :: _ :: _ => exact iff_of_true (returns_pure _) rfl

theorem returns_revocations_iff (revocations : List String) :
    Returns (parseRevocationsIntoCompact C revocations) ↔
      revocations.all (revocationConverts C) = true := by
  rw [parseRevocationsIntoCompact, returns_bind_iff_of_forall fun _ => returns_pure _,
    returns_mapM_iff, List.all_eq_true]
  exact forall₂_congr fun revocation _ => returns_compactRevocation_iff revocation

/-- Whether the parts of a certification convert, when there are four of them. -/
def certificationConverts (C : DocCrypto) (certification : String) : Bool :=
  match split ':' certification with
  | [issuer, target, blockNumber, signature] =>
      (C.fromBase58 issuer).isSome && (C.fromBase58 target).isSome &&
        (parseUnsigned 32 blockNumber.toList).isSome && (C.fromBase64 signature).isSome
  | _ => true

theorem returns_compactCertification_iff (certification : String) :
    Returns (parseCompactCertification C certification) ↔
      certificationConverts C certification = true := by
  unfold parseCompactCertification certificationConverts
  match split ':' certification with
  | [issuer, target, blockNumber, signature] =>
      dsimp only
      rw [returns_bind_iff_and fun issuer => returns_bind_iff_and fun target =>
        returns_bind_iff_and fun blockNumber => returns_bind_iff_of_forall fun _ => returns_pure _]
      simp only [returns_expect_iff, Bool.and_eq_true, and_assoc]
  | [] => exact iff_of_true (returns_pure _) rfl
  | [_] => exact iff_of_true (returns_pure _) rfl
  | [_, _] => exact iff_of_true (returns_pure _) rfl
  | [_, _, _] => exact iff_of_true (returns_pure _) rfl
  | _ :: _ :: _ :: _ :: _ :: _ => exact iff_of_true (returns_pure _) rfl

theorem returns_certifications_iff (certifications : List String) :
    Returns (parseCertificationsIntoCompact C certifications) ↔
      certifications.all (certificationConverts C) = true := by
  rw [parseCertificationsIntoCompact, returns_bind_iff_of_forall fun _ => returns_pure _,
    returns_mapM_iff, List.all_eq_true]
  exact forall₂_congr fun certification _ => returns_compactCertification_iff certification

end Durs
