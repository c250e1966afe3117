/-
# The texts of output conditions

The conditions of an output print a text that the rule of the output conditions reads back as the
same conditions.  A chain of conditions is folded to the right within one pair of brackets, and
printed without brackets for the inner operators, so that it is read as the same chain.
-/

import Durs.Documents.Canonical
import Durs.Documents.Conversions
import Durs.Lib.PegRuns

namespace Durs

open RustStd Lib Lib.Peg Lib.Peg.Expr

namespace Grammar

variable {text rest : List Char}

/-! ## Numbers and hashes -/

theorem fails_chr_close {p : Char → Bool} (hp : p ')' = false) (rest : List Char) :
    Fails (R := Rule) (chr p) (')' :: rest) := by
  refine fails_chr fun c hc => ?_
  obtain rfl := Option.some.inj hc
  exact hp

theorem matchesText_uInt (h : IsUInt text) (rest : List Char) :
    MatchesText uInt text [] (')' :: rest) := by
  have hdigit {c : Char} (hc : c.isDigit = true) (rest : List Char) :
      MatchesText (R := Rule) (chr Char.isDigit) [c] [] rest := matchesText_chr hc rest
  rcases h with rfl | ⟨c, digits, rfl, hc, hdigits⟩
  · exact (matchesText_str "0" _).orElse _
  · have hne : c ≠ '0' := by
      rintro rfl
      exact absurd hc.1 (by decide)
    have hzero : Fails (R := Rule) (str "0") (c :: digits ++ ')' :: rest) := by
      refine fails_str fun rest h => hne ?_
      exact (List.cons.inj h).1.symm
    refine hzero.orElse_matchesText ?_
    have hfirst : MatchesText (R := Rule) (chr fun c => '1' ≤ c && c ≤ '9') [c] []
        (digits ++ ')' :: rest) := matchesText_chr (by simpa using hc) _
    exact hfirst.append (matchesText_atLeast_chars (fun c hc => hdigit (hdigits c hc))
      (fails_chr_close (by decide) rest) (Nat.zero_le _))

theorem matchesText_hash (h : IsHash text) (rest : List Char) :
    MatchesText hash text [.leaf .hash text] (')' :: rest) :=
  (matchesText_between_chars (fun c hc => matchesText_chr (h.2 c hc))
    (fails_chr_close (by decide) rest) h.1.ge h.1.le).atomic .hash

/-! ## Public keys -/

/-- A character of a public key. -/
def isBase58 (c : Char) : Bool := c.isAlphanum && c ≠ 'O' && c ≠ 'I' && c ≠ 'l'

/-- A text of 43 or 44 characters of a public key. -/
def IsKey (text : List Char) : Prop :=
  43 ≤ text.length ∧ text.length ≤ 44 ∧ ∀ c ∈ text, isBase58 c = true

theorem matchesText_base58 {c : Char} (h : isBase58 c = true) (rest : List Char) :
    MatchesText base58 [c] [] rest := by
  simp only [isBase58, Bool.and_eq_true, decide_eq_true_eq] at h
  rcases h with ⟨⟨⟨hchar, hO⟩, hI⟩, hl⟩
  have hne {s : String} {d : Char} (hs : s.toList = [d]) (hd : c ≠ d) :
      Fails (R := Rule) (str s) (c :: rest) := by
    refine fails_str fun rest heq => hd ?_
    rw [hs] at heq
    exact (List.cons.inj heq).1.symm
  have hexcluded : Fails (R := Rule) (str "O" <|> str "I" <|> str "l") (c :: rest) :=
    (hne rfl hO).orElse ((hne rfl hI).orElse (hne rfl hl))
  have hahead : MatchesText (R := Rule) (notFollowedBy (str "O" <|> str "I" <|> str "l")) [] []
      ([c] ++ rest) := hexcluded.notFollowedBy
  exact hahead.append (matchesText_chr hchar rest)

theorem of_base58_run {start : Bool} {cs : List Char} {m : Match Rule}
    (h : base58.run start cs = some m) : ∃ c, isBase58 c = true ∧ m.text = [c] := by
  rcases seqRun_eq_some_iff.1 h with ⟨m₁, hahead, m₂, hchar, rfl⟩
  have hexcluded : (str "O" <|> str "I" <|> str "l" : Expr Rule).run start cs = none ∧
      m₁ = Match.none cs := by
    simp only [notFollowedBy] at hahead
    split at hahead
    case isTrue => cases hahead
    case isFalse hnone =>
      exact ⟨Option.not_isSome_iff_eq_none.1 hnone, (Option.some.inj hahead).symm⟩
  rcases hexcluded with ⟨hnone, rfl⟩
  cases cs with
  | nil => cases hchar
  | cons c rest =>
      simp only [chr, Match.none] at hchar
      split at hchar
      case isFalse => cases hchar
      case isTrue hc =>
        obtain rfl := Option.some.inj hchar
        refine ⟨c, ?_, rfl⟩
        have hne {s : String} {d : Char} (hs : s.toList = [d])
            (hstr : (str s : Expr Rule).run start (c :: rest) = none) : c ≠ d := by
          rintro rfl
          have hmatch := matchesText_str (R := Rule) s rest start
          rw [hs] at hmatch
          cases hmatch.symm.trans hstr
        rcases Option.or_eq_none_iff.1 hnone with ⟨hO, hnone⟩
        rcases Option.or_eq_none_iff.1 hnone with ⟨hI, hl⟩
        simp only [isBase58, Bool.and_eq_true, decide_eq_true_eq]
        exact ⟨⟨⟨hc, hne rfl hO⟩, hne rfl hI⟩, hne rfl hl⟩

theorem matchesText_pubkey (h : IsKey text) (rest : List Char) :
    MatchesText pubkey text [.leaf .pubkey text] (')' :: rest) := by
  have hclose : Fails base58 (')' :: rest) := by
    intro start
    rfl
  exact (matchesText_between_chars (fun c hc => matchesText_base58 (h.2.2 c hc)) hclose h.1
    h.2.1).atomic .pubkey

/-- Whether a rule is no public key, or its text is one of a public key. -/
def keyFits (r : Rule) (text : List Char) : Bool :=
  match r with
  | .pubkey => 43 ≤ text.length && text.length ≤ 44 && text.all isBase58
  | _ => true

/-- Whether the public keys recorded have the texts of public keys. -/
def KeysFit (pair : DocPair) : Prop := pair.all keyFits = true

theorem keysFit_node_iff {r : Rule} {inner : List DocPair} :
    KeysFit (.node r text inner) ↔ keyFits r text = true ∧ ∀ pair ∈ inner, KeysFit pair :=
  Pair.all_node_iff

theorem keysFit_pubkey_iff : KeysFit (.leaf .pubkey text) ↔ IsKey text := by
  simp only [keysFit_node_iff, keyFits, List.not_mem_nil, false_imp_iff, implies_true, and_true,
    Bool.and_eq_true, decide_eq_true_eq, List.all_eq_true, IsKey, and_assoc]

theorem yields_pubkey : Yields KeysFit pubkey := by
  intro start cs m hm
  rcases Option.map_eq_some_iff.1 hm with ⟨m', hm', rfl⟩
  exact List.forall_mem_singleton.2
    (keysFit_pubkey_iff.2 (of_between_run (fun _ _ _ => of_base58_run) hm'))

theorem yields_atomic {r : Rule} (hr : ∀ text, keyFits r text = true) (e : Expr Rule) :
    Yields KeysFit (atomic r e) :=
  (records_atomic fun text _ _ =>
    keysFit_node_iff.2 ⟨hr text, List.forall_mem_nil _⟩).yields

theorem yields_str (s : String) : Yields KeysFit (str s) := (records_str s).yields

theorem yields_outputCond {r : Rule} (hr : ∀ text, keyFits r text = true) (word : String)
    {value : Expr Rule} (hvalue : Yields KeysFit value) :
    Yields KeysFit (outputCond r word value) :=
  (((yields_str word).append hvalue).append (yields_str ")").opt).rule fun text _ hinner =>
    keysFit_node_iff.2 ⟨hr text, hinner⟩

theorem yields_outputOpGroup {r : Rule} (hr : ∀ text, keyFits r text = true) (op : String)
    {group : Expr Rule} (hgroup : Yields KeysFit group) :
    Yields KeysFit (outputOpGroup r op group) :=
  ((((yields_str "(").append hgroup).append (((yields_str op).append hgroup).atLeast 1)).append
    (yields_str ")")).rule fun text _ hinner => keysFit_node_iff.2 ⟨hr text, hinner⟩

/-- The public keys of output conditions have the texts of public keys. -/
theorem yields_outputCondsGroup : Yields KeysFit outputCondsGroup := by
  refine yields_recursive fun group hgroup => ?_
  refine (yields_outputOpGroup (fun _ => rfl) _ hgroup).orElse
    ((yields_outputOpGroup (fun _ => rfl) _ hgroup).orElse ?_)
  exact (yields_outputCond (fun _ => rfl) _ yields_pubkey).orElse
    ((yields_outputCond (fun _ => rfl) _ (yields_atomic (fun _ => rfl) _)).orElse
      ((yields_outputCond (fun _ => rfl) _ (yields_atomic (fun _ => rfl) _)).orElse
        (yields_outputCond (fun _ => rfl) _ (yields_atomic (fun _ => rfl) _))))

/-! ## Conditions -/

/-- The output conditions, in terms of those within. -/
def condsGroupBody (group : Expr Rule) : Expr Rule :=
  outputOpGroup .outputAndGroup " && " group <|> outputOpGroup .outputOrGroup " || " group <|>
    outputSingleCond

theorem matchesText_outputCond {r : Rule} {value : Expr Rule} {pairs : List DocPair}
    {rest : List Char} (hvalue : MatchesText value text pairs (')' :: rest)) (word : String) :
    MatchesText (outputCond r word value) (word.toList ++ text ++ [')'])
      [.node r (word.toList ++ text ++ [')']) pairs] rest := by
  have hclose : MatchesText (R := Rule) (opt (str ")")) [')'] [] rest := (matchesText_str ")" _).opt
  have hbody := ((matchesText_str word _).append hvalue).append hclose
  rw [List.nil_append, List.append_nil] at hbody
  exact hbody.rule r

theorem fails_outputCond {r : Rule} {word : String} {cs : List Char}
    (h : ∀ rest, word.toList ++ rest ≠ cs) (value : Expr Rule) :
    Fails (outputCond r word value) cs :=
  ((fails_str h).append _).append _ |>.rule r

theorem fails_outputOpGroup {cs : List Char} (h : ∀ rest, '(' :: rest ≠ cs) (r : Rule)
    (op : String) (group : Expr Rule) : Fails (outputOpGroup r op group) cs := by
  have hopen : Fails (R := Rule) (str "(") cs := fails_str h
  exact (((hopen.append _).append _).append _).rule r

section

variable {α : Type} {group : Expr Rule} {print : α → List Char} {record : α → DocPair}
  {first : α} {others : List α}

theorem matchesText_first
    (hfirst : ∀ rest, MatchesText group (print first) [record first] rest) (rest : List Char) :
    MatchesText (str "(" ++ group) ('(' :: print first) [record first] rest :=
  (matchesText_str "(" _).append (hfirst rest)

/-- Conditions with an operator before each of them. -/
theorem matchesAll_others {op : String}
    (hclose : ∀ rest rest', op.toList ++ rest ≠ ')' :: rest')
    (h : ∀ other ∈ others, ∀ rest, MatchesText group (print other) [record other] rest)
    (rest : List Char) : MatchesAll (str op ++ group)
      (others.map fun other => (op.toList ++ print other, [record other])) (')' :: rest) := by
  induction others with
  | nil => exact (fails_str fun rest' => hclose rest' rest).append group
  | cons other others ih =>
      rcases List.forall_mem_cons.1 h with ⟨hother, hothers⟩
      refine ⟨?_, (matchesText_str op _).append (hother _), ih hothers⟩
      intro hnil
      have hop : op.toList = [] := (List.append_eq_nil_iff.1 hnil).1
      exact hclose (')' :: rest) rest (by rw [hop, List.nil_append])

/-- The text of a chain of conditions within brackets. -/
def chainText (op : String) (print : α → List Char) (first : α) (others : List α) : List Char :=
  '(' :: print first ++ others.flatMap (fun other => op.toList ++ print other) ++ [')']

theorem length_lt_chainText {op : String} {cond : α} (h : cond ∈ first :: others) :
    (print cond).length < (chainText op print first others).length := by
  rw [chainText]
  rcases List.mem_cons.1 h with rfl | hmem
  · simp only [List.length_append, List.length_cons]
    omega
  · rcases List.append_of_mem hmem with ⟨before, after, rfl⟩
    simp only [List.flatMap_append, List.flatMap_cons, List.length_append, List.length_cons]
    omega

theorem matchesText_outputOpGroup {op : String}
    (hclose : ∀ rest rest', op.toList ++ rest ≠ ')' :: rest') (hothers : others ≠ [])
    (h : ∀ cond ∈ first :: others, ∀ rest, MatchesText group (print cond) [record cond] rest)
    (r : Rule) (rest : List Char) :
    MatchesText (outputOpGroup r op group) (chainText op print first others)
      [.node r (chainText op print first others) ((first :: others).map record)] rest := by
  rcases List.forall_mem_cons.1 h with ⟨hfirst, h⟩
  have hleast : 1 ≤
      (others.map fun other => (op.toList ++ print other, [record other])).length := by
    rw [List.length_map]
    exact List.length_pos_of_ne_nil hothers
  have hrest := matchesText_atLeast (matchesAll_others hclose h rest) hleast
  rw [List.flatMap_map, List.flatMap_map] at hrest
  have hbody := ((matchesText_first hfirst _).append hrest).append (matchesText_str ")" rest)
  rw [List.append_nil, ← List.map_eq_flatMap] at hbody
  exact hbody.rule r

/-- A chain with the other operator is no chain with this one. -/
theorem fails_outputOpGroup_of_first {op : String}
    (hfirst : ∀ rest, MatchesText group (print first) [record first] rest) {rest : List Char}
    (hop : ∀ rest', op.toList ++ rest' ≠ rest) (r : Rule) :
    Fails (outputOpGroup r op group) ('(' :: print first ++ rest) := by
  have hnext : Fails (str op ++ group) rest := (fails_str hop).append group
  have hchain := (matchesText_first hfirst rest).append_fails (hnext.atLeast Nat.zero_lt_one)
  exact (hchain.append (str ")")).rule r

/-- The operators of the output conditions. -/
inductive IsOperator :
    Rule → String → (UTXOConditionsGroup → UTXOConditionsGroup → UTXOConditionsGroup) → Prop
  | and : IsOperator .outputAndGroup " && " .and
  | or : IsOperator .outputOrGroup " || " .or

/-- Chains with the operator that is tried first, then those with the other one. -/
theorem IsOperator.matchesText {r : Rule} {sign : String}
    {op : UTXOConditionsGroup → UTXOConditionsGroup → UTXOConditionsGroup}
    (hop : IsOperator r sign op) (hothers : others ≠ [])
    (h : ∀ cond ∈ first :: others, ∀ rest, MatchesText group (print cond) [record cond] rest)
    (rest : List Char) : MatchesText (condsGroupBody group) (chainText sign print first others)
      [.node r (chainText sign print first others) ((first :: others).map record)] rest := by
  cases hop with
  | and =>
      have hclose (rest rest' : List Char) : " && ".toList ++ rest ≠ ')' :: rest' := by simp
      exact (matchesText_outputOpGroup hclose hothers h _ rest).orElse _
  | or =>
      have hclose (rest rest' : List Char) : " || ".toList ++ rest ≠ ')' :: rest' := by simp
      have hand : Fails (outputOpGroup .outputAndGroup " && " group)
          (chainText " || " print first others ++ rest) := by
        cases others with
        | nil => exact absurd rfl hothers
        | cons other others =>
            rw [chainText, List.append_assoc, List.append_assoc, List.flatMap_cons]
            exact fails_outputOpGroup_of_first (h first List.mem_cons_self) (by simp) _
      exact hand.orElse_matchesText
        ((matchesText_outputOpGroup hclose hothers h _ rest).orElse outputSingleCond)

end

end Grammar

variable {C : DocCrypto}

open Grammar

/-! ## Chains -/

namespace UTXOConditionsGroup

theorem newChain_eq_ok_iff {op : UTXOConditionsGroup → UTXOConditionsGroup → UTXOConditionsGroup}
    {groups : List UTXOConditionsGroup} {chain : UTXOConditionsGroup} :
    newChain op groups = .ok chain ↔
      ∃ init last, groups = init ++ [last] ∧ init ≠ [] ∧ chain = init.foldr op last := by
  constructor
  · intro h
    rw [newChain] at h
    split at h
    case h_1 last previous others hgroups =>
      refine ⟨(previous :: others).reverse, last, ?_, by simp, ?_⟩
      · rw [← List.reverse_cons, ← hgroups, List.reverse_reverse]
      · rw [List.foldr_reverse]
        exact (Except.ok.inj h).symm
    case h_2 => cases h
  · rintro ⟨init, last, rfl, hinit, rfl⟩
    rw [newChain, List.reverse_append, ← List.foldl_reverse]
    cases hothers : init.reverse with
    | nil => exact absurd (List.reverse_eq_nil_iff.1 hothers) hinit
    | cons previous others => rfl

/-- The printed form of a condition group, as characters. -/
def chars (C : DocCrypto) (group : UTXOConditionsGroup) : List Char :=
  (group.toText C.toTxCrypto).toList

/-- A chain prints its conditions with the operator between them. -/
theorem chars_foldr {op : UTXOConditionsGroup → UTXOConditionsGroup → UTXOConditionsGroup}
    {sign : String} (hop : ∀ left right,
      (op left right).chars C = left.chars C ++ (sign.toList ++ right.chars C))
    (first : UTXOConditionsGroup) (init : List UTXOConditionsGroup) (last : UTXOConditionsGroup) :
    ((first :: init).foldr op last).chars C =
      first.chars C ++ (init ++ [last]).flatMap fun group => sign.toList ++ group.chars C := by
  induction init generalizing first with
  | nil => rw [List.foldr_cons, hop, List.nil_append, List.flatMap_singleton, List.foldr_nil]
  | cons group init ih =>
      rw [List.foldr_cons, hop, ih, List.cons_append, List.flatMap_cons, List.append_assoc]

/-- Whether the rule of the output conditions, unfolded more often than the printed form is long,
reads it back as the same conditions, whatever follows it. -/
def ReadsBack (C : DocCrypto) (group : UTXOConditionsGroup) : Prop :=
  ∃ pair, wrapUtxoConds C pair = .ok group ∧ ∀ depth, (group.chars C).length < depth → ∀ rest,
    MatchesText (unfoldRec condsGroupBody depth) (group.chars C) [pair] rest

theorem chars_operator {r : Rule} {sign : String}
    {op : UTXOConditionsGroup → UTXOConditionsGroup → UTXOConditionsGroup}
    (hop : IsOperator r sign op) (left right : UTXOConditionsGroup) :
    (op left right).chars C = left.chars C ++ (sign.toList ++ right.chars C) := by
  cases hop with
  | and => simp only [chars, toText, String.toList_append, List.append_assoc]
  | or => simp only [chars, toText, String.toList_append, List.append_assoc]

theorem wrapUtxoConds_operator {r : Rule} {sign : String}
    {op : UTXOConditionsGroup → UTXOConditionsGroup → UTXOConditionsGroup}
    (hop : IsOperator r sign op) (text : List Char) (pairs : List DocPair) :
    wrapUtxoConds C (.node r text pairs) = (do
      let condsSubgroups ← pairs.mapM (wrapUtxoConds C)
      let chain ← newChain op condsSubgroups
      return .brackets chain) := by
  cases hop with
  | and => rw [wrapUtxoConds, wrapAll_eq_mapM]
  | or => rw [wrapUtxoConds, wrapAll_eq_mapM]

/-- The conditions of a chain are read back within brackets. -/
theorem readsBack_brackets {r : Rule} {sign : String}
    {op : UTXOConditionsGroup → UTXOConditionsGroup → UTXOConditionsGroup}
    (hop : IsOperator r sign op) {groups : List UTXOConditionsGroup} {chain : UTXOConditionsGroup}
    (hgroups : ∀ group ∈ groups, ReadsBack C group) (hchain : newChain op groups = .ok chain) :
    ReadsBack C (.brackets chain) := by
  have hne : Nonempty DocPair := ⟨.leaf .eoi []⟩
  choose! pairOf hwrap hmatch using hgroups
  rcases newChain_eq_ok_iff.1 hchain with ⟨_ | ⟨first, init⟩, last, hsplit, hinit, hfold⟩
  · exact absurd rfl hinit
  · have htext : (UTXOConditionsGroup.brackets chain).chars C =
        chainText sign (chars C) first (init ++ [last]) := by
      rw [chainText, List.cons_append, ← chars_foldr (chars_operator hop) first init last, ← hfold]
      simp only [chars, toText, String.toList_append]
      rfl
    refine ⟨.node r ((UTXOConditionsGroup.brackets chain).chars C) (groups.map pairOf), ?_, ?_⟩
    · have hall : (groups.map pairOf).mapM (wrapUtxoConds C) = .ok groups := by
        rw [List.mapM_map]
        exact (mapM_eq_ok_map hwrap).trans (congrArg _ (List.map_id' groups))
      rw [wrapUtxoConds_operator hop, hall]
      show (newChain op groups >>= fun chain => .ok (brackets chain)) = _
      rw [hchain]
      rfl
    · rintro (_ | depth) hdepth rest
      · cases hdepth
      · rw [htext, hsplit]
        refine hop.matchesText (by simp) (fun group hgroup => ?_) rest
        refine hmatch group (hsplit ▸ hgroup) depth ?_
        have hlt : (group.chars C).length <
            (chainText sign (chars C) first (init ++ [last])).length := length_lt_chainText hgroup
        rw [htext] at hdepth
        omega

/-- Conditions are wrapped from the rules within, not from the text. -/
theorem wrapUtxoConds_text (r : Rule) (text text' : List Char) (inner : List DocPair) :
    wrapUtxoConds C (.node r text inner) = wrapUtxoConds C (.node r text' inner) := by
  cases r with
  | _ => rfl

/-- A single condition is read back, with the bracket that its origin may lack. -/
theorem readsBack_single {condition : TransactionOutputCondition} {r : Rule}
    {origin text : List Char} {inner : List DocPair} (htext : (single condition).chars C = text)
    (hwrap : wrapUtxoConds C (.node r origin inner) = .ok (single condition))
    (hopen : ∀ rest rest', '(' :: rest' ≠ text ++ rest)
    (hmatch : ∀ rest, MatchesText outputSingleCond text [.node r text inner] rest) :
    ReadsBack C (single condition) := by
  refine ⟨_, (wrapUtxoConds_text r text origin inner).trans hwrap, ?_⟩
  rintro (_ | depth) hdepth rest
  · cases hdepth
  · rw [htext]
    exact (fails_outputOpGroup (hopen rest) _ _ _).orElse_matchesText
      ((fails_outputOpGroup (hopen rest) _ _ _).orElse_matchesText (hmatch rest))

/-- What a single condition wraps. -/
theorem of_wrapSingle {α : Type} {read : Run α} {cond : α → TransactionOutputCondition}
    {group : UTXOConditionsGroup}
    (h : (do let value ← read; return single (cond value)) = .ok group) :
    ∃ value, read = .ok value ∧ group = single (cond value) := by
  rcases bind_eq_ok_iff.1 h with ⟨value, hread, hgroup⟩
  exact ⟨value, hread, (Except.ok.inj hgroup).symm⟩

/-- The conditions that are wrapped are read back. -/
theorem readsBack_of_wrapUtxoConds (hprints : C.PrintsPubkeys) {pair : DocPair}
    (hcond : IsCond pair) (hkeys : KeysFit pair) {group : UTXOConditionsGroup}
    (h : wrapUtxoConds C pair = .ok group) : ReadsBack C group := by
  have hchain {r : Rule} {sign : String}
      {op : UTXOConditionsGroup → UTXOConditionsGroup → UTXOConditionsGroup}
      (hop : IsOperator r sign op) {text : List Char} {conds : List DocPair}
      (hkeys : KeysFit (.node r text conds))
      (hconds : ∀ cond ∈ conds, KeysFit cond → ∀ {group},
        wrapUtxoConds C cond = .ok group → ReadsBack C group)
      {group : UTXOConditionsGroup} (h : wrapUtxoConds C (.node r text conds) = .ok group) :
      ReadsBack C group := by
    rw [wrapUtxoConds_operator hop] at h
    simp only [bind_eq_ok_iff, pure_eq_ok_iff] at h
    rcases h with ⟨groups, hgroups, chain, hchain, rfl⟩
    refine readsBack_brackets hop (fun group hgroup => ?_) hchain
    rcases (mem_mapM_iff hgroups group).1 hgroup with ⟨cond, hcond, hwrap⟩
    exact hconds cond hcond ((keysFit_node_iff.1 hkeys).2 cond hcond) hwrap
  induction hcond generalizing group with
  | @sig key =>
      have hkey : IsKey key :=
        keysFit_pubkey_iff.1 ((keysFit_node_iff.1 hkeys).2 _ List.mem_cons_self)
      rcases of_wrapSingle h with ⟨pubkey, hread, rfl⟩
      have htext : (single (.sig pubkey)).chars C = "SIG(".toList ++ key ++ [')'] := by
        simp only [chars, toText, TransactionOutputCondition.toText, String.toList_append,
          hprints.toList (unwrap_eq_ok_iff.1 hread)]
        rfl
      refine readsBack_single htext h (by simp) fun rest => ?_
      exact (matchesText_outputCond (matchesText_pubkey hkey rest) _).orElse _
  | @xhx digits _ hhash =>
      rcases of_wrapSingle h with ⟨hash, hread, rfl⟩
      have htext : (single (.xhx hash)).chars C = "XHX(".toList ++ digits ++ [')'] := by
        rcases Hash.fromHex_of_upper hhash.1 hhash.2 with ⟨hash', hread', hprint⟩
        obtain rfl := Option.some.inj (hread'.symm.trans (unwrap_eq_ok_iff.1 hread))
        simp only [chars, toText, TransactionOutputCondition.toText, String.toList_append, hprint]
        rfl
      refine readsBack_single htext h (by simp) fun rest => ?_
      refine (fails_outputCond (by simp) _).orElse_matchesText ?_
      exact (matchesText_outputCond (matchesText_hash hhash rest) _).orElse _
  | @csv digits _ hduration =>
      rcases of_wrapSingle h with ⟨duration, hread, rfl⟩
      have htext : (single (.csv duration)).chars C = "CSV(".toList ++ digits ++ [')'] := by
        simp only [chars, toText, TransactionOutputCondition.toText, String.toList_append,
          hduration.toString_of_parseUnsigned (unwrap_eq_ok_iff.1 hread)]
        rfl
      refine readsBack_single htext h (by simp) fun rest => ?_
      refine (fails_outputCond (by simp) _).orElse_matchesText
        ((fails_outputCond (by simp) _).orElse_matchesText ?_)
      exact (matchesText_outputCond ((matchesText_uInt hduration rest).atomic _) _).orElse _
  | @cltv digits _ htimestamp =>
      rcases of_wrapSingle h with ⟨timestamp, hread, rfl⟩
      have htext : (single (.cltv timestamp)).chars C = "CLTV(".toList ++ digits ++ [')'] := by
        simp only [chars, toText, TransactionOutputCondition.toText, String.toList_append,
          htimestamp.toString_of_parseUnsigned (unwrap_eq_ok_iff.1 hread)]
        rfl
      refine readsBack_single htext h (by simp) fun rest => ?_
      refine (fails_outputCond (by simp) _).orElse_matchesText
        ((fails_outputCond (by simp) _).orElse_matchesText
          ((fails_outputCond (by simp) _).orElse_matchesText ?_))
      exact matchesText_outputCond ((matchesText_uInt htimestamp rest).atomic _) _
  | and _ _ _ hfirst hsecond hconds =>
      exact hchain .and hkeys
        (List.forall_mem_cons.2 ⟨hfirst, List.forall_mem_cons.2 ⟨hsecond, hconds⟩⟩) h
  | or _ _ _ hfirst hsecond hconds =>
      exact hchain .or hkeys
        (List.forall_mem_cons.2 ⟨hfirst, List.forall_mem_cons.2 ⟨hsecond, hconds⟩⟩) h

/-- The conditions that are wrapped from a match of the rule of the output conditions print a text
that the rule matches, whatever follows it, and that is wrapped as the same conditions. -/
theorem exists_wrapUtxoConds_toText (hprints : C.PrintsPubkeys) {start : Bool} {cs : List Char}
    {m : Match Rule} (hm : outputCondsGroup.run start cs = some m) {pair : DocPair}
    (hpair : pair ∈ m.pairs) {group : UTXOConditionsGroup}
    (h : wrapUtxoConds C pair = .ok group) :
    ∃ pair', wrapUtxoConds C pair' = .ok group ∧ ∀ rest,
      outputCondsGroup.run true ((group.toText C.toTxCrypto).toList ++ rest) =
        some ⟨(group.toText C.toTxCrypto).toList, [pair'], rest⟩ := by
  rcases of_lang_outputCondsGroup (outputCondsGroup.sound hm).2 with ⟨pair', hcond, -, hpairs⟩
  have heq : pair = pair' := List.mem_singleton.1 (hpairs ▸ hpair)
  have hkeys := yields_outputCondsGroup start cs m hm pair hpair
  rcases readsBack_of_wrapUtxoConds hprints (heq ▸ hcond) hkeys h with ⟨pair'', hwrap, hmatch⟩
  exact ⟨pair'', hwrap, fun rest => matchesText_recursive (fun depth hdepth =>
    hmatch depth hdepth rest) true⟩

/-- A chain of conditions, the first one without its bracket, with a chain within. -/
def exampleConditions : UTXOConditionsGroup :=
  .brackets (.and (.single (.csv 1)) (.brackets (.or (.single (.csv 2)) (.single (.cltv 3)))))

theorem exists_wrapUtxoConds_exampleConditions :
    ∃ pair', wrapUtxoConds exampleCrypto pair' = .ok exampleConditions ∧ ∀ rest,
      outputCondsGroup.run true
          ((exampleConditions.toText exampleCrypto.toTxCrypto).toList ++ rest) =
        some ⟨(exampleConditions.toText exampleCrypto.toTxCrypto).toList, [pair'], rest⟩ := by
  have hread : ((outputCondsGroup.run true "(CSV(1 && (CSV(2) || CLTV(3)))".toList).bind
      fun m => m.pairs.head?.map (wrapUtxoConds exampleCrypto)) =
        some (.ok exampleConditions) := by decide +kernel
  rcases Option.bind_eq_some_iff.1 hread with ⟨m, hm, hpairs⟩
  rcases Option.map_eq_some_iff.1 hpairs with ⟨pair, hpair, hwrap⟩
  exact exists_wrapUtxoConds_toText printsPubkeys_exampleCrypto hm (List.mem_of_head? hpair) hwrap

end UTXOConditionsGroup

end Durs
