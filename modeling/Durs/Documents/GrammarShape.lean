/-
# What the document grammar matches

The texts of each rule, as the concatenation of its literals and of the texts of the rules within,
with the rules recorded for it.
-/

import Durs.Documents.Grammar
import Durs.RustStd.ParseInt

namespace Durs.Grammar

open RustStd Lib.Peg Lib.Peg.Expr

variable {text : List Char} {pairs : List DocPair} {pair : DocPair} {r : Rule}

/-! ## Tokens -/

theorem isUInt_of_lang (h : uInt.lang text pairs) : IsUInt text := by
  rcases h with h | ⟨_, _, _, _, ⟨c, hc, rfl, rfl⟩, ⟨count, -, hdigits⟩, rfl, rfl⟩
  · exact Or.inl h.1
  · simp only [Bool.and_eq_true, decide_eq_true_eq] at hc
    exact Or.inr ⟨c, _, rfl, hc,
      (RepLang.chars (fun _ _ ⟨c, hc, htext, _⟩ => ⟨c, hc, htext⟩) hdigits).2⟩

/-- A number is recorded with its text. -/
theorem of_lang_number (h : (atomic r uInt).lang text pairs) :
    IsUInt text ∧ pairs = [.leaf r text] := by
  rcases h with ⟨⟨_, htext⟩, rfl⟩
  exact ⟨isUInt_of_lang htext, rfl⟩

/-- A text of 64 upper-case hexadecimal digits. -/
def IsHash (text : List Char) : Prop := text.length = 64 ∧ ∀ c ∈ text, isHexaUpper c = true

theorem of_lang_hash (h : hash.lang text pairs) : IsHash text ∧ pairs = [.leaf .hash text] := by
  rcases h with ⟨⟨_, count, hleast, hmost, hdigits⟩, rfl⟩
  have hchars : text.length = count ∧ ∀ c ∈ text, isHexaUpper c = true :=
    RepLang.chars (fun _ _ ⟨c, hc, htext, _⟩ => ⟨c, hc, htext⟩) hdigits
  exact ⟨⟨hchars.1.trans (Nat.le_antisymm hmost hleast), hchars.2⟩, rfl⟩

theorem of_lang_currency (h : currency.lang text pairs) : pairs = [.leaf .currency text] := h.2

theorem of_lang_uid (h : uid.lang text pairs) : pairs = [.leaf .uid text] := h.2

theorem of_lang_pubkey (h : pubkey.lang text pairs) : pairs = [.leaf .pubkey text] := h.2

/-- A character of a signature. -/
def isSigChar (c : Char) : Bool := c.isAlphanum || c = '+' || c = '/' || c = '='

/-- A text of 88 characters of a signature. -/
def IsSig (text : List Char) : Prop := text.length = 88 ∧ ∀ c ∈ text, isSigChar c = true

theorem of_lang_between_base64 {n : Nat} (h : (between n n base64).lang text pairs) :
    text.length = n ∧ ∀ c ∈ text, isSigChar c = true := by
  rcases h with ⟨count, hleast, hmost, hchars⟩
  have htext : text.length = count ∧ ∀ c ∈ text, isSigChar c = true := by
    refine RepLang.chars (fun text pairs hchar => ?_) hchars
    rcases hchar with ⟨c, hc, rfl, -⟩ | ⟨rfl, -⟩ | ⟨rfl, -⟩
    · exact ⟨c, by rw [isSigChar, hc]; rfl, rfl⟩
    · exact ⟨'+', by decide, rfl⟩
    · exact ⟨'/', by decide, rfl⟩
  exact ⟨htext.1.trans (Nat.le_antisymm hmost hleast), htext.2⟩

theorem of_lang_sig (h : ed25519Sig.lang text pairs) :
    IsSig text ∧ pairs = [.leaf .ed25519Sig text] := by
  rcases h with ⟨⟨_, htext⟩, rfl⟩
  refine ⟨?_, rfl⟩
  rcases htext with htext | ⟨text₁, _, _, _, htext, ⟨rfl, -⟩, rfl, -⟩ |
    ⟨text₁, _, _, _, htext, ⟨rfl, -⟩, rfl, -⟩
  · exact of_lang_between_base64 htext
  · rcases of_lang_between_base64 htext with ⟨hlength, hchars⟩
    exact ⟨by rw [List.length_append, hlength]; rfl,
      List.forall_mem_append.2 ⟨hchars, List.forall_mem_singleton.2 rfl⟩⟩
  · rcases of_lang_between_base64 htext with ⟨hlength, hchars⟩
    exact ⟨by rw [List.length_append, hlength]; rfl,
      List.forall_mem_append.2
        ⟨hchars, List.forall_mem_cons.2 ⟨rfl, List.forall_mem_singleton.2 rfl⟩⟩⟩

/-- What a blockstamp records. -/
inductive IsBlockstamp : DocPair → Prop
  | mk {id hash : List Char} : IsUInt id → IsHash hash →
      IsBlockstamp (.node .blockstamp (id ++ '-' :: hash) [.leaf .blockId id, .leaf .hash hash])

theorem of_lang_blockstamp (h : blockstamp.lang text pairs) :
    ∃ pair, IsBlockstamp pair ∧ text = pair.text ∧ pairs = [pair] := by
  rcases h with ⟨_, ⟨_, _, _, _, ⟨id, _, _, _, hid, ⟨rfl, rfl⟩, rfl, rfl⟩, hhash, rfl, rfl⟩, rfl⟩
  rcases of_lang_number hid with ⟨hnumber, rfl⟩
  rcases of_lang_hash hhash with ⟨hdigits, rfl⟩
  rw [List.append_assoc]
  exact ⟨_, .mk hnumber hdigits, rfl, rfl⟩

/-! ## Signatures and trailing line breaks -/

/-- The texts of signatures, one a line, and the line breaks after the last of them. -/
def sigTail (sigs : List (List Char)) (breaks : Nat) : List Char :=
  ['\n'].intercalate sigs ++ List.replicate breaks '\n'

/-- What is recorded for signatures and the end of the text. -/
def sigPairs (sigs : List (List Char)) : List DocPair :=
  sigs.map (.leaf .ed25519Sig) ++ [.leaf .eoi []]

theorem of_lang_breaks (h : (atLeast 0 nl).lang text pairs) :
    pairs = [] ∧ ∃ breaks, text = List.replicate breaks '\n' := by
  rcases h with ⟨count, -, parts, -, hparts, rfl, rfl⟩
  induction parts with
  | nil => exact ⟨rfl, 0, rfl⟩
  | cons part parts ih =>
      rcases List.forall_mem_cons.1 hparts with ⟨⟨htext, hpairs⟩, hparts⟩
      rcases ih hparts with ⟨hnil, breaks, hbreaks⟩
      rw [List.flatMap_cons, List.flatMap_cons, htext, hpairs, hbreaks, hnil]
      exact ⟨rfl, breaks + 1, rfl⟩

/-- The end of a document with at most one signature. -/
theorem of_lang_sigEnd (h : sigEnd.lang text pairs) : ∃ (sig : Option (List Char)) (breaks : Nat),
    (∀ text ∈ sig.toList, IsSig text) ∧ text = sigTail sig.toList breaks ∧
      pairs = sigPairs sig.toList := by
  rcases h with ⟨_, _, _, _, ⟨_, _, _, _, hsig, hbreaks, rfl, rfl⟩, ⟨rfl, rfl⟩, rfl, rfl⟩
  rcases of_lang_breaks hbreaks with ⟨rfl, breaks, rfl⟩
  rcases hsig with hsig | ⟨rfl, rfl⟩
  · rcases of_lang_sig hsig with ⟨hchars, rfl⟩
    refine ⟨some _, breaks, List.forall_mem_singleton.2 hchars, ?_, rfl⟩
    rw [Option.toList_some, sigTail, List.intercalate_singleton, List.append_nil]
  · exact ⟨none, breaks, List.forall_mem_nil _, List.append_nil _, rfl⟩

/-- Signatures with a line break each, before the end of the document. -/
theorem exists_sigTail_append (sigs last : List (List Char)) (breaks : Nat) :
    ∃ breaks', sigs.flatMap (· ++ ['\n']) ++ sigTail last breaks =
      sigTail (sigs ++ last) breaks' := by
  induction sigs with
  | nil => exact ⟨breaks, rfl⟩
  | cons sig sigs ih =>
      rcases ih with ⟨breaks', htail⟩
      rw [List.flatMap_cons, List.append_assoc, List.append_assoc, htail]
      show ∃ breaks'', _ = sigTail (sig :: (sigs ++ last)) breaks''
      cases sigs ++ last with
      | nil => exact ⟨breaks' + 1, by rw [sigTail, sigTail, List.intercalate_singleton]; rfl⟩
      | cons sig' rest =>
          refine ⟨breaks', ?_⟩
          rw [sigTail, sigTail, List.intercalate_cons_cons, List.append_assoc, List.append_assoc]

theorem of_lang_sigLine (h : (ed25519Sig ++ nl).lang text pairs) :
    ∃ sig, IsSig sig ∧ text = sig ++ ['\n'] ∧ pairs = [.leaf .ed25519Sig sig] := by
  rcases h with ⟨sig, _, _, _, hsig, ⟨rfl, rfl⟩, rfl, rfl⟩
  rcases of_lang_sig hsig with ⟨hchars, rfl⟩
  exact ⟨sig, hchars, rfl, rfl⟩

/-- The end of a document with any number of signatures. -/
theorem of_lang_sigLines (h : (atLeast 0 (ed25519Sig ++ nl) ++ sigEnd).lang text pairs) :
    ∃ sigs breaks, (∀ sig ∈ sigs, IsSig sig) ∧ text = sigTail sigs breaks ∧
      pairs = sigPairs sigs := by
  rcases h with ⟨_, _, _, _, ⟨count, -, hlines⟩, hend, rfl, rfl⟩
  rcases of_lang_sigEnd hend with ⟨last, breaks, hlast, rfl, rfl⟩
  rcases RepLang.exists_list (Pair.leaf Rule.ed25519Sig) (fun _ _ => of_lang_sigLine) hlines with
    ⟨sigs, -, hsigs, rfl, rfl⟩
  rcases exists_sigTail_append sigs last.toList breaks with ⟨breaks', htail⟩
  refine ⟨sigs ++ last.toList, breaks', List.forall_mem_append.2 ⟨hsigs, hlast⟩, htail, ?_⟩
  rw [sigPairs, sigPairs, List.map_append, List.append_assoc]

/-! ## Lines of a transaction -/

/-- What an input records. -/
inductive IsInput : DocPair → Prop
  | du {amount base key block text : List Char} : IsUInt amount → IsUInt base → IsUInt block →
      text = amount ++ ":".toList ++ base ++ ":D:".toList ++ key ++ ":".toList ++ block →
      IsInput (.node .txInput text [.node .txInputDu text
        [.leaf .txAmount amount, .leaf .txAmountBase base, .leaf .pubkey key,
          .leaf .duBlockId block]])
  | tx {amount base hash index text : List Char} : IsUInt amount → IsUInt base → IsHash hash →
      IsUInt index →
      text = amount ++ ":".toList ++ base ++ ":T:".toList ++ hash ++ ":".toList ++ index →
      IsInput (.node .txInput text [.node .txInputTx text
        [.leaf .txAmount amount, .leaf .txAmountBase base, .leaf .hash hash,
          .leaf .txIndex index]])

theorem of_lang_amountAndBase (h : amountAndBase.lang text pairs) :
    ∃ amount base, IsUInt amount ∧ IsUInt base ∧ text = amount ++ ":".toList ++ base ∧
      pairs = [.leaf .txAmount amount, .leaf .txAmountBase base] := by
  rcases h with ⟨_, _, base, _, ⟨amount, _, _, _, hamount, ⟨rfl, rfl⟩, rfl, rfl⟩, hbase, rfl, rfl⟩
  rcases of_lang_number hamount with ⟨hnumber, rfl⟩
  rcases of_lang_number hbase with ⟨hnumber', rfl⟩
  exact ⟨amount, base, hnumber, hnumber', rfl, rfl⟩

theorem of_lang_txInput (h : txInput.lang text pairs) :
    ∃ pair, IsInput pair ∧ text = pair.text ∧ pairs = [pair] := by
  rcases h with ⟨_, h | h, rfl⟩
  · simp only [txInputDu, lang_rule, lang_append, lang_str] at h
    rcases h with ⟨_, ⟨_, _, block, _, ⟨_, _, _, _, ⟨_, _, key, _, ⟨_, _, _, _, hfront, ⟨rfl, rfl⟩,
      rfl, rfl⟩, hkey, rfl, rfl⟩, ⟨rfl, rfl⟩, rfl, rfl⟩, hblock, rfl, rfl⟩, rfl⟩
    rcases of_lang_amountAndBase hfront with ⟨amount, base, hamount, hbase, rfl, rfl⟩
    rcases of_lang_number hblock with ⟨hnumber, rfl⟩
    obtain rfl := of_lang_pubkey hkey
    exact ⟨_, .du hamount hbase hnumber rfl, rfl, rfl⟩
  · simp only [txInputTx, lang_rule, lang_append, lang_str] at h
    rcases h with ⟨_, ⟨_, _, index, _, ⟨_, _, _, _, ⟨_, _, hash, _, ⟨_, _, _, _, hfront, ⟨rfl, rfl⟩,
      rfl, rfl⟩, hhash, rfl, rfl⟩, ⟨rfl, rfl⟩, rfl, rfl⟩, hindex, rfl, rfl⟩, rfl⟩
    rcases of_lang_amountAndBase hfront with ⟨amount, base, hamount, hbase, rfl, rfl⟩
    rcases of_lang_number hindex with ⟨hnumber, rfl⟩
    rcases of_lang_hash hhash with ⟨hdigits, rfl⟩
    exact ⟨_, .tx hamount hbase hdigits hnumber rfl, rfl, rfl⟩

/-- What a proof that unlocks an input records. -/
inductive IsUnlockCond : DocPair → Prop
  | sig {index : List Char} : IsUInt index →
      IsUnlockCond (.node .unlockSig ("SIG(".toList ++ index ++ ")".toList)
        [.leaf .issuerIndex index])
  | xhx {secret : List Char} :
      IsUnlockCond (.node .unlockXhx ("XHX(".toList ++ secret ++ ")".toList)
        [.leaf .xhxSecret secret])

theorem of_lang_unlockCond (h : unlockCond.lang text pairs) :
    ∃ pair, IsUnlockCond pair ∧ text = pair.text ∧ pairs = [pair] := by
  rcases h with h | h
  · rcases h with ⟨_, ⟨_, _, _, _, ⟨_, _, index, _, ⟨rfl, rfl⟩, hindex, rfl, rfl⟩, ⟨rfl, rfl⟩, rfl,
      rfl⟩, rfl⟩
    rcases of_lang_number hindex with ⟨hnumber, rfl⟩
    exact ⟨_, .sig hnumber, rfl, rfl⟩
  · rcases h with ⟨_, ⟨_, _, _, _, ⟨_, _, secret, _, ⟨rfl, rfl⟩, ⟨-, rfl⟩, rfl, rfl⟩, ⟨rfl, rfl⟩,
      rfl, rfl⟩, rfl⟩
    exact ⟨_, .xhx, rfl, rfl⟩

/-- What the proofs that unlock an input record. -/
inductive IsUnlock : DocPair → Prop
  | mk {index : List Char} {cond : DocPair} {conds : List DocPair} : IsUInt index →
      IsUnlockCond cond → (∀ cond ∈ conds, IsUnlockCond cond) →
      IsUnlock (.node .txUnlock
        (index ++ ":".toList ++ cond.text ++ conds.flatMap fun cond => " ".toList ++ cond.text)
        (.leaf .inputIndex index :: cond :: conds))

theorem of_lang_txUnlock (h : txUnlock.lang text pairs) :
    ∃ pair, IsUnlock pair ∧ text = pair.text ∧ pairs = [pair] := by
  rcases h with ⟨_, ⟨_, _, _, _, ⟨_, _, _, _, ⟨index, _, _, _, hindex, ⟨rfl, rfl⟩, rfl, rfl⟩, hcond,
    rfl, rfl⟩, ⟨count, -, hconds⟩, rfl, rfl⟩, rfl⟩
  rcases of_lang_number hindex with ⟨hnumber, rfl⟩
  rcases of_lang_unlockCond hcond with ⟨cond, hfirst, rfl, rfl⟩
  have hnext : ∀ text pairs, (str " " ++ unlockCond).lang text pairs →
      ∃ cond, IsUnlockCond cond ∧ text = " ".toList ++ cond.text ∧ pairs = [cond] := by
    rintro text pairs ⟨_, _, _, _, ⟨rfl, rfl⟩, hcond, rfl, rfl⟩
    rcases of_lang_unlockCond hcond with ⟨cond, hnext, rfl, rfl⟩
    exact ⟨cond, hnext, rfl, rfl⟩
  rcases RepLang.exists_list id hnext hconds with ⟨conds, -, hrest, rfl, rfl⟩
  rw [List.map_id]
  exact ⟨_, .mk hnumber hfirst hrest, rfl, rfl⟩

/-- What the condition of an output records. -/
inductive IsCond : DocPair → Prop
  | sig {key text : List Char} : IsCond (.node .outputCondSig text [.leaf .pubkey key])
  | xhx {hash text : List Char} : IsHash hash →
      IsCond (.node .outputCondXhx text [.leaf .hash hash])
  | csv {duration text : List Char} : IsUInt duration →
      IsCond (.node .outputCondCsv text [.leaf .csvDuration duration])
  | cltv {timestamp text : List Char} : IsUInt timestamp →
      IsCond (.node .outputCondCltv text [.leaf .cltvTimestamp timestamp])
  | and {text : List Char} {first second : DocPair} {conds : List DocPair} : IsCond first →
      IsCond second → (∀ cond ∈ conds, IsCond cond) →
      IsCond (.node .outputAndGroup text (first :: second :: conds))
  | or {text : List Char} {first second : DocPair} {conds : List DocPair} : IsCond first →
      IsCond second → (∀ cond ∈ conds, IsCond cond) →
      IsCond (.node .outputOrGroup text (first :: second :: conds))

/-- A condition records the rule of its value. -/
theorem of_lang_outputCond {word : String} {value : Expr Rule}
    (h : (outputCond r word value).lang text pairs) : ∃ value' inner, value.lang value' inner ∧
      pairs = [.node r text inner] := by
  rcases h with ⟨_, ⟨_, _, _, _, ⟨_, _, value', _, ⟨rfl, rfl⟩, hvalue, rfl, rfl⟩, hclose, rfl,
    rfl⟩, rfl⟩
  refine ⟨value', _, hvalue, ?_⟩
  rcases hclose with ⟨-, rfl⟩ | ⟨-, rfl⟩
  · rw [List.append_nil]
  · rw [List.append_nil]

theorem of_lang_outputSingleCond (h : outputSingleCond.lang text pairs) :
    ∃ pair, IsCond pair ∧ text = pair.text ∧ pairs = [pair] := by
  rcases h with h | h | h | h
  · rcases of_lang_outputCond h with ⟨key, inner, hkey, rfl⟩
    obtain rfl := of_lang_pubkey hkey
    exact ⟨_, .sig, rfl, rfl⟩
  · rcases of_lang_outputCond h with ⟨hash, inner, hhash, rfl⟩
    rcases of_lang_hash hhash with ⟨hdigits, rfl⟩
    exact ⟨_, .xhx hdigits, rfl, rfl⟩
  · rcases of_lang_outputCond h with ⟨duration, inner, hduration, rfl⟩
    rcases of_lang_number hduration with ⟨hnumber, rfl⟩
    exact ⟨_, .csv hnumber, rfl, rfl⟩
  · rcases of_lang_outputCond h with ⟨timestamp, inner, htimestamp, rfl⟩
    rcases of_lang_number htimestamp with ⟨hnumber, rfl⟩
    exact ⟨_, .cltv hnumber, rfl, rfl⟩

/-- A group of conditions records at least two of them. -/
theorem of_lang_outputOpGroup {op : String} {group : Expr Rule}
    (hgroup : ∀ text pairs, group.lang text pairs →
      ∃ pair, IsCond pair ∧ text = pair.text ∧ pairs = [pair])
    (h : (outputOpGroup r op group).lang text pairs) :
    ∃ first second conds, IsCond first ∧ IsCond second ∧ (∀ cond ∈ conds, IsCond cond) ∧
      pairs = [.node r text (first :: second :: conds)] := by
  rcases h with ⟨_, ⟨_, _, _, _, ⟨_, _, _, _, ⟨_, _, _, _, ⟨rfl, rfl⟩, hfirst, rfl, rfl⟩,
    ⟨count, hleast, hconds⟩, rfl, rfl⟩, ⟨rfl, rfl⟩, rfl, rfl⟩, rfl⟩
  rcases hgroup _ _ hfirst with ⟨first, hcond, rfl, rfl⟩
  have hnext : ∀ text pairs, (str op ++ group).lang text pairs →
      ∃ cond, IsCond cond ∧ text = op.toList ++ cond.text ∧ pairs = [cond] := by
    rintro text pairs ⟨_, _, _, _, ⟨rfl, rfl⟩, hcond, rfl, rfl⟩
    rcases hgroup _ _ hcond with ⟨cond, hnext, rfl, rfl⟩
    exact ⟨cond, hnext, rfl, rfl⟩
  rcases RepLang.exists_list id hnext hconds with ⟨conds, rfl, hrest, rfl, rfl⟩
  cases conds with
  | nil => cases hleast
  | cons second conds =>
      rcases List.forall_mem_cons.1 hrest with ⟨hsecond, hrest⟩
      refine ⟨first, second, conds, hcond, hsecond, hrest, ?_⟩
      rw [List.map_id, List.append_nil, List.singleton_append]

theorem of_lang_outputCondsGroup (h : outputCondsGroup.lang text pairs) :
    ∃ pair, IsCond pair ∧ text = pair.text ∧ pairs = [pair] := by
  rcases h with ⟨depth, h⟩
  induction depth generalizing text pairs with
  | zero => exact h.elim
  | succ depth ih =>
      rcases h with h | h | h
      · rcases of_lang_outputOpGroup (fun _ _ => ih) h with
          ⟨first, second, conds, hfirst, hsecond, hconds, rfl⟩
        exact ⟨_, .and hfirst hsecond hconds, rfl, rfl⟩
      · rcases of_lang_outputOpGroup (fun _ _ => ih) h with
          ⟨first, second, conds, hfirst, hsecond, hconds, rfl⟩
        exact ⟨_, .or hfirst hsecond hconds, rfl, rfl⟩
      · exact of_lang_outputSingleCond h

/-- What an output records. -/
inductive IsOutput : DocPair → Prop
  | mk {amount base : List Char} {cond : DocPair} : IsUInt amount → IsUInt base → IsCond cond →
      IsOutput (.node .txOutput (amount ++ ":".toList ++ base ++ ":".toList ++ cond.text)
        [.leaf .txAmount amount, .leaf .txAmountBase base, cond])

theorem of_lang_txOutput (h : txOutput.lang text pairs) :
    ∃ pair, IsOutput pair ∧ text = pair.text ∧ pairs = [pair] := by
  rcases h with ⟨_, ⟨_, _, _, _, ⟨_, _, _, _, hfront, ⟨rfl, rfl⟩, rfl, rfl⟩, hcond, rfl, rfl⟩, rfl⟩
  rcases of_lang_amountAndBase hfront with ⟨amount, base, hamount, hbase, rfl, rfl⟩
  rcases of_lang_outputCondsGroup hcond with ⟨cond, hcond', rfl, rfl⟩
  exact ⟨_, .mk hamount hbase hcond', rfl, rfl⟩

/-- The lines of one kind, each recorded. -/
theorem of_lang_lines {e : Expr Rule} {P : DocPair → Prop}
    (he : ∀ text pairs, e.lang text pairs → ∃ pair, P pair ∧ text = pair.text ∧ pairs = [pair])
    (h : (atLeast 1 (e ++ nl)).lang text pairs) : (∀ pair ∈ pairs, P pair) ∧
      text = pairs.flatMap fun pair => pair.text ++ ['\n'] := by
  rcases h with ⟨count, -, hlines⟩
  have hline : ∀ text pairs, (e ++ nl).lang text pairs →
      ∃ pair, P pair ∧ text = pair.text ++ ['\n'] ∧ pairs = [pair] := by
    rintro text pairs ⟨_, _, _, _, hpair, ⟨rfl, rfl⟩, rfl, rfl⟩
    rcases he _ _ hpair with ⟨pair, hrecorded, rfl, rfl⟩
    exact ⟨pair, hrecorded, rfl, rfl⟩
  rcases RepLang.exists_list id hline hlines with ⟨lines, -, hpairs, rfl, rfl⟩
  rw [List.map_id]
  exact ⟨hpairs, rfl⟩

/-! ## Lines of a document -/

/-- The first lines of a document. -/
def head (type : String) : List Char :=
  "Version: 10".toList ++ ['\n'] ++ type.toList ++ ['\n']

/-- A line of a document. -/
def field (label : String) (value : List Char) : List Char := label.toList ++ value ++ ['\n']

theorem of_lang_certHead {type : String} (h : (v10 ++ nl ++ str type ++ nl).lang text pairs) :
    text = head type ∧ pairs = [] := by
  rcases h with ⟨_, _, _, _, ⟨_, _, _, _, ⟨_, _, _, _, ⟨rfl, rfl⟩, ⟨rfl, rfl⟩, rfl, rfl⟩, ⟨rfl, rfl⟩,
    rfl, rfl⟩, ⟨rfl, rfl⟩, rfl, rfl⟩
  exact ⟨rfl, rfl⟩

theorem of_lang_head {type : String} (h : (soi ++ v10 ++ nl ++ str type ++ nl).lang text pairs) :
    text = head type ∧ pairs = [] := by
  rcases h with ⟨_, _, _, _, ⟨_, _, _, _, ⟨_, _, _, _, ⟨_, _, _, _, ⟨rfl, rfl⟩, ⟨rfl, rfl⟩, rfl,
    rfl⟩, ⟨rfl, rfl⟩, rfl, rfl⟩, ⟨rfl, rfl⟩, rfl, rfl⟩, ⟨rfl, rfl⟩, rfl, rfl⟩
  exact ⟨rfl, rfl⟩

theorem of_lang_field {e value : Expr Rule} {label : String}
    (h : (e ++ str label ++ value ++ nl).lang text pairs) :
    ∃ text₁ pairs₁ text₂ pairs₂, e.lang text₁ pairs₁ ∧ value.lang text₂ pairs₂ ∧
      text = text₁ ++ field label text₂ ∧ pairs = pairs₁ ++ pairs₂ := by
  rcases h with ⟨_, _, _, _, ⟨_, _, text₂, pairs₂, ⟨text₁, pairs₁, _, _, he, ⟨rfl, rfl⟩, rfl, rfl⟩,
    hvalue, rfl, rfl⟩, ⟨rfl, rfl⟩, rfl, rfl⟩
  refine ⟨text₁, pairs₁, text₂, pairs₂, he, hvalue, ?_, ?_⟩
  · rw [field, List.append_assoc, List.append_assoc, List.append_assoc]
    rfl
  · rw [List.append_nil, List.append_nil]

/-! ## Identities, memberships, certifications and revocations -/

/-- The text of an identity before its signature. -/
def idtyBody (currency key uid stamp : List Char) : List Char :=
  head "Type: Identity" ++ field "Currency: " currency ++ field "Issuer: " key ++
    field "UniqueID: " uid ++ field "Timestamp: " stamp

/-- The rules of an identity before its signature. -/
def idtyFields (currency key uid : List Char) (stamp : DocPair) : List DocPair :=
  [.leaf .currency currency, .leaf .pubkey key, .leaf .uid uid, stamp]

theorem of_lang_idtyV10 (h : idtyV10.lang text pairs) :
    ∃ currency key uid stamp, ∃ sig : Option (List Char), ∃ breaks, IsBlockstamp stamp ∧
      (∀ text ∈ sig.toList, IsSig text) ∧
      text = idtyBody currency key uid stamp.text ++ sigTail sig.toList breaks ∧
      pairs = [.node .idtyV10 text
        (idtyFields currency key uid stamp ++ sigPairs sig.toList)] := by
  rcases h with ⟨_, ⟨_, _, _, _, h, hend, rfl, rfl⟩, rfl⟩
  rcases of_lang_field h with ⟨_, _, _, _, h₁, hstamp, rfl, rfl⟩
  rcases of_lang_field h₁ with ⟨_, _, uid, _, h₂, huid, rfl, rfl⟩
  rcases of_lang_field h₂ with ⟨_, _, key, _, h₃, hkey, rfl, rfl⟩
  rcases of_lang_field h₃ with ⟨_, _, currency, _, h₄, hcurrency, rfl, rfl⟩
  rcases of_lang_head h₄ with ⟨rfl, rfl⟩
  obtain rfl := of_lang_currency hcurrency
  obtain rfl := of_lang_pubkey hkey
  obtain rfl := of_lang_uid huid
  rcases of_lang_blockstamp hstamp with ⟨stamp, hrecorded, rfl, rfl⟩
  rcases of_lang_sigEnd hend with ⟨sig, breaks, hsig, rfl, rfl⟩
  exact ⟨currency, key, uid, stamp, sig, breaks, hrecorded, hsig, rfl, rfl⟩

/-- The text of a membership before its signature. -/
def membershipBody (currency key block type uid stamp : List Char) : List Char :=
  head "Type: Membership" ++ field "Currency: " currency ++ field "Issuer: " key ++
    field "Block: " block ++ field "Membership: " type ++ field "UserID: " uid ++
    field "CertTS: " stamp

/-- The rules of a membership before its signature. -/
def membershipFields (currency key : List Char) (block type : DocPair) (uid : List Char)
    (stamp : DocPair) : List DocPair :=
  [.leaf .currency currency, .leaf .pubkey key, block, type, .leaf .uid uid, stamp]

/-- What the type of a membership records. -/
inductive IsMembershipType : DocPair → Prop
  | in : IsMembershipType (.leaf .membershipIn "IN".toList)
  | out : IsMembershipType (.leaf .membershipOut "OUT".toList)

theorem of_lang_membershipType (h : (membershipIn <|> membershipOut).lang text pairs) :
    ∃ pair, IsMembershipType pair ∧ text = pair.text ∧ pairs = [pair] := by
  rcases h with ⟨⟨_, rfl, rfl⟩, rfl⟩ | ⟨⟨_, rfl, rfl⟩, rfl⟩
  · exact ⟨_, .in, rfl, rfl⟩
  · exact ⟨_, .out, rfl, rfl⟩

theorem of_lang_membershipV10 (h : membershipV10.lang text pairs) :
    ∃ currency key block type uid stamp, ∃ sig : Option (List Char), ∃ breaks,
      IsBlockstamp block ∧ IsMembershipType type ∧ IsBlockstamp stamp ∧
      (∀ text ∈ sig.toList, IsSig text) ∧
      text = membershipBody currency key block.text type.text uid stamp.text ++
        sigTail sig.toList breaks ∧
      pairs = [.node .membershipV10 text
        (membershipFields currency key block type uid stamp ++ sigPairs sig.toList)] := by
  rcases h with ⟨_, ⟨_, _, _, _, h, hend, rfl, rfl⟩, rfl⟩
  rcases of_lang_field h with ⟨_, _, _, _, h₁, hstamp, rfl, rfl⟩
  rcases of_lang_field h₁ with ⟨_, _, uid, _, h₂, huid, rfl, rfl⟩
  rcases of_lang_field h₂ with ⟨_, _, _, _, h₃, htype, rfl, rfl⟩
  rcases of_lang_field h₃ with ⟨_, _, _, _, h₄, hblock, rfl, rfl⟩
  rcases of_lang_field h₄ with ⟨_, _, key, _, h₅, hkey, rfl, rfl⟩
  rcases of_lang_field h₅ with ⟨_, _, currency, _, h₆, hcurrency, rfl, rfl⟩
  rcases of_lang_head h₆ with ⟨rfl, rfl⟩
  obtain rfl := of_lang_currency hcurrency
  obtain rfl := of_lang_pubkey hkey
  obtain rfl := of_lang_uid huid
  rcases of_lang_blockstamp hblock with ⟨block, hrecorded, rfl, rfl⟩
  rcases of_lang_membershipType htype with ⟨type, htype', rfl, rfl⟩
  rcases of_lang_blockstamp hstamp with ⟨stamp, hrecorded', rfl, rfl⟩
  rcases of_lang_sigEnd hend with ⟨sig, breaks, hsig, rfl, rfl⟩
  exact ⟨currency, key, block, type, uid, stamp, sig, breaks, hrecorded, htype', hrecorded', hsig,
    rfl, rfl⟩

/-- The rules of a certification before its signature. -/
def certFields (currency key target uid : List Char) (stamp : DocPair) (idtySig : List Char)
    (stamp' : DocPair) : List DocPair :=
  [.leaf .currency currency, .leaf .pubkey key, .leaf .pubkey target, .leaf .uid uid, stamp,
    .leaf .ed25519Sig idtySig, stamp']

theorem of_lang_certV10 (h : certV10.lang text pairs) :
    ∃ currency key target uid stamp idtySig stamp', ∃ sig : Option (List Char),
      IsBlockstamp stamp ∧ IsBlockstamp stamp' ∧
      pairs = [.node .certV10 text
        (certFields currency key target uid stamp idtySig stamp' ++ sigPairs sig.toList)] := by
  rcases h with ⟨_, ⟨_, _, _, _, h, hend, rfl, rfl⟩, rfl⟩
  rcases of_lang_field h with ⟨_, _, _, _, h₁, hstamp', rfl, rfl⟩
  rcases of_lang_field h₁ with ⟨_, _, idtySig, _, h₂, hidtySig, rfl, rfl⟩
  rcases of_lang_field h₂ with ⟨_, _, _, _, h₃, hstamp, rfl, rfl⟩
  rcases of_lang_field h₃ with ⟨_, _, uid, _, h₄, huid, rfl, rfl⟩
  rcases of_lang_field h₄ with ⟨_, _, target, _, h₅, htarget, rfl, rfl⟩
  rcases of_lang_field h₅ with ⟨_, _, key, _, h₆, hkey, rfl, rfl⟩
  rcases of_lang_field h₆ with ⟨_, _, currency, _, h₇, hcurrency, rfl, rfl⟩
  rcases of_lang_certHead h₇ with ⟨rfl, rfl⟩
  obtain rfl := of_lang_currency hcurrency
  obtain rfl := of_lang_pubkey hkey
  obtain rfl := of_lang_pubkey htarget
  obtain rfl := of_lang_uid huid
  obtain rfl := (of_lang_sig hidtySig).2
  rcases of_lang_blockstamp hstamp with ⟨stamp, hrecorded, rfl, rfl⟩
  rcases of_lang_blockstamp hstamp' with ⟨stamp', hrecorded', rfl, rfl⟩
  rcases of_lang_sigEnd hend with ⟨sig, breaks, -, rfl, rfl⟩
  exact ⟨currency, key, target, uid, stamp, idtySig, stamp', sig, hrecorded, hrecorded', rfl⟩

/-- The rules of a revocation before its signature. -/
def revocFields (currency key uid : List Char) (stamp : DocPair) (idtySig : List Char) :
    List DocPair :=
  [.leaf .currency currency, .leaf .pubkey key, .leaf .uid uid, stamp, .leaf .ed25519Sig idtySig]

theorem of_lang_revocV10 (h : revocV10.lang text pairs) :
    ∃ currency key uid stamp idtySig, ∃ sig : Option (List Char), IsBlockstamp stamp ∧
      pairs = [.node .revocV10 text
        (revocFields currency key uid stamp idtySig ++ sigPairs sig.toList)] := by
  rcases h with ⟨_, ⟨_, _, _, _, h, hend, rfl, rfl⟩, rfl⟩
  rcases of_lang_field h with ⟨_, _, idtySig, _, h₁, hidtySig, rfl, rfl⟩
  rcases of_lang_field h₁ with ⟨_, _, _, _, h₂, hstamp, rfl, rfl⟩
  rcases of_lang_field h₂ with ⟨_, _, uid, _, h₃, huid, rfl, rfl⟩
  rcases of_lang_field h₃ with ⟨_, _, key, _, h₄, hkey, rfl, rfl⟩
  rcases of_lang_field h₄ with ⟨_, _, currency, _, h₅, hcurrency, rfl, rfl⟩
  rcases of_lang_head h₅ with ⟨rfl, rfl⟩
  obtain rfl := of_lang_currency hcurrency
  obtain rfl := of_lang_pubkey hkey
  obtain rfl := of_lang_uid huid
  obtain rfl := (of_lang_sig hidtySig).2
  rcases of_lang_blockstamp hstamp with ⟨stamp, hrecorded, rfl, rfl⟩
  rcases of_lang_sigEnd hend with ⟨sig, breaks, -, rfl, rfl⟩
  exact ⟨currency, key, uid, stamp, idtySig, sig, hrecorded, rfl⟩

/-! ## Transactions -/

/-- What the rules of a transaction record before its signatures. -/
structure TxParts where
  currency : List Char
  blockstamp : DocPair
  locktime : List Char
  issuers : List DocPair
  inputs : List DocPair
  unlocks : List DocPair
  outputs : List DocPair
  comment : List Char

namespace TxParts

/-- A line for a label, and one for each of some rules. -/
def block (label : String) (pairs : List DocPair) : List Char :=
  label.toList ++ ['\n'] ++ pairs.flatMap fun pair => pair.text ++ ['\n']

/-- The text before the comment. -/
def header (tx : TxParts) : List Char :=
  head "Type: Transaction" ++ field "Currency: " tx.currency ++
    field "Blockstamp: " tx.blockstamp.text ++ field "Locktime: " tx.locktime ++
    block "Issuers:" tx.issuers ++ block "Inputs:" tx.inputs ++ block "Unlocks:" tx.unlocks ++
    block "Outputs:" tx.outputs

/-- The text before the signatures. -/
def body (tx : TxParts) : List Char := tx.header ++ field "Comment: " tx.comment

/-- The rules before the signatures. -/
def fields (tx : TxParts) : List DocPair :=
  [.leaf .currency tx.currency, tx.blockstamp, .leaf .txLocktime tx.locktime] ++ tx.issuers ++
    tx.inputs ++ tx.unlocks ++ tx.outputs ++ [.leaf .txComment tx.comment]

/-- What the grammar ensures of these rules. -/
structure WellFormed (tx : TxParts) : Prop where
  blockstamp : IsBlockstamp tx.blockstamp
  locktime : IsUInt tx.locktime
  issuers : ∀ issuer ∈ tx.issuers, ∃ key, issuer = .leaf .pubkey key
  inputs : ∀ input ∈ tx.inputs, IsInput input
  unlocks : ∀ unlock ∈ tx.unlocks, IsUnlock unlock
  outputs : ∀ output ∈ tx.outputs, IsOutput output
  comment : '\n' ∉ tx.comment

end TxParts

theorem of_lang_txComment (h : txComment.lang text pairs) :
    '\n' ∉ text ∧ pairs = [.leaf .txComment text] := by
  rcases h with ⟨⟨_, count, -, -, hchars⟩, rfl⟩
  have htext : text.length = count ∧
      ∀ c ∈ text, (c.isAlphanum || commentSigns.contains c) = true :=
    RepLang.chars (fun _ _ ⟨c, hc, htext, _⟩ => ⟨c, hc, htext⟩) hchars
  refine ⟨fun hbreak => ?_, rfl⟩
  have hclass := htext.2 _ hbreak
  revert hclass
  decide

/-- The lines of one kind after their label. -/
theorem of_lang_block {e line : Expr Rule} {label : String} {P : DocPair → Prop}
    (hline : ∀ text pairs, line.lang text pairs →
      ∃ pair, P pair ∧ text = pair.text ∧ pairs = [pair])
    (h : (e ++ str label ++ nl ++ atLeast 1 (line ++ nl)).lang text pairs) :
    ∃ text₁ pairs₁ pairs₂, e.lang text₁ pairs₁ ∧ (∀ pair ∈ pairs₂, P pair) ∧
      text = text₁ ++ TxParts.block label pairs₂ ∧ pairs = pairs₁ ++ pairs₂ := by
  rcases h with ⟨_, _, _, pairs₂, ⟨_, _, _, _, ⟨text₁, pairs₁, _, _, he, ⟨rfl, rfl⟩, rfl, rfl⟩,
    ⟨rfl, rfl⟩, rfl, rfl⟩, hlines, rfl, rfl⟩
  rcases of_lang_lines hline hlines with ⟨hpairs, rfl⟩
  refine ⟨text₁, pairs₁, pairs₂, he, hpairs, ?_, ?_⟩
  · rw [TxParts.block, List.append_assoc, List.append_assoc, List.append_assoc]
    rfl
  · rw [List.append_nil, List.append_nil]

theorem of_lang_txV10 (h : txV10.lang text pairs) :
    ∃ (tx : TxParts) (sigs : List (List Char)) (breaks : Nat), tx.WellFormed ∧
      (∀ sig ∈ sigs, IsSig sig) ∧ text = tx.body ++ sigTail sigs breaks ∧
      pairs = [.node .txV10 text (tx.fields ++ sigPairs sigs)] := by
  have hpubkey : ∀ text pairs, pubkey.lang text pairs →
      ∃ pair : DocPair, (∃ key, pair = .leaf .pubkey key) ∧ text = pair.text ∧ pairs = [pair] :=
    fun text _ hkey => ⟨_, ⟨text, rfl⟩, rfl, of_lang_pubkey hkey⟩
  rcases h with ⟨_, ⟨_, _, _, _, h, hend, rfl, rfl⟩, rfl⟩
  rcases of_lang_field h with ⟨_, _, comment, _, h₁, hcomment, rfl, rfl⟩
  rcases of_lang_block (fun _ _ => of_lang_txOutput) h₁ with ⟨_, _, outputs, h₂, houtputs, rfl, rfl⟩
  rcases of_lang_block (fun _ _ => of_lang_txUnlock) h₂ with ⟨_, _, unlocks, h₃, hunlocks, rfl, rfl⟩
  rcases of_lang_block (fun _ _ => of_lang_txInput) h₃ with ⟨_, _, inputs, h₄, hinputs, rfl, rfl⟩
  rcases of_lang_block hpubkey h₄ with ⟨_, _, issuers, h₅, hissuers, rfl, rfl⟩
  rcases of_lang_field h₅ with ⟨_, _, locktime, _, h₆, hlocktime, rfl, rfl⟩
  rcases of_lang_field h₆ with ⟨_, _, _, _, h₇, hstamp, rfl, rfl⟩
  rcases of_lang_field h₇ with ⟨_, _, currency, _, h₈, hcurrency, rfl, rfl⟩
  rcases of_lang_head h₈ with ⟨rfl, rfl⟩
  obtain rfl := of_lang_currency hcurrency
  rcases of_lang_blockstamp hstamp with ⟨stamp, hrecorded, rfl, rfl⟩
  rcases of_lang_number hlocktime with ⟨hnumber, rfl⟩
  rcases of_lang_txComment hcomment with ⟨hcomment', rfl⟩
  rcases of_lang_sigLines hend with ⟨sigs, breaks, hsigs, rfl, rfl⟩
  exact ⟨{ currency, blockstamp := stamp, locktime, issuers, inputs, unlocks, outputs, comment },
    sigs, breaks, ⟨hrecorded, hnumber, hissuers, hinputs, hunlocks, houtputs, hcomment'⟩, hsigs,
    rfl, rfl⟩

/-! ## Whole texts -/

theorem finishes_sigEnd : Finishes sigEnd := (finishes_eoi _).append _

theorem finishes_idtyV10 : Finishes idtyV10 := (finishes_sigEnd.append _).rule _

theorem finishes_membershipV10 : Finishes membershipV10 := (finishes_sigEnd.append _).rule _

theorem finishes_certV10 : Finishes certV10 := (finishes_sigEnd.append _).rule _

theorem finishes_revocV10 : Finishes revocV10 := (finishes_sigEnd.append _).rule _

theorem finishes_txV10 : Finishes txV10 := ((finishes_sigEnd.append _).append _).rule _

/-- A document of a known type is the whole text. -/
theorem of_parse {e : Expr Rule} (he : Finishes e) {text : String}
    (h : DocumentsParser.parse (rule r (atV10 ++ e)) text = some pairs) :
    ∃ inner, e.lang text.toList inner ∧ pairs = [.node r text.toList inner] := by
  rcases Option.map_eq_some_iff.1 h with ⟨m, hm, rfl⟩
  rcases ((he.append _).rule r).lang_of_run hm with
    ⟨_, ⟨_, _, _, _, ⟨rfl, rfl⟩, hlang, htext, rfl⟩, hpairs⟩
  rw [List.nil_append] at htext
  subst htext
  exact ⟨_, hlang, hpairs⟩

/-- A document of any type is the whole text. -/
theorem of_parse_document {text : String}
    (h : DocumentsParser.parse document text = some pairs) :
    ∃ inner, (idtyV10.lang text.toList inner ∨ membershipV10.lang text.toList inner ∨
        certV10.lang text.toList inner ∨ revocV10.lang text.toList inner ∨
        txV10.lang text.toList inner) ∧
      pairs = [.node .document text.toList [.node .documentV10 text.toList inner]] := by
  rcases Option.map_eq_some_iff.1 h with ⟨m, hm, rfl⟩
  have hfinishes : Finishes document :=
    (((((finishes_idtyV10.append _).orElse (finishes_membershipV10.orElse
      (finishes_certV10.orElse (finishes_revocV10.orElse finishes_txV10)))).rule _).append
        _).append _).rule _
  rcases hfinishes.lang_of_run hm with ⟨_, ⟨_, _, _, _, ⟨rfl, rfl⟩, ⟨_, _, _, _, ⟨rfl, rfl⟩,
    ⟨inner, hinner, rfl⟩, rfl, rfl⟩, htext, rfl⟩, hpairs⟩
  subst htext
  refine ⟨inner, ?_, hpairs⟩
  rcases hinner with ⟨_, _, _, _, ⟨rfl, rfl⟩, hlang, htext, rfl⟩ | hrest
  · rw [List.nil_append] at htext
    exact Or.inl (htext ▸ hlang)
  · exact Or.inr hrest

end Durs.Grammar
