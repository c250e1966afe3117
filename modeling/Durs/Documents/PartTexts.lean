/-
# The texts of the parts of a transaction

An input or the proofs that unlock one are read from the front of a text, and print that front back:
they print the whole text exactly when the grammar leaves nothing of it.  An output prints the first
three parts of its text.
-/

import Durs.Documents.Canonical
import Durs.Documents.FromStr

namespace Durs

open RustStd Lib Lib.Peg

variable {C : DocCrypto} {source : String}

/-! ## Inputs and unlocks -/

/-- The rule matches the whole text. -/
def MatchesWhole (e : Expr Rule) (source : String) : Prop :=
  ∃ m, e.run true source.toList = some m ∧ m.rest = []

/-- What a part is read from: a match at the front of the text, which records one rule. -/
theorem of_parseInner {α : Type} {e : Expr Rule} {IsPart : DocPair → Prop}
    {fromPestPair : List DocPair → Run α} {part : α}
    (hlang : ∀ text pairs, e.lang text pairs → ∃ pair, IsPart pair ∧ text = pair.text ∧
      pairs = [pair])
    (h : (parseInner e fromPestPair source).run = .ok (some part)) :
    ∃ m pair, e.run true source.toList = some m ∧ IsPart pair ∧ m.text = pair.text ∧
      m.text ++ m.rest = source.toList ∧ fromPestPair pair.inner = .ok part := by
  rw [parseInner, run_bind_eq_some_iff] at h
  rcases h with ⟨pairs, hpairs, h⟩
  rcases Option.map_eq_some_iff.1 (run_option_eq_some_iff.1 hpairs) with ⟨m, hm, rfl⟩
  rcases e.sound hm with ⟨hsplit, hmatch⟩
  rcases hlang _ _ hmatch with ⟨pair, hpart, htext, hpair⟩
  rw [hpair] at h
  rcases run_bind_eq_some_iff.1 h with ⟨next, hnext, hread⟩
  obtain rfl := Except.ok.inj (run_lift_eq_some_iff.1 hnext)
  exact ⟨m, pair, hm, hpart, htext, hsplit, run_lift_eq_some_iff.1 hread⟩

/-- A part that prints the text of the rule it is read from prints the whole text exactly when the
rule matches the whole text. -/
theorem printed_eq_iff {e : Expr Rule} {m : Match Rule} {printed : String}
    (hm : e.run true source.toList = some m) (hsplit : m.text ++ m.rest = source.toList)
    (hprinted : printed.toList = m.text) : printed = source ↔ MatchesWhole e source := by
  rw [← String.toList_inj, hprinted, ← hsplit]
  constructor
  · intro h
    exact ⟨m, hm, List.append_cancel_left ((List.append_nil _).trans h).symm⟩
  · rintro ⟨m', hm', hrest⟩
    obtain rfl := Option.some.inj (hm.symm.trans hm')
    rw [hrest, List.append_nil]

theorem input_toText_eq_iff (hprints : C.PrintsPubkeys) {input : TransactionInput}
    (h : (TransactionInput.fromStr C source).run = .ok (some input)) :
    input.toText C = source ↔ MatchesWhole Grammar.txInput source := by
  rcases of_parseInner (fun _ _ => Grammar.of_lang_txInput) h with
    ⟨m, pair, hm, hpart, htext, hsplit, hread⟩
  exact printed_eq_iff hm hsplit ((toText_of_input hprints hpart hread).trans htext.symm)

theorem unlocks_toText_eq_iff {unlocks : TransactionInputUnlocks}
    (h : (TransactionInputUnlocks.fromStr source).run = .ok (some unlocks)) :
    unlocks.toText = source ↔ MatchesWhole Grammar.txUnlock source := by
  rcases of_parseInner (fun _ _ => Grammar.of_lang_txUnlock) h with
    ⟨m, pair, hm, hpart, htext, hsplit, hread⟩
  exact printed_eq_iff hm hsplit ((toText_of_unlocks hpart hread).trans htext.symm)

/-! ## Outputs -/

/-- The parts of a text do not hold the character that separates them. -/
theorem not_mem_of_mem_splitOn {sep : Char} {text part : List Char} (h : part ∈ text.splitOn sep) :
    sep ∉ part := by
  induction text generalizing part with
  | nil =>
      rw [List.splitOn_nil, List.mem_singleton] at h
      rw [h]
      exact List.not_mem_nil
  | cons c text ih =>
      rw [List.splitOn_cons_eq_if_modifyHead] at h
      split at h
      case isTrue =>
        rcases List.mem_cons.1 h with rfl | hpart
        · exact List.not_mem_nil
        · exact ih hpart
      case isFalse hc =>
        cases hparts : text.splitOn sep with
        | nil => exact absurd hparts (List.splitOn_ne_nil _ _)
        | cons first parts =>
            rw [hparts, List.modifyHead_cons] at h
            rcases List.mem_cons.1 h with rfl | hpart
            · intro hmem
              rcases List.mem_cons.1 hmem with rfl | hmem
              · exact hc BEq.rfl
              · exact ih (hparts ▸ List.mem_cons_self) hmem
            · exact ih (hparts ▸ List.mem_cons_of_mem _ hpart)

theorem splitOn_three {sep : Char} {first second : List Char} (hfirst : sep ∉ first)
    (hsecond : sep ∉ second) (rest : List Char) :
    (first ++ sep :: (second ++ sep :: rest)).splitOn sep =
      first :: second :: rest.splitOn sep := by
  rw [List.splitOn_append_cons_self_of_not_mem hfirst,
    List.splitOn_append_cons_self_of_not_mem hsecond]

theorem colon_not_mem_of_isUInt {text : List Char} (h : IsUInt text) : ':' ∉ text := by
  intro hmem
  have hdigit := h.digits.2 _ hmem
  revert hdigit
  decide

/-- A text that starts with two numbers is the text of an output, or the one with brackets that it
is parsed as, only if the numbers are the first two of at least three parts. -/
theorem splitOn_of_strToParse {amount base rest : List Char} (hamount : IsUInt amount)
    (hbase : IsUInt base) {text : String}
    (htext : text = TransactionOutput.strToParse source ∨ text = source)
    (hsplit : text.toList = amount ++ ':' :: (base ++ ':' :: rest)) :
    ∃ conditions more, source.toList.splitOn ':' = amount :: base :: conditions :: more := by
  have hparts : text.toList.splitOn ':' = amount :: base :: rest.splitOn ':' := by
    rw [hsplit, splitOn_three (colon_not_mem_of_isUInt hamount) (colon_not_mem_of_isUInt hbase)]
  have hsource : text = source →
      ∃ conditions more, source.toList.splitOn ':' = amount :: base :: conditions :: more := by
    rintro rfl
    cases hrest : rest.splitOn ':' with
    | nil => exact absurd hrest (List.splitOn_ne_nil _ _)
    | cons conditions more => exact ⟨conditions, more, by rw [hparts, hrest]⟩
  rcases htext with htext | htext
  · rw [TransactionOutput.strToParse, split] at htext
    rcases hcuts : source.toList.splitOn ':' with _ | ⟨first, _ | ⟨second, _ | ⟨conditions, more⟩⟩⟩
    · exact absurd hcuts (List.splitOn_ne_nil _ _)
    · rw [hcuts] at htext
      exact hcuts ▸ hsource htext
    · rw [hcuts] at htext
      exact hcuts ▸ hsource htext
    · rw [hcuts] at htext
      have hfirst : ':' ∉ first := not_mem_of_mem_splitOn (hcuts ▸ List.mem_cons_self)
      have hsecond : ':' ∉ second :=
        not_mem_of_mem_splitOn (hcuts ▸ List.mem_cons_of_mem _ List.mem_cons_self)
      have hbrackets : text.toList =
          first ++ ':' :: (second ++ ':' :: '(' :: (conditions ++ [')'])) := by
        rw [htext]
        simp
      rw [hbrackets, splitOn_three hfirst hsecond] at hparts
      have heq := List.cons.inj hparts
      obtain rfl := heq.1
      obtain rfl := (List.cons.inj heq.2).1
      exact ⟨conditions, more, rfl⟩
  · exact hsource htext

/-- An output is read from a text of at least three parts, and prints the first three. -/
theorem of_fromStr_output {output : TransactionOutput}
    (h : (TransactionOutput.fromStr C source).run = .ok (some output)) :
    ∃ amount base conditions more,
      source.toList.splitOn ':' = amount :: base :: conditions :: more ∧
      (output.toText C).toList = amount ++ ':' :: (base ++ ':' :: conditions) := by
  rw [TransactionOutput.fromStr, run_bind_eq_some_iff] at h
  rcases h with ⟨read, hread, h⟩
  obtain rfl := run_pure_eq_some_iff.1 h
  rcases of_parseInner (fun _ _ => Grammar.of_lang_txOutput) hread with
    ⟨m, pair, -, hpart, htext, hsplit, hpair⟩
  cases hpart with
  | @mk amount base cond hamount hbase hcond =>
      rw [Pair.inner_node, TransactionOutput.fromPestPair_eq] at hpair
      simp only [bind_eq_ok_iff, unwrap_eq_ok_iff, pure_eq_ok_iff] at hpair
      rcases hpair with ⟨value, hvalue, power, hpower, group, -, rfl⟩
      have hwhole : m.text ++ m.rest =
          amount ++ ':' :: (base ++ ':' :: (cond.text ++ m.rest)) := by
        rw [htext, Pair.text_node]
        simp
      rw [hwhole] at hsplit
      rcases splitOn_of_strToParse hamount hbase (ite_eq_or_eq _ _ _) hsplit.symm with
        ⟨conditions, more, hparts⟩
      refine ⟨amount, base, conditions, more, hparts, ?_⟩
      have horigin : (split ':' source)[2]? = some (String.ofList conditions) := by
        rw [split, hparts]
        rfl
      simp only [TransactionOutput.toText, UTXOConditions.toText, horigin, String.toList_append,
        hamount.toString_of_parseSigned hvalue, hbase.toString_of_parseUnsigned hpower,
        String.toList_ofList]
      simp

theorem output_toText_eq_iff {output : TransactionOutput}
    (h : (TransactionOutput.fromStr C source).run = .ok (some output)) :
    output.toText C = source ↔ (split ':' source).length = 3 := by
  rcases of_fromStr_output h with ⟨amount, base, conditions, more, hparts, hprinted⟩
  have hsource : [':'].intercalate (source.toList.splitOn ':') = source.toList :=
    List.intercalate_splitOn ':'
  rw [split, List.length_map, hparts]
  rw [hparts] at hsource
  rw [← String.toList_inj, hprinted, ← hsource]
  cases more with
  | nil => exact iff_of_true (by simp [List.intercalate_cons_cons]) rfl
  | cons part more =>
      refine iff_of_false ?_ (by simp)
      intro heq
      have hlen := congrArg List.length heq
      simp only [List.intercalate_cons_cons, List.length_append, List.length_cons] at hlen
      simp at hlen
      omega

/-! ## All the parts -/

/-- What is read from a text prints the text exactly when the grammar leaves nothing of it, for an
input or for unlocks, and when the text has three parts, for an output. -/
theorem parts_toText_eq_iff (hprints : C.PrintsPubkeys) (source : String) :
    (∀ input, (TransactionInput.fromStr C source).run = .ok (some input) →
      (input.toText C = source ↔ MatchesWhole Grammar.txInput source)) ∧
    (∀ unlocks, (TransactionInputUnlocks.fromStr source).run = .ok (some unlocks) →
      (unlocks.toText = source ↔ MatchesWhole Grammar.txUnlock source)) ∧
    (∀ output, (TransactionOutput.fromStr C source).run = .ok (some output) →
      (output.toText C = source ↔ (split ':' source).length = 3)) :=
  ⟨fun _ h => input_toText_eq_iff hprints h, fun _ h => unlocks_toText_eq_iff h,
    fun _ h => output_toText_eq_iff h⟩

/-- The unlocks of an input, with one signature. -/
theorem unlocks_toText_example :
    (TransactionInputUnlocks.fromStr "0:SIG(0)").run = .ok (some ⟨0, [.sig 0]⟩) ∧
      TransactionInputUnlocks.toText ⟨0, [.sig 0]⟩ = "0:SIG(0)" := by
  have hread : (TransactionInputUnlocks.fromStr "0:SIG(0)").run = .ok (some ⟨0, [.sig 0]⟩) := by
    decide +kernel
  exact ⟨hread, ((parts_toText_eq_iff printsPubkeys_exampleCrypto "0:SIG(0)").2.1 _ hread).2
    ⟨_, rfl, rfl⟩⟩

/-- What follows the unlocks of an input, and a fourth part of an output, are accepted and
dropped. -/
theorem exists_toText_ne :
    (∃ unlocks, (TransactionInputUnlocks.fromStr "0:SIG(0)0").run = .ok (some unlocks) ∧
      unlocks.toText ≠ "0:SIG(0)0") ∧
    ∃ output, (TransactionOutput.fromStr exampleCrypto "10:0:CSV(1):0").run = .ok (some output) ∧
      output.toText exampleCrypto ≠ "10:0:CSV(1):0" := by
  refine ⟨⟨⟨0, [.sig 0]⟩, by decide +kernel, by decide +kernel⟩,
    ⟨⟨10, 0, ⟨some "CSV(1)", .single (.csv 1)⟩⟩, by decide +kernel, by decide +kernel⟩⟩

end Durs
