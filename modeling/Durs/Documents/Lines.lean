/-
# Lines of a text

How a text splits into lines, the text of a document without its signatures, and the part of a text
that its signatures sign.
-/

import Durs.Documents.GrammarShape
import Durs.Documents.TextDocument

namespace Durs

open Grammar

/-! ## Splitting -/

theorem splitLines_append (text rest : List Char) :
    splitLines (text ++ '\n' :: rest) = splitLines text ++ splitLines rest :=
  List.splitOn_append_cons_self _ _

theorem splitLines_ne_nil (text : List Char) : splitLines text ≠ [] := List.splitOn_ne_nil _ _

/-- Lines with their line breaks are the text that they make, with a line break. -/
theorem flatMap_lines {lines : List (List Char)} (hlines : lines ≠ []) :
    lines.flatMap (· ++ ['\n']) = ['\n'].intercalate lines ++ ['\n'] := by
  induction lines with
  | nil => exact absurd rfl hlines
  | cons line lines ih =>
      cases lines with
      | nil => rw [List.intercalate_singleton, List.flatMap_singleton]
      | cons next lines =>
          rw [List.flatMap_cons, ih (List.cons_ne_nil _ _), List.intercalate_cons_cons,
            List.append_assoc, List.append_assoc, List.append_assoc]

theorem flatMap_splitLines (text : List Char) :
    (splitLines text).flatMap (· ++ ['\n']) = text ++ ['\n'] := by
  rw [flatMap_lines (splitLines_ne_nil text), splitLines, List.intercalate_splitOn]

/-- The lines of some signatures and of the line breaks after them. -/
theorem splitLines_sigTail {sigs : List (List Char)} (hsigs : ∀ sig ∈ sigs, '\n' ∉ sig)
    (breaks : Nat) : splitLines (sigTail sigs breaks) =
      (if sigs = [] then [[]] else sigs) ++ List.replicate breaks [] := by
  induction breaks with
  | zero =>
      rw [sigTail, List.replicate_zero, List.append_nil, List.replicate_zero, List.append_nil]
      split
      case isTrue h => rw [h]; rfl
      case isFalse h => exact List.splitOn_intercalate _ hsigs h
  | succ breaks ih =>
      have htail : sigTail sigs (breaks + 1) = sigTail sigs breaks ++ '\n' :: [] := by
        rw [sigTail, sigTail, List.replicate_succ', List.append_assoc]
      rw [htail, splitLines_append, ih, List.replicate_succ', List.append_assoc]
      rfl

/-! ## The part of a text that is signed -/

/-- The part of a text up to its last line with a label, with its line break. -/
def signedText (label : String) (text : List Char) : List Char :=
  let afterLabel := fun line => !label.toList.isPrefixOf line
  ((splitLines text).reverse.dropWhile afterLabel).reverse.flatMap (· ++ ['\n'])

/-- Whether a text ends with a line break. -/
def EndsLine (text : List Char) : Prop := ∃ front, text = front ++ ['\n']

theorem endsLine_field (label : String) (value : List Char) : EndsLine (field label value) :=
  ⟨_, rfl⟩

theorem EndsLine.append {rest : List Char} (h : EndsLine rest) (text : List Char) :
    EndsLine (text ++ rest) := by
  rcases h with ⟨front, rfl⟩
  exact ⟨text ++ front, (List.append_assoc _ _ _).symm⟩

theorem endsLine_lines (lines : List (List Char)) {text : List Char} (h : EndsLine text) :
    EndsLine (text ++ lines.flatMap (· ++ ['\n'])) := by
  induction lines generalizing text with
  | nil => exact (List.append_nil text).symm ▸ h
  | cons line lines ih =>
      rw [List.flatMap_cons, ← List.append_assoc]
      exact ih (EndsLine.append ⟨line, rfl⟩ text)

theorem not_mem_of_isSig {sig : List Char} (h : IsSig sig) {c : Char} (hc : isSigChar c = false) :
    c ∉ sig := by
  intro hmem
  rw [h.2 c hmem] at hc
  cases hc

/-- What comes before the signatures is the part of the text up to the last line with a label. -/
theorem signedText_append {label : String} (hlabel : ' ' ∈ label.toList) {value : List Char}
    (hvalue : '\n' ∉ label.toList ++ value) {sigs : List (List Char)}
    (hsigs : ∀ sig ∈ sigs, IsSig sig) {front : List Char} (hfront : EndsLine front)
    (breaks : Nat) :
    signedText label (front ++ field label value ++ sigTail sigs breaks) =
      front ++ field label value := by
  rcases hfront with ⟨front, rfl⟩
  have htail : ∀ line ∈ splitLines (sigTail sigs breaks), ' ' ∉ line := by
    rw [splitLines_sigTail fun sig hsig => not_mem_of_isSig (hsigs sig hsig) (by decide)]
    intro line hline
    rcases List.mem_append.1 hline with hline | hline
    · split at hline
      case isTrue => exact List.mem_singleton.1 hline ▸ List.not_mem_nil
      case isFalse => exact not_mem_of_isSig (hsigs line hline) (by decide)
    · exact List.eq_of_mem_replicate hline ▸ List.not_mem_nil
  have hafter : ∀ line ∈ (splitLines (sigTail sigs breaks)).reverse,
      (!label.toList.isPrefixOf line) = true := by
    intro line hline
    rw [Bool.not_eq_true', Bool.eq_false_iff]
    intro hprefix
    exact htail line (List.mem_reverse.1 hline) ((List.isPrefixOf_iff_prefix.1 hprefix).subset hlabel)
  have hlabelled : (label.toList.isPrefixOf (label.toList ++ value)) = true :=
    List.isPrefixOf_iff_prefix.2 (List.prefix_append _ _)
  have hline : splitLines (label.toList ++ value) = [label.toList ++ value] :=
    List.splitOn_eq_singleton hvalue
  have hlines : splitLines (front ++ ['\n'] ++ field label value ++ sigTail sigs breaks) =
      splitLines front ++ (label.toList ++ value) :: splitLines (sigTail sigs breaks) := by
    rw [List.append_assoc, List.append_assoc, List.singleton_append, splitLines_append, field,
      List.append_assoc, List.singleton_append, splitLines_append, hline, List.singleton_append]
  rw [signedText, hlines, List.reverse_append, List.reverse_cons, List.append_assoc,
    List.dropWhile_append_of_pos hafter, List.singleton_append, List.dropWhile_cons_of_neg]
  · rw [List.reverse_cons, List.reverse_reverse, List.flatMap_append, flatMap_splitLines,
      List.flatMap_singleton, field]
  · rw [hlabelled]
    decide

theorem endsLine_block (label : String) (pairs : List DocPair) :
    EndsLine (TxParts.block label pairs) := by
  have hlines : (pairs.flatMap fun pair => pair.text ++ ['\n']) =
      (pairs.map Lib.Peg.Pair.text).flatMap (· ++ ['\n']) := by
    rw [List.flatMap_map]
  rw [TxParts.block, hlines]
  exact endsLine_lines _ ⟨_, rfl⟩

/-- The text of a transaction up to its comment is what comes before the signatures. -/
theorem signedText_transaction {tx : TxParts} (htx : tx.WellFormed) {sigs : List (List Char)}
    (hsigs : ∀ sig ∈ sigs, IsSig sig) (breaks : Nat) :
    signedText "Comment: " (tx.body ++ sigTail sigs breaks) = tx.body := by
  refine signedText_append (by decide) (fun hbreak => ?_) hsigs
    ((endsLine_block "Outputs:" tx.outputs).append _) breaks
  rcases List.mem_append.1 hbreak with hlabel | hcomment
  · revert hlabel
    decide
  · exact htx.comment hcomment

theorem break_not_mem_of_isBlockstamp {stamp : DocPair} (h : IsBlockstamp stamp) :
    '\n' ∉ stamp.text := by
  cases h with
  | mk hid hhash =>
      intro hbreak
      rcases List.mem_append.1 hbreak with hbreak | hbreak
      · have hdigit := hid.digits.2 _ hbreak
        revert hdigit
        decide
      · rcases List.mem_cons.1 hbreak with hbreak | hbreak
        · revert hbreak
          decide
        · have hupper := hhash.2 _ hbreak
          revert hupper
          decide

/-- The text of a document up to its last blockstamp is what comes before the signature. -/
theorem signedText_blockstamp {label : String} (hlabel : ' ' ∈ label.toList)
    (hbreak : '\n' ∉ label.toList) {stamp : DocPair} (hstamp : IsBlockstamp stamp)
    {sigs : List (List Char)} (hsigs : ∀ sig ∈ sigs, IsSig sig) {front : List Char}
    (hfront : EndsLine front) (breaks : Nat) :
    signedText label (front ++ field label stamp.text ++ sigTail sigs breaks) =
      front ++ field label stamp.text :=
  signedText_append hlabel
    (fun h => (List.mem_append.1 h).elim hbreak (break_not_mem_of_isBlockstamp hstamp)) hsigs
    hfront breaks

/-! ## The text without signatures -/

theorem byteLen_append (text rest : List Char) :
    byteLen (text ++ rest) = byteLen text + byteLen rest := by
  rw [byteLen, List.map_append, List.sum_append]
  rfl

theorem sliceTo_zero (text : List Char) : sliceTo text 0 = .ok [] := by
  cases text with
  | nil => rfl
  | cons => rfl

theorem sliceTo_append (text rest : List Char) : sliceTo (text ++ rest) (byteLen text) = .ok text := by
  induction text with
  | nil => exact sliceTo_zero rest
  | cons c text ih =>
      have hpos := Char.utf8Size_pos c
      have hlen : byteLen (c :: text) = c.utf8Size - 1 + byteLen text + 1 := by
        have hcons : byteLen (c :: text) = c.utf8Size + byteLen text := List.sum_cons
        omega
      have hrest : c.utf8Size - 1 + byteLen text + 1 - c.utf8Size = byteLen text := by omega
      rw [hlen, List.cons_append, sliceTo, if_pos (by omega), hrest, ih]
      rfl

theorem byteLen_flatMap (lines : List (List Char)) :
    byteLen (lines.flatMap (· ++ ['\n'])) = lines.length + (lines.map byteLen).sum := by
  induction lines with
  | nil => rfl
  | cons line lines ih =>
      rw [List.flatMap_cons, byteLen_append, byteLen_append, ih, List.length_cons, List.map_cons,
        List.sum_cons]
      have hbreak : byteLen ['\n'] = 1 := by decide
      omega

theorem subU64_of_le {a b : Nat} (h : b ≤ a) : subU64 a b = a - b := if_pos h

/-- As many lines as there are signatures are dropped from the end of the text. -/
theorem asTextWithoutSignature_eq {text : List Char} {signatures : List Sig}
    {front last : List (List Char)} (hlines : splitLines text = front ++ last)
    (hcount : last.length = signatures.length) (hlast : last ≠ []) :
    asTextWithoutSignature text signatures = .ok (front.flatMap (· ++ ['\n'])) := by
  have htext : text = front.flatMap (· ++ ['\n']) ++ ['\n'].intercalate last := by
    have hbreak : text ++ ['\n'] =
        front.flatMap (· ++ ['\n']) ++ ['\n'].intercalate last ++ ['\n'] := by
      rw [← flatMap_splitLines, hlines, List.flatMap_append, flatMap_lines hlast, List.append_assoc]
    exact List.append_cancel_right hbreak
  have hdropped : (((splitLines text).reverse.take signatures.length).map byteLen).sum =
      (last.map byteLen).sum := by
    rw [hlines, List.reverse_append, ← hcount, ← List.length_reverse, List.take_left,
      List.map_reverse, List.sum_reverse]
  have hlen : byteLen (['\n'].intercalate last) = last.length - 1 + (last.map byteLen).sum := by
    have hbytes := congrArg byteLen (flatMap_lines hlast)
    rw [byteLen_flatMap, byteLen_append] at hbytes
    have hbreak : byteLen ['\n'] = 1 := by decide
    have hpos : 0 < last.length := List.length_pos_of_ne_nil hlast
    omega
  have hpos : 1 ≤ signatures.length := hcount ▸ List.length_pos_of_ne_nil hlast
  have hcut : subU64 (byteLen text) (subU64 signatures.length 1 + (last.map byteLen).sum) =
      byteLen (front.flatMap (· ++ ['\n'])) := by
    rw [htext, byteLen_append, hlen, subU64_of_le hpos, hcount, subU64_of_le (Nat.le_add_left _ _),
      Nat.add_sub_cancel]
  rw [asTextWithoutSignature]
  simp only [hdropped, hcut]
  rw [htext, sliceTo_append]

end Durs
