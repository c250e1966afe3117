/-
# Escaped comments

What is given back when the backslashes of a text are doubled and the text is unescaped.  Unescaping
leaves out a backslash that follows another one, however many came before.
-/

import Durs.Documents.JsonBlocks

namespace Durs.Parsers

/-- A text with every backslash doubled. -/
def escapeStr (source : String) : String :=
  String.ofList (source.toList.flatMap fun c => if c = '\\' then ['\\', '\\'] else [c])

/-- A doubled backslash is unescaped as a single one is. -/
theorem unescapeFrom_escape (previous : Option Char) (chars : List Char) :
    unescapeFrom previous (chars.flatMap fun c => if c = '\\' then ['\\', '\\'] else [c]) =
      unescapeFrom previous chars := by
  induction chars generalizing previous with
  | nil => rfl
  | cons c chars ih =>
      rw [List.flatMap_cons]
      by_cases hc : c = '\\'
      · subst hc
        rw [if_pos rfl, List.cons_append, List.cons_append, List.nil_append]
        simp [unescapeFrom, ih]
      · rw [if_neg hc, List.singleton_append]
        simp only [unescapeFrom, ih]

theorem length_unescapeFrom_le (previous : Option Char) (chars : List Char) :
    (unescapeFrom previous chars).length ≤ chars.length := by
  induction chars generalizing previous with
  | nil => exact Nat.le_refl 0
  | cons c chars ih =>
      rw [unescapeFrom]
      split
      case isTrue => exact Nat.le_succ_of_le (ih _)
      case isFalse => exact Nat.succ_le_succ (ih _)

/-- Unescaping leaves a text as it is exactly when no backslash follows another one. -/
theorem unescapeFrom_eq_self_iff (previous : Option Char) (chars : List Char) :
    unescapeFrom previous chars = chars ↔
      (previous.toList ++ chars).IsChain fun c c' => ¬ (c = '\\' ∧ c' = '\\') := by
  induction chars generalizing previous with
  | nil =>
      refine iff_of_true rfl ?_
      cases previous with
      | none => exact .nil
      | some c => exact .singleton c
  | cons c chars ih =>
      have hchain : (previous.toList ++ c :: chars).IsChain (fun c c' => ¬ (c = '\\' ∧ c' = '\\')) ↔
          ¬ (previous = some '\\' ∧ c = '\\') ∧
            (c :: chars).IsChain fun c c' => ¬ (c = '\\' ∧ c' = '\\') := by
        cases previous with
        | none => simp
        | some before => simp [List.isChain_cons_cons]
      rw [unescapeFrom, hchain]
      split
      case isTrue hdouble =>
        refine iff_of_false (fun h => ?_) fun h => h.1 hdouble
        -- what is unescaped is shorter than the text
        have hle := length_unescapeFrom_le (some c) chars
        rw [h, List.length_cons] at hle
        omega
      case isFalse hsingle =>
        rw [List.cons_inj_right, ih, and_iff_right hsingle]
        rfl

/-- Unescaping undoes escaping exactly for the texts without two backslashes in a row. -/
theorem unescapeStr_escapeStr_iff (source : String) :
    unescapeStr (escapeStr source) = source ↔
      source.toList.IsChain fun c c' => ¬ (c = '\\' ∧ c' = '\\') := by
  rw [unescapeStr, escapeStr, String.toList_ofList, unescapeFrom_escape, ← String.toList_inj,
    String.toList_ofList, unescapeFrom_eq_self_iff]
  rfl

/-- Of two backslashes one is given back. -/
theorem unescapeStr_escapeStr_backslashes :
    unescapeStr (escapeStr "\\\\") = "\\" ∧ unescapeStr (escapeStr "\\\\") ≠ "\\\\" := by decide

end Durs.Parsers
