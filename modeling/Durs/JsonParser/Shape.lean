/-
# What the grammar of JSON records

A text that the grammar matches is an object or an array.  An object records its members, and a
member its name and its value.
-/

import Durs.JsonParser.Reading

namespace Durs

open RustStd Lib Lib.Peg Lib.Peg.Expr

namespace JsonGrammar

/-- A member of an object, with the texts of its rules. -/
structure Member where
  text : List Char
  stringText : List Char
  name : List Char
  value : JsonPair

/-- What a member records. -/
def Member.pair (m : Member) : JsonPair :=
  .node .pair m.text [.node .string m.stringText [.leaf .innerString m.name], m.value]

/-- What a value records. -/
inductive IsValue : JsonPair → Prop
  | object {text : List Char} {members : List Member} : (∀ m ∈ members, IsInner m.name) →
      (∀ m ∈ members, IsValue m.value) → IsValue (.node .object text (members.map Member.pair))
  | array {text : List Char} {elems : List JsonPair} : (∀ elem ∈ elems, IsValue elem) →
      IsValue (.node .array text elems)
  | string {text inner : List Char} : IsInner inner →
      IsValue (.node .string text [.leaf .innerString inner])
  | number {text : List Char} : IsValue (.leaf .number text)
  | boolean {text : List Char} : IsValue (.node .boolean text [])
  | null {text : List Char} : IsValue (.node .null text [])

variable {text : List Char} {pairs : List JsonPair}

theorem of_lang_skip (h : skip.lang text pairs) : pairs = [] := by
  rcases h with ⟨count, -, parts, -, hparts, -, rfl⟩
  refine List.flatMap_eq_nil_iff.2 fun part hpart => ?_
  rcases hparts part hpart with ⟨_, _, _, hpairs⟩
  exact hpairs

/-- Items record one rule each. -/
theorem of_lang_items {α : Type} {opening closing : String} {item : Expr JsonRule}
    {P : α → Prop} {record : α → JsonPair}
    (hitem : ∀ text pairs, item.lang text pairs → ∃ a, P a ∧ pairs = [record a])
    (h : (items opening closing item).lang text pairs) :
    ∃ as : List α, (∀ a ∈ as, P a) ∧ pairs = as.map record := by
  have hnext : ∀ text pairs, (str "," ++ skip ++ item).lang text pairs →
      ∃ a, P a ∧ pairs = [record a] := by
    rintro text pairs ⟨_, _, _, _, ⟨_, _, _, _, ⟨-, rfl⟩, hskip, -, rfl⟩, ha, -, rfl⟩
    obtain rfl := of_lang_skip hskip
    exact hitem _ _ ha
  have hmore : ∀ text pairs, (skip ++ (str "," ++ skip ++ item)).lang text pairs →
      ∃ a : α × List Char, P a.1 ∧ text = a.2 ∧ pairs = [record a.1] := by
    rintro text pairs ⟨_, _, _, _, hskip, ha, -, rfl⟩
    obtain rfl := of_lang_skip hskip
    rcases hnext _ _ ha with ⟨a, ha, hrecord⟩
    exact ⟨(a, text), ha, rfl, hrecord⟩
  have hstar : ∀ text pairs, (star (str "," ++ skip ++ item)).lang text pairs →
      ∃ as : List α, (∀ a ∈ as, P a) ∧ pairs = as.map record := by
    rintro text pairs (⟨_, _, _, _, hfirst, ⟨count, -, hrest⟩, -, rfl⟩ | ⟨-, rfl⟩)
    · rcases hnext _ _ hfirst with ⟨a, ha, rfl⟩
      rcases RepLang.exists_list (fun a : α × List Char => record a.1) hmore hrest with
        ⟨as, -, has, -, rfl⟩
      refine ⟨a :: as.map Prod.fst, List.forall_mem_cons.2 ⟨ha, ?_⟩, ?_⟩
      · exact List.forall_mem_map.2 has
      · rw [List.map_cons, List.map_map]
        rfl
    · exact ⟨[], List.forall_mem_nil _, rfl⟩
  rcases h with ⟨_, _, _, _, ⟨_, _, _, _, ⟨-, rfl⟩, hskip, -, rfl⟩, ⟨-, rfl⟩, -, rfl⟩ |
    ⟨_, _, _, _, ⟨_, _, _, _, ⟨_, _, _, _, ⟨_, _, _, _, ⟨_, _, _, _, ⟨_, _, _, _, ⟨-, rfl⟩, hskip,
      -, rfl⟩, hfirst, -, rfl⟩, hskip', -, rfl⟩, hrest, -, rfl⟩, hskip'', -, rfl⟩, ⟨-, rfl⟩, -,
      rfl⟩
  · obtain rfl := of_lang_skip hskip
    exact ⟨[], List.forall_mem_nil _, rfl⟩
  · obtain rfl := of_lang_skip hskip
    obtain rfl := of_lang_skip hskip'
    obtain rfl := of_lang_skip hskip''
    rcases hitem _ _ hfirst with ⟨a, ha, rfl⟩
    rcases hstar _ _ hrest with ⟨as, has, rfl⟩
    refine ⟨a :: as, List.forall_mem_cons.2 ⟨ha, has⟩, ?_⟩
    simp only [List.append_nil, List.nil_append, List.map_cons, List.singleton_append]

theorem of_lang_string (h : string.lang text pairs) :
    ∃ inner, IsInner inner ∧ pairs = [.node .string text [.leaf .innerString inner]] := by
  rcases h with ⟨_, ⟨_, _, _, _, ⟨_, _, inner, _, ⟨-, rfl⟩, hinner, -, rfl⟩, ⟨-, rfl⟩, -, rfl⟩,
    rfl⟩
  rcases isInner_of_lang hinner with ⟨hchars, rfl⟩
  exact ⟨inner, hchars, rfl⟩

theorem of_lang_pair {value : Expr JsonRule}
    (hvalue : ∀ text pairs, value.lang text pairs → ∃ pair, IsValue pair ∧ pairs = [pair])
    (h : (pair value).lang text pairs) :
    ∃ m : Member, (IsInner m.name ∧ IsValue m.value) ∧ pairs = [m.pair] := by
  rcases h with ⟨_, ⟨_, _, _, _, ⟨_, _, _, _, ⟨_, _, _, _, ⟨stringText, _, _, _, hstring, hskip, -,
    rfl⟩, ⟨-, rfl⟩, -, rfl⟩, hskip', -, rfl⟩, hvalue', -, rfl⟩, rfl⟩
  obtain rfl := of_lang_skip hskip
  obtain rfl := of_lang_skip hskip'
  rcases of_lang_string hstring with ⟨inner, hinner, rfl⟩
  rcases hvalue _ _ hvalue' with ⟨pair, hpair, rfl⟩
  exact ⟨⟨text, stringText, inner, pair⟩, ⟨hinner, hpair⟩, rfl⟩

section

variable {value : Expr JsonRule}
  (hvalue : ∀ text pairs, value.lang text pairs → ∃ pair, IsValue pair ∧ pairs = [pair])

include hvalue

theorem of_lang_object (h : (object value).lang text pairs) :
    ∃ pair, IsValue pair ∧ pairs = [pair] := by
  rcases h with ⟨_, h, rfl⟩
  rcases of_lang_items (fun _ _ => of_lang_pair hvalue) h with ⟨members, hmembers, rfl⟩
  exact ⟨_, .object (fun m hm => (hmembers m hm).1) fun m hm => (hmembers m hm).2, rfl⟩

theorem of_lang_array (h : (array value).lang text pairs) :
    ∃ pair, IsValue pair ∧ pairs = [pair] := by
  rcases h with ⟨inner, h, rfl⟩
  have hitems : ∃ elems : List JsonPair, (∀ elem ∈ elems, IsValue elem) ∧
      inner = elems.map id := of_lang_items hvalue h
  rcases hitems with ⟨elems, helems, rfl⟩
  rw [List.map_id]
  exact ⟨_, .array helems, rfl⟩

theorem of_lang_valueBody (h : (valueBody value).lang text pairs) :
    ∃ pair, IsValue pair ∧ pairs = [pair] := by
  rcases h with h | h | h | h | h | h
  · exact of_lang_object hvalue h
  · exact of_lang_array hvalue h
  · rcases of_lang_string h with ⟨inner, hinner, rfl⟩
    exact ⟨_, .string hinner, rfl⟩
  · exact ⟨_, .number, h.2⟩
  · rcases h with ⟨_, ⟨-, rfl⟩ | ⟨-, rfl⟩, rfl⟩
    · exact ⟨_, .boolean, rfl⟩
    · exact ⟨_, .boolean, rfl⟩
  · rcases h with ⟨_, ⟨-, rfl⟩, rfl⟩
    exact ⟨_, .null, rfl⟩

end

theorem of_lang_value (h : value.lang text pairs) : ∃ pair, IsValue pair ∧ pairs = [pair] := by
  rcases h with ⟨depth, h⟩
  induction depth generalizing text pairs with
  | zero => exact h.elim
  | succ depth ih => exact of_lang_valueBody (fun _ _ => ih) h

/-- The first rule of a text is the one of an object or of an array. -/
theorem of_lang_json (h : json.lang text pairs) :
    ∃ pair, pairs.head? = some pair ∧ IsValue pair ∧
      (pair.rule = .object ∨ pair.rule = .array) := by
  rcases h with ⟨_, _, _, _, ⟨_, _, _, _, ⟨_, _, _, _, ⟨_, _, _, _, ⟨-, rfl⟩, hskip, -, rfl⟩,
    hvalue, -, rfl⟩, hskip', -, rfl⟩, ⟨-, rfl⟩, -, rfl⟩
  obtain rfl := of_lang_skip hskip
  obtain rfl := of_lang_skip hskip'
  rcases hvalue with h | h
  · rcases of_lang_object (fun _ _ => of_lang_value) h with ⟨pair, hpair, rfl⟩
    rcases h with ⟨_, _, hnode⟩
    exact ⟨pair, rfl, hpair, Or.inl (congrArg Pair.rule (List.cons.inj hnode).1)⟩
  · rcases of_lang_array (fun _ _ => of_lang_value) h with ⟨pair, hpair, rfl⟩
    rcases h with ⟨_, _, hnode⟩
    exact ⟨pair, rfl, hpair, Or.inr (congrArg Pair.rule (List.cons.inj hnode).1)⟩

end JsonGrammar

end Durs
