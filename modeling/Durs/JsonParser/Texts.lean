/-
# JSON texts

The texts of values with integers as their numbers, printed without blanks.  The grammar matches
such a text, wherever it stands within another one, and the rules that it records are parsed as the
value of the text.
-/

import Durs.JsonParser.Shape
import Durs.JsonParser.Values

namespace Durs

open RustStd Lib Lib.Peg Lib.Peg.Expr JsonGrammar

namespace JSONValue

variable {order : IterOrder}

/-! ## Parsing -/

theorem parseValues_eq_mapM (pairs : List JsonPair) :
    parseValues order pairs = pairs.mapM (parseValue order) := by
  induction pairs with
  | nil => rfl
  | cons pair pairs ih => rw [parseValues, List.mapM_cons, ih]

theorem parseMembers_map_pair (members : List Member) :
    parseMembers order (members.map Member.pair) = members.mapM fun m => do
      let value ← parseValue order m.value
      return (String.ofList m.name, value) := by
  induction members with
  | nil => rfl
  | cons m members ih =>
      rw [List.map_cons, parseMembers, ih, List.mapM_cons]
      rfl

/-- What is parsed of a text is read from its first rule. -/
theorem parseJsonString_eq_some_iff {source : String} {v : JSONValue} :
    (parseJsonString order source).run = .ok (some v) ↔
      ∃ m, json.run true source.toList = some m ∧ ∃ pair, m.pairs.head? = some pair ∧
        parseValue order pair = .ok v := by
  rw [parseJsonString]
  simp only [run_bind_eq_some_iff, run_option_eq_some_iff, run_lift_eq_some_iff,
    JSONParser.parse, Option.map_eq_some_iff, unwrap_eq_ok_iff]
  constructor
  · rintro ⟨_, ⟨m, hm, rfl⟩, pair, hpair, hread⟩
    exact ⟨m, hm, pair, hpair, hread⟩
  · rintro ⟨m, hm, pair, hpair, hread⟩
    exact ⟨_, ⟨m, hm, rfl⟩, pair, hpair, hread⟩

/-- The value of a name of an object. -/
theorem lookup_of_mem {entries : List (String × JSONValue)} (hnodup : (entries.map Prod.fst).Nodup)
    {entry : String × JSONValue} (h : entry ∈ entries) :
    entries.lookup entry.1 = some entry.2 := by
  obtain ⟨before, after, rfl⟩ := List.append_of_mem h
  refine List.lookup_eq_some_iff.2 ⟨before, after, rfl, fun other hother => ?_⟩
  rw [List.map_append, List.map_cons] at hnodup
  have hne := (List.nodup_append.1 hnodup).2.2 other.1 (List.mem_map_of_mem hother) entry.1
    List.mem_cons_self
  exact bne_iff_ne.2 hne.symm

end JSONValue

/-- What is written in a text without blanks.  An integer may have any number of digits. -/
inductive JsonText
  | object (members : List (String × JsonText))
  | array (elems : List JsonText)
  | string (s : String)
  | integer (negative : Bool) (n : ℕ)
  | boolean (b : Bool)
  | null

namespace JsonText

/-! ## Characters -/

mutual

/-- The characters of a text. -/
def chars : JsonText → List Char
  | object members => listText '\x7b' (membersChars members) '\x7d'
  | array elems => listText '[' (elemsChars elems) ']'
  | string s => quoted s.toList
  | integer negative n => (if negative then ['-'] else []) ++ (toString n).toList
  | boolean b => if b then ['t', 'r', 'u', 'e'] else ['f', 'a', 'l', 's', 'e']
  | null => ['n', 'u', 'l', 'l']

/-- The characters of the members of an object. -/
def membersChars : List (String × JsonText) → List (List Char)
  | [] => []
  | (name, value) :: members => (quoted name.toList ++ ':' :: value.chars) :: membersChars members

/-- The characters of the elements of an array. -/
def elemsChars : List JsonText → List (List Char)
  | [] => []
  | value :: values => value.chars :: elemsChars values

end

/-- The characters of a member of an object. -/
abbrev memberChars : String × JsonText → List Char :=
  memberText (fun member => member.1.toList) fun member => member.2.chars

theorem membersChars_eq_map (members : List (String × JsonText)) :
    membersChars members = members.map memberChars := by
  induction members with
  | nil => rfl
  | cons member members ih =>
      rw [membersChars, List.map_cons, ih]
      rfl

theorem elemsChars_eq_map (elems : List JsonText) : elemsChars elems = elems.map chars := by
  induction elems with
  | nil => rfl
  | cons value values ih => rw [elemsChars, List.map_cons, ih]

/-- Names and strings as they stand between their quotes. -/
inductive IsWritten : JsonText → Prop
  | object {members : List (String × JsonText)} : (∀ member ∈ members, IsInner member.1.toList) →
      (∀ member ∈ members, IsWritten member.2) → IsWritten (.object members)
  | array {elems : List JsonText} : (∀ elem ∈ elems, IsWritten elem) → IsWritten (.array elems)
  | string {s : String} : IsInner s.toList → IsWritten (.string s)
  | integer {negative : Bool} {n : ℕ} : IsWritten (.integer negative n)
  | boolean {b : Bool} : IsWritten (.boolean b)
  | null : IsWritten .null

/-- A text starts with a character that is no blank and closes nothing. -/
theorem opens (t : JsonText) : Opens t.chars := by
  cases t with
  | object => exact ⟨_, _, rfl, by decide⟩
  | array => exact ⟨_, _, rfl, by decide⟩
  | string => exact ⟨_, _, rfl, by decide⟩
  | integer negative n => exact opens_of_isUInt (isUInt_toString n) negative
  | boolean b =>
      cases b with
      | true => exact ⟨_, _, rfl, by decide⟩
      | false => exact ⟨_, _, rfl, by decide⟩
  | null => exact ⟨_, _, rfl, by decide⟩

/-! ## Records -/

mutual

/-- What a text records. -/
def record : JsonText → JsonPair
  | object members => .node .object (object members).chars (membersRecords members)
  | array elems => .node .array (array elems).chars (elemsRecords elems)
  | string s => .node .string (string s).chars [.leaf .innerString s.toList]
  | integer negative n => .leaf .number (integer negative n).chars
  | boolean b => .node .boolean (boolean b).chars []
  | null => .node .null null.chars []

/-- What the members of an object record. -/
def membersRecords : List (String × JsonText) → List JsonPair
  | [] => []
  | (name, value) :: members =>
      .node .pair (memberChars (name, value))
        [.node .string (quoted name.toList) [.leaf .innerString name.toList], value.record] ::
          membersRecords members

/-- What the elements of an array record. -/
def elemsRecords : List JsonText → List JsonPair
  | [] => []
  | value :: values => value.record :: elemsRecords values

end

/-- What a member of an object records. -/
def member (entry : String × JsonText) : Member :=
  ⟨memberChars entry, quoted entry.1.toList, entry.1.toList, entry.2.record⟩

theorem elemsRecords_eq_map (elems : List JsonText) : elemsRecords elems = elems.map record := by
  induction elems with
  | nil => rfl
  | cons value values ih => rw [elemsRecords, List.map_cons, ih]

theorem membersRecords_eq_map (members : List (String × JsonText)) :
    membersRecords members = (members.map member).map Member.pair := by
  induction members with
  | nil => rfl
  | cons entry members ih =>
      rw [membersRecords, List.map_cons, List.map_cons, ih]
      rfl

theorem record_object (members : List (String × JsonText)) :
    (object members).record =
      .node .object (object members).chars ((members.map member).map Member.pair) := by
  rw [record, membersRecords_eq_map]

/-- An object matches when its values do. -/
theorem matchesText_object {members : List (String × JsonText)} {value : Expr JsonRule}
    (hname : ∀ member ∈ members, IsInner member.1.toList)
    (hvalue : ∀ member ∈ members, ∀ rest, Ends rest →
      MatchesText value member.2.chars [member.2.record] rest) (rest : List Char) :
    MatchesText (JsonGrammar.object value) (object members).chars [(object members).record]
      rest := by
  rw [record_object, List.map_map, chars, membersChars_eq_map]
  exact JsonGrammar.matchesText_object hname (fun member _ => member.2.opens) hvalue rest

/-- An array matches when its elements do. -/
theorem matchesText_array {elems : List JsonText} {value : Expr JsonRule}
    (hvalue : ∀ elem ∈ elems, ∀ rest, Ends rest →
      MatchesText value elem.chars [elem.record] rest) (rest : List Char) :
    MatchesText (JsonGrammar.array value) (array elems).chars [(array elems).record] rest := by
  rw [record, chars, elemsRecords_eq_map, elemsChars_eq_map]
  exact JsonGrammar.matchesText_array (fun elem _ => elem.opens) hvalue rest

theorem fails_object_array {elems : List JsonText} {value : Expr JsonRule} (rest : List Char) :
    Fails (JsonGrammar.object value) ((array elems).chars ++ rest) := by
  rw [chars]
  exact fails_object (by decide) _

/-- A text within another one is matched as soon as the rule is unfolded often enough. -/
theorem IsWritten.matchesText_unfoldRec {t : JsonText} (h : IsWritten t) {depth : ℕ}
    (hdepth : t.chars.length < depth) {rest : List Char} (hends : Ends rest) :
    MatchesText (unfoldRec valueBody depth) t.chars [t.record] rest := by
  obtain ⟨depth, rfl⟩ := Nat.exists_eq_add_one_of_ne_zero (Nat.ne_zero_of_lt hdepth)
  induction h generalizing depth rest with
  | @object members hname _ ih =>
      refine (matchesText_object hname (fun member hmember rest hends => ?_) rest).orElse _
      have hmem : memberChars member ∈ members.map memberChars := List.mem_map_of_mem hmember
      have hlt := length_lt_listText (o := '\x7b') (c := '\x7d') hmem
      have hle : member.2.chars.length < (memberChars member).length := by
        rw [memberChars, memberText, List.length_append, List.length_cons]
        omega
      rw [chars, membersChars_eq_map] at hdepth
      obtain ⟨depth, rfl⟩ := Nat.exists_eq_add_one_of_ne_zero (show depth ≠ 0 by omega)
      exact ih member hmember hends depth (by omega)
  | @array elems _ ih =>
      refine (fails_object_array rest).orElse_matchesText
        ((matchesText_array (fun elem helem rest hends => ?_) rest).orElse _)
      have hmem : elem.chars ∈ elems.map chars := List.mem_map_of_mem helem
      have hlt := length_lt_listText (o := '[') (c := ']') hmem
      rw [chars, elemsChars_eq_map] at hdepth
      obtain ⟨depth, rfl⟩ := Nat.exists_eq_add_one_of_ne_zero (show depth ≠ 0 by omega)
      exact ih elem helem hends depth (by omega)
  | @string s hs =>
      exact (fails_object (by decide) _).orElse_matchesText
        ((fails_array (by decide) _).orElse_matchesText ((matchesText_string hs rest).orElse _))
  | @integer negative n =>
      have hnumber := matchesText_number (isUInt_toString n) negative hends
      rcases exists_cons_of_isUInt (isUInt_toString n) negative with ⟨c, text, htext, hc⟩
      rw [record, chars]
      rw [htext] at hnumber ⊢
      exact matchesText_valueBody ⟨hc _ (by decide) rfl, hc _ (by decide) rfl,
        hc _ (by decide) rfl⟩ (hnumber.orElse _)
  | @boolean b =>
      cases b with
      | true => exact matchesText_true rest
      | false => exact matchesText_false rest
  | null => exact matchesText_null rest

/-- A text of an object or an array is a whole text. -/
theorem run_json {text : List Char} {pairs : List JsonPair} (hopens : Opens text)
    (h : MatchesText (JsonGrammar.object value <|> JsonGrammar.array value) text pairs []) :
    json.run true text = some ⟨text, pairs ++ [.leaf .eoi []], []⟩ := by
  have hblank : MatchesText skip [] [] text :=
    List.append_nil text ▸ hopens.matchesText_skip []
  have hend : MatchesText skip [] [] [] := by
    refine matchesText_atLeast_chars (List.forall_mem_nil _) (fails_chr fun c h => ?_)
      (Nat.le_refl 0)
    exact (Option.not_mem_none c h).elim
  have hsoi : (soi : Expr JsonRule).run true text = some (.none text) := rfl
  have hrun := run_append (run_append (run_append (run_append hsoi hblank rfl) h
    (List.append_nil text).symm) hend rfl) (matchesText_eoi .eoi) rfl
  simp only [Match.append, Match.none, List.append_nil, List.nil_append] at hrun
  exact hrun

/-- An object or an array. -/
def IsComposite : JsonText → Prop
  | object _ => True
  | array _ => True
  | _ => False

theorem IsWritten.matchesText_value {t : JsonText} (h : IsWritten t) {rest : List Char}
    (hends : Ends rest) : MatchesText value t.chars [t.record] rest :=
  matchesText_recursive fun _ hdepth => h.matchesText_unfoldRec hdepth hends

/-- The whole text of an object or an array records one value. -/
theorem IsWritten.run_json {t : JsonText} (h : IsWritten t) (hcomposite : t.IsComposite) :
    json.run true t.chars = some ⟨t.chars, [t.record, .leaf .eoi []], []⟩ := by
  suffices hmatch : MatchesText (JsonGrammar.object value <|> JsonGrammar.array value) t.chars
      [t.record] [] from JsonText.run_json t.opens hmatch
  cases h with
  | @object members hname hvalues =>
      exact (matchesText_object hname (fun member hmember _ =>
        (hvalues member hmember).matchesText_value) []).orElse _
  | @array elems helems =>
      exact (fails_object_array []).orElse_matchesText (matchesText_array
        (fun elem helem _ => (helems elem helem).matchesText_value) [])
  | string => exact hcomposite.elim
  | integer => exact hcomposite.elim
  | boolean => exact hcomposite.elim
  | null => exact hcomposite.elim

/-! ## Values -/

variable (order : IterOrder)

mutual

/-- The value of a text. -/
def read : JsonText → JSONValue
  | object members => .object (order.collect (membersRead members))
  | array elems => .array (elemsRead elems)
  | string s => .string s
  | integer negative n => .number (Float64.nearest negative n (Float64.natCast_nonneg n))
  | boolean b => .boolean b
  | null => .null

/-- The values of the members of an object. -/
def membersRead : List (String × JsonText) → List (String × JSONValue)
  | [] => []
  | (name, value) :: members => (name, value.read) :: membersRead members

/-- The values of the elements of an array. -/
def elemsRead : List JsonText → List JSONValue
  | [] => []
  | value :: values => value.read :: elemsRead values

end

variable {order}

theorem membersRead_eq_map (members : List (String × JsonText)) :
    membersRead order members = members.map fun member => (member.1, member.2.read order) := by
  induction members with
  | nil => rfl
  | cons member members ih => rw [membersRead, List.map_cons, ih]

theorem elemsRead_eq_map (elems : List JsonText) :
    elemsRead order elems = elems.map (read order) := by
  induction elems with
  | nil => rfl
  | cons value values ih => rw [elemsRead, List.map_cons, ih]

/-- The values of the names of an object, when the names are distinct. -/
theorem lookup_read {members : List (String × JsonText)} (hnodup : (members.map Prod.fst).Nodup)
    (name : String) :
    (order.collect (membersRead order members)).lookup name =
      (members.lookup name).map (read order) := by
  have hnames : (membersRead order members).map Prod.fst = members.map Prod.fst := by
    rw [membersRead_eq_map, List.map_map]
    rfl
  have hperm := (order.perm _).trans (HashMap.iter_ofList_perm (hnames ▸ hnodup))
  have hnodup' := ((hperm.map Prod.fst).nodup_iff).2 (hnames ▸ hnodup)
  cases h : members.lookup name with
  | some t =>
      rcases List.lookup_eq_some_iff.1 h with ⟨before, after, rfl, -⟩
      suffices hmem : (name, t.read order) ∈ membersRead order (before ++ (name, t) :: after) from
        JSONValue.lookup_of_mem hnodup' (hperm.mem_iff.2 hmem)
      rw [membersRead_eq_map]
      exact List.mem_map_of_mem (f := fun m : String × JsonText => (m.1, m.2.read order))
        (List.mem_append_right _ List.mem_cons_self)
  | none =>
      refine List.lookup_eq_none_iff.2 fun entry hentry => ?_
      rw [hperm.mem_iff, membersRead_eq_map] at hentry
      rcases List.mem_map.1 hentry with ⟨m, hm, rfl⟩
      exact List.lookup_eq_none_iff.1 h m hm

/-- What is recorded of a text, with blanks at any place between its parts. -/
inductive IsRecord : JsonPair → JsonText → Prop
  | object {text : List Char} {members : List (Member × String × JsonText)} :
      (∀ m ∈ members, String.ofList m.1.name = m.2.1) →
      (∀ m ∈ members, IsRecord m.1.value m.2.2) →
      IsRecord (.node .object text (members.map fun m => m.1.pair)) (.object (members.map Prod.snd))
  | array {text : List Char} {elems : List (JsonPair × JsonText)} :
      (∀ elem ∈ elems, IsRecord elem.1 elem.2) →
      IsRecord (.node .array text (elems.map Prod.fst)) (.array (elems.map Prod.snd))
  | string {text : List Char} {s : String} :
      IsRecord (.node .string text [.leaf .innerString s.toList]) (.string s)
  | integer {negative : Bool} {n : ℕ} :
      IsRecord (.leaf .number (integer negative n).chars) (.integer negative n)
  | boolean {b : Bool} : IsRecord (.node .boolean (boolean b).chars []) (.boolean b)
  | null {text : List Char} : IsRecord (.node .null text []) .null

theorem IsRecord.object_map {text : List Char} {members : List (String × JsonText)}
    {f : String × JsonText → Member}
    (hname : ∀ entry ∈ members, String.ofList (f entry).name = entry.1)
    (hvalue : ∀ entry ∈ members, IsRecord (f entry).value entry.2) :
    IsRecord (.node .object text ((members.map f).map Member.pair)) (.object members) := by
  have h : IsRecord (.node .object text ((members.map fun entry => (f entry, entry)).map
      fun m => m.1.pair)) (.object ((members.map fun entry => (f entry, entry)).map Prod.snd)) :=
    .object (List.forall_mem_map.2 hname) (List.forall_mem_map.2 hvalue)
  have hmembers : members.map (Prod.snd ∘ fun entry => (f entry, entry)) = members :=
    List.map_id members
  rw [List.map_map, List.map_map, hmembers] at h
  rw [List.map_map]
  exact h

theorem IsRecord.array_map {text : List Char} {elems : List JsonText} {f : JsonText → JsonPair}
    (h : ∀ elem ∈ elems, IsRecord (f elem) elem) :
    IsRecord (.node .array text (elems.map f)) (.array elems) := by
  have h : IsRecord (.node .array text ((elems.map fun elem => (f elem, elem)).map Prod.fst))
      (.array ((elems.map fun elem => (f elem, elem)).map Prod.snd)) :=
    .array (List.forall_mem_map.2 h)
  have helems : elems.map (Prod.snd ∘ fun elem => (f elem, elem)) = elems := List.map_id elems
  rw [List.map_map, List.map_map, helems] at h
  exact h

theorem IsWritten.isRecord {t : JsonText} (h : IsWritten t) : IsRecord t.record t := by
  induction h with
  | object _ _ ih =>
      rw [record_object]
      exact .object_map (fun _ _ => String.ofList_toList) ih
  | array _ ih =>
      rw [record, elemsRecords_eq_map]
      exact .array_map ih
  | string => exact .string
  | integer => exact .integer
  | boolean => exact .boolean
  | null => exact .null

/-- What is recorded of a text is parsed as the value of the text. -/
theorem IsRecord.parseValue {pair : JsonPair} {t : JsonText} (h : IsRecord pair t) :
    JSONValue.parseValue order pair = .ok (t.read order) := by
  induction h with
  | @object text members hname _ ih =>
      have hpairs : members.map (fun m => m.1.pair) = (members.map Prod.fst).map Member.pair := by
        rw [List.map_map]
        rfl
      have hmembers : (members.map Prod.fst).mapM (fun m => do
          let value ← JSONValue.parseValue order m.value
          return (String.ofList m.name, value)) =
            .ok (membersRead order (members.map Prod.snd)) := by
        rw [List.mapM_map, membersRead_eq_map, List.map_map]
        refine mapM_eq_ok_map fun m hm => ?_
        show (JSONValue.parseValue order m.1.value >>= _) = _
        rw [ih m hm]
        exact congrArg Except.ok (congrArg (·, m.2.2.read order) (hname m hm))
      rw [hpairs, JSONValue.parseValue, JSONValue.parseMembers_map_pair]
      simp only [hmembers]
      rfl
  | @array text elems _ ih =>
      have hvalues : JSONValue.parseValues order (elems.map Prod.fst) =
          .ok (elemsRead order (elems.map Prod.snd)) := by
        rw [JSONValue.parseValues_eq_mapM, List.mapM_map, elemsRead_eq_map, List.map_map]
        exact mapM_eq_ok_map ih
      rw [JSONValue.parseValue]
      simp only [hvalues]
      rfl
  | string => exact congrArg (Except.ok ∘ JSONValue.string) String.ofList_toList
  | integer =>
      rw [chars, JSONValue.parseValue, Float64.parse_natCast]
      rfl
  | @boolean b =>
      cases b with
      | true => rfl
      | false => rfl
  | null => rfl

/-- A source that writes a text, with blanks at any place between its parts. -/
def Writes (source : String) (t : JsonText) : Prop :=
  ∃ m, json.run true source.toList = some m ∧ ∃ pair, m.pairs.head? = some pair ∧ IsRecord pair t

/-- A source is parsed as the value of the text that it writes. -/
theorem Writes.parseJsonString {source : String} {t : JsonText} (h : Writes source t) :
    (JSONValue.parseJsonString order source).run = .ok (some (t.read order)) := by
  rcases h with ⟨m, hm, pair, hpair, hrecord⟩
  exact JSONValue.parseJsonString_eq_some_iff.2 ⟨m, hm, pair, hpair, hrecord.parseValue⟩

/-- A text of an object or an array is written without blanks. -/
theorem IsWritten.writes {t : JsonText} (h : IsWritten t) (hcomposite : t.IsComposite) :
    Writes (String.ofList t.chars) t := by
  have hrun := h.run_json hcomposite
  rw [← String.toList_ofList (l := t.chars)] at hrun
  exact ⟨_, hrun, t.record, rfl, h.isRecord⟩

end JsonText

end Durs
