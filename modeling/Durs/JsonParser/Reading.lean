/-
# Reading what is printed

What the rules of the JSON grammar match of a printed value.  A value is followed by a comma or by a
closing bracket, which ends a number, and starts with a character that is neither.
-/

import Durs.JsonParser.Grammar
import Durs.RustStd.ParseInt

namespace Durs.JsonGrammar

open RustStd Lib.Peg Lib.Peg.Expr

variable {text rest : List Char}

/-! ## First characters -/

/-- What follows a value within an object or an array. -/
def Ends (rest : List Char) : Prop :=
  ∃ c rest', rest = c :: rest' ∧ (c = ',' ∨ c = ']' ∨ c = '\x7d')

/-- A character that is no blank and closes nothing. -/
def isOpening (c : Char) : Bool :=
  c ≠ ' ' && c ≠ '\t' && c ≠ '\r' && c ≠ '\n' && c ≠ ']' && c ≠ '\x7d'

/-- A text that starts with such a character. -/
def Opens (text : List Char) : Prop := ∃ c text', text = c :: text' ∧ isOpening c = true

theorem fails_chr_head {p : Char → Bool} {c : Char} (hc : p c = false) (rest : List Char) :
    Fails (R := JsonRule) (chr p) (c :: rest) := by
  refine fails_chr fun d hd => ?_
  obtain rfl := Option.some.inj hd
  exact hc

theorem fails_str_head {s : String} {c d : Char} {s' : List Char} (hs : s.toList = c :: s')
    (hne : c ≠ d) (rest : List Char) : Fails (R := JsonRule) (str s) (d :: rest) := by
  refine fails_str fun rest' heq => hne ?_
  rw [hs] at heq
  exact (List.cons.inj heq).1

/-- A number starts with a sign or with a digit. -/
theorem exists_cons_of_isUInt (h : IsUInt text) (negative : Bool) :
    ∃ c text', (if negative then ['-'] else []) ++ text = c :: text' ∧
      ∀ d : Char, d ≠ '-' → d.isDigit = false → d ≠ c := by
  cases negative with
  | true => exact ⟨'-', text, rfl, fun d hsign _ => hsign⟩
  | false =>
      rcases h.digits with ⟨hne, hdigits⟩
      obtain ⟨c, text', rfl⟩ := List.exists_cons_of_ne_nil hne
      refine ⟨c, text', rfl, fun d _ hd => ?_⟩
      rintro rfl
      rw [hdigits d List.mem_cons_self] at hd
      cases hd

theorem opens_of_isUInt (h : IsUInt text) (negative : Bool) :
    Opens ((if negative then ['-'] else []) ++ text) := by
  rcases exists_cons_of_isUInt h negative with ⟨c, text', htext, hc⟩
  refine ⟨c, text', htext, ?_⟩
  simp only [isOpening, Bool.and_eq_true, decide_eq_true_eq]
  exact ⟨⟨⟨⟨⟨(hc _ (by decide) rfl).symm, (hc _ (by decide) rfl).symm⟩,
    (hc _ (by decide) rfl).symm⟩, (hc _ (by decide) rfl).symm⟩, (hc _ (by decide) rfl).symm⟩,
    (hc _ (by decide) rfl).symm⟩

theorem Ends.fails_chr (h : Ends rest) {p : Char → Bool}
    (hp : p ',' = false ∧ p ']' = false ∧ p '\x7d' = false) :
    Fails (R := JsonRule) (chr p) rest := by
  rcases h with ⟨c, rest', rfl, rfl | rfl | rfl⟩
  · exact fails_chr_head hp.1 rest'
  · exact fails_chr_head hp.2.1 rest'
  · exact fails_chr_head hp.2.2 rest'

/-- No blank is skipped in front of another character. -/
theorem matchesText_skip {c : Char}
    (hc : (c = ' ' || c = '\t' || c = '\r' || c = '\n') = false) (rest : List Char) :
    MatchesText skip [] [] (c :: rest) :=
  matchesText_atLeast_chars (List.forall_mem_nil _) (fails_chr_head hc rest) (Nat.zero_le _)

theorem Opens.matchesText_skip (h : Opens text) (rest : List Char) :
    MatchesText skip [] [] (text ++ rest) := by
  rcases h with ⟨c, text', rfl, hc⟩
  refine JsonGrammar.matchesText_skip ?_ _
  simp only [isOpening, Bool.and_eq_true, decide_eq_true_eq] at hc
  simp [hc]

theorem Ends.matchesText_skip (h : Ends rest) : MatchesText skip [] [] rest := by
  rcases h with ⟨c, rest', rfl, rfl | rfl | rfl⟩
  · exact JsonGrammar.matchesText_skip (by decide) _
  · exact JsonGrammar.matchesText_skip (by decide) _
  · exact JsonGrammar.matchesText_skip (by decide) _

/-! ## Strings -/

/-- The text of a character of a string. -/
inductive IsChar : List Char → Prop
  | plain {c : Char} : (c ≠ '"' && c ≠ '\\') = true → IsChar [c]
  | escaped {c : Char} : ['"', '\\', '/', 'b', 'f', 'n', 'r', 't'].contains c = true →
      IsChar ['\\', c]
  | unicode {digits : List Char} : digits.length = 4 →
      (∀ c ∈ digits, (c.isDigit || ('a' ≤ c && c ≤ 'f') || ('A' ≤ c && c ≤ 'F')) = true) →
      IsChar ('\\' :: 'u' :: digits)

/-- The text within the quotes of a string. -/
def IsInner (text : List Char) : Prop :=
  ∃ chars : List (List Char), (∀ char ∈ chars, IsChar char) ∧ text = chars.flatten

/-- A text without quotes and backslashes is written as it is. -/
theorem isInner_of_plain (h : text.all (fun c => c ≠ '"' && c ≠ '\\')) : IsInner text := by
  have hplain := List.all_eq_true.1 h
  refine ⟨text.map fun c => [c], List.forall_mem_map.2 fun c hc => .plain (hplain c hc), ?_⟩
  rw [← List.flatMap_def]
  exact (List.flatMap_singleton' text).symm

theorem isChar_of_lang {pairs : List JsonPair} (h : char.lang text pairs) : IsChar text := by
  rcases h with ⟨c, hc, rfl, -⟩ | ⟨_, _, _, _, ⟨rfl, -⟩, ⟨c, hc, rfl, -⟩, rfl, -⟩ |
    ⟨_, _, _, _, ⟨rfl, -⟩, ⟨_, _, digits, _, ⟨rfl, -⟩, ⟨count, hleast, hmost, hdigits⟩, rfl, -⟩,
      rfl, -⟩
  · exact .plain hc
  · exact .escaped hc
  · have hchars := RepLang.chars (fun _ _ hchar => hchar.imp fun c hc => ⟨hc.1, hc.2.1⟩) hdigits
    exact .unicode (hchars.1.trans (Nat.le_antisymm hmost hleast)) hchars.2

theorem isInner_of_lang {pairs : List JsonPair} (h : innerString.lang text pairs) :
    IsInner text ∧ pairs = [.leaf .innerString text] := by
  rcases h with ⟨⟨_, count, -, parts, -, hparts, rfl, -⟩, rfl⟩
  refine ⟨⟨parts.map Prod.fst, ?_, List.flatMap_def⟩, rfl⟩
  intro char hchar
  rcases List.mem_map.1 hchar with ⟨part, hpart, rfl⟩
  exact isChar_of_lang (hparts part hpart)

theorem IsChar.matchesText (h : IsChar text) (rest : List Char) :
    MatchesText char text [] rest := by
  have hplain (rest : List Char) : Fails plainChar ('\\' :: rest) :=
    fails_chr_head (by decide) rest
  cases h with
  | plain hc => exact (matchesText_chr hc rest).orElse _
  | @escaped c hc =>
      refine (hplain _).orElse_matchesText ?_
      exact ((matchesText_str "\\" _).append (matchesText_chr hc rest)).orElse unicodeChar
  | @unicode digits hlength hdigits =>
      have hescaped : Fails escapedChar ('\\' :: 'u' :: digits ++ rest) :=
        (matchesText_str "\\" _).append_fails (fails_chr_head (by decide) (digits ++ rest))
      refine (hplain _).orElse_matchesText (hescaped.orElse_matchesText ?_)
      have hbetween : MatchesText (between 4 4 hexDigit) digits [] rest :=
        hlength ▸ matchesText_between_full (fun c hc => matchesText_chr (hdigits c hc))
          (Nat.le_of_eq hlength.symm) rest
      exact (matchesText_str "\\" _).append ((matchesText_str "u" _).append hbetween)

theorem matchesText_innerString (h : IsInner text) (rest : List Char) :
    MatchesText innerString text [.leaf .innerString text] ('"' :: rest) := by
  rcases h with ⟨chars, hchars, rfl⟩
  have hclose : Fails char ('"' :: rest) := by
    have hescape {e : Expr JsonRule} : Fails (str "\\" ++ e) ('"' :: rest) :=
      (fails_str_head rfl (by decide) rest).append e
    exact (fails_chr_head (by decide) rest).orElse (hescape.orElse hescape)
  have hall : MatchesAll char (chars.map fun char => (char, [])) ('"' :: rest) := by
    induction chars with
    | nil => exact hclose
    | cons char chars ih =>
        rcases List.forall_mem_cons.1 hchars with ⟨hchar, hchars⟩
        refine ⟨?_, hchar.matchesText _, ih hchars⟩
        cases hchar with
        | plain => exact List.cons_ne_nil _ _
        | escaped => exact List.cons_ne_nil _ _
        | unicode => exact List.cons_ne_nil _ _
  have hrun := matchesText_atLeast hall (Nat.zero_le _)
  have htext : (chars.map fun char => (char, ([] : List JsonPair))).flatMap Prod.fst =
      chars.flatten := by
    rw [List.flatMap_def, List.map_map]
    exact congrArg List.flatten (List.map_id chars)
  exact htext ▸ hrun.atomic .innerString

/-- The text of a string. -/
def quoted (text : List Char) : List Char := '"' :: text ++ ['"']

theorem matchesText_string (h : IsInner text) (rest : List Char) :
    MatchesText string (quoted text)
      [.node .string (quoted text) [.leaf .innerString text]] rest := by
  have hopen : MatchesText (R := JsonRule) (str "\"") ['"'] [] (text ++ '"' :: rest) :=
    matchesText_str "\"" _
  have hclose : MatchesText (R := JsonRule) (str "\"") ['"'] [] rest := matchesText_str "\"" _
  exact ((hopen.append (matchesText_innerString h rest)).append hclose).rule .string

/-! ## Numbers -/

/-- The digits of a number, with a sign. -/
theorem matchesText_number {digits : List Char} (h : IsUInt digits) (negative : Bool)
    (hends : Ends rest) :
    MatchesText number ((if negative then ['-'] else []) ++ digits)
      [.leaf .number ((if negative then ['-'] else []) ++ digits)] rest := by
  have hsign : MatchesText (R := JsonRule) (opt (str "-")) (if negative then ['-'] else []) []
      (digits ++ rest) := by
    cases negative with
    | true => exact (matchesText_str "-" _).opt
    | false =>
        refine (fails_str fun rest' heq => ?_).opt
        rcases h.digits with ⟨hne, hdigits⟩
        cases digits with
        | nil => exact hne rfl
        | cons c digits =>
            have hc : '-' = c := (List.cons.inj heq).1
            have hdigit := hdigits c List.mem_cons_self
            rw [← hc] at hdigit
            cases hdigit
  have hintegral : MatchesText integral digits [] rest := by
    have hstop : Fails (R := JsonRule) (chr Char.isDigit) rest := hends.fails_chr (by decide)
    rcases h with rfl | ⟨c, digits, rfl, hc, hdigits⟩
    · exact (matchesText_str "0" _).orElse _
    · have hne : '0' ≠ c := by
        rintro rfl
        exact absurd hc.1 (by decide)
      have hfirst : MatchesText (R := JsonRule) (chr fun c => '1' ≤ c && c ≤ '9') [c] []
          (digits ++ rest) := matchesText_chr (by simpa using hc) _
      exact (fails_str_head rfl hne (digits ++ rest)).orElse_matchesText
        (hfirst.append (matchesText_atLeast_chars
          (fun c hc => matchesText_chr (hdigits c hc)) hstop (Nat.zero_le _)))
  have hfraction : MatchesText fraction [] [] rest := by
    have hpoint : Fails (R := JsonRule) (str ".") rest := by
      rcases hends with ⟨c, rest', rfl, rfl | rfl | rfl⟩
      · exact fails_str_head rfl (by decide) rest'
      · exact fails_str_head rfl (by decide) rest'
      · exact fails_str_head rfl (by decide) rest'
    exact (hpoint.append _).opt
  have hexponent : MatchesText exponent [] [] rest :=
    (((hends.fails_chr (by decide)).append _).append _).opt
  have hbody := ((hsign.append hintegral).append hfraction).append hexponent
  rw [List.append_nil, List.append_nil] at hbody
  exact hbody.atomic .number

/-! ## Objects and arrays -/

section Items

variable {α : Type} {item : Expr JsonRule} {print : α → List Char} {record : α → JsonPair}
  {opening closing : String} {o c : Char}

theorem matchesText_items_nil (ho : opening.toList = [o]) (hc : closing.toList = [c])
    (hblank : (c = ' ' || c = '\t' || c = '\r' || c = '\n') = false) (rest : List Char) :
    MatchesText (items opening closing item) [o, c] [] rest := by
  have hopen : MatchesText (R := JsonRule) (str opening) [o] [] (c :: rest) :=
    ho ▸ matchesText_str opening _
  have hclose : MatchesText (R := JsonRule) (str closing) [c] [] rest :=
    hc ▸ matchesText_str closing _
  exact ((hopen.append (matchesText_skip hblank rest)).append hclose).orElse _

/-- The text of items between brackets, with commas between them. -/
def itemsText (o : Char) (print : α → List Char) (first : α) (others : List α) (c : Char) :
    List Char :=
  o :: print first ++ others.flatMap (fun other => ',' :: print other) ++ [c]

/-- Items with a comma before each of them. -/
theorem matchesAll_others {others : List α}
    (hitem : ∀ a ∈ others, ∀ rest, Ends rest → MatchesText item (print a) [record a] rest)
    (hopens : ∀ a ∈ others, Opens (print a)) (hc : c = ']' ∨ c = '\x7d') (rest : List Char) :
    MatchesAll (skip ++ (str "," ++ skip ++ item))
      (others.map fun other => (',' :: print other, [record other])) (c :: rest) ∧
      Ends (others.flatMap (fun other => ',' :: print other) ++ c :: rest) := by
  have hcomma {a : α} {rest : List Char} (h : MatchesText item (print a) [record a] rest)
      (hopens : Opens (print a)) :
      MatchesText (skip ++ (str "," ++ skip ++ item)) (',' :: print a) [record a] rest :=
    (matchesText_skip (by decide) _).append
      (((matchesText_str "," _).append (hopens.matchesText_skip rest)).append h)
  induction others with
  | nil =>
      have hends : Ends (c :: rest) := ⟨c, rest, rfl, Or.inr hc⟩
      have hne : ',' ≠ c := by
        rintro rfl
        revert hc
        decide
      refine ⟨hends.matchesText_skip.append_fails ?_, hends⟩
      exact ((fails_str_head rfl hne rest).append skip).append item
  | cons other others ih =>
      rcases List.forall_mem_cons.1 hitem with ⟨hother, hitem⟩
      rcases List.forall_mem_cons.1 hopens with ⟨hopen, hopens⟩
      rcases ih hitem hopens with ⟨hall, hends⟩
      refine ⟨⟨List.cons_ne_nil _ _, ?_, hall⟩, ⟨',', _, rfl, Or.inl rfl⟩⟩
      have hflat : (others.map fun other => (',' :: print other, [record other])).flatMap
          Prod.fst = others.flatMap fun other => ',' :: print other := List.flatMap_map _ _ _
      rw [hflat]
      exact hcomma (hother _ hends) hopen

theorem matchesText_star {others : List α}
    (hitem : ∀ a ∈ others, ∀ rest, Ends rest → MatchesText item (print a) [record a] rest)
    (hopens : ∀ a ∈ others, Opens (print a)) (hc : c = ']' ∨ c = '\x7d') (rest : List Char) :
    MatchesText (star (str "," ++ skip ++ item)) (others.flatMap fun other => ',' :: print other)
      (others.map record) (c :: rest) := by
  cases others with
  | nil =>
      have hne : ',' ≠ c := by
        rintro rfl
        revert hc
        decide
      exact ((((fails_str_head rfl hne rest).append skip).append item).append _).opt
  | cons other others =>
      rcases List.forall_mem_cons.1 hitem with ⟨hother, hitem⟩
      rcases List.forall_mem_cons.1 hopens with ⟨hopen, hopens⟩
      rcases matchesAll_others hitem hopens hc rest with ⟨hall, hends⟩
      have hmore := matchesText_atLeast hall (Nat.zero_le _)
      rw [List.flatMap_map, List.flatMap_map, ← List.map_eq_flatMap] at hmore
      exact ((((matchesText_str "," _).append (hopen.matchesText_skip _)).append
        (hother _ hends)).append hmore).opt

theorem matchesText_items {first : α} {others : List α}
    (hitem : ∀ a ∈ first :: others, ∀ rest, Ends rest →
      MatchesText item (print a) [record a] rest)
    (hopens : ∀ a ∈ first :: others, Opens (print a)) (ho : opening.toList = [o])
    (hclosing : closing.toList = [c]) (hc : c = ']' ∨ c = '\x7d') (rest : List Char) :
    MatchesText (items opening closing item) (itemsText o print first others c)
      ((first :: others).map record) rest := by
  have hopen (rest : List Char) : MatchesText (R := JsonRule) (str opening) [o] [] rest :=
    ho ▸ matchesText_str opening _
  have hclose : MatchesText (R := JsonRule) (str closing) [c] [] rest :=
    hclosing ▸ matchesText_str closing _
  rcases List.forall_mem_cons.1 hitem with ⟨hfirst, hitem⟩
  rcases List.forall_mem_cons.1 hopens with ⟨hstart, hopens⟩
  rcases matchesAll_others hitem hopens hc rest with ⟨-, hends⟩
  have hends' : Ends (c :: rest) := ⟨c, rest, rfl, Or.inr hc⟩
  -- the first item does not start with the closing bracket
  have hempty : Fails (str opening ++ skip ++ str closing)
      (itemsText o print first others c ++ rest) := by
    rcases hstart with ⟨d, text, htext, hd⟩
    have hne : c ≠ d := by
      rintro rfl
      rcases hc with rfl | rfl
      · cases hd
      · cases hd
    have hskip : MatchesText skip [] []
        (d :: (text ++ others.flatMap (fun other => ',' :: print other) ++ [c] ++ rest)) :=
      have hopens : Opens [d] := ⟨d, [], rfl, hd⟩
      hopens.matchesText_skip _
    have hfail := ((hopen _).append hskip).append_fails (fails_str_head hclosing hne _)
    rw [itemsText, htext]
    exact hfail
  refine hempty.orElse_matchesText ?_
  have hskip : MatchesText skip [] []
      (others.flatMap (fun other => ',' :: print other) ++ c :: rest) := hends.matchesText_skip
  have hitem' : MatchesText item (print first) [record first]
      ([] ++ (others.flatMap (fun other => ',' :: print other) ++ c :: rest)) := hfirst _ hends
  have hbody := ((((((hopen _).append (hstart.matchesText_skip _)).append hitem').append
    hskip).append (matchesText_star hitem hopens hc rest)).append hends'.matchesText_skip).append
      hclose
  simp only [List.append_nil, List.nil_append] at hbody
  exact hbody

/-- The text of a list of items. -/
def listText (o : Char) (texts : List (List Char)) (c : Char) : List Char :=
  o :: [','].intercalate texts ++ [c]

/-- An item is shorter than the text of the items. -/
theorem length_lt_listText {texts : List (List Char)} (h : text ∈ texts) :
    text.length < (listText o texts c).length := by
  have hle : text.length ≤ ([','].intercalate texts).length := by
    induction texts with
    | nil => cases h
    | cons first others ih =>
        cases others with
        | nil =>
            obtain rfl := List.mem_singleton.1 h
            rw [List.intercalate_singleton]
        | cons other others =>
            rw [List.intercalate_cons_cons, List.length_append, List.length_append]
            rcases List.mem_cons.1 h with rfl | h
            · omega
            · exact Nat.le_add_left_of_le (ih h)
  rw [listText, List.length_append, List.length_cons]
  omega

theorem listText_map_cons (first : α) (others : List α) :
    listText o ((first :: others).map print) c = itemsText o print first others c := by
  have hcommas : [','].intercalate ((first :: others).map print) =
      print first ++ others.flatMap fun other => ',' :: print other := by
    induction others generalizing first with
    | nil => rw [List.map_singleton, List.intercalate_singleton, List.flatMap_nil, List.append_nil]
    | cons other others ih =>
        rw [List.map_cons, List.map_cons, List.intercalate_cons_cons, ← List.map_cons, ih other,
          List.flatMap_cons, List.append_assoc]
        rfl
  rw [listText, hcommas, itemsText]
  rfl

/-- Any number of items. -/
theorem matchesText_list {as : List α}
    (hitem : ∀ a ∈ as, ∀ rest, Ends rest → MatchesText item (print a) [record a] rest)
    (hopens : ∀ a ∈ as, Opens (print a)) (ho : opening.toList = [o])
    (hclosing : closing.toList = [c]) (hc : c = ']' ∨ c = '\x7d') (rest : List Char) :
    MatchesText (items opening closing item) (listText o (as.map print) c) (as.map record)
      rest := by
  cases as with
  | nil =>
      refine matchesText_items_nil ho hclosing ?_ rest
      rcases hc with rfl | rfl
      · decide
      · decide
  | cons first others =>
      rw [listText_map_cons]
      exact matchesText_items hitem hopens ho hclosing hc rest

end Items

section Values

variable {α : Type} {value : Expr JsonRule} {name print : α → List Char} {record : α → JsonPair}
  {as : List α}

/-- The text of a member of an object. -/
def memberText (name print : α → List Char) (a : α) : List Char := quoted (name a) ++ ':' :: print a

/-- What a member of an object records. -/
def memberPair (name print : α → List Char) (record : α → JsonPair) (a : α) : JsonPair :=
  .node .pair (memberText name print a)
    [.node .string (quoted (name a)) [.leaf .innerString (name a)], record a]

theorem opens_quoted (text rest : List Char) : Opens (quoted text ++ rest) :=
  ⟨'"', _, rfl, by decide⟩

theorem matchesText_pair {a : α} (hname : IsInner (name a)) (hopens : Opens (print a))
    (hvalue : MatchesText value (print a) [record a] rest) :
    MatchesText (pair value) (memberText name print a) [memberPair name print record a] rest := by
  have hcolon (rest : List Char) : MatchesText (R := JsonRule) (str ":") [':'] [] rest :=
    matchesText_str ":" _
  have hskip (rest : List Char) : MatchesText skip [] [] ([':'] ++ rest) :=
    matchesText_skip (by decide) _
  have hvalue' : MatchesText value (print a) [record a] ([] ++ rest) := hvalue
  have hbody := ((((matchesText_string hname _).append (hskip _)).append (hcolon _)).append
    (hopens.matchesText_skip ([] ++ rest))).append hvalue'
  simp only [List.append_nil, List.append_assoc] at hbody
  exact hbody.rule .pair

theorem matchesText_object (hname : ∀ a ∈ as, IsInner (name a))
    (hopens : ∀ a ∈ as, Opens (print a))
    (hvalue : ∀ a ∈ as, ∀ rest, Ends rest → MatchesText value (print a) [record a] rest)
    (rest : List Char) :
    MatchesText (object value) (listText '\x7b' (as.map (memberText name print)) '\x7d')
      [.node .object (listText '\x7b' (as.map (memberText name print)) '\x7d')
        (as.map (memberPair name print record))] rest := by
  refine (matchesText_list (fun a ha rest hends => ?_) (fun a _ => opens_quoted _ _) rfl rfl
    (Or.inr rfl) rest).rule .object
  exact matchesText_pair (hname a ha) (hopens a ha) (hvalue a ha rest hends)

theorem matchesText_array (hopens : ∀ a ∈ as, Opens (print a))
    (hvalue : ∀ a ∈ as, ∀ rest, Ends rest → MatchesText value (print a) [record a] rest)
    (rest : List Char) :
    MatchesText (array value) (listText '[' (as.map print) ']')
      [.node .array (listText '[' (as.map print) ']') (as.map record)] rest :=
  (matchesText_list hvalue hopens rfl rfl (Or.inl rfl) rest).rule .array

/-! ## Alternatives -/

theorem fails_items {opening closing : String} {o c : Char} {o' : List Char}
    (ho : opening.toList = o :: o') (hne : o ≠ c) (item : Expr JsonRule) (rest : List Char) :
    Fails (items opening closing item) (c :: rest) := by
  have hopen : Fails (R := JsonRule) (str opening) (c :: rest) := fails_str_head ho hne rest
  exact ((hopen.append _).append _).orElse ((((((hopen.append _).append _).append _).append
    _).append _).append _)

theorem fails_object {c : Char} (hc : '\x7b' ≠ c) (rest : List Char) :
    Fails (object value) (c :: rest) := (fails_items rfl hc _ rest).rule .object

theorem fails_array {c : Char} (hc : '[' ≠ c) (rest : List Char) :
    Fails (array value) (c :: rest) := (fails_items rfl hc _ rest).rule .array

theorem fails_string {c : Char} (hc : '"' ≠ c) (rest : List Char) :
    Fails string (c :: rest) :=
  (((fails_str_head rfl hc rest).append _).append _).rule .string

theorem fails_number {c : Char} (hsign : '-' ≠ c) (hdigit : c.isDigit = false)
    (rest : List Char) : Fails number (c :: rest) := by
  have hopt : MatchesText (R := JsonRule) (opt (str "-")) [] [] (c :: rest) :=
    (fails_str_head rfl hsign rest).opt
  have hzero : '0' ≠ c := by
    rintro rfl
    cases hdigit
  have hrange : ('1' ≤ c && c ≤ '9') = false := by
    rw [Bool.eq_false_iff]
    intro h
    have hc : '1' ≤ c ∧ c ≤ '9' := by simpa using h
    rw [isDigit_of_le hc] at hdigit
    cases hdigit
  have hintegral : Fails integral (c :: rest) :=
    (fails_str_head rfl hzero rest).orElse ((fails_chr_head hrange rest).append _)
  exact (((hopt.append_fails hintegral).append _).append _).atomic .number

theorem fails_boolean {c : Char} (ht : 't' ≠ c) (hf : 'f' ≠ c) (rest : List Char) :
    Fails boolean (c :: rest) :=
  ((fails_str_head rfl ht rest).orElse (fails_str_head rfl hf rest)).rule .boolean

/-- A value that starts with another character than an object, an array or a string. -/
theorem matchesText_valueBody {c : Char} {pairs : List JsonPair}
    (hc : '\x7b' ≠ c ∧ '[' ≠ c ∧ '"' ≠ c)
    (h : MatchesText (number <|> boolean <|> null) (c :: text) pairs rest) :
    MatchesText (valueBody value) (c :: text) pairs rest :=
  (fails_object hc.1 _).orElse_matchesText ((fails_array hc.2.1 _).orElse_matchesText
    ((fails_string hc.2.2 _).orElse_matchesText h))

theorem matchesText_true (rest : List Char) :
    MatchesText (valueBody value) ['t', 'r', 'u', 'e'] [.node .boolean ['t', 'r', 'u', 'e'] []]
      rest := by
  have htrue : MatchesText (R := JsonRule) (str "true") ['t', 'r', 'u', 'e'] [] rest :=
    matchesText_str "true" rest
  exact matchesText_valueBody (by decide) ((fails_number (by decide) rfl _).orElse_matchesText
    (((htrue.orElse (str "false")).rule JsonRule.boolean).orElse null))

theorem matchesText_false (rest : List Char) :
    MatchesText (valueBody value) ['f', 'a', 'l', 's', 'e']
      [.node .boolean ['f', 'a', 'l', 's', 'e'] []] rest := by
  have htrue : Fails (R := JsonRule) (str "true") ("false".toList ++ rest) :=
    fails_str_head rfl (by decide) _
  have hfalse : MatchesText (R := JsonRule) (str "false") ['f', 'a', 'l', 's', 'e'] [] rest :=
    matchesText_str "false" rest
  exact matchesText_valueBody (by decide) ((fails_number (by decide) rfl _).orElse_matchesText
    (((htrue.orElse_matchesText hfalse).rule JsonRule.boolean).orElse null))

theorem matchesText_null (rest : List Char) :
    MatchesText (valueBody value) ['n', 'u', 'l', 'l'] [.node .null ['n', 'u', 'l', 'l'] []]
      rest := by
  have hnull : MatchesText (R := JsonRule) (str "null") ['n', 'u', 'l', 'l'] [] rest :=
    matchesText_str "null" rest
  exact matchesText_valueBody (by decide) ((fails_number (by decide) rfl _).orElse_matchesText
    ((fails_boolean (by decide) (by decide) _).orElse_matchesText (hnull.rule JsonRule.null)))

end Values

end Durs.JsonGrammar
