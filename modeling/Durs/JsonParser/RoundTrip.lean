/-
# JSON values are read back

A value with small integers as its numbers prints a text that is parsed as an equal value.  The
names of an object are distinct, so its entries are collected again whatever their order is.
-/

import Durs.JsonParser.Texts

namespace Durs.JSONValue

open RustStd Lib Lib.Peg JsonGrammar

variable {order : IterOrder}

/-! ## Lists of values -/

theorem elemsText_eq_map (elems : List JSONValue) : elemsText elems = elems.map toText := by
  induction elems with
  | nil => rfl
  | cons value values ih => rw [elemsText, List.map_cons, ih]

theorem entriesText_eq_map (entries : List (String × JSONValue)) :
    entriesText entries =
      entries.map fun entry => "\"" ++ entry.1 ++ "\":" ++ entry.2.toText := by
  induction entries with
  | nil => rfl
  | cons entry entries ih => rw [entriesText, List.map_cons, ih]

theorem elemsNumbers_eq_flatMap (elems : List JSONValue) :
    elemsNumbers elems = elems.flatMap numbers := by
  induction elems with
  | nil => rfl
  | cons value values ih => rw [elemsNumbers, List.flatMap_cons, ih]

theorem entriesNumbers_eq_flatMap (entries : List (String × JSONValue)) :
    entriesNumbers entries = entries.flatMap fun entry => entry.2.numbers := by
  induction entries with
  | nil => rfl
  | cons entry entries ih => rw [entriesNumbers, List.flatMap_cons, ih]

/-- Values that are equal in pairs. -/
theorem beqElems_map {α : Type} {f g : α → JSONValue} {as : List α}
    (h : ∀ a ∈ as, (f a).beq (g a) = true) : beqElems (as.map f) (as.map g) = true := by
  induction as with
  | nil => rfl
  | cons a as ih =>
      rw [List.map_cons, List.map_cons, beqElems, h a List.mem_cons_self,
        ih fun b hb => h b (List.mem_cons_of_mem _ hb)]
      rfl

theorem beqEntries_iff {entries entries' : List (String × JSONValue)} :
    beqEntries entries entries' = true ↔ ∀ entry ∈ entries,
      ∃ value', entries'.lookup entry.1 = some value' ∧ entry.2.beq value' = true := by
  induction entries with
  | nil => exact iff_of_true rfl (List.forall_mem_nil _)
  | cons entry entries ih =>
      rw [beqEntries, Bool.and_eq_true, ih, List.forall_mem_cons]
      refine and_congr_left fun _ => ?_
      cases entries'.lookup entry.1 with
      | none => simp
      | some value' => simp

/-! ## Values that are printed faithfully -/

/-- An integer of absolute value at most `2 ^ 53`. -/
def SmallInteger (x : Float64) : Prop :=
  ∃ (negative : Bool) (n : ℕ) (h : IsDouble n), n ≤ 2 ^ 53 ∧ x = .finite negative n h

/-- A value with names that are distinct, texts of strings, and small integers. -/
inductive Printable : JSONValue → Prop
  | object {entries : List (String × JSONValue)} : (entries.map Prod.fst).Nodup →
      (∀ entry ∈ entries, IsInner entry.1.toList) → (∀ entry ∈ entries, Printable entry.2) →
      Printable (.object entries)
  | array {elems : List JSONValue} : (∀ elem ∈ elems, Printable elem) → Printable (.array elems)
  | string {s : String} : IsInner s.toList → Printable (.string s)
  | number {n : Float64} : SmallInteger n → Printable (.number n)
  | boolean {b : Bool} : Printable (.boolean b)
  | null : Printable .null

/-- A value that is parsed can be printed faithfully when its numbers are small integers. -/
theorem printable_of_parseValue {pair : JsonPair} (hpair : IsValue pair) {v : JSONValue}
    (h : parseValue order pair = .ok v) (hsmall : ∀ x ∈ v.numbers, SmallInteger x) :
    Printable v := by
  induction hpair generalizing v with
  | @object text members hname _ ih =>
      rw [parseValue] at h
      simp only [parseMembers_map_pair, bind_eq_ok_iff, pure_eq_ok_iff] at h
      rcases h with ⟨entries, hentries, rfl⟩
      have hmem {entry : String × JSONValue} (hentry : entry ∈ order.collect entries) :
          ∃ m ∈ members, entry.1.toList = m.name ∧ parseValue order m.value = .ok entry.2 := by
        have hiter := ((order.perm entries).mem_iff).1 hentry
        rcases (mem_mapM_iff hentries entry).1 (HashMap.mem_of_mem_iter_ofList hiter) with
          ⟨m, hm, hread⟩
        simp only [bind_eq_ok_iff, pure_eq_ok_iff] at hread
        rcases hread with ⟨value, hvalue, rfl⟩
        exact ⟨m, hm, String.toList_ofList, hvalue⟩
      refine .object ?_ (fun entry hentry => ?_) fun entry hentry => ?_
      · exact (((order.perm entries).map Prod.fst).nodup_iff).2 (HashMap.nodup_map_fst_iter _)
      · rcases hmem hentry with ⟨m, hm, hentryName, -⟩
        exact hentryName ▸ hname m hm
      · rcases hmem hentry with ⟨m, hm, -, hread⟩
        refine ih m hm hread fun x hx => hsmall x ?_
        rw [numbers, entriesNumbers_eq_flatMap]
        exact List.mem_flatMap.2 ⟨entry, hentry, hx⟩
  | @array text elems _ ih =>
      rw [parseValue] at h
      simp only [parseValues_eq_mapM, bind_eq_ok_iff, pure_eq_ok_iff] at h
      rcases h with ⟨values, hvalues, rfl⟩
      refine .array fun value hvalue => ?_
      rcases (mem_mapM_iff hvalues value).1 hvalue with ⟨elem, helem, hread⟩
      refine ih elem helem hread fun x hx => hsmall x ?_
      rw [numbers, elemsNumbers_eq_flatMap]
      exact List.mem_flatMap.2 ⟨value, hvalue, hx⟩
  | @string text inner hinner =>
      obtain rfl := Except.ok.inj h
      exact .string (String.toList_ofList.symm ▸ hinner)
  | number =>
      rw [parseValue] at h
      simp only [bind_eq_ok_iff, pure_eq_ok_iff] at h
      rcases h with ⟨n, -, rfl⟩
      exact .number (hsmall n List.mem_cons_self)
  | boolean =>
      rw [parseValue] at h
      simp only [bind_eq_ok_iff, pure_eq_ok_iff] at h
      rcases h with ⟨b, -, rfl⟩
      exact .boolean
  | null =>
      obtain rfl := Except.ok.inj h
      exact .null

/-! ## What is printed -/

mutual

/-- The text that a value prints, when its numbers are integers. -/
def source : JSONValue → JsonText
  | object entries => .object (entriesSource entries)
  | array elems => .array (elemsSource elems)
  | string s => .string s
  | number n =>
      match n with
      | .finite negative q _ => .integer negative ⌊q⌋₊
      | _ => .null
  | boolean b => .boolean b
  | null => .null

/-- The texts of the entries of an object. -/
def entriesSource : List (String × JSONValue) → List (String × JsonText)
  | [] => []
  | (name, value) :: entries => (name, value.source) :: entriesSource entries

/-- The texts of the elements of an array. -/
def elemsSource : List JSONValue → List JsonText
  | [] => []
  | value :: values => value.source :: elemsSource values

end

theorem elemsSource_eq_map (elems : List JSONValue) : elemsSource elems = elems.map source := by
  induction elems with
  | nil => rfl
  | cons value values ih => rw [elemsSource, List.map_cons, ih]

theorem entriesSource_eq_map (entries : List (String × JSONValue)) :
    entriesSource entries = entries.map fun entry => (entry.1, entry.2.source) := by
  induction entries with
  | nil => rfl
  | cons entry entries ih => rw [entriesSource, List.map_cons, ih]

theorem source_number {negative : Bool} {n : ℕ} (h : IsDouble n) :
    (number (.finite negative n h)).source = .integer negative n :=
  congrArg (JsonText.integer negative) (Nat.floor_natCast n)

/-- A value prints the characters of its text. -/
theorem Printable.toList_toText {v : JSONValue} (h : Printable v) :
    v.toText.toList = v.source.chars := by
  induction h with
  | @object entries _ _ _ ih =>
      have htexts : (entriesText entries).map String.toList =
          JsonText.membersChars (entriesSource entries) := by
        rw [entriesText_eq_map, entriesSource_eq_map, JsonText.membersChars_eq_map, List.map_map,
          List.map_map]
        refine List.map_congr_left fun entry hentry => ?_
        simp [memberText, quoted, ih entry hentry]
      rw [toText, String.toList_append, String.toList_append, String.toList_intercalate, htexts]
      rfl
  | @array elems _ ih =>
      have htexts : (elemsText elems).map String.toList =
          JsonText.elemsChars (elemsSource elems) := by
        rw [elemsText_eq_map, elemsSource_eq_map, JsonText.elemsChars_eq_map, List.map_map,
          List.map_map]
        exact List.map_congr_left ih
      rw [toText, String.toList_append, String.toList_append, String.toList_intercalate, htexts]
      rfl
  | string =>
      rw [toText, String.toList_append, String.toList_append]
      rfl
  | number hn =>
      rcases hn with ⟨negative, n, h, hn, rfl⟩
      rw [toText, String.toList_ofList, Float64.display_natCast hn, source_number]
      rfl
  | @boolean b =>
      cases b with
      | true => rfl
      | false => rfl
  | null => rfl

theorem Printable.isWritten_source {v : JSONValue} (h : Printable v) : v.source.IsWritten := by
  induction h with
  | @object entries _ hname _ ih =>
      rw [source, entriesSource_eq_map]
      exact .object (List.forall_mem_map.2 hname) (List.forall_mem_map.2 ih)
  | @array elems _ ih =>
      rw [source, elemsSource_eq_map]
      exact .array (List.forall_mem_map.2 ih)
  | string hs => exact .string hs
  | number hn =>
      rcases hn with ⟨negative, n, h, -, rfl⟩
      exact .integer
  | boolean => exact .boolean
  | null => exact .null

/-- The value of the text that a value prints is the value. -/
theorem Printable.beq_read_source {v : JSONValue} (h : Printable v) :
    (v.source.read order).beq v = true := by
  induction h with
  | @object entries hnodup _ _ ih =>
      rw [source, JsonText.read, beq, Bool.and_eq_true, beqEntries_iff,
        JsonText.membersRead_eq_map, entriesSource_eq_map, List.map_map]
      have hnames : (entries.map ((fun member => (member.1, member.2.read order)) ∘
          fun entry => (entry.1, entry.2.source))).map Prod.fst = entries.map Prod.fst :=
        List.map_map
      have hperm := (order.perm _).trans (HashMap.iter_ofList_perm (hnames ▸ hnodup))
      refine ⟨decide_eq_true (hperm.length_eq.trans (List.length_map _)), fun entry hentry => ?_⟩
      rcases List.mem_map.1 (hperm.mem_iff.1 hentry) with ⟨found, hfound, rfl⟩
      exact ⟨found.2, lookup_of_mem hnodup hfound, ih found hfound⟩
  | @array elems _ ih =>
      rw [source, JsonText.read, beq, JsonText.elemsRead_eq_map, elemsSource_eq_map, List.map_map]
      have helems : beqElems (elems.map (JsonText.read order ∘ source)) (elems.map id) = true :=
        beqElems_map ih
      rwa [List.map_id] at helems
  | string => exact decide_eq_true rfl
  | number hn =>
      rcases hn with ⟨negative, n, h, -, rfl⟩
      rw [source_number, JsonText.read, Float64.nearest_of_isDouble negative h]
      exact Float64.beq_finite_self (h := h)
  | boolean => exact decide_eq_true rfl
  | null => rfl

/-! ## Whole texts -/

/-- What is parsed of a text is an object or an array. -/
theorem isComposite_of_parseValue {pair : JsonPair} {v : JSONValue}
    (hrule : pair.rule = .object ∨ pair.rule = .array) (h : parseValue order pair = .ok v) :
    v.source.IsComposite := by
  cases pair with
  | node rule text inner =>
      rcases hrule with hrule | hrule
      · obtain rfl : rule = .object := hrule
        simp only [parseValue, bind_eq_ok_iff, pure_eq_ok_iff] at h
        rcases h with ⟨entries, -, rfl⟩
        trivial
      · obtain rfl : rule = .array := hrule
        simp only [parseValue, bind_eq_ok_iff, pure_eq_ok_iff] at h
        rcases h with ⟨elems, -, rfl⟩
        trivial

/-- A value that is parsed, with small integers as its numbers, prints a text that is parsed as an
equal value. -/
theorem parseJsonString_toText {source : String} {v : JSONValue}
    (h : (parseJsonString order source).run = .ok (some v))
    (hsmall : ∀ x ∈ v.numbers, SmallInteger x) :
    ∃ v', (parseJsonString order v.toText).run = .ok (some v') ∧ v'.beq v = true := by
  rcases parseJsonString_eq_some_iff.1 h with ⟨m, hm, pair, hpair, hread⟩
  rcases of_lang_json (json.sound hm).2 with ⟨pair', hpair', hvalue, hrule⟩
  obtain rfl := Option.some.inj (hpair.symm.trans hpair')
  have hprint : Printable v := printable_of_parseValue hvalue hread hsmall
  have hwrites := hprint.isWritten_source.writes (isComposite_of_parseValue hrule hread)
  rw [← hprint.toList_toText, String.ofList_toList] at hwrites
  exact ⟨_, hwrites.parseJsonString, hprint.beq_read_source⟩

/-- The map that is collected is iterated in the order of its entries. -/
def entryOrder : IterOrder := ⟨fun pairs => (HashMap.ofList pairs).iter, fun _ => .refl _⟩

/-- An array with a negative number and with an object. -/
def exampleText : JsonText := .array [.integer true 3, .object [("a", .null)]]

theorem exists_parseJsonString_exampleText :
    ∃ v, (parseJsonString entryOrder "[-3,\x7b\"a\":null\x7d]").run = .ok (some v) ∧
      ∃ v', (parseJsonString entryOrder v.toText).run = .ok (some v') ∧ v'.beq v = true := by
  have hwritten : exampleText.IsWritten := by
    refine .array (List.forall_mem_cons.2 ⟨.integer, List.forall_mem_singleton.2 ?_⟩)
    refine .object (List.forall_mem_singleton.2 ?_) (List.forall_mem_singleton.2 .null)
    exact ⟨[['a']], List.forall_mem_singleton.2 (.plain (by decide)), rfl⟩
  have hwrites := hwritten.writes trivial
  have htext : String.ofList exampleText.chars = "[-3,\x7b\"a\":null\x7d]" := by decide
  rw [htext] at hwrites
  have hparse : (parseJsonString entryOrder "[-3,\x7b\"a\":null\x7d]").run = _ :=
    hwrites.parseJsonString
  refine ⟨_, hparse, parseJsonString_toText hparse fun x hx => ?_⟩
  have hx' : x ∈ [Float64.nearest true (3 : ℕ) (Float64.natCast_nonneg 3)] := hx
  obtain rfl := List.mem_singleton.1 hx'
  exact ⟨true, 3, Float64.isDouble_of_lt (by decide), by norm_num,
    Float64.nearest_of_isDouble true _⟩

end Durs.JSONValue
