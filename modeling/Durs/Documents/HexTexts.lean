/-
# Texts of hashes

Which texts are read as a hash, and what the hash prints.  The length of a text is counted in bytes,
and its characters are indexed two at a time.
-/

import Durs.Documents.CompactTexts

namespace Durs

open RustStd Lib Lib.Reading

/-- A text of 64 hexadecimal digits. -/
def IsHashText (text : String) : Prop :=
  text.toList.length = 64 ∧ ∀ c ∈ text.toList, (hexValue c).isSome

/-- A text of 64 bytes with one character for the last byte of a hash: 62 digits before a character
of two bytes, or 60 digits before one of four. -/
def IsCutHashText (text : String) : Prop :=
  ∃ digits c, text.toList = digits ++ [c] ∧ (∀ digit ∈ digits, (hexValue digit).isSome) ∧
    (digits.length = 62 ∧ c.utf8Size = 2 ∨ digits.length = 60 ∧ c.utf8Size = 4)

/-! ## Texts that are cut -/

/-- The digits overrun a text when its last character has no other one to make a byte with. -/
theorem hexOverruns_iff {text : List Char} : hexOverruns text ↔
    ∃ digits c, text = digits ++ [c] ∧ (∀ digit ∈ digits, (hexValue digit).isSome) ∧
      digits.length % 2 = 0 := by
  induction text using hexOverruns.induct with
  | case1 =>
      refine iff_of_false Bool.noConfusion ?_
      rintro ⟨digits, c, htext, -, -⟩
      exact absurd htext.symm (List.append_ne_nil_of_right_ne_nil _ (List.cons_ne_nil _ _))
  | case2 c => exact iff_of_true rfl ⟨[], c, rfl, List.forall_mem_nil _, rfl⟩
  | case3 c c' text ih =>
      rw [hexOverruns, Bool.and_eq_true, Bool.and_eq_true, ih]
      constructor
      · rintro ⟨⟨hc, hc'⟩, digits, last, rfl, hdigits, heven⟩
        refine ⟨c :: c' :: digits, last, rfl, ?_, ?_⟩
        · exact List.forall_mem_cons.2 ⟨hc, List.forall_mem_cons.2 ⟨hc', hdigits⟩⟩
        · rw [List.length_cons, List.length_cons]
          omega
      · rintro ⟨digits, last, htext, hdigits, heven⟩
        rcases digits with _ | ⟨d, _ | ⟨d', digits⟩⟩
        case nil => cases htext
        case cons.nil => cases heven
        case cons.cons =>
          simp only [List.cons_append, List.cons.injEq] at htext
          obtain ⟨rfl, rfl, rfl⟩ := htext
          rcases List.forall_mem_cons.1 hdigits with ⟨hd, hdigits⟩
          rcases List.forall_mem_cons.1 hdigits with ⟨hd', hdigits⟩
          rw [List.length_cons, List.length_cons] at heven
          exact ⟨⟨hd, hd'⟩, digits, last, rfl, hdigits, by omega⟩

/-- The digits overrun exactly the texts of 64 bytes that are cut. -/
theorem isCutHashText_iff {text : String} :
    IsCutHashText text ↔ byteLen text.toList = 64 ∧ hexOverruns text.toList := by
  have hbytes {digits : List Char} (c : Char)
      (hdigits : ∀ digit ∈ digits, (hexValue digit).isSome) :
      byteLen (digits ++ [c]) = digits.length + c.utf8Size := by
    rw [byteLen_append, byteLen_of_digits (List.all_eq_true.2 hdigits), byteLen_cons]
    rfl
  rw [hexOverruns_iff]
  constructor
  · rintro ⟨digits, c, htext, hdigits, hlength⟩
    rw [htext, hbytes c hdigits]
    exact ⟨by omega, digits, c, rfl, hdigits, by omega⟩
  · rintro ⟨hlength, digits, c, htext, hdigits, heven⟩
    rw [htext, hbytes c hdigits] at hlength
    have hpos := Char.utf8Size_pos c
    have hle := Char.utf8Size_le_four c
    exact ⟨digits, c, htext, hdigits, by omega⟩

/-! ## Digits -/

/-- A digit prints in upper case. -/
theorem hexDigit_of_hexValue {c : Char} {digit : Nat} (h : hexValue c = some digit) :
    digit < 16 ∧ hexDigit digit = c.toUpper := by
  have hascii : ∀ n < 103, (hexValue (Char.ofNat n)).all
      fun digit => digit < 16 && hexDigit digit = (Char.ofNat n).toUpper := by decide
  have hle := toNat_le_of_hexValue (Option.isSome_iff_exists.2 ⟨digit, h⟩)
  have hc := hascii c.toNat (by omega)
  rw [Char.ofNat_toNat, h, Option.all_some, Bool.and_eq_true, decide_eq_true_iff,
    decide_eq_true_iff] at hc
  exact hc

/-- The values of digits print the digits in upper case. -/
theorem map_hexDigit_of_mapM {text : List Char} {digits : List Nat}
    (h : text.mapM hexValue = some digits) :
    (∀ digit ∈ digits, digit < 16) ∧ digits.map hexDigit = text.map Char.toUpper := by
  induction text generalizing digits with
  | nil =>
      obtain rfl := Option.some.inj h
      exact ⟨List.forall_mem_nil _, rfl⟩
  | cons c text ih =>
      simp only [List.mapM_cons, Option.bind_eq_bind, Option.bind_eq_some_iff] at h
      rcases h with ⟨digit, hdigit, digits', hdigits', h⟩
      obtain rfl := Option.some.inj h
      rcases hexDigit_of_hexValue hdigit with ⟨hlt, hprint⟩
      rcases ih hdigits' with ⟨hlts, hprints⟩
      exact ⟨List.forall_mem_cons.2 ⟨hlt, hlts⟩, by rw [List.map_cons, hprint, hprints]; rfl⟩

/-- The digits that are read are the values of the characters. -/
theorem mapM_of_hexBytes {count : Nat} {text : List Char} {digits : List Nat}
    (h : (hexBytes count text).run = .ok (some digits)) (hlength : text.length = 2 * count) :
    text.mapM hexValue = some digits := by
  induction count generalizing text digits with
  | zero =>
      obtain rfl := List.length_eq_zero_iff.1 hlength
      cases h
      rfl
  | succ count ih =>
      rcases text with _ | ⟨c, _ | ⟨c', text⟩⟩
      case nil => cases hlength
      case cons.nil =>
        rw [List.length_singleton] at hlength
        omega
      case cons.cons =>
        rw [hexBytes] at h
        rcases run_bind_eq_some_iff.1 h with ⟨digit, hdigit, h⟩
        rcases run_bind_eq_some_iff.1 h with ⟨digit', hdigit', h⟩
        rcases run_bind_eq_some_iff.1 h with ⟨rest, hrest, h⟩
        obtain rfl := run_pure_eq_some_iff.1 h
        rw [List.length_cons, List.length_cons] at hlength
        rw [List.mapM_cons, List.mapM_cons, run_option_eq_some_iff.1 hdigit,
          run_option_eq_some_iff.1 hdigit', ih hrest (by omega)]
        rfl

/-- What a text that is read as a hash is printed as. -/
theorem toHex_of_fromHexText {text : String} {hash : Hash}
    (h : (Hash.fromHexText text).run = .ok (some hash)) (hlength : text.toList.length = 64) :
    hash.toHex = text.toUpper := by
  rw [Hash.fromHexText] at h
  split at h
  case isTrue => cases h
  case isFalse =>
    rcases run_bind_eq_some_iff.1 h with ⟨digits, hdigits, h⟩
    obtain rfl := run_pure_eq_some_iff.1 h
    have hmap := mapM_of_hexBytes hdigits hlength
    rcases map_hexDigit_of_mapM hmap with ⟨hlt, hprint⟩
    have hcount : digits.length = 64 := by
      rw [← List.length_map, hprint, List.length_map, hlength]
    rw [← String.toList_inj, Hash.toList_toHex_ofNat hcount hlt, hprint, String.toUpper,
      String.toList_map]

/-! ## The codec -/

/-- Reading a text as a hash returns; it gives a hash exactly when the text is one of 64 digits, and
the hash is then printed as the text in upper case. -/
def ReadsHashText (text : String) : Prop :=
  ∃ hash?, (Hash.fromHexText text).run = .ok hash? ∧ (hash?.isSome ↔ IsHashText text) ∧
    ∀ hash ∈ hash?, hash.toHex = text.toUpper

/-- What the conversion of a hash asks for is a text of 64 digits. -/
theorem complete_hashReadings_iff {text : String} :
    Complete (hashReadings text) ↔ IsHashText text := by
  simp only [hashReadings, complete_cons, Met, decide_eq_true_iff, Bool.not_eq_true',
    complete_nil, and_true]
  constructor
  · rintro ⟨hbytes, -, hsome⟩
    rw [isSome_fromHex hbytes] at hsome
    exact ⟨byteLen_of_digits hsome ▸ hbytes, List.all_eq_true.1 hsome⟩
  · rintro ⟨hlength, hdigits⟩
    have hall := List.all_eq_true.2 hdigits
    have hbytes : byteLen text.toList = 64 := (byteLen_of_digits hall).trans hlength
    refine ⟨hbytes, Bool.eq_false_iff.2 fun hcut => ?_, by rw [isSome_fromHex hbytes, hall]⟩
    rcases hexOverruns_iff.1 hcut with ⟨digits, c, htext, -, heven⟩
    rw [htext, List.length_append, List.length_singleton] at hlength
    omega

/-- A printed hash is read back, and a text is read rightly exactly when it is not cut. -/
theorem readsHashText_iff (hash : Hash) (text : String) :
    (Hash.fromHexText hash.toHex).run = .ok (some hash) ∧
      (ReadsHashText text ↔ ¬ IsCutHashText text) := by
  refine ⟨by rw [Hash.fromHexText_toHex]; rfl, ?_⟩
  have hreads := reads_hash text
  have hreturns : (∃ hash?, (Hash.fromHexText text).run = .ok hash?) ↔
      ¬ IsCutHashText text := by
    rw [hreads.harmless_iff, isCutHashText_iff, hashReadings]
    simp [Harmless]
  have hsome : (∃ hash, (Hash.fromHexText text).run = .ok (some hash)) ↔ IsHashText text := by
    rw [hreads.complete_iff, complete_hashReadings_iff]
  constructor
  · rintro ⟨hash?, hrun, -, -⟩
    exact hreturns.1 ⟨hash?, hrun⟩
  · intro hcut
    rcases hreturns.2 hcut with ⟨hash?, hrun⟩
    refine ⟨hash?, hrun, ?_, ?_⟩
    · rw [← hsome, hrun, Option.isSome_iff_exists]
      simp
    · rintro hash rfl
      exact toHex_of_fromHexText hrun (hsome.1 ⟨hash, hrun⟩).1

/-- The text of 62 digits before a letter of two bytes, on which reading a hash stops. -/
theorem not_readsHashText_cut : ¬ ReadsHashText (String.ofList (List.replicate 62 '0' ++ ['é'])) := by
  rintro ⟨hash?, hrun, -⟩
  have hstops : (Hash.fromHexText (String.ofList (List.replicate 62 '0' ++ ['é']))).run.toOption =
      none := by decide +kernel
  rw [hrun] at hstops
  cases hstops

end Durs
