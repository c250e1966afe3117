/-
# Decimal integers

Reading machine integers from decimal text, and that a text without leading zeros is what its value
prints.
-/

import Mathlib.Algebra.Order.Ring.Int
import Mathlib.Data.List.Induction

namespace RustStd

/-! ## Reading -/

/-- The value of some digits, at least one. -/
def digitsValue (digits : List Char) : Option Nat :=
  if digits ≠ [] ∧ digits.all Char.isDigit then some (Nat.ofDigitChars 10 digits 0) else none

/-- `str::parse` for an unsigned integer: an optional plus sign and digits whose value fits. -/
def parseUnsigned (bits : Nat) (text : List Char) : Option Nat :=
  match text with
  | '+' :: digits => (digitsValue digits).filter (· < 2 ^ bits)
  | digits => (digitsValue digits).filter (· < 2 ^ bits)

/-- `str::parse` for a signed integer. -/
def parseSigned (bits : Nat) (text : List Char) : Option Int :=
  match text with
  | '+' :: digits => ((digitsValue digits).filter (· < 2 ^ (bits - 1))).map Int.ofNat
  | '-' :: digits => ((digitsValue digits).filter (· ≤ 2 ^ (bits - 1))).map fun value => -value
  | digits => ((digitsValue digits).filter (· < 2 ^ (bits - 1))).map Int.ofNat

/-! ## Texts without leading zeros -/

/-- A text that is the digit zero, or digits that start with another one. -/
def IsUInt (text : List Char) : Prop :=
  text = ['0'] ∨ ∃ c digits, text = c :: digits ∧ ('1' ≤ c ∧ c ≤ '9') ∧
    ∀ digit ∈ digits, digit.isDigit = true

/-- A digit is the one that its value prints. -/
theorem digitChar_of_isDigit {c : Char} (h : c.isDigit = true) :
    c.toNat - 48 < 10 ∧ Nat.digitChar (c.toNat - 48) = c := by
  have hbounds : 48 ≤ c.toNat ∧ c.toNat ≤ 57 := by
    simpa [Char.isDigit, UInt32.le_iff_toNat_le] using h
  rcases hbounds with ⟨hlow, hhigh⟩
  have hlt : c.toNat - 48 < 10 := by omega
  refine ⟨hlt, Char.toNat_inj.1 ?_⟩
  rw [Nat.toNat_digitChar_of_lt_ten hlt]
  omega

theorem isDigit_of_le {c : Char} (h : '1' ≤ c ∧ c ≤ '9') : c.isDigit = true := by
  have hlow : ('1' : Char).val ≤ c.val := h.1
  have hhigh : c.val ≤ ('9' : Char).val := h.2
  simp only [Char.isDigit, Bool.and_eq_true, decide_eq_true_eq]
  exact ⟨UInt32.le_trans (by decide) hlow, hhigh⟩

theorem IsUInt.digits {text : List Char} (h : IsUInt text) :
    text ≠ [] ∧ ∀ c ∈ text, c.isDigit = true := by
  rcases h with rfl | ⟨c, digits, rfl, hc, hdigits⟩
  · exact ⟨List.cons_ne_nil _ _, List.forall_mem_singleton.2 rfl⟩
  · exact ⟨List.cons_ne_nil _ _, List.forall_mem_cons.2 ⟨isDigit_of_le hc, hdigits⟩⟩

/-- Digits that start with another one than zero have a positive value, and are what it prints. -/
theorem toDigits_ofDigitChars_cons {c : Char} (hc : '1' ≤ c ∧ c ≤ '9') {digits : List Char}
    (hdigits : ∀ digit ∈ digits, digit.isDigit = true) :
    0 < Nat.ofDigitChars 10 (c :: digits) 0 ∧
      Nat.toDigits 10 (Nat.ofDigitChars 10 (c :: digits) 0) = c :: digits := by
  induction digits using List.reverseRecOn with
  | nil =>
      rcases digitChar_of_isDigit (isDigit_of_le hc) with ⟨hlt, hchar⟩
      have hlow : ('1' : Char).toNat ≤ c.toNat := UInt32.le_iff_toNat_le.1 hc.1
      have hvalue : Nat.ofDigitChars 10 [c] 0 = c.toNat - 48 := by
        rw [Nat.ofDigitChars_cons, Nat.ofDigitChars_nil, Nat.mul_zero, Nat.zero_add]
        rfl
      rw [hvalue, Nat.toDigits_of_lt_base hlt, hchar]
      exact ⟨Nat.sub_pos_of_lt (Nat.lt_of_lt_of_le (by decide) hlow), rfl⟩
  | append_singleton digits digit ih =>
      rcases ih fun d hd => hdigits d (List.mem_append_left _ hd) with ⟨hpos, hprint⟩
      rcases digitChar_of_isDigit (hdigits digit (List.mem_append_right _ List.mem_cons_self)) with
        ⟨hlt, hchar⟩
      have hvalue : Nat.ofDigitChars 10 (c :: (digits ++ [digit])) 0 =
          10 * Nat.ofDigitChars 10 (c :: digits) 0 + (digit.toNat - 48) := by
        rw [← List.cons_append, Nat.ofDigitChars_append, Nat.ofDigitChars_cons,
          Nat.ofDigitChars_nil]
        rfl
      rw [hvalue, ← Nat.toDigits_append_toDigits (by decide) hpos hlt, hprint,
        Nat.toDigits_of_lt_base hlt, hchar]
      exact ⟨Nat.add_pos_left (Nat.mul_pos (by decide) hpos) _, rfl⟩

/-- The value of a text without leading zeros prints the text. -/
theorem IsUInt.toString_value {text : List Char} (h : IsUInt text) :
    (toString (Nat.ofDigitChars 10 text 0)).toList = text := by
  have hprint : Nat.toDigits 10 (Nat.ofDigitChars 10 text 0) = text := by
    rcases h with rfl | ⟨c, digits, rfl, hc, hdigits⟩
    · decide
    · exact (toDigits_ofDigitChars_cons hc hdigits).2
  exact Nat.toList_repr.trans hprint

theorem IsUInt.digitsValue {text : List Char} (h : IsUInt text) :
    digitsValue text = some (Nat.ofDigitChars 10 text 0) :=
  if_pos ⟨h.digits.1, List.all_eq_true.2 h.digits.2⟩

theorem IsUInt.head_ne {text : List Char} (h : IsUInt text) {c : Char}
    (hc : c.isDigit = false) (rest : List Char) : text ≠ c :: rest := by
  rintro rfl
  rw [h.digits.2 c List.mem_cons_self] at hc
  cases hc

/-- A text without leading zeros reads as its value, if it fits. -/
theorem IsUInt.parseUnsigned {text : List Char} (h : IsUInt text) (bits : Nat) :
    parseUnsigned bits text = (some (Nat.ofDigitChars 10 text 0)).filter (· < 2 ^ bits) := by
  rw [RustStd.parseUnsigned, h.digitsValue]
  exact fun digits heq => h.head_ne (by decide) digits heq

theorem IsUInt.parseSigned {text : List Char} (h : IsUInt text) (bits : Nat) :
    parseSigned bits text =
      ((some (Nat.ofDigitChars 10 text 0)).filter (· < 2 ^ (bits - 1))).map Int.ofNat := by
  rw [RustStd.parseSigned, h.digitsValue]
  · exact fun digits heq => h.head_ne (by decide) digits heq
  · exact fun digits heq => h.head_ne (by decide) digits heq

/-- What a text without leading zeros reads as prints the text. -/
theorem IsUInt.toString_of_parseUnsigned {text : List Char} (h : IsUInt text) {bits value : Nat}
    (hread : RustStd.parseUnsigned bits text = some value) : (toString value).toList = text := by
  rw [h.parseUnsigned, Option.filter_eq_some_iff] at hread
  obtain rfl := Option.some.inj hread.1
  exact h.toString_value

theorem IsUInt.toString_of_parseSigned {text : List Char} (h : IsUInt text) {bits : Nat}
    {value : Int} (hread : RustStd.parseSigned bits text = some value) :
    (toString value).toList = text := by
  rw [h.parseSigned, Option.map_eq_some_iff] at hread
  rcases hread with ⟨n, hn, rfl⟩
  rw [Option.filter_eq_some_iff] at hn
  obtain rfl := Option.some.inj hn.1
  exact h.toString_value

/-! ## Printed numbers -/

/-- A positive number starts with another digit than zero. -/
theorem exists_toDigits_cons {n : Nat} (h : 0 < n) :
    ∃ c digits, Nat.toDigits 10 n = c :: digits ∧ ('1' ≤ c ∧ c ≤ '9') ∧
      ∀ digit ∈ digits, digit.isDigit = true := by
  have hfirst : ∀ d < 10, 0 < d → '1' ≤ Nat.digitChar d ∧ Nat.digitChar d ≤ '9' := by decide
  have hdigit : ∀ d < 10, (Nat.digitChar d).isDigit = true := by decide
  induction n using Nat.strongRecOn with
  | ind n ih =>
      rcases Nat.lt_or_ge n 10 with hlt | hge
      · exact ⟨_, [], Nat.toDigits_of_lt_base hlt, hfirst n hlt h, List.forall_mem_nil _⟩
      · have hquotient : 0 < n / 10 := Nat.div_pos hge (by decide)
        have hlast : n % 10 < 10 := Nat.mod_lt _ (by decide)
        rcases ih (n / 10) (Nat.div_lt_self h (by decide)) hquotient with
          ⟨c, digits, hprint, hc, hdigits⟩
        have happend := Nat.toDigits_append_toDigits (b := 10) (by decide) hquotient hlast
        rw [Nat.div_add_mod, hprint, Nat.toDigits_of_lt_base hlast] at happend
        refine ⟨c, digits ++ [Nat.digitChar (n % 10)], happend.symm, hc, ?_⟩
        exact List.forall_mem_append.2 ⟨hdigits, List.forall_mem_singleton.2 (hdigit _ hlast)⟩

/-- A number prints no leading zeros. -/
theorem isUInt_toString (n : Nat) : IsUInt (toString n).toList := by
  have htext : (toString n).toList = Nat.toDigits 10 n := Nat.toList_repr
  rw [htext]
  rcases Nat.eq_zero_or_pos n with rfl | hpos
  · exact Or.inl rfl
  · exact Or.inr (exists_toDigits_cons hpos)

/-- The digits that a number prints. -/
theorem isDigit_of_mem_toString {n : Nat} {c : Char} (h : c ∈ (toString n).toList) :
    c.isDigit = true :=
  Nat.isDigit_of_mem_toDigits (by decide) (by decide) (Nat.toList_repr ▸ h)

theorem digitsValue_toString (n : Nat) : digitsValue (toString n).toList = some n := by
  have hne : (toString n).toList ≠ [] := by
    intro h
    exact Nat.toDigits_ne_nil (Nat.toList_repr.symm.trans h)
  have hvalue : Nat.ofDigitChars 10 (toString n).toList 0 = n :=
    (congrArg (Nat.ofDigitChars 10 · 0) Nat.toList_repr).trans Nat.ofDigitChars_ten_toDigits
  rw [digitsValue, hvalue]
  exact if_pos ⟨hne, List.all_eq_true.2 fun _ hc => isDigit_of_mem_toString hc⟩

/-- A number that fits is read from what it prints. -/
theorem parseUnsigned_toString {bits n : Nat} (h : n < 2 ^ bits) :
    parseUnsigned bits (toString n).toList = some n := by
  rw [parseUnsigned, digitsValue_toString]
  · exact Option.filter_eq_some_iff.2 ⟨rfl, decide_eq_true h⟩
  · intro digits heq
    have hsign : Char.isDigit '+' = true := isDigit_of_mem_toString (heq ▸ List.mem_cons_self)
    cases hsign

end RustStd
