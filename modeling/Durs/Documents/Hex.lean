/-
# Hexadecimal hashes

Reading a hash from its hexadecimal text, and that an upper-case text is what the hash prints.
-/

import Durs.Documents.Keys
import Mathlib.Data.List.Induction
import Mathlib.Data.Nat.Basic

namespace Durs

/-- `char::to_digit(16)`. -/
def hexValue (c : Char) : Option Nat :=
  if c.isDigit then some (c.toNat - 48)
  else if 'A' ≤ c ∧ c ≤ 'F' then some (c.toNat - 55)
  else if 'a' ≤ c ∧ c ≤ 'f' then some (c.toNat - 87)
  else none

/-- The number that some digits write. -/
def hexNumber (digits : List Nat) : Nat := digits.foldl (fun number digit => 16 * number + digit) 0

/-- `Hash::from_hex`, on a text of ASCII characters. -/
def Hash.fromHex (text : List Char) : Option Hash :=
  if text.length = 64 then
    (text.mapM hexValue).map fun digits => BitVec.ofNat 256 (hexNumber digits)
  else none

/-- A digit of an upper-case text. -/
def isHexaUpper (c : Char) : Bool := c.isDigit || ('A' ≤ c && c ≤ 'F')

/-- An upper-case digit is the one that its value prints. -/
theorem hexValue_of_isHexaUpper {c : Char} (h : isHexaUpper c = true) :
    ∃ digit, hexValue c = some digit ∧ digit < 16 ∧ hexDigit digit = c := by
  by_cases hdigit : c.isDigit = true
  · have hbounds : 48 ≤ c.toNat ∧ c.toNat ≤ 57 := by
      simpa [Char.isDigit, UInt32.le_iff_toNat_le] using hdigit
    refine ⟨c.toNat - 48, if_pos hdigit, by omega, ?_⟩
    rw [hexDigit, if_pos (by omega), Nat.add_sub_cancel' hbounds.1, Char.ofNat_toNat]
  · have hupper : 'A' ≤ c ∧ c ≤ 'F' := by simpa [isHexaUpper, hdigit] using h
    have hlow : ('A' : Char).toNat ≤ c.toNat := UInt32.le_iff_toNat_le.1 hupper.1
    have hhigh : c.toNat ≤ ('F' : Char).toNat := UInt32.le_iff_toNat_le.1 hupper.2
    have hbounds : 65 ≤ c.toNat ∧ c.toNat ≤ 70 := ⟨hlow, hhigh⟩
    refine ⟨c.toNat - 55, ?_, by omega, ?_⟩
    · rw [hexValue, if_neg hdigit, if_pos hupper]
    · rw [hexDigit, if_neg (by omega), Nat.add_sub_cancel' (by omega), Char.ofNat_toNat]

/-- The digits of a number that digits write are those digits. -/
theorem digits_hexNumber {digits : List Nat} (h : ∀ digit ∈ digits, digit < 16) :
    (List.range digits.length).map
      (fun i => hexNumber digits / 16 ^ (digits.length - 1 - i) % 16) = digits := by
  induction digits using List.reverseRecOn with
  | nil => rfl
  | append_singleton digits digit ih =>
      have hlast : digit < 16 := h digit (List.mem_append_right _ List.mem_cons_self)
      have hnumber : hexNumber (digits ++ [digit]) = 16 * hexNumber digits + digit :=
        List.foldl_append
      rw [List.length_append, List.length_singleton, List.range_succ, List.map_append, hnumber,
        List.map_singleton, Nat.add_sub_cancel, Nat.sub_self, Nat.pow_zero, Nat.div_one,
        Nat.mul_add_mod, Nat.mod_eq_of_lt hlast]
      refine congrArg (· ++ [digit]) ?_
      refine Eq.trans (List.map_congr_left fun i hi => ?_)
        (ih fun d hd => h d (List.mem_append_left _ hd))
      have hlt := List.mem_range.1 hi
      have hpow : digits.length - i = (digits.length - 1 - i) + 1 := by omega
      rw [hpow, Nat.pow_succ', ← Nat.div_div_eq_div_mul, Nat.mul_add_div (by decide),
        Nat.div_eq_of_lt hlast, Nat.add_zero]

theorem hexNumber_lt {digits : List Nat} (h : ∀ digit ∈ digits, digit < 16) :
    hexNumber digits < 16 ^ digits.length := by
  induction digits using List.reverseRecOn with
  | nil => decide
  | append_singleton digits digit ih =>
      have hlast : digit < 16 := h digit (List.mem_append_right _ List.mem_cons_self)
      have hnumber : hexNumber (digits ++ [digit]) = 16 * hexNumber digits + digit :=
        List.foldl_append
      have hinit := ih fun d hd => h d (List.mem_append_left _ hd)
      rw [hnumber, List.length_append, List.length_singleton, Nat.pow_succ]
      omega

/-- The hash of some digits prints them. -/
theorem Hash.toList_toHex_ofNat {digits : List Nat} (hlength : digits.length = 64)
    (hlt : ∀ digit ∈ digits, digit < 16) :
    (Hash.toHex (BitVec.ofNat 256 (hexNumber digits))).toList = digits.map hexDigit := by
  have hfits : hexNumber digits < 2 ^ 256 := by
    have hpow : 16 ^ 64 = 2 ^ 256 := by decide
    exact hpow ▸ hlength ▸ hexNumber_lt hlt
  have hback := digits_hexNumber hlt
  rw [hlength] at hback
  rw [Hash.toHex, String.toList_ofList, BitVec.toNat_ofNat, Nat.mod_eq_of_lt hfits]
  show (List.range 64).map (hexDigit ∘ fun i => hexNumber digits / 16 ^ (63 - i) % 16) = _
  rw [← List.map_map]
  exact congrArg (List.map hexDigit) hback

/-- An upper-case text of 64 digits reads as a hash that prints it. -/
theorem Hash.fromHex_of_upper {text : List Char} (hlength : text.length = 64)
    (hupper : ∀ c ∈ text, isHexaUpper c = true) :
    ∃ hash, Hash.fromHex text = some hash ∧ hash.toHex.toList = text := by
  have hvalues : ∃ digits, text.mapM hexValue = some digits ∧ digits.map hexDigit = text ∧
      ∀ digit ∈ digits, digit < 16 := by
    clear hlength
    induction text with
    | nil => exact ⟨[], rfl, rfl, List.forall_mem_nil _⟩
    | cons c text ih =>
        rcases hexValue_of_isHexaUpper (hupper c List.mem_cons_self) with
          ⟨digit, hvalue, hlt, hchar⟩
        rcases ih fun c hc => hupper c (List.mem_cons_of_mem _ hc) with
          ⟨digits, hread, hprint, hdigits⟩
        refine ⟨digit :: digits, ?_, ?_, List.forall_mem_cons.2 ⟨hlt, hdigits⟩⟩
        · rw [List.mapM_cons, hvalue, hread]
          rfl
        · rw [List.map_cons, hchar, hprint]
  rcases hvalues with ⟨digits, hread, hprint, hdigits⟩
  have hcount : digits.length = 64 := by rw [← hlength, ← hprint, List.length_map]
  refine ⟨BitVec.ofNat 256 (hexNumber digits), ?_, ?_⟩
  · rw [Hash.fromHex, if_pos hlength, hread]
    rfl
  · rw [Hash.toList_toHex_ofNat hcount hdigits, hprint]

/-! ## Printed hashes -/

theorem hexValue_hexDigit : ∀ digit < 16, hexValue (hexDigit digit) = some digit := by decide

theorem isHexaUpper_hexDigit : ∀ digit < 16, isHexaUpper (hexDigit digit) = true := by decide

/-- The number that the digits of a number write, of those that are taken. -/
theorem foldl_digits {base : Nat} (n count : Nat) :
    ((List.range count).map fun i => n / base ^ (count - 1 - i) % base).foldl
      (fun number digit => base * number + digit) 0 = n % base ^ count := by
  induction count generalizing n with
  | zero => exact (Nat.mod_one n).symm
  | succ count ih =>
      have hdigits : ((List.range count).map fun i => n / base ^ (count + 1 - 1 - i) % base) =
          (List.range count).map fun i => n / base / base ^ (count - 1 - i) % base := by
        refine List.map_congr_left fun i hi => ?_
        have hlt := List.mem_range.1 hi
        have hpow : count + 1 - 1 - i = (count - 1 - i) + 1 := by omega
        rw [hpow, Nat.pow_succ', ← Nat.div_div_eq_div_mul]
      rw [List.range_succ, List.map_append, List.map_singleton, List.foldl_append, hdigits, ih,
        Nat.pow_succ', Nat.mod_mul, Nat.add_sub_cancel, Nat.sub_self, Nat.pow_zero, Nat.div_one,
        Nat.add_comm]
      rfl

theorem hexNumber_digits (n count : Nat) :
    hexNumber ((List.range count).map fun i => n / 16 ^ (count - 1 - i) % 16) = n % 16 ^ count :=
  foldl_digits n count

/-- The digits of a hash. -/
def Hash.digits (hash : Hash) : List Nat :=
  (List.range 64).map fun i => hash.toNat / 16 ^ (63 - i) % 16

theorem Hash.digits_lt (hash : Hash) : ∀ digit ∈ hash.digits, digit < 16 := by
  intro digit hdigit
  rcases List.mem_map.1 hdigit with ⟨i, -, rfl⟩
  exact Nat.mod_lt _ (by decide)

theorem Hash.toList_toHex (hash : Hash) : hash.toHex.toList = hash.digits.map hexDigit := by
  rw [Hash.toHex, String.toList_ofList, Hash.digits, List.map_map]
  rfl

theorem Hash.ofNat_digits (hash : Hash) : BitVec.ofNat 256 (hexNumber hash.digits) = hash := by
  have hnumber : hexNumber hash.digits = hash.toNat % 16 ^ 64 := hexNumber_digits hash.toNat 64
  have hpow : 16 ^ 64 = 2 ^ 256 := by decide
  rw [hnumber, hpow, Nat.mod_eq_of_lt hash.isLt, BitVec.ofNat_toNat, BitVec.setWidth_eq]

end Durs
