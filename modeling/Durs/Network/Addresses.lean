/-
# Internet addresses

Reading the address of a host, of version 4 or 6, as the standard library reads it: the groups of an
address of version 6 are read as far as they go, and two colons stand for those that are missing.
-/

import Durs.Documents.Hex
import Durs.RustStd.ParseInt
import Mathlib.Data.List.Basic

namespace Durs.Network

/-- An address of version 4. -/
abbrev Ipv4Addr := BitVec 32

/-- An address of version 6. -/
abbrev Ipv6Addr := BitVec 128

/-! ## Readers -/

/-- `char::to_digit(radix)`, up to sixteen. -/
def toDigit (radix : Nat) (c : Char) : Option Nat := (hexValue c).filter (· < radix)

/-- The number that some digits write. -/
def digitsNumber (radix : Nat) (digits : List Char) : Nat :=
  digits.foldl (fun number c => radix * number + (hexValue c).getD 0) 0

/-- `read_number`: all the digits at the front, at least one and at most so many, and the text
after them. -/
def readNumber (radix maxDigits upto : Nat) (text : List Char) : Option (Nat × List Char) :=
  let digits := text.takeWhile fun c => (toDigit radix c).isSome
  let number := digitsNumber radix digits
  if digits ≠ [] ∧ digits.length ≤ maxDigits ∧ number < upto then
    some (number, text.dropWhile fun c => (toDigit radix c).isSome)
  else none

/-- `read_given_char` -/
def readGivenChar (c : Char) : List Char → Option (List Char)
  | [] => none
  | c' :: text => if c' = c then some text else none

/-- `read_ipv4_addr`: the four bytes, and the text after them. -/
def readIpv4Addr (text : List Char) : Option (List Nat × List Char) := do
  let (a, text) ← readNumber 10 3 256 text
  let text ← readGivenChar '.' text
  let (b, text) ← readNumber 10 3 256 text
  let text ← readGivenChar '.' text
  let (c, text) ← readNumber 10 3 256 text
  let text ← readGivenChar '.' text
  let (d, text) ← readNumber 10 3 256 text
  return ([a, b, c, d], text)

/-- `read_groups`: the groups as far as they go, at most so many, whether the last two of them are
written as an address of version 4, which ends them, and the text after them. -/
def readGroups (first : Bool) : Nat → List Char → List Nat × Bool × List Char
  | 0, text => ([], false, text)
  | limit + 1, text =>
      let front := if first then some text else readGivenChar ':' text
      match if 0 < limit then front.bind readIpv4Addr else none with
      | some ([a, b, c, d], rest) => ([256 * a + b, 256 * c + d], true, rest)
      | _ =>
          match front.bind (readNumber 16 4 65536) with
          | some (group, rest) =>
              let (groups, ipv4, rest) := readGroups false limit rest
              (group :: groups, ipv4, rest)
          | none => ([], false, text)

/-- `read_ipv6_addr`: the eight groups, and the text after them. -/
def readIpv6Addr (text : List Char) : Option (List Nat × List Char) :=
  let (head, headIpv4, rest) := readGroups true 8 text
  if head.length = 8 then some (head, rest)
  else if headIpv4 then none
  else do
    let rest ← readGivenChar ':' rest
    let rest ← readGivenChar ':' rest
    -- two colons stand for one group at least
    let (tail, _, rest) := readGroups true (8 - (head.length + 1)) rest
    return (head ++ List.replicate (8 - head.length - tail.length) 0 ++ tail, rest)

/-- `read_till_eof`: what is read, if nothing comes after it. -/
def readTillEof {A : Type} : Option (A × List Char) → Option A
  | some (a, []) => some a
  | _ => none

/-- `Ipv4Addr::from_str` -/
def Ipv4Addr.fromStr (text : List Char) : Option Ipv4Addr :=
  (readTillEof (readIpv4Addr text)).map fun bytes =>
    BitVec.ofNat 32 (bytes.foldl (fun number byte => 256 * number + byte) 0)

/-- `Ipv6Addr::from_str` -/
def Ipv6Addr.fromStr (text : List Char) : Option Ipv6Addr :=
  (readTillEof (readIpv6Addr text)).map fun groups =>
    BitVec.ofNat 128 (groups.foldl (fun number group => 65536 * number + group) 0)

/-- Digits are read as the number that they write, up to the character after them. -/
theorem readNumber_append {radix maxDigits upto : Nat} {digits rest : List Char}
    (hne : digits ≠ []) (hlength : digits.length ≤ maxDigits)
    (hdigits : ∀ c ∈ digits, (toDigit radix c).isSome = true)
    (hlt : digitsNumber radix digits < upto)
    (hrest : ∀ c ∈ rest.head?, (toDigit radix c).isSome = false) :
    readNumber radix maxDigits upto (digits ++ rest) =
      some (digitsNumber radix digits, rest) := by
  have hstop : rest.takeWhile (fun c => (toDigit radix c).isSome) = [] ∧
      rest.dropWhile (fun c => (toDigit radix c).isSome) = rest := by
    cases rest with
    | nil => exact ⟨rfl, rfl⟩
    | cons c rest =>
        have hc : ¬ (toDigit radix c).isSome = true := Bool.eq_false_iff.1 (hrest c rfl)
        exact ⟨List.takeWhile_cons_of_neg hc, List.dropWhile_cons_of_neg hc⟩
  have htake : (digits ++ rest).takeWhile (fun c => (toDigit radix c).isSome) = digits := by
    rw [List.takeWhile_append_of_pos hdigits, hstop.1, List.append_nil]
  have hdrop : (digits ++ rest).dropWhile (fun c => (toDigit radix c).isSome) = rest := by
    rw [List.dropWhile_append_of_pos hdigits, hstop.2]
  simp only [readNumber, htake, hdrop]
  exact if_pos ⟨hne, hlength, hlt⟩

/-! ## Bytes in decimal -/

/-- The decimal text of a byte, of three digits at most. -/
structure IsByteText (text : List Char) : Prop where
  ne_nil : text ≠ []
  length_le : text.length ≤ 3
  digits : ∀ c ∈ text, c.isDigit = true
  lt : Nat.ofDigitChars 10 text 0 < 256

theorem hexValue_of_isDigit {c : Char} (h : c.isDigit = true) : hexValue c = some (c.toNat - 48) :=
  if_pos h

theorem toNat_of_isDigit {c : Char} (h : c.isDigit = true) : 48 ≤ c.toNat ∧ c.toNat ≤ 57 := by
  simpa [Char.isDigit, UInt32.le_iff_toNat_le] using h

/-- The digits of base ten are the decimal ones. -/
theorem isSome_toDigit_ten (c : Char) : (toDigit 10 c).isSome = c.isDigit := by
  by_cases hdigit : c.isDigit = true
  · have hbounds := toNat_of_isDigit hdigit
    rw [toDigit, hexValue_of_isDigit hdigit, Option.filter_some, hdigit,
      if_pos (decide_eq_true (by omega)), Option.isSome_some]
  · rw [Bool.not_eq_true] at hdigit
    rw [hdigit, toDigit, hexValue, if_neg (Bool.not_eq_true _ ▸ hdigit)]
    split
    case isTrue hupper =>
      have hlow : 65 ≤ c.toNat := UInt32.le_iff_toNat_le.1 hupper.1
      rw [Option.filter_some, if_neg (by simp; omega), Option.isSome_none]
    case isFalse =>
      split
      case isTrue hlower =>
        have hlow : 97 ≤ c.toNat := UInt32.le_iff_toNat_le.1 hlower.1
        rw [Option.filter_some, if_neg (by simp; omega), Option.isSome_none]
      case isFalse => rfl

theorem digitsNumber_ten {digits : List Char} (h : ∀ c ∈ digits, c.isDigit = true) :
    digitsNumber 10 digits = Nat.ofDigitChars 10 digits 0 := by
  refine List.foldl_ext _ _ 0 fun number c hc => ?_
  rw [hexValue_of_isDigit (h c hc)]
  rfl

namespace IsByteText

variable {text : List Char}

/-- The text of a byte is read up to the character after it. -/
theorem readNumber (h : IsByteText text) {rest : List Char}
    (hrest : ∀ c ∈ rest.head?, c.isDigit = false) :
    readNumber 10 3 256 (text ++ rest) = some (Nat.ofDigitChars 10 text 0, rest) := by
  rw [readNumber_append h.ne_nil h.length_le (fun c hc => (isSome_toDigit_ten c).trans
      (h.digits c hc)) (digitsNumber_ten h.digits ▸ h.lt) fun c hc => (isSome_toDigit_ten c).trans
      (hrest c hc), digitsNumber_ten h.digits]

/-- The text of a byte is read as a number of eight bits. -/
theorem isSome_parseUnsigned (h : IsByteText text) :
    (RustStd.parseUnsigned 8 text).isSome = true := by
  have hvalue : RustStd.digitsValue text = some (Nat.ofDigitChars 10 text 0) :=
    if_pos ⟨h.ne_nil, List.all_eq_true.2 h.digits⟩
  have hlt : Nat.ofDigitChars 10 text 0 < 2 ^ 8 := h.lt
  rw [RustStd.parseUnsigned, hvalue, Option.filter_some, if_pos (decide_eq_true hlt)]
  · rfl
  · rintro digits rfl
    exact absurd (h.digits '+' List.mem_cons_self) (by decide)

end IsByteText

/-- Four bytes with dots between them are read. -/
theorem readIpv4Addr_bytes {a b c d : List Char} (ha : IsByteText a) (hb : IsByteText b)
    (hc : IsByteText c) (hd : IsByteText d) :
    readIpv4Addr (a ++ '.' :: (b ++ '.' :: (c ++ '.' :: d))) =
      some ([Nat.ofDigitChars 10 a 0, Nat.ofDigitChars 10 b 0, Nat.ofDigitChars 10 c 0,
        Nat.ofDigitChars 10 d 0], []) := by
  have hdot (text : List Char) : ∀ c ∈ ('.' :: text).head?, c.isDigit = false := by
    rintro c ⟨⟩
    rfl
  have hlast : readNumber 10 3 256 (d ++ []) = some (Nat.ofDigitChars 10 d 0, []) :=
    hd.readNumber fun c hc => by cases hc
  rw [List.append_nil] at hlast
  simp only [readIpv4Addr, ha.readNumber (hdot _), hb.readNumber (hdot _),
    hc.readNumber (hdot _), hlast, readGivenChar, if_pos, Option.bind_eq_bind, Option.bind_some,
    Option.pure_def]

/-- Four bytes with dots between them are the address of a host. -/
theorem isSome_ipv4 {a b c d : List Char} (ha : IsByteText a) (hb : IsByteText b)
    (hc : IsByteText c) (hd : IsByteText d) :
    (Ipv4Addr.fromStr (a ++ '.' :: (b ++ '.' :: (c ++ '.' :: d)))).isSome = true := by
  rw [Ipv4Addr.fromStr, readIpv4Addr_bytes ha hb hc hd]
  rfl

end Durs.Network
