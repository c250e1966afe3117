/-
# Floating-point numbers in decimal

Reading `f64` from decimal text and printing it.  A natural number of at most 53 bits is printed in
full, and a printed natural number is read as the number nearest to it.
-/

import Durs.RustStd.Float
import Durs.RustStd.ParseInt
import Mathlib.Data.List.TakeWhile

namespace RustStd

namespace Float64

/-! ## Reading -/

/-- The exponent of a decimal number: nothing, or a letter and an integer. -/
def parseExponent : List Char → Option ℤ
  | [] => some 0
  | c :: text =>
      if c = 'e' ∨ c = 'E' then
        match text with
        | '-' :: digits => (digitsValue digits).map fun n => -n
        | '+' :: digits => (digitsValue digits).map Int.ofNat
        | digits => (digitsValue digits).map Int.ofNat
      else none

/-- A decimal number without a sign: its digits, and the power of ten of the last of them. -/
def parseDecimal (text : List Char) : Option (ℕ × ℤ) :=
  let integral := text.takeWhile Char.isDigit
  let rest := text.dropWhile Char.isDigit
  let (fraction, rest) :=
    match rest with
    | '.' :: rest => (rest.takeWhile Char.isDigit, rest.dropWhile Char.isDigit)
    | rest => ([], rest)
  if integral = [] ∧ fraction = [] then none
  else (parseExponent rest).map fun exponent =>
    (Nat.ofDigitChars 10 (integral ++ fraction) 0, exponent - fraction.length)

/-- The value of some digits at a power of ten. -/
def decimal (digits : ℕ) (exponent : ℤ) : ℚ := digits * 10 ^ exponent

theorem decimal_nonneg (digits : ℕ) (exponent : ℤ) : 0 ≤ decimal digits exponent := by
  unfold decimal
  positivity

/-- The sign of a number, and what follows it. -/
def splitSign : List Char → Bool × List Char
  | '-' :: text => (true, text)
  | '+' :: text => (false, text)
  | text => (false, text)

/-- `str::parse` for `f64`, on the texts of decimal numbers. -/
def parse (text : List Char) : Option Float64 :=
  (parseDecimal (splitSign text).2).map fun number =>
    nearest (splitSign text).1 (decimal number.1 number.2) (decimal_nonneg _ _)

/-! ## Printing -/

/-- The decimal of so many digits that is nearest to a magnitude. -/
def decimalAt (q : ℚ) (count : ℕ) : ℕ × ℤ :=
  let exponent := Int.log 10 q + 1 - count
  (⌊q / 10 ^ exponent + 1 / 2⌋₊, exponent)

/-- The first decimal of at least so many digits that is read as a magnitude. -/
def shortestFrom (q : ℚ) : ℕ → ℕ → ℕ × ℤ
  | 0, count => decimalAt q count
  | fuel + 1, count =>
      if roundDouble (decimal (decimalAt q count).1 (decimalAt q count).2) = q then
        decimalAt q count
      else shortestFrom q fuel (count + 1)

/-- The shortest decimal that is read as a magnitude; 17 digits are enough for any. -/
def shortest (q : ℚ) : ℕ × ℤ := shortestFrom q 16 1

/-- Digits with a point or with zeros, without an exponent. -/
def layout (digits : List Char) (exponent : ℤ) : List Char :=
  if 0 ≤ exponent then digits ++ List.replicate exponent.toNat '0'
  else
    let decimals := exponent.natAbs
    if decimals < digits.length then
      digits.take (digits.length - decimals) ++ '.' :: digits.drop (digits.length - decimals)
    else '0' :: '.' :: List.replicate (decimals - digits.length) '0' ++ digits

/-- `Display`. -/
def display : Float64 → List Char
  | finite negative q _ =>
      let (digits, exponent) := shortest q
      (if negative then ['-'] else []) ++ layout (Nat.toDigits 10 digits) exponent
  | infinite negative => (if negative then ['-'] else []) ++ "inf".toList
  | nan => "NaN".toList

/-! ## Natural numbers -/

/-- A decimal that is found has no more digits than one that is read as the magnitude. -/
theorem exists_of_shortestFrom {q : ℚ} {count' : ℕ}
    (hread : roundDouble (decimal (decimalAt q count').1 (decimalAt q count').2) = q)
    {fuel count : ℕ} (hle : count ≤ count') (hfuel : count' ≤ count + fuel) :
    ∃ found ≤ count', shortestFrom q fuel count = decimalAt q found ∧
      roundDouble (decimal (decimalAt q found).1 (decimalAt q found).2) = q := by
  induction fuel generalizing count with
  | zero =>
      obtain rfl := Nat.le_antisymm hle hfuel
      exact ⟨count, hle, rfl, hread⟩
  | succ fuel ih =>
      rw [shortestFrom]
      split
      case isTrue hfound => exact ⟨count, hle, rfl, hfound⟩
      case isFalse hnot =>
        have hne : count ≠ count' := by
          rintro rfl
          exact hnot hread
        exact ih (by omega) (by omega)

/-- Below 53 bits, only a number itself is rounded to it. -/
theorem eq_of_roundDouble_natCast {n n' : ℕ} (hn : n < 2 ^ 53)
    (h : roundDouble (n' : ℚ) = n) : n' = n := by
  rcases Nat.lt_or_ge n' (2 ^ 53) with hlt | hge
  · rw [roundDouble_of_isDouble (isDouble_of_lt hlt)] at h
    exact_mod_cast h
  · have hpos : (0 : ℚ) < n' := by exact_mod_cast lt_of_lt_of_le (by norm_num) hge
    have hlog : 53 ≤ Int.log 2 (n' : ℚ) := by
      refine (Int.zpow_le_iff_le_log (b := 2) (by decide) hpos).1 ?_
      exact_mod_cast hge
    have hround := zpow_log_le_roundDouble hpos (by omega)
    have hbits : (2 : ℚ) ^ (53 : ℤ) ≤ 2 ^ Int.log 2 (n' : ℚ) :=
      zpow_le_zpow_right₀ (by norm_num) hlog
    rw [h] at hround
    have hle : (2 : ℚ) ^ (53 : ℤ) ≤ n := le_trans hbits hround
    have hle' : 2 ^ 53 ≤ n := by exact_mod_cast hle
    omega

/-- The digits of a number and zeros are the digits of a multiple by a power of ten. -/
theorem toDigits_mul_pow {n : ℕ} (hn : 0 < n) (k : ℕ) :
    Nat.toDigits 10 (n * 10 ^ k) = Nat.toDigits 10 n ++ List.replicate k '0' := by
  induction k with
  | zero => rw [pow_zero, mul_one, List.replicate_zero, List.append_nil]
  | succ k ih =>
      have hstep : n * 10 ^ (k + 1) = 10 * (n * 10 ^ k) + 0 := by
        rw [pow_succ, add_zero, mul_comm 10, mul_assoc]
      rw [hstep, ← Nat.toDigits_append_toDigits (by decide) (by positivity) (by decide), ih,
        List.append_assoc, List.replicate_succ']
      rfl

/-- The shortest decimal of a natural number of 53 bits is the number. -/
theorem shortest_natCast {n : ℕ} (hpos : 0 < n) (hn : n < 2 ^ 53) :
    ∃ digits k : ℕ, shortest n = (digits, (k : ℤ)) ∧ n = digits * 10 ^ k := by
  have hlog : Int.log 10 (n : ℚ) = Nat.log 10 n := Int.log_natCast 10 n
  have hcount : Nat.log 10 n < 16 := Nat.log_lt_of_lt_pow hpos.ne' (lt_trans hn (by norm_num))
  have hexp (count : ℕ) (hle : count ≤ Nat.log 10 n + 1) :
      (decimalAt n count).2 = (Nat.log 10 n + 1 - count : ℕ) := by
    rw [decimalAt, hlog]
    omega
  have hfull : roundDouble (decimal (decimalAt n (Nat.log 10 n + 1)).1
      (decimalAt n (Nat.log 10 n + 1)).2) = n := by
    have hdigits : (decimalAt n (Nat.log 10 n + 1)).1 = n := by
      have hzero : Int.log 10 (n : ℚ) + 1 - ((Nat.log 10 n + 1 : ℕ) : ℤ) = 0 := by omega
      rw [decimalAt, hzero, zpow_zero, div_one]
      have hhalf : ⌊(1 / 2 : ℚ)⌋₊ = 0 := by norm_num
      rw [add_comm, Nat.floor_add_natCast (by norm_num), hhalf, zero_add]
    rw [hexp _ (le_refl _), hdigits, Nat.sub_self, decimal, Nat.cast_zero, zpow_zero, mul_one]
    exact roundDouble_of_isDouble (isDouble_of_lt hn)
  rcases exists_of_shortestFrom hfull (show 1 ≤ Nat.log 10 n + 1 by omega)
    (show Nat.log 10 n + 1 ≤ 1 + 16 by omega) with ⟨count, hle, hshortest, hread⟩
  refine ⟨(decimalAt n count).1, Nat.log 10 n + 1 - count, ?_, ?_⟩
  · rw [shortest, hshortest, ← hexp count hle]
  · rw [hexp count hle, decimal, zpow_natCast] at hread
    refine (eq_of_roundDouble_natCast hn ?_).symm
    push_cast
    exact hread

theorem layout_natCast (digits : List Char) (k : ℕ) :
    layout digits k = digits ++ List.replicate k '0' := if_pos (Int.natCast_nonneg k)

/-- A natural number of at most 53 bits is printed in full. -/
theorem layout_shortest {n : ℕ} (hn : n ≤ 2 ^ 53) :
    layout (Nat.toDigits 10 (shortest n).1) (shortest n).2 = (toString n).toList := by
  have htext : (toString n).toList = Nat.toDigits 10 n := Nat.toList_repr
  rw [htext]
  rcases Nat.eq_zero_or_pos n with rfl | hpos
  · have hzero : shortest ((0 : ℕ) : ℚ) = (0, 0) := by decide +kernel
    rw [hzero]
    rfl
  rcases Nat.lt_or_eq_of_le hn with hlt | rfl
  · rcases shortest_natCast hpos hlt with ⟨digits, k, hshortest, hvalue⟩
    have hdigits : 0 < digits := Nat.pos_of_mul_pos_right (hvalue ▸ hpos)
    rw [hshortest, layout_natCast, ← toDigits_mul_pow hdigits k, ← hvalue]
  · have hbound : shortest ((2 ^ 53 : ℕ) : ℚ) = (9007199254740992, 0) := by decide +kernel
    rw [hbound]
    decide +kernel

theorem display_natCast {n : ℕ} (hn : n ≤ 2 ^ 53) (negative : Bool) (h : IsDouble n) :
    (finite negative n h).display =
      (if negative then ['-'] else []) ++ (toString n).toList := by
  rw [← layout_shortest hn]
  rfl

theorem parseDecimal_natCast (n : ℕ) : parseDecimal (toString n).toList = some (n, 0) := by
  have hdigits : ∀ c ∈ (toString n).toList, c.isDigit = true := fun _ => isDigit_of_mem_toString
  have htake : (toString n).toList.takeWhile Char.isDigit = (toString n).toList :=
    List.takeWhile_eq_self_iff.2 hdigits
  have hdrop : (toString n).toList.dropWhile Char.isDigit = [] :=
    List.dropWhile_eq_nil_iff.2 hdigits
  have hvalue := digitsValue_toString n
  rw [digitsValue] at hvalue
  split at hvalue
  case isFalse => cases hvalue
  case isTrue hne =>
    simp only [parseDecimal, htake, hdrop, hne.1, false_and, if_false, List.append_nil]
    rw [Option.some.inj hvalue]
    rfl

theorem splitSign_natCast (n : ℕ) (negative : Bool) :
    splitSign ((if negative then ['-'] else []) ++ (toString n).toList) =
      (negative, (toString n).toList) := by
  cases negative with
  | true => rfl
  | false =>
      have hsign {c : Char} (hc : c.isDigit = false) (text : List Char) :
          (toString n).toList ≠ c :: text := by
        intro heq
        rw [isDigit_of_mem_toString (heq ▸ List.mem_cons_self)] at hc
        cases hc
      show splitSign (toString n).toList = _
      rw [splitSign]
      · exact fun text heq => hsign (by decide) text heq
      · exact fun text heq => hsign (by decide) text heq

/-- A natural number is read from what it prints as the number nearest to it. -/
theorem parse_natCast (n : ℕ) (negative : Bool) :
    parse ((if negative then ['-'] else []) ++ (toString n).toList) =
      some (nearest negative n (natCast_nonneg n)) := by
  have hnumber : decimal n 0 = n := by rw [decimal, zpow_zero, mul_one]
  simp only [parse, splitSign_natCast, parseDecimal_natCast, Option.map_some, hnumber]

end Float64

end RustStd
