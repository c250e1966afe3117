/-
# Amounts in different bases

An amount counts units of a power of ten.  Amounts are added and subtracted in the larger of two
bases, and what does not divide is lost.  Nothing is lost among amounts that fit one common base.
-/

import Durs.Dal.Entities
import Mathlib.Algebra.Order.Ring.Int

namespace Durs

namespace SourceAmount

variable {s s' : SourceAmount} {base : TxBase}

/-- What an amount is worth in base zero. -/
def value (s : SourceAmount) : Int := s.amount * 10 ^ s.base

/-- An amount that can be written in a base without a loss: it is not negative, its own base is not
above, and its value is a multiple of the power of ten of the base. -/
structure Fits (base : TxBase) (s : SourceAmount) : Prop where
  base_le : s.base ≤ base
  nonneg : 0 ≤ s.amount
  dvd : (10 : Int) ^ base ∣ s.value

instance (base : TxBase) (s : SourceAmount) : Decidable (s.Fits base) :=
  decidable_of_iff (s.base ≤ base ∧ 0 ≤ s.amount ∧ (10 : Int) ^ base ∣ s.value)
    ⟨fun h => ⟨h.1, h.2.1, h.2.2⟩, fun h => ⟨h.base_le, h.nonneg, h.dvd⟩⟩

theorem value_default : (default : SourceAmount).value = 0 := rfl

theorem fits_default (base : TxBase) : (default : SourceAmount).Fits base where
  base_le := Nat.zero_le base
  nonneg := Int.le_refl 0
  dvd := Int.dvd_zero _

theorem pow_ten_pos (n : Nat) : (0 : Int) < 10 ^ n := Int.pow_pos (by decide)

theorem value_nonneg_iff : 0 ≤ s.value ↔ 0 ≤ s.amount :=
  mul_nonneg_iff_of_pos_right (pow_ten_pos s.base)

/-- An amount is at most its value. -/
theorem amount_le_value (h : 0 ≤ s.amount) : s.amount ≤ s.value := by
  have hone : (1 : Int) ≤ 10 ^ s.base := Int.add_one_le_of_lt (pow_ten_pos _)
  calc
    s.amount = s.amount * 1 := (Int.mul_one _).symm
    _ ≤ s.amount * 10 ^ s.base := Int.mul_le_mul_of_nonneg_left hone h

/-- What fits a base fits every smaller one that is not below its own. -/
theorem Fits.of_le (h : s.Fits base) {b : TxBase} (hle : s.base ≤ b) (hb : b ≤ base) :
    s.Fits b where
  base_le := hle
  nonneg := h.nonneg
  dvd := Int.dvd_trans (pow_dvd_pow 10 hb) h.dvd

/-- Dividing by ten loses nothing when the amount is a multiple of the power of ten. -/
theorem divideByTen_mul (n : Nat) (a : Int) : divideByTen n (a * 10 ^ n) = a := by
  induction n generalizing a with
  | zero => rw [divideByTen, Int.pow_zero, Int.mul_one]
  | succ n ih =>
      rw [divideByTen, Int.pow_succ, ← Int.mul_assoc, Int.mul_tdiv_cancel _ (by decide), ih]

/-- Raising an amount to a base it fits keeps its value. -/
theorem Fits.raiseBase {b : TxBase} (h : s.Fits b) :
    (s.raiseBase b).amount * 10 ^ b = s.value := by
  have hpow : (10 : Int) ^ b = 10 ^ (b - s.base) * 10 ^ s.base := by
    rw [← Int.pow_add, Nat.sub_add_cancel h.base_le]
  have hdvd : (10 : Int) ^ (b - s.base) ∣ s.amount := by
    have hvalue := h.dvd
    rw [hpow, value] at hvalue
    exact Int.dvd_of_mul_dvd_mul_right (Int.ne_of_gt (pow_ten_pos s.base)) hvalue
  rcases hdvd with ⟨q, hq⟩
  have hraised : (s.raiseBase b).amount = q := by
    rw [SourceAmount.raiseBase, hq, Int.mul_comm]
    exact divideByTen_mul _ _
  rw [hraised, hpow, value, hq, ← Int.mul_assoc, Int.mul_comm q]

/-- Nothing wraps within the range of the machine integers. -/
theorem wrap_eq {a : Int} (hnonneg : 0 ≤ a) (hrange : a < 2 ^ 63) : wrap a = a :=
  Int.bmod_eq_of_le (by omega) (by omega)

/-- A machine amount in a base, when its value is known to be in the range. -/
theorem value_wrap {a v : Int} {b : TxBase} (hv : a * 10 ^ b = v) (hnonneg : 0 ≤ v)
    (hrange : v < 2 ^ 63) :
    0 ≤ (SourceAmount.mk (wrap a) b).amount ∧ (SourceAmount.mk (wrap a) b).value = v := by
  have ha : 0 ≤ a := (value_nonneg_iff (s := ⟨a, b⟩)).1 (le_of_le_of_eq hnonneg hv.symm)
  have hle : a ≤ v := le_of_le_of_eq (amount_le_value (s := ⟨a, b⟩) ha) hv
  rw [wrap_eq ha (Int.lt_of_le_of_lt hle hrange)]
  exact ⟨ha, hv⟩

theorem add_eq (s s' : SourceAmount) : s + s' =
    ⟨wrap ((s.align s').1.amount + (s.align s').2.amount), (s.align s').2.base⟩ := rfl

theorem sub_eq (s s' : SourceAmount) : s - s' =
    ⟨wrap ((s.align s').1.amount - (s.align s').2.amount), (s.align s').2.base⟩ := rfl

/-- Adding amounts that fit one base loses nothing. -/
theorem Fits.add (h : s.Fits base) (h' : s'.Fits base) (hrange : s.value + s'.value < 2 ^ 63) :
    (s + s').Fits base ∧ (s + s').value = s.value + s'.value := by
  have hnonneg : 0 ≤ s.value + s'.value :=
    Int.add_nonneg (value_nonneg_iff.2 h.nonneg) (value_nonneg_iff.2 h'.nonneg)
  have hdvd := Int.dvd_add h.dvd h'.dvd
  by_cases hbase : s.base > s'.base
  · have hadd : s + s' = ⟨wrap ((s'.raiseBase s.base).amount + s.amount), s.base⟩ := by
      rw [add_eq, align, if_pos hbase]
    have hraised := (h'.of_le (Nat.le_of_lt hbase) h.base_le).raiseBase
    have hvalue : ((s'.raiseBase s.base).amount + s.amount) * 10 ^ s.base = s.value + s'.value := by
      rw [Int.add_mul, hraised, Int.add_comm]
      rfl
    rcases value_wrap hvalue hnonneg hrange with ⟨hamount, hsum⟩
    rw [hadd]
    exact ⟨⟨h.base_le, hamount, hsum ▸ hdvd⟩, hsum⟩
  · have hadd : s + s' = ⟨wrap ((s.raiseBase s'.base).amount + s'.amount), s'.base⟩ := by
      rw [add_eq, align, if_neg hbase]
    have hraised := (h.of_le (Nat.le_of_not_lt hbase) h'.base_le).raiseBase
    have hvalue : ((s.raiseBase s'.base).amount + s'.amount) * 10 ^ s'.base =
        s.value + s'.value := by
      rw [Int.add_mul, hraised, value, value]
    rcases value_wrap hvalue hnonneg hrange with ⟨hamount, hsum⟩
    rw [hadd]
    exact ⟨⟨h'.base_le, hamount, hsum ▸ hdvd⟩, hsum⟩

/-- Subtracting an amount of a base that is not smaller loses nothing. -/
theorem Fits.sub (h : s.Fits base) (h' : s'.Fits base) (hbase : s.base ≤ s'.base)
    (hle : s'.value ≤ s.value) (hrange : s.value < 2 ^ 63) :
    (s - s').Fits base ∧ (s - s').value = s.value - s'.value := by
  have hnonneg' : 0 ≤ s'.value := value_nonneg_iff.2 h'.nonneg
  have hsub : s - s' = ⟨wrap ((s.raiseBase s'.base).amount - s'.amount), s'.base⟩ := by
    rw [sub_eq, align, if_neg (Nat.not_lt.2 hbase)]
  have hraised := (h.of_le hbase h'.base_le).raiseBase
  have hvalue : ((s.raiseBase s'.base).amount - s'.amount) * 10 ^ s'.base =
      s.value - s'.value := by
    rw [Int.sub_mul, hraised, value, value]
  rcases value_wrap hvalue (by omega) (by omega) with ⟨hamount, hdiff⟩
  rw [hsub]
  exact ⟨⟨h'.base_le, hamount, hdiff ▸ Int.dvd_sub h.dvd h'.dvd⟩, hdiff⟩

/-! ## Sums of amounts -/

/-- The value of a list of amounts. -/
def totalValue (amounts : List SourceAmount) : Int := (amounts.map value).sum

@[simp] theorem totalValue_nil : totalValue [] = 0 := rfl

@[simp]
theorem totalValue_cons (s : SourceAmount) (amounts : List SourceAmount) :
    totalValue (s :: amounts) = s.value + totalValue amounts := List.sum_cons

theorem totalValue_nonneg {amounts : List SourceAmount} (h : ∀ s ∈ amounts, s.Fits base) :
    0 ≤ totalValue amounts := by
  induction amounts with
  | nil => exact Int.le_refl 0
  | cons s amounts ih =>
      rw [totalValue_cons]
      exact Int.add_nonneg (value_nonneg_iff.2 (h s List.mem_cons_self).nonneg)
        (ih fun t ht => h t (List.mem_cons_of_mem _ ht))

/-- Adding amounts one after the other loses nothing when all of them fit one base. -/
theorem Fits.foldl_add (h : s.Fits base) {amounts : List SourceAmount}
    (hfits : ∀ t ∈ amounts, t.Fits base) (hrange : s.value + totalValue amounts < 2 ^ 63) :
    (amounts.foldl (· + ·) s).Fits base ∧
      (amounts.foldl (· + ·) s).value = s.value + totalValue amounts := by
  induction amounts generalizing s with
  | nil => exact ⟨h, (Int.add_zero _).symm⟩
  | cons t amounts ih =>
      have hrest : ∀ r ∈ amounts, r.Fits base := fun r hr => hfits r (List.mem_cons_of_mem _ hr)
      have hnonneg := totalValue_nonneg hrest
      rw [totalValue_cons] at hrange ⊢
      rcases h.add (hfits t List.mem_cons_self) (by omega) with ⟨hfirst, hvalue⟩
      rcases ih hfirst hrest (by omega) with ⟨hfold, hsum⟩
      exact ⟨hfold, by rw [List.foldl_cons, hsum, hvalue, Int.add_assoc]⟩

/-- Amounts that can be added without a loss: all of them fit the largest of their bases. -/
def FitTogether (amounts : List SourceAmount) : Prop :=
  ∀ s ∈ amounts, s.Fits ((amounts.map SourceAmount.base).foldl max 0)

instance (amounts : List SourceAmount) : Decidable (FitTogether amounts) :=
  inferInstanceAs (Decidable (∀ s ∈ amounts, _))

end SourceAmount

end Durs
