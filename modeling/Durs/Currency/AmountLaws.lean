/-
# What operations on amounts stand for

An amount stands for its value.  Adding and subtracting respect the values, and the two orders are
that of the values, in some cases only: a division that drops a remainder, a subtraction that is
taken the other way round, and an order that does not look at the base first fail it.
-/

import Durs.Currency.Amounts

namespace Durs

namespace SourceAmount

variable {x y : SourceAmount}

/-! ## Machine integers -/

/-- Whether an integer is one of `isize`. -/
def InRange (a : Int) : Prop := -2 ^ 63 ≤ a ∧ a < 2 ^ 63

instance (a : Int) : Decidable (InRange a) := inferInstanceAs (Decidable (_ ∧ _))

theorem wrap_eq_self_iff {a : Int} : wrap a = a ↔ InRange a := by
  unfold wrap TxAmount InRange
  rw [Int.bmod_def]
  constructor
  · split
    all_goals omega
  · split
    all_goals omega

/-- The opposite of an integer is what the integer wraps to. -/
theorem wrap_eq_neg_iff {a : Int} : wrap a = -a ↔ a = 0 ∨ a = 2 ^ 63 := by
  unfold wrap TxAmount
  rw [Int.bmod_def]
  constructor
  · split
    all_goals omega
  · split
    all_goals omega

theorem natAbs_divideByTen_le (n : Nat) (a : Int) : (divideByTen n a).natAbs ≤ a.natAbs := by
  induction n generalizing a with
  | zero => exact Nat.le_refl _
  | succ n ih => exact Nat.le_trans (ih _) (Int.natAbs_tdiv_le_natAbs a 10)

/-- A machine integer that is divided by ten at least once is far from the ends of the range. -/
theorem divideByTen_far {a : Int} (h : InRange a) {n : Nat} (hn : 0 < n) :
    -2 ^ 60 < divideByTen n a ∧ divideByTen n a < 2 ^ 60 := by
  cases n with
  | zero => exact absurd hn (Nat.lt_irrefl 0)
  | succ n =>
      have hle : (divideByTen (n + 1) a).natAbs ≤ a.natAbs / 10 :=
        Nat.le_trans (natAbs_divideByTen_le n _) (Nat.le_of_eq (Int.natAbs_tdiv a 10))
      have hrange : a.natAbs ≤ 2 ^ 63 := by
        unfold InRange at h
        omega
      unfold TxAmount at *
      omega

theorem inRange_divideByTen {a : Int} (h : InRange a) (n : Nat) : InRange (divideByTen n a) := by
  cases n with
  | zero => exact h
  | succ n =>
      have hfar := divideByTen_far h (Nat.succ_pos n)
      exact ⟨Int.le_of_lt (Int.lt_trans (by decide) hfar.1), Int.lt_trans hfar.2 (by decide)⟩

/-- An integer is a multiple of a power of ten plus an amount that is divided by it exactly when
nothing is lost. -/
theorem mul_pow_eq_iff {k : Nat} {a r c : Int} :
    r * 10 ^ k = a + c * 10 ^ k ↔ (10 : Int) ^ k ∣ a ∧ r = divideByTen k a + c := by
  constructor
  · intro h
    have ha : a = (r - c) * 10 ^ k := by
      rw [Int.sub_mul]
      omega
    rw [ha, divideByTen_mul]
    exact ⟨⟨r - c, Int.mul_comm _ _⟩, by omega⟩
  · rintro ⟨⟨q, rfl⟩, rfl⟩
    rw [Int.mul_comm (10 ^ k) q, divideByTen_mul, Int.add_mul]

/-! ## Values -/

/-- Whether the two operations stand for the sum and for the difference of the values, and undo each
other. -/
structure ActsOnValues (x y : SourceAmount) : Prop where
  add : (x + y).value = x.value + y.value
  sub : (x - y).value = x.value - y.value
  add_sub : (x + y - y).value = x.value

/-- The first amount in the base of the second. -/
def raised (x y : SourceAmount) : Int := (x.raiseBase y.base).amount

theorem raised_of_base_eq (h : x.base = y.base) : x.raised y = x.amount := by
  rw [raised, raiseBase, h, Nat.sub_self]
  rfl

theorem raised_far (hx : InRange x.amount) (h : x.base < y.base) :
    -2 ^ 60 < x.raised y ∧ x.raised y < 2 ^ 60 := divideByTen_far hx (Nat.sub_pos_of_lt h)

/-- Whether nothing is lost: either the base of the first amount is not the larger one, its amount
is a multiple of the power of ten between the bases, and the sum and the difference are machine
integers; or nothing is subtracted from an amount that is its own opposite. -/
def LosesNothing (x y : SourceAmount) : Prop :=
  (x.base ≤ y.base ∧ (10 : Int) ^ (y.base - x.base) ∣ x.amount ∧
    InRange (x.raised y + y.amount) ∧ InRange (x.raised y - y.amount)) ∨
  (y.base < x.base ∧ y.amount = 0 ∧ (x.amount = 0 ∨ x.amount = -2 ^ 63))

theorem add_of_le (h : x.base ≤ y.base) :
    x + y = ⟨wrap (x.raised y + y.amount), y.base⟩ := by
  rw [add_eq, align, if_neg (Nat.not_lt.2 h)]
  rfl

theorem add_of_lt (h : y.base < x.base) :
    x + y = ⟨wrap (y.raised x + x.amount), x.base⟩ := by
  rw [add_eq, align, if_pos h]
  rfl

theorem sub_of_le (h : x.base ≤ y.base) :
    x - y = ⟨wrap (x.raised y - y.amount), y.base⟩ := by
  rw [sub_eq, align, if_neg (Nat.not_lt.2 h)]
  rfl

theorem sub_of_lt (h : y.base < x.base) :
    x - y = ⟨wrap (y.raised x - x.amount), x.base⟩ := by
  rw [sub_eq, align, if_pos h]
  rfl

/-- An amount in a larger base stands for the value of another and some more. -/
theorem mk_value_eq_iff {r c : Int} (h : x.base ≤ y.base) :
    (SourceAmount.mk r y.base).value = x.value + c * 10 ^ y.base ↔
      (10 : Int) ^ (y.base - x.base) ∣ x.amount ∧ r = x.raised y + c := by
  have hpow : (10 : Int) ^ y.base = 10 ^ (y.base - x.base) * 10 ^ x.base := by
    rw [← Int.pow_add, Nat.sub_add_cancel h]
  rw [raised, raiseBase, ← mul_pow_eq_iff, value, value, hpow, ← Int.mul_assoc, ← Int.mul_assoc,
    ← Int.add_mul]
  exact Int.mul_eq_mul_right_iff (Int.ne_of_gt (pow_ten_pos x.base))

theorem value_add_of_le_iff (h : x.base ≤ y.base) :
    (x + y).value = x.value + y.value ↔
      (10 : Int) ^ (y.base - x.base) ∣ x.amount ∧ InRange (x.raised y + y.amount) := by
  rw [add_of_le h, ← wrap_eq_self_iff]
  exact mk_value_eq_iff h

theorem value_sub_of_le_iff (h : x.base ≤ y.base) :
    (x - y).value = x.value - y.value ↔
      (10 : Int) ^ (y.base - x.base) ∣ x.amount ∧ InRange (x.raised y - y.amount) := by
  rw [sub_of_le h, ← wrap_eq_self_iff, Int.sub_eq_add_neg, Int.sub_eq_add_neg, value.eq_1 y,
    ← Int.neg_mul]
  exact mk_value_eq_iff h

theorem value_add_of_lt_iff (h : y.base < x.base) :
    (x + y).value = x.value + y.value ↔
      (10 : Int) ^ (x.base - y.base) ∣ y.amount ∧ InRange (y.raised x + x.amount) := by
  rw [add_of_lt h, ← wrap_eq_self_iff, Int.add_comm x.value]
  exact mk_value_eq_iff (Nat.le_of_lt h)

/-- The subtraction that is taken the other way round gives the opposite of the difference. -/
theorem value_sub_of_lt_iff (h : y.base < x.base) :
    (x - y).value = x.value - y.value ↔
      (10 : Int) ^ (x.base - y.base) ∣ y.amount ∧
        (y.raised x - x.amount = 0 ∨ y.raised x - x.amount = 2 ^ 63) := by
  have hopposite : (x - y).value = x.value - y.value ↔
      (SourceAmount.mk (-wrap (y.raised x - x.amount)) x.base).value =
        y.value + -x.amount * 10 ^ x.base := by
    rw [sub_of_lt h]
    show wrap (y.raised x - x.amount) * 10 ^ x.base = x.amount * 10 ^ x.base - y.value ↔
      -wrap (y.raised x - x.amount) * 10 ^ x.base = y.value + -x.amount * 10 ^ x.base
    rw [Int.neg_mul, Int.neg_mul]
    exact (by omega : ∀ w v v' : Int, w = v - v' ↔ -w = v' + -v) _ _ _
  rw [hopposite, mk_value_eq_iff (Nat.le_of_lt h), ← wrap_eq_neg_iff]
  refine and_congr_right fun _ => ?_
  unfold TxAmount at *
  omega

/-- What is added in the larger base and then taken away again. -/
theorem value_add_sub_of_le (hx : InRange x.amount) (h : x.base ≤ y.base)
    (hdvd : (10 : Int) ^ (y.base - x.base) ∣ x.amount) (hadd : InRange (x.raised y + y.amount)) :
    (x + y - y).value = x.value := by
  have hq : wrap (x.raised y) = x.raised y := wrap_eq_self_iff.2 (inRange_divideByTen hx _)
  have hsum : x + y = ⟨x.raised y + y.amount, y.base⟩ := by
    rw [add_of_le h, wrap_eq_self_iff.2 hadd]
  have hbase : (SourceAmount.mk (x.raised y + y.amount) y.base).base = y.base := rfl
  have hback : x + y - y = ⟨x.raised y, y.base⟩ := by
    rw [hsum, sub_of_le (Nat.le_of_eq hbase), raised_of_base_eq hbase, Int.add_sub_cancel, hq]
  rw [hback]
  have hvalue : (SourceAmount.mk (x.raised y) y.base).value = x.value + 0 * 10 ^ y.base :=
    (mk_value_eq_iff h).2 ⟨hdvd, (Int.add_zero _).symm⟩
  rw [hvalue, Int.zero_mul, Int.add_zero]

/-- What is added to an amount of a larger base and then taken away again leaves the opposite. -/
theorem add_sub_of_lt (h : y.base < x.base) : x + y - y = ⟨wrap (-x.amount), x.base⟩ := by
  have hlt : y.base < (SourceAmount.mk (wrap (y.raised x + x.amount)) x.base).base := h
  rw [add_of_lt h, sub_of_lt hlt]
  show SourceAmount.mk (wrap (y.raised x - wrap (y.raised x + x.amount))) x.base = _
  rw [wrap, wrap, Int.sub_bmod_bmod, ← Int.sub_sub, Int.sub_self, Int.zero_sub]
  rfl

theorem raised_zero (h : y.amount = 0) : y.raised x = 0 := by
  have hzero := divideByTen_mul (x.base - y.base) 0
  rw [Int.zero_mul] at hzero
  rw [raised, raiseBase, h, hzero]

/-- An amount that is divided by a power of ten without a remainder is zero when the quotient is. -/
theorem amount_eq_zero (hdvd : (10 : Int) ^ (x.base - y.base) ∣ y.amount)
    (h : y.raised x = 0) : y.amount = 0 := by
  have hmul : (0 : Int) * 10 ^ (x.base - y.base) = y.amount + 0 * 10 ^ (x.base - y.base) :=
    mul_pow_eq_iff.2 ⟨hdvd, h.symm.trans (Int.add_zero _).symm⟩
  rw [Int.zero_mul, Int.add_zero] at hmul
  exact hmul.symm

/-- The opposite of an integer wraps to the integer itself in two cases. -/
theorem wrap_neg_eq_iff {a : Int} : wrap (-a) = a ↔ a = 0 ∨ a = -2 ^ 63 := by
  have hneg := wrap_eq_neg_iff (a := -a)
  rw [Int.neg_neg] at hneg
  rw [hneg]
  omega

/-- Whether an amount comes back when another is added and taken away again: the bases are equal, or
the base of the other is smaller and the amount is its own opposite. -/
def ComesBack (x y : SourceAmount) : Prop :=
  y.base = x.base ∨ (y.base < x.base ∧ (x.amount = 0 ∨ x.amount = -2 ^ 63))

theorem add_sub_eq_self_iff (hx : InRange x.amount) : x + y - y = x ↔ ComesBack x y := by
  rcases Nat.lt_trichotomy y.base x.base with hlt | heq | hgt
  · have hiff : x + y - y = x ↔ wrap (-x.amount) = x.amount := by
      rw [add_sub_of_lt hlt]
      exact ⟨fun h => congrArg amount h, fun h => by rw [h]⟩
    rw [hiff, wrap_neg_eq_iff]
    exact ⟨fun h => .inr ⟨hlt, h⟩, fun h => (h.resolve_left (Nat.ne_of_lt hlt)).2⟩
  · have hsum : x + y = ⟨wrap (x.amount + y.amount), y.base⟩ := by
      rw [add_of_le (Nat.le_of_eq heq.symm), raised_of_base_eq heq.symm]
    have hbase : (SourceAmount.mk (wrap (x.amount + y.amount)) y.base).base = y.base := rfl
    have hback : x + y - y = x := by
      rw [hsum, sub_of_le (Nat.le_of_eq hbase), raised_of_base_eq hbase, heq]
      show SourceAmount.mk (wrap (wrap (x.amount + y.amount) - y.amount)) x.base = x
      rw [wrap, wrap, Int.bmod_sub_bmod, Int.add_sub_cancel]
      exact congrArg (mk · x.base) (wrap_eq_self_iff.2 hx)
    exact iff_of_true hback (.inl heq)
  · refine iff_of_false (fun h => ?_) fun h => ?_
    · have hle : (SourceAmount.mk (wrap (x.raised y + y.amount)) y.base).base ≤ y.base :=
        Nat.le_refl _
      have hbase : (x + y - y).base = y.base := by
        rw [add_of_le (Nat.le_of_lt hgt), sub_of_le hle]
      rw [h] at hbase
      exact absurd hbase (Nat.ne_of_lt hgt)
    · rcases h with heq | ⟨hlt, -⟩
      · exact absurd heq (Nat.ne_of_gt hgt)
      · exact absurd hlt (Nat.lt_asymm hgt)

/-- The operations stand for the sum and the difference of the values exactly when nothing is
lost. -/
theorem actsOnValues_iff (hx : InRange x.amount) (hy : InRange y.amount) :
    ActsOnValues x y ↔ LosesNothing x y := by
  rcases Nat.lt_or_ge y.base x.base with hlt | hle
  · constructor
    · intro h
      rcases (value_add_of_lt_iff hlt).1 h.add with ⟨hdvd, hadd⟩
      have hback : wrap (-x.amount) = x.amount := by
        have hvalue := h.add_sub
        rw [add_sub_of_lt hlt] at hvalue
        exact (Int.mul_eq_mul_right_iff (Int.ne_of_gt (pow_ten_pos x.base))).1 hvalue
      have hcases := (wrap_neg_eq_iff).1 hback
      have hfar := raised_far hy hlt
      have hzero : y.raised x = 0 := by
        have hsub := ((value_sub_of_lt_iff hlt).1 h.sub).2
        unfold TxAmount at *
        omega
      exact .inr ⟨hlt, amount_eq_zero hdvd hzero, hcases⟩
    · rintro (⟨hge, -⟩ | ⟨-, hy0, hx0⟩)
      · exact absurd hlt (Nat.not_lt.2 hge)
      · have hzero : y.raised x = 0 := raised_zero hy0
        have hdvd : (10 : Int) ^ (x.base - y.base) ∣ y.amount := hy0 ▸ Int.dvd_zero _
        have hadd : InRange (y.raised x + x.amount) := by
          rw [hzero, Int.zero_add]
          exact hx
        refine ⟨(value_add_of_lt_iff hlt).2 ⟨hdvd, hadd⟩,
          (value_sub_of_lt_iff hlt).2 ⟨hdvd, ?_⟩, ?_⟩
        · unfold TxAmount at *
          omega
        · rw [add_sub_of_lt hlt, (wrap_neg_eq_iff).2 hx0]
  · constructor
    · intro h
      rcases (value_add_of_le_iff hle).1 h.add with ⟨hdvd, hadd⟩
      exact .inl ⟨hle, hdvd, hadd, ((value_sub_of_le_iff hle).1 h.sub).2⟩
    · rintro (⟨-, hdvd, hadd, hsub⟩ | ⟨hlt, -⟩)
      · exact ⟨(value_add_of_le_iff hle).2 ⟨hdvd, hadd⟩, (value_sub_of_le_iff hle).2 ⟨hdvd, hsub⟩,
          value_add_sub_of_le hx hle hdvd hadd⟩
      · exact absurd hlt (Nat.not_lt.2 hle)

theorem actsOnValues_of_equal_bases : InRange 5 ∧ InRange 3 ∧ LosesNothing ⟨5, 1⟩ ⟨3, 1⟩ ∧
    ActsOnValues ⟨5, 1⟩ ⟨3, 1⟩ := by
  have h : LosesNothing ⟨5, 1⟩ ⟨3, 1⟩ := .inl (by decide +kernel)
  exact ⟨by decide, by decide, h, (actsOnValues_iff (by decide) (by decide)).2 h⟩

/-- Thirty taken from five tens is a debt of two tens. -/
theorem not_actsOnValues_of_larger_base : ¬ActsOnValues ⟨5, 1⟩ ⟨30, 0⟩ := fun h =>
  absurd h.sub (by decide +kernel)

/-! ## Orders -/

/-- Whether the operators, the hand-written comparison and the comparison of the values agree, and
the operators tell when a subtraction stays non-negative. -/
structure OrderedByValue (x y : SourceAmount) : Prop where
  operators : x.partialCmp y = compare x.value y.value
  cmp : x.cmp y = compare x.value y.value
  covers : x.ge y = true ↔ 0 ≤ (x - y).amount

/-- Whether the amounts are in the order of their bases.  In the larger base the difference of the
two, as the subtraction takes it, has the right sign. -/
def InOrderOfBases (x y : SourceAmount) : Prop :=
  (x.base = y.base ∧ InRange (x.amount - y.amount)) ∨
  (x.base < y.base ∧ x.amount ≤ y.amount ∧ x.raised y < y.amount ∧
    -2 ^ 63 ≤ x.raised y - y.amount) ∨
  (y.base < x.base ∧ y.amount ≤ x.amount ∧ y.value < x.value ∧
    (y.raised x = x.amount ∨ y.raised x - x.amount < -2 ^ 63))

theorem tdiv_tdiv (a : Int) (m n : Nat) : (a.tdiv m).tdiv n = a.tdiv (m * n) := by
  have hnat : ∀ i : Nat, ((i : Int).tdiv m).tdiv n = (i : Int).tdiv (m * n) := by
    intro i
    rw [← Int.natCast_mul, ← Int.ofNat_tdiv, ← Int.ofNat_tdiv, ← Int.ofNat_tdiv,
      Nat.div_div_eq_div_mul]
  rcases Int.eq_nat_or_neg a with ⟨i, rfl | rfl⟩
  · exact hnat i
  · rw [Int.neg_tdiv, Int.neg_tdiv, Int.neg_tdiv, hnat i]

theorem divideByTen_eq_tdiv (n : Nat) (a : Int) : divideByTen n a = a.tdiv (10 ^ n) := by
  induction n generalizing a with
  | zero => exact (Int.tdiv_one a).symm
  | succ n ih =>
      have hpow : (10 : Int) * 10 ^ n = ((10 : Nat) : Int) * ((10 ^ n : Nat) : Int) := by
        rw [Int.natCast_pow]
        rfl
      rw [divideByTen, ih, Int.pow_succ, Int.mul_comm, hpow, ← tdiv_tdiv, Int.natCast_pow]
      rfl

/-- The value of an amount and that of another, both counted in the base of the first. -/
theorem value_lt_iff (h : x.base ≤ y.base) :
    x.value < y.value ↔ x.amount < y.amount * 10 ^ (y.base - x.base) := by
  have hpow : (10 : Int) ^ y.base = 10 ^ (y.base - x.base) * 10 ^ x.base := by
    rw [← Int.pow_add, Nat.sub_add_cancel h]
  rw [value, value, hpow, ← Int.mul_assoc]
  exact Int.mul_lt_mul_right (pow_ten_pos x.base)

theorem value_lt_of_raised_lt (h : x.base ≤ y.base) (hlt : x.raised y < y.amount) :
    x.value < y.value := by
  rw [raised, raiseBase, divideByTen_eq_tdiv] at hlt
  exact (value_lt_iff h).2 (Int.lt_mul_of_tdiv_lt (pow_ten_pos _) hlt)

theorem raised_le_of_value_lt (h : x.base ≤ y.base) (hlt : x.value < y.value) :
    x.raised y ≤ y.amount := by
  have hpos := pow_ten_pos (y.base - x.base)
  have hle := Int.tdiv_le_tdiv hpos (Int.le_of_lt ((value_lt_iff h).1 hlt))
  rw [Int.mul_tdiv_cancel _ (Int.ne_of_gt hpos), ← divideByTen_eq_tdiv] at hle
  exact hle

theorem partialCmp_eq_lt_iff : x.partialCmp y = .lt ↔
    x.amount < y.amount ∨ (x.amount = y.amount ∧ x.base < y.base) := by
  rw [partialCmp, Ordering.then_eq_lt, compare_lt_iff_lt, compare_eq_iff_eq, compare_lt_iff_lt]

theorem partialCmp_eq_gt_iff : x.partialCmp y = .gt ↔
    y.amount < x.amount ∨ (x.amount = y.amount ∧ y.base < x.base) := by
  rw [partialCmp, Ordering.then_eq_gt, compare_gt_iff_gt, compare_eq_iff_eq, compare_gt_iff_gt]

/-- The operator is read off the derived comparison. -/
theorem ge_eq_true_iff : x.ge y = true ↔ x.partialCmp y ≠ .lt := by
  rw [Ne, partialCmp_eq_lt_iff, ge]
  simp only [Bool.or_eq_true, Bool.and_eq_true, decide_eq_true_eq]
  unfold TxAmount TxBase at *
  omega

theorem cmp_of_base_lt (h : x.base < y.base) : x.cmp y = .lt := by
  rw [cmp, if_neg (Nat.ne_of_lt h), compare_lt_iff_lt]
  exact h

theorem cmp_of_base_gt (h : y.base < x.base) : x.cmp y = .gt := by
  rw [cmp, if_neg (Nat.ne_of_gt h), compare_gt_iff_gt]
  exact h

theorem compare_value_of_base_eq (h : x.base = y.base) :
    compare x.value y.value = compare x.amount y.amount := by
  have hmul : ∀ o : Ordering, compare x.amount y.amount = o → compare x.value y.value = o := by
    intro o ho
    rw [compare_iff] at ho ⊢
    rw [value, value, h]
    cases o with
    | lt => exact Int.mul_lt_mul_of_pos_right ho (pow_ten_pos y.base)
    | eq => exact congrArg (· * 10 ^ y.base) ho
    | gt => exact Int.mul_lt_mul_of_pos_right ho (pow_ten_pos y.base)
  exact hmul _ rfl

/-- Where the difference of two machine integers wraps to a natural number. -/
theorem wrap_nonneg_iff {a : Int} (hlow : -2 ^ 64 < a) (hhigh : a < 2 ^ 64) :
    0 ≤ wrap a ↔ (0 ≤ a ∧ a < 2 ^ 63) ∨ a < -2 ^ 63 := by
  unfold wrap TxAmount
  rw [Int.bmod_def]
  split
  all_goals omega

theorem orderedByValue_of_base_eq_iff (hx : InRange x.amount) (hy : InRange y.amount)
    (h : x.base = y.base) : OrderedByValue x y ↔ InRange (x.amount - y.amount) := by
  have hvalue := compare_value_of_base_eq h
  have hcmp : x.cmp y = compare x.value y.value := by
    rw [cmp, if_pos h, hvalue]
  have hoperators : x.partialCmp y = compare x.value y.value := by
    rw [partialCmp, h, compare_eq_iff_eq.2 rfl, Ordering.then_eq, hvalue]
  have hsub : (x - y).amount = wrap (x.amount - y.amount) := by
    rw [sub_of_le (Nat.le_of_eq h), raised_of_base_eq h]
  have hcovers : (x.ge y = true ↔ 0 ≤ (x - y).amount) ↔ InRange (x.amount - y.amount) := by
    unfold InRange at hx hy ⊢
    rw [hsub, wrap_nonneg_iff (by omega) (by omega), ge_eq_true_iff, Ne, partialCmp_eq_lt_iff]
    unfold TxAmount TxBase at *
    constructor
    · intro hiff
      omega
    · intro hrange
      omega
  exact ⟨fun hall => hcovers.1 hall.covers, fun hrange => ⟨hoperators, hcmp, hcovers.2 hrange⟩⟩

theorem orderedByValue_of_base_lt_iff (hx : InRange x.amount) (hy : InRange y.amount)
    (h : x.base < y.base) : OrderedByValue x y ↔
      x.amount ≤ y.amount ∧ x.raised y < y.amount ∧ -2 ^ 63 ≤ x.raised y - y.amount := by
  have hle := Nat.le_of_lt h
  have hcmp := cmp_of_base_lt h
  have hfar := raised_far hx h
  have hsub : (x - y).amount = wrap (x.raised y - y.amount) := by
    rw [sub_of_le hle]
  unfold InRange at hy
  have hnonneg := wrap_nonneg_iff (a := x.raised y - y.amount) (by omega) (by omega)
  constructor
  · intro hall
    have hlt : x.value < y.value := compare_lt_iff_lt.1 (hall.cmp.symm.trans hcmp)
    have hamount := partialCmp_eq_lt_iff.1 (hall.operators.trans (compare_lt_iff_lt.2 hlt))
    have hneg : ¬0 ≤ (x - y).amount := fun hge =>
      ge_eq_true_iff.1 (hall.covers.2 hge) (partialCmp_eq_lt_iff.2 hamount)
    have hsmall := raised_le_of_value_lt hle hlt
    rw [hsub, hnonneg] at hneg
    unfold TxAmount TxBase at *
    omega
  · rintro ⟨hamount, hlt, hrange⟩
    have hvalue := value_lt_of_raised_lt hle hlt
    have hoperators : x.partialCmp y = .lt := by
      rw [partialCmp_eq_lt_iff]
      unfold TxAmount TxBase at *
      omega
    refine ⟨hoperators.trans (compare_lt_iff_lt.2 hvalue).symm,
      hcmp.trans (compare_lt_iff_lt.2 hvalue).symm, ?_⟩
    rw [ge_eq_true_iff, hsub, hnonneg]
    constructor
    · intro hge
      exact absurd hoperators hge
    · intro hge
      omega

theorem orderedByValue_of_base_gt_iff (hx : InRange x.amount) (hy : InRange y.amount)
    (h : y.base < x.base) : OrderedByValue x y ↔
      y.amount ≤ x.amount ∧ y.value < x.value ∧
        (y.raised x = x.amount ∨ y.raised x - x.amount < -2 ^ 63) := by
  have hcmp := cmp_of_base_gt h
  have hfar := raised_far hy h
  have hsub : (x - y).amount = wrap (y.raised x - x.amount) := by
    rw [sub_of_lt h]
  unfold InRange at hx
  have hnonneg := wrap_nonneg_iff (a := y.raised x - x.amount) (by omega) (by omega)
  constructor
  · intro hall
    have hlt : y.value < x.value := compare_gt_iff_gt.1 (hall.cmp.symm.trans hcmp)
    have hgt := hall.operators.trans (compare_gt_iff_gt.2 hlt)
    have hamount := partialCmp_eq_gt_iff.1 hgt
    have hge : 0 ≤ (x - y).amount := hall.covers.1 (ge_eq_true_iff.2 (by rw [hgt]; decide))
    have hsmall := raised_le_of_value_lt (Nat.le_of_lt h) hlt
    rw [hsub, hnonneg] at hge
    unfold TxAmount TxBase at *
    exact ⟨by omega, hlt, by omega⟩
  · rintro ⟨hamount, hlt, hdiff⟩
    have hgt : x.partialCmp y = .gt := by
      rw [partialCmp_eq_gt_iff]
      unfold TxAmount TxBase at *
      omega
    refine ⟨hgt.trans (compare_gt_iff_gt.2 hlt).symm, hcmp.trans (compare_gt_iff_gt.2 hlt).symm, ?_⟩
    rw [ge_eq_true_iff, hsub, hnonneg, hgt]
    constructor
    · intro _
      omega
    · intro _
      decide

/-- The orders agree and tell when a subtraction stays non-negative exactly for amounts in the order
of their bases. -/
theorem orderedByValue_iff (hx : InRange x.amount) (hy : InRange y.amount) :
    OrderedByValue x y ↔ InOrderOfBases x y := by
  unfold InOrderOfBases
  rcases Nat.lt_trichotomy x.base y.base with hlt | heq | hgt
  · rw [orderedByValue_of_base_lt_iff hx hy hlt]
    unfold TxAmount TxBase at *
    omega
  · rw [orderedByValue_of_base_eq_iff hx hy heq]
    unfold InRange TxAmount TxBase at *
    omega
  · rw [orderedByValue_of_base_gt_iff hx hy hgt]
    unfold TxAmount TxBase at *
    omega

theorem orderedByValue_of_equal_bases : InRange 5 ∧ InRange 3 ∧ InOrderOfBases ⟨5, 1⟩ ⟨3, 1⟩ ∧
    OrderedByValue ⟨5, 1⟩ ⟨3, 1⟩ := by
  have h : InOrderOfBases ⟨5, 1⟩ ⟨3, 1⟩ := .inl (by decide)
  exact ⟨by decide, by decide, h, (orderedByValue_iff (by decide) (by decide)).2 h⟩

/-- Five is above one in the operators, and one ten is above five in the other two orders. -/
theorem not_orderedByValue_of_larger_base : ¬OrderedByValue ⟨5, 0⟩ ⟨1, 1⟩ := fun h =>
  absurd h.operators (by decide)

end SourceAmount

end Durs
