/-
# Sweeping a growing list of dates

Dates arrive in order, and with each of them a bound, which is not above it.  A cursor passes the
dates below the bound; what it passes at each arrival are consecutive intervals, and a date is
passed at the first arrival whose bound exceeds it.
-/

import Mathlib.Data.List.Basic
import Mathlib.Data.List.Pairwise
import Mathlib.Order.Lattice

namespace Lib

universe u

variable {α : Type u} [LinearOrder α] {dates more : List α} {bound bound' : α} {k k' n : Nat}

/-! ## A cursor -/

/-- The dates below a bound are those before the cursor. -/
structure IsCursor (dates : List α) (bound : α) (k : Nat) : Prop where
  le_length : k ≤ dates.length
  below : ∀ i, (h : i < dates.length) → i < k → dates[i] < bound
  above : ∀ i, (h : i < dates.length) → k ≤ i → bound ≤ dates[i]

namespace IsCursor

theorem lt_iff (hcursor : IsCursor dates bound k) (h : n < dates.length) :
    n < k ↔ dates[n] < bound := by
  constructor
  · exact hcursor.below n h
  · intro hlt
    by_contra hle
    exact absurd hlt (not_lt.2 (hcursor.above n h (Nat.le_of_not_lt hle)))

/-- Dates that are not below the bound do not move the cursor. -/
theorem append (hcursor : IsCursor dates bound k) (hmore : ∀ date ∈ more, bound ≤ date) :
    IsCursor (dates ++ more) bound k where
  le_length := by
    rw [List.length_append]
    exact Nat.le_trans hcursor.le_length (Nat.le_add_right _ _)
  below i h hlt := by
    have hi : i < dates.length := Nat.lt_of_lt_of_le hlt hcursor.le_length
    rw [List.getElem_append_left hi]
    exact hcursor.below i hi hlt
  above i h hle := by
    rcases Nat.lt_or_ge i dates.length with hi | hi
    · rw [List.getElem_append_left hi]
      exact hcursor.above i hi hle
    · rw [List.getElem_append_right hi]
      exact hmore _ (List.getElem_mem _)

/-- A higher bound moves the cursor forward. -/
theorem mono (hcursor : IsCursor dates bound k) (hcursor' : IsCursor dates bound' k')
    (hle : bound ≤ bound') : k ≤ k' := by
  by_contra hlt
  have hk' : k' < dates.length := Nat.lt_of_lt_of_le (Nat.lt_of_not_le hlt) hcursor.le_length
  have hbelow := hcursor.below k' hk' (Nat.lt_of_not_le hlt)
  exact absurd (lt_of_lt_of_le hbelow hle) (not_lt.2 (hcursor'.above k' hk' (Nat.le_refl k')))

end IsCursor

/-- In a list of dates in order the cursor is the number of dates below the bound. -/
theorem isCursor_countP (hsorted : dates.Pairwise (· ≤ ·)) (bound : α) :
    IsCursor dates bound (dates.countP (· < bound)) := by
  induction dates with
  | nil =>
      exact
        { le_length := Nat.le_refl 0
          below := fun i h => absurd h (Nat.not_lt_zero i)
          above := fun i h => absurd h (Nat.not_lt_zero i) }
  | cons date dates ih =>
      rw [List.pairwise_cons] at hsorted
      have hcursor := ih hsorted.2
      by_cases hlt : date < bound
      · rw [List.countP_cons_of_pos (by simpa using hlt)]
        refine ⟨Nat.succ_le_succ hcursor.le_length, ?_, ?_⟩
        · intro i h hi
          cases i with
          | zero => exact hlt
          | succ i => exact hcursor.below i (Nat.lt_of_succ_lt_succ h) (Nat.lt_of_succ_lt_succ hi)
        · intro i h hi
          cases i with
          | zero => exact absurd hi (Nat.not_succ_le_zero _)
          | succ i => exact hcursor.above i (Nat.lt_of_succ_lt_succ h) (Nat.le_of_succ_le_succ hi)
      · have hzero : (date :: dates).countP (· < bound) = 0 := by
          rw [List.countP_eq_zero]
          intro d hd
          rcases List.mem_cons.1 hd with rfl | hd
          · simpa using hlt
          · simpa using le_trans (not_lt.1 hlt) (hsorted.1 d hd)
        rw [hzero]
        refine ⟨Nat.zero_le _, fun i h hi => absurd hi (Nat.not_lt_zero i), ?_⟩
        intro i h _
        cases i with
        | zero => exact not_lt.1 hlt
        | succ i => exact le_trans (not_lt.1 hlt) (hsorted.1 _ (List.getElem_mem _))

/-! ## A sweep -/

variable {bounds : α → α} {cursor : Nat → Nat} {m : Nat}

/-- The cursor after each arrival, when each date comes with its bound. -/
structure Sweep (dates : List α) (bounds : α → α) (cursor : Nat → Nat) : Prop where
  zero : cursor 0 = 0
  succ : ∀ m, (h : m < dates.length) →
    IsCursor (dates.take (m + 1)) (bounds dates[m]) (cursor (m + 1))

theorem exists_sweep (hsorted : dates.Pairwise (· ≤ ·)) (bounds : α → α) :
    ∃ cursor, Sweep dates bounds cursor := by
  refine ⟨fun m => (dates.take m).countP fun date => date < (dates[m - 1]?).elim date bounds,
    List.countP_nil, ?_⟩
  intro m h
  rw [Nat.add_sub_cancel, List.getElem?_eq_getElem h]
  exact isCursor_countP (hsorted.sublist (List.take_sublist _ _)) _

namespace Sweep

/-- The cursor after the arrival of the date that follows some others. -/
theorem next {date : α} (hsweep : Sweep (dates ++ date :: more) bounds cursor) :
    IsCursor (dates ++ [date]) (bounds date) (cursor (dates.length + 1)) := by
  have hm : dates.length < (dates ++ date :: more).length := by
    rw [List.length_append, List.length_cons]
    exact Nat.lt_add_of_pos_right (Nat.succ_pos _)
  have hcursor := hsweep.succ dates.length hm
  have hdate : (dates ++ date :: more)[dates.length] = date :=
    List.getElem_of_append rfl rfl
  rw [hdate, List.take_length_add_append, List.take_succ_cons, List.take_zero] at hcursor
  exact hcursor

/-- At an arrival the cursor has not passed the date that arrives. -/
theorem succ_le (hsweep : Sweep dates bounds cursor) (hbounds : ∀ date ∈ dates, bounds date ≤ date)
    (hm : m < dates.length) : cursor (m + 1) ≤ m := by
  by_contra hlt
  have hlen : m < (dates.take (m + 1)).length := by
    rw [List.length_take, Nat.min_eq_left hm]
    exact Nat.lt_succ_self m
  have hbelow := (hsweep.succ m hm).below m hlen (Nat.lt_of_not_le hlt)
  rw [List.getElem_take] at hbelow
  exact absurd hbelow (not_lt.2 (hbounds _ (List.getElem_mem hm)))

variable (hmono : Monotone bounds) (hsorted : dates.Pairwise (· ≤ ·))
  (hbounds : ∀ date ∈ dates, bounds date ≤ date)
include hmono hsorted hbounds

/-- An arrival never moves the cursor back. -/
theorem mono (hsweep : Sweep dates bounds cursor) (hm : m < dates.length) :
    cursor m ≤ cursor (m + 1) := by
  cases m with
  | zero =>
      rw [hsweep.zero]
      exact Nat.zero_le _
  | succ m =>
      have hm' : m < dates.length := Nat.lt_of_succ_lt hm
      have hle : dates[m] ≤ dates[m + 1] :=
        List.pairwise_iff_getElem.1 hsorted m (m + 1) hm' hm (Nat.lt_succ_self m)
      have hprev : IsCursor (dates.take (m + 1 + 1)) (bounds dates[m]) (cursor (m + 1)) := by
        rw [List.take_succ_eq_append_getElem hm]
        refine (hsweep.succ m hm').append ?_
        intro date hdate
        rw [List.mem_singleton.1 hdate]
        exact le_trans (hbounds _ (List.getElem_mem hm')) hle
      exact hprev.mono (hsweep.succ (m + 1) hm) (hmono hle)

theorem le_of_le (hsweep : Sweep dates bounds cursor) {i : Nat} (hi : i ≤ m)
    (hm : m ≤ dates.length) : cursor i ≤ cursor m := by
  induction hi with
  | refl => exact Nat.le_refl _
  | step hi ih =>
      exact Nat.le_trans (ih (Nat.le_of_succ_le hm)) (hsweep.mono hmono hsorted hbounds hm)

/-- A date is passed at the first arrival whose bound exceeds it. -/
theorem passed_iff (hsweep : Sweep dates bounds cursor) (hm : m < dates.length) :
    (cursor m ≤ n ∧ n < cursor (m + 1)) ↔
      ∃ h : n < m, dates[n] < bounds dates[m] ∧
        ∀ i, (hi : i < m) → n < i → bounds dates[i] ≤ dates[n] := by
  have hlt : ∀ i, (hi : i < dates.length) → ∀ h : n ≤ i,
      (n < cursor (i + 1) ↔ dates[n] < bounds dates[i]) := by
    intro i hi h
    have hlen : n < (dates.take (i + 1)).length := by
      rw [List.length_take, Nat.min_eq_left hi]
      exact Nat.lt_succ_of_le h
    rw [(hsweep.succ i hi).lt_iff hlen, List.getElem_take]
  constructor
  · rintro ⟨hle, hpassed⟩
    have hn : n < m := Nat.lt_of_lt_of_le hpassed (hsweep.succ_le hbounds hm)
    refine ⟨hn, (hlt m hm (Nat.le_of_lt hn)).1 hpassed, ?_⟩
    intro i hi hni
    -- otherwise the cursor would have passed the date before this arrival
    by_contra hbelow
    have hearlier := (hlt i (Nat.lt_trans hi hm) (Nat.le_of_lt hni)).2 (not_le.1 hbelow)
    have hcursor : cursor (i + 1) ≤ cursor m :=
      hsweep.le_of_le hmono hsorted hbounds hi (Nat.le_of_lt hm)
    exact absurd (Nat.lt_of_lt_of_le hearlier hcursor) (Nat.not_lt_of_le hle)
  · rintro ⟨hn, hbelow, hfirst⟩
    refine ⟨?_, (hlt m hm (Nat.le_of_lt hn)).2 hbelow⟩
    cases m with
    | zero => exact absurd hn (Nat.not_lt_zero n)
    | succ m =>
        have hm' : m < dates.length := Nat.lt_of_succ_lt hm
        rcases Nat.lt_or_eq_of_le (Nat.le_of_lt_succ hn) with hnm | rfl
        · by_contra hpassed
          have hearlier := (hlt m hm' (Nat.le_of_lt hnm)).1 (Nat.lt_of_not_le hpassed)
          exact absurd hearlier (not_lt.2 (hfirst m (Nat.lt_succ_self m) hnm))
        · exact hsweep.succ_le hbounds hm'

end Sweep

/-! ## What is passed at each arrival -/

/-- The intervals between consecutive values of a cursor that does not go back follow each other. -/
theorem flatten_range'_cursor (hzero : cursor 0 = 0)
    (hmono : ∀ i < m, cursor i ≤ cursor (i + 1)) :
    ((List.range m).map fun i => List.range' (cursor i) (cursor (i + 1) - cursor i)).flatten =
      List.range (cursor m) := by
  induction m with
  | zero =>
      rw [hzero]
      rfl
  | succ m ih =>
      have hle : cursor m ≤ cursor (m + 1) := hmono m (Nat.lt_succ_self m)
      rw [List.range_succ, List.map_append, List.flatten_append,
        ih fun i hi => hmono i (Nat.lt_succ_of_lt hi), List.map_singleton, List.flatten_singleton,
        List.range_eq_range', List.range_eq_range']
      have hsplit : List.range' 0 (cursor m) ++
          List.range' (0 + cursor m) (cursor (m + 1) - cursor m) =
          List.range' 0 (cursor m + (cursor (m + 1) - cursor m)) := List.range'_append_1
      rw [Nat.zero_add, Nat.add_sub_cancel' hle] at hsplit
      exact hsplit

end Lib
