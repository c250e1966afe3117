/-
# Medians of a list

A median of a list is a value such that at least half of the list is at or below it, and at least
half at or above it.  In a sorted list the elements in the middle are medians, and the one after the
middle of an odd list only if it equals the middle.
-/

import Mathlib.Data.List.Count
import Mathlib.Data.List.Perm.Basic
import Mathlib.Order.Lattice

namespace Lib

universe u

variable {α : Type u} [LinearOrder α] {l l' before after : List α} {m a : α}

/-- At least half of the list is at or below `m`, and at least half at or above. -/
structure IsMedian (l : List α) (m : α) : Prop where
  below : l.length ≤ 2 * l.countP (· ≤ m)
  above : l.length ≤ 2 * l.countP (m ≤ ·)

theorem IsMedian.nil (m : α) : IsMedian [] m := ⟨Nat.zero_le _, Nat.zero_le _⟩

theorem IsMedian.perm (hm : IsMedian l m) (h : l.Perm l') : IsMedian l' m where
  below := by
    rw [← h.length_eq, ← h.countP_eq]
    exact hm.below
  above := by
    rw [← h.length_eq, ← h.countP_eq]
    exact hm.above

/-! ## Sorted lists -/

/-- What stands before an element of a sorted list is at or below it. -/
theorem length_le_countP_le (hsorted : (before ++ m :: after).Pairwise (· ≤ ·)) :
    before.length + 1 ≤ (before ++ m :: after).countP (· ≤ m) := by
  have hbefore : before.countP (· ≤ m) = before.length :=
    List.countP_eq_length.2 fun b hb =>
      decide_eq_true ((List.pairwise_append.1 hsorted).2.2 b hb m List.mem_cons_self)
  have hcons : (m :: after).countP (· ≤ m) = after.countP (· ≤ m) + 1 :=
    List.countP_cons_of_pos (decide_eq_true (le_refl m))
  rw [List.countP_append, hcons, hbefore]
  omega

/-- What stands after an element of a sorted list is at or above it. -/
theorem length_le_countP_ge (hsorted : (before ++ m :: after).Pairwise (· ≤ ·)) :
    after.length + 1 ≤ (before ++ m :: after).countP (m ≤ ·) := by
  have hafter : after.countP (m ≤ ·) = after.length :=
    List.countP_eq_length.2 fun b hb => decide_eq_true
      ((List.pairwise_cons.1 (List.pairwise_append.1 hsorted).2.1).1 b hb)
  have hcons : (m :: after).countP (m ≤ ·) = after.countP (m ≤ ·) + 1 :=
    List.countP_cons_of_pos (decide_eq_true (le_refl m))
  rw [List.countP_append, hcons, hafter]
  omega

/-- An element with as many before it as after it, or one more or less, is a median. -/
theorem isMedian_middle (hsorted : (before ++ m :: after).Pairwise (· ≤ ·))
    (hbefore : before.length ≤ after.length + 1) (hafter : after.length ≤ before.length + 1) :
    IsMedian (before ++ m :: after) m := by
  have hle := length_le_countP_le hsorted
  have hge := length_le_countP_ge hsorted
  constructor <;>
  · rw [List.length_append, List.length_cons]
    omega

/-- Below an element that is greater than the one before it stands nothing at or above it. -/
theorem countP_ge_le (hsorted : (before ++ a :: m :: after).Pairwise (· ≤ ·)) (hlt : a < m) :
    (before ++ a :: m :: after).countP (m ≤ ·) ≤ after.length + 1 := by
  have hbefore : before.countP (m ≤ ·) = 0 := by
    refine List.countP_eq_zero.2 fun b hb hge => ?_
    have hba := (List.pairwise_append.1 hsorted).2.2 b hb a List.mem_cons_self
    exact absurd (le_trans (of_decide_eq_true hge) hba) (not_le_of_gt hlt)
  have hcons : (a :: m :: after).countP (m ≤ ·) = (m :: after).countP (m ≤ ·) :=
    List.countP_cons_of_neg fun hge => not_le_of_gt hlt (of_decide_eq_true hge)
  rw [List.countP_append, hbefore, hcons]
  have hafter := List.countP_le_length (p := fun b => decide (m ≤ b)) (l := m :: after)
  rw [List.length_cons] at hafter
  omega

/-- The element after the middle of an odd list is a median exactly when it equals the middle. -/
theorem isMedian_next_iff (hsorted : (before ++ a :: m :: after).Pairwise (· ≤ ·))
    (hlength : before.length = after.length + 1) :
    IsMedian (before ++ a :: m :: after) m ↔ a = m := by
  constructor
  · intro hm
    have hle : a ≤ m :=
      (List.pairwise_cons.1 (List.pairwise_append.1 hsorted).2.1).1 m List.mem_cons_self
    by_contra hne
    have hcount := countP_ge_le hsorted (lt_of_le_of_ne hle hne)
    have habove := hm.above
    rw [List.length_append, List.length_cons, List.length_cons] at habove
    omega
  · rintro rfl
    refine isMedian_middle hsorted ?_ ?_
    · rw [List.length_cons]
      omega
    · rw [List.length_cons]
      omega

omit [LinearOrder α] in
/-- An element of a list, with what stands before and after it. -/
theorem exists_eq_append_cons {i : Nat} (h : l[i]? = some m) :
    ∃ before after, l = before ++ m :: after ∧ before.length = i := by
  obtain ⟨hlt, rfl⟩ := List.getElem?_eq_some_iff.1 h
  refine ⟨l.take i, l.drop (i + 1), ?_, List.length_take_of_le (Nat.le_of_lt hlt)⟩
  rw [← List.drop_eq_getElem_cons hlt, List.take_append_drop]

/-- In a sorted list the element at half the length is a median. -/
theorem isMedian_half (hsorted : l.Pairwise (· ≤ ·)) (h : l[l.length / 2]? = some m) :
    IsMedian l m := by
  obtain ⟨before, after, hl, hlength⟩ := exists_eq_append_cons h
  have htotal : l.length = before.length + (after.length + 1) := by
    rw [hl, List.length_append, List.length_cons]
  rw [hl] at hsorted ⊢
  exact isMedian_middle hsorted (by omega) (by omega)

/-- In a sorted list of odd length the element after that one is a median exactly when both are
equal. -/
theorem isMedian_half_succ_iff (hsorted : l.Pairwise (· ≤ ·)) (hodd : l.length % 2 = 1)
    (h : l[l.length / 2 + 1]? = some m) : IsMedian l m ↔ l[l.length / 2]? = some m := by
  refine ⟨fun hm => ?_, isMedian_half hsorted⟩
  have hlt := (List.getElem?_eq_some_iff.1 h).1
  have ha : l[l.length / 2]? = some l[l.length / 2] := List.getElem?_eq_getElem (by omega)
  obtain ⟨before, rest, hl, hlength⟩ := exists_eq_append_cons ha
  rw [ha]
  generalize l[l.length / 2] = a at hl
  have hrest : rest[0]? = some m := by
    rw [← hlength] at h
    rw [hl, List.getElem?_append_right (Nat.le_add_right _ 1), Nat.add_sub_cancel_left] at h
    exact h
  cases rest with
  | nil => cases hrest
  | cons b after =>
      obtain rfl := Option.some.inj hrest
      have htotal : l.length = before.length + (after.length + 1 + 1) := by
        rw [hl, List.length_append, List.length_cons, List.length_cons]
      rw [hl] at hsorted hm
      rw [(isMedian_next_iff hsorted (by omega)).1 hm]

end Lib
