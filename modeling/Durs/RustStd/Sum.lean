/-
# Sums over hash maps and hash sets

The sum of a quantity over the bindings of a map or the members of a set, and what one update does
to it.  The order of iteration does not matter.
-/

import Durs.RustStd.HashSet
import Mathlib.Algebra.BigOperators.Group.List.Basic
import Mathlib.Algebra.Order.BigOperators.Group.List

namespace RustStd

universe u v w

variable {K : Type u} {V : Type v} {M : Type w} [AddCommMonoid M]

namespace HashMap

/-- The sum of a quantity over the bindings of a map. -/
def sumOf (f : K → V → M) (m : HashMap K V) : M := (m.iter.map fun entry => f entry.1 entry.2).sum

theorem iter_nodup (m : HashMap K V) : m.iter.Nodup := by
  refine List.Nodup.of_map Prod.fst ?_
  have hkeys : m.iter.map Prod.fst = m.keys := by
    rw [iter, List.map_map]
    rfl
  exact hkeys ▸ m.keys_nodup

variable [DecidableEq K]

/-- Two maps with the same bindings have the same sums. -/
theorem sumOf_congr (f : K → V → M) {m m' : HashMap K V} (h : ∀ k, m.get? k = m'.get? k) :
    m.sumOf f = m'.sumOf f := by
  refine List.Perm.sum_eq (List.Perm.map _ ?_)
  refine (List.perm_ext_iff_of_nodup m.iter_nodup m'.iter_nodup).2 fun entry => ?_
  rw [mem_iter_iff, mem_iter_iff, h]

/-- A fresh binding adds its quantity. -/
theorem sumOf_insert_of_get?_eq_none (f : K → V → M) (m : HashMap K V) {k : K} (v : V)
    (h : m.get? k = none) : (m.insert k v).sumOf f = f k v + m.sumOf f := by
  have hfresh : (k, v) ∉ m.iter := by
    rw [mem_iter_iff, h]
    exact fun heq => nomatch heq
  have hperm : (m.insert k v).iter.Perm ((k, v) :: m.iter) := by
    refine (List.perm_ext_iff_of_nodup (iter_nodup _)
      (List.nodup_cons.2 ⟨hfresh, m.iter_nodup⟩)).2 fun ⟨k', v'⟩ => ?_
    rw [mem_iter_iff, List.mem_cons, mem_iter_iff, get?_insert]
    by_cases hk : k' = k
    · subst hk
      simp [h, eq_comm]
    · simp [hk]
  exact (hperm.map fun entry => f entry.1 entry.2).sum_eq.trans List.sum_cons

/-- A binding that is dropped takes its quantity with it. -/
theorem sumOf_remove_of_get?_eq_some (f : K → V → M) (m : HashMap K V) {k : K} {v : V}
    (h : m.get? k = some v) : m.sumOf f = f k v + (m.remove k).sumOf f := by
  rw [← sumOf_insert_of_get?_eq_none f (m.remove k) v (get?_remove_self m k)]
  refine sumOf_congr f fun k' => ?_
  rw [get?_insert, get?_remove]
  by_cases hk : k' = k
  · rw [if_pos hk, hk, h]
  · rw [if_neg hk, if_neg hk]

end HashMap

namespace HashSet

/-- The sum of a quantity over the members of a set. -/
def sumOf (f : K → M) (s : HashSet K) : M := (s.iter.map f).sum

/-- Two sets with the same members have the same sums. -/
theorem sumOf_congr (f : K → M) {s t : HashSet K} (h : ∀ a, a ∈ s ↔ a ∈ t) :
    s.sumOf f = t.sumOf f :=
  (List.Perm.map _ ((List.perm_ext_iff_of_nodup s.nodup_iter t.nodup_iter).2 h)).sum_eq

/-- The quantity matters on the members only. -/
theorem sumOf_congr_of_mem {f g : K → M} {s : HashSet K} (h : ∀ a ∈ s, f a = g a) :
    s.sumOf f = s.sumOf g :=
  congrArg List.sum (List.map_congr_left h)

variable [DecidableEq K]

/-- A new member adds its quantity. -/
theorem sumOf_insert_of_not_mem (f : K → M) {s : HashSet K} {a : K} (h : a ∉ s) :
    (s.insert a).sumOf f = f a + s.sumOf f := by
  have hperm : (s.insert a).iter.Perm (a :: s.iter) := by
    refine (List.perm_ext_iff_of_nodup (nodup_iter _)
      (List.nodup_cons.2 ⟨h, s.nodup_iter⟩)).2 fun b => ?_
    rw [mem_iter, mem_insert, List.mem_cons, mem_iter]
  exact (hperm.map f).sum_eq.trans List.sum_cons

end HashSet

end RustStd
