/-
# Keeping the best value of each key

Values arrive one after the other.  One value is kept for each key, and a value that arrives takes
its place only when it ranks strictly above it.  What is kept then ranks highest among all that
arrived under the key, and its rank does not depend on the order of arrival.
-/

import Mathlib.Order.Lattice
import Mathlib.Data.Option.Basic
import Mathlib.Data.List.Basic

namespace Lib

universe u v w

variable {α : Type u} {κ : Type v} {ρ : Type w} [LinearOrder ρ]

/-- Whether a value takes the place of what is kept for its key. -/
def TakesPlace (rank : α → ρ) (kept : Option α) (a : α) : Prop :=
  ∀ b, kept = some b → rank b < rank a

/-- What is kept for each key: the highest of the values that arrived under it. -/
structure KeepsBest (key : α → κ) (rank : α → ρ) (arrived : List α) (kept : κ → Option α) :
    Prop where
  eq_none_iff : ∀ k, kept k = none ↔ ∀ a ∈ arrived, key a ≠ k
  mem : ∀ k b, kept k = some b → b ∈ arrived
  key_eq : ∀ k b, kept k = some b → key b = k
  rank_le : ∀ k b, kept k = some b → ∀ a ∈ arrived, key a = k → rank a ≤ rank b

namespace KeepsBest

variable {key : α → κ} {rank : α → ρ} {arrived arrived' : List α} {kept kept' : κ → Option α}

theorem nil : KeepsBest key rank [] (fun _ => none) where
  eq_none_iff k := by simp
  mem k b h := by cases h
  key_eq k b h := by cases h
  rank_le k b h := by cases h

/-- A value that takes its place is kept, and nothing else changes. -/
theorem replace (h : KeepsBest key rank arrived kept) {a : α}
    (hplace : TakesPlace rank (kept (key a)) a) (hself : kept' (key a) = some a)
    (hother : ∀ k, k ≠ key a → kept' k = kept k) :
    KeepsBest key rank (arrived ++ [a]) kept' where
  eq_none_iff k := by
    by_cases hk : k = key a
    · simp [hk, hself]
    · simp [hother k hk, h.eq_none_iff k, Ne.symm hk, or_imp, forall_and]
  mem k b hb := by
    by_cases hk : k = key a
    · rw [hk, hself, Option.some.injEq] at hb
      exact hb ▸ List.mem_append_right arrived List.mem_cons_self
    · rw [hother k hk] at hb
      exact List.mem_append_left [a] (h.mem k b hb)
  key_eq k b hb := by
    by_cases hk : k = key a
    · rw [hk, hself, Option.some.injEq] at hb
      rw [hk, hb]
    · rw [hother k hk] at hb
      exact h.key_eq k b hb
  rank_le k b hb x hx hkey := by
    rcases List.mem_append.1 hx with hx | hx
    · by_cases hk : k = key a
      · rw [hk, hself, Option.some.injEq] at hb
        subst hb hkey
        cases hold : kept (key a) with
        | none => exact absurd hk ((h.eq_none_iff (key a)).1 hold x hx)
        | some old =>
            exact le_of_lt (lt_of_le_of_lt (h.rank_le _ old hold x hx hk) (hplace old hold))
      · rw [hother k hk] at hb
        exact h.rank_le k b hb x hx hkey
    · rw [List.mem_singleton.1 hx] at hkey ⊢
      rw [← hkey, hself, Option.some.injEq] at hb
      rw [hb]

/-- A value that does not take its place changes nothing. -/
theorem keep (h : KeepsBest key rank arrived kept) {a : α}
    (hplace : ¬TakesPlace rank (kept (key a)) a) :
    KeepsBest key rank (arrived ++ [a]) kept := by
  obtain ⟨old, hold, hle⟩ : ∃ old, kept (key a) = some old ∧ rank a ≤ rank old := by
    simpa [TakesPlace] using hplace
  refine ⟨fun k => ?_, fun k b hb => List.mem_append_left [a] (h.mem k b hb), h.key_eq, ?_⟩
  · rw [h.eq_none_iff k]
    constructor
    · intro hnone x hx
      rcases List.mem_append.1 hx with hx | hx
      · exact hnone x hx
      · rw [List.mem_singleton.1 hx]
        exact fun hkey => hnone old (h.mem _ old hold) ((h.key_eq _ old hold).trans hkey)
    · exact fun hnone x hx => hnone x (List.mem_append_left [a] hx)
  · intro k b hb x hx hkey
    rcases List.mem_append.1 hx with hx | hx
    · exact h.rank_le k b hb x hx hkey
    · rw [List.mem_singleton.1 hx] at hkey ⊢
      rw [← hkey, hold, Option.some.injEq] at hb
      exact hb ▸ hle

/-- The ranks that are kept depend only on which values arrived. -/
theorem rank_eq (h : KeepsBest key rank arrived kept) (h' : KeepsBest key rank arrived' kept')
    (hmem : ∀ a, a ∈ arrived ↔ a ∈ arrived') (k : κ) :
    (kept k).map rank = (kept' k).map rank := by
  have hnone : kept k = none ↔ kept' k = none := by
    simp only [h.eq_none_iff, h'.eq_none_iff, hmem]
  cases hb : kept k with
  | none => rw [hnone.1 hb]
  | some b =>
      cases hb' : kept' k with
      | none => rw [hnone.2 hb'] at hb; cases hb
      | some b' =>
          have hle := h'.rank_le k b' hb' b ((hmem b).1 (h.mem k b hb)) (h.key_eq k b hb)
          have hge := h.rank_le k b hb b' ((hmem b').2 (h'.mem k b' hb')) (h'.key_eq k b' hb')
          exact congrArg some (le_antisymm hle hge)

end KeepsBest

end Lib
