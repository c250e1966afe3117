/-
# Ordered maps

`BTreeMap` as the list of its entries, whose keys increase.
-/

import Mathlib.Order.Lattice
import Mathlib.Data.List.Basic

namespace RustStd

universe u v

/-- An ordered map: its entries, by increasing keys. -/
structure BTreeMap (K : Type u) (V : Type v) [LinearOrder K] where
  entries : List (K × V)
  sorted : entries.Pairwise fun a b => a.1 < b.1

namespace BTreeMap

variable {K : Type u} {V : Type v} [LinearOrder K]

def isEmpty (m : BTreeMap K V) : Bool := m.entries.isEmpty

/-- `BTreeMap::get`. -/
def get? (m : BTreeMap K V) (k : K) : Option V := (m.entries.find? (·.1 = k)).map Prod.snd

/-- `BTreeMap::range(..=k).last()`: the entry with the greatest key up to `k`. -/
def lastUpTo (m : BTreeMap K V) (k : K) : Option (K × V) :=
  (m.entries.filter (·.1 ≤ k)).getLast?

/-- An entry is the last one up to a key exactly when no other entry is between them. -/
theorem lastUpTo_eq_some_iff (m : BTreeMap K V) (k : K) (entry : K × V) :
    m.lastUpTo k = some entry ↔
      entry ∈ m.entries ∧ entry.1 ≤ k ∧ ∀ other ∈ m.entries, other.1 ≤ k → other.1 ≤ entry.1 := by
  have hmem : ∀ other, other ∈ m.entries.filter (·.1 ≤ k) ↔ other ∈ m.entries ∧ other.1 ≤ k := by
    intro other
    rw [List.mem_filter, decide_eq_true_eq]
  have hsorted := m.sorted.filter (·.1 ≤ k)
  constructor
  · intro h
    obtain ⟨front, hfront⟩ := List.getLast?_eq_some_iff.1 h
    have hentry := (hmem entry).1 (hfront ▸ List.mem_append_right front List.mem_cons_self)
    refine ⟨hentry.1, hentry.2, fun other hother hle => ?_⟩
    have hin := (hmem other).2 ⟨hother, hle⟩
    rw [hfront, List.pairwise_append] at hsorted
    rw [hfront, List.mem_append, List.mem_singleton] at hin
    rcases hin with hin | rfl
    · exact le_of_lt (hsorted.2.2 other hin entry List.mem_cons_self)
    · exact le_refl _
  · rintro ⟨hentry, hle, hgreatest⟩
    cases hlast : (m.entries.filter (·.1 ≤ k)).getLast? with
    | none =>
        rw [List.getLast?_eq_none_iff] at hlast
        have hin := (hmem entry).2 ⟨hentry, hle⟩
        rw [hlast] at hin
        cases hin
    | some last =>
        obtain ⟨front, hfront⟩ := List.getLast?_eq_some_iff.1 hlast
        have hin := (hmem entry).2 ⟨hentry, hle⟩
        have hlastMem := (hmem last).1 (hfront ▸ List.mem_append_right front List.mem_cons_self)
        rw [hfront, List.pairwise_append] at hsorted
        rw [hfront, List.mem_append, List.mem_singleton] at hin
        rcases hin with hin | rfl
        · have hlt := hsorted.2.2 entry hin last List.mem_cons_self
          exact absurd (hgreatest last hlastMem.1 hlastMem.2) (not_le_of_gt hlt)
        · exact hlast

end BTreeMap

end RustStd
