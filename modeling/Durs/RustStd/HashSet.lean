/-
# Hash sets

A finite set with the operations of Rust's `std::collections::HashSet`, which is the hash map
whose values carry no information.
-/

import Durs.RustStd.HashMap

namespace RustStd

universe u

/-- A finite set, held as the keys of a map. -/
structure HashSet (α : Type u) where
  map : HashMap α Unit
deriving DecidableEq

namespace HashSet

variable {α : Type u}

instance : EmptyCollection (HashSet α) :=
  ⟨⟨∅⟩⟩

instance : Inhabited (HashSet α) :=
  ⟨∅⟩

/-- The members, in iteration order. -/
def iter (s : HashSet α) : List α := s.map.keys

/-- The number of members. -/
def len (s : HashSet α) : Nat := s.iter.length

/-- Whether the set has no member. -/
def isEmpty (s : HashSet α) : Bool := s.iter.isEmpty

instance : Membership α (HashSet α) :=
  ⟨fun s a => a ∈ s.iter⟩

variable [DecidableEq α]

/-- Whether a value is a member. -/
def contains (s : HashSet α) (a : α) : Bool := s.map.containsKey a

/-- Add a member. -/
def insert (s : HashSet α) (a : α) : HashSet α := ⟨s.map.insert a ()⟩

/-- Drop a member. -/
def remove (s : HashSet α) (a : α) : HashSet α := ⟨s.map.remove a⟩

/-- Collect the members of a list. -/
def ofList (l : List α) : HashSet α := l.foldl insert ∅

/-- The union of two sets. -/
def union (s t : HashSet α) : HashSet α := t.iter.foldl insert s

omit [DecidableEq α] in
@[simp]
theorem mem_iter (s : HashSet α) (a : α) : a ∈ s.iter ↔ a ∈ s := Iff.rfl

theorem mem_iff_get? (s : HashSet α) (a : α) : a ∈ s ↔ ∃ u, s.map.get? a = some u :=
  HashMap.mem_keys_iff s.map a

instance (s : HashSet α) (a : α) : Decidable (a ∈ s) :=
  inferInstanceAs (Decidable (a ∈ s.iter))

omit [DecidableEq α] in
@[simp]
theorem not_mem_empty (a : α) : a ∉ (∅ : HashSet α) := List.not_mem_nil

@[simp, grind =]
theorem mem_insert (s : HashSet α) (a b : α) : b ∈ s.insert a ↔ b = a ∨ b ∈ s := by
  rw [mem_iff_get?, mem_iff_get?, insert, HashMap.get?_insert]
  by_cases h : b = a <;> simp [h]

@[simp, grind =]
theorem mem_remove (s : HashSet α) (a b : α) : b ∈ s.remove a ↔ b ≠ a ∧ b ∈ s := by
  rw [mem_iff_get?, mem_iff_get?, remove, HashMap.get?_remove]
  by_cases h : b = a <;> simp [h]

@[simp, grind =]
theorem contains_iff (s : HashSet α) (a : α) : s.contains a = true ↔ a ∈ s := by
  rw [mem_iff_get?]
  exact HashMap.containsKey_iff s.map a

theorem mem_foldl_insert_iff (l : List α) (s : HashSet α) (a : α) :
    a ∈ l.foldl insert s ↔ a ∈ s ∨ a ∈ l := by
  induction l generalizing s with
  | nil => simp
  | cons b l ih =>
      rw [List.foldl_cons, ih, mem_insert, List.mem_cons, or_assoc, or_left_comm]

@[simp, grind =]
theorem mem_ofList (l : List α) (a : α) : a ∈ ofList l ↔ a ∈ l := by
  rw [ofList, mem_foldl_insert_iff]
  exact or_iff_right (not_mem_empty a)

@[simp, grind =]
theorem mem_union (s t : HashSet α) (a : α) : a ∈ s.union t ↔ a ∈ s ∨ a ∈ t :=
  mem_foldl_insert_iff t.iter s a

/-- The members of a union are those of one of the sets. -/
theorem mem_foldl_union_iff (l : List (HashSet α)) (s : HashSet α) (a : α) :
    a ∈ l.foldl union s ↔ a ∈ s ∨ ∃ t ∈ l, a ∈ t := by
  induction l generalizing s with
  | nil => simp
  | cons t l ih =>
      simp only [List.foldl_cons, ih, mem_union, List.mem_cons, exists_eq_or_imp, or_assoc]

omit [DecidableEq α] in
theorem nodup_iter (s : HashSet α) : s.iter.Nodup := HashMap.keys_nodup s.map

/-- Adding a member adds at most one to their number. -/
theorem len_insert_le (s : HashSet α) (a : α) : (s.insert a).len ≤ s.len + 1 := by
  cases h : s.map.get? a with
  | none => exact Nat.le_of_eq (HashMap.len_insert_of_get?_eq_none s.map () h)
  | some u =>
      exact Nat.le_succ_of_le (Nat.le_of_eq (HashMap.len_insert_of_get?_eq_some s.map () h))

omit [DecidableEq α] in
/-- Two sets with the same members have the same number of them. -/
theorem len_eq_of_forall_mem_iff {s t : HashSet α} (h : ∀ a, a ∈ s ↔ a ∈ t) : s.len = t.len :=
  ((List.perm_ext_iff_of_nodup (nodup_iter s) (nodup_iter t)).2 h).length_eq

end HashSet

end RustStd
