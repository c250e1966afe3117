/-
# Hash maps

A finite map with the operations of Rust's `std::collections::HashMap`, carried by Mathlib's
association lists with distinct keys.  The order of `iter` is one of the orders an implementation
may iterate in; everything proved about lookups is independent of it.
-/

import Mathlib.Data.List.AList
import Mathlib.Data.List.Perm.Basic

namespace RustStd

universe u v

/-- A finite map from keys to values. -/
def HashMap (K : Type u) (V : Type v) : Type (max u v) := AList fun _ : K => V

namespace HashMap

variable {K : Type u} {V : Type v}

instance [DecidableEq K] [DecidableEq V] : DecidableEq (HashMap K V) :=
  inferInstanceAs (DecidableEq (AList fun _ : K => V))

instance : EmptyCollection (HashMap K V) :=
  ⟨(∅ : AList fun _ : K => V)⟩

instance : Inhabited (HashMap K V) :=
  ⟨∅⟩

/-- The bindings, in iteration order. -/
def iter (m : HashMap K V) : List (K × V) :=
  AList.entries m |>.map fun entry => (entry.1, entry.2)

/-- The bound keys, in iteration order. -/
def keys (m : HashMap K V) : List K := AList.keys m

/-- The number of bound keys. -/
def len (m : HashMap K V) : Nat := m.keys.length

/-- Whether no key is bound. -/
def isEmpty (m : HashMap K V) : Bool := m.keys.isEmpty

variable [DecidableEq K]

/-- The value bound to a key, if any. -/
def get? (m : HashMap K V) (k : K) : Option V := AList.lookup k m

/-- Whether a key is bound. -/
def containsKey (m : HashMap K V) (k : K) : Bool := (m.get? k).isSome

/-- Bind a key, replacing its previous value. -/
def insert (m : HashMap K V) (k : K) (v : V) : HashMap K V := AList.insert k v m

/-- Unbind a key. -/
def remove (m : HashMap K V) (k : K) : HashMap K V := AList.erase k m

/-- Unbind every key of a list. -/
def removeAll (m : HashMap K V) (ks : List K) : HashMap K V := ks.foldl remove m

/-- Bind every entry of a list; of two entries of one key the later wins. -/
def insertAll (m : HashMap K V) (entries : List (K × V)) : HashMap K V :=
  entries.foldl (fun m entry => m.insert entry.1 entry.2) m

/-- Add a value to the list that is bound to a key: `entry`, `or_insert_with(Vec::new)` and `push`. -/
def push (m : HashMap K (List V)) (k : K) (v : V) : HashMap K (List V) :=
  m.insert k ((m.get? k).getD [] ++ [v])

/-- Collect a list of bindings. -/
def ofList (entries : List (K × V)) : HashMap K V := insertAll ∅ entries

/-! ## Lookups -/

@[simp]
theorem get?_empty (k : K) : (∅ : HashMap K V).get? k = none := rfl

@[simp]
theorem get?_insert_self (m : HashMap K V) (k : K) (v : V) : (m.insert k v).get? k = some v :=
  AList.lookup_insert m

theorem get?_insert_of_ne (m : HashMap K V) {k k' : K} (v : V) (h : k' ≠ k) :
    (m.insert k v).get? k' = m.get? k' :=
  AList.lookup_insert_ne h

@[grind =]
theorem get?_insert (m : HashMap K V) (k k' : K) (v : V) :
    (m.insert k v).get? k' = if k' = k then some v else m.get? k' := by
  by_cases h : k' = k
  · simp [h]
  · rw [if_neg h, get?_insert_of_ne m v h]

@[simp]
theorem get?_remove_self (m : HashMap K V) (k : K) : (m.remove k).get? k = none :=
  AList.lookup_erase k m

theorem get?_remove_of_ne (m : HashMap K V) {k k' : K} (h : k' ≠ k) :
    (m.remove k).get? k' = m.get? k' :=
  AList.lookup_erase_ne h

@[grind =]
theorem get?_remove (m : HashMap K V) (k k' : K) :
    (m.remove k).get? k' = if k' = k then none else m.get? k' := by
  by_cases h : k' = k
  · simp [h]
  · rw [if_neg h, get?_remove_of_ne m h]

@[grind =]
theorem get?_removeAll (m : HashMap K V) (ks : List K) (k : K) :
    (m.removeAll ks).get? k = if k ∈ ks then none else m.get? k := by
  induction ks generalizing m with
  | nil => simp [removeAll]
  | cons a ks ih =>
      have hstep : (m.removeAll (a :: ks)).get? k = ((m.remove a).removeAll ks).get? k := rfl
      rw [hstep, ih, get?_remove]
      by_cases hk : k ∈ ks <;> by_cases ha : k = a <;> simp [hk, ha]

/-- Binding entries does not touch the other keys. -/
theorem get?_insertAll_of_forall_ne (m : HashMap K V) {entries : List (K × V)} {k : K}
    (h : ∀ entry ∈ entries, entry.1 ≠ k) : (m.insertAll entries).get? k = m.get? k := by
  induction entries generalizing m with
  | nil => rfl
  | cons entry entries ih =>
      have hrest := ih (m.insert entry.1 entry.2) fun e he => h e (List.mem_cons_of_mem _ he)
      have hne : k ≠ entry.1 := fun heq => h entry List.mem_cons_self heq.symm
      calc
        (m.insertAll (entry :: entries)).get? k = (m.insert entry.1 entry.2).get? k := hrest
        _ = m.get? k := get?_insert_of_ne m entry.2 hne

/-- Of entries with distinct keys, each is bound in the end. -/
theorem get?_insertAll_of_mem (m : HashMap K V) {entries : List (K × V)}
    (hkeys : entries.Pairwise fun e e' => e.1 ≠ e'.1) {entry : K × V} (h : entry ∈ entries) :
    (m.insertAll entries).get? entry.1 = some entry.2 := by
  induction entries generalizing m with
  | nil => cases h
  | cons first entries ih =>
      obtain ⟨hfirst, hrest⟩ := List.pairwise_cons.1 hkeys
      rcases List.mem_cons.1 h with rfl | hmem
      · have hkeep := get?_insertAll_of_forall_ne (m.insert entry.1 entry.2)
          (k := entry.1) fun e he => (hfirst e he).symm
        exact hkeep.trans (get?_insert_self m entry.1 entry.2)
      · exact ih (m.insert first.1 first.2) hrest hmem

/-- What is bound after binding entries was bound before or is an entry. -/
theorem mem_of_get?_insertAll (m : HashMap K V) {entries : List (K × V)} {k : K} {v : V}
    (h : (m.insertAll entries).get? k = some v) : (k, v) ∈ entries ∨ m.get? k = some v := by
  induction entries generalizing m with
  | nil => exact Or.inr h
  | cons entry entries ih =>
      rcases ih (m.insert entry.1 entry.2) h with hmem | hbound
      · exact Or.inl (List.mem_cons_of_mem _ hmem)
      · rw [get?_insert] at hbound
        split at hbound
        case isTrue hk =>
          obtain rfl := Option.some.inj hbound
          exact Or.inl (hk ▸ List.mem_cons_self)
        case isFalse => exact Or.inr hbound

theorem containsKey_iff (m : HashMap K V) (k : K) :
    m.containsKey k = true ↔ ∃ v, m.get? k = some v :=
  Option.isSome_iff_exists

theorem containsKey_eq_false_iff (m : HashMap K V) (k : K) :
    m.containsKey k = false ↔ m.get? k = none := by
  simp [containsKey]

theorem containsKey_insert_iff (m : HashMap K V) (k k' : K) (v : V) :
    (m.insert k v).containsKey k' = true ↔ k' = k ∨ m.containsKey k' = true := by
  simp only [containsKey_iff, get?_insert]
  by_cases h : k' = k <;> simp [h]

theorem containsKey_removeAll_iff (m : HashMap K V) (ks : List K) (k : K) :
    (m.removeAll ks).containsKey k = true ↔ m.containsKey k = true ∧ k ∉ ks := by
  simp only [containsKey_iff, get?_removeAll]
  by_cases h : k ∈ ks <;> simp [h]

/-! ## Lists of values -/

theorem getD_get?_push (m : HashMap K (List V)) (k k' : K) (v : V) :
    ((m.push k v).get? k').getD [] = (m.get? k').getD [] ++ if k' = k then [v] else [] := by
  rw [push, get?_insert]
  by_cases h : k' = k
  · rw [if_pos h, if_pos h, Option.getD_some, h]
  · rw [if_neg h, if_neg h, List.append_nil]

/-- Adding a value to the lists of some keys. -/
theorem getD_get?_foldl_push (m : HashMap K (List V)) (ks : List K) (k' : K) (v : V) :
    ((ks.foldl (fun m k => m.push k v) m).get? k').getD [] =
      (m.get? k').getD [] ++ List.replicate (ks.count k') v := by
  induction ks generalizing m with
  | nil => exact (List.append_nil _).symm
  | cons k ks ih =>
      rw [List.foldl_cons, ih, getD_get?_push, List.append_assoc, List.count_cons]
      congr 1
      by_cases h : k' = k
      · rw [if_pos h, if_pos (beq_iff_eq.2 h.symm), List.replicate_succ]
        rfl
      · rw [if_neg h, if_neg fun heq => h (beq_iff_eq.1 heq).symm, Nat.add_zero]
        rfl

/-! ## Keys and iteration -/

omit [DecidableEq K] in
theorem keys_nodup (m : HashMap K V) : m.keys.Nodup := AList.keys_nodup m

theorem mem_keys_iff (m : HashMap K V) (k : K) : k ∈ m.keys ↔ ∃ v, m.get? k = some v := by
  rw [← Option.isSome_iff_exists]
  exact (AList.lookup_isSome (s := m)).symm

theorem mem_iter_iff (m : HashMap K V) (k : K) (v : V) :
    (k, v) ∈ m.iter ↔ m.get? k = some v := by
  have hlookup : m.get? k = some v ↔ (⟨k, v⟩ : Sigma fun _ : K => V) ∈ AList.entries m :=
    AList.mem_lookup_iff (s := m)
  rw [hlookup, iter, List.mem_map]
  constructor
  · rintro ⟨entry, hentry, heq⟩
    obtain ⟨rfl, rfl⟩ := Prod.mk.inj heq
    exact hentry
  · intro hentry
    exact ⟨_, hentry, rfl⟩

/-- What is collected from a list is in the list. -/
theorem mem_of_mem_iter_ofList {entries : List (K × V)} {entry : K × V}
    (h : entry ∈ (ofList entries).iter) : entry ∈ entries := by
  rcases mem_of_get?_insertAll ∅ ((mem_iter_iff _ entry.1 entry.2).1 h) with hmem | hempty
  · exact hmem
  · rw [get?_empty] at hempty
    cases hempty

omit [DecidableEq K] in
theorem nodup_map_fst_iter (m : HashMap K V) : (m.iter.map Prod.fst).Nodup := by
  have hkeys : m.iter.map Prod.fst = m.keys := by
    rw [iter, List.map_map]
    rfl
  exact hkeys ▸ AList.keys_nodup m

/-- Entries with distinct keys are all collected. -/
theorem iter_ofList_perm {entries : List (K × V)} (h : (entries.map Prod.fst).Nodup) :
    (ofList entries).iter.Perm entries := by
  have hpairwise : entries.Pairwise fun e e' => e.1 ≠ e'.1 := List.pairwise_map.1 h
  refine (List.perm_ext_iff_of_nodup (nodup_map_fst_iter _).of_map h.of_map).2 fun entry => ?_
  refine ⟨mem_of_mem_iter_ofList, fun hmem => ?_⟩
  exact (mem_iter_iff _ entry.1 entry.2).2 (get?_insertAll_of_mem ∅ hpairwise hmem)

theorem containsKey_insertAll_iff (m : HashMap K V) (entries : List (K × V)) (k : K) :
    (m.insertAll entries).containsKey k = true ↔
      k ∈ entries.map Prod.fst ∨ m.containsKey k = true := by
  induction entries generalizing m with
  | nil => exact (or_iff_right List.not_mem_nil).symm
  | cons entry entries ih =>
      refine (ih (m.insert entry.1 entry.2)).trans ?_
      rw [containsKey_insert_iff, List.map_cons, List.mem_cons, or_assoc, or_left_comm]

/-- The keys that are collected from a list. -/
theorem mem_keys_ofList_iff (entries : List (K × V)) (k : K) :
    k ∈ (ofList entries).keys ↔ k ∈ entries.map Prod.fst := by
  rw [mem_keys_iff, ← containsKey_iff, ofList, containsKey_insertAll_iff]
  exact or_iff_left Bool.false_ne_true

theorem get?_insertAll_map (m : HashMap K V) (f : K → V) (ks : List K) (k : K) :
    (m.insertAll (ks.map fun k => (k, f k))).get? k = if k ∈ ks then some (f k) else m.get? k := by
  induction ks generalizing m with
  | nil => simp [insertAll]
  | cons a ks ih =>
      have hstep : (m.insertAll ((a :: ks).map fun k => (k, f k))).get? k =
          ((m.insert a (f a)).insertAll (ks.map fun k => (k, f k))).get? k := rfl
      rw [hstep, ih, get?_insert]
      by_cases hk : k ∈ ks <;> by_cases ha : k = a <;> simp [hk, ha]

/-- Binding an entry for each key of a map, under an injective renaming of the keys. -/
theorem get?_insertAll_map_iter {K' : Type u} [DecidableEq K'] {V' : Type v} (m : HashMap K V)
    (c : HashMap K' V') {rename : K' → K} (hinj : Function.Injective rename) (g : K' → V' → V)
    (k : K') :
    (m.insertAll (c.iter.map fun entry => (rename entry.1, g entry.1 entry.2))).get? (rename k) =
      ((c.get? k).map (g k)).or (m.get? (rename k)) := by
  have hpairwise : (c.iter.map fun entry => (rename entry.1, g entry.1 entry.2)).Pairwise
      fun e e' => e.1 ≠ e'.1 := by
    have hkeys : c.iter.map Prod.fst = c.keys := by
      rw [iter, List.map_map]
      rfl
    have hnodup : (c.iter.map Prod.fst).Nodup := hkeys ▸ c.keys_nodup
    rw [List.Nodup, List.pairwise_map] at hnodup
    exact List.pairwise_map.2 (hnodup.imp fun hne heq => hne (hinj heq))
  cases hk : c.get? k with
  | some v =>
      exact get?_insertAll_of_mem m hpairwise
        (List.mem_map.2 ⟨(k, v), (mem_iter_iff c k v).2 hk, rfl⟩)
  | none =>
      refine get?_insertAll_of_forall_ne m fun entry hentry heq => ?_
      rcases List.mem_map.1 hentry with ⟨⟨k', v'⟩, hmem, rfl⟩
      obtain rfl := hinj heq
      rw [(mem_iter_iff c k' v').1 hmem] at hk
      cases hk

omit [DecidableEq K] in
theorem length_iter (m : HashMap K V) : m.iter.length = m.len := by
  rw [iter, List.length_map]
  exact (List.length_map Sigma.fst).symm

omit [DecidableEq K] in
@[simp]
theorem len_empty : (∅ : HashMap K V).len = 0 := rfl

/-- A map in which no key is bound is empty. -/
theorem len_eq_zero_of_forall (m : HashMap K V) (h : ∀ k, m.get? k = none) : m.len = 0 := by
  rw [len, List.length_eq_zero_iff, List.eq_nil_iff_forall_not_mem]
  intro k hk
  obtain ⟨v, hv⟩ := (mem_keys_iff m k).1 hk
  rw [h k] at hv
  cases hv

/-- Binding a fresh key adds one binding. -/
theorem len_insert_of_get?_eq_none (m : HashMap K V) {k : K} (v : V) (h : m.get? k = none) :
    (m.insert k v).len = m.len + 1 := by
  have hfresh : k ∉ m.keys := by simp [mem_keys_iff, h]
  have hkeys : (m.insert k v).keys = k :: m.keys.erase k := AList.keys_insert m
  simp [len, hkeys, List.erase_of_not_mem hfresh]

/-- Rebinding a key keeps the number of bindings. -/
theorem len_insert_of_get?_eq_some (m : HashMap K V) {k : K} {w : V} (v : V)
    (h : m.get? k = some w) : (m.insert k v).len = m.len := by
  have hbound : k ∈ m.keys := (mem_keys_iff m k).2 ⟨w, h⟩
  have hkeys : (m.insert k v).keys = k :: m.keys.erase k := AList.keys_insert m
  have hpos : 0 < m.keys.length := List.length_pos_of_mem hbound
  simp only [len, hkeys, List.length_cons, List.length_erase_of_mem hbound]
  omega

end HashMap

end RustStd
