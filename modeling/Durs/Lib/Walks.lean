/-
# Walks along the links of a graph

Each node has finitely many sources, and a walk goes from a node to one of its sources at each step.
The nodes are told apart by how many steps it takes to reach them, and a path is a walk read from
its last node back to the first, as a list that follows the links.
-/

import Mathlib.Data.Finset.Basic
import Mathlib.Data.List.Chain

namespace Lib

universe u

variable {α : Type u} (sources : α → Finset α) {s t u v : α} {j k : ℕ}

/-- Whether a node is reached from another in a number of steps, each to a source. -/
def ReachesIn (s : α) : ℕ → α → Prop
  | 0, v => v = s
  | k + 1, v => ∃ u, ReachesIn s k u ∧ v ∈ sources u

/-- Whether a node is reached in a number of steps and in no fewer. -/
def AtDist (s : α) (k : ℕ) (v : α) : Prop :=
  ReachesIn sources s k v ∧ ∀ j < k, ¬ReachesIn sources s j v

variable {sources}

theorem ReachesIn.trans (hj : ReachesIn sources s j u) (hk : ReachesIn sources u k v) :
    ReachesIn sources s (j + k) v := by
  induction k generalizing v with
  | zero =>
      obtain rfl : v = u := hk
      exact hj
  | succ k ih =>
      obtain ⟨w, hw, hlink⟩ := hk
      exact ⟨w, ih hw, hlink⟩

/-! ## Distances -/

@[simp]
theorem atDist_zero_iff : AtDist sources s 0 v ↔ v = s :=
  and_iff_left fun _ hlt => absurd hlt (Nat.not_lt_zero _)

theorem AtDist.eq (hj : AtDist sources s j v) (hk : AtDist sources s k v) : j = k :=
  le_antisymm (not_lt.1 fun hlt => hj.2 k hlt hk.1) (not_lt.1 fun hlt => hk.2 j hlt hj.1)

/-- A node that is reached is so at some distance. -/
theorem exists_atDist_le (h : ReachesIn sources s k v) : ∃ j ≤ k, AtDist sources s j v := by
  induction k using Nat.strong_induction_on with
  | _ k ih =>
      by_cases hmin : ∃ j < k, ReachesIn sources s j v
      · obtain ⟨j, hlt, hj⟩ := hmin
        obtain ⟨i, hle, hi⟩ := ih j hlt hj
        exact ⟨i, hle.trans hlt.le, hi⟩
      · exact ⟨k, le_rfl, h, fun j hlt hj => hmin ⟨j, hlt, hj⟩⟩

theorem exists_reachesIn_le_iff :
    (∃ j ≤ k, ReachesIn sources s j v) ↔ ∃ j ≤ k, AtDist sources s j v := by
  constructor
  · rintro ⟨j, hle, hj⟩
    obtain ⟨i, hi, hdist⟩ := exists_atDist_le hj
    exact ⟨i, hi.trans hle, hdist⟩
  · rintro ⟨j, hle, hj⟩
    exact ⟨j, hle, hj.1⟩

theorem AtDist.le_of_reachesIn (hk : AtDist sources s k v) (hj : ReachesIn sources s j v) : k ≤ j :=
  not_lt.1 fun hlt => hk.2 j hlt hj

theorem AtDist.exists_source (hj : AtDist sources s j u) (hlink : v ∈ sources u) :
    ∃ k ≤ j + 1, AtDist sources s k v :=
  exists_atDist_le ⟨u, hj.1, hlink⟩

/-- A node that a shortest walk goes through is at its own distance. -/
theorem AtDist.of_trans (h : AtDist sources s (k + j) v) (hk : ReachesIn sources s k u)
    (hj : ReachesIn sources u j v) : AtDist sources s k u := by
  refine ⟨hk, fun i hlt hi => ?_⟩
  exact h.2 (i + j) (Nat.add_lt_add_right hlt j) (hi.trans hj)

/-- A node is at the next distance when it is a source of one at this distance and is not reached
sooner. -/
theorem atDist_succ_iff : AtDist sources s (k + 1) v ↔
    (∃ u, AtDist sources s k u ∧ v ∈ sources u) ∧ ∀ j ≤ k, ¬AtDist sources s j v := by
  constructor
  · rintro ⟨⟨u, hreaches, hlink⟩, hmin⟩
    obtain ⟨j, hle, hu⟩ := exists_atDist_le hreaches
    refine ⟨⟨u, ?_, hlink⟩, fun j hle hj => hmin j (Nat.lt_succ_of_le hle) hj.1⟩
    obtain rfl | hlt := hle.eq_or_lt
    · exact hu
    · exact absurd ⟨u, hu.1, hlink⟩ (hmin (j + 1) (Nat.succ_lt_succ hlt))
  · rintro ⟨⟨u, hu, hlink⟩, hmin⟩
    refine ⟨⟨u, hu.1, hlink⟩, fun j hlt hj => ?_⟩
    obtain ⟨i, hle, hi⟩ := exists_atDist_le hj
    exact hmin i (hle.trans (Nat.le_of_lt_succ hlt)) hi

/-! ## Paths -/

section

variable (sources)

/-- A path from a node to another: each node on it is a source of the next one. -/
structure IsPath (t s : α) (p : List α) : Prop where
  head? : p.head? = some t
  getLast? : p.getLast? = some s
  chain : p.IsChain fun a b => a ∈ sources b

/-- A path that is no longer than any other. -/
structure IsShortestPath (t s : α) (p : List α) : Prop extends IsPath sources t s p where
  length_le : ∀ q, IsPath sources t s q → p.length ≤ q.length

end

variable {p q : List α}

theorem isPath_singleton_iff : IsPath sources t s [v] ↔ v = t ∧ v = s := by
  constructor
  · intro h
    exact ⟨Option.some.inj h.head?, Option.some.inj h.getLast?⟩
  · rintro ⟨rfl, rfl⟩
    exact ⟨rfl, rfl, List.isChain_singleton v⟩

/-- A path is followed by one from its second node on. -/
theorem isPath_cons_cons_iff : IsPath sources t s (v :: u :: p) ↔
    v = t ∧ v ∈ sources u ∧ IsPath sources u s (u :: p) := by
  constructor
  · intro h
    have hchain := List.isChain_cons_cons.1 h.chain
    exact ⟨Option.some.inj h.head?, hchain.1, rfl, h.getLast?, hchain.2⟩
  · rintro ⟨rfl, hlink, hpath⟩
    exact ⟨rfl, hpath.getLast?, List.isChain_cons_cons.2 ⟨hlink, hpath.chain⟩⟩

/-- A path is preceded by one up to its last node but one. -/
theorem isPath_concat_iff (hne : p ≠ []) : IsPath sources t s (p ++ [u]) ↔
    u = s ∧ ∃ v, IsPath sources t v p ∧ v ∈ sources u := by
  have hlast := List.getLast?_eq_some_getLast hne
  constructor
  · intro h
    have hhead := h.head?
    have hend := h.getLast?
    rw [List.head?_append_of_ne_nil p hne] at hhead
    rw [List.getLast?_concat] at hend
    obtain ⟨hchain, -, hlink⟩ := List.isChain_append.1 h.chain
    exact ⟨Option.some.inj hend, p.getLast hne, ⟨hhead, hlast, hchain⟩,
      hlink _ hlast u rfl⟩
  · rintro ⟨rfl, v, hpath, hlink⟩
    refine ⟨by rw [List.head?_append_of_ne_nil p hne, hpath.head?], List.getLast?_concat, ?_⟩
    refine List.isChain_append.2 ⟨hpath.chain, List.isChain_singleton u, ?_⟩
    rintro a ha b ⟨⟩
    obtain rfl := Option.some.inj (hpath.getLast?.symm.trans ha)
    exact hlink

/-- A path through a node is one up to it, and one from it on. -/
theorem isPath_append_cons_iff : IsPath sources t s (p ++ v :: q) ↔
    IsPath sources t v (p ++ [v]) ∧ IsPath sources v s (v :: q) := by
  have hhead : (p ++ v :: q).head? = (p ++ [v]).head? := by
    cases p with
    | nil => rfl
    | cons a p => rfl
  have hlast : (p ++ v :: q).getLast? = (v :: q).getLast? :=
    List.getLast?_append_of_ne_nil p (List.cons_ne_nil v q)
  constructor
  · intro h
    obtain ⟨hleft, hright⟩ := List.isChain_split.1 h.chain
    exact ⟨⟨hhead ▸ h.head?, List.getLast?_concat, hleft⟩, ⟨rfl, hlast ▸ h.getLast?, hright⟩⟩
  · rintro ⟨hleft, hright⟩
    exact ⟨hhead.trans hleft.head?, hlast.trans hright.getLast?,
      List.isChain_split.2 ⟨hleft.chain, hright.chain⟩⟩

theorem IsPath.ne_nil (h : IsPath sources t s p) : p ≠ [] := by
  rintro rfl
  cases h.head?

/-- A path with a link continues a path with one link less to a source of its last node. -/
theorem isPath_length_succ_iff : IsPath sources t s p ∧ p.length = k + 1 + 1 ↔
    ∃ q v, (IsPath sources t v q ∧ q.length = k + 1) ∧ v ∈ sources s ∧ q ++ [s] = p := by
  constructor
  · rintro ⟨hpath, hlength⟩
    obtain rfl | ⟨q, u, rfl⟩ := List.eq_nil_or_concat p
    · cases hlength
    rw [List.concat_eq_append] at hpath hlength ⊢
    rw [List.length_append, List.length_singleton, Nat.succ_inj] at hlength
    have hne : q ≠ [] := List.ne_nil_of_length_eq_add_one hlength
    obtain ⟨rfl, v, hpath, hlink⟩ := (isPath_concat_iff hne).1 hpath
    exact ⟨q, v, ⟨hpath, hlength⟩, hlink, rfl⟩
  · rintro ⟨q, v, ⟨hpath, hlength⟩, hlink, rfl⟩
    refine ⟨(isPath_concat_iff hpath.ne_nil).2 ⟨rfl, v, hpath, hlink⟩, ?_⟩
    rw [List.length_append, hlength, List.length_singleton]

/-- The first node of a path is reached in as many steps as the path has links. -/
theorem IsPath.reachesIn (h : IsPath sources t s p) (hlength : p.length = k + 1) :
    ReachesIn sources s k t := by
  induction p generalizing t k with
  | nil => cases hlength
  | cons v p ih =>
      cases p with
      | nil =>
          obtain ⟨rfl, rfl⟩ := isPath_singleton_iff.1 h
          obtain rfl : k = 0 := (Nat.succ.inj hlength).symm
          rfl
      | cons u p =>
          obtain ⟨rfl, hlink, hrest⟩ := isPath_cons_cons_iff.1 h
          obtain rfl : k = p.length + 1 := (Nat.succ.inj hlength).symm
          exact ⟨u, ih hrest rfl, hlink⟩

/-- A node that is reached in a number of steps begins a path of as many links. -/
theorem ReachesIn.exists_isPath (h : ReachesIn sources s k t) :
    ∃ p, IsPath sources t s p ∧ p.length = k + 1 := by
  induction k generalizing t with
  | zero =>
      obtain rfl : t = s := h
      exact ⟨[t], isPath_singleton_iff.2 ⟨rfl, rfl⟩, rfl⟩
  | succ k ih =>
      obtain ⟨u, hu, hlink⟩ := h
      obtain ⟨p, hpath, hlength⟩ := ih hu
      cases p with
      | nil => exact absurd rfl hpath.ne_nil
      | cons v p =>
          obtain rfl : v = u := Option.some.inj hpath.head?
          exact ⟨t :: v :: p, isPath_cons_cons_iff.2 ⟨rfl, hlink, hpath⟩,
            congrArg Nat.succ hlength⟩

/-- A path is a shortest one exactly when it has as many links as its first node is far. -/
theorem IsPath.isShortestPath_iff (h : IsPath sources t s p) (hlength : p.length = k + 1) :
    IsShortestPath sources t s p ↔ AtDist sources s k t := by
  constructor
  · intro hshortest
    refine ⟨h.reachesIn hlength, fun j hlt hreaches => ?_⟩
    obtain ⟨q, hq, hqlength⟩ := hreaches.exists_isPath
    have hle := hshortest.length_le q hq
    omega
  · intro hdist
    refine ⟨h, fun q hq => ?_⟩
    obtain ⟨j, hj⟩ := Nat.exists_eq_succ_of_ne_zero (List.length_pos_iff.2 hq.ne_nil).ne'
    have hle := hdist.le_of_reachesIn (hq.reachesIn hj)
    omega

/-- A shortest path starts from a node at a distance. -/
theorem IsShortestPath.exists_atDist (h : IsShortestPath sources t s p) :
    ∃ k, p.length = k + 1 ∧ AtDist sources s k t := by
  obtain ⟨k, hk⟩ := Nat.exists_eq_succ_of_ne_zero (List.length_pos_iff.2 h.ne_nil).ne'
  exact ⟨k, hk, (h.toIsPath.isShortestPath_iff hk).1 h⟩

/-- The shortest paths from a node at a distance are those with as many links. -/
theorem AtDist.isShortestPath_iff (h : AtDist sources s k t) :
    IsShortestPath sources t s p ↔ IsPath sources t s p ∧ p.length = k + 1 := by
  constructor
  · intro hshortest
    obtain ⟨j, hj, hdist⟩ := hshortest.exists_atDist
    obtain rfl := hdist.eq h
    exact ⟨hshortest.toIsPath, hj⟩
  · rintro ⟨hpath, hlength⟩
    exact (hpath.isShortestPath_iff hlength).2 h

/-- The rest of a shortest path is a shortest one. -/
theorem IsPath.atDist_tail (h : IsPath sources t s (v :: u :: p))
    (hdist : AtDist sources s (p.length + 1) t) : AtDist sources s p.length u := by
  obtain ⟨rfl, hlink, hrest⟩ := isPath_cons_cons_iff.1 h
  have hreaches := hrest.reachesIn rfl
  refine ⟨hreaches, fun j hlt hj => ?_⟩
  exact hdist.2 (j + 1) (Nat.succ_lt_succ hlt) ⟨u, hj, hlink⟩

/-- Each node of a shortest path is at its own distance. -/
theorem IsPath.pairwise_atDist (h : IsPath sources t s p) (hlength : p.length = k + 1)
    (hdist : AtDist sources s k t) :
    p.Nodup ∧ ∀ v ∈ p, ∃ j ≤ k, AtDist sources s j v := by
  induction p generalizing t k with
  | nil => cases hlength
  | cons v p ih =>
      obtain rfl : v = t := Option.some.inj h.head?
      cases p with
      | nil => exact ⟨List.nodup_singleton v, List.forall_mem_singleton.2 ⟨k, le_rfl, hdist⟩⟩
      | cons u p =>
          obtain rfl : k = p.length + 1 := (Nat.succ.inj hlength).symm
          obtain ⟨hnodup, hall⟩ := ih (isPath_cons_cons_iff.1 h).2.2 rfl (h.atDist_tail hdist)
          refine ⟨List.nodup_cons.2 ⟨fun hmem => ?_, hnodup⟩,
            List.forall_mem_cons.2 ⟨⟨_, le_rfl, hdist⟩, fun w hw => ?_⟩⟩
          · obtain ⟨j, hle, hj⟩ := hall v hmem
            have heq := hj.eq hdist
            omega
          · obtain ⟨j, hle, hj⟩ := hall w hw
            exact ⟨j, Nat.le_succ_of_le hle, hj⟩

end Lib
