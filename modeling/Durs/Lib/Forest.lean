/-
# Forests

A relation from parents to children in which every node has at most one parent and a rank one above
it.  The nodes a forest is about are those inside a set closed under children; outside it the
relation may be anything.
-/

import Mathlib.Data.List.Chain
import Mathlib.Data.List.Nodup
import Mathlib.Logic.Relation

namespace Lib

open Relation

universe u

variable {α : Type u} {r : α → α → Prop} {inside : α → Prop} {rank : α → Nat}

/-- Inside a set closed under children, parents are unique and ranked one below their children. -/
structure Forest (r : α → α → Prop) (inside : α → Prop) (rank : α → Nat) : Prop where
  closed : ∀ {p c : α}, inside p → r p c → inside c
  unique : ∀ {p q c : α}, inside p → inside q → r p c → r q c → p = q
  rank : ∀ {p c : α}, inside p → r p c → rank c = rank p + 1

namespace Forest

variable (h : Forest r inside rank) {a b c d i p : α} {l : List α}
include h

/-- What is below a node inside is inside. -/
theorem inside_of_below (ha : inside a) (hab : ReflTransGen r a b) : inside b := by
  induction hab with
  | refl => exact ha
  | tail _ hedge ih => exact h.closed ih hedge

theorem rank_le (ha : inside a) (hab : ReflTransGen r a b) : rank a ≤ rank b := by
  induction hab with
  | refl => exact Nat.le_refl _
  | tail hpath hedge ih =>
      rw [h.rank (h.inside_of_below ha hpath) hedge]
      exact Nat.le_succ_of_le ih

theorem rank_lt (ha : inside a) (hab : TransGen r a b) : rank a < rank b := by
  rcases TransGen.tail'_iff.1 hab with ⟨p, hpath, hedge⟩
  rw [h.rank (h.inside_of_below ha hpath) hedge]
  exact Nat.lt_succ_of_le (h.rank_le ha hpath)

/-- No rank but its own is found at a node, going down from it. -/
theorem eq_of_rank_eq (ha : inside a) (hab : ReflTransGen r a b) (hrank : rank a = rank b) :
    a = b := by
  rcases reflTransGen_iff_eq_or_transGen.1 hab with hsame | hbelow
  · exact hsame.symm
  · exact absurd hrank (Nat.ne_of_lt (h.rank_lt ha hbelow))

/-- Of two nodes above a third, one is above the other. -/
theorem comparable (ha : inside a) (hb : inside b) (hai : ReflTransGen r a i)
    (hbi : ReflTransGen r b i) : ReflTransGen r a b ∨ ReflTransGen r b a := by
  induction hai with
  | refl => exact .inr hbi
  | @tail j i haj hji ih =>
      cases hbi with
      | refl => exact .inl (haj.tail hji)
      | @tail j' _ hbj hji' =>
          have hsame := h.unique (h.inside_of_below hb hbj) (h.inside_of_below ha haj) hji' hji
          exact ih (hsame ▸ hbj)

/-- Nothing is below two children of one node. -/
theorem eq_of_siblings (hp : inside p) (hc : r p c) (hd : r p d) (hci : ReflTransGen r c i)
    (hdi : ReflTransGen r d i) : c = d := by
  have hinsideC := h.closed hp hc
  have hinsideD := h.closed hp hd
  have hrank : rank c = rank d := by rw [h.rank hp hc, h.rank hp hd]
  rcases h.comparable hinsideC hinsideD hci hdi with hcd | hdc
  · exact h.eq_of_rank_eq hinsideC hcd hrank
  · exact (h.eq_of_rank_eq hinsideD hdc hrank.symm).symm

/-! ## Lines of descent -/

omit h in
/-- Every node of a line of descent is below its first one. -/
theorem below_of_isChain (hl : (a :: l).IsChain r) :
    ∀ i ∈ l, TransGen r a i := by
  induction l generalizing a with
  | nil => simp
  | cons b l ih =>
      rcases List.isChain_cons_cons.1 hl with ⟨hab, hrest⟩
      intro i hi
      rcases List.mem_cons.1 hi with rfl | hi
      · exact .single hab
      · exact (ih hrest i hi).head hab

/-- A line of descent goes through no node twice. -/
theorem nodup_of_isChain (ha : inside a) (hl : (a :: l).IsChain r) : (a :: l).Nodup := by
  induction l generalizing a with
  | nil => exact List.nodup_singleton a
  | cons b l ih =>
      rcases List.isChain_cons_cons.1 hl with ⟨hab, hrest⟩
      refine List.nodup_cons.2 ⟨fun hmem => ?_, ih (h.closed ha hab) hrest⟩
      exact absurd (h.rank_lt ha (below_of_isChain hl a hmem)) (Nat.lt_irrefl _)

/-- A line of descent leads to every node below a node, one node for each rank gained. -/
theorem exists_isChain (ha : inside a) (hab : ReflTransGen r a b) :
    ∃ l : List α, (a :: l).IsChain r ∧ rank b = rank a + l.length ∧
      ∀ i ∈ l, ReflTransGen r a i := by
  induction hab using ReflTransGen.head_induction_on with
  | refl => exact ⟨[], List.isChain_singleton _, rfl, by simp⟩
  | @head a c hac hcb ih =>
      rcases ih (h.closed ha hac) with ⟨l, hchain, hrank, -⟩
      have hchain' : (a :: c :: l).IsChain r := List.isChain_cons_cons.2 ⟨hac, hchain⟩
      refine ⟨c :: l, hchain', ?_, fun i hi => (below_of_isChain hchain' i hi).to_reflTransGen⟩
      rw [hrank, h.rank ha hac, List.length_cons]
      omega

end Forest

end Lib
