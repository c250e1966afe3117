/-
# Counting walks and shortest paths

Walks of a given number of links between two nodes are finitely many, and can be counted from either
end.  Around a root, the nodes up to some distance are arranged in levels.  The shortest paths to
the root through a node, weighted by their first nodes, are then counted by a recurrence on the
nodes of the next level.
-/

import Durs.Lib.Walks
import Mathlib.Algebra.BigOperators.Group.Finset.Sigma
import Mathlib.Algebra.Order.BigOperators.Group.Finset
import Mathlib.Algebra.BigOperators.Ring.Finset
import Mathlib.Data.Finset.Prod
import Mathlib.Tactic.Ring

namespace Lib

universe u w

variable {α : Type u} [DecidableEq α] {sources : α → Finset α} {s t u v : α} {j k : ℕ}

/-! ## Walks -/

/-- The walks of a number of links, as the paths that they follow. -/
def walks (sources : α → Finset α) : ℕ → α → α → Finset (List α)
  | 0, t, s => if t = s then {[s]} else ∅
  | k + 1, t, s => (sources s).biUnion fun c => (walks sources k t c).image (· ++ [s])

/-- The number of walks of a number of links. -/
def walkCount (sources : α → Finset α) (k : ℕ) (t s : α) : ℕ := (walks sources k t s).card

theorem mem_walks_iff {p : List α} :
    p ∈ walks sources k t s ↔ IsPath sources t s p ∧ p.length = k + 1 := by
  induction k generalizing s p with
  | zero =>
      rw [walks]
      constructor
      · intro h
        split_ifs at h with heq
        · subst heq
          rw [Finset.mem_singleton.1 h]
          exact ⟨isPath_singleton_iff.2 ⟨rfl, rfl⟩, rfl⟩
        · cases Finset.notMem_empty p h
      · rintro ⟨hpath, hlength⟩
        obtain ⟨v, rfl⟩ := List.length_eq_one_iff.1 hlength
        obtain ⟨rfl, rfl⟩ := isPath_singleton_iff.1 hpath
        rw [if_pos rfl, Finset.mem_singleton]
  | succ k ih =>
      rw [walks, Finset.mem_biUnion, isPath_length_succ_iff]
      constructor
      · rintro ⟨c, hc, hp⟩
        obtain ⟨q, hq, hp⟩ := Finset.mem_image.1 hp
        exact ⟨q, c, ih.1 hq, hc, hp⟩
      · rintro ⟨q, c, hq, hc, hp⟩
        exact ⟨c, hc, Finset.mem_image.2 ⟨q, ih.2 hq, hp⟩⟩

theorem AtDist.mem_walks_iff (h : AtDist sources s k t) {p : List α} :
    p ∈ walks sources k t s ↔ IsShortestPath sources t s p :=
  Lib.mem_walks_iff.trans h.isShortestPath_iff.symm

@[simp]
theorem walkCount_zero : walkCount sources 0 t s = if t = s then 1 else 0 := by
  rw [walkCount, walks]
  split_ifs <;> rfl

/-- Walks counted from their last links. -/
theorem walkCount_succ :
    walkCount sources (k + 1) t s = ∑ c ∈ sources s, walkCount sources k t c := by
  rw [walkCount, walks, Finset.card_biUnion]
  · refine Finset.sum_congr rfl fun c _ => Finset.card_image_of_injective _ fun p q heq => ?_
    exact List.append_left_injective [s] heq
  · intro c _ c' _ hne
    rw [Function.onFun, Finset.disjoint_left]
    intro p hp hp'
    obtain ⟨q, hq, rfl⟩ := Finset.mem_image.1 hp
    obtain ⟨q', hq', heq⟩ := Finset.mem_image.1 hp'
    obtain rfl := List.append_left_injective [s] heq
    have hlast := (mem_walks_iff.1 hq).1.getLast?
    rw [(mem_walks_iff.1 hq').1.getLast?] at hlast
    exact hne (Option.some.inj hlast).symm

/-- There are few walks when each node has few sources. -/
theorem walkCount_le_pow {b : ℕ} (hb : ∀ v, (sources v).card ≤ b) :
    walkCount sources k t s ≤ b ^ k := by
  induction k generalizing s with
  | zero =>
      rw [walkCount_zero, Nat.pow_zero]
      split_ifs <;> decide
  | succ k ih =>
      calc
        walkCount sources (k + 1) t s = ∑ c ∈ sources s, walkCount sources k t c := walkCount_succ
        _ ≤ (sources s).card * b ^ k := Finset.sum_le_card_nsmul _ _ _ fun c _ => ih
        _ ≤ b * b ^ k := Nat.mul_le_mul_right _ (hb s)
        _ = b ^ (k + 1) := (Nat.pow_succ').symm

theorem walkCount_ne_zero_iff : walkCount sources k t s ≠ 0 ↔ ReachesIn sources s k t := by
  rw [walkCount, Finset.card_ne_zero]
  constructor
  · rintro ⟨p, hp⟩
    obtain ⟨hpath, hlength⟩ := mem_walks_iff.1 hp
    exact hpath.reachesIn hlength
  · intro h
    obtain ⟨p, hp⟩ := h.exists_isPath
    exact ⟨p, mem_walks_iff.2 hp⟩

theorem walkCount_eq_zero (h : ¬ReachesIn sources s k t) : walkCount sources k t s = 0 :=
  of_not_not fun hne => h (walkCount_ne_zero_iff.1 hne)

/-- Walks counted from their first links, among enough nodes. -/
theorem walkCount_succ_left {U : Finset α}
    (hU : ∀ v, ReachesIn sources s k v → t ∈ sources v → v ∈ U) :
    walkCount sources (k + 1) t s = ∑ v ∈ U with t ∈ sources v, walkCount sources k v s := by
  induction k generalizing s with
  | zero =>
      simp only [walkCount_succ, walkCount_zero, Finset.sum_ite_eq, Finset.sum_ite_eq',
        Finset.mem_filter]
      exact if_congr (iff_and_self.2 fun hlink => hU s rfl hlink) rfl rfl
  | succ k ih =>
      have hstep : ∀ c ∈ sources s, ∀ v, ReachesIn sources c k v → t ∈ sources v → v ∈ U := by
        intro c hc v hv
        have htrans : ReachesIn sources s (1 + k) v := ReachesIn.trans ⟨s, rfl, hc⟩ hv
        rw [Nat.add_comm] at htrans
        exact hU v htrans
      calc
        walkCount sources (k + 1 + 1) t s
          = ∑ c ∈ sources s, ∑ v ∈ U with t ∈ sources v, walkCount sources k v c := by
            rw [walkCount_succ]
            exact Finset.sum_congr rfl fun c hc => ih (hstep c hc)
        _ = ∑ v ∈ U with t ∈ sources v, ∑ c ∈ sources s, walkCount sources k v c :=
            Finset.sum_comm
        _ = ∑ v ∈ U with t ∈ sources v, walkCount sources (k + 1) v s :=
            Finset.sum_congr rfl fun v _ => walkCount_succ.symm

/-- The shortest paths through a node go first to it, then on from it. -/
theorem mem_walks_through_iff (hv : AtDist sources s j v) (ht : AtDist sources s k t)
    {p : List α} : p ∈ walks sources k t s ∧ v ∈ p ↔
      ∃ a ∈ walks sources (k - j) t v, ∃ b ∈ walks sources j v s, a ++ b.tail = p := by
  constructor
  · rintro ⟨hp, hmem⟩
    obtain ⟨hpath, hlength⟩ := mem_walks_iff.1 hp
    obtain ⟨a, b, rfl⟩ := List.append_of_mem hmem
    obtain ⟨hleft, hright⟩ := isPath_append_cons_iff.1 hpath
    have hk : k = b.length + a.length := by
      rw [List.length_append, List.length_cons] at hlength
      omega
    subst hk
    have hj : b.length = j :=
      (ht.of_trans (hright.reachesIn rfl) (hleft.reachesIn List.length_append)).eq hv
    refine ⟨a ++ [v], mem_walks_iff.2 ⟨hleft, ?_⟩, v :: b, mem_walks_iff.2 ⟨hright, ?_⟩, ?_⟩
    · rw [← hj, Nat.add_sub_cancel_left, List.length_append, List.length_singleton]
    · rw [← hj, List.length_cons]
    · rw [List.tail_cons, List.append_assoc, List.singleton_append]
  · rintro ⟨a, ha, b, hb, rfl⟩
    obtain ⟨hleft, halength⟩ := mem_walks_iff.1 ha
    obtain ⟨hright, hblength⟩ := mem_walks_iff.1 hb
    have hle : j ≤ k := by
      by_contra hlt
      rw [Nat.sub_eq_zero_of_le (not_le.1 hlt).le] at halength
      obtain rfl : t = v := hleft.reachesIn halength
      exact hlt (hv.eq ht).le
    rcases List.eq_nil_or_concat a with rfl | ⟨a, w, rfl⟩
    · cases halength
    rcases b with _ | ⟨w', b⟩
    · cases hblength
    rw [List.concat_eq_append] at hleft halength ⊢
    obtain rfl : w = v := Option.some.inj (List.getLast?_concat.symm.trans hleft.getLast?)
    obtain rfl : w' = w := Option.some.inj hright.head?
    rw [List.tail_cons, List.append_assoc, List.singleton_append]
    refine ⟨mem_walks_iff.2 ⟨isPath_append_cons_iff.2 ⟨hleft, hright⟩, ?_⟩,
      List.mem_append_right a List.mem_cons_self⟩
    rw [List.length_append, List.length_singleton] at halength
    rw [List.length_append, hblength]
    omega

/-- The number of shortest paths between two nodes through a third one. -/
theorem card_walks_through (hv : AtDist sources s j v) (ht : AtDist sources s k t) :
    ((walks sources k t s).filter fun p => v ∈ p).card =
      walkCount sources (k - j) t v * walkCount sources j v s := by
  have himage : ((walks sources k t s).filter fun p => v ∈ p) =
      (walks sources (k - j) t v ×ˢ walks sources j v s).image
        fun pair => pair.1 ++ pair.2.tail := by
    ext p
    rw [Finset.mem_filter, mem_walks_through_iff hv ht, Finset.mem_image]
    simp only [Prod.exists, Finset.mem_product, and_assoc, exists_and_left]
  rw [himage, Finset.card_image_of_injOn, Finset.card_product, walkCount, walkCount]
  rintro ⟨a, b⟩ hab ⟨a', b'⟩ hab' heq
  obtain ⟨ha, hb⟩ := Finset.mem_product.1 (Finset.mem_coe.1 hab)
  obtain ⟨ha', hb'⟩ := Finset.mem_product.1 (Finset.mem_coe.1 hab')
  have hlength : a.length = a'.length :=
    (mem_walks_iff.1 ha).2.trans (mem_walks_iff.1 ha').2.symm
  obtain ⟨rfl, htail⟩ := List.append_inj heq hlength
  have hhead := (mem_walks_iff.1 hb).1.head?.trans (mem_walks_iff.1 hb').1.head?.symm
  have hcons : b = b' := by
    rcases b with _ | ⟨w, b⟩
    · cases (mem_walks_iff.1 hb).2
    rcases b' with _ | ⟨w', b'⟩
    · cases (mem_walks_iff.1 hb').2
    rw [Option.some.inj hhead, show b = b' from htail]
  rw [hcons]

/-! ## Levels around a root -/

/-- Nodes around a root, with their distances: all the nodes that are no further than one of them
are there. -/
structure Levels (sources : α → Finset α) (s : α) (U : Finset α) (dist : α → ℕ) : Prop where
  atDist : ∀ v ∈ U, AtDist sources s (dist v) v
  closed : ∀ w ∈ U, ∀ k ≤ dist w, ∀ v, AtDist sources s k v → v ∈ U

/-- The weighted number of walks that come to a node straight from further ones. -/
def dependency {R : Type w} [CommSemiring R] (sources : α → Finset α) (U : Finset α) (dist : α → ℕ)
    (weight : α → R) (v : α) : R :=
  ∑ t ∈ U with dist v < dist t, weight t * walkCount sources (dist t - dist v) t v

namespace Levels

variable {U : Finset α} {dist : α → ℕ}

omit [DecidableEq α] in
theorem dist_eq (h : Levels sources s U dist) (hv : v ∈ U) (hk : AtDist sources s k v) :
    dist v = k :=
  (h.atDist v hv).eq hk

/-- The shortest paths to the root are counted from their first links. -/
theorem walkCount_root (h : Levels sources s U dist) {w : α} (hw : w ∈ U) (hne : w ≠ s) :
    walkCount sources (dist w) w s =
      ∑ v ∈ U with w ∈ sources v ∧ dist w = dist v + 1, walkCount sources (dist v) v s := by
  obtain ⟨k, hk⟩ : ∃ k, dist w = k + 1 := by
    refine Nat.exists_eq_succ_of_ne_zero fun hzero => hne ?_
    have hdist := h.atDist w hw
    rwa [hzero, atDist_zero_iff] at hdist
  have hdist : AtDist sources s (k + 1) w := hk ▸ h.atDist w hw
  have hlevel : ∀ v, ReachesIn sources s k v → w ∈ sources v → AtDist sources s k v := by
    intro v hv hlink
    refine ⟨hv, fun j hlt hj => ?_⟩
    exact hdist.2 (j + 1) (Nat.succ_lt_succ hlt) ⟨v, hj, hlink⟩
  have hU : ∀ v, ReachesIn sources s k v → w ∈ sources v → v ∈ U := fun v hv hlink =>
    h.closed w hw k (hk ▸ Nat.le_succ k) v (hlevel v hv hlink)
  have hne_zero : ∀ v ∈ U.filter fun v => w ∈ sources v, walkCount sources k v s ≠ 0 →
      dist w = dist v + 1 := by
    intro v hv hwalks
    obtain ⟨hv, hlink⟩ := Finset.mem_filter.1 hv
    rw [hk, h.dist_eq hv (hlevel v (walkCount_ne_zero_iff.1 hwalks) hlink)]
  rw [hk, walkCount_succ_left hU, ← Finset.sum_filter_of_ne hne_zero, Finset.filter_filter, hk]
  refine Finset.sum_congr rfl fun v hv => ?_
  rw [Nat.succ.inj (Finset.mem_filter.1 hv).2.2]

omit [DecidableEq α] in
/-- The last links of a walk that comes straight from a further node start at the next level. -/
theorem mem_next_of_reachesIn (h : Levels sources s U dist) {w : α} (hv : v ∈ U) (ht : t ∈ U)
    (hlt : dist v < dist t) (hlink : w ∈ sources v)
    (hreaches : ReachesIn sources w (dist t - dist v - 1) t) : w ∈ U ∧ dist w = dist v + 1 := by
  obtain ⟨j, hle, hw⟩ := (h.atDist v hv).exists_source hlink
  have hge := (h.atDist t ht).le_of_reachesIn (hw.1.trans hreaches)
  obtain rfl : j = dist v + 1 := by omega
  have hU := h.closed t ht (dist v + 1) hlt w hw
  exact ⟨hU, h.dist_eq hU hw⟩

section

variable {R : Type w} [CommSemiring R] {weight : α → R}

/-- The walks from the nodes that are no closer, the empty one among them. -/
theorem weight_add_dependency (hw : v ∈ U) :
    weight v + dependency sources U dist weight v =
      ∑ t ∈ U with dist v ≤ dist t, weight t * walkCount sources (dist t - dist v) t v := by
  have hself : weight v = ∑ t ∈ U, if t = v then weight v else 0 := by
    rw [Finset.sum_ite_eq' U v fun _ => weight v, if_pos hw]
  rw [dependency, Finset.sum_filter, Finset.sum_filter]
  nth_rewrite 1 [hself]
  rw [← Finset.sum_add_distrib]
  refine Finset.sum_congr rfl fun t _ => ?_
  obtain hlt | heq | hgt := lt_trichotomy (dist v) (dist t)
  · have hne : t ≠ v := by
      rintro rfl
      exact lt_irrefl _ hlt
    rw [if_neg hne, if_pos hlt, if_pos hlt.le, zero_add]
  · rw [if_neg heq.not_lt, if_pos heq.le, heq, Nat.sub_self, walkCount_zero, add_zero]
    split_ifs with htv
    · rw [htv, Nat.cast_one, mul_one]
    · rw [Nat.cast_zero, mul_zero]
  · have hne : t ≠ v := by
      rintro rfl
      exact lt_irrefl _ hgt
    rw [if_neg hne, if_neg hgt.not_gt, if_neg hgt.not_ge, zero_add]

/-- The walks that come to a node come through the next level. -/
theorem dependency_eq (h : Levels sources s U dist) (hv : v ∈ U) :
    dependency sources U dist weight v =
      ∑ w ∈ U with w ∈ sources v ∧ dist w = dist v + 1,
        (weight w + dependency sources U dist weight w) := by
  have hlast : ∀ t ∈ U.filter fun t => dist v < dist t,
      walkCount sources (dist t - dist v) t v =
        ∑ w ∈ U with w ∈ sources v ∧ dist w = dist v + 1,
          walkCount sources (dist t - dist v - 1) t w := by
    intro t ht
    obtain ⟨ht, hlt⟩ := Finset.mem_filter.1 ht
    have hstep : dist t - dist v = dist t - dist v - 1 + 1 := by omega
    rw [hstep, walkCount_succ, Nat.add_sub_cancel]
    symm
    refine Finset.sum_subset (fun w hw => (Finset.mem_filter.1 hw).2.1) fun w hlink hnot => ?_
    refine walkCount_eq_zero fun hreaches => hnot (Finset.mem_filter.2 ?_)
    obtain ⟨hw, hdist⟩ := h.mem_next_of_reachesIn hv ht hlt hlink hreaches
    exact ⟨hw, hlink, hdist⟩
  calc
    dependency sources U dist weight v
      = ∑ t ∈ U with dist v < dist t, ∑ w ∈ U with w ∈ sources v ∧ dist w = dist v + 1,
          weight t * (walkCount sources (dist t - dist v - 1) t w : R) := by
        refine Finset.sum_congr rfl fun t ht => ?_
        rw [hlast t ht, Nat.cast_sum, Finset.mul_sum]
    _ = ∑ w ∈ U with w ∈ sources v ∧ dist w = dist v + 1, ∑ t ∈ U with dist v < dist t,
          weight t * (walkCount sources (dist t - dist v - 1) t w : R) := Finset.sum_comm
    _ = _ := by
        refine Finset.sum_congr rfl fun w hw => ?_
        obtain ⟨hw, -, hdist⟩ := Finset.mem_filter.1 hw
        rw [weight_add_dependency hw, hdist]
        rfl

/-- The weighted number of shortest paths to the root through a node. -/
theorem sum_through (h : Levels sources s U dist) (hne : v ≠ s) :
    (∑ t ∈ U with t ≠ v ∧ t ≠ s,
      weight t * (((walks sources (dist t) t s).filter fun p => v ∈ p).card : R)) =
    if v ∈ U then walkCount sources (dist v) v s * dependency sources U dist weight v else 0 := by
  split_ifs with hv
  · have hsubset : (U.filter fun t => dist v < dist t) ⊆ U.filter fun t => t ≠ v ∧ t ≠ s := by
      intro t ht
      obtain ⟨ht, hlt⟩ := Finset.mem_filter.1 ht
      refine Finset.mem_filter.2 ⟨ht, ?_, ?_⟩
      · rintro rfl
        exact lt_irrefl _ hlt
      · rintro rfl
        rw [h.dist_eq ht (atDist_zero_iff.2 rfl)] at hlt
        exact Nat.not_lt_zero _ hlt
    rw [dependency, Finset.mul_sum, ← Finset.sum_subset hsubset]
    · refine Finset.sum_congr rfl fun t ht => ?_
      obtain ⟨ht, -⟩ := Finset.mem_filter.1 ht
      rw [card_walks_through (h.atDist v hv) (h.atDist t ht), Nat.cast_mul]
      ring
    · intro t ht hnot
      obtain ⟨ht, hne, -⟩ := Finset.mem_filter.1 ht
      have hle : dist t ≤ dist v := not_lt.1 fun hlt => hnot (Finset.mem_filter.2 ⟨ht, hlt⟩)
      rw [card_walks_through (h.atDist v hv) (h.atDist t ht), Nat.sub_eq_zero_of_le hle,
        walkCount_zero, if_neg hne, Nat.zero_mul, Nat.cast_zero, mul_zero]
  · refine Finset.sum_eq_zero fun t ht => ?_
    obtain ⟨ht, -⟩ := Finset.mem_filter.1 ht
    rw [Finset.card_eq_zero.2, Nat.cast_zero, mul_zero]
    refine Finset.filter_eq_empty_iff.2 fun p hp hmem => hv ?_
    obtain ⟨hpath, hlength⟩ := mem_walks_iff.1 hp
    obtain ⟨j, hle, hj⟩ := (hpath.pairwise_atDist hlength (h.atDist t ht)).2 v hmem
    exact h.closed t ht j hle v hj

end

end Levels

end Lib
