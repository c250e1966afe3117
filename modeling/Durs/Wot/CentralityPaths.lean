/-
# Centralities count paths

The stress of a node is the number of shortest paths between enabled nodes that it is inside of, and
its betweenness adds up the fractions of the shortest paths between each pair.  The three functions
compute them, as long as the searches only meet known nodes and the numbers fit in a `u64`.
-/

import Durs.Wot.Centrality

namespace Durs

open RustStd Lib

/-! ## Paths between pairs -/

/-- The ordered pairs of distinct enabled nodes, other than a node. -/
def otherPairs (wot : WebOfTrust) (v : NodeId) : Finset (NodeId × NodeId) :=
  (wot.getEnabled.toFinset ×ˢ wot.getEnabled.toFinset).filter fun pair =>
    pair.1 ≠ pair.2 ∧ pair.1 ≠ v ∧ pair.2 ≠ v

/-- The number of shortest paths between the nodes of a pair, through a node. -/
noncomputable def pathsThrough (wot : WebOfTrust) (v : NodeId) (pair : NodeId × NodeId) : ℕ :=
  {p | IsShortestPath wot.sources pair.1 pair.2 p ∧ v ∈ p}.ncard

/-- The same, of at most a number of links. -/
noncomputable def pathsThroughWithin (wot : WebOfTrust) (stepMax : Nat) (v : NodeId)
    (pair : NodeId × NodeId) : ℕ :=
  {p | IsShortestPath wot.sources pair.1 pair.2 p ∧ v ∈ p ∧ p.length ≤ stepMax + 1}.ncard

/-- The number of shortest paths between the nodes of a pair. -/
noncomputable def pathsBetween (wot : WebOfTrust) (pair : NodeId × NodeId) : ℕ :=
  {p | IsShortestPath wot.sources pair.1 pair.2 p}.ncard

/-- The number of shortest paths that a node is inside of. -/
noncomputable def stress (wot : WebOfTrust) (v : NodeId) : ℕ :=
  ∑ pair ∈ otherPairs wot v, pathsThrough wot v pair

/-- The same, of the paths of at most a number of links. -/
noncomputable def distanceStress (wot : WebOfTrust) (stepMax : Nat) (v : NodeId) : ℕ :=
  ∑ pair ∈ otherPairs wot v, pathsThroughWithin wot stepMax v pair

open Classical in
/-- The fractions of shortest paths that a node is inside of, for the connected pairs. -/
noncomputable def betweenness (wot : WebOfTrust) (v : NodeId) : ℚ :=
  ∑ pair ∈ otherPairs wot v with ∃ p, IsPath wot.sources pair.1 pair.2 p,
    (pathsThrough wot v pair : ℚ) / pathsBetween wot pair

section

variable {wot : WebOfTrust} {within : Int → Bool} {s t v : NodeId} {search : Search}
  {gives : Bool → ℚ → ℚ} {value : NodeId → NodeId × NodeId → ℚ}

/-- The part of an enabled node, as a sum over the other ends of the paths. -/
def partFrom (wot : WebOfTrust) (value : NodeId → NodeId × NodeId → ℚ) (s v : NodeId) : ℚ :=
  if v = s then 0 else ∑ t ∈ wot.getEnabled.toFinset with t ≠ v ∧ t ≠ s, value v (t, s)

/-- The parts add up to the pairs. -/
theorem sum_partFrom (v : NodeId) : ∑ s ∈ wot.getEnabled.toFinset, partFrom wot value s v =
    ∑ pair ∈ otherPairs wot v, value v pair := by
  rw [otherPairs, Finset.sum_filter, Finset.sum_product_right]
  refine Finset.sum_congr rfl fun s _ => ?_
  rw [partFrom, Finset.sum_filter]
  by_cases hs : v = s
  · rw [if_pos hs, Finset.sum_eq_zero]
    intro t _
    exact if_neg fun hc => hc.2.2 hs.symm
  · rw [if_neg hs]
    refine Finset.sum_congr rfl fun t _ => if_congr ?_ rfl rfl
    rw [and_iff_left (Ne.symm hs), and_comm]

/-- The value of a pair, as a search to its second node counts it. -/
def Counts (wot : WebOfTrust) (within : Int → Bool) (gives : Bool → ℚ → ℚ)
    (value : NodeId → NodeId × NodeId → ℚ) : Prop :=
  ∀ s search, Searching wot within s search → search.q = [] → ∀ t ≠ s, ∀ v,
    value v (t, s) = if t ∈ search.stack then gives true (search.count t) *
      ((walks wot.sources (search.dist t).toNat t s).filter fun p => v ∈ p).card else 0

/-- Only enabled nodes give anything. -/
theorem Counts.hasParts (h : Counts wot within gives value)
    (hfalse : ∀ sigma, gives false sigma = 0) :
    HasParts wot within gives (partFrom wot value) := by
  intro s _ search hsearching hq v
  have hweight : ∀ t, weightOf wot gives search t =
      if t ∈ wot.getEnabled then gives true (search.count t) else 0 := by
    intro t
    rw [weightOf]
    split_ifs with ht
    · rw [List.contains_iff_mem.2 ht]
    · rw [Bool.eq_false_iff.2 fun hc => ht (List.contains_iff_mem.1 hc), hfalse]
  rw [partOf, partFrom]
  refine if_congr Iff.rfl rfl ?_
  calc
    _ = ∑ t ∈ search.stack.toFinset with t ≠ v ∧ t ≠ s, if t ∈ wot.getEnabled.toFinset then
          gives true (search.count t) *
            (((walks wot.sources (search.dist t).toNat t s).filter fun p => v ∈ p).card : ℚ)
          else 0 := by
        refine Finset.sum_congr rfl fun t _ => ?_
        rw [hweight]
        simp only [List.mem_toFinset, ite_mul, zero_mul]
    _ = ∑ t ∈ wot.getEnabled.toFinset with t ≠ v ∧ t ≠ s, if t ∈ search.stack.toFinset then
          gives true (search.count t) *
            (((walks wot.sources (search.dist t).toNat t s).filter fun p => v ∈ p).card : ℚ)
          else 0 := by
        rw [← Finset.sum_filter, ← Finset.sum_filter]
        refine Finset.sum_congr ?_ fun _ _ => rfl
        ext t
        simp only [Finset.mem_filter]
        tauto
    _ = _ := by
        refine Finset.sum_congr rfl fun t ht => ?_
        rw [h s search hsearching hq t (Finset.mem_filter.1 ht).2.2 v]
        simp only [List.mem_toFinset]

theorem ncard_setOf_eq_zero {α : Type} {P : α → Prop} (h : ∀ a, ¬P a) : {a | P a}.ncard = 0 :=
  ncard_setOf_eq_card (s := ∅) fun a => iff_of_false (Finset.notMem_empty a) (h a)

/-- What a search says of the shortest paths from a node that it finds. -/
theorem mem_filter_walks_iff (h : Searching wot within s search) (hq : search.q = [])
    (ht : t ∈ search.stack) (v : NodeId) (p : List NodeId) :
    (p ∈ (walks wot.sources (search.dist t).toNat t s).filter fun p => v ∈ p) ↔
      IsShortestPath wot.sources t s p ∧ v ∈ p := by
  rw [Finset.mem_filter, ((h.levels hq).atDist t (List.mem_toFinset.2 ht)).mem_walks_iff]

/-- Each path counts for one. -/
def stressGives (enabled : Bool) (_ : ℚ) : ℚ := if enabled then 1 else 0

theorem counts_pathsThrough :
    Counts wot (fun _ => true) stressGives fun v pair => pathsThrough wot v pair := by
  intro s search h hq t _ v
  beta_reduce
  split_ifs with ht
  · rw [stressGives, if_pos rfl, one_mul, pathsThrough,
      ncard_setOf_eq_card (mem_filter_walks_iff h hq ht v)]
  · rw [pathsThrough, ncard_setOf_eq_zero, Nat.cast_zero]
    rintro p ⟨hp, -⟩
    obtain ⟨k, -, hdist⟩ := hp.exists_atDist
    exact ht (h.found_of_atDist hq hdist fun _ _ => rfl).1

/-- Each path of the fraction that it is of the paths from the same node. -/
def betweennessGives (enabled : Bool) (sigma : ℚ) : ℚ := if enabled then 1 / sigma else 0

open Classical in
theorem counts_fractions :
    Counts wot (fun _ => true) betweennessGives fun v pair =>
      if ∃ p, IsPath wot.sources pair.1 pair.2 p then
        (pathsThrough wot v pair : ℚ) / pathsBetween wot pair else 0 := by
  intro s search h hq t _ v
  beta_reduce
  by_cases ht : t ∈ search.stack
  · have hdist := (h.levels hq).atDist t (List.mem_toFinset.2 ht)
    obtain ⟨p, hp, -⟩ := hdist.1.exists_isPath
    have hbetween : pathsBetween wot (t, s) = walkCount wot.sources (search.dist t).toNat t s :=
      ncard_setOf_eq_card fun p => hdist.mem_walks_iff
    rw [if_pos ht, if_pos ⟨p, hp⟩, betweennessGives, if_pos rfl, h.count_eq hq ht, hbetween,
      pathsThrough, ncard_setOf_eq_card (mem_filter_walks_iff h hq ht v), one_div_mul_eq_div]
  · rw [if_neg ht, if_neg]
    rintro ⟨p, hp⟩
    obtain ⟨k, hk⟩ := Nat.exists_eq_succ_of_ne_zero (List.length_pos_iff.2 hp.ne_nil).ne'
    obtain ⟨j, -, hdist⟩ := exists_atDist_le (hp.reachesIn hk)
    exact ht (h.found_of_atDist hq hdist fun _ _ => rfl).1

theorem counts_pathsThroughWithin {stepMax : Nat} :
    Counts wot (fun d => d < stepMax) stressGives fun v pair =>
      pathsThroughWithin wot stepMax v pair := by
  intro s search h hq t _ v
  beta_reduce
  split_ifs with ht
  · rcases h.atDist_of_mem hq ht with ⟨k, -, hdist, hbelow⟩
    have hle : k ≤ stepMax := by
      by_contra hlt
      have hself := of_decide_eq_true (hbelow stepMax (not_le.1 hlt))
      exact lt_irrefl _ hself
    rw [stressGives, if_pos rfl, one_mul, pathsThroughWithin, ncard_setOf_eq_card fun p => ?_]
    rw [mem_filter_walks_iff h hq ht]
    refine and_congr_right fun hp => (and_iff_left_of_imp fun _ => ?_).symm
    rw [(hdist.isShortestPath_iff.1 hp).2]
    exact Nat.succ_le_succ hle
  · rw [pathsThroughWithin, ncard_setOf_eq_zero, Nat.cast_zero]
    rintro p ⟨hp, -, hle⟩
    obtain ⟨k, hk, hdist⟩ := hp.exists_atDist
    refine ht (h.found_of_atDist hq hdist fun j hj => decide_eq_true ?_).1
    omega

/-- A search that may not go anywhere counts nothing. -/
theorem counts_zero {limit : Int} (hlimit : limit < 0) :
    Counts wot (fun d => d < limit) stressGives fun _ _ => 0 := by
  intro s search h hq t hts v
  rw [if_neg]
  intro ht
  rcases h.atDist_of_mem hq ht with ⟨k, -, hdist, hbelow⟩
  cases k with
  | zero => exact hts (atDist_zero_iff.1 hdist)
  | succ k =>
      have hlt := of_decide_eq_true (hbelow 0 (Nat.succ_pos k))
      omega

end

/-! ## The centralities -/

theorem isShare_stressShare : IsShare stressShare stressGives := by
  intro sigmaV sigmaW deltaW enabled _
  cases enabled with
  | true => rfl
  | false => exact congrArg (sigmaV * ·) (zero_add (deltaW / sigmaW)).symm

theorem isShare_betweennessShare : IsShare betweennessShare betweennessGives := by
  intro sigmaV sigmaW deltaW enabled hne
  cases enabled with
  | true =>
      change sigmaV / sigmaW * (1 + deltaW) = sigmaV * (1 / sigmaW + deltaW / sigmaW)
      field_simp
  | false =>
      change sigmaV / sigmaW * deltaW = sigmaV * (0 + deltaW / sigmaW)
      field_simp
      ring

theorem toU64_natCast (n : ℕ) : toU64 n = min n 18446744073709551615 := by
  rw [toU64, Int.floor_natCast, Int.toNat_natCast]

theorem toNat_floor_eq_toU64_iff {c : ℚ} :
    ⌊c⌋.toNat = toU64 c ↔ c < 18446744073709551616 := by
  have hlt : ⌊c⌋ < 18446744073709551616 ↔ c < 18446744073709551616 := Int.floor_lt
  rw [← hlt, toU64]
  omega

section

variable {wot : WebOfTrust} {within : Int → Bool} {share : Share} {gives : Bool → ℚ → ℚ}
  {value : NodeId → NodeId × NodeId → ℚ} {s : NodeId} {stepMax : Nat}

/-- The centralities are sums over pairs when the searches meet known nodes and no sum is out of
range. -/
theorem exists_centralities_iff (hshare : IsShare share gives)
    (hfalse : ∀ sigma, gives false sigma = 0) (hcounts : Counts wot within gives value)
    (expected : NodeId → Nat) :
    (∃ fuel, centralities share within wot fuel = .ok ((List.range wot.size).map expected)) ↔
      (∀ s ∈ wot.getEnabled, KnownSearch wot within s) ∧
        ∀ v < wot.size, expected v = toU64 (∑ pair ∈ otherPairs wot v, value v pair) := by
  rw [centralities_eq_ok_iff hshare (hcounts.hasParts hfalse)]
  refine and_congr_right fun _ => List.map_inj_left.trans (forall_congr' fun v => ?_)
  rw [List.mem_range, sum_partFrom]

theorem knownSearch_true_iff :
    KnownSearch wot (fun _ => true) s ↔ ∀ steps, wot.KnownWithin s steps := by
  constructor
  · intro h steps k _ v hdist
    exact h k v hdist fun _ _ => rfl
  · intro h k v hdist _
    exact h (k + 1) k (Nat.lt_succ_self k) v hdist

theorem knownSearch_lt_iff :
    KnownSearch wot (fun d => d < stepMax) s ↔ wot.KnownWithin s stepMax := by
  constructor
  · intro h k hlt v hdist
    exact h k v hdist fun j hle => decide_eq_true (by omega)
  · intro h k v hdist hbelow
    exact h k (Int.ofNat_lt.1 (of_decide_eq_true (hbelow k le_rfl))) v hdist

theorem knownSearch_of_neg {limit : Int} (hlimit : limit < 0) :
    KnownSearch wot (fun d => d < limit) s := by
  intro k v _ hbelow
  have hlt := of_decide_eq_true (hbelow 0 (Nat.zero_le k))
  omega

/-- The search from each enabled node meets known nodes only, and the numbers fit in a `u64`. -/
structure StressFits (wot : WebOfTrust) : Prop where
  known : ∀ s ∈ wot.getEnabled, ∀ steps, wot.KnownWithin s steps
  fits : ∀ v < wot.size, stress wot v < 18446744073709551616

/-- The same, within some steps; more than an `isize` can hold are negative as one, and nothing is
counted. -/
structure DistanceStressFits (wot : WebOfTrust) (stepMax : Nat) : Prop where
  known : stepMax < 9223372036854775808 → ∀ s ∈ wot.getEnabled, wot.KnownWithin s stepMax
  fits : stepMax < 9223372036854775808 →
    ∀ v < wot.size, distanceStress wot stepMax v < 18446744073709551616
  zero : 9223372036854775808 ≤ stepMax → ∀ v < wot.size, distanceStress wot stepMax v = 0

structure BetweennessFits (wot : WebOfTrust) : Prop where
  known : ∀ s ∈ wot.getEnabled, ∀ steps, wot.KnownWithin s steps
  fits : ∀ v < wot.size, betweenness wot v < 18446744073709551616

theorem exists_stressCentralities_iff :
    (∃ fuel, stressCentralities wot fuel = .ok ((List.range wot.size).map (stress wot))) ↔
      StressFits wot := by
  unfold stressCentralities
  rw [exists_centralities_iff isShare_stressShare (fun _ => rfl) counts_pathsThrough]
  simp only [knownSearch_true_iff, ← Nat.cast_sum, toU64_natCast]
  constructor
  · rintro ⟨hknown, hfits⟩
    refine ⟨hknown, fun v hv => ?_⟩
    have hv := hfits v hv
    rw [← stress] at hv
    omega
  · rintro ⟨hknown, hfits⟩
    refine ⟨hknown, fun v hv => ?_⟩
    have hv := hfits v hv
    rw [← stress]
    omega

theorem asIsize_of_lt (h : stepMax < 9223372036854775808) : asIsize stepMax = stepMax :=
  if_pos h

theorem asIsize_neg (h : 9223372036854775808 ≤ stepMax) (hstep : stepMax < 18446744073709551616) :
    asIsize stepMax < 0 := by
  rw [asIsize, if_neg (not_lt.2 h)]
  omega

theorem exists_distanceStressCentralities_iff (hstep : stepMax < 18446744073709551616) :
    (∃ fuel, distanceStressCentralities wot stepMax fuel =
      .ok ((List.range wot.size).map (distanceStress wot stepMax))) ↔
      DistanceStressFits wot stepMax := by
  unfold distanceStressCentralities
  rcases Nat.lt_or_ge stepMax 9223372036854775808 with hlt | hge
  · rw [asIsize_of_lt hlt, exists_centralities_iff isShare_stressShare (fun _ => rfl)
      counts_pathsThroughWithin]
    simp only [knownSearch_lt_iff, ← Nat.cast_sum, toU64_natCast]
    constructor
    · rintro ⟨hknown, hfits⟩
      refine ⟨fun _ => hknown, fun _ v hv => ?_, fun hge => absurd hlt (not_lt.2 hge)⟩
      have hv := hfits v hv
      rw [← distanceStress] at hv
      omega
    · intro h
      refine ⟨h.known hlt, fun v hv => ?_⟩
      have hv := h.fits hlt v hv
      rw [← distanceStress]
      omega
  · have hneg := asIsize_neg hge hstep
    rw [exists_centralities_iff isShare_stressShare (fun _ => rfl) (counts_zero hneg)]
    simp only [Finset.sum_const_zero]
    constructor
    · rintro ⟨-, hzero⟩
      exact ⟨fun hlt => absurd hge (not_le.2 hlt), fun hlt => absurd hge (not_le.2 hlt),
        fun _ => hzero⟩
    · intro h
      exact ⟨fun s _ => knownSearch_of_neg hneg, h.zero hge⟩

/-- The two stress centralities count the shortest paths exactly when the searches meet known nodes
only, the numbers fit in a `u64` and the number of steps in an `isize`. -/
theorem stressCentralities_iff (wot : WebOfTrust) (hstep : stepMax < 18446744073709551616) :
    ((∃ fuel, stressCentralities wot fuel = .ok ((List.range wot.size).map (stress wot))) ∧
      ∃ fuel, distanceStressCentralities wot stepMax fuel =
        .ok ((List.range wot.size).map (distanceStress wot stepMax))) ↔
    StressFits wot ∧ DistanceStressFits wot stepMax :=
  and_congr exists_stressCentralities_iff (exists_distanceStressCentralities_iff hstep)

/-- The betweenness centralities are the integer parts of the sums of fractions exactly when the
searches meet known nodes only and the sums fit in a `u64`. -/
theorem betweennessCentralities_iff (wot : WebOfTrust) :
    (∃ fuel, betweennessCentralities wot fuel =
      .ok ((List.range wot.size).map fun v => ⌊betweenness wot v⌋.toNat)) ↔
    BetweennessFits wot := by
  unfold betweennessCentralities
  rw [exists_centralities_iff isShare_betweennessShare (fun _ => rfl) counts_fractions]
  simp only [knownSearch_true_iff, ← Finset.sum_filter]
  constructor
  · rintro ⟨hknown, hfits⟩
    exact ⟨hknown, fun v hv => toNat_floor_eq_toU64_iff.1 (hfits v hv)⟩
  · rintro ⟨hknown, hfits⟩
    exact ⟨hknown, fun v hv => toNat_floor_eq_toU64_iff.2 (hfits v hv)⟩

end

/-! ## Small webs of trust -/

section

variable {wot : WebOfTrust} {s t v : NodeId} {stepMax : Nat}

theorem card_sources_le (hknown : ∀ v < wot.size, ∀ u ∈ wot.sources v, u < wot.size) (v : NodeId) :
    (wot.sources v).card ≤ wot.size := by
  refine (Finset.card_le_card fun u hu => Finset.mem_range.2 ?_).trans_eq
    (Finset.card_range wot.size)
  exact hknown v (WebOfTrust.lt_size_of_mem_sources hu) u hu

/-- There are fewer shortest paths between two nodes than there are ways to choose nodes. -/
theorem pathsThrough_le (hknown : ∀ v < wot.size, ∀ u ∈ wot.sources v, u < wot.size)
    (hs : s < wot.size) (v : NodeId) : pathsThrough wot v (t, s) ≤ wot.size ^ wot.size := by
  by_cases hdist : ∃ k, AtDist wot.sources s k t
  · rcases hdist with ⟨k, hk⟩
    obtain ⟨p, hp, hlength⟩ := hk.1.exists_isPath
    obtain ⟨hnodup, hall⟩ := hp.pairwise_atDist hlength hk
    have hle : p.length ≤ wot.size := by
      rw [← List.length_range (n := wot.size)]
      refine (List.subperm_of_subset hnodup fun u hu => List.mem_range.2 ?_).length_le
      obtain ⟨j, -, hj⟩ := hall u hu
      exact (WebOfTrust.knownWithin_of_forall hknown s j).lt_size hs le_rfl hj
    calc
      pathsThrough wot v (t, s) = ((walks wot.sources k t s).filter fun p => v ∈ p).card :=
        ncard_setOf_eq_card fun p => by rw [Finset.mem_filter, hk.mem_walks_iff]
      _ ≤ walkCount wot.sources k t s := Finset.card_filter_le _ _
      _ ≤ wot.size ^ k := walkCount_le_pow (card_sources_le hknown)
      _ ≤ wot.size ^ wot.size := Nat.pow_le_pow_right (Nat.zero_lt_of_lt hs) (by omega)
  · rw [pathsThrough, ncard_setOf_eq_zero]
    · exact Nat.zero_le _
    · rintro p ⟨hp, -⟩
      obtain ⟨k, -, hk⟩ := hp.exists_atDist
      exact hdist ⟨k, hk⟩

theorem card_otherPairs_le (v : NodeId) : (otherPairs wot v).card ≤ wot.size * wot.size := by
  have hle : wot.getEnabled.toFinset.card ≤ wot.size := by
    refine (List.toFinset_card_le _).trans ((List.length_filter_le _ _).trans_eq ?_)
    exact List.length_range
  refine (Finset.card_filter_le _ _).trans ?_
  rw [Finset.card_product]
  exact Nat.mul_le_mul hle hle

theorem stress_le (hknown : ∀ v < wot.size, ∀ u ∈ wot.sources v, u < wot.size) (v : NodeId) :
    stress wot v ≤ wot.size * wot.size * wot.size ^ wot.size := by
  refine (Finset.sum_le_card_nsmul _ _ (wot.size ^ wot.size) fun pair hpair => ?_).trans
    (Nat.mul_le_mul_right _ (card_otherPairs_le v))
  have hmem := (Finset.mem_product.1 (Finset.mem_filter.1 hpair).1).2
  exact pathsThrough_le hknown (lt_size_of_mem_getEnabled (List.mem_toFinset.1 hmem)) v

/-- There are finitely many shortest paths between two nodes. -/
theorem finite_shortestPaths (wot : WebOfTrust) (t s : NodeId) :
    {p | IsShortestPath wot.sources t s p}.Finite := by
  by_cases hdist : ∃ k, AtDist wot.sources s k t
  · rcases hdist with ⟨k, hk⟩
    exact (walks wot.sources k t s).finite_toSet.subset fun p hp => hk.mem_walks_iff.2 hp
  · refine Set.finite_empty.subset fun p hp => hdist ?_
    obtain ⟨k, -, hk⟩ := IsShortestPath.exists_atDist hp
    exact ⟨k, hk⟩

theorem distanceStress_le_stress (wot : WebOfTrust) (stepMax : Nat) (v : NodeId) :
    distanceStress wot stepMax v ≤ stress wot v := by
  refine Finset.sum_le_sum fun pair _ => Set.ncard_le_ncard (fun p hp => ⟨hp.1, hp.2.1⟩) ?_
  exact (finite_shortestPaths wot pair.1 pair.2).subset fun p hp => hp.1

/-- No node is inside of more than all the shortest paths of a pair. -/
theorem betweenness_le (wot : WebOfTrust) (v : NodeId) :
    betweenness wot v ≤ (wot.size * wot.size : ℕ) := by
  classical
  refine (Finset.sum_le_card_nsmul _ _ 1 fun pair _ => ?_).trans ?_
  · refine div_le_one_of_le₀ (Nat.cast_le.2 ?_) (Nat.cast_nonneg _)
    exact Set.ncard_le_ncard (fun p hp => hp.1) (finite_shortestPaths wot pair.1 pair.2)
  · rw [nsmul_one]
    exact Nat.cast_le.2 ((Finset.card_filter_le _ _).trans (card_otherPairs_le v))

/-- The stress centralities are right in a small web of trust without a link from an unknown
node. -/
theorem stressFits_of_forall (hknown : ∀ v < wot.size, ∀ u ∈ wot.sources v, u < wot.size)
    (hsize : wot.size * wot.size * wot.size ^ wot.size < 18446744073709551616) :
    StressFits wot where
  known s _ := WebOfTrust.knownWithin_of_forall hknown s
  fits v _ := (stress_le hknown v).trans_lt hsize

theorem distanceStressFits_of_forall (hknown : ∀ v < wot.size, ∀ u ∈ wot.sources v, u < wot.size)
    (hsize : wot.size * wot.size * wot.size ^ wot.size < 18446744073709551616)
    (hstep : stepMax < 9223372036854775808) : DistanceStressFits wot stepMax where
  known _ s _ := WebOfTrust.knownWithin_of_forall hknown s stepMax
  fits _ v _ := ((distanceStress_le_stress wot stepMax v).trans (stress_le hknown v)).trans_lt hsize
  zero hge := absurd hstep (not_lt.2 hge)

/-- The betweenness centralities are right without a link from an unknown node, unless there are
too many nodes. -/
theorem betweennessFits_of_forall (hknown : ∀ v < wot.size, ∀ u ∈ wot.sources v, u < wot.size)
    (hsize : wot.size < 4294967296) : BetweennessFits wot where
  known s _ := WebOfTrust.knownWithin_of_forall hknown s
  fits v _ := by
    have hpairs : wot.size * wot.size < 18446744073709551616 := Nat.mul_lt_mul'' hsize hsize
    exact (betweenness_le wot v).trans_lt (by exact_mod_cast hpairs)

end

theorem stressCentralities_diamondWot :
    (∃ fuel, stressCentralities diamondWot fuel =
      .ok ((List.range diamondWot.size).map (stress diamondWot))) ∧
    ∃ fuel, distanceStressCentralities diamondWot 2 fuel =
      .ok ((List.range diamondWot.size).map (distanceStress diamondWot 2)) :=
  (stressCentralities_iff diamondWot (by decide)).2
    ⟨stressFits_of_forall (by decide) (by decide),
      distanceStressFits_of_forall (by decide) (by decide) (by decide)⟩

/-- The search from a node that a removed node had certified stops the process. -/
theorem not_knownSearch_danglingWot : ¬KnownSearch danglingWot (fun _ => true) 1 := by
  intro h
  exact absurd (h 0 1 (atDist_zero_iff.2 rfl) (fun _ _ => rfl) 2 (by decide)) (by decide)

theorem not_stressCentralities_danglingWot :
    ¬((∃ fuel, stressCentralities danglingWot fuel =
        .ok ((List.range danglingWot.size).map (stress danglingWot))) ∧
      ∃ fuel, distanceStressCentralities danglingWot 2 fuel =
        .ok ((List.range danglingWot.size).map (distanceStress danglingWot 2))) := by
  rintro ⟨hstress, -⟩
  have hknown := (exists_stressCentralities_iff.1 hstress).known 1 (by decide)
  exact not_knownSearch_danglingWot (knownSearch_true_iff.2 hknown)

theorem not_betweennessCentralities_danglingWot :
    ¬∃ fuel, betweennessCentralities danglingWot fuel =
      .ok ((List.range danglingWot.size).map fun v => ⌊betweenness danglingWot v⌋.toNat) := by
  intro hbetweenness
  have hknown := ((exists_centralities_iff isShare_betweennessShare (fun _ => rfl)
    counts_fractions _).1 hbetweenness).1 1 (by decide)
  exact not_knownSearch_danglingWot hknown

end Durs
