/-
# Centralities

The nodes found from each enabled node are taken back from the furthest one on, and each passes what
it has received to the nodes before it on the shortest paths.  What a node receives in all counts
the shortest paths through it.
-/

import Durs.Wot.Exploration
import Mathlib.Data.Rat.Floor
import Mathlib.Tactic.FieldSimp

namespace Durs

open RustStd Lib

/-- What a node `w` passes to a node before it, of what `w` has received: the arguments are the
numbers of shortest paths to the two nodes, what `w` has received, and whether a path may end at
`w`. -/
abbrev Share := ℚ → ℚ → ℚ → Bool → ℚ

/-- Pass what a node has received to one node before it. -/
def passTo (share : Share) (enabled : Bool) (sigma : List ℚ) (w : NodeId) (delta : List ℚ)
    (v : NodeId) : Run (List ℚ) := do
  let deltaV ← indexed delta v
  let sigmaV ← indexed sigma v
  let sigmaW ← indexed sigma w
  let deltaW ← indexed delta w
  return delta.set v (deltaV + share sigmaV sigmaW deltaW enabled)

/-- Pass what a node has received to all the nodes before it. -/
def passAll (share : Share) (enabled : Bool) (search : Search) (w : NodeId) (delta : List ℚ) :
    Run (List ℚ) :=
  match search.paths.get? w with
  | some preds => preds.foldlM (passTo share enabled search.sigma w) delta
  | none => return delta

/-- Take a node from the stack. -/
def popNode (share : Share) (enabledNodes : List NodeId) (search : Search) (s : NodeId)
    (sums : List ℚ × List ℚ) (w : NodeId) : Run (List ℚ × List ℚ) := do
  let delta ← passAll share (enabledNodes.contains w) search w sums.1
  if w ≠ s then
    let centrality ← indexed sums.2 w
    let deltaW ← indexed delta w
    return (delta, sums.2.set w (centrality + deltaW))
  else return (delta, sums.2)

/-- Add what the shortest paths to an enabled node give. -/
def addPathsTo (share : Share) (within : Int → Bool) (wot : WebOfTrust) (fuel : Nat)
    (centralities : List ℚ) (s : NodeId) : Run (List ℚ) := do
  let search ← runSearch wot within fuel (.start wot.size s)
  let sums ← search.stack.reverse.foldlM (popNode share wot.getEnabled search s)
    (List.replicate wot.size 0, centralities)
  return sums.2

/-- `c as u64`, which drops the fraction and saturates. -/
def toU64 (c : ℚ) : Nat := min ⌊c⌋.toNat 18446744073709551615

/-- The three centralities differ in what a node passes on and in how far the search goes. -/
def centralities (share : Share) (within : Int → Bool) (wot : WebOfTrust) (fuel : Nat) :
    Run (List Nat) := do
  let centralities ← wot.getEnabled.foldlM (addPathsTo share within wot fuel)
    (List.replicate wot.size 0)
  return centralities.map toU64

/-- What is passed on for the betweenness. -/
def betweennessShare : Share := fun sigmaV sigmaW deltaW enabled =>
  if enabled then sigmaV / sigmaW * (1 + deltaW) else sigmaV / sigmaW * deltaW

/-- What is passed on for the stress. -/
def stressShare : Share := fun sigmaV sigmaW deltaW enabled =>
  if enabled then sigmaV * (1 + deltaW / sigmaW) else sigmaV * (deltaW / sigmaW)

/-- `step_max as isize`. -/
def asIsize (n : Nat) : Int :=
  if n < 9223372036854775808 then n else n - 18446744073709551616

/-- `betweenness_centralities`. -/
def betweennessCentralities (wot : WebOfTrust) (fuel : Nat) : Run (List Nat) :=
  centralities betweennessShare (fun _ => true) wot fuel

/-- `stress_centralities`. -/
def stressCentralities (wot : WebOfTrust) (fuel : Nat) : Run (List Nat) :=
  centralities stressShare (fun _ => true) wot fuel

/-- `distance_stress_centralities`. -/
def distanceStressCentralities (wot : WebOfTrust) (stepMax fuel : Nat) : Run (List Nat) :=
  centralities stressShare (fun d => d < asIsize stepMax) wot fuel

/-! ## One node of the stack -/

/-- A number of a vector. -/
def entry (l : List ℚ) (i : NodeId) : ℚ := l[i]?.getD 0

section

variable {share : Share} {enabled : Bool} {search : Search} {wotSize : Nat} {s v w : NodeId}
  {delta : List ℚ} {preds : List NodeId}

theorem indexed_entry {l : List ℚ} {i : NodeId} (h : i < l.length) :
    indexed l i = .ok (entry l i) :=
  indexed_eq h 0

theorem entry_set {l : List ℚ} {i : NodeId} (h : i < l.length) (j : NodeId) (a : ℚ) :
    entry (l.set i a) j = if j = i then a else entry l j :=
  getD_getElem?_set h j a 0

theorem passAll_eq : passAll share enabled search w delta =
    (search.preds w).foldlM (passTo share enabled search.sigma w) delta := by
  rw [passAll, Search.preds]
  cases search.paths.get? w with
  | none => rfl
  | some preds => rfl

/-- What a node passes to the nodes before it. -/
theorem foldlM_passTo (hsigma : search.sigma.length = wotSize) (hdelta : delta.length = wotSize)
    (hw : w < wotSize) (hnodup : preds.Nodup) (hnot : w ∉ preds) (hlt : ∀ v ∈ preds, v < wotSize) :
    ∃ delta', preds.foldlM (passTo share enabled search.sigma w) delta = .ok delta' ∧
      delta'.length = wotSize ∧ ∀ v, entry delta' v = entry delta v + if v ∈ preds then
        share (search.count v) (search.count w) (entry delta w) enabled else 0 := by
  induction preds generalizing delta with
  | nil =>
      refine ⟨delta, rfl, hdelta, fun v => ?_⟩
      rw [if_neg List.not_mem_nil, add_zero]
  | cons p preds ih =>
      have hp : p < wotSize := hlt p List.mem_cons_self
      have hstep : passTo share enabled search.sigma w delta p = .ok (delta.set p (entry delta p +
          share (search.count p) (search.count w) (entry delta w) enabled)) := by
        rw [passTo, indexed_entry (hdelta.symm ▸ hp), ok_bind, indexed_sigma (hsigma.symm ▸ hp),
          ok_bind, indexed_sigma (hsigma.symm ▸ hw), ok_bind, indexed_entry (hdelta.symm ▸ hw)]
        rfl
      have hne : w ≠ p := fun heq => hnot (heq ▸ List.mem_cons_self)
      have hset := entry_set (hdelta.symm ▸ hp) (a := entry delta p +
        share (search.count p) (search.count w) (entry delta w) enabled)
      rcases ih (List.length_set.trans hdelta) (List.nodup_cons.1 hnodup).2
        (fun hmem => hnot (List.mem_cons_of_mem p hmem))
        (fun v hv => hlt v (List.mem_cons_of_mem p hv)) with ⟨delta', hrun, hlength, hentry⟩
      refine ⟨delta', by rw [List.foldlM_cons, hstep, ok_bind, hrun], hlength, fun v => ?_⟩
      rw [hentry, hset, hset, if_neg hne]
      by_cases hv : v = p
      · rw [hv, if_pos rfl, if_neg (List.nodup_cons.1 hnodup).1, add_zero,
          if_pos List.mem_cons_self]
      · rw [if_neg hv]
        simp only [List.mem_cons, hv, false_or]

end

/-! ## The whole stack -/

/-- What a share is worth: what `w` gives by itself, and what it has received for each of its
shortest paths, for each shortest path to `v`. -/
def IsShare (share : Share) (gives : Bool → ℚ → ℚ) : Prop :=
  ∀ sigmaV sigmaW deltaW enabled, sigmaW ≠ 0 →
    share sigmaV sigmaW deltaW enabled = sigmaV * (gives enabled sigmaW + deltaW / sigmaW)

/-- The numbers found by taking nodes from the stack. -/
structure Popped (wot : WebOfTrust) (s : NodeId) (search : Search) (received : NodeId → ℚ)
    (weight : NodeId → ℚ) (before : List ℚ) (done : List NodeId) (sums : List ℚ × List ℚ) :
    Prop where
  delta_length : sums.1.length = wot.size
  length : sums.2.length = wot.size
  delta : ∀ v, entry sums.1 v = search.count v *
    ∑ w ∈ done.toFinset with v ∈ search.preds w, (weight w + received w)
  centrality : ∀ v, entry sums.2 v = entry before v +
    if v ∈ done ∧ v ≠ s then search.count v * received v else 0

section

variable {wot : WebOfTrust} {within : Int → Bool} {s v w : NodeId} {search : Search}
  {share : Share} {gives : Bool → ℚ → ℚ} {before : List ℚ} {done rest : List NodeId}
  {sums : List ℚ × List ℚ}

/-- What a node gives by itself. -/
def weightOf (wot : WebOfTrust) (gives : Bool → ℚ → ℚ) (search : Search) (w : NodeId) : ℚ :=
  gives (wot.getEnabled.contains w) (search.count w)

/-- What a node receives for each of its shortest paths. -/
def receivedOf (wot : WebOfTrust) (gives : Bool → ℚ → ℚ) (search : Search) (v : NodeId) : ℚ :=
  dependency wot.sources search.stack.toFinset (fun v => (search.dist v).toNat)
    (weightOf wot gives search) v

theorem mem_stack_of_reverse_eq (hstack : search.stack.reverse = done ++ w :: rest) :
    w ∈ search.stack := by
  rw [← List.mem_reverse, hstack]
  exact List.mem_append_right done List.mem_cons_self

/-- A node is taken only once. -/
theorem not_mem_done (h : Searching wot within s search)
    (hstack : search.stack.reverse = done ++ w :: rest) : w ∉ done := by
  have hnodup := List.nodup_reverse.2 h.nodup_stack
  rw [hstack] at hnodup
  exact fun hmem => List.disjoint_of_nodup_append hnodup hmem List.mem_cons_self

/-- No node is before itself on a shortest path. -/
theorem not_mem_preds_self (h : Searching wot within s search) (hq : search.q = [])
    (hw : w ∈ search.stack) : w ∉ search.preds w := by
  intro hmem
  have hdist := ((h.mem_preds_iff hq hw w).1 hmem).2.2
  omega

/-- The nodes after a node on the shortest paths are taken before it. -/
theorem filter_done (h : Searching wot within s search) (hq : search.q = [])
    (hstack : search.stack.reverse = done ++ w :: rest) :
    (done.toFinset.filter fun w' => w ∈ search.preds w') =
      search.stack.toFinset.filter fun w' =>
        w' ∈ wot.sources w ∧ (search.dist w').toNat = (search.dist w).toNat + 1 := by
  have hmem : ∀ w', w' ∈ search.stack ↔ w' ∈ done ∨ w' ∈ w :: rest := fun w' => by
    rw [← List.mem_reverse, hstack, List.mem_append]
  have hw := mem_stack_of_reverse_eq hstack
  have hsorted := List.pairwise_reverse.2 (h.sorted_stack hq)
  rw [hstack] at hsorted
  have hrest : ∀ w' ∈ w :: rest, search.dist w' ≤ search.dist w := by
    intro w' hw'
    rcases List.mem_cons.1 hw' with rfl | hw'
    · exact le_rfl
    · exact (List.pairwise_cons.1 (List.pairwise_append.1 hsorted).2.1).1 w' hw'
  ext w'
  rw [Finset.mem_filter, Finset.mem_filter, List.mem_toFinset, List.mem_toFinset]
  constructor
  · rintro ⟨hdone, hpred⟩
    have hw' := (hmem w').2 (.inl hdone)
    obtain ⟨-, hlink, hdist⟩ := (h.mem_preds_iff hq hw' w).1 hpred
    exact ⟨hw', hlink, (h.toNat_dist_eq_succ_iff hq hw hw').2 hdist⟩
  · rintro ⟨hw', hlink, hdist⟩
    have hdist := (h.toNat_dist_eq_succ_iff hq hw hw').1 hdist
    refine ⟨((hmem w').1 hw').resolve_right fun hc => ?_,
      (h.mem_preds_iff hq hw' w).2 ⟨hw, hlink, hdist⟩⟩
    have hle := hrest w' hc
    omega

/-- What a node has received when it is taken. -/
theorem Popped.delta_eq (hpopped : Popped wot s search (receivedOf wot gives search)
      (weightOf wot gives search) before done sums)
    (h : Searching wot within s search) (hq : search.q = [])
    (hstack : search.stack.reverse = done ++ w :: rest) :
    entry sums.1 w = search.count w * receivedOf wot gives search w := by
  have hw := mem_stack_of_reverse_eq hstack
  rw [hpopped.delta, filter_done h hq hstack, receivedOf,
    (h.levels hq).dependency_eq (List.mem_toFinset.2 hw)]
  rfl

/-- What a node passes to those before it when it is taken. -/
theorem Popped.exists_delta (hpopped : Popped wot s search (receivedOf wot gives search)
      (weightOf wot gives search) before done sums)
    (hshare : IsShare share gives) (h : Searching wot within s search) (hq : search.q = [])
    (hstack : search.stack.reverse = done ++ w :: rest) :
    ∃ delta, passAll share (wot.getEnabled.contains w) search w sums.1 = .ok delta ∧
      delta.length = wot.size ∧ ∀ v, entry delta v = entry sums.1 v + if v ∈ search.preds w then
        search.count v * (weightOf wot gives search w + receivedOf wot gives search w) else 0 := by
  have hw := mem_stack_of_reverse_eq hstack
  have hself := not_mem_preds_self h hq hw
  have hlt : ∀ v ∈ search.preds w, v < wot.size := fun v hv =>
    h.lt_size hq ((h.mem_preds_iff hq hw v).1 hv).1
  have hcount := h.count_ne_zero hq hw
  rcases foldlM_passTo h.sigma_length hpopped.delta_length (h.lt_size hq hw) h.nodup_preds hself hlt
    with ⟨delta, hrun, hlength, hentry⟩
  refine ⟨delta, passAll_eq.trans hrun, hlength, fun v => ?_⟩
  rw [hentry, hpopped.delta_eq h hq hstack, hshare _ _ _ _ hcount, mul_div_cancel_left₀ _ hcount]
  rfl

/-- What has been received once one more node is taken. -/
theorem Popped.delta_concat {received weight : NodeId → ℚ} {delta : List ℚ}
    (hpopped : Popped wot s search received weight before done sums) (hdone : w ∉ done)
    (hentry : ∀ v, entry delta v = entry sums.1 v + if v ∈ search.preds w then
      search.count v * (weight w + received w) else 0) (v : NodeId) :
    entry delta v = search.count v *
      ∑ w ∈ (done ++ [w]).toFinset with v ∈ search.preds w, (weight w + received w) := by
  have hinsert : (done ++ [w]).toFinset = insert w done.toFinset := by
    ext u
    simp
  have hnot : w ∉ done.toFinset.filter fun w => v ∈ search.preds w := fun hmem =>
    hdone (List.mem_toFinset.1 (Finset.mem_filter.1 hmem).1)
  rw [hentry, hpopped.delta, hinsert, Finset.filter_insert]
  split_ifs with hv
  · rw [Finset.sum_insert hnot]
    ring
  · rw [add_zero]

/-- Taking one more node from the stack. -/
theorem Popped.step (hpopped : Popped wot s search (receivedOf wot gives search)
      (weightOf wot gives search) before done sums)
    (hshare : IsShare share gives) (h : Searching wot within s search) (hq : search.q = [])
    (hstack : search.stack.reverse = done ++ w :: rest) :
    ∃ sums', popNode share wot.getEnabled search s sums w = .ok sums' ∧
      Popped wot s search (receivedOf wot gives search) (weightOf wot gives search) before
        (done ++ [w]) sums' := by
  have hw := mem_stack_of_reverse_eq hstack
  have hdone := not_mem_done h hstack
  have hself := not_mem_preds_self h hq hw
  have hlt := h.lt_size hq hw
  rcases hpopped.exists_delta hshare h hq hstack with ⟨delta, hrun, hlength, hentry⟩
  have hdelta := hpopped.delta_concat hdone hentry
  have hreceived : entry delta w = search.count w * receivedOf wot gives search w := by
    rw [hentry, if_neg hself, add_zero, hpopped.delta_eq h hq hstack]
  rw [popNode, hrun, ok_bind]
  by_cases hs : w = s
  · refine ⟨(delta, sums.2), if_neg (not_not.2 hs), hlength, hpopped.length, hdelta, fun v => ?_⟩
    have hiff : v ∈ done ++ [w] ∧ v ≠ s ↔ v ∈ done ∧ v ≠ s := by
      rw [List.mem_append, List.mem_singleton, hs]
      exact and_congr_left fun hne => or_iff_left hne
    rw [hpopped.centrality]
    exact congrArg _ (if_congr hiff.symm rfl rfl)
  · have hindex : w < sums.2.length := hpopped.length.symm ▸ hlt
    rw [if_pos hs, indexed_entry hindex, ok_bind, indexed_entry (hlength.symm ▸ hlt)]
    refine ⟨_, rfl, hlength, List.length_set.trans hpopped.length, hdelta, fun v => ?_⟩
    rw [entry_set hindex, hreceived, hpopped.centrality, hpopped.centrality]
    by_cases hv : v = w
    · rw [hv, if_pos rfl, if_neg fun hc => hdone hc.1, add_zero,
        if_pos ⟨List.mem_append_right done (List.mem_singleton.2 rfl), hs⟩]
    · have hiff : v ∈ done ++ [w] ↔ v ∈ done := by
        rw [List.mem_append, List.mem_singleton]
        exact or_iff_left hv
      rw [if_neg hv]
      exact congrArg _ (if_congr (and_congr_left fun _ => hiff.symm) rfl rfl)

/-- Taking all the nodes from the stack. -/
theorem Popped.exists_run (hpopped : Popped wot s search (receivedOf wot gives search)
      (weightOf wot gives search) before done sums)
    (hshare : IsShare share gives) (h : Searching wot within s search) (hq : search.q = [])
    (hstack : search.stack.reverse = done ++ rest) :
    ∃ sums', rest.foldlM (popNode share wot.getEnabled search s) sums = .ok sums' ∧
      Popped wot s search (receivedOf wot gives search) (weightOf wot gives search) before
        (done ++ rest) sums' := by
  induction rest generalizing done sums with
  | nil => exact ⟨sums, rfl, (List.append_nil done).symm ▸ hpopped⟩
  | cons w rest ih =>
      rcases hpopped.step hshare h hq hstack with ⟨mid, hmid, hpopped⟩
      rw [List.append_cons] at hstack
      rcases ih hpopped hstack with ⟨sums', hrun, hsums'⟩
      refine ⟨sums', by rw [List.foldlM_cons, hmid, ok_bind, hrun], ?_⟩
      rwa [List.append_cons]

theorem Popped.nil (hbefore : before.length = wot.size) :
    Popped wot s search (receivedOf wot gives search) (weightOf wot gives search) before []
      (List.replicate wot.size 0, before) where
  delta_length := List.length_replicate
  length := hbefore
  delta v := by
    rw [entry, Searching.getD_getElem?_replicate, List.toFinset_nil, Finset.filter_empty,
      Finset.sum_empty, mul_zero]
  centrality v := by
    rw [if_neg fun hc => List.not_mem_nil hc.1, add_zero]

end

/-! ## One enabled node -/

section

variable {wot : WebOfTrust} {within : Int → Bool} {s v : NodeId} {search : Search}
  {share : Share} {gives : Bool → ℚ → ℚ} {before : List ℚ} {fuel : Nat}

/-- The part of the centrality of a node that the shortest paths to an enabled node make. -/
def partOf (wot : WebOfTrust) (gives : Bool → ℚ → ℚ) (search : Search) (s v : NodeId) : ℚ :=
  if v = s then 0 else ∑ t ∈ search.stack.toFinset with t ≠ v ∧ t ≠ s,
    weightOf wot gives search t *
      ((walks wot.sources (search.dist t).toNat t s).filter fun p => v ∈ p).card

/-- What a node has received, in all the shortest paths to it, is its part. -/
theorem partOf_eq (h : Searching wot within s search) (hq : search.q = []) (v : NodeId) :
    partOf wot gives search s v =
      if v ∈ search.stack ∧ v ≠ s then search.count v * receivedOf wot gives search v else 0 := by
  rw [partOf]
  by_cases hs : v = s
  · rw [if_pos hs, if_neg fun hc => hc.2 hs]
  · rw [if_neg hs, (h.levels hq).sum_through hs]
    by_cases hv : v ∈ search.stack
    · rw [if_pos (List.mem_toFinset.2 hv), if_pos ⟨hv, hs⟩, h.count_eq hq hv, receivedOf]
    · rw [if_neg fun hc => hv (List.mem_toFinset.1 hc), if_neg fun hc => hv hc.1]

/-- The shortest paths to an enabled node are added once they are all known. -/
theorem addPathsTo_eq (hshare : IsShare share gives) (hs : s < wot.size)
    (hbefore : before.length = wot.size)
    (hrun : runSearch wot within fuel (.start wot.size s) = .ok search) :
    ∃ after, addPathsTo share within wot fuel before s = .ok after ∧ after.length = wot.size ∧
      ∀ v, entry after v = entry before v + partOf wot gives search s v := by
  obtain ⟨h, hq⟩ := (Searching.start hs).of_runSearch hrun
  rcases (Popped.nil hbefore).exists_run hshare h hq (List.nil_append _).symm with
    ⟨sums, hsums, hpopped⟩
  refine ⟨sums.2, ?_, hpopped.length, fun v => ?_⟩
  · rw [addPathsTo, hrun, ok_bind, hsums]
    rfl
  · rw [hpopped.centrality, partOf_eq h hq, List.nil_append]
    simp only [List.mem_reverse]

end

/-! ## All the enabled nodes -/

section

variable {wot : WebOfTrust} {within : Int → Bool} {s v : NodeId} {share : Share}
  {gives : Bool → ℚ → ℚ} {part : NodeId → NodeId → ℚ} {before after : List ℚ} {fuel : Nat}
  {l : List NodeId}

/-- What the shortest paths to each enabled node make of the centralities of the others, as they
are found by a search. -/
def HasParts (wot : WebOfTrust) (within : Int → Bool) (gives : Bool → ℚ → ℚ)
    (part : NodeId → NodeId → ℚ) : Prop :=
  ∀ s ∈ wot.getEnabled, ∀ search, Searching wot within s search → search.q = [] →
    ∀ v, partOf wot gives search s v = part s v

theorem lt_size_of_mem_getEnabled (h : s ∈ wot.getEnabled) : s < wot.size :=
  List.mem_range.1 (List.mem_filter.1 h).1

/-- The sums after some of the enabled nodes. -/
def Summed (wot : WebOfTrust) (part : NodeId → NodeId → ℚ) (done : List NodeId)
    (sums : List ℚ) : Prop :=
  sums.length = wot.size ∧ ∀ v, entry sums v = (done.map fun s => part s v).sum

/-- The sums with one more enabled node. -/
theorem Summed.step {done : List NodeId} (h : Summed wot part done before)
    (hshare : IsShare share gives) (hparts : HasParts wot within gives part)
    (hs : s ∈ wot.getEnabled) (hrun : addPathsTo share within wot fuel before s = .ok after) :
    KnownSearch wot within s ∧ Summed wot part (done ++ [s]) after := by
  have hlt := lt_size_of_mem_getEnabled hs
  obtain ⟨search, hsearch, -⟩ := bind_eq_ok_iff.1 hrun
  obtain ⟨hsearching, hq⟩ := (Searching.start hlt).of_runSearch hsearch
  rcases addPathsTo_eq hshare hlt h.1 hsearch with ⟨after', hrun', hlength, hentry⟩
  obtain rfl := Except.ok.inj (hrun'.symm.trans hrun)
  refine ⟨hsearching.knownSearch hq, hlength, fun v => ?_⟩
  rw [hentry, h.2, hparts s hs search hsearching hq, List.map_append, List.sum_append,
    List.map_singleton, List.sum_singleton]

/-- An enabled node is added when the search from it meets links from known nodes only. -/
theorem Summed.exists_step {done : List NodeId} (h : Summed wot part done before)
    (hshare : IsShare share gives) (hs : s ∈ wot.getEnabled) (hknown : KnownSearch wot within s) :
    ∃ after, addPathsTo share within wot (wot.size + 1) before s = .ok after := by
  have hlt := lt_size_of_mem_getEnabled hs
  rcases (Searching.start hlt).exists_runSearch hknown (Nat.lt_succ_self wot.size) with
    ⟨search, hsearch⟩
  rcases addPathsTo_eq hshare hlt h.1 hsearch with ⟨after, hrun, -⟩
  exact ⟨after, hrun⟩

theorem Summed.nil : Summed wot part [] (List.replicate wot.size 0) :=
  ⟨List.length_replicate, fun v => Searching.getD_getElem?_replicate wot.size v 0⟩

theorem nodup_getEnabled : wot.getEnabled.Nodup :=
  List.nodup_range.filter _

/-- The sums after all the enabled nodes. -/
theorem Summed.map_toU64 (h : Summed wot part wot.getEnabled after) :
    after.map toU64 = (List.range wot.size).map fun v =>
      toU64 (∑ s ∈ wot.getEnabled.toFinset, part s v) := by
  have hrange : after = (List.range wot.size).map (entry after) := by
    apply List.ext_getElem?
    intro v
    rcases Nat.lt_or_ge v after.length with hv | hv
    · rw [List.getElem?_map, List.getElem?_range (h.1 ▸ hv), Option.map_some, entry,
        List.getElem?_eq_getElem hv, Option.getD_some]
    · rw [List.getElem?_eq_none hv, List.getElem?_eq_none]
      rwa [List.length_map, List.length_range, ← h.1]
  rw [hrange, List.map_map]
  refine List.map_congr_left fun v _ => ?_
  rw [Function.comp, h.2, List.sum_toFinset _ nodup_getEnabled]

/-- The centralities in terms of the parts. -/
theorem centralities_eq_ok_iff (hshare : IsShare share gives)
    (hparts : HasParts wot within gives part) (result : List Nat) :
    (∃ fuel, centralities share within wot fuel = .ok result) ↔
      (∀ s ∈ wot.getEnabled, KnownSearch wot within s) ∧
        result = (List.range wot.size).map fun v =>
          toU64 (∑ s ∈ wot.getEnabled.toFinset, part s v) := by
  have hstep : ∀ (fuel : Nat) (done : List NodeId), ∀ s ∈ wot.getEnabled, ∀ before after,
      Summed wot part done before → addPathsTo share within wot fuel before s = .ok after →
        KnownSearch wot within s ∧ Summed wot part (done ++ [s]) after :=
    fun _ _ _ hs _ _ h => h.step hshare hparts hs
  constructor
  · rintro ⟨fuel, hrun⟩
    rcases bind_eq_ok_iff.1 hrun with ⟨after, hfold, hafter⟩
    obtain rfl := pure_eq_ok_iff.1 hafter
    obtain ⟨hknown, hsummed⟩ := foldlM_of_steps (hstep fuel) [] Summed.nil hfold
    exact ⟨hknown, hsummed.map_toU64⟩
  · rintro ⟨hknown, rfl⟩
    obtain ⟨after, hfold⟩ := exists_foldlM_of_steps (hstep (wot.size + 1))
      (fun _ _ hs _ h => h.exists_step hshare hs) [] Summed.nil hknown
    have hsummed := (foldlM_of_steps (hstep (wot.size + 1)) [] Summed.nil hfold).2
    refine ⟨wot.size + 1, ?_⟩
    rw [centralities, hfold, ok_bind, ← hsummed.map_toU64]
    rfl

end

end Durs
