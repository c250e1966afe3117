/-
# Counting the shortest paths from a node

The search goes from a node against the certifications, in the order of the distances.  It keeps the
nodes in that order, and for each of them its distance, the number of shortest paths and the nodes
that come before it on these.
-/

import Durs.Lib.PathCounts
import Durs.Wot.Graph
import Mathlib.Algebra.Order.Ring.Rat

namespace Durs

open RustStd Lib

/-- Index into a vector. -/
def indexed {α : Type} (l : List α) (i : Nat) : Run α := expect l[i]? "index out of bounds"

/-- The state of the search, with the floating point numbers read as rationals. -/
structure Search where
  stack : List NodeId
  paths : HashMap NodeId (List NodeId)
  sigma : List ℚ
  d : List Int
  q : List NodeId

/-- The search before its first step. -/
def Search.start (wotSize : Nat) (s : NodeId) : Search :=
  { stack := [], paths := ∅, sigma := (List.replicate wotSize 0).set s 1
    d := (List.replicate wotSize (-1)).set s 0, q := [s] }

/-- Queue a node that is found for the first time, with its distance. -/
def Search.discover (search : Search) (w : NodeId) (dw : Int) : Search :=
  { search with q := search.q ++ [w], d := search.d.set w dw }

/-- Count the shortest paths to `w` via `v`, if any. -/
def linkSource (v : NodeId) (search : Search) (w : NodeId) : Run Search := do
  let dw ← indexed search.d w
  let dv ← indexed search.d v
  if dw = dv + 1 then
    let sigmaW ← indexed search.sigma w
    let sigmaV ← indexed search.sigma v
    return { search with
      sigma := search.sigma.set w (sigmaW + sigmaV), paths := search.paths.push w v }
  else return search

/-- Follow one link. -/
def visitSource (v : NodeId) (search : Search) (w : NodeId) : Run Search := do
  let dw ← indexed search.d w
  if dw < 0 then
    let dv ← indexed search.d v
    linkSource v (search.discover w (dv + 1)) w
  else linkSource v search w

/-- Take a node from the queue, and follow its links unless it is as far as one may go. -/
def visit (wot : WebOfTrust) (within : Int → Bool) (search : Search) (v : NodeId) :
    Run Search := do
  let search := { search with stack := search.stack ++ [v] }
  let dv ← indexed search.d v
  if within dv then
    let sources ← expect (wot.getLinksSource v) "v don't have any source !"
    sources.foldlM (visitSource v) search
  else return search

/-- `while !q.is_empty()`. -/
def runSearch (wot : WebOfTrust) (within : Int → Bool) : Nat → Search → Run Search
  | 0, _ => .error .outOfFuel
  | fuel + 1, search =>
    match search.q with
    | [] => return search
    | v :: q => do runSearch wot within fuel (← visit wot within { search with q } v)

namespace Search

/-- The distance of a node, negative when it is not found. -/
def dist (search : Search) (w : NodeId) : Int := search.d[w]?.getD (-1)

/-- The number of shortest paths to a node. -/
def count (search : Search) (w : NodeId) : ℚ := search.sigma[w]?.getD 0

/-- The nodes that come before a node on the shortest paths. -/
def preds (search : Search) (w : NodeId) : List NodeId := (search.paths.get? w).getD []

end Search

/-! ## One link -/

theorem getD_getElem?_set {α : Type} {l : List α} {i : Nat} (h : i < l.length) (j : Nat) (a b : α) :
    (l.set i a)[j]?.getD b = if j = i then a else l[j]?.getD b := by
  by_cases hj : j = i
  · subst hj
    rw [if_pos rfl, List.getElem?_set_self h, Option.getD_some]
  · rw [if_neg hj, List.getElem?_set_ne (Ne.symm hj)]

section

variable {v w : NodeId} {search search' : Search}

theorem indexed_eq {α : Type} {l : List α} {i : Nat} (h : i < l.length) (b : α) :
    indexed l i = .ok (l[i]?.getD b) := by
  rw [indexed, List.getElem?_eq_getElem h, expect_some, Option.getD_some]

theorem indexed_d (h : w < search.d.length) : indexed search.d w = .ok (search.dist w) :=
  indexed_eq h (-1)

theorem indexed_sigma (h : w < search.sigma.length) :
    indexed search.sigma w = .ok (search.count w) :=
  indexed_eq h 0

theorem lt_length_of_indexed {α : Type} {l : List α} {i : Nat} {a : α} (h : indexed l i = .ok a) :
    i < l.length :=
  (List.getElem?_eq_some_iff.1 (expect_eq_ok_iff.1 h)).1

theorem lt_of_dist_nonneg (h : 0 ≤ search.dist v) : v < search.d.length := by
  by_contra hlt
  rw [Search.dist, List.getElem?_eq_none (not_lt.1 hlt)] at h
  exact absurd h (by decide)

/-- What counting the paths via a node changes. -/
structure Linked (v w : NodeId) (search search' : Search) : Prop where
  stack : search'.stack = search.stack
  q : search'.q = search.q
  d : search'.d = search.d
  sigma_length : search'.sigma.length = search.sigma.length
  count : ∀ u, search'.count u =
    search.count u + if u = w ∧ search.dist w = search.dist v + 1 then search.count v else 0
  preds : ∀ u, search'.preds u =
    search.preds u ++ if u = w ∧ search.dist w = search.dist v + 1 then [v] else []

theorem Linked.dist (h : Linked v w search search') (u : NodeId) :
    search'.dist u = search.dist u :=
  congrArg (fun d => (d[u]?).getD (-1)) h.d

theorem exists_linkSource (hsigma : search.sigma.length = search.d.length)
    (hv : v < search.d.length) (hw : w < search.d.length) :
    ∃ search', linkSource v search w = .ok search' ∧ Linked v w search search' := by
  rw [linkSource, indexed_d hw, ok_bind, indexed_d hv, ok_bind]
  by_cases hdist : search.dist w = search.dist v + 1
  · have hw' : w < search.sigma.length := hsigma ▸ hw
    have hv' : v < search.sigma.length := hsigma ▸ hv
    rw [if_pos hdist, indexed_sigma hw', ok_bind, indexed_sigma hv', ok_bind]
    refine ⟨_, rfl, rfl, rfl, rfl, List.length_set, fun u => ?_, fun u => ?_⟩
    · rw [Search.count, getD_getElem?_set hw']
      simp only [hdist, and_true]
      split_ifs with hu
      · rw [hu]
      · exact (add_zero _).symm
    · rw [Search.preds, HashMap.getD_get?_push]
      simp only [hdist, and_true, Search.preds]
  · rw [if_neg hdist]
    refine ⟨search, rfl, rfl, rfl, rfl, rfl, fun u => ?_, fun u => ?_⟩
    · rw [if_neg fun h => hdist h.2, add_zero]
    · rw [if_neg fun h => hdist h.2, List.append_nil]

/-- What following a link changes. -/
structure Visited (v w : NodeId) (search search' : Search) : Prop where
  stack : search'.stack = search.stack
  q : search'.q = search.q ++ if search.dist w < 0 then [w] else []
  d_length : search'.d.length = search.d.length
  sigma_length : search'.sigma.length = search.sigma.length
  dist : ∀ u, search'.dist u =
    if u = w ∧ search.dist w < 0 then search.dist v + 1 else search.dist u
  count : ∀ u, search'.count u =
    search.count u + if u = w ∧ search'.dist w = search.dist v + 1 then search.count v else 0
  preds : ∀ u, search'.preds u =
    search.preds u ++ if u = w ∧ search'.dist w = search.dist v + 1 then [v] else []

theorem dist_discover (hw : w < search.d.length) (dw : Int) (u : NodeId) :
    (search.discover w dw).dist u = if u = w then dw else search.dist u :=
  getD_getElem?_set hw u dw (-1)

/-- A link from a found node to a known one is followed. -/
theorem exists_visitSource (hsigma : search.sigma.length = search.d.length)
    (hv : 0 ≤ search.dist v) (hw : w < search.d.length) :
    ∃ search', visitSource v search w = .ok search' ∧ Visited v w search search' := by
  have hlt := lt_of_dist_nonneg hv
  rw [visitSource, indexed_d hw, ok_bind]
  by_cases hnew : search.dist w < 0
  · rw [if_pos hnew, indexed_d hlt, ok_bind]
    have hlength : (search.discover w (search.dist v + 1)).d.length = search.d.length :=
      List.length_set
    have hne : v ≠ w := by
      rintro rfl
      exact absurd hv (not_le.2 hnew)
    have hdistv : (search.discover w (search.dist v + 1)).dist v = search.dist v :=
      (dist_discover hw _ v).trans (if_neg hne)
    obtain ⟨search', hrun, hlinked⟩ :
        ∃ search', linkSource v (search.discover w (search.dist v + 1)) w = .ok search' ∧
          Linked v w (search.discover w (search.dist v + 1)) search' :=
      exists_linkSource (hsigma.trans hlength.symm) (hlt.trans_eq hlength.symm)
        (hw.trans_eq hlength.symm)
    have hdist : ∀ u, search'.dist u = (search.discover w (search.dist v + 1)).dist u :=
      hlinked.dist
    refine ⟨search', hrun, hlinked.stack, ?_, (congrArg _ hlinked.d).trans hlength,
      hlinked.sigma_length, fun u => ?_, fun u => ?_, fun u => ?_⟩
    · rw [if_pos hnew, hlinked.q]
      rfl
    · simp only [hdist, dist_discover hw, hnew, and_true]
    · rw [hlinked.count, hdist, hdistv]
      rfl
    · rw [hlinked.preds, hdist, hdistv]
      rfl
  · rw [if_neg hnew]
    rcases exists_linkSource hsigma hlt hw with ⟨search', hrun, hlinked⟩
    have hdist : ∀ u, search'.dist u = search.dist u := hlinked.dist
    refine ⟨search', hrun, hlinked.stack, ?_, congrArg _ hlinked.d, hlinked.sigma_length,
      fun u => ?_, fun u => ?_, fun u => ?_⟩
    · rw [if_neg hnew, List.append_nil, hlinked.q]
    · rw [if_neg fun h => hnew h.2, hdist]
    · rw [hdist, hlinked.count]
    · rw [hdist, hlinked.preds]

/-- What a link that is followed changes. -/
theorem visited_of_visitSource (hsigma : search.sigma.length = search.d.length)
    (hv : 0 ≤ search.dist v) (hrun : visitSource v search w = .ok search') :
    w < search.d.length ∧ Visited v w search search' := by
  have hw : w < search.d.length := by
    rw [visitSource, bind_eq_ok_iff] at hrun
    rcases hrun with ⟨dw, hdw, -⟩
    exact lt_length_of_indexed hdw
  rcases exists_visitSource hsigma hv hw with ⟨search'', hrun', hvisited⟩
  obtain rfl := Except.ok.inj (hrun'.symm.trans hrun)
  exact ⟨hw, hvisited⟩

end

/-! ## The search so far -/

/-- What is found after following some links, none from a node further than a level. -/
structure Searched (wot : WebOfTrust) (within : Int → Bool) (s : NodeId) (level : Nat)
    (links : List (NodeId × NodeId)) (search : Search) : Prop where
  d_length : search.d.length = wot.size
  sigma_length : search.sigma.length = wot.size
  preds_eq : ∀ w, search.preds w =
    (closerNodes links w).filter fun v => search.dist w = search.dist v + 1
  count_eq : ∀ w, search.count w =
    (if w = s then 1 else 0) + ((search.preds w).map search.count).sum
  found_iff : ∀ w, 0 ≤ search.dist w ↔ w = s ∨ ∃ v, (v, w) ∈ links
  link : ∀ v w, (v, w) ∈ links →
    0 ≤ search.dist v ∧ search.dist v ≤ level ∧ search.dist w ≤ search.dist v + 1
  nodup : (search.stack ++ search.q).Nodup
  mem_iff : ∀ w, w ∈ search.stack ++ search.q ↔ 0 ≤ search.dist w
  sorted : (search.stack ++ search.q).Pairwise fun v w => search.dist v ≤ search.dist w
  le_succ : ∀ w, search.dist w ≤ level + 1
  le_of_mem : ∀ w ∈ search.q, level ≤ search.dist w
  root : search.dist s = 0
  reaches : ∀ w, ∀ k : Nat, search.dist w = k →
    ReachesIn wot.sources s k w ∧ ∀ j < k, within j = true

namespace Searched

variable {wot : WebOfTrust} {within : Int → Bool} {s v w : NodeId} {level : Nat}
  {links : List (NodeId × NodeId)} {search search' : Search}

/-- A node keeps its distance. -/
theorem dist_of_nonneg (hvisited : Visited v w search search') {u : NodeId}
    (hu : 0 ≤ search.dist u) : search'.dist u = search.dist u := by
  rw [hvisited.dist, if_neg]
  rintro ⟨rfl, hneg⟩
  exact absurd hu (not_le.2 hneg)

theorem dist_of_ne (hvisited : Visited v w search search') {u : NodeId} (hu : u ≠ w) :
    search'.dist u = search.dist u := by
  rw [hvisited.dist, if_neg fun hc => hu hc.1]

/-- The node that the link goes to is found. -/
theorem dist_target (h : Searched wot within s level links search) (hv : search.dist v = level)
    (hvisited : Visited v w search search') :
    0 ≤ search'.dist w ∧ search'.dist w ≤ level + 1 ∧
      (search.dist w < 0 → search'.dist w = level + 1) := by
  have hle := h.le_succ w
  rw [hvisited.dist, hv]
  split_ifs with hc
  · exact ⟨by omega, le_rfl, fun _ => rfl⟩
  · have hnonneg : ¬search.dist w < 0 := fun hneg => hc ⟨rfl, hneg⟩
    exact ⟨not_lt.1 hnonneg, hle, fun hneg => absurd hneg hnonneg⟩

/-- The nodes that came before a node are the same. -/
theorem filter_closerNodes (h : Searched wot within s level links search)
    (hvisited : Visited v w search search') (u : NodeId) :
    ((closerNodes links u).filter fun v => search'.dist u = search'.dist v + 1) =
      (closerNodes links u).filter fun v => search.dist u = search.dist v + 1 := by
  refine List.filter_congr fun p hp => ?_
  have hlink := mem_closerNodes_iff.1 hp
  rw [dist_of_nonneg hvisited (h.link p u hlink).1,
    dist_of_nonneg hvisited ((h.found_iff u).2 (.inr ⟨p, hlink⟩))]

/-- A node that others were found from has all its shortest paths already. -/
theorem count_of_le (hv : search.dist v = level) (hvisited : Visited v w search search')
    {u : NodeId} (hnonneg : 0 ≤ search.dist u) (hle : search.dist u ≤ level) :
    search'.count u = search.count u := by
  rw [hvisited.count, if_neg, add_zero]
  rintro ⟨rfl, heq⟩
  rw [dist_of_nonneg hvisited hnonneg] at heq
  omega

/-- The nodes that come before a node after one more link. -/
theorem follow_preds (h : Searched wot within s level links search) (hv : search.dist v = level)
    (hvisited : Visited v w search search') (u : NodeId) :
    search'.preds u = (closerNodes (links ++ [(v, w)]) u).filter fun p =>
      search'.dist u = search'.dist p + 1 := by
  have hv' : search'.dist v = search.dist v :=
    dist_of_nonneg hvisited (hv ▸ Int.natCast_nonneg level)
  rw [hvisited.preds, h.preds_eq]
  by_cases hu : u = w
  · subst hu
    rw [closerNodes_concat_self, List.filter_append, h.filter_closerNodes hvisited,
      List.filter_singleton, hv', Bool.cond_decide]
    simp only [true_and]
  · rw [closerNodes_concat_of_ne (Ne.symm hu), h.filter_closerNodes hvisited,
      if_neg fun hc => hu hc.1, List.append_nil]

/-- The number of shortest paths after one more link. -/
theorem follow_count (h : Searched wot within s level links search) (hv : search.dist v = level)
    (hvisited : Visited v w search search') (u : NodeId) :
    search'.count u = (if u = s then 1 else 0) + ((search'.preds u).map search'.count).sum := by
  have hself : search'.count v = search.count v :=
    count_of_le hv hvisited (hv ▸ Int.natCast_nonneg level) hv.le
  have hpreds : (search.preds u).map search'.count = (search.preds u).map search.count := by
    refine List.map_congr_left fun p hp => ?_
    rw [h.preds_eq] at hp
    have hlink := h.link p u (mem_closerNodes_iff.1 (List.mem_of_mem_filter hp))
    exact count_of_le hv hvisited hlink.1 hlink.2.1
  have hnew : ((if u = w ∧ search'.dist w = search.dist v + 1 then [v] else []).map
      search'.count).sum =
        if u = w ∧ search'.dist w = search.dist v + 1 then search.count v else 0 := by
    split_ifs
    · rw [List.map_singleton, List.sum_singleton, hself]
    · rfl
  rw [hvisited.count, hvisited.preds, h.count_eq, List.map_append, List.sum_append, hpreds, hnew,
    add_assoc]

/-- A link leads to the node that it goes to. -/
theorem follow_found_iff (h : Searched wot within s level links search) (hv : search.dist v = level)
    (hvisited : Visited v w search search') (u : NodeId) :
    0 ≤ search'.dist u ↔ u = s ∨ ∃ p, (p, u) ∈ links ++ [(v, w)] := by
  by_cases hu : u = w
  · rw [hu]
    exact iff_of_true (h.dist_target hv hvisited).1
      (.inr ⟨v, List.mem_append_right links (List.mem_singleton.2 rfl)⟩)
  · rw [dist_of_ne hvisited hu, h.found_iff]
    refine or_congr_right (exists_congr fun p => ?_)
    rw [List.mem_append, List.mem_singleton, Prod.mk.injEq]
    exact (or_iff_left fun hc => hu hc.2).symm

/-- The nodes found stay in their order, and the new one is the last. -/
theorem follow_order (hvisited : Visited v w search search') : search'.stack ++ search'.q =
    search.stack ++ search.q ++ if search.dist w < 0 then [w] else [] := by
  rw [hvisited.stack, hvisited.q, List.append_assoc]

theorem follow_nodup (h : Searched wot within s level links search)
    (hvisited : Visited v w search search') : (search'.stack ++ search'.q).Nodup := by
  rw [follow_order hvisited]
  split_ifs with hneg
  · have hfresh : w ∉ search.stack ++ search.q := fun hmem =>
      absurd ((h.mem_iff w).1 hmem) (not_le.2 hneg)
    exact h.nodup.append (List.nodup_singleton w) (List.disjoint_singleton.2 hfresh)
  · rw [List.append_nil]
    exact h.nodup

theorem follow_mem_iff (h : Searched wot within s level links search) (hv : search.dist v = level)
    (hvisited : Visited v w search search') (u : NodeId) :
    u ∈ search'.stack ++ search'.q ↔ 0 ≤ search'.dist u := by
  rw [follow_order hvisited, List.mem_append, h.mem_iff]
  by_cases hu : u = w
  · rw [hu]
    refine iff_of_true ?_ (h.dist_target hv hvisited).1
    split_ifs with hneg
    · exact .inr (List.mem_singleton.2 rfl)
    · exact .inl (not_lt.1 hneg)
  · rw [dist_of_ne hvisited hu]
    refine or_iff_left fun hmem => hu ?_
    split_ifs at hmem
    · exact List.mem_singleton.1 hmem
    · cases hmem

theorem follow_sorted (h : Searched wot within s level links search) (hv : search.dist v = level)
    (hvisited : Visited v w search search') :
    (search'.stack ++ search'.q).Pairwise fun v w => search'.dist v ≤ search'.dist w := by
  have hkeep : ∀ u ∈ search.stack ++ search.q, search'.dist u = search.dist u := fun u hu =>
    dist_of_nonneg hvisited ((h.mem_iff u).1 hu)
  have hsorted : (search.stack ++ search.q).Pairwise fun v w =>
      search'.dist v ≤ search'.dist w := by
    refine h.sorted.imp_of_mem fun ha hb hab => ?_
    rwa [hkeep _ ha, hkeep _ hb]
  rw [follow_order hvisited]
  split_ifs with hneg
  · refine List.pairwise_append.2 ⟨hsorted, List.pairwise_singleton _ w, fun a ha b hb => ?_⟩
    rw [List.mem_singleton.1 hb, (h.dist_target hv hvisited).2.2 hneg, hkeep a ha]
    exact h.le_succ a
  · rw [List.append_nil]
    exact hsorted

/-- The new node is reached through the node that the link comes from. -/
theorem follow_reaches (h : Searched wot within s level links search) (hv : search.dist v = level)
    (hlink : w ∈ wot.sources v) (hwithin : within level = true)
    (hvisited : Visited v w search search') {u : NodeId} {k : Nat} (hk : search'.dist u = k) :
    ReachesIn wot.sources s k u ∧ ∀ j < k, within j = true := by
  by_cases hu : u = w ∧ search.dist w < 0
  · obtain ⟨rfl, hneg⟩ := hu
    obtain rfl : k = level + 1 := by
      rw [(h.dist_target hv hvisited).2.2 hneg] at hk
      omega
    obtain ⟨hreaches, hbelow⟩ := h.reaches v level hv
    refine ⟨⟨v, hreaches, hlink⟩, fun j hj => ?_⟩
    obtain rfl | hlt := (Nat.le_of_lt_succ hj).eq_or_lt
    · exact hwithin
    · exact hbelow j hlt
  · rw [hvisited.dist, if_neg hu] at hk
    exact h.reaches u k hk

/-- Following one more link from the level. -/
theorem follow (h : Searched wot within s level links search) (hv : search.dist v = level)
    (hlink : w ∈ wot.sources v) (hwithin : within level = true)
    (hvisited : Visited v w search search') :
    Searched wot within s level (links ++ [(v, w)]) search' := by
  have hkeep : ∀ u, 0 ≤ search.dist u → search'.dist u = search.dist u := fun u =>
    dist_of_nonneg hvisited
  obtain ⟨-, hle, hnew⟩ := h.dist_target hv hvisited
  constructor
  case d_length => exact hvisited.d_length.trans h.d_length
  case sigma_length => exact hvisited.sigma_length.trans h.sigma_length
  case preds_eq => exact h.follow_preds hv hvisited
  case count_eq => exact h.follow_count hv hvisited
  case found_iff => exact h.follow_found_iff hv hvisited
  case link =>
    intro p u hmem
    rcases List.mem_append.1 hmem with hmem | hmem
    · obtain ⟨hp, hlevel, hsucc⟩ := h.link p u hmem
      rw [hkeep p hp, hkeep u ((h.found_iff u).2 (.inr ⟨p, hmem⟩))]
      exact ⟨hp, hlevel, hsucc⟩
    · obtain ⟨rfl, rfl⟩ := Prod.mk.inj (List.mem_singleton.1 hmem)
      have hnonneg : 0 ≤ search.dist p := hv ▸ Int.natCast_nonneg level
      rw [hkeep p hnonneg, hv]
      exact ⟨Int.natCast_nonneg level, le_rfl, hle⟩
  case nodup => exact h.follow_nodup hvisited
  case mem_iff => exact h.follow_mem_iff hv hvisited
  case sorted => exact h.follow_sorted hv hvisited
  case le_succ =>
    intro u
    by_cases hu : u = w
    · rw [hu]
      exact hle
    · rw [dist_of_ne hvisited hu]
      exact h.le_succ u
  case le_of_mem =>
    intro u hu
    rw [hvisited.q, List.mem_append] at hu
    rcases hu with hu | hu
    · rw [hkeep u ((h.mem_iff u).1 (List.mem_append_right _ hu))]
      exact h.le_of_mem u hu
    · split_ifs at hu with hneg
      · rw [List.mem_singleton.1 hu, hnew hneg]
        omega
      · cases hu
  case root => rw [hkeep s h.root.ge, h.root]
  case reaches => exact fun _ _ => h.follow_reaches hv hlink hwithin hvisited

end Searched

/-! ## One node -/

/-- What following some links of a node leaves. -/
structure Following (wot : WebOfTrust) (within : Int → Bool) (s v : NodeId) (level : Nat)
    (links : List (NodeId × NodeId)) (search : Search) (done : List NodeId) (search' : Search) :
    Prop where
  searched : Searched wot within s level (links ++ done.map fun w => (v, w)) search'
  stack : search'.stack = search.stack
  dist : ∀ u, 0 ≤ search.dist u → search'.dist u = search.dist u

namespace Following

variable {wot : WebOfTrust} {within : Int → Bool} {s v w : NodeId} {level : Nat}
  {links : List (NodeId × NodeId)} {search mid search' : Search} {done : List NodeId}

theorem nil (h : Searched wot within s level links search) :
    Following wot within s v level links search [] search where
  searched := (List.append_nil links).symm ▸ h
  stack := rfl
  dist _ _ := rfl

theorem dist_level (h : Following wot within s v level links search done mid)
    (hv : search.dist v = level) : mid.dist v = level :=
  (h.dist v (hv ▸ Int.natCast_nonneg level)).trans hv

theorem exists_visitSource (h : Following wot within s v level links search done mid)
    (hv : search.dist v = level) (hw : w < wot.size) :
    ∃ search', visitSource v mid w = .ok search' := by
  have hlength := h.searched.d_length
  rcases Durs.exists_visitSource (h.searched.sigma_length.trans hlength.symm)
    (h.dist_level hv ▸ Int.natCast_nonneg level) (hlength.symm ▸ hw) with ⟨search', hrun, -⟩
  exact ⟨search', hrun⟩

/-- Following one more link of the node. -/
theorem step (h : Following wot within s v level links search done mid)
    (hv : search.dist v = level) (hwithin : within level = true) (hlink : w ∈ wot.sources v)
    (hrun : visitSource v mid w = .ok search') :
    w < wot.size ∧ Following wot within s v level links search (done ++ [w]) search' := by
  have hlength := h.searched.d_length
  have hmid := h.dist_level hv
  obtain ⟨hw, hvisited⟩ := visited_of_visitSource (h.searched.sigma_length.trans hlength.symm)
    (hmid ▸ Int.natCast_nonneg level) hrun
  refine ⟨hlength ▸ hw, ?_, hvisited.stack.trans h.stack, fun u hu => ?_⟩
  · rw [List.map_append, ← List.append_assoc]
    exact h.searched.follow hmid hlink hwithin hvisited
  · have hdist := h.dist u hu
    exact (Searched.dist_of_nonneg hvisited (hdist ▸ hu)).trans hdist

end Following

section

variable {wot : WebOfTrust} {within : Int → Bool} {s v : NodeId} {level : Nat}
  {links : List (NodeId × NodeId)} {search search' : Search} {sources : List NodeId}

/-- Following all the links of a node. -/
theorem Searched.of_sources (h : Searched wot within s level links search)
    (hv : search.dist v = level) (hwithin : within level = true)
    (hsources : wot.getLinksSource v = some sources)
    (hrun : sources.foldlM (visitSource v) search = .ok search') :
    (∀ w ∈ wot.sources v, w < wot.size) ∧
      Following wot within s v level links search sources search' := by
  have hfold := foldlM_of_steps (I := Following wot within s v level links search)
    (fun _ _ hw _ _ hmid => hmid.step hv hwithin
      ((WebOfTrust.mem_of_getLinksSource hsources).1 hw)) [] (.nil h) hrun
  exact ⟨fun w hw => hfold.1 w ((WebOfTrust.mem_of_getLinksSource hsources).2 hw), hfold.2⟩

theorem Searched.exists_sources (h : Searched wot within s level links search)
    (hv : search.dist v = level) (hwithin : within level = true)
    (hsources : wot.getLinksSource v = some sources)
    (hknown : ∀ w ∈ wot.sources v, w < wot.size) :
    ∃ search', sources.foldlM (visitSource v) search = .ok search' :=
  exists_foldlM_of_steps (I := Following wot within s v level links search)
    (fun _ _ hw _ _ hmid => hmid.step hv hwithin
      ((WebOfTrust.mem_of_getLinksSource hsources).1 hw))
    (fun _ _ _ _ hmid => hmid.exists_visitSource hv) [] (.nil h)
    fun w hw => hknown w ((WebOfTrust.mem_of_getLinksSource hsources).1 hw)

/-- Taking a node from the queue. -/
theorem Searched.pop (h : Searched wot within s level links search) {q : List NodeId}
    (hq : search.q = v :: q) : ∃ level' : Nat, search.dist v = level' ∧
      Searched wot within s level' links { search with stack := search.stack ++ [v], q } := by
  have hle : (level : Int) ≤ search.dist v := h.le_of_mem v (hq ▸ List.mem_cons_self)
  obtain ⟨level', hlevel⟩ := Int.eq_ofNat_of_zero_le ((Int.natCast_nonneg level).trans hle)
  have horder : search.stack ++ search.q = search.stack ++ [v] ++ q := by
    rw [hq, List.append_assoc, List.singleton_append]
  have hnodup := h.nodup
  have hmem := h.mem_iff
  have hsorted := h.sorted
  rw [horder] at hnodup hmem hsorted
  refine ⟨level', hlevel, ?_⟩
  constructor
  case d_length => exact h.d_length
  case sigma_length => exact h.sigma_length
  case preds_eq => exact h.preds_eq
  case count_eq => exact h.count_eq
  case found_iff => exact h.found_iff
  case link =>
    intro p u hlink
    obtain ⟨hnonneg, hbelow, hsucc⟩ := h.link p u hlink
    exact ⟨hnonneg, hbelow.trans (hlevel ▸ hle), hsucc⟩
  case nodup => exact hnodup
  case mem_iff => exact hmem
  case sorted => exact hsorted
  case le_succ =>
    intro u
    exact (h.le_succ u).trans (Int.add_le_add_right (hlevel ▸ hle) 1)
  case le_of_mem =>
    intro u hu
    have hv := (List.pairwise_append.1 hsorted).2.2 v
      (List.mem_append_right _ (List.mem_singleton.2 rfl)) u hu
    exact hlevel.ge.trans hv
  case root => exact h.root
  case reaches => exact h.reaches

end

/-! ## The whole search -/

/-- The links followed so far: those to the nodes taken from the queue, unless they are as far as
one may go. -/
def followedLinks (wot : WebOfTrust) (within : Int → Bool) (search : Search) :
    List (NodeId × NodeId) :=
  (search.stack.filter fun v => within (search.dist v)).flatMap (linksTo wot)

/-- The search between two nodes of the queue. -/
def Searching (wot : WebOfTrust) (within : Int → Bool) (s : NodeId) (search : Search) : Prop :=
  ∃ level, Searched wot within s level (followedLinks wot within search) search

namespace Searching

variable {wot : WebOfTrust} {within : Int → Bool} {s v : NodeId} {search search' : Search}
  {q : List NodeId}

theorem getD_getElem?_replicate {α : Type} (n i : Nat) (a : α) :
    (List.replicate n a)[i]?.getD a = a := by
  rw [List.getElem?_replicate]
  split_ifs <;> rfl

theorem dist_start (hs : s < wot.size) (w : NodeId) :
    (Search.start wot.size s).dist w = if w = s then 0 else -1 := by
  rw [Search.dist, Search.start, getD_getElem?_set (by rwa [List.length_replicate]),
    getD_getElem?_replicate]

theorem count_start (hs : s < wot.size) (w : NodeId) :
    (Search.start wot.size s).count w = if w = s then 1 else 0 := by
  rw [Search.count, Search.start, getD_getElem?_set (by rwa [List.length_replicate]),
    getD_getElem?_replicate]

theorem start (hs : s < wot.size) : Searching wot within s (Search.start wot.size s) := by
  refine ⟨0, ?_⟩
  constructor
  case d_length => exact List.length_set.trans List.length_replicate
  case sigma_length => exact List.length_set.trans List.length_replicate
  case preds_eq => exact fun w => rfl
  case count_eq => exact fun w => (count_start hs w).trans (add_zero _).symm
  case found_iff =>
    intro w
    rw [dist_start hs]
    by_cases hw : w = s
    · rw [if_pos hw]
      exact iff_of_true le_rfl (.inl hw)
    · rw [if_neg hw]
      refine iff_of_false (by decide) ?_
      rintro (heq | ⟨v, hv⟩)
      · exact hw heq
      · cases hv
  case link =>
    intro v w hlink
    cases hlink
  case nodup => exact List.nodup_singleton s
  case mem_iff =>
    intro w
    rw [dist_start hs]
    refine List.mem_singleton.trans ?_
    by_cases hw : w = s
    · rw [if_pos hw]
      exact iff_of_true hw le_rfl
    · rw [if_neg hw]
      exact iff_of_false hw (by decide)
  case sorted => exact List.pairwise_singleton _ s
  case le_succ =>
    intro w
    rw [dist_start hs]
    split_ifs <;> decide
  case le_of_mem =>
    intro w hw
    rw [dist_start hs, if_pos (List.mem_singleton.1 hw)]
    exact le_rfl
  case root => exact (dist_start hs s).trans (if_pos rfl)
  case reaches =>
    intro w k hk
    rw [dist_start hs] at hk
    split_ifs at hk with hw
    obtain rfl : k = 0 := Int.natCast_eq_zero.1 hk.symm
    exact ⟨hw, fun j hj => absurd hj (Nat.not_lt_zero j)⟩

/-- The links followed with one more node. -/
theorem followedLinks_concat (hstack : search'.stack = search.stack ++ [v])
    (hdist : ∀ u ∈ search.stack ++ [v], search'.dist u = search.dist u) :
    followedLinks wot within search' =
      followedLinks wot within search ++ if within (search.dist v) then linksTo wot v else [] := by
  have hfilter : ((search.stack ++ [v]).filter fun v => within (search'.dist v)) =
      (search.stack ++ [v]).filter fun v => within (search.dist v) :=
    List.filter_congr fun u hu => by rw [hdist u hu]
  rw [followedLinks, hstack, hfilter, List.filter_append, List.flatMap_append,
    List.filter_singleton, followedLinks]
  cases within (search.dist v) with
  | true => simp
  | false => simp

/-- The two ways of a turn of the loop. -/
theorem visit_eq (hv : 0 ≤ search.dist v) (q : List NodeId) :
    visit wot within { search with q } v =
      if within (search.dist v) then
        (expect (wot.getLinksSource v) "v don't have any source !").bind fun sources =>
          sources.foldlM (visitSource v) { search with stack := search.stack ++ [v], q }
      else .ok { search with stack := search.stack ++ [v], q } := by
  have hindexed : indexed search.d v = .ok (search.dist v) := indexed_d (lt_of_dist_nonneg hv)
  rw [visit, hindexed]
  rfl

/-- A turn of the loop. -/
theorem of_visit (h : Searching wot within s search) (hq : search.q = v :: q)
    (hrun : visit wot within { search with q } v = .ok search') :
    (within (search.dist v) = true → ∀ w ∈ wot.sources v, w < wot.size) ∧
      Searching wot within s search' ∧ search'.stack = search.stack ++ [v] := by
  rcases h with ⟨level, h⟩
  rcases h.pop hq with ⟨level', hlevel, hpop⟩
  rw [visit_eq (hlevel ▸ Int.natCast_nonneg level')] at hrun
  split_ifs at hrun with hwithin
  · rcases bind_eq_ok_iff.1 hrun with ⟨sources, hsources, hfold⟩
    rw [expect_eq_ok_iff] at hsources
    obtain ⟨hknown, hfollowing⟩ := hpop.of_sources hlevel (hlevel ▸ hwithin) hsources hfold
    have hlinks : followedLinks wot within search' = followedLinks wot within search ++
        if within (search.dist v) then linksTo wot v else [] := by
      refine followedLinks_concat hfollowing.stack fun u hu => hfollowing.dist u ?_
      exact (hpop.mem_iff u).1 (List.mem_append_left q hu)
    have hsearched := hfollowing.searched
    refine ⟨fun _ => hknown, ⟨level', ?_⟩, hfollowing.stack⟩
    rw [hlinks, if_pos hwithin, linksTo, hsources]
    exact hsearched
  · obtain rfl := Except.ok.inj hrun
    have hlinks : followedLinks wot within { search with stack := search.stack ++ [v], q } =
        followedLinks wot within search ++
          if within (search.dist v) then linksTo wot v else [] :=
      followedLinks_concat rfl fun _ _ => rfl
    refine ⟨fun hc => absurd hc hwithin, ⟨level', ?_⟩, rfl⟩
    rw [hlinks, if_neg hwithin, List.append_nil]
    exact hpop

/-- A turn of the loop returns when the links come from known nodes. -/
theorem exists_visit (h : Searching wot within s search) (hq : search.q = v :: q)
    (hknown : within (search.dist v) = true → ∀ w ∈ wot.sources v, w < wot.size) :
    ∃ search', visit wot within { search with q } v = .ok search' := by
  rcases h with ⟨level, h⟩
  rcases h.pop hq with ⟨level', hlevel, hpop⟩
  have hnonneg : 0 ≤ search.dist v := hlevel ▸ Int.natCast_nonneg level'
  rw [visit_eq hnonneg]
  split_ifs with hwithin
  · have hv : v < wot.size := h.d_length ▸ lt_of_dist_nonneg hnonneg
    rcases WebOfTrust.exists_getLinksSource hv with ⟨sources, hsources⟩
    rcases hpop.exists_sources hlevel (hlevel ▸ hwithin) hsources (hknown hwithin) with
      ⟨search', hrun⟩
    rw [hsources]
    exact ⟨search', hrun⟩
  · exact ⟨_, rfl⟩

/-- What the loop leaves. -/
theorem of_runSearch {fuel : Nat} (h : Searching wot within s search)
    (hrun : runSearch wot within fuel search = .ok search') :
    Searching wot within s search' ∧ search'.q = [] := by
  induction fuel generalizing search with
  | zero => cases hrun
  | succ fuel ih =>
      rw [runSearch] at hrun
      cases hq : search.q with
      | nil =>
          rw [hq] at hrun
          obtain rfl := pure_eq_ok_iff.1 hrun
          exact ⟨h, hq⟩
      | cons v q =>
          simp only [hq] at hrun
          rcases bind_eq_ok_iff.1 hrun with ⟨mid, hmid, hrun⟩
          exact ih (h.of_visit hq hmid).2.1 hrun

theorem length_stack_le (h : Searching wot within s search) : search.stack.length ≤ wot.size := by
  rcases h with ⟨level, h⟩
  have hsub : search.stack ⊆ List.range wot.size := by
    intro u hu
    have hnonneg := (h.mem_iff u).1 (List.mem_append_left search.q hu)
    exact List.mem_range.2 (h.d_length ▸ lt_of_dist_nonneg hnonneg)
  have hle := (List.subperm_of_subset (List.nodup_append.1 h.nodup).1 hsub).length_le
  rwa [List.length_range] at hle

/-- The nodes found are reached through nodes that are not too far. -/
theorem reaches (h : Searching wot within s search) (hv : 0 ≤ search.dist v) :
    ∃ k : Nat, search.dist v = k ∧ ReachesIn wot.sources s k v ∧ ∀ j < k, within j = true := by
  rcases h with ⟨level, h⟩
  obtain ⟨k, hk⟩ := Int.eq_ofNat_of_zero_le hv
  exact ⟨k, hk, h.reaches v k hk⟩

end Searching

/-- The search follows links from known nodes only. -/
def KnownSearch (wot : WebOfTrust) (within : Int → Bool) (s : NodeId) : Prop :=
  ∀ (k : Nat) (v : NodeId), AtDist wot.sources s k v → (∀ j ≤ k, within j = true) →
    ∀ w ∈ wot.sources v, w < wot.size

namespace Searching

variable {wot : WebOfTrust} {within : Int → Bool} {s v w : NodeId} {search : Search}

/-- The loop ends, since it takes a new node at each turn. -/
theorem exists_runSearch (h : Searching wot within s search) (hknown : KnownSearch wot within s)
    {fuel : Nat} (hfuel : wot.size < fuel + search.stack.length) :
    ∃ search', runSearch wot within fuel search = .ok search' := by
  induction fuel generalizing search with
  | zero => exact absurd h.length_stack_le (not_le.2 (Nat.zero_add search.stack.length ▸ hfuel))
  | succ fuel ih =>
      rw [runSearch]
      cases hq : search.q with
      | nil => exact ⟨search, rfl⟩
      | cons v q =>
          have hv : 0 ≤ search.dist v := by
            rcases h with ⟨level, h⟩
            exact (h.mem_iff v).1 (List.mem_append_right _ (hq ▸ List.mem_cons_self))
          have hsources : within (search.dist v) = true → ∀ w ∈ wot.sources v, w < wot.size := by
            intro hwithin
            rcases h.reaches hv with ⟨k, hk, hreaches, hbelow⟩
            obtain ⟨j, hle, hj⟩ := exists_atDist_le hreaches
            refine hknown j v hj fun i hi => ?_
            obtain rfl | hlt := (hi.trans hle).eq_or_lt
            · exact hk ▸ hwithin
            · exact hbelow i hlt
          rcases h.exists_visit hq hsources with ⟨mid, hmid⟩
          obtain ⟨-, hmid', hstack⟩ := h.of_visit hq hmid
          have hfuel' : wot.size < fuel + mid.stack.length := by
            rw [hstack, List.length_append, List.length_singleton]
            omega
          rcases ih hmid' hfuel' with ⟨search', hrun⟩
          exact ⟨search', by simp only [hmid, ok_bind, hrun]⟩

/-! ## What the search finds -/

section

variable (h : Searching wot within s search) (hq : search.q = [])

include h hq

theorem mem_stack_iff_nonneg : w ∈ search.stack ↔ 0 ≤ search.dist w := by
  rcases h with ⟨level, h⟩
  rw [← h.mem_iff, hq, List.append_nil]

/-- The sources of a node are found, when it is not too far. -/
theorem closed (hv : v ∈ search.stack) (hwithin : within (search.dist v) = true)
    (hw : w ∈ wot.sources v) : w ∈ search.stack ∧ search.dist w ≤ search.dist v + 1 := by
  have hlink : (v, w) ∈ followedLinks wot within search :=
    List.mem_flatMap.2 ⟨v, List.mem_filter.2 ⟨hv, hwithin⟩, mem_linksTo_iff.2 ⟨rfl, hw⟩⟩
  rw [mem_stack_iff_nonneg h hq]
  rcases h with ⟨level, h⟩
  exact ⟨(h.found_iff w).2 (.inr ⟨v, hlink⟩), (h.link v w hlink).2.2⟩

theorem root_mem : s ∈ search.stack := by
  rw [mem_stack_iff_nonneg h hq]
  rcases h with ⟨level, h⟩
  exact h.root.ge

/-- A node is found at the end of any walk through nodes that are not too far. -/
theorem found_of_reachesIn {k : Nat} (hreaches : ReachesIn wot.sources s k w)
    (hbelow : ∀ j < k, within j = true) : w ∈ search.stack ∧ search.dist w ≤ k := by
  induction k generalizing w with
  | zero =>
      obtain rfl : w = s := hreaches
      refine ⟨root_mem h hq, ?_⟩
      rcases h with ⟨level, h⟩
      exact h.root.le
  | succ k ih =>
      obtain ⟨u, hu, hlink⟩ := hreaches
      obtain ⟨hmem, hle⟩ := ih hu fun j hj => hbelow j (Nat.lt_succ_of_lt hj)
      rcases h.reaches ((mem_stack_iff_nonneg h hq).1 hmem) with ⟨j, hj, -⟩
      have hwithin : within (search.dist u) = true := by
        rw [hj]
        exact hbelow j (by omega)
      obtain ⟨hw, hsucc⟩ := h.closed hq hmem hwithin hlink
      exact ⟨hw, hsucc.trans (by omega)⟩

/-- A node that is found has its distance. -/
theorem atDist_of_mem (hw : w ∈ search.stack) : ∃ k : Nat, search.dist w = k ∧
    AtDist wot.sources s k w ∧ ∀ j < k, within j = true := by
  rcases h.reaches ((mem_stack_iff_nonneg h hq).1 hw) with ⟨k, hk, hreaches, hbelow⟩
  refine ⟨k, hk, ⟨hreaches, fun j hlt hj => ?_⟩, hbelow⟩
  have hle := (h.found_of_reachesIn hq hj fun i hi => hbelow i (hi.trans hlt)).2
  omega

/-- The nodes found are those with no node too far before them. -/
theorem found_of_atDist {k : Nat} (hdist : AtDist wot.sources s k w)
    (hbelow : ∀ j < k, within j = true) : w ∈ search.stack ∧ search.dist w = k := by
  obtain ⟨hw, -⟩ := h.found_of_reachesIn hq hdist.1 hbelow
  rcases h.atDist_of_mem hq hw with ⟨j, hj, hdist', -⟩
  exact ⟨hw, hj.trans (congrArg Nat.cast (hdist'.eq hdist))⟩

theorem lt_size (hw : w ∈ search.stack) : w < wot.size := by
  have hw := (mem_stack_iff_nonneg h hq).1 hw
  rcases h with ⟨level, h⟩
  exact h.d_length ▸ lt_of_dist_nonneg hw

/-- The search followed links from known nodes only. -/
theorem knownSearch : KnownSearch wot within s := by
  intro k v hdist hbelow w hw
  obtain ⟨hv, hk⟩ := h.found_of_atDist hq hdist fun j hj => hbelow j hj.le
  exact h.lt_size hq (h.closed hq hv (hk ▸ hbelow k le_rfl) hw).1

/-- The nodes found are arranged in levels around the node that the search started from. -/
theorem levels : Levels wot.sources s search.stack.toFinset fun v => (search.dist v).toNat where
  atDist v hv := by
    rcases h.atDist_of_mem hq (List.mem_toFinset.1 hv) with ⟨k, hk, hdist, -⟩
    rw [hk]
    exact hdist
  closed w hw k hle v hdist := by
    rcases h.atDist_of_mem hq (List.mem_toFinset.1 hw) with ⟨j, hj, -, hbelow⟩
    rw [hj, Int.toNat_natCast] at hle
    exact List.mem_toFinset.2 (h.found_of_atDist hq hdist fun i hi => hbelow i (hi.trans_le hle)).1

/-- The nodes that come before a node on the shortest paths. -/
theorem mem_preds_iff (hw : w ∈ search.stack) (v : NodeId) : v ∈ search.preds w ↔
    v ∈ search.stack ∧ w ∈ wot.sources v ∧ search.dist w = search.dist v + 1 := by
  rcases h.atDist_of_mem hq hw with ⟨k, hk, -, hbelow⟩
  have hwithin : v ∈ search.stack → search.dist w = search.dist v + 1 →
      within (search.dist v) = true := by
    intro hv hdist
    rcases h.atDist_of_mem hq hv with ⟨j, hj, -⟩
    rw [hj]
    exact hbelow j (by omega)
  rcases h with ⟨level, h⟩
  rw [h.preds_eq, List.mem_filter, mem_closerNodes_iff, followedLinks, List.mem_flatMap,
    decide_eq_true_iff]
  constructor
  · rintro ⟨⟨u, hu, hlink⟩, hdist⟩
    obtain ⟨rfl, hlink⟩ := mem_linksTo_iff.1 hlink
    exact ⟨(List.mem_filter.1 hu).1, hlink, hdist⟩
  · rintro ⟨hv, hlink, hdist⟩
    exact ⟨⟨v, List.mem_filter.2 ⟨hv, hwithin hv hdist⟩, mem_linksTo_iff.2 ⟨rfl, hlink⟩⟩, hdist⟩

omit hq in
theorem sigma_length : search.sigma.length = wot.size := by
  rcases h with ⟨level, h⟩
  exact h.sigma_length

omit hq in
theorem nodup_stack : search.stack.Nodup := by
  rcases h with ⟨level, h⟩
  exact (List.nodup_append.1 h.nodup).1

omit hq in
theorem nodup_preds : (search.preds w).Nodup := by
  have hstack := h.nodup_stack
  rcases h with ⟨level, h⟩
  rw [h.preds_eq]
  exact (nodup_closerNodes (nodup_flatMap_linksTo (hstack.filter _))).filter _

theorem sorted_stack : search.stack.Pairwise fun v w => search.dist v ≤ search.dist w := by
  rcases h with ⟨level, h⟩
  have hsorted := h.sorted
  rwa [hq, List.append_nil] at hsorted

theorem toNat_dist_eq_succ_iff (hv : v ∈ search.stack) (hw : w ∈ search.stack) :
    (search.dist w).toNat = (search.dist v).toNat + 1 ↔ search.dist w = search.dist v + 1 := by
  have hv := (mem_stack_iff_nonneg h hq).1 hv
  have hw := (mem_stack_iff_nonneg h hq).1 hw
  omega

theorem toFinset_preds (hw : w ∈ search.stack) : (search.preds w).toFinset =
    search.stack.toFinset.filter fun v =>
      w ∈ wot.sources v ∧ (search.dist w).toNat = (search.dist v).toNat + 1 := by
  ext v
  rw [List.mem_toFinset, h.mem_preds_iff hq hw, Finset.mem_filter, List.mem_toFinset]
  exact and_congr_right fun hv => and_congr_right fun _ =>
    (h.toNat_dist_eq_succ_iff hq hv hw).symm

/-- The number of shortest paths to a node that is found. -/
theorem count_eq (hw : w ∈ search.stack) :
    search.count w = walkCount wot.sources (search.dist w).toNat w s := by
  rcases h.atDist_of_mem hq hw with ⟨k, hk, hdist, -⟩
  induction k using Nat.strong_induction_on generalizing w with
  | _ k ih =>
      have hsum : ((search.preds w).map search.count).sum =
          ∑ v ∈ search.stack.toFinset with
            w ∈ wot.sources v ∧ (search.dist w).toNat = (search.dist v).toNat + 1,
            (walkCount wot.sources (search.dist v).toNat v s : ℚ) := by
        rw [← List.sum_toFinset _ h.nodup_preds, h.toFinset_preds hq hw]
        refine Finset.sum_congr rfl fun v hv => ?_
        obtain ⟨hv, -, hsucc⟩ := Finset.mem_filter.1 hv
        rcases h.atDist_of_mem hq (List.mem_toFinset.1 hv) with ⟨j, hj, hdist, -⟩
        exact ih j (by omega) (List.mem_toFinset.1 hv) hj hdist
      have hcount : search.count w = (if w = s then 1 else 0) +
          ((search.preds w).map search.count).sum := by
        rcases h with ⟨level, h⟩
        exact h.count_eq w
      rw [hcount, hsum]
      by_cases hs : w = s
      · subst hs
        obtain rfl := hdist.eq (atDist_zero_iff.2 rfl)
        rw [hk, if_pos rfl, Finset.sum_eq_zero, add_zero, Int.toNat_natCast, walkCount_zero,
          if_pos rfl, Nat.cast_one]
        intro v hv
        cases (Finset.mem_filter.1 hv).2.2
      · rw [if_neg hs, zero_add, ← Nat.cast_sum,
          (h.levels hq).walkCount_root (List.mem_toFinset.2 hw) hs]

theorem count_ne_zero (hw : w ∈ search.stack) : search.count w ≠ 0 := by
  rcases h.atDist_of_mem hq hw with ⟨k, hk, hdist, -⟩
  rw [h.count_eq hq hw, hk, Int.toNat_natCast, Nat.cast_ne_zero, walkCount_ne_zero_iff]
  exact hdist.1

end

end Searching

end Durs
