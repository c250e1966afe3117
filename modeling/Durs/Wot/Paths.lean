/-
# The shortest certification paths

The paths from a node to another are found in two passes.  The first goes from the end of the paths
against the certifications, and keeps for each node its distance and all the nodes that are one step
closer.  The second follows these from the start of the paths.
-/

import Durs.Wot.Graph

namespace Durs

open RustStd Lib

/-- What is known of each node: its distance, and the nodes one step closer. -/
abbrev BackwardLinks := List (Nat × List NodeId)

/-- Follow one link of a node of the border. -/
def followLink (distance : Nat) (node : NodeId) (found : BackwardLinks × HashSet NodeId)
    (source : NodeId) : Run (BackwardLinks × HashSet NodeId) := do
  let known ← expect found.1[source]? "index out of bounds"
  if distance < known.1 then
    -- A shorter path replaces what is known.
    return (found.1.set source (distance, [node]), found.2.insert source)
  else if known.1 = distance then
    -- A path of the same length is added.
    return (found.1.set source (known.1, known.2 ++ [node]), found.2.insert source)
  else return found

/-- Follow the links of a node of the border. -/
def followLinks (wot : WebOfTrust) (distance : Nat) (found : BackwardLinks × HashSet NodeId)
    (node : NodeId) : Run (BackwardLinks × HashSet NodeId) := do
  let sources ← expect (wot.getLinksSource node) "called `Option::unwrap()` on a `None` value"
  sources.foldlM (followLink distance node) found

/-- Go one step beyond the border. -/
def exploreBorder (wot : WebOfTrust) (found : BackwardLinks × HashSet NodeId) (distance : Nat) :
    Run (BackwardLinks × HashSet NodeId) :=
  found.2.iter.foldlM (followLinks wot distance) (found.1, ∅)

/-- Complete a path with each node one step closer, unless it is complete. -/
def extendPath (graph : BackwardLinks) (to' : NodeId) (path : List NodeId) :
    Run (List (List NodeId)) := do
  let node ← expect path.getLast? "called `Option::unwrap()` on a `None` value"
  if node = to' then return [path]
  else
    let sources ← expect graph[node]? "index out of bounds"
    return sources.2.map fun source => path ++ [source]

/-- Complete each path. -/
def extendPaths (graph : BackwardLinks) (to' : NodeId) (paths : List (List NodeId)) :
    Run (List (List NodeId)) := do
  let newPaths ← paths.mapM (extendPath graph to')
  return newPaths.flatten

/-- `RustyPathFinder::find_paths`. -/
def findPaths (wot : WebOfTrust) (from' to' : NodeId) (kMax : Nat) : Run (List (List NodeId)) := do
  if wot.size ≤ from' ∨ wot.size ≤ to' then return []
  else
    let graph := (List.replicate wot.size ((kMax + 1) % 4294967296, [])).set to' (0, [])
    let found ← (List.range' 1 kMax).foldlM (exploreBorder wot) (graph, HashSet.insert ∅ to')
    (List.range' 1 kMax).foldlM (fun paths _ => extendPaths found.1 to' paths) [[from']]

/-! ## Following links -/

/-- What following links of a new distance makes of the nodes that are known at no less. -/
structure Followed (distance : Nat) (before : BackwardLinks) (links : List (NodeId × NodeId))
    (found : BackwardLinks × HashSet NodeId) : Prop where
  graph : found.1 = before.mapIdx fun v known =>
    if distance < known.1 ∧ closerNodes links v ≠ [] then (distance, closerNodes links v) else known
  border : ∀ v, v ∈ found.2 ↔
    ∃ known, before[v]? = some known ∧ distance < known.1 ∧ closerNodes links v ≠ []

namespace Followed

variable {wot : WebOfTrust} {distance : Nat} {before : BackwardLinks} {u v : NodeId}
  {links : List (NodeId × NodeId)} {found found' : BackwardLinks × HashSet NodeId}

theorem nil : Followed distance before [] (before, ∅) where
  graph := by
    apply List.ext_getElem?
    intro v
    simp [List.getElem?_mapIdx, closerNodes]
  border v := by simp [closerNodes]

theorem length_eq (h : Followed distance before links found) :
    found.1.length = before.length := by
  rw [h.graph, List.length_mapIdx]

theorem getElem? (h : Followed distance before links found) (v : NodeId) :
    found.1[v]? = before[v]?.map fun known =>
      if distance < known.1 ∧ closerNodes links v ≠ [] then (distance, closerNodes links v)
      else known := by
  rw [h.graph, List.getElem?_mapIdx]

/-- A link of a known node is followed. -/
theorem exists_followLink (h : Followed distance before links found) (hv : v < before.length) :
    ∃ found', followLink distance u found v = .ok found' := by
  rw [← h.length_eq] at hv
  rw [followLink, List.getElem?_eq_getElem hv, expect_some, ok_bind]
  split_ifs <;> exact ⟨_, rfl⟩

/-- A link of a node that is known at a smaller distance changes nothing. -/
theorem skip (h : Followed distance before links found) {old : Nat × List NodeId}
    (hold : before[v]? = some old) (hle : ¬distance < old.1) :
    Followed distance before (links ++ [(u, v)]) found where
  graph := by
    apply List.ext_getElem?
    intro w
    rw [h.getElem?, List.getElem?_mapIdx]
    by_cases hw : v = w
    · subst hw
      rw [hold, Option.map_some, Option.map_some, if_neg fun hc => hle hc.1,
        if_neg fun hc => hle hc.1]
    · rw [closerNodes_concat_of_ne hw]
  border w := by
    rw [h.border]
    by_cases hw : v = w
    · subst hw
      rw [hold]
      constructor <;> (rintro ⟨known, hknown, hlt, -⟩; cases hknown; exact absurd hlt hle)
    · rw [closerNodes_concat_of_ne hw]

/-- A link of a node that is known at no smaller distance is kept. -/
theorem keep (h : Followed distance before links found) {old : Nat × List NodeId}
    (hold : before[v]? = some old) (hlt : distance < old.1) :
    Followed distance before (links ++ [(u, v)])
      (found.1.set v (distance, closerNodes links v ++ [u]), found.2.insert v) where
  graph := by
    have hv : v < found.1.length := h.length_eq ▸ (List.getElem?_eq_some_iff.1 hold).1
    apply List.ext_getElem?
    intro w
    rw [List.getElem?_mapIdx]
    by_cases hw : v = w
    · subst hw
      rw [List.getElem?_set_self hv, hold, Option.map_some, closerNodes_concat_self,
        if_pos ⟨hlt, List.concat_ne_nil _ _⟩]
    · rw [List.getElem?_set_ne hw, h.getElem?, closerNodes_concat_of_ne hw]
  border w := by
    rw [HashSet.mem_insert, h.border]
    by_cases hw : v = w
    · subst hw
      rw [closerNodes_concat_self]
      exact ⟨fun _ => ⟨old, hold, hlt, List.concat_ne_nil _ _⟩, fun _ => .inl rfl⟩
    · rw [closerNodes_concat_of_ne hw, or_iff_right (Ne.symm hw)]

/-- Following one more link. -/
theorem followLink (h : Followed distance before links found)
    (hnew : ∀ known ∈ before, known.1 ≠ distance)
    (hrun : Durs.followLink distance u found v = .ok found') :
    v < before.length ∧ Followed distance before (links ++ [(u, v)]) found' := by
  rw [Durs.followLink, bind_eq_ok_iff] at hrun
  rcases hrun with ⟨known, hknown, hrun⟩
  rw [expect_eq_ok_iff, h.getElem?, Option.map_eq_some_iff] at hknown
  rcases hknown with ⟨old, hold, hknown⟩
  have hne : old.1 ≠ distance := hnew old (List.mem_of_getElem? hold)
  refine ⟨(List.getElem?_eq_some_iff.1 hold).1, ?_⟩
  by_cases hlt : distance < old.1
  · have hkeep : Followed distance before (links ++ [(u, v)]) _ := h.keep hold hlt
    by_cases hnil : closerNodes links v = []
    · rw [if_neg fun hc => hc.2 hnil] at hknown
      rw [← hknown, if_pos hlt] at hrun
      rw [hnil] at hkeep
      exact pure_eq_ok_iff.1 hrun ▸ hkeep
    · rw [if_pos ⟨hlt, hnil⟩] at hknown
      rw [← hknown, if_neg (lt_irrefl distance), if_pos rfl] at hrun
      exact pure_eq_ok_iff.1 hrun ▸ hkeep
  · rw [if_neg fun hc => hlt hc.1] at hknown
    rw [← hknown, if_neg hlt, if_neg hne] at hrun
    exact pure_eq_ok_iff.1 hrun ▸ h.skip hold hlt

/-- Following one more of the links of a node. -/
theorem followLink_map (hnew : ∀ known ∈ before, known.1 ≠ distance) (done : List NodeId)
    (v : NodeId) (found found' : BackwardLinks × HashSet NodeId)
    (h : Followed distance before (links ++ done.map fun v => (u, v)) found)
    (hrun : Durs.followLink distance u found v = .ok found') :
    v < before.length ∧
      Followed distance before (links ++ (done ++ [v]).map fun v => (u, v)) found' := by
  rw [List.map_append, ← List.append_assoc]
  exact h.followLink hnew hrun

/-- Following the links of a node. -/
theorem followLinks (h : Followed distance before links found)
    (hnew : ∀ known ∈ before, known.1 ≠ distance)
    (hrun : Durs.followLinks wot distance found u = .ok found') :
    (u < wot.size ∧ ∀ v ∈ wot.sources u, v < before.length) ∧
      Followed distance before (links ++ linksTo wot u) found' := by
  rw [Durs.followLinks, bind_eq_ok_iff] at hrun
  rcases hrun with ⟨sources, hsources, hrun⟩
  rw [expect_eq_ok_iff] at hsources
  rw [← List.append_nil links] at h
  have hfold := foldlM_of_steps (fun done v _ => followLink_map hnew done v) [] h hrun
  rw [linksTo, hsources]
  refine ⟨⟨WebOfTrust.lt_size_of_getLinksSource hsources, fun v hv => ?_⟩, hfold.2⟩
  exact hfold.1 v ((WebOfTrust.mem_of_getLinksSource hsources).2 hv)

/-- The links of a known node are followed when they come from known nodes. -/
theorem exists_followLinks (h : Followed distance before links found)
    (hnew : ∀ known ∈ before, known.1 ≠ distance)
    (hknown : u < wot.size ∧ ∀ v ∈ wot.sources u, v < before.length) :
    ∃ found', Durs.followLinks wot distance found u = .ok found' := by
  rcases WebOfTrust.exists_getLinksSource hknown.1 with ⟨sources, hsources⟩
  rw [Durs.followLinks, hsources, expect_some, ok_bind]
  rw [← List.append_nil links] at h
  apply exists_foldlM_of_steps (fun done v _ => followLink_map hnew done v) _ [] h
  · intro v hv
    exact hknown.2 v ((WebOfTrust.mem_of_getLinksSource hsources).1 hv)
  · intro done v _ found h hv
    exact h.exists_followLink hv

/-- Following the links of one more node of the border. -/
theorem followLinks_flatMap (hnew : ∀ known ∈ before, known.1 ≠ distance) (done : List NodeId)
    (u : NodeId) (found found' : BackwardLinks × HashSet NodeId)
    (h : Followed distance before (done.flatMap (linksTo wot)) found)
    (hrun : Durs.followLinks wot distance found u = .ok found') :
    (u < wot.size ∧ ∀ v ∈ wot.sources u, v < before.length) ∧
      Followed distance before ((done ++ [u]).flatMap (linksTo wot)) found' := by
  rw [List.flatMap_append, List.flatMap_singleton]
  exact h.followLinks hnew hrun

end Followed

/-! ## The first pass -/

/-- What is known after a number of steps from the end of the paths. -/
structure Explored (wot : WebOfTrust) (to' : NodeId) (far steps : Nat)
    (found : BackwardLinks × HashSet NodeId) : Prop where
  length_eq : found.1.length = wot.size
  reached : ∀ k ≤ steps, ∀ v, AtDist wot.sources to' k v →
    ∃ closer, found.1[v]? = some (k, closer) ∧ closer.Nodup ∧
      ∀ u, u ∈ closer ↔ ∃ j, k = j + 1 ∧ AtDist wot.sources to' j u ∧ v ∈ wot.sources u
  beyond : ∀ v < wot.size, (∀ k ≤ steps, ¬AtDist wot.sources to' k v) →
    found.1[v]? = some (far, [])
  border : ∀ v, v ∈ found.2 ↔ AtDist wot.sources to' steps v

namespace Explored

variable {wot : WebOfTrust} {to' : NodeId} {far steps : Nat}
  {found found' : BackwardLinks × HashSet NodeId}

/-- Each node is known at its distance or not at all. -/
theorem ne_succ (h : Explored wot to' far steps found) (hfar : steps + 1 < far) :
    ∀ known ∈ found.1, known.1 ≠ steps + 1 := by
  intro known hmem
  rcases List.mem_iff_getElem?.1 hmem with ⟨v, hv⟩
  have hlt : v < wot.size := h.length_eq ▸ (List.getElem?_eq_some_iff.1 hv).1
  by_cases hdist : ∃ k ≤ steps, AtDist wot.sources to' k v
  · rcases hdist with ⟨k, hle, hk⟩
    rcases h.reached k hle v hk with ⟨closer, hclose, -⟩
    obtain rfl := Option.some.inj (hclose.symm.trans hv)
    exact (Nat.lt_succ_of_le hle).ne
  · have hbeyond := h.beyond v hlt fun k hle hk => hdist ⟨k, hle, hk⟩
    obtain rfl := Option.some.inj (hbeyond.symm.trans hv)
    exact hfar.ne'

/-- The state before the first step. -/
theorem start (hto : to' < wot.size) : Explored wot to' far 0
    ((List.replicate wot.size (far, [])).set to' (0, []), HashSet.insert ∅ to') where
  length_eq := by rw [List.length_set, List.length_replicate]
  reached k hle v hdist := by
    obtain rfl := Nat.le_zero.1 hle
    obtain rfl := atDist_zero_iff.1 hdist
    refine ⟨[], List.getElem?_set_self (by rwa [List.length_replicate]), List.nodup_nil, ?_⟩
    intro u
    constructor
    · intro hu
      cases hu
    · rintro ⟨j, hj, -⟩
      cases hj
  beyond v hlt hdist := by
    have hne : to' ≠ v := by
      rintro rfl
      exact hdist 0 le_rfl (atDist_zero_iff.2 rfl)
    rw [List.getElem?_set_ne hne, List.getElem?_replicate, if_pos hlt]
  border v := by
    rw [HashSet.mem_insert, atDist_zero_iff]
    exact or_iff_left (HashSet.not_mem_empty v)

/-- The links of the border go to the nodes one step further. -/
theorem mem_closerNodes_border_iff (h : Explored wot to' far steps found) (u v : NodeId) :
    u ∈ closerNodes (found.2.iter.flatMap (linksTo wot)) v ↔
      AtDist wot.sources to' steps u ∧ v ∈ wot.sources u := by
  rw [mem_closerNodes_iff, List.mem_flatMap]
  constructor
  · rintro ⟨w, hw, hlink⟩
    obtain ⟨rfl, hlink⟩ := mem_linksTo_iff.1 hlink
    exact ⟨(h.border u).1 hw, hlink⟩
  · rintro ⟨hu, hlink⟩
    exact ⟨u, (h.border u).2 hu, mem_linksTo_iff.2 ⟨rfl, hlink⟩⟩

theorem closerNodes_border_ne_nil_iff (h : Explored wot to' far steps found) (v : NodeId) :
    closerNodes (found.2.iter.flatMap (linksTo wot)) v ≠ [] ↔
      ∃ u, AtDist wot.sources to' steps u ∧ v ∈ wot.sources u := by
  constructor
  · intro hnil
    rcases List.exists_mem_of_ne_nil _ hnil with ⟨u, hu⟩
    exact ⟨u, (h.mem_closerNodes_border_iff u v).1 hu⟩
  · rintro ⟨u, hu⟩
    exact List.ne_nil_of_mem ((h.mem_closerNodes_border_iff u v).2 hu)

/-- A node of the next border is not known yet. -/
theorem next (h : Explored wot to' far steps found)
    (hknown : ∀ v, AtDist wot.sources to' steps v → ∀ u ∈ wot.sources v, u < found.1.length)
    {v : NodeId} (hdist : AtDist wot.sources to' (steps + 1) v) :
    found.1[v]? = some (far, []) ∧
      closerNodes (found.2.iter.flatMap (linksTo wot)) v ≠ [] := by
  obtain ⟨⟨u, hu, hlink⟩, hmin⟩ := atDist_succ_iff.1 hdist
  have hlt := hknown u hu v hlink
  rw [h.length_eq] at hlt
  exact ⟨h.beyond v hlt hmin, (h.closerNodes_border_ne_nil_iff v).2 ⟨u, hu, hlink⟩⟩

/-- What following the links of the border leaves is what is known one step further. -/
theorem of_followed (h : Explored wot to' far steps found) (hfar : steps + 1 < far)
    (hknown : ∀ v, AtDist wot.sources to' steps v → ∀ u ∈ wot.sources v, u < found.1.length)
    (hfollowed : Followed (steps + 1) found.1 (found.2.iter.flatMap (linksTo wot)) found') :
    Explored wot to' far (steps + 1) found' where
  length_eq := hfollowed.length_eq.trans h.length_eq
  reached k hle v hdist := by
    rw [hfollowed.getElem?]
    obtain rfl | hlt := hle.eq_or_lt
    · obtain ⟨hbefore, hnil⟩ := h.next hknown hdist
      rw [hbefore, Option.map_some, if_pos ⟨hfar, hnil⟩]
      refine ⟨_, rfl, nodup_closerNodes (nodup_flatMap_linksTo found.2.nodup_iter), ?_⟩
      intro u
      rw [h.mem_closerNodes_border_iff]
      constructor
      · intro hu
        exact ⟨steps, rfl, hu⟩
      · rintro ⟨j, hj, hu⟩
        obtain rfl := Nat.succ.inj hj
        exact hu
    · rcases h.reached k (Nat.le_of_lt_succ hlt) v hdist with ⟨closer, hbefore, hcloser⟩
      rw [hbefore, Option.map_some, if_neg fun hc => Nat.lt_asymm hlt hc.1]
      exact ⟨closer, rfl, hcloser⟩
  beyond v hlt hmin := by
    have hmin' : ∀ k ≤ steps, ¬AtDist wot.sources to' k v := fun k hle =>
      hmin k (Nat.le_succ_of_le hle)
    rw [hfollowed.getElem?, h.beyond v hlt hmin', Option.map_some, if_neg]
    rintro ⟨-, hnil⟩
    exact hmin (steps + 1) le_rfl
      (atDist_succ_iff.2 ⟨(h.closerNodes_border_ne_nil_iff v).1 hnil, hmin'⟩)
  border v := by
    rw [hfollowed.border]
    constructor
    · rintro ⟨known, hbefore, hlt, hnil⟩
      refine atDist_succ_iff.2 ⟨(h.closerNodes_border_ne_nil_iff v).1 hnil, fun j hle hj => ?_⟩
      rcases h.reached j hle v hj with ⟨closer, hj, -⟩
      obtain rfl := Option.some.inj (hj.symm.trans hbefore)
      exact absurd hlt (Nat.not_lt_of_le (Nat.le_succ_of_le hle))
    · intro hdist
      obtain ⟨hbefore, hnil⟩ := h.next hknown hdist
      exact ⟨_, hbefore, hfar, hnil⟩

/-- One more step that returns. -/
theorem step (h : Explored wot to' far steps found) (hfar : steps + 1 < far)
    (hrun : exploreBorder wot found (steps + 1) = .ok found') :
    (∀ v, AtDist wot.sources to' steps v → ∀ u ∈ wot.sources v, u < wot.size) ∧
      Explored wot to' far (steps + 1) found' := by
  have hnew := h.ne_succ hfar
  obtain ⟨hgood, hfollowed⟩ := foldlM_of_steps
    (fun done u _ => Followed.followLinks_flatMap hnew done u) [] Followed.nil hrun
  have hknown : ∀ v, AtDist wot.sources to' steps v → ∀ u ∈ wot.sources v, u < found.1.length :=
    fun v hv => (hgood v ((h.border v).2 hv)).2
  exact ⟨h.length_eq ▸ hknown, h.of_followed hfar hknown hfollowed⟩

/-- One more step returns when the sources of the border are known. -/
theorem exists_step (h : Explored wot to' far steps found) (hfar : steps + 1 < far)
    (hborder : ∀ v, AtDist wot.sources to' steps v → v < wot.size)
    (hknown : ∀ v, AtDist wot.sources to' steps v → ∀ u ∈ wot.sources v, u < wot.size) :
    ∃ found', exploreBorder wot found (steps + 1) = .ok found' := by
  have hnew := h.ne_succ hfar
  apply exists_foldlM_of_steps (fun done u _ => Followed.followLinks_flatMap hnew done u) _ []
    Followed.nil
  · intro v hv
    have hdist := (h.border v).1 hv
    exact ⟨hborder v hdist, h.length_eq.symm ▸ hknown v hdist⟩
  · intro done v _ found hfollowed hgood
    exact hfollowed.exists_followLinks hnew hgood

/-- A run of the first pass that returns. -/
theorem of_run (h : Explored wot to' far 0 found) (hfar : steps < far)
    (hrun : (List.range' 1 steps).foldlM (exploreBorder wot) found = .ok found') :
    wot.KnownWithin to' steps ∧ Explored wot to' far steps found' := by
  induction steps generalizing found' with
  | zero =>
      obtain rfl := pure_eq_ok_iff.1 hrun
      exact ⟨WebOfTrust.knownWithin_zero, h⟩
  | succ steps ih =>
      rw [List.range'_1_concat, List.foldlM_append, bind_eq_ok_iff] at hrun
      rcases hrun with ⟨mid, hmid, hrun⟩
      obtain ⟨hwithin, hmid⟩ := ih (Nat.lt_of_succ_lt hfar) hmid
      rw [Nat.add_comm, List.foldlM_cons, bind_eq_ok_iff] at hrun
      rcases hrun with ⟨last, hlast, hrun⟩
      obtain rfl := pure_eq_ok_iff.1 hrun
      obtain ⟨hknown, hlast⟩ := hmid.step hfar hlast
      exact ⟨WebOfTrust.knownWithin_succ_iff.2 ⟨hwithin, hknown⟩, hlast⟩

/-- The first pass returns when the nodes that it meets are known. -/
theorem exists_run (h : Explored wot to' far 0 found) (hfar : steps < far) (hto : to' < wot.size)
    (hknown : wot.KnownWithin to' steps) :
    ∃ found', (List.range' 1 steps).foldlM (exploreBorder wot) found = .ok found' := by
  induction steps with
  | zero => exact ⟨found, rfl⟩
  | succ steps ih =>
      obtain ⟨hwithin, hborder⟩ := WebOfTrust.knownWithin_succ_iff.1 hknown
      rcases ih (Nat.lt_of_succ_lt hfar) hwithin with ⟨mid, hrun⟩
      have hmid := (h.of_run (Nat.lt_of_succ_lt hfar) hrun).2
      rcases hmid.exists_step hfar (fun v => hwithin.lt_size hto le_rfl) hborder with ⟨last, hlast⟩
      refine ⟨last, ?_⟩
      rw [List.range'_1_concat, List.foldlM_append, hrun, ok_bind, Nat.add_comm, List.foldlM_cons,
        hlast]
      rfl

end Explored

/-! ## The second pass -/

/-- The nodes one step closer than the last node of a path. -/
def lastCloser (graph : BackwardLinks) (path : List NodeId) : List NodeId :=
  (path.getLast?.bind fun v => graph[v]?).elim [] Prod.snd

section

variable {wot : WebOfTrust} {graph : BackwardLinks} {from' to' v : NodeId} {far kMax d steps : Nat}
  {path : List NodeId} {paths paths' : List (List NodeId)}
  {found : BackwardLinks × HashSet NodeId}

theorem extendPath_of_complete (h : path.getLast? = some to') :
    extendPath graph to' path = .ok [path] := by
  rw [extendPath, h, expect_some, ok_bind, if_pos rfl]
  rfl

theorem extendPath_of_ne (h : path.getLast? = some v) (hne : v ≠ to') (hv : v < graph.length) :
    extendPath graph to' path = .ok ((lastCloser graph path).map fun u => path ++ [u]) := by
  rw [extendPath, lastCloser, h, expect_some, ok_bind, if_neg hne, Option.bind_some,
    List.getElem?_eq_getElem hv]
  rfl

theorem extendPaths_of_forall {extend : List NodeId → List (List NodeId)}
    (h : ∀ path ∈ paths, extendPath graph to' path = .ok (extend path)) :
    extendPaths graph to' paths = .ok (paths.flatMap extend) := by
  rw [extendPaths, mapM_eq_ok_map h]
  rfl

/-- Lists that continue different lists differ. -/
theorem nodup_flatMap_concat {next : List NodeId → List NodeId} (h : paths.Nodup)
    (hnext : ∀ path ∈ paths, (next path).Nodup) :
    (paths.flatMap fun path => (next path).map fun u => path ++ [u]).Nodup := by
  rw [List.nodup_flatMap]
  constructor
  · intro path hmem
    exact (hnext path hmem).map fun u w heq =>
      List.singleton_injective (List.append_cancel_left heq)
  · apply h.imp
    rintro p q hne path hp hq
    obtain ⟨u, -, rfl⟩ := List.mem_map.1 hp
    obtain ⟨w, -, heq⟩ := List.mem_map.1 hq
    exact hne (List.append_inj_left' heq rfl).symm

/-- The paths after a number of steps from a node at a distance. -/
structure Approach (wot : WebOfTrust) (from' to' : NodeId) (d steps : Nat)
    (paths : List (List NodeId)) : Prop where
  nodup : paths.Nodup
  mem_iff : ∀ path, path ∈ paths ↔ ∃ v, IsPath wot.sources from' v path ∧
    AtDist wot.sources to' (d - steps) v ∧ path.length = min steps d + 1

namespace Approach

theorem start (hdist : AtDist wot.sources to' d from') :
    Approach wot from' to' d 0 [[from']] where
  nodup := List.nodup_singleton _
  mem_iff path := by
    rw [List.mem_singleton, Nat.zero_min]
    constructor
    · rintro rfl
      exact ⟨from', isPath_singleton_iff.2 ⟨rfl, rfl⟩, hdist, rfl⟩
    · rintro ⟨v, hpath, -, hlength⟩
      obtain ⟨u, rfl⟩ := List.length_eq_one_iff.1 hlength
      rw [(isPath_singleton_iff.1 hpath).1]

/-- Paths that are complete stay. -/
theorem stay (h : Approach wot from' to' d steps paths) (hle : d ≤ steps) :
    extendPaths graph to' paths = .ok paths ∧ Approach wot from' to' d (steps + 1) paths := by
  have hzero : d - steps = 0 := Nat.sub_eq_zero_of_le hle
  have hzero' : d - (steps + 1) = 0 := Nat.sub_eq_zero_of_le (Nat.le_succ_of_le hle)
  constructor
  · have hextend : ∀ path ∈ paths, extendPath graph to' path = .ok [path] := by
      intro path hmem
      rcases (h.mem_iff path).1 hmem with ⟨v, hpath, hdist, -⟩
      rw [hzero, atDist_zero_iff] at hdist
      exact extendPath_of_complete (hdist ▸ hpath.getLast?)
    rw [extendPaths_of_forall hextend, List.flatMap_singleton']
  · refine ⟨h.nodup, fun path => ?_⟩
    rw [h.mem_iff, hzero, hzero', Nat.min_eq_right hle, Nat.min_eq_right (Nat.le_succ_of_le hle)]

/-- The nodes that continue a path on its way. -/
theorem lastCloser (hexplored : Explored wot to' far kMax found)
    (hpath : IsPath wot.sources from' v path) {k : Nat} (hle : k + 1 ≤ kMax)
    (hdist : AtDist wot.sources to' (k + 1) v) :
    (Durs.lastCloser found.1 path).Nodup ∧ ∀ u, u ∈ Durs.lastCloser found.1 path ↔
      AtDist wot.sources to' k u ∧ v ∈ wot.sources u := by
  rcases hexplored.reached (k + 1) hle v hdist with ⟨closer, hcloser, hnodup, hmem⟩
  rw [Durs.lastCloser, hpath.getLast?, Option.bind_some, hcloser]
  refine ⟨hnodup, fun u => (hmem u).trans ?_⟩
  constructor
  · rintro ⟨j, hj, hu⟩
    obtain rfl := Nat.succ.inj hj
    exact hu
  · intro hu
    exact ⟨k, rfl, hu⟩

/-- The paths that are not complete yet. -/
theorem mem_iff_of_lt {k : Nat} (h : Approach wot from' to' (k + 1 + steps) steps paths)
    (path : List NodeId) : path ∈ paths ↔ ∃ v, IsPath wot.sources from' v path ∧
      AtDist wot.sources to' (k + 1) v ∧ path.length = steps + 1 := by
  rw [h.mem_iff, Nat.add_sub_cancel, Nat.min_eq_left (Nat.le_add_left steps (k + 1))]

/-- The paths that continue those that are not complete. -/
theorem mem_extended_iff {k : Nat} (h : Approach wot from' to' (k + 1 + steps) steps paths)
    (hexplored : Explored wot to' far kMax found) (hle : k + 1 ≤ kMax)
    (hdist : AtDist wot.sources to' (k + 1 + steps) from') (path : List NodeId) :
    path ∈ paths.flatMap (fun path => (Durs.lastCloser found.1 path).map fun u => path ++ [u]) ↔
      ∃ u, IsPath wot.sources from' u path ∧ AtDist wot.sources to' k u ∧
        path.length = steps + 1 + 1 := by
  rw [List.mem_flatMap]
  constructor
  · rintro ⟨p, hmem, hp⟩
    obtain ⟨u, hu, rfl⟩ := List.mem_map.1 hp
    rcases (h.mem_iff_of_lt p).1 hmem with ⟨v, hpath, hv, hlength⟩
    obtain ⟨hdistu, hlink⟩ := ((lastCloser hexplored hpath hle hv).2 u).1 hu
    obtain ⟨hpath, hlength⟩ := isPath_length_succ_iff.2 ⟨p, v, ⟨hpath, hlength⟩, hlink, rfl⟩
    exact ⟨u, hpath, hdistu, hlength⟩
  · rintro ⟨u, hconcat, hu, hsucc⟩
    obtain ⟨p, v, ⟨hpath, hlength⟩, hlink, rfl⟩ := isPath_length_succ_iff.1 ⟨hconcat, hsucc⟩
    have hv : AtDist wot.sources to' (k + 1) v :=
      hdist.of_trans ⟨u, hu.1, hlink⟩ (hpath.reachesIn hlength)
    refine ⟨p, (h.mem_iff_of_lt p).2 ⟨v, hpath, hv, hlength⟩, List.mem_map.2 ⟨u, ?_, rfl⟩⟩
    exact ((lastCloser hexplored hpath hle hv).2 u).2 ⟨hu, hlink⟩

/-- Paths that are not complete go on. -/
theorem advance (h : Approach wot from' to' d steps paths)
    (hexplored : Explored wot to' far kMax found) (hlt : steps < d) (hle : d ≤ kMax)
    (hdist : AtDist wot.sources to' d from')
    (hknown : ∀ k ≤ kMax, ∀ v, AtDist wot.sources to' k v → v < wot.size) :
    ∃ paths', extendPaths found.1 to' paths = .ok paths' ∧
      Approach wot from' to' d (steps + 1) paths' := by
  obtain ⟨k, rfl⟩ : ∃ k, d = k + 1 + steps := ⟨d - steps - 1, by omega⟩
  have hkMax : k + 1 ≤ kMax := (Nat.le_add_right _ _).trans hle
  have hextend : ∀ path ∈ paths, extendPath found.1 to' path =
      .ok ((Durs.lastCloser found.1 path).map fun u => path ++ [u]) := by
    intro path hmem
    rcases (h.mem_iff_of_lt path).1 hmem with ⟨v, hpath, hv, -⟩
    apply extendPath_of_ne hpath.getLast?
    · rintro rfl
      cases hv.eq (atDist_zero_iff.2 rfl)
    · rw [hexplored.length_eq]
      exact hknown (k + 1) hkMax v hv
  have hcloser : ∀ path ∈ paths, (Durs.lastCloser found.1 path).Nodup := by
    intro path hmem
    rcases (h.mem_iff_of_lt path).1 hmem with ⟨v, hpath, hv, -⟩
    exact (lastCloser hexplored hpath hkMax hv).1
  have hnext : k + 1 + steps - (steps + 1) = k := by omega
  refine ⟨_, extendPaths_of_forall hextend, nodup_flatMap_concat h.nodup hcloser, fun path => ?_⟩
  rw [h.mem_extended_iff hexplored hkMax hdist, hnext, Nat.min_eq_left (Nat.succ_le_of_lt hlt)]

/-- A run of the second pass. -/
theorem exists_run (hexplored : Explored wot to' far kMax found) (hle : d ≤ kMax)
    (hdist : AtDist wot.sources to' d from')
    (hknown : ∀ k ≤ kMax, ∀ v, AtDist wot.sources to' k v → v < wot.size) (steps : Nat) :
    ∃ paths, (List.range' 1 steps).foldlM (fun paths _ => extendPaths found.1 to' paths)
      [[from']] = .ok paths ∧ Approach wot from' to' d steps paths := by
  induction steps with
  | zero => exact ⟨_, rfl, start hdist⟩
  | succ steps ih =>
      rcases ih with ⟨mid, hrun, hmid⟩
      obtain ⟨last, hstep, hlast⟩ : ∃ last, extendPaths found.1 to' mid = .ok last ∧
          Approach wot from' to' d (steps + 1) last := by
        rcases Nat.lt_or_ge steps d with hlt | hge
        · exact hmid.advance hexplored hlt hle hdist hknown
        · exact ⟨mid, hmid.stay hge⟩
      refine ⟨last, ?_, hlast⟩
      rw [List.range'_1_concat, List.foldlM_append, hrun, ok_bind, List.foldlM_cons, hstep]
      rfl

end Approach

/-- From a node out of reach, no path is left after a step. -/
theorem foldlM_extendPaths_of_beyond (hexplored : Explored wot to' far kMax found)
    (hfrom : from' < wot.size) (hbeyond : ∀ k ≤ kMax, ¬AtDist wot.sources to' k from')
    (steps : Nat) :
    (List.range' 1 (steps + 1)).foldlM (fun paths _ => extendPaths found.1 to' paths) [[from']] =
      .ok [] := by
  induction steps with
  | zero =>
      have hne : from' ≠ to' := by
        rintro rfl
        exact hbeyond 0 (Nat.zero_le kMax) (atDist_zero_iff.2 rfl)
      have hcloser : lastCloser found.1 [from'] = [] := by
        rw [lastCloser, List.getLast?_singleton, Option.bind_some,
          hexplored.beyond from' hfrom hbeyond]
        rfl
      have hextend : extendPath found.1 to' [from'] = .ok [] := by
        rw [extendPath_of_ne rfl hne (hexplored.length_eq ▸ hfrom), hcloser]
        rfl
      rw [List.range'_one, List.foldlM_cons, extendPaths, List.mapM_cons, hextend]
      rfl
  | succ steps ih =>
      rw [List.range'_1_concat, List.foldlM_append, ih]
      rfl

end

/-! ## All the shortest paths -/

/-- All the shortest paths from a node to another with at most so many links, each of them once and
without a repeated node. -/
structure IsAllShortest (wot : WebOfTrust) (from' to' : NodeId) (kMax : Nat)
    (paths : List (List NodeId)) : Prop where
  nodup : paths.Nodup
  mem_iff : ∀ path, path ∈ paths ↔
    IsShortestPath wot.sources from' to' path ∧ path.length ≤ kMax + 1
  nodup_path : ∀ path ∈ paths, path.Nodup

section

variable {wot : WebOfTrust} {from' to' : NodeId} {kMax d : Nat} {paths : List (List NodeId)}

/-- The paths left once every path has had the steps that it needs. -/
theorem Approach.isAllShortest (h : Approach wot from' to' d kMax paths) (hle : d ≤ kMax)
    (hdist : AtDist wot.sources to' d from') : IsAllShortest wot from' to' kMax paths := by
  have hmem : ∀ path, path ∈ paths ↔
      IsPath wot.sources from' to' path ∧ path.length = d + 1 := by
    intro path
    rw [h.mem_iff, Nat.sub_eq_zero_of_le hle, Nat.min_eq_right hle]
    constructor
    · rintro ⟨v, hpath, hv, hlength⟩
      obtain rfl := atDist_zero_iff.1 hv
      exact ⟨hpath, hlength⟩
    · rintro ⟨hpath, hlength⟩
      exact ⟨to', hpath, atDist_zero_iff.2 rfl, hlength⟩
  refine ⟨h.nodup, fun path => ?_, fun path hpath => ?_⟩
  · rw [hmem, ← hdist.isShortestPath_iff, iff_self_and]
    intro hshortest
    rw [(hdist.isShortestPath_iff.1 hshortest).2]
    exact Nat.succ_le_succ hle
  · obtain ⟨hpath, hlength⟩ := (hmem path).1 hpath
    exact (hpath.pairwise_atDist hlength hdist).1

/-- From a node out of reach there is no path. -/
theorem isAllShortest_nil (hbeyond : ∀ k ≤ kMax, ¬AtDist wot.sources to' k from') :
    IsAllShortest wot from' to' kMax [] where
  nodup := List.nodup_nil
  mem_iff path := by
    constructor
    · intro h
      cases h
    · rintro ⟨hshortest, hle⟩
      obtain ⟨k, hk, hdist⟩ := hshortest.exists_atDist
      rw [hk] at hle
      exact absurd hdist (hbeyond k (Nat.le_of_succ_le_succ hle))
  nodup_path path h := by cases h

/-- The two passes between known nodes. -/
theorem findPaths_eq (hfrom : from' < wot.size) (hto : to' < wot.size) (hmax : kMax < 4294967295) :
    findPaths wot from' to' kMax =
      ((List.range' 1 kMax).foldlM (exploreBorder wot)
        ((List.replicate wot.size (kMax + 1, [])).set to' (0, []), HashSet.insert ∅ to')).bind
      fun found =>
        (List.range' 1 kMax).foldlM (fun paths _ => extendPaths found.1 to' paths) [[from']] := by
  have hsize : ¬(wot.size ≤ from' ∨ wot.size ≤ to') := not_or.2 ⟨not_le.2 hfrom, not_le.2 hto⟩
  have hfar : (kMax + 1) % 4294967296 = kMax + 1 := Nat.mod_eq_of_lt (Nat.succ_lt_succ hmax)
  rw [findPaths, if_neg hsize, hfar]
  rfl

/-- Between known nodes, all the shortest paths within reach are returned exactly when no node that
the search goes through has an unknown source. -/
theorem findPaths_iff (hfrom : from' < wot.size) (hto : to' < wot.size) (hpos : 1 ≤ kMax)
    (hmax : kMax < 4294967295) :
    (∃ paths, findPaths wot from' to' kMax = .ok paths ∧ IsAllShortest wot from' to' kMax paths) ↔
      wot.KnownWithin to' kMax := by
  have hstart : Explored wot to' (kMax + 1) 0 _ := .start hto
  rw [findPaths_eq hfrom hto hmax]
  constructor
  · rintro ⟨paths, hrun, -⟩
    rcases bind_eq_ok_iff.1 hrun with ⟨found, hfound, -⟩
    exact (hstart.of_run (Nat.lt_succ_self kMax) hfound).1
  · intro hwithin
    rcases hstart.exists_run (Nat.lt_succ_self kMax) hto hwithin with ⟨found, hfound⟩
    have hexplored := (hstart.of_run (Nat.lt_succ_self kMax) hfound).2
    rw [hfound]
    by_cases hreach : ∃ d ≤ kMax, AtDist wot.sources to' d from'
    · rcases hreach with ⟨d, hle, hdist⟩
      have hknown : ∀ k ≤ kMax, ∀ v, AtDist wot.sources to' k v → v < wot.size :=
        fun k hk v => hwithin.lt_size hto hk
      rcases Approach.exists_run hexplored hle hdist hknown kMax with ⟨paths, hrun, hpaths⟩
      exact ⟨paths, hrun, hpaths.isAllShortest hle hdist⟩
    · have hbeyond : ∀ k ≤ kMax, ¬AtDist wot.sources to' k from' := fun k hle hk =>
        hreach ⟨k, hle, hk⟩
      obtain ⟨steps, rfl⟩ := Nat.exists_eq_add_of_le' hpos
      exact ⟨[], foldlM_extendPaths_of_beyond hexplored hfrom hbeyond steps,
        isAllShortest_nil hbeyond⟩

end

theorem findPaths_diamondWot :
    ∃ paths, findPaths diamondWot 0 3 2 = .ok paths ∧ IsAllShortest diamondWot 0 3 2 paths :=
  (findPaths_iff (by decide) (by decide) (by decide) (by decide)).2
    (WebOfTrust.knownWithin_of_forall (by decide) 3 2)

/-- The search stops the process at a certification by a node that was removed. -/
theorem not_findPaths_danglingWot : 0 < danglingWot.size ∧ 1 < danglingWot.size ∧
    ¬∃ paths, findPaths danglingWot 0 1 1 = .ok paths ∧ IsAllShortest danglingWot 0 1 1 paths := by
  refine ⟨by decide, by decide, ?_⟩
  rintro ⟨paths, hrun, -⟩
  have hfatal : findPaths danglingWot 0 1 1 = fatalError "index out of bounds" := by decide
  rw [hfatal] at hrun
  cases hrun

example : findPaths diamondWot 0 3 2 = .ok [[0, 1, 3], [0, 2, 3]] := by decide

end Durs
