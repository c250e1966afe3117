/-
# The distance rule

The area around a node grows one border at a time, and the sentries in it are counted.  The counts
are of the nodes at their shortest distances.
-/

import Durs.Wot.Graph

namespace Durs

open RustStd Lib

/-- `WotDistanceParameters`, over any floating point numbers. -/
structure WotDistanceParameters (F : Type) where
  /-- Node from where distances are calculated. -/
  node : NodeId
  /-- Links count received and issued to be a sentry. -/
  sentryRequirement : Nat
  stepMax : Nat
  xPercent : F

/-- `WotDistance`. -/
structure WotDistance where
  sentries : Nat
  success : Nat
  successAtBorder : Nat
  reached : Nat
  reachedAtBorder : Nat
  outdistanced : Bool
deriving DecidableEq

/-- `count as u32`. -/
def countAsU32 (count : Nat) : Nat := count % 4294967296

/-- `count - 1` on `u32`, which stops at zero where overflows are checked and wraps elsewhere. -/
def decrement (checked : Bool) (count : Nat) : Run Nat :=
  if count = 0 then
    if checked then fatalError "attempt to subtract with overflow" else .ok 4294967295
  else .ok (count - 1)

/-- Leave the node itself out of a count when it is counted. -/
def decrementIf (checked counted : Bool) (count : Nat) : Run Nat :=
  if counted then decrement checked count else .ok count

/-- The sources of a node of the border that are not in the area. -/
def newSources (wot : WebOfTrust) (area : HashSet NodeId) (id : NodeId) : Run (HashSet NodeId) := do
  let sources ← expect (wot.getLinksSource id) "called `Option::unwrap()` on a `None` value"
  return HashSet.ofList (sources.filter fun source => !area.contains source)

/-- Grow the area by one step, with its border. -/
def growArea (wot : WebOfTrust) (found : HashSet NodeId × HashSet NodeId) :
    Run (HashSet NodeId × HashSet NodeId) := do
  let sets ← found.2.iter.mapM (newSources wot found.1)
  let border := sets.foldl HashSet.union ∅
  return (found.1.union border, border)

/-- The nodes of a set that are in a list. -/
def countIn (nodes : List NodeId) (found : HashSet NodeId) : Nat :=
  (found.iter.filter fun id => nodes.contains id).length

/-- `RustyDistanceCalculator::compute_distance`, where `below success x_percent sentries` compares
the floating point numbers. -/
def computeDistance {F : Type} (checked : Bool) (below : Nat → F → Nat → Bool) (wot : WebOfTrust)
    (params : WotDistanceParameters F) : Run (Option WotDistance) := do
  if wot.size ≤ params.node then return none
  else
    let node := HashSet.insert ∅ params.node
    let found ← (List.range params.stepMax).foldlM (fun found _ => growArea wot found) (node, node)
    let sentries := wot.getSentries params.sentryRequirement
    let isSentry ← expect (wot.isSentry params.node params.sentryRequirement)
      "called `Option::unwrap()` on a `None` value"
    let sentriesCount ← decrementIf checked isSentry (countAsU32 sentries.length)
    let success ← decrementIf checked isSentry (countAsU32 (countIn sentries found.1))
    let reached ← decrement checked (countAsU32 found.1.len)
    return some
      { sentries := sentriesCount, reached, reachedAtBorder := countAsU32 found.2.len, success
        successAtBorder := countAsU32 (countIn sentries found.2)
        outdistanced := below success params.xPercent sentriesCount }

/-! ## The area -/

/-- The area and its border after a number of steps. -/
structure Area (wot : WebOfTrust) (node : NodeId) (steps : Nat)
    (found : HashSet NodeId × HashSet NodeId) : Prop where
  area : ∀ v, v ∈ found.1 ↔ ∃ k ≤ steps, AtDist wot.sources node k v
  border : ∀ v, v ∈ found.2 ↔ AtDist wot.sources node steps v

/-- The nodes at less than a distance are known. -/
def KnownBelow (wot : WebOfTrust) (node : NodeId) (steps : Nat) : Prop :=
  ∀ k < steps, ∀ v, AtDist wot.sources node k v → v < wot.size

theorem knownBelow_succ_iff {wot : WebOfTrust} {node : NodeId} {steps : Nat} :
    KnownBelow wot node (steps + 1) ↔
      KnownBelow wot node steps ∧ ∀ v, AtDist wot.sources node steps v → v < wot.size :=
  Nat.forall_lt_succ_right

theorem returns_newSources_iff {wot : WebOfTrust} {area : HashSet NodeId} {id : NodeId} :
    Returns (newSources wot area id) ↔ id < wot.size := by
  rw [newSources, returns_bind_iff_of_forall fun _ => returns_pure _, returns_expect_iff]
  constructor
  · intro h
    rcases Option.isSome_iff_exists.1 h with ⟨sources, hsources⟩
    exact WebOfTrust.lt_size_of_getLinksSource hsources
  · intro h
    exact Option.isSome_iff_exists.2 (WebOfTrust.exists_getLinksSource h)

theorem mem_of_newSources {wot : WebOfTrust} {area set : HashSet NodeId} {id : NodeId}
    (h : newSources wot area id = .ok set) (v : NodeId) :
    v ∈ set ↔ v ∈ wot.sources id ∧ v ∉ area := by
  rw [newSources, bind_eq_ok_iff] at h
  rcases h with ⟨sources, hsources, h⟩
  rw [expect_eq_ok_iff] at hsources
  obtain rfl := pure_eq_ok_iff.1 h
  rw [HashSet.mem_ofList, List.mem_filter, WebOfTrust.mem_of_getLinksSource hsources,
    Bool.not_eq_true', ← Bool.not_eq_true, HashSet.contains_iff]

namespace Area

variable {wot : WebOfTrust} {node : NodeId} {steps : Nat}
  {found found' : HashSet NodeId × HashSet NodeId}

theorem start : Area wot node 0 (HashSet.insert ∅ node, HashSet.insert ∅ node) where
  area v := by
    rw [HashSet.mem_insert]
    constructor
    · rintro (rfl | hmem)
      · exact ⟨0, le_rfl, atDist_zero_iff.2 rfl⟩
      · exact absurd hmem (HashSet.not_mem_empty v)
    · rintro ⟨k, hle, hdist⟩
      obtain rfl := Nat.le_zero.1 hle
      exact .inl (atDist_zero_iff.1 hdist)
  border v := by
    rw [HashSet.mem_insert, atDist_zero_iff]
    exact or_iff_left (HashSet.not_mem_empty v)

/-- A step returns exactly when the border is known. -/
theorem returns_growArea_iff (h : Area wot node steps found) :
    Returns (growArea wot found) ↔ ∀ v, AtDist wot.sources node steps v → v < wot.size := by
  rw [growArea, returns_bind_iff_of_forall fun _ => returns_pure _, returns_mapM_iff]
  constructor
  · intro hreturns v hdist
    exact returns_newSources_iff.1 (hreturns v ((h.border v).2 hdist))
  · intro hknown v hv
    exact returns_newSources_iff.2 (hknown v ((h.border v).1 hv))

/-- What a step adds is one step further. -/
theorem step (h : Area wot node steps found) (hrun : growArea wot found = .ok found') :
    Area wot node (steps + 1) found' := by
  rw [growArea, bind_eq_ok_iff] at hrun
  rcases hrun with ⟨sets, hsets, hrun⟩
  obtain rfl := pure_eq_ok_iff.1 hrun
  have hborder : ∀ v, v ∈ sets.foldl HashSet.union ∅ ↔ AtDist wot.sources node (steps + 1) v := by
    intro v
    rw [HashSet.mem_foldl_union_iff, atDist_succ_iff]
    constructor
    · rintro (hv | ⟨set, hset, hv⟩)
      · exact absurd hv (HashSet.not_mem_empty v)
      rcases (mem_mapM_iff hsets set).1 hset with ⟨u, hu, hsources⟩
      obtain ⟨hlink, hnew⟩ := (mem_of_newSources hsources v).1 hv
      exact ⟨⟨u, (h.border u).1 hu, hlink⟩, fun j hle hj => hnew ((h.area v).2 ⟨j, hle, hj⟩)⟩
    · rintro ⟨⟨u, hu, hlink⟩, hmin⟩
      have hu := (h.border u).2 hu
      rcases exists_of_mapM hsets u hu with ⟨set, hset⟩
      refine .inr ⟨set, (mem_mapM_iff hsets set).2 ⟨u, hu, hset⟩, ?_⟩
      refine (mem_of_newSources hset v).2 ⟨hlink, fun hv => ?_⟩
      rcases (h.area v).1 hv with ⟨j, hle, hj⟩
      exact hmin j hle hj
  refine ⟨fun v => ?_, hborder⟩
  rw [HashSet.mem_union, h.area, hborder]
  constructor
  · rintro (⟨k, hle, hdist⟩ | hdist)
    · exact ⟨k, Nat.le_succ_of_le hle, hdist⟩
    · exact ⟨steps + 1, le_rfl, hdist⟩
  · rintro ⟨k, hle, hdist⟩
    obtain rfl | hlt := hle.eq_or_lt
    · exact .inr hdist
    · exact .inl ⟨k, Nat.le_of_lt_succ hlt, hdist⟩

/-- What a run leaves. -/
theorem of_run (hrun : (List.range steps).foldlM (fun found _ => growArea wot found)
      (HashSet.insert ∅ node, HashSet.insert ∅ node) = .ok found) : Area wot node steps found := by
  induction steps generalizing found with
  | zero =>
      obtain rfl := pure_eq_ok_iff.1 hrun
      exact start
  | succ steps ih =>
      simp only [List.range_succ, List.foldlM_append, List.foldlM_cons, List.foldlM_nil, bind_pure,
        bind_eq_ok_iff] at hrun
      rcases hrun with ⟨mid, hmid, hstep⟩
      exact (ih hmid).step hstep

/-- A run returns exactly when all the borders but the last are known. -/
theorem returns_run_iff : Returns ((List.range steps).foldlM (fun found _ => growArea wot found)
      (HashSet.insert ∅ node, HashSet.insert ∅ node)) ↔ KnownBelow wot node steps := by
  induction steps with
  | zero => exact iff_of_true (returns_ok _) fun k hlt => absurd hlt (Nat.not_lt_zero k)
  | succ steps ih =>
      simp only [List.range_succ, List.foldlM_append, List.foldlM_cons, List.foldlM_nil, bind_pure]
      rw [knownBelow_succ_iff, ← ih, returns_bind_iff]
      constructor
      · rintro ⟨mid, hmid, hstep⟩
        exact ⟨⟨mid, hmid⟩, (of_run hmid).returns_growArea_iff.1 hstep⟩
      · rintro ⟨⟨mid, hmid⟩, hknown⟩
        exact ⟨mid, hmid, (of_run hmid).returns_growArea_iff.2 hknown⟩

end Area

/-! ## The counts -/

/-- What is counted, where the nodes are those of the web of trust. -/
structure IsDistance {F : Type} (wot : WebOfTrust) (params : WotDistanceParameters F)
    (distance : WotDistance) : Prop where
  reached : distance.reached = {v | v < wot.size ∧ v ≠ params.node ∧
    ∃ k ≤ params.stepMax, ReachesIn wot.sources params.node k v}.ncard
  reachedAtBorder : distance.reachedAtBorder =
    {v | v < wot.size ∧ AtDist wot.sources params.node params.stepMax v}.ncard
  sentries : distance.sentries =
    {v | wot.isSentry v params.sentryRequirement = some true ∧ v ≠ params.node}.ncard
  success : distance.success = {v | wot.isSentry v params.sentryRequirement = some true ∧
    v ≠ params.node ∧ ∃ k ≤ params.stepMax, ReachesIn wot.sources params.node k v}.ncard
  successAtBorder : distance.successAtBorder =
    {v | wot.isSentry v params.sentryRequirement = some true ∧
      AtDist wot.sources params.node params.stepMax v}.ncard

/-- When the counts are right: the search meets known nodes only before its last step, the unknown
ones of that step come in a multiple of `2^32`, and the numbers of nodes fit in a `u32`. -/
structure CountsFit {F : Type} (wot : WebOfTrust) (params : WotDistanceParameters F) : Prop where
  known : KnownBelow wot params.node params.stepMax
  unknown : 4294967296 ∣
    {v | ¬v < wot.size ∧ AtDist wot.sources params.node params.stepMax v}.ncard
  reached : {v | v < wot.size ∧ v ≠ params.node ∧
    ∃ k ≤ params.stepMax, ReachesIn wot.sources params.node k v}.ncard + 1 < 4294967296
  sentries : {v | wot.isSentry v params.sentryRequirement = some true}.ncard < 4294967296

section

variable {α : Type} [DecidableEq α] {l : List α} {P Q : α → Prop}

/-- The number of elements of a list without repetition. -/
theorem length_eq_ncard (h : l.Nodup) (hl : ∀ a, a ∈ l ↔ P a) : l.length = {a | P a}.ncard := by
  rw [← List.toFinset_card_of_nodup h]
  exact (ncard_setOf_eq_card fun a => List.mem_toFinset.trans (hl a)).symm

/-- An element is left out of a number, that counted it or not. -/
theorem length_eq_ncard_add_toNat (h : l.Nodup) {a : α} (hQ : ∀ b, Q b ↔ b ∈ l ∧ b ≠ a)
    (counted : Bool) (ha : a ∈ l ↔ counted = true) :
    l.length = {b | Q b}.ncard + counted.toNat := by
  rw [← length_eq_ncard (h.erase a) fun b => (h.mem_erase_iff.trans and_comm).trans (hQ b).symm]
  cases counted with
  | true => exact (List.length_erase_add_one (ha.2 rfl)).symm
  | false =>
      rw [List.erase_of_not_mem fun hmem => Bool.false_ne_true (ha.1 hmem)]
      rfl

end

section

variable {wot : WebOfTrust} {node id : NodeId} {requirement stepMax : Nat}
  {found : HashSet NodeId × HashSet NodeId}

theorem exists_isSentry (hnode : node < wot.size) (requirement : Nat) :
    ∃ isSentry, wot.isSentry node requirement = some isSentry := by
  rcases WebOfTrust.exists_node hnode with ⟨wotNode, h⟩
  exact ⟨_, congrArg (Option.map _) h⟩

theorem mem_getSentries_iff :
    id ∈ wot.getSentries requirement ↔ wot.isSentry id requirement = some true := by
  rw [WebOfTrust.getSentries, List.mem_filter, decide_eq_true_iff, List.mem_range]
  refine and_iff_right_of_imp fun hsentry => ?_
  rcases Option.map_eq_some_iff.1 hsentry with ⟨node, hnode, -⟩
  exact WebOfTrust.lt_size hnode

theorem nodup_getSentries : (wot.getSentries requirement).Nodup :=
  List.nodup_range.filter _

theorem getSentries_length {isSentry : Bool} (h : wot.isSentry node requirement = some isSentry) :
    (wot.getSentries requirement).length =
      {v | wot.isSentry v requirement = some true ∧ v ≠ node}.ncard + isSentry.toNat := by
  refine length_eq_ncard_add_toNat nodup_getSentries (a := node) (fun v => ?_) isSentry ?_
  · rw [mem_getSentries_iff]
  · rw [mem_getSentries_iff, h, Option.some_inj]

theorem countIn_le (nodes : List NodeId) (set : HashSet NodeId) :
    countIn nodes set ≤ nodes.length := by
  apply List.Subperm.length_le
  apply List.subperm_of_subset (set.nodup_iter.filter _)
  intro v hv
  exact List.contains_iff_mem.1 (List.mem_filter.1 hv).2

theorem mem_filter_sentries_iff {set : HashSet NodeId} :
    (id ∈ set.iter.filter fun id => (wot.getSentries requirement).contains id) ↔
      id ∈ set ∧ wot.isSentry id requirement = some true := by
  rw [List.mem_filter, List.contains_iff_mem, mem_getSentries_iff, HashSet.mem_iter]

namespace Area

theorem mem_area_iff (h : Area wot node stepMax found) (v : NodeId) :
    v ∈ found.1 ↔ ∃ k ≤ stepMax, ReachesIn wot.sources node k v :=
  (h.area v).trans exists_reachesIn_le_iff.symm

theorem node_mem (h : Area wot node stepMax found) : node ∈ found.1 :=
  (h.area node).2 ⟨0, Nat.zero_le _, atDist_zero_iff.2 rfl⟩

/-- The other nodes of the area. -/
theorem mem_others_iff (h : Area wot node stepMax found) (v : NodeId) :
    (v < wot.size ∧ v ≠ node ∧ ∃ k ≤ stepMax, ReachesIn wot.sources node k v) ↔
      v ∈ found.1.iter.filter (fun v => v < wot.size) ∧ v ≠ node := by
  rw [List.mem_filter, HashSet.mem_iter, h.mem_area_iff, decide_eq_true_iff]
  tauto

/-- The unknown nodes of the area are those of its border. -/
theorem mem_unknown_iff (h : Area wot node stepMax found) (hknown : KnownBelow wot node stepMax)
    (v : NodeId) : v ∈ found.1.iter.filter (fun v => !decide (v < wot.size)) ↔
      ¬v < wot.size ∧ AtDist wot.sources node stepMax v := by
  rw [List.mem_filter, HashSet.mem_iter, h.area, Bool.not_eq_true', decide_eq_false_iff_not,
    and_comm]
  refine and_congr_right fun hunknown => ⟨?_, fun hdist => ⟨stepMax, le_rfl, hdist⟩⟩
  rintro ⟨k, hle, hdist⟩
  obtain rfl | hlt := hle.eq_or_lt
  · exact hdist
  · exact absurd (hknown k hlt v hdist) hunknown

/-- The area counts the node itself, and the unknown nodes of the last step. -/
theorem area_len (h : Area wot node stepMax found) (hknown : KnownBelow wot node stepMax)
    (hnode : node < wot.size) :
    found.1.len = {v | v < wot.size ∧ v ≠ node ∧
        ∃ k ≤ stepMax, ReachesIn wot.sources node k v}.ncard + 1 +
      {v | ¬v < wot.size ∧ AtDist wot.sources node stepMax v}.ncard := by
  have hself : node ∈ found.1.iter.filter fun v => v < wot.size :=
    List.mem_filter.2 ⟨h.node_mem, decide_eq_true hnode⟩
  have hothers := length_eq_ncard_add_toNat (found.1.nodup_iter.filter _) h.mem_others_iff true
    (iff_of_true hself rfl)
  have hunknown := length_eq_ncard (found.1.nodup_iter.filter _) (h.mem_unknown_iff hknown)
  rw [HashSet.len, List.length_eq_length_filter_add fun v => v < wot.size, hothers, hunknown]
  rfl

/-- The border counts the unknown nodes of the last step as well. -/
theorem border_len (h : Area wot node stepMax found) :
    found.2.len = {v | v < wot.size ∧ AtDist wot.sources node stepMax v}.ncard +
      {v | ¬v < wot.size ∧ AtDist wot.sources node stepMax v}.ncard := by
  have hknown : ∀ v, v ∈ found.2.iter.filter (fun v => v < wot.size) ↔
      v < wot.size ∧ AtDist wot.sources node stepMax v := by
    intro v
    rw [List.mem_filter, HashSet.mem_iter, h.border, decide_eq_true_iff, and_comm]
  have hunknown : ∀ v, v ∈ found.2.iter.filter (fun v => !decide (v < wot.size)) ↔
      ¬v < wot.size ∧ AtDist wot.sources node stepMax v := by
    intro v
    rw [List.mem_filter, HashSet.mem_iter, h.border, Bool.not_eq_true', decide_eq_false_iff_not,
      and_comm]
  rw [HashSet.len, List.length_eq_length_filter_add fun v => v < wot.size,
    length_eq_ncard (found.2.nodup_iter.filter _) hknown,
    length_eq_ncard (found.2.nodup_iter.filter _) hunknown]

/-- The known nodes of the border are in the area. -/
theorem border_le_area (h : Area wot node stepMax found) (hknown : KnownBelow wot node stepMax)
    (hnode : node < wot.size) :
    {v | v < wot.size ∧ AtDist wot.sources node stepMax v}.ncard ≤
      {v | v < wot.size ∧ v ≠ node ∧ ∃ k ≤ stepMax, ReachesIn wot.sources node k v}.ncard + 1 := by
  have hlen : found.2.len ≤ found.1.len := by
    apply List.Subperm.length_le
    apply List.subperm_of_subset found.2.nodup_iter
    intro v hv
    exact (h.area v).2 ⟨stepMax, le_rfl, (h.border v).1 hv⟩
  rw [h.border_len, h.area_len hknown hnode] at hlen
  exact Nat.le_of_add_le_add_right hlen

/-- The sentries of the area, among which the node may be. -/
theorem countIn_area (h : Area wot node stepMax found) {isSentry : Bool}
    (hnode : wot.isSentry node requirement = some isSentry) :
    countIn (wot.getSentries requirement) found.1 =
      {v | wot.isSentry v requirement = some true ∧ v ≠ node ∧
        ∃ k ≤ stepMax, ReachesIn wot.sources node k v}.ncard + isSentry.toNat := by
  refine length_eq_ncard_add_toNat (found.1.nodup_iter.filter _) (a := node) (fun v => ?_)
    isSentry ?_
  · rw [mem_filter_sentries_iff, h.mem_area_iff]
    tauto
  · rw [mem_filter_sentries_iff, and_iff_right h.node_mem, hnode, Option.some_inj]

/-- The sentries of the border. -/
theorem countIn_border (h : Area wot node stepMax found) :
    countIn (wot.getSentries requirement) found.2 =
      {v | wot.isSentry v requirement = some true ∧
        AtDist wot.sources node stepMax v}.ncard := by
  refine length_eq_ncard (found.2.nodup_iter.filter _) fun v => ?_
  rw [mem_filter_sentries_iff, h.border, and_comm]

end Area

end

/-! ## The subtractions -/

section

variable {checked counted : Bool} {count n : Nat}

theorem decrement_succ (checked : Bool) (n : Nat) : decrement checked (n + 1) = .ok n := rfl

theorem decrement_true_eq_ok_iff : decrement true count = .ok n ↔ count = n + 1 := by
  cases count with
  | zero => simp [decrement]
  | succ count => rw [decrement_succ, Except.ok.injEq, Nat.succ_inj]

theorem decrementIf_add (checked counted : Bool) (n : Nat) :
    decrementIf checked counted (n + counted.toNat) = .ok n := by
  cases counted with
  | false => rfl
  | true => rfl

theorem decrementIf_true_eq_ok_iff :
    decrementIf true counted count = .ok n ↔ count = n + counted.toNat := by
  cases counted with
  | false => exact Except.ok.injEq count n ▸ Iff.rfl
  | true => exact decrement_true_eq_ok_iff

end

/-! ## The distance -/

section

variable {F : Type} {below : Nat → F → Nat → Bool} {wot : WebOfTrust}
  {params : WotDistanceParameters F} {distance : WotDistance}

/-- The counts when no subtraction underflows. -/
theorem counts_of_computeDistance (hnode : params.node < wot.size)
    (hrun : computeDistance true below wot params = .ok (some distance)) :
    ∃ found isSentry, KnownBelow wot params.node params.stepMax ∧
      Area wot params.node params.stepMax found ∧
      wot.isSentry params.node params.sentryRequirement = some isSentry ∧
      countAsU32 (wot.getSentries params.sentryRequirement).length =
        distance.sentries + isSentry.toNat ∧
      countAsU32 found.1.len = distance.reached + 1 ∧
      countAsU32 found.2.len = distance.reachedAtBorder := by
  rw [computeDistance, if_neg (not_le.2 hnode)] at hrun
  simp only [bind_eq_ok_iff, expect_eq_ok_iff, decrementIf_true_eq_ok_iff,
    decrement_true_eq_ok_iff, pure_eq_ok_iff, Option.some_inj] at hrun
  rcases hrun with ⟨found, hfound, isSentry, hsentry, sentries, hsentries, success, -, reached,
    hreached, rfl⟩
  exact ⟨found, isSentry, Area.returns_run_iff.1 ⟨found, hfound⟩, .of_run hfound, hsentry,
    hsentries, hreached, rfl⟩

/-- The distance when the counts are those of numbers that fit. -/
theorem computeDistance_of_counts {found : HashSet NodeId × HashSet NodeId} {isSentry : Bool}
    {sentries success reached : Nat} (hnode : params.node < wot.size)
    (hfound : (List.range params.stepMax).foldlM (fun found _ => growArea wot found)
      (HashSet.insert ∅ params.node, HashSet.insert ∅ params.node) = .ok found)
    (hsentry : wot.isSentry params.node params.sentryRequirement = some isSentry)
    (hsentries : countAsU32 (wot.getSentries params.sentryRequirement).length =
      sentries + isSentry.toNat)
    (hsuccess : countAsU32 (countIn (wot.getSentries params.sentryRequirement) found.1) =
      success + isSentry.toNat)
    (hreached : countAsU32 found.1.len = reached + 1) (checked : Bool) :
    computeDistance checked below wot params = .ok (some
      { sentries, reached, reachedAtBorder := countAsU32 found.2.len, success
        successAtBorder := countAsU32 (countIn (wot.getSentries params.sentryRequirement) found.2)
        outdistanced := below success params.xPercent sentries }) := by
  rw [computeDistance, if_neg (not_le.2 hnode)]
  simp only [hfound, hsentry, hsentries, hsuccess, hreached, ok_bind, expect_some, decrementIf_add,
    decrement_succ]
  rfl

/-- The counts of the distance of a known node are right, and no subtraction underflows, exactly
when the numbers fit. -/
theorem computeDistance_iff (hnode : params.node < wot.size) :
    (∃ distance, (∀ checked, computeDistance checked below wot params = .ok (some distance)) ∧
      IsDistance wot params distance) ↔ CountsFit wot params := by
  constructor
  · rintro ⟨distance, hrun, hdistance⟩
    rcases counts_of_computeDistance hnode (hrun true) with
      ⟨found, isSentry, hknown, harea, hsentry, hsentries, hreached, hborder⟩
    have hsize := harea.area_len hknown hnode
    have hlength := getSentries_length hsentry
    have hall : (wot.getSentries params.sentryRequirement).length = _ :=
      length_eq_ncard nodup_getSentries fun _ => mem_getSentries_iff
    rw [countAsU32, hsize, ← hdistance.reached] at hreached
    rw [countAsU32, harea.border_len, ← hdistance.reachedAtBorder] at hborder
    rw [countAsU32, hlength, ← hdistance.sentries] at hsentries
    rw [hlength, ← hdistance.sentries] at hall
    refine ⟨hknown, ?_, ?_, ?_⟩
    · omega
    · rw [← hdistance.reached]
      omega
    · omega
  · intro hfit
    rcases Area.returns_run_iff.2 hfit.known with ⟨found, hfound⟩
    have harea := Area.of_run hfound
    rcases exists_isSentry hnode params.sentryRequirement with ⟨isSentry, hsentry⟩
    have hlength := getSentries_length hsentry
    have hall : (wot.getSentries params.sentryRequirement).length < 4294967296 := by
      rw [length_eq_ncard nodup_getSentries fun _ => mem_getSentries_iff]
      exact hfit.sentries
    have hlearea := (countIn_le (wot.getSentries params.sentryRequirement) found.1).trans_lt hall
    have hleborder := (countIn_le (wot.getSentries params.sentryRequirement) found.2).trans_lt hall
    have hle := harea.border_le_area hfit.known hnode
    have hfits := hfit.reached
    have hunknown := hfit.unknown
    have hsentries := (Nat.mod_eq_of_lt hall).trans hlength
    have hsuccess := (Nat.mod_eq_of_lt hlearea).trans (harea.countIn_area hsentry)
    have hsuccessAtBorder := (Nat.mod_eq_of_lt hleborder).trans harea.countIn_border
    have hreached : countAsU32 found.1.len = {v | v < wot.size ∧ v ≠ params.node ∧
        ∃ k ≤ params.stepMax, ReachesIn wot.sources params.node k v}.ncard + 1 := by
      rw [countAsU32, harea.area_len hfit.known hnode]
      omega
    have hborder : countAsU32 found.2.len =
        {v | v < wot.size ∧ AtDist wot.sources params.node params.stepMax v}.ncard := by
      rw [countAsU32, harea.border_len]
      omega
    exact ⟨_, computeDistance_of_counts hnode hfound hsentry hsentries hsuccess hreached,
      rfl, hborder, rfl, rfl, hsuccessAtBorder⟩

/-- The numbers fit in a web of trust without a link from an unknown node, unless there are too many
nodes. -/
theorem countsFit_of_forall (h : ∀ v < wot.size, ∀ u ∈ wot.sources v, u < wot.size)
    (hsize : wot.size < 4294967296) (hnode : params.node < wot.size) : CountsFit wot params := by
  have hbelow : ∀ k v, AtDist wot.sources params.node k v → v < wot.size := fun k v hdist =>
    (WebOfTrust.knownWithin_of_forall h params.node k).lt_size hnode le_rfl hdist
  have hle : ∀ (s : Finset NodeId) (P : NodeId → Prop), (∀ v, P v → v ∈ s) →
      {v | P v}.ncard ≤ s.card := by
    intro s P hP
    rw [← Set.ncard_coe_finset]
    exact Set.ncard_le_ncard hP s.finite_toSet
  refine ⟨fun k _ v => hbelow k v, ?_, ?_, ?_⟩
  · refine (Nat.le_zero.1 (hle ∅ _ fun v hv => ?_)) ▸ dvd_zero _
    exact absurd (hbelow params.stepMax v hv.2) hv.1
  · have hcard : ((Finset.range wot.size).erase params.node).card + 1 = wot.size := by
      rw [Finset.card_erase_add_one (Finset.mem_range.2 hnode), Finset.card_range]
    refine lt_of_le_of_lt (Nat.succ_le_succ (hle _ _ fun v hv => ?_)) (hcard.trans_lt hsize)
    exact Finset.mem_erase.2 ⟨hv.2.1, Finset.mem_range.2 hv.1⟩
  · refine (hle (Finset.range wot.size) _ fun v hv => ?_).trans_lt
      ((Finset.card_range wot.size).trans_lt hsize)
    rw [← mem_getSentries_iff, WebOfTrust.getSentries, List.mem_filter] at hv
    exact Finset.mem_range.2 (List.mem_range.1 hv.1)

end

/-- A comparison of a percentage, in place of the floating point numbers. -/
def belowPercent (success percent sentries : Nat) : Bool :=
  success * 100 < percent * sentries

theorem computeDistance_diamondWot :
    ∃ distance, (∀ checked, computeDistance checked belowPercent diamondWot ⟨3, 1, 2, 80⟩ =
      .ok (some distance)) ∧ IsDistance diamondWot ⟨3, 1, 2, 80⟩ distance :=
  (computeDistance_iff (by decide)).2 (countsFit_of_forall (by decide) (by decide) (by decide))

/-- The search stops the process at a removed node that had certified one of those left. -/
theorem not_computeDistance_danglingWot : 1 < danglingWot.size ∧
    ¬∃ distance, (∀ checked, computeDistance checked belowPercent danglingWot ⟨1, 1, 2, 80⟩ =
      .ok (some distance)) ∧ IsDistance danglingWot ⟨1, 1, 2, 80⟩ distance := by
  refine ⟨by decide, ?_⟩
  rintro ⟨distance, hrun, -⟩
  have hfatal : computeDistance true belowPercent danglingWot ⟨1, 1, 2, 80⟩ =
      fatalError "called `Option::unwrap()` on a `None` value" := by decide
  cases hfatal.symm.trans (hrun true)

example : computeDistance true belowPercent diamondWot ⟨3, 1, 2, 80⟩ =
    .ok (some ⟨3, 3, 1, 3, 1, false⟩) := by decide

end Durs
