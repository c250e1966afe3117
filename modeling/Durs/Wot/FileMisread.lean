/-
# Links sections read from the wrong byte

When the flags take one byte too many or too few, the reader of the links starts one byte early or
one byte late.  Then it finds all the links of every node only if there are none.
-/

import Durs.Wot.FileLinks

namespace Durs

open RustStd

namespace WebOfTrust

variable {wot : WebOfTrust}

/-- The chunks of a section hold the links of every node. -/
def FoundIn (wot : WebOfTrust) (bytes : List UInt8) : Prop :=
  ∀ source target, wot.hasLink source target = true →
    ∃ sources, (chunks bytes)[target]? = some sources ∧ source ∈ sources

theorem linksSource_len_eq_zero {id : NodeId} {node : WotNode} (hnode : wot.nodes[id]? = some node)
    (h : ∀ source, wot.hasLink source id = false) : node.linksSource.len = 0 := by
  apply List.length_eq_zero_iff.2
  apply List.eq_nil_iff_forall_not_mem.2
  intro source hmem
  have hlink : wot.hasLink source id = true := hasLink_iff.2 ⟨node, hnode, hmem⟩
  rw [h source] at hlink
  cases hlink

/-- Nodes without links before a position take one byte each. -/
theorem linkBytes_take {n : Nat} (h : ∀ id < n, ∀ source, wot.hasLink source id = false) :
    linkBytes (wot.nodes.take n) = List.replicate (min n wot.size) 0 := by
  have hlen : (wot.nodes.take n).length = min n wot.size := List.length_take
  rw [← hlen]
  apply linkBytes_of_no_link
  intro node hmem
  rcases List.mem_iff_getElem?.1 hmem with ⟨id, hid⟩
  rw [List.getElem?_take] at hid
  split at hid
  case isTrue hlt => exact linksSource_len_eq_zero hid (h id hlt)
  case isFalse => cases hid

theorem linkBytes_append (nodes nodes' : List WotNode) :
    linkBytes (nodes ++ nodes') = linkBytes nodes ++ linkBytes nodes' := by
  rw [linkBytes, List.map_append, List.flatten_append]
  rfl

/-! ## One byte too many -/

/-- Preceded by a zero, every chunk is found one node too late. -/
theorem no_link_of_extra_byte (h : wot.FoundIn (0 :: linkBytes wot.nodes)) :
    ∀ target source, wot.hasLink source target = false := by
  intro target
  induction target using Nat.strong_induction_on with
  | _ target ih =>
      intro source
      refine Bool.eq_false_iff.2 fun hlink => ?_
      rcases h source target hlink with ⟨sources, hget, hmem⟩
      have hlt : target < wot.size := by
        rcases hasLink_iff.1 hlink with ⟨node, hnode, -⟩
        exact lt_size hnode
      have hbytes : (0 :: linkBytes wot.nodes : List UInt8) =
          List.replicate (target + 1) 0 ++ linkBytes (wot.nodes.drop target) := by
        have hsplit : linkBytes wot.nodes =
            List.replicate target 0 ++ linkBytes (wot.nodes.drop target) := by
          have htake := linkBytes_take ih
          rw [Nat.min_eq_left (Nat.le_of_lt hlt)] at htake
          rw [← htake, ← linkBytes_append, List.take_append_drop]
        rw [hsplit]
        rfl
      rw [hbytes, chunks_replicate, List.getElem?_append_left (by simp),
        List.getElem?_replicate_of_lt (Nat.lt_succ_self target)] at hget
      obtain rfl := Option.some.inj hget
      cases hmem

/-! ## One byte too few -/

/-- The sum of the bytes of a string. -/
def byteSum (bytes : List UInt8) : Nat := (bytes.map UInt8.toNat).sum

/-- What a source adds to the bytes of a section: its own bytes, and one in the count. -/
def cost (source : NodeId) : Nat := 1 + byteSum (bigEndian 3 source)

/-- What some sources add to the bytes of a section. -/
def costs (sources : List NodeId) : Nat := (sources.map cost).sum

theorem costs_cons (source : NodeId) (sources : List NodeId) :
    costs (source :: sources) = cost source + costs sources := rfl

theorem length_le_costs (sources : List NodeId) : sources.length ≤ costs sources := by
  induction sources with
  | nil => exact Nat.le_refl _
  | cons source sources ih =>
      have hpos : 1 ≤ cost source := Nat.le_add_right 1 _
      rw [costs_cons, List.length_cons]
      omega

theorem byteSum_append (l l' : List UInt8) : byteSum (l ++ l') = byteSum l + byteSum l' := by
  rw [byteSum, List.map_append, List.sum_append]
  rfl

theorem byteSum_cons (byte : UInt8) (bytes : List UInt8) :
    byteSum (byte :: bytes) = byte.toNat + byteSum bytes := rfl

theorem byteSum_sourceBytes (sources : List NodeId) :
    sources.length + byteSum (sourceBytes sources) = costs sources := by
  induction sources with
  | nil => rfl
  | cons source sources ih =>
      have hcons : sourceBytes (source :: sources) = bigEndian 3 source ++ sourceBytes sources := rfl
      rw [hcons, byteSum_append, List.length_cons, costs_cons, cost, ← ih]
      omega

/-- The bytes written cost no more than the sources. -/
theorem byteSum_linkBytes_le (nodes : List WotNode) :
    byteSum (linkBytes nodes) ≤ (nodes.map fun node => costs node.linksSource.iter).sum := by
  induction nodes with
  | nil => exact Nat.le_refl _
  | cons node nodes ih =>
      have hcons : linkBytes (node :: nodes) = nodeBytes node ++ linkBytes nodes := rfl
      have hcount : (UInt8.ofNat node.linksSource.len).toNat ≤ node.linksSource.iter.length := by
        rw [UInt8.toNat_ofNat']
        exact Nat.mod_le _ _
      have hnode := byteSum_sourceBytes node.linksSource.iter
      rw [hcons, byteSum_append, nodeBytes, byteSum_cons, List.map_cons, List.sum_cons]
      omega

/-- The sources read cost no more than the bytes they were read from and one each. -/
theorem costs_triples_le (bytes : List UInt8) :
    costs (triples bytes) ≤ bytes.length / 3 + byteSum bytes := by
  induction bytes using triples.induct with
  | case1 a b c rest ih =>
      have hone : cost (readBigEndian [a, b, c]) = 1 + byteSum [a, b, c] := by
        have hread : bigEndian 3 (readBigEndian [a, b, c]) = [a, b, c] :=
          bigEndian_readBigEndian [a, b, c]
        rw [cost, hread]
      have hsplit : byteSum (a :: b :: c :: rest) = byteSum [a, b, c] + byteSum rest :=
        byteSum_append [a, b, c] rest
      have hdiv : (a :: b :: c :: rest).length / 3 = rest.length / 3 + 1 := by
        simp only [List.length_cons]
        omega
      rw [triples, costs_cons, hone, hsplit, hdiv]
      omega
  | case2 bytes hbytes =>
      rcases bytes with _ | ⟨a, _ | ⟨b, _ | ⟨c, rest⟩⟩⟩
      · exact Nat.zero_le _
      · exact Nat.zero_le _
      · exact Nat.zero_le _
      · exact absurd rfl (hbytes a b c rest)

/-- The sources that a section gives cost no more than its bytes. -/
theorem costs_chunks_le (bytes : List UInt8) :
    ((chunks bytes).map costs).sum ≤ byteSum bytes := by
  induction bytes using chunks.induct with
  | case1 =>
      rw [chunks_nil]
      exact Nat.zero_le _
  | case2 count rest ih =>
      have hfirst := costs_triples_le (rest.take (3 * count.toNat))
      have hlen : (rest.take (3 * count.toNat)).length / 3 ≤ count.toNat := by
        have htake := List.length_take_le (3 * count.toNat) rest
        omega
      have hsplit := byteSum_append (rest.take (3 * count.toNat)) (rest.drop (3 * count.toNat))
      rw [List.take_append_drop] at hsplit
      rw [chunks_cons, List.map_cons, List.sum_cons, byteSum_cons]
      omega

/-- Distinct sources that are all among some others cost no more. -/
theorem costs_le_of_subset {sources sources' : List NodeId} (hnodup : sources.Nodup)
    (h : ∀ source ∈ sources, source ∈ sources') : costs sources ≤ costs sources' := by
  induction sources generalizing sources' with
  | nil => exact Nat.zero_le _
  | cons source sources ih =>
      rcases List.nodup_cons.1 hnodup with ⟨hfresh, hnodup⟩
      have hperm := List.perm_cons_erase (h source List.mem_cons_self)
      have hrest : costs sources ≤ costs (sources'.erase source) := by
        apply ih hnodup
        intro other hmem
        have hne : other ≠ source := fun heq => hfresh (heq ▸ hmem)
        exact (List.mem_erase_of_ne hne).2 (h other (List.mem_cons_of_mem _ hmem))
      have hsum : costs sources' = cost source + costs (sources'.erase source) :=
        (hperm.map cost).sum_nat
      rw [costs_cons, hsum]
      exact Nat.add_le_add_left hrest _

/-- The sources of every node are among those of its chunk. -/
def Within (nodes : List WotNode) (sections : List (List NodeId)) : Prop :=
  ∀ (i : Nat) (node : WotNode), nodes[i]? = some node → ∀ source ∈ node.linksSource,
    ∃ sources, sections[i]? = some sources ∧ source ∈ sources

theorem costs_headD_add (sections : List (List NodeId)) :
    (sections.map costs).sum = costs (sections.headD []) + (sections.tail.map costs).sum := by
  cases sections with
  | nil => rfl
  | cons sources sections => rfl

theorem Within.head {node : WotNode} {nodes : List WotNode} {sections : List (List NodeId)}
    (h : Within (node :: nodes) sections) :
    costs node.linksSource.iter ≤ costs (sections.headD []) := by
  apply costs_le_of_subset (HashSet.nodup_iter _)
  intro source hmem
  rcases h 0 node rfl source hmem with ⟨sources, hget, hsource⟩
  cases sections with
  | nil => cases hget
  | cons first sections =>
      obtain rfl := Option.some.inj hget
      exact hsource

theorem Within.tail {node : WotNode} {nodes : List WotNode} {sections : List (List NodeId)}
    (h : Within (node :: nodes) sections) : Within nodes sections.tail := by
  intro i node' hnode source hmem
  rcases h (i + 1) node' hnode source hmem with ⟨sources, hget, hsource⟩
  exact ⟨sources, by rwa [List.getElem?_tail], hsource⟩

/-- Nodes whose sources are within some chunks cost no more than the chunks. -/
theorem Within.costs_le {nodes : List WotNode} :
    ∀ {sections : List (List NodeId)}, Within nodes sections →
      (nodes.map fun node => costs node.linksSource.iter).sum ≤ (sections.map costs).sum := by
  induction nodes with
  | nil =>
      intro sections _
      exact Nat.zero_le _
  | cons node nodes ih =>
      intro sections h
      have hhead := h.head
      have htail := ih h.tail
      rw [costs_headD_add, List.map_cons, List.sum_cons]
      omega

/-- When the chunks cost no more than the nodes, each costs no more than its node. -/
theorem Within.costs_eq {nodes : List WotNode} :
    ∀ {sections : List (List NodeId)}, Within nodes sections →
      (sections.map costs).sum ≤ (nodes.map fun node => costs node.linksSource.iter).sum →
      ∀ (i : Nat) (node : WotNode) (sources : List NodeId), nodes[i]? = some node →
        sections[i]? = some sources → costs sources ≤ costs node.linksSource.iter := by
  induction nodes with
  | nil =>
      intro sections _ _ i node sources hnode
      cases hnode
  | cons first nodes ih =>
      intro sections h hle i node sources hnode hget
      have hhead := h.head
      have htail := h.tail.costs_le
      rw [costs_headD_add, List.map_cons, List.sum_cons] at hle
      cases i with
      | zero =>
          obtain rfl := Option.some.inj hnode
          cases sections with
          | nil => cases hget
          | cons sources' sections =>
              obtain rfl := Option.some.inj hget
              simp only [List.headD_cons] at hle hhead
              omega
      | succ i =>
          apply ih h.tail (by omega) i node sources hnode
          rwa [List.getElem?_tail]

theorem FoundIn.within {bytes : List UInt8} (h : wot.FoundIn bytes) :
    Within wot.nodes (chunks bytes) :=
  fun i node hnode source hmem => h source i (hasLink_iff.2 ⟨node, hnode, hmem⟩)

/-- The chunk of a node is read in full from what was written for it. -/
theorem chunks_linkBytes_head {node : WotNode} {nodes : List WotNode}
    (hlen : node.linksSource.len ≤ 255) (hfit : ∀ source ∈ node.linksSource, source < 16777216) :
    (chunks (linkBytes (node :: nodes)))[0]? = some node.linksSource.iter := by
  have hcons : linkBytes (node :: nodes) =
      UInt8.ofNat node.linksSource.len ::
        (sourceBytes node.linksSource.iter ++ linkBytes nodes) := rfl
  have hchunk : (sourceBytes node.linksSource.iter).length =
      3 * (UInt8.ofNat node.linksSource.len).toNat := by
    rw [sourceBytes_length, UInt8.toNat_ofNat', Nat.mod_eq_of_lt (Nat.lt_succ_of_le hlen)]
    rfl
  rw [hcons, chunks_cons, ← hchunk, List.take_left, triples_sourceBytes hfit]
  rfl

theorem linksSource_len_eq_zero_of_costs {node : WotNode}
    (h : costs node.linksSource.iter = 0) : node.linksSource.len = 0 :=
  Nat.le_zero.1 (h ▸ length_le_costs node.linksSource.iter)

theorem drop_eq_cons {id : NodeId} {node : WotNode} (hnode : wot.nodes[id]? = some node) :
    wot.nodes.drop id = node :: wot.nodes.drop (id + 1) := by
  rcases List.getElem?_eq_some_iff.1 hnode with ⟨hlt, rfl⟩
  exact List.drop_eq_getElem_cons hlt

/-- Without its first byte, the section gives the sources of every node before its own. -/
theorem no_link_of_dropped_byte (hlen : ∀ node ∈ wot.nodes, node.linksSource.len ≤ 255)
    (hfit : ∀ source target, wot.hasLink source target = true → source < 16777216)
    (h : wot.FoundIn (linkBytes wot.nodes).tail) :
    ∀ target source, wot.hasLink source target = false := by
  have hwithin := h.within
  have hread := costs_chunks_le (linkBytes wot.nodes).tail
  have hwritten := byteSum_linkBytes_le wot.nodes
  intro target
  induction target using Nat.strong_induction_on with
  | _ target ih =>
      intro source
      refine Bool.eq_false_iff.2 fun hlink => ?_
      rcases hasLink_iff.1 hlink with ⟨node, hnode, hmem⟩
      have hpos : node.linksSource.len ≠ 0 := by
        intro hzero
        have hnil : node.linksSource.iter = [] := List.length_eq_zero_iff.1 hzero
        rw [← HashSet.mem_iter, hnil] at hmem
        cases hmem
      have hle := hlen node (List.mem_of_getElem? hnode)
      have hbefore : linkBytes wot.nodes = List.replicate target 0 ++
          linkBytes (node :: wot.nodes.drop (target + 1)) := by
        have htake := linkBytes_take ih
        rw [Nat.min_eq_left (Nat.le_of_lt (lt_size hnode))] at htake
        rw [← htake, ← linkBytes_append, ← drop_eq_cons hnode, List.take_append_drop]
      cases target with
      | zero =>
          -- the count that is dropped is the only byte missing, so it was a zero
          have hfirst : byteSum (linkBytes wot.nodes) =
              node.linksSource.len + byteSum (linkBytes wot.nodes).tail := by
            rw [hbefore]
            change (UInt8.ofNat node.linksSource.len).toNat + _ = _
            rw [UInt8.toNat_ofNat', Nat.mod_eq_of_lt (Nat.lt_succ_of_le hle)]
            rfl
          have hcosts := hwithin.costs_le
          omega
      | succ target =>
          -- the chunk found for the node before costs nothing, and it is the one of this node
          have htail : (linkBytes wot.nodes).tail = List.replicate target 0 ++
              linkBytes (node :: wot.nodes.drop (target + 1 + 1)) := by
            rw [hbefore]
            rfl
          have hchunk : (chunks (linkBytes wot.nodes).tail)[target]? =
              some node.linksSource.iter := by
            rw [htail, chunks_replicate, List.getElem?_append_right (by simp),
              List.length_replicate, Nat.sub_self]
            exact chunks_linkBytes_head hle fun source' hmem' =>
              hfit source' (target + 1) (hasLink_iff.2 ⟨node, hnode, hmem'⟩)
          rcases exists_node (Nat.lt_of_succ_lt (lt_size hnode)) with ⟨before, hbeforeNode⟩
          have hsum : ((chunks (linkBytes wot.nodes).tail).map costs).sum ≤
              (wot.nodes.map fun node => costs node.linksSource.iter).sum := by
            have htailSum : byteSum (linkBytes wot.nodes).tail ≤ byteSum (linkBytes wot.nodes) := by
              cases linkBytes wot.nodes with
              | nil => exact Nat.le_refl _
              | cons byte bytes => exact Nat.le_add_left _ _
            omega
          have hcost := hwithin.costs_eq hsum target before _ hbeforeNode hchunk
          have hnone : before.linksSource.iter = [] := List.length_eq_zero_iff.1
            (linksSource_len_eq_zero hbeforeNode (ih target (Nat.lt_succ_self _)))
          rw [hnone] at hcost
          exact hpos (linksSource_len_eq_zero_of_costs (Nat.le_zero.1 hcost))

end WebOfTrust

end Durs
