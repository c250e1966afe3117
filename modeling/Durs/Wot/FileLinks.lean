/-
# The links in the file

The reader takes the links section apart into chunks, one for each node: a byte that counts the
sources, then the sources on three bytes each.  What the section is made of decides which links are
added, whatever wrote it.
-/

import Durs.Wot.FileStates

namespace Durs

open RustStd

namespace WebOfTrust

/-! ## Chunks -/

/-- The sources that a byte string holds, three bytes each; bytes left over are dropped. -/
def triples : List UInt8 → List NodeId
  | a :: b :: c :: rest => readBigEndian [a, b, c] :: triples rest
  | _ => []

/-- The chunks of a links section: for each node the sources read for it. -/
def chunks : List UInt8 → List (List NodeId)
  | [] => []
  | count :: rest =>
      triples (rest.take (3 * count.toNat)) :: chunks (rest.drop (3 * count.toNat))
termination_by bytes => bytes.length
decreasing_by
  rw [List.length_drop, List.length_cons]
  omega

theorem chunks_nil : chunks [] = [] := by
  rw [chunks]

theorem chunks_cons (count : UInt8) (rest : List UInt8) :
    chunks (count :: rest) =
      triples (rest.take (3 * count.toNat)) :: chunks (rest.drop (3 * count.toNat)) := by
  rw [chunks]

theorem triples_of_length {l : List UInt8} (h : l.length = 3) : triples l = [readBigEndian l] := by
  match l, h with
  | [a, b, c], _ => rfl

theorem triples_append {l : List UInt8} (rest : List UInt8) (h : l.length % 3 = 0) :
    triples (l ++ rest) = triples l ++ triples rest := by
  induction l using triples.induct with
  | case1 a b c l ih =>
      have hl : l.length % 3 = 0 := by
        simp only [List.length_cons] at h
        omega
      simp only [List.cons_append, triples, ih hl]
  | case2 l hl =>
      match l with
      | [] => rfl
      | [_] => cases h
      | [_, _] => cases h
      | a :: b :: c :: l => exact absurd rfl (hl a b c l)

theorem length_triples (l : List UInt8) : (triples l).length = l.length / 3 := by
  induction l using triples.induct with
  | case1 a b c l ih =>
      simp only [triples, List.length_cons, ih]
      omega
  | case2 l hl =>
      match l with
      | [] => rfl
      | [_] => simp [triples]
      | [_, _] => simp [triples]
      | a :: b :: c :: l => exact absurd rfl (hl a b c l)

/-- Add the links from some sources to a node. -/
def addLinks (wot : WebOfTrust) (target : NodeId) (sources : List NodeId) : WebOfTrust :=
  sources.foldl (fun wot source => (wot.addLink source target).1) wot

theorem addLinks_cons (wot : WebOfTrust) (target source : NodeId) (sources : List NodeId) :
    wot.addLinks target (source :: sources) =
      (wot.addLink source target).1.addLinks target sources := rfl

/-- Add the links of some chunks, the first of which belongs to the given node. -/
def addChunks (wot : WebOfTrust) (first : NodeId) : List (List NodeId) → WebOfTrust
  | [] => wot
  | sources :: rest =>
      addChunks (wot.addLinks (first % 4294967296) sources) (first + 1) rest

/-! ## Reading the sources of a node -/

variable {wot : WebOfTrust} {buffer : List UInt8} {countBytes target : Nat}

theorem ofNat_succ_ne_zero {r : Nat} (h : r + 1 < 256) : UInt8.ofNat (r + 1) ≠ 0 := by
  intro heq
  have hnat := congrArg UInt8.toNat heq
  rw [UInt8.toNat_ofNat', Nat.mod_eq_of_lt h] at hnat
  cases hnat

theorem ofNat_succ_sub_one (r : Nat) : UInt8.ofNat (r + 1) - 1 = UInt8.ofNat r := by
  rw [UInt8.ofNat_add]
  exact UInt8.add_sub_cancel ..

/-- A byte that does not complete a source. -/
theorem readLinkByte_keep {remaining : Nat} {byte : UInt8} (hremaining : remaining + 1 < 256)
    (hcount : countBytes % 3 ≠ 2) :
    readLinkByte ⟨wot, buffer, countBytes, .ofNat (remaining + 1), target⟩ byte =
      ⟨wot, buffer ++ [byte], countBytes + 1, .ofNat (remaining + 1), target⟩ := by
  simp only [readLinkByte, ofNat_succ_ne_zero hremaining, if_false, hcount]

/-- A byte that completes a source adds its link. -/
theorem readLinkByte_add {remaining : Nat} {byte : UInt8} (hremaining : remaining + 1 < 256)
    (hcount : countBytes % 3 = 2) :
    readLinkByte ⟨wot, buffer, countBytes, .ofNat (remaining + 1), target⟩ byte =
      ⟨(wot.addLink (readBigEndian (buffer ++ [byte])) ((target + 4294967295) % 4294967296)).1, [],
        countBytes + 1, .ofNat remaining, target⟩ := by
  simp only [readLinkByte, ofNat_succ_ne_zero hremaining, if_false, hcount, if_true,
    ofNat_succ_sub_one]

/-- Reading bytes of sources, no more than the count announces. -/
theorem foldl_readLinkByte (target : Nat) {l : List UInt8} :
    ∀ (wot : WebOfTrust) {countBytes remaining : Nat}, remaining < 256 →
      l.length ≤ 3 * remaining → countBytes % 3 = 0 →
      l.foldl readLinkByte ⟨wot, [], countBytes, .ofNat remaining, target⟩ =
        ⟨wot.addLinks ((target + 4294967295) % 4294967296) (triples l),
          l.drop (3 * (l.length / 3)), countBytes + l.length, .ofNat (remaining - l.length / 3),
          target⟩ := by
  induction l using triples.induct with
  | case1 a b c l ih =>
      intro wot countBytes remaining hremaining hlen hcount
      cases remaining with
      | zero => cases hlen
      | succ remaining =>
          simp only [List.length_cons] at hlen
          have hlen' : l.length ≤ 3 * remaining := by omega
          have hdiv : (l.length + 1 + 1 + 1) / 3 = l.length / 3 + 1 := by omega
          simp only [List.foldl_cons]
          rw [readLinkByte_keep hremaining (by omega), readLinkByte_keep hremaining (by omega),
            readLinkByte_add hremaining (by omega),
            ih _ (Nat.lt_of_succ_lt hremaining) hlen' (by omega)]
          simp only [List.length_cons, hdiv, triples, addLinks, List.foldl_cons, List.nil_append,
            List.cons_append, Nat.mul_succ, Nat.add_sub_add_right]
          simp [Nat.add_assoc, Nat.add_comm 3]
  | case2 l hl =>
      intro wot countBytes remaining hremaining hlen hcount
      match l with
      | [] => rfl
      | [a] =>
          cases remaining with
          | zero => cases hlen
          | succ remaining =>
              rw [List.foldl_cons, readLinkByte_keep hremaining (by omega)]
              simp [triples, addLinks]
      | [a, b] =>
          cases remaining with
          | zero => cases hlen
          | succ remaining =>
              rw [List.foldl_cons, List.foldl_cons, readLinkByte_keep hremaining (by omega),
                readLinkByte_keep hremaining (by omega)]
              simp [triples, addLinks]
      | a :: b :: c :: l => exact absurd rfl (hl a b c l)

/-! ## Reading a links section -/

theorem previousTarget (first : Nat) :
    ((first + 1) % 4294967296 + 4294967295) % 4294967296 = first % 4294967296 := by
  omega

/-- Reading the count of a node. -/
theorem readLinkByte_count {first : Nat} (count : UInt8) :
    readLinkByte ⟨wot, [], countBytes, .ofNat 0, first % 4294967296⟩ count =
      ⟨wot, [], 0, count, (first + 1) % 4294967296⟩ := by
  have hzero : UInt8.ofNat 0 = 0 := rfl
  simp only [readLinkByte, hzero, if_true, Nat.mod_add_mod]

/-- Reading a chunk that is there in full. -/
theorem foldl_readLinkByte_chunk {first : Nat} {count : UInt8} {sources rest : List UInt8}
    (h : sources.length = 3 * count.toNat) :
    (count :: (sources ++ rest)).foldl readLinkByte
        ⟨wot, [], countBytes, .ofNat 0, first % 4294967296⟩ =
      rest.foldl readLinkByte ⟨wot.addLinks (first % 4294967296) (triples sources), [],
        sources.length, .ofNat 0, (first + 1) % 4294967296⟩ := by
  have hdiv : sources.length / 3 = count.toNat := by omega
  have hread := foldl_readLinkByte ((first + 1) % 4294967296) wot count.toNat_lt (Nat.le_of_eq h)
    (Nat.zero_mod 3)
  rw [UInt8.ofNat_toNat, previousTarget, hdiv, ← h, List.drop_length, h, Nat.sub_self] at hread
  rw [List.foldl_cons, readLinkByte_count, List.foldl_append, hread, Nat.zero_add, h]

/-- The links that a section adds are those of its chunks. -/
theorem foldl_readLinkByte_wot (bytes : List UInt8) :
    ∀ (wot : WebOfTrust) (countBytes first : Nat),
      (bytes.foldl readLinkByte ⟨wot, [], countBytes, .ofNat 0, first % 4294967296⟩).wot =
        wot.addChunks first (chunks bytes) := by
  induction bytes using chunks.induct with
  | case1 =>
      intro wot countBytes first
      rw [chunks_nil]
      rfl
  | case2 count rest ih =>
      intro wot countBytes first
      rw [chunks_cons, addChunks]
      rcases Nat.lt_or_ge rest.length (3 * count.toNat) with hlt | hge
      · have hread := foldl_readLinkByte ((first + 1) % 4294967296) wot count.toNat_lt
          (Nat.le_of_lt hlt) (Nat.zero_mod 3)
        rw [UInt8.ofNat_toNat, previousTarget] at hread
        rw [List.foldl_cons, readLinkByte_count, hread, List.take_of_length_le (Nat.le_of_lt hlt),
          List.drop_of_length_le (Nat.le_of_lt hlt), chunks_nil]
        rfl
      · have hlen : (rest.take (3 * count.toNat)).length = 3 * count.toNat :=
          List.length_take_of_le hge
        rw [← List.take_append_drop (3 * count.toNat) rest, foldl_readLinkByte_chunk hlen, ih]
        simp

/-! ## What the chunks add -/

/-- What adding any link keeps, adding the links of some chunks keeps. -/
theorem addChunks_preserves {P : WebOfTrust → Prop}
    (hstep : ∀ wot source target, P wot → P (wot.addLink source target).1)
    (sections : List (List NodeId)) :
    ∀ (wot : WebOfTrust) (first : NodeId), P wot → P (wot.addChunks first sections) := by
  have hlinks : ∀ (sources : List NodeId) (wot : WebOfTrust) (target : NodeId), P wot →
      P (wot.addLinks target sources) := by
    intro sources
    induction sources with
    | nil =>
        intro wot target h
        exact h
    | cons source sources ih =>
        intro wot target h
        exact ih _ target (hstep wot source target h)
  induction sections with
  | nil =>
      intro wot first h
      exact h
  | cons sources sections ih =>
      intro wot first h
      exact ih _ (first + 1) (hlinks sources wot _ h)

theorem addChunks_size (wot : WebOfTrust) (first : NodeId) (sections : List (List NodeId)) :
    (wot.addChunks first sections).size = wot.size := by
  apply addChunks_preserves (P := fun w => w.size = wot.size) _ sections wot first rfl
  intro w source target h
  exact addLink_preserves (P := fun w => w.size = wot.size) h fun _ => withLink_size.trans h

theorem addChunks_flags (wot : WebOfTrust) (first : NodeId) (sections : List (List NodeId)) :
    (wot.addChunks first sections).flags = wot.flags := by
  apply addChunks_preserves (P := fun w => w.flags = wot.flags) _ sections wot first rfl
  intro w source target h
  exact addLink_preserves (P := fun w => w.flags = wot.flags) h fun _ => withLink_flags.trans h

theorem addChunks_maxLinks (wot : WebOfTrust) (first : NodeId) (sections : List (List NodeId)) :
    (wot.addChunks first sections).maxLinks = wot.maxLinks := by
  apply addChunks_preserves (P := fun w => w.maxLinks = wot.maxLinks) _ sections wot first rfl
  intro w source target h
  exact addLink_preserves (P := fun w => w.maxLinks = wot.maxLinks) h fun _ => h

/-- Every link comes from the call that added it. -/
theorem hasLink_addLinks {sources : List NodeId} {source target' : NodeId} :
    ∀ {wot : WebOfTrust}, (wot.addLinks target sources).hasLink source target' = true →
      wot.hasLink source target' = true ∨ source ∈ sources ∧ target' = target := by
  induction sources with
  | nil =>
      intro wot h
      exact .inl h
  | cons first sources ih =>
      intro wot h
      rw [addLinks_cons] at h
      rcases ih h with h | ⟨hmem, rfl⟩
      · by_cases hcan : wot.CanLink first target
        · rw [addLink_of_canLink hcan, hasLink_withLink hcan.2.1] at h
          rcases h with h | ⟨rfl, rfl⟩
          · exact .inl h
          · exact .inr ⟨List.mem_cons_self, rfl⟩
        · rw [addLink_of_not_canLink hcan] at h
          exact .inl h
      · exact .inr ⟨List.mem_cons_of_mem _ hmem, rfl⟩

/-- Every link comes from the chunk of its target. -/
theorem hasLink_addChunks {sections : List (List NodeId)} {source target : NodeId} :
    ∀ {wot : WebOfTrust} {first : NodeId},
      (wot.addChunks first sections).hasLink source target = true →
      wot.hasLink source target = true ∨ ∃ i sources, sections[i]? = some sources ∧
        source ∈ sources ∧ target = (first + i) % 4294967296 := by
  induction sections with
  | nil =>
      intro wot first h
      exact .inl h
  | cons sources sections ih =>
      intro wot first h
      rcases ih h with h | ⟨i, sources', hget, hmem, htarget⟩
      · rcases hasLink_addLinks h with h | ⟨hmem, htarget⟩
        · exact .inl h
        · exact .inr ⟨0, sources, rfl, hmem, htarget⟩
      · exact .inr ⟨i + 1, sources', hget, hmem, by rw [htarget, Nat.add_right_comm]; rfl⟩

/-- The links added are no more than the sources read. -/
theorem totalLinks_addChunks_le (sections : List (List NodeId)) :
    ∀ (wot : WebOfTrust) (first : NodeId), (wot.addChunks first sections).totalLinks ≤
      wot.totalLinks + (sections.map List.length).sum := by
  have hlinks : ∀ (sources : List NodeId) (wot : WebOfTrust) (target : NodeId),
      (wot.addLinks target sources).totalLinks ≤ wot.totalLinks + sources.length := by
    intro sources
    induction sources with
    | nil =>
        intro wot target
        exact Nat.le_refl _
    | cons source sources ih =>
        intro wot target
        have hone : (wot.addLink source target).1.totalLinks ≤ wot.totalLinks + 1 :=
          addLink_preserves (P := fun w => w.totalLinks ≤ wot.totalLinks + 1) (Nat.le_succ _)
            totalLinks_withLink_le
        have hrest := ih (wot.addLink source target).1 target
        rw [List.length_cons, addLinks_cons]
        omega
  induction sections with
  | nil =>
      intro wot first
      exact Nat.le_refl _
  | cons sources sections ih =>
      intro wot first
      have hone := hlinks sources wot (first % 4294967296)
      have hrest := ih (wot.addLinks (first % 4294967296) sources) (first + 1)
      rw [List.map_cons, List.sum_cons, addChunks]
      omega

/-- A section is long enough for the counts and the sources read. -/
theorem chunks_length_le (bytes : List UInt8) :
    (chunks bytes).length + 3 * ((chunks bytes).map List.length).sum ≤ bytes.length := by
  induction bytes using chunks.induct with
  | case1 =>
      rw [chunks_nil]
      exact Nat.le_refl _
  | case2 count rest ih =>
      rw [chunks_cons, List.length_cons, List.length_cons, List.map_cons, List.sum_cons,
        length_triples, List.length_take]
      rw [List.length_drop] at ih
      omega

/-! ## Writing the links -/

/-- Sources on three bytes each. -/
def sourceBytes (sources : List NodeId) : List UInt8 := (sources.map (bigEndian 3)).flatten

/-- A node in the links section. -/
def nodeBytes (node : WotNode) : List UInt8 :=
  UInt8.ofNat node.linksSource.len :: sourceBytes node.linksSource.iter

/-- The links section. -/
def linkBytes (nodes : List WotNode) : List UInt8 := (nodes.map nodeBytes).flatten

theorem sourceBytes_length (sources : List NodeId) :
    (sourceBytes sources).length = 3 * sources.length := by
  induction sources with
  | nil => rfl
  | cons source sources ih =>
      have hcons : sourceBytes (source :: sources) = bigEndian 3 source ++ sourceBytes sources := rfl
      rw [hcons, List.length_append, bigEndian_length, ih, List.length_cons]
      omega

/-- Sources that fit are read back. -/
theorem triples_sourceBytes {sources : List NodeId} (h : ∀ source ∈ sources, source < 16777216) :
    triples (sourceBytes sources) = sources := by
  induction sources with
  | nil => rfl
  | cons source sources ih =>
      have hcons : sourceBytes (source :: sources) = bigEndian 3 source ++ sourceBytes sources := rfl
      have hlen : (bigEndian 3 source).length % 3 = 0 := by rw [bigEndian_length]
      have hone : triples (bigEndian 3 source) = [source] := by
        rw [triples_of_length (bigEndian_length 3 source),
          readBigEndian_bigEndian_of_lt (h source List.mem_cons_self)]
      rw [hcons, triples_append _ hlen, hone,
        ih fun source' hmem => h source' (List.mem_cons_of_mem _ hmem)]
      rfl

theorem linkBytes_length (nodes : List WotNode) :
    (linkBytes nodes).length =
      nodes.length + 3 * (nodes.map fun node => node.linksSource.len).sum := by
  induction nodes with
  | nil => rfl
  | cons node nodes ih =>
      have hcons : linkBytes (node :: nodes) = nodeBytes node ++ linkBytes nodes := rfl
      have hnode : (nodeBytes node).length = 1 + 3 * node.linksSource.len := by
        rw [nodeBytes, List.length_cons, sourceBytes_length]
        exact Nat.add_comm _ _
      rw [hcons, List.length_append, hnode, ih, List.length_cons, List.map_cons, List.sum_cons]
      omega

/-- Nodes without links take one byte each, a zero. -/
theorem linkBytes_of_no_link {nodes : List WotNode} (h : ∀ node ∈ nodes, node.linksSource.len = 0) :
    linkBytes nodes = List.replicate nodes.length 0 := by
  induction nodes with
  | nil => rfl
  | cons node nodes ih =>
      have hcons : linkBytes (node :: nodes) = nodeBytes node ++ linkBytes nodes := rfl
      have hlen := h node List.mem_cons_self
      have hnil : node.linksSource.iter = [] := List.length_eq_zero_iff.1 hlen
      rw [hcons, ih fun node' hmem => h node' (List.mem_cons_of_mem _ hmem), nodeBytes, hlen, hnil]
      rfl

/-- Chunks without sources. -/
theorem chunks_replicate (n : Nat) (rest : List UInt8) :
    chunks (List.replicate n 0 ++ rest) = List.replicate n [] ++ chunks rest := by
  induction n with
  | zero => rfl
  | succ n ih =>
      rw [List.replicate_succ, List.cons_append, chunks_cons]
      have hzero : 3 * (0 : UInt8).toNat = 0 := rfl
      rw [hzero, List.take_zero, List.drop_zero, ih]
      rfl

/-- The links section is written when every source fits. -/
theorem writeLinks_ok {wot : WebOfTrust}
    (h : ∀ source target, wot.hasLink source target = true → source < 16777216) :
    wot.writeLinks wot.size = .ok (linkBytes wot.nodes) := by
  have hsources : ∀ (n : NodeId) (node : WotNode), wot.nodes[n]? = some node →
      wot.writeSources n = .ok (nodeBytes node) := by
    intro n node hnode
    have hwrite : node.linksSource.iter.mapM writeU24 =
        .ok (node.linksSource.iter.map (bigEndian 3)) := by
      apply mapM_eq_ok_map
      intro source hmem
      have hlt := h source n (hasLink_iff.2 ⟨node, hnode, hmem⟩)
      rw [writeU24, Nat.mod_eq_of_lt (Nat.lt_trans hlt (by decide)), if_pos hlt]
      rfl
    rw [writeSources, getLinksSource, hnode]
    simp only [Option.map_some, hwrite, ok_bind]
    rfl
  have hall : (List.range wot.size).mapM wot.writeSources = .ok (wot.nodes.map nodeBytes) := by
    have hmap : (List.range wot.size).map (fun n => ((wot.nodes[n]?).map nodeBytes).getD []) =
        wot.nodes.map nodeBytes := by
      apply List.ext_getElem?
      intro n
      rw [List.getElem?_map, List.getElem?_map]
      rcases Nat.lt_or_ge n wot.size with hlt | hge
      · rcases exists_node hlt with ⟨node, hnode⟩
        rw [List.getElem?_range hlt, hnode, Option.map_some, hnode]
        rfl
      · rw [List.getElem?_eq_none (by rw [List.length_range]; exact hge),
          List.getElem?_eq_none hge]
        rfl
    rw [← hmap]
    apply mapM_eq_ok_map
    intro n hmem
    rcases exists_node (List.mem_range.1 hmem) with ⟨node, hnode⟩
    rw [hsources n node hnode, hnode]
    rfl
  rw [writeLinks, hall]
  rfl

/-- A written links section has the sources reduced to 32 bits on three bytes. -/
theorem lt_of_writeLinks {wot : WebOfTrust} {bytes : List UInt8}
    (h : wot.writeLinks wot.size = .ok bytes) {source target : NodeId}
    (hlink : wot.hasLink source target = true) : source % 4294967296 < 16777216 := by
  rcases hasLink_iff.1 hlink with ⟨node, hnode, hmem⟩
  rw [writeLinks, bind_eq_ok_iff] at h
  rcases h with ⟨written, hwritten, -⟩
  rcases exists_of_mapM hwritten target (List.mem_range.2 (lt_size hnode)) with ⟨bytes', htarget⟩
  rw [writeSources, getLinksSource, hnode, Option.map_some] at htarget
  simp only [bind_eq_ok_iff] at htarget
  rcases htarget with ⟨sources, hsources, -⟩
  rcases exists_of_mapM hsources source hmem with ⟨sourceBytes, hsource⟩
  rw [writeU24] at hsource
  split at hsource
  case isTrue hlt => exact hlt
  case isFalse => cases hsource

/-- A written links section is read chunk by chunk. -/
theorem foldl_readLinkByte_linkBytes {nodes : List WotNode}
    (hlen : ∀ node ∈ nodes, node.linksSource.len ≤ 255)
    (hfit : ∀ node ∈ nodes, ∀ source ∈ node.linksSource, source < 16777216) :
    ∀ (wot : WebOfTrust) (countBytes first : Nat), countBytes % 3 = 0 →
      ∃ countBytes' target', countBytes' % 3 = 0 ∧
        (linkBytes nodes).foldl readLinkByte ⟨wot, [], countBytes, .ofNat 0, first % 4294967296⟩ =
          ⟨wot.addChunks first (nodes.map fun node => node.linksSource.iter), [], countBytes',
            .ofNat 0, target'⟩ := by
  induction nodes with
  | nil =>
      intro wot countBytes first hcount
      exact ⟨countBytes, first % 4294967296, hcount, rfl⟩
  | cons node nodes ih =>
      intro wot countBytes first hcount
      have hcons : linkBytes (node :: nodes) =
          UInt8.ofNat node.linksSource.len ::
            (sourceBytes node.linksSource.iter ++ linkBytes nodes) := rfl
      have hle := hlen node List.mem_cons_self
      have hchunk : (sourceBytes node.linksSource.iter).length =
          3 * (UInt8.ofNat node.linksSource.len).toNat := by
        rw [sourceBytes_length, UInt8.toNat_ofNat', Nat.mod_eq_of_lt (Nat.lt_succ_of_le hle)]
        rfl
      have hcount' : (sourceBytes node.linksSource.iter).length % 3 = 0 := by
        rw [sourceBytes_length]
        exact Nat.mul_mod_right 3 _
      have hsources : triples (sourceBytes node.linksSource.iter) = node.linksSource.iter :=
        triples_sourceBytes (hfit node List.mem_cons_self)
      rw [hcons, foldl_readLinkByte_chunk hchunk, hsources]
      exact ih (fun node' hmem => hlen node' (List.mem_cons_of_mem _ hmem))
        (fun node' hmem => hfit node' (List.mem_cons_of_mem _ hmem)) _ _ (first + 1) hcount'

end WebOfTrust

end Durs
