/-
# The round trip through a file

Which webs of trust come back from a file as they were written, with the byte string beside them.
The flags of the nodes past the last full byte are written wrongly when there are none or seven of
them, and the number of sources of a node is kept on one byte.
-/

import Durs.Wot.FileMisread

namespace Durs

open RustStd Lib

namespace WebOfTrust

/-! ## Reading back all the links -/

variable {wot whole : WebOfTrust} {source target : NodeId}

/-- A web being rebuilt: it has the nodes of the whole web and some of its links. -/
structure PartOf (wot whole : WebOfTrust) : Prop where
  inv : WotInv wot
  size : wot.size = whole.size
  maxLinks : wot.maxLinks = whole.maxLinks
  links : ∀ source target, wot.hasLink source target = true → whole.hasLink source target = true

/-- The webs whose links can all be added one by one. -/
structure Linkable (whole : WebOfTrust) : Prop where
  noSelfLink : ∀ id, whole.hasLink id id = false
  known : ∀ source target, whole.hasLink source target = true → source < whole.size
  bounded : ∀ source, whole.linksFrom source ≤ whole.maxLinks

theorem hasLink_lt_size (h : wot.hasLink source target = true) : target < wot.size := by
  rcases hasLink_iff.1 h with ⟨node, hnode, -⟩
  exact lt_size hnode

/-- A part that misses a link counts fewer of them. -/
theorem PartOf.linksFrom_lt (h : PartOf wot whole) (hlink : whole.hasLink source target = true)
    (hmissing : wot.hasLink source target = false) :
    wot.linksFrom source < whole.linksFrom source := by
  have htarget : target ∈ List.range whole.size := List.mem_range.2 (hasLink_lt_size hlink)
  rcases List.append_of_mem htarget with ⟨before, after, hsplit⟩
  rw [linksFrom_eq_countP, linksFrom_eq_countP, h.size, hsplit, List.countP_append,
    List.countP_append, List.countP_cons, List.countP_cons, hlink, hmissing]
  have hbefore := List.countP_mono_left (l := before) fun target' _ => h.links source target'
  have hafter := List.countP_mono_left (l := after) fun target' _ => h.links source target'
  simp only [if_true, Bool.false_eq_true, if_false]
  omega

/-- A missing link can be added. -/
theorem PartOf.addLink (h : PartOf wot whole) (hwhole : Linkable whole)
    (hlink : whole.hasLink source target = true) (hmissing : wot.hasLink source target = false) :
    PartOf (wot.addLink source target).1 whole ∧ ∀ source' target',
      (wot.addLink source target).1.hasLink source' target' = true ↔
        wot.hasLink source' target' = true ∨ source' = source ∧ target' = target := by
  have htarget : target < wot.size := h.size ▸ hasLink_lt_size hlink
  have hsource : source < wot.size := h.size ▸ hwhole.known source target hlink
  have hcan : wot.CanLink source target := by
    refine ⟨?_, htarget, ?_⟩
    · rintro rfl
      rw [hwhole.noSelfLink source] at hlink
      cases hlink
    · rcases exists_node hsource with ⟨node, hnode⟩
      refine ⟨node, hnode, ?_⟩
      rw [h.inv.issued source node hnode, h.maxLinks]
      exact Nat.lt_of_lt_of_le (h.linksFrom_lt hlink hmissing) (hwhole.bounded source)
  have hinv : WotInv (wot.addLink source target).1 := by
    apply h.inv.addLink
    intro htrue
    rw [hmissing] at htrue
    cases htrue
  rw [addLink_of_canLink hcan] at hinv ⊢
  have hlinks : ∀ source' target',
      (wot.withLink source target).hasLink source' target' = true ↔
        wot.hasLink source' target' = true ∨ source' = source ∧ target' = target :=
    hasLink_withLink htarget
  refine ⟨⟨hinv, withLink_size.trans h.size, h.maxLinks, ?_⟩, hlinks⟩
  intro source' target' h'
  rcases (hlinks source' target').1 h' with h' | ⟨rfl, rfl⟩
  · exact h.links source' target' h'
  · exact hlink

/-- The missing links of a node can be added. -/
theorem PartOf.addLinks (hwhole : Linkable whole) {sources : List NodeId} :
    ∀ {wot : WebOfTrust}, PartOf wot whole → sources.Nodup →
      (∀ source ∈ sources, whole.hasLink source target = true ∧
        wot.hasLink source target = false) →
      PartOf (wot.addLinks target sources) whole ∧ ∀ source' target',
        (wot.addLinks target sources).hasLink source' target' = true ↔
          wot.hasLink source' target' = true ∨ source' ∈ sources ∧ target' = target := by
  induction sources with
  | nil =>
      intro wot h _ _
      refine ⟨h, fun source' target' => ⟨.inl, ?_⟩⟩
      rintro (h | ⟨hmem, -⟩)
      · exact h
      · cases hmem
  | cons first sources ih =>
      intro wot h hnodup hmissing
      rcases List.nodup_cons.1 hnodup with ⟨hfresh, hnodup⟩
      rcases hmissing first List.mem_cons_self with ⟨hlink, hno⟩
      rcases h.addLink hwhole hlink hno with ⟨hpart, hlinks⟩
      have hrest : ∀ source ∈ sources, whole.hasLink source target = true ∧
          (wot.addLink first target).1.hasLink source target = false := by
        intro source hmem
        rcases hmissing source (List.mem_cons_of_mem _ hmem) with ⟨hlink', hno'⟩
        refine ⟨hlink', Bool.eq_false_iff.2 fun htrue => ?_⟩
        rcases (hlinks source target).1 htrue with htrue | ⟨rfl, -⟩
        · rw [hno'] at htrue
          cases htrue
        · exact hfresh hmem
      rcases ih hpart hnodup hrest with ⟨hend, hall⟩
      rw [addLinks_cons]
      refine ⟨hend, fun source' target' => ?_⟩
      rw [hall, hlinks, List.mem_cons]
      tauto

/-- The links of the nodes from a position on can be added. -/
theorem PartOf.addChunks (hwhole : Linkable whole) (hsize : whole.size < 4294967296)
    {nodes : List WotNode} :
    ∀ {wot : WebOfTrust} {first : NodeId}, whole.nodes.drop first = nodes → PartOf wot whole →
      (∀ source target, wot.hasLink source target = true → target < first) →
      ∀ source' target', (wot.addChunks first (nodes.map fun node => node.linksSource.iter)).hasLink
          source' target' = true ↔
        wot.hasLink source' target' = true ∨
          first ≤ target' ∧ whole.hasLink source' target' = true := by
  induction nodes with
  | nil =>
      intro wot first hdrop _ _ source' target'
      refine ⟨.inl, ?_⟩
      rintro (h | ⟨hle, h⟩)
      · exact h
      · have hlen : whole.size ≤ first := List.drop_eq_nil_iff.1 hdrop
        exact absurd (hasLink_lt_size h) (Nat.not_lt_of_le (Nat.le_trans hlen hle))
  | cons node nodes ih =>
      intro wot first hdrop hpart hbelow source' target'
      have hnode : whole.nodes[first]? = some node := by
        have hhead : (whole.nodes.drop first)[0]? = whole.nodes[first + 0]? := List.getElem?_drop
        rw [hdrop] at hhead
        exact hhead.symm
      have hlt : first < whole.size := lt_size hnode
      have hmod : first % 4294967296 = first := Nat.mod_eq_of_lt (Nat.lt_trans hlt hsize)
      have hrest : whole.nodes.drop (first + 1) = nodes := by
        rw [← List.drop_drop, hdrop]
        rfl
      have hsources : ∀ source, source ∈ node.linksSource.iter ↔
          whole.hasLink source first = true := by
        intro source
        rw [hasLink_iff, hnode]
        simp
      have hmissing : ∀ source ∈ node.linksSource.iter, whole.hasLink source first = true ∧
          wot.hasLink source first = false := by
        intro source hmem
        refine ⟨(hsources source).1 hmem, Bool.eq_false_iff.2 fun htrue => ?_⟩
        exact Nat.lt_irrefl _ (hbelow source first htrue)
      rcases hpart.addLinks hwhole (HashSet.nodup_iter node.linksSource) hmissing with
        ⟨hpart', hlinks⟩
      have hbelow' : ∀ source target,
          (wot.addLinks first node.linksSource.iter).hasLink source target = true →
          target < first + 1 := by
        intro source target h
        rcases (hlinks source target).1 h with h | ⟨-, rfl⟩
        · exact Nat.lt_succ_of_lt (hbelow source target h)
        · exact Nat.lt_succ_self _
      rw [List.map_cons, WebOfTrust.addChunks, hmod, ih hrest hpart' hbelow', hlinks]
      constructor
      · rintro ((h | ⟨hmem, rfl⟩) | ⟨hle, h⟩)
        · exact .inl h
        · exact .inr ⟨Nat.le_refl _, (hsources source').1 hmem⟩
        · exact .inr ⟨Nat.le_of_succ_le hle, h⟩
      · rintro (h | ⟨hle, h⟩)
        · exact .inl (.inl h)
        · rcases Nat.eq_or_lt_of_le hle with rfl | hlt'
          · exact .inl (.inr ⟨(hsources source').2 h, rfl⟩)
          · exact .inr ⟨hlt', h⟩

/-! ## The web before its links are read -/

section FlagsOnly

variable {bytes : List UInt8} {count maxLinks : Nat}

/-- The web that the enabled flags of a file give. -/
def flagsRead (bytes : List UInt8) (count maxLinks : Nat) : WebOfTrust :=
  { nodes := nodesRead bytes count, maxLinks }

theorem flagsRead_size : (flagsRead bytes count maxLinks).size = count := by
  simp [flagsRead, size, nodesRead]

theorem flagsRead_flags :
    (flagsRead bytes count maxLinks).flags = (List.range count).map (flagAt bytes) := by
  rw [flags, flagsRead, nodesRead, List.map_map]
  rfl

theorem eq_flagNode_of_flagsRead {id : NodeId} {node : WotNode}
    (h : (flagsRead bytes count maxLinks).nodes[id]? = some node) :
    node = flagNode (flagAt bytes id) := by
  have hlt : id < count := by
    have hsize := lt_size h
    rwa [flagsRead_size] at hsize
  rw [flagsRead, nodesRead, List.getElem?_map, List.getElem?_range hlt] at h
  exact (Option.some.inj h).symm

theorem flagsRead_hasLink (source target : NodeId) :
    (flagsRead bytes count maxLinks).hasLink source target = false := by
  refine Bool.eq_false_iff.2 fun hlink => ?_
  rcases hasLink_iff.1 hlink with ⟨node, hnode, hmem⟩
  rw [eq_flagNode_of_flagsRead hnode] at hmem
  exact HashSet.not_mem_empty _ hmem

theorem flagsRead_linksFrom (source : NodeId) :
    (flagsRead bytes count maxLinks).linksFrom source = 0 :=
  linksFrom_eq_zero_iff.2 fun target => flagsRead_hasLink source target

theorem flagsRead_totalLinks : (flagsRead bytes count maxLinks).totalLinks = 0 := by
  rw [totalLinks, List.sum_eq_zero_iff_forall_eq_nat]
  intro len hmem
  rcases List.mem_map.1 hmem with ⟨node, hnode, rfl⟩
  rcases List.mem_iff_getElem?.1 hnode with ⟨id, hid⟩
  rw [eq_flagNode_of_flagsRead hid]
  rfl

theorem flagsRead_wotInv : WotInv (flagsRead bytes count maxLinks) := by
  constructor
  case issued =>
    intro id node hnode
    rw [eq_flagNode_of_flagsRead hnode, flagsRead_linksFrom]
    rfl
  case noSelfLink =>
    intro id node hnode
    rw [eq_flagNode_of_flagsRead hnode]
    exact HashSet.not_mem_empty _
  case known =>
    intro id node hnode source hmem
    rw [eq_flagNode_of_flagsRead hnode] at hmem
    exact absurd hmem (HashSet.not_mem_empty _)
  case bounded =>
    intro id node hnode
    rw [eq_flagNode_of_flagsRead hnode]
    exact Nat.zero_le _

theorem flagsRead_linksBound : LinksBound (flagsRead bytes count maxLinks) := by
  constructor
  case issued =>
    intro id node hnode
    rw [flagsRead_linksFrom]
    exact Nat.zero_le _
  case known =>
    intro source target hlink
    rw [flagsRead_hasLink] at hlink
    cases hlink
  case bounded => exact flagsRead_wotInv.bounded

end FlagsOnly

/-! ## Reading what was written -/

theorem readBigEndian_lt (bytes : List UInt8) : readBigEndian bytes < 256 ^ bytes.length := by
  induction bytes using List.reverseRecOn with
  | nil => decide
  | append_singleton bytes byte ih =>
      have hbyte := byte.toNat_lt
      rw [readBigEndian_append_singleton, List.length_append, List.length_singleton, Nat.pow_succ]
      omega

theorem splitOff_eq_ok_iff {bytes taken rest : List UInt8} {at' : Nat} :
    splitOff bytes at' = .ok (taken, rest) ↔
      at' ≤ bytes.length ∧ taken = bytes.take at' ∧ rest = bytes.drop at' := by
  rw [splitOff]
  split
  case isTrue hle =>
    rw [List.splitAt_eq, pure_eq_ok_iff, Prod.mk.injEq]
    simp only [hle, true_and, eq_comm]
  case isFalse hlt => simp [hlt]

theorem splitOff_append {bytes rest : List UInt8} {at' : Nat} (h : bytes.length = at') :
    splitOff (bytes ++ rest) at' = .ok (bytes, rest) := by
  rw [splitOff_eq_ok_iff, List.length_append, ← h, List.take_left, List.drop_left]
  exact ⟨Nat.le_add_right _ _, rfl, rfl⟩

theorem le_eight_mul_nodesStatesSize (nodesCount : Nat) : nodesCount ≤ 8 * nodesStatesSize nodesCount := by
  rw [nodesStatesSize]
  split <;> omega

/-- The reader's web after the links section. -/
theorem readLinks_eq_ok {wot wot' : WebOfTrust} {links : List UInt8}
    (h : readLinks wot links = .ok wot') : wot' = wot.addChunks 0 (chunks links) := by
  rw [readLinks] at h
  split at h
  case isTrue => cases h
  case isFalse =>
    rw [← pure_eq_ok_iff.1 h]
    exact foldl_readLinkByte_wot links wot 0 0

/-- What a file that is read has in it. -/
theorem fromFile_eq_ok {file data : List UInt8} {maxLinks : Nat} {wot : WebOfTrust}
    (h : fromFile file maxLinks = .ok (wot, data)) :
    data.length < 4294967296 ∧ wot.size < 4294967296 := by
  have hword : ∀ {bytes taken rest : List UInt8}, splitOff bytes 4 = .ok (taken, rest) →
      readBigEndian taken < 4294967296 := by
    intro bytes taken rest hsplit
    rcases splitOff_eq_ok_iff.1 hsplit with ⟨hlen, htaken, -⟩
    have hlt := readBigEndian_lt taken
    rwa [htaken, List.length_take_of_le hlen, ← htaken] at hlt
  simp only [fromFile, bind_eq_ok_iff] at h
  rcases h with ⟨⟨sizeBytes, rest⟩, hsize, ⟨blockstamp, rest'⟩, hdata, ⟨countBytes, rest''⟩, hcount,
    ⟨states, links⟩, hstates, h⟩
  rcases splitOff_eq_ok_iff.1 hdata with ⟨hlen, hblockstamp, -⟩
  rcases splitOff_eq_ok_iff.1 hstates with ⟨hlen', hbytes, -⟩
  have hstatesLen : states.length = nodesStatesSize (readBigEndian countBytes) := by
    rw [hbytes]
    exact List.length_take_of_le hlen'
  split at h
  case isTrue => exact absurd h fatalError_ne_ok
  case isFalse =>
    rcases bind_eq_ok_iff.1 h with ⟨wot', hlinks, h⟩
    rcases Prod.mk.inj (pure_eq_ok_iff.1 h) with ⟨hwot, hblock⟩
    constructor
    · rw [← hblock, hblockstamp, List.length_take_of_le hlen]
      exact hword hsize
    · rw [← hwot, readLinks_eq_ok hlinks, addChunks_size,
        readStates_eq (by rw [hstatesLen]; exact le_eight_mul_nodesStatesSize _)]
      change (flagsRead states (readBigEndian countBytes) maxLinks).size < _
      rw [flagsRead_size]
      exact hword hcount

/-- Reading what was written, when the sizes fit in their fields. -/
theorem fromFile_written {data states links : List UInt8} {maxLinks nodesCount : Nat}
    (hdata : data.length < 4294967296) (hcount : nodesCount < 4294967296) :
    fromFile (writeU32 data.length ++ data ++ writeU32 nodesCount ++ states ++ links) maxLinks =
      if nodesStatesSize nodesCount ≤ (states ++ links).length then do
        let wot ← readLinks
          (readStates nodesCount ((states ++ links).take (nodesStatesSize nodesCount)) maxLinks)
          ((states ++ links).drop (nodesStatesSize nodesCount))
        return (wot, data)
      else fatalError "`at` out of bounds" := by
  have hword : ∀ {n : Nat}, n < 4294967296 →
      (writeU32 n).length = 4 ∧ readBigEndian (writeU32 n) = n := by
    intro n hn
    rw [writeU32, Nat.mod_eq_of_lt hn]
    exact ⟨bigEndian_length 4 n, readBigEndian_bigEndian_of_lt hn⟩
  simp only [List.append_assoc]
  rw [fromFile, splitOff_append (hword hdata).1, ok_bind]
  simp only [(hword hdata).2, splitOff_append rfl, ok_bind, splitOff_append (hword hcount).1,
    (hword hcount).2]
  change (splitOff (states ++ links) (nodesStatesSize nodesCount) >>= _) = _
  rw [splitOff]
  split
  case isTrue hle =>
    rw [List.splitAt_eq]
    change (if _ then _ else _) = _
    rw [if_neg]
    rw [List.length_drop]
    simp only [List.length_append] at hle ⊢
    rw [(hword hdata).1, (hword hcount).1]
    omega
  case isFalse => rfl

/-- A written file, its sections in order. -/
theorem toFile_eq_ok {data file : List UInt8} (hsize : wot.size < 4294967296)
    (h : wot.toFile data = .ok (.ok file)) :
    ∃ states links, wot.writeStates wot.size = .ok states ∧
      wot.writeLinks wot.size = .ok links ∧
      file = writeU32 data.length ++ data ++ writeU32 wot.size ++ states ++ links := by
  rw [toFile, Nat.mod_eq_of_lt hsize] at h
  cases hstates : wot.writeStates wot.size with
  | error err =>
      rw [hstates] at h
      cases h
  | ok states =>
      rw [hstates] at h
      rcases bind_eq_ok_iff.1 h with ⟨links, hlinks, h⟩
      exact ⟨states, links, rfl, hlinks, (Except.ok.inj (pure_eq_ok_iff.1 h)).symm⟩

section Sections

variable {states links : List UInt8}

/-- Where the reader splits the flags from the links: after the flags, before the byte too many
when there are eight nodes to every byte, after the first count when seven are left over. -/
theorem drop_written
    (hlen : states.length = wot.size / 8 + (if wot.size % 8 ≠ 7 then 1 else 0))
    (hlast : wot.size % 8 = 0 → states.drop (wot.size / 8) = [0]) :
    (states ++ links).drop (nodesStatesSize wot.size) =
      if wot.size % 8 = 0 then 0 :: links else if wot.size % 8 = 7 then links.tail else links := by
  rw [nodesStatesSize]
  by_cases hzero : wot.size % 8 = 0
  · have hle : wot.size / 8 ≤ states.length := by omega
    rw [if_pos hzero, if_pos hzero, List.drop_append_of_le_length hle, hlast hzero]
    rfl
  · rw [if_neg hzero, if_neg hzero]
    by_cases hseven : wot.size % 8 = 7
    · have hstates : states.length = wot.size / 8 := by
        rwa [if_neg (not_not.2 hseven)] at hlen
      rw [if_pos hseven, ← hstates, List.drop_append, List.drop_of_length_le (Nat.le_succ _),
        Nat.add_sub_cancel_left, List.nil_append, List.drop_one]
    · have hstates : states.length = wot.size / 8 + 1 := by rwa [if_pos hseven] at hlen
      rw [if_neg hseven, ← hstates, List.drop_left]

/-- The flags taken are those written, as far as they were written. -/
theorem flagAt_written (n : Nat) (hn : n < wot.size) :
    flagAt ((states ++ links).take (nodesStatesSize wot.size)) n =
      if n / 8 < states.length then flagAt states n
      else bitAt (links.getD (n / 8 - states.length) 0) (n % 8) := by
  have hdiv : n / 8 < nodesStatesSize wot.size := by
    rw [nodesStatesSize]
    split <;> omega
  rw [flagAt, List.getD_eq_getElem?_getD, List.getElem?_take_of_lt hdiv]
  split
  case isTrue hlt =>
    rw [List.getElem?_append_left hlt, flagAt, List.getD_eq_getElem?_getD]
  case isFalse hge =>
    rw [List.getElem?_append_right (Nat.le_of_not_lt hge), List.getD_eq_getElem?_getD]

end Sections

/-- Zeros add no link. -/
theorem readLinks_replicate (wot : WebOfTrust) (n : Nat) :
    readLinks wot (List.replicate n 0) = .ok wot := by
  have hfold : ∀ n target, ∃ target', (List.replicate n 0).foldl readLinkByte
      { wot, buffer3b := [], countBytes := 0, remainingLinks := 0, target } =
        { wot, buffer3b := [], countBytes := 0, remainingLinks := 0, target := target' } := by
    intro n
    induction n with
    | zero => exact fun target => ⟨target, rfl⟩
    | succ n ih => exact fun target => ih ((target + 1) % 4294967296)
  rcases hfold n 0 with ⟨target', h⟩
  simp only [readLinks, h]
  rfl

/-- A written section adds the links of its nodes. -/
theorem readLinks_linkBytes (wot : WebOfTrust) {nodes : List WotNode}
    (hlen : ∀ node ∈ nodes, node.linksSource.len ≤ 255)
    (hfit : ∀ node ∈ nodes, ∀ source ∈ node.linksSource, source < 16777216) :
    readLinks wot (linkBytes nodes) =
      .ok (wot.addChunks 0 (nodes.map fun node => node.linksSource.iter)) := by
  rcases foldl_readLinkByte_linkBytes hlen hfit wot 0 0 rfl with ⟨count, target, hcount, h⟩
  have hinit : (⟨wot, [], 0, 0, 0⟩ : LinksReader) = ⟨wot, [], 0, .ofNat 0, 0 % 4294967296⟩ := rfl
  rw [readLinks, hinit, h]
  simp only [hcount]
  rfl

/-! ## The round trip -/

/-- Writing a web with a byte string and reading the file gives the same nodes, flags and links
back, and the byte string. -/
def RoundTrip (wot : WebOfTrust) (data : List UInt8) : Prop :=
  ∃ file wot', wot.toFile data = .ok (.ok file) ∧
    fromFile file wot.maxLinks = .ok (wot', data) ∧ wot'.size = wot.size ∧
    (∀ id, wot'.isEnabled id = wot.isEnabled id) ∧
    ∀ source target, wot'.hasLink source target = wot.hasLink source target

/-- The webs that a file can hold.  The sizes fit in their fields, and the sources of the links are
nodes that issue no more links than allowed.  There is no link when the last byte of the flags is
full or lacks one flag, and in the latter case the flags in it are not set. -/
structure FileSafe (wot : WebOfTrust) (data : List UInt8) : Prop where
  dataFits : data.length < 4294967296
  sizeFits : wot.size < 4294967296
  noLink : wot.size % 8 = 0 ∨ wot.size % 8 = 7 → ∀ source target, wot.hasLink source target = false
  lastDisabled : wot.size % 8 = 7 → ∀ id < wot.size, wot.size - 7 ≤ id →
    wot.isEnabled id = some false
  sources : ∀ source target, wot.hasLink source target = true →
    source < wot.size ∧ source < 16777216
  counts : ∀ target, wot.linksCount target ≤ 255
  issued : ∀ source, wot.linksFrom source ≤ wot.maxLinks

theorem linksCount_of_getElem? {id : NodeId} {node : WotNode} (h : wot.nodes[id]? = some node) :
    wot.linksCount id = node.linksSource.len := by
  rw [linksCount, h]

/-- The flags of two webs agree when those of their nodes do. -/
theorem flags_eq_of_lt {wot' : WebOfTrust} (hsize : wot'.size = wot.size)
    (h : ∀ n < wot.size, wot'.flags[n]? = wot.flags[n]?) (id : NodeId) :
    wot'.isEnabled id = wot.isEnabled id := by
  rw [isEnabled_eq, isEnabled_eq]
  rcases Nat.lt_or_ge id wot.size with hlt | hge
  · exact h id hlt
  · rw [List.getElem?_eq_none (by rw [flags_length, hsize]; exact hge),
      List.getElem?_eq_none (by rw [flags_length]; exact hge)]

theorem flagsRead_flags_getElem? {bytes : List UInt8} {count maxLinks n : Nat} (h : n < count) :
    (flagsRead bytes count maxLinks).flags[n]? = some (flagAt bytes n) := by
  rw [flagsRead_flags, List.getElem?_map, List.getElem?_range h]
  rfl

namespace FileSafe

variable {data : List UInt8}

theorem fits (h : FileSafe wot data) {node : WotNode} (hmem : node ∈ wot.nodes) :
    node.linksSource.len ≤ 255 ∧ ∀ source ∈ node.linksSource, source < 16777216 := by
  rcases List.mem_iff_getElem?.1 hmem with ⟨id, hid⟩
  refine ⟨linksCount_of_getElem? hid ▸ h.counts id, fun source hsource => ?_⟩
  exact (h.sources source id (hasLink_iff.2 ⟨node, hid, hsource⟩)).2

/-- Without links, the links section is all zeros. -/
theorem linkBytes_eq (h : FileSafe wot data) (hmod : wot.size % 8 = 0 ∨ wot.size % 8 = 7) :
    linkBytes wot.nodes = List.replicate wot.size 0 := by
  apply linkBytes_of_no_link
  intro node hmem
  rcases List.mem_iff_getElem?.1 hmem with ⟨id, hid⟩
  exact linksSource_len_eq_zero hid fun source => h.noLink hmod source id

/-- The flags are read back. -/
theorem flags_read (h : FileSafe wot data) {states : List UInt8} {maxLinks : Nat}
    (hlen : states.length = wot.size / 8 + (if wot.size % 8 ≠ 7 then 1 else 0))
    (hflag : ∀ n < wot.size, n / 8 < states.length → some (flagAt states n) = wot.flags[n]?)
    (n : Nat) (hn : n < wot.size) :
    (flagsRead ((states ++ linkBytes wot.nodes).take (nodesStatesSize wot.size)) wot.size
      maxLinks).flags[n]? = wot.flags[n]? := by
  rw [flagsRead_flags_getElem? hn, flagAt_written n hn]
  split
  case isTrue hlt => exact hflag n hn hlt
  case isFalse hge =>
    have hseven : wot.size % 8 = 7 := by
      by_contra hne
      rw [if_pos hne] at hlen
      omega
    have hlate : wot.size - 7 ≤ n := by omega
    have hzero : (linkBytes wot.nodes).getD (n / 8 - states.length) 0 = 0 := by
      rw [h.linkBytes_eq (.inr hseven), List.getD_eq_getElem?_getD, List.getElem?_replicate]
      split <;> rfl
    rw [hzero, bitAt_zero_byte (Nat.mod_lt _ (by decide)), ← isEnabled_eq,
      h.lastDisabled hseven n hn hlate]

/-- The links are read back. -/
theorem links_read (h : FileSafe wot data) (hself : ∀ id, wot.hasLink id id = false)
    (bytes : List UInt8) :
    ∃ wot', readLinks (flagsRead bytes wot.size wot.maxLinks)
        (if wot.size % 8 = 0 then 0 :: linkBytes wot.nodes
          else if wot.size % 8 = 7 then (linkBytes wot.nodes).tail else linkBytes wot.nodes) =
          .ok wot' ∧
      wot'.flags = (flagsRead bytes wot.size wot.maxLinks).flags ∧
      ∀ source target, wot'.hasLink source target = wot.hasLink source target := by
  by_cases hmod : wot.size % 8 = 0 ∨ wot.size % 8 = 7
  · have hnone : ∀ source target, (flagsRead bytes wot.size wot.maxLinks).hasLink source target =
        wot.hasLink source target := by
      intro source target
      rw [flagsRead_hasLink, h.noLink hmod source target]
    refine ⟨_, ?_, rfl, hnone⟩
    rw [h.linkBytes_eq hmod]
    rcases hmod with hzero | hseven
    · rw [if_pos hzero]
      exact readLinks_replicate _ (wot.size + 1)
    · rw [if_neg (by omega), if_pos hseven, List.tail_replicate]
      exact readLinks_replicate _ _
  · rw [if_neg fun hzero => hmod (.inl hzero), if_neg fun hseven => hmod (.inr hseven)]
    have hnew : ∀ source target,
        (flagsRead bytes wot.size wot.maxLinks).hasLink source target ≠ true := by
      intro source target
      rw [flagsRead_hasLink]
      exact Bool.false_ne_true
    have hpart : PartOf (flagsRead bytes wot.size wot.maxLinks) wot :=
      ⟨flagsRead_wotInv, flagsRead_size, rfl, fun source target hlink =>
        absurd hlink (hnew source target)⟩
    have hlinkable : Linkable wot :=
      ⟨hself, fun source target hlink => (h.sources source target hlink).1, h.issued⟩
    have hall := PartOf.addChunks hlinkable h.sizeFits List.drop_zero hpart
      fun source target hlink => absurd hlink (hnew source target)
    refine ⟨_, readLinks_linkBytes _ (fun node hmem => (h.fits hmem).1)
      (fun node hmem => (h.fits hmem).2), addChunks_flags .., fun source target => ?_⟩
    rw [Bool.eq_iff_iff, hall]
    simp [hnew]

/-- A web that a file can hold comes back. -/
theorem roundTrip (h : FileSafe wot data) (hself : ∀ id, wot.hasLink id id = false) :
    RoundTrip wot data := by
  rcases writeStates_ok wot with ⟨states, hstates, hlen, hlast, hflag⟩
  have hlinks := writeLinks_ok fun source target hlink => (h.sources source target hlink).2
  have hfits : nodesStatesSize wot.size ≤ (states ++ linkBytes wot.nodes).length := by
    have hnodes : wot.nodes.length = wot.size := rfl
    rw [List.length_append, hlen, linkBytes_length, hnodes, nodesStatesSize]
    split <;> split <;> omega
  rcases h.links_read hself
      ((states ++ linkBytes wot.nodes).take (nodesStatesSize wot.size)) with
    ⟨wot', hread, hflags, hlinks'⟩
  have hsize : wot'.size = wot.size := by
    rw [← flags_length, hflags, flags_length, flagsRead_size]
  refine ⟨writeU32 data.length ++ data ++ writeU32 wot.size ++ states ++ linkBytes wot.nodes, wot',
    ?_, ?_, hsize, flags_eq_of_lt hsize fun n hn => ?_, hlinks'⟩
  · rw [toFile, Nat.mod_eq_of_lt h.sizeFits, hstates]
    simp only [hlinks, ok_bind]
    rfl
  · have htaken : ((states ++ linkBytes wot.nodes).take (nodesStatesSize wot.size)).length =
        nodesStatesSize wot.size := List.length_take_of_le hfits
    rw [fromFile_written h.dataFits h.sizeFits, if_pos hfits,
      readStates_eq (by rw [htaken]; exact le_eight_mul_nodesStatesSize _),
      drop_written hlen hlast]
    change (readLinks (flagsRead _ _ _) _ >>= _) = _
    rw [hread]
    rfl
  · rw [hflags]
    exact h.flags_read hlen hflag n hn

end FileSafe

/-! ## What comes back fits -/

theorem LinksBound.linksFrom_le (h : LinksBound wot) (source : NodeId) :
    wot.linksFrom source ≤ wot.maxLinks := by
  rcases Nat.lt_or_ge source wot.size with hlt | hge
  · rcases exists_node hlt with ⟨node, hnode⟩
    exact Nat.le_trans (h.issued source node hnode) (h.bounded source node hnode)
  · have hzero : wot.linksFrom source = 0 := by
      apply linksFrom_eq_zero_iff.2
      intro target
      refine Bool.eq_false_iff.2 fun hlink => ?_
      exact absurd (h.known source target hlink) (Nat.not_lt_of_le hge)
    rw [hzero]
    exact Nat.zero_le _

/-- A chunk holds no more sources than a byte can count. -/
theorem length_le_of_mem_chunks (bytes : List UInt8) :
    ∀ sources ∈ chunks bytes, sources.length ≤ 255 := by
  induction bytes using chunks.induct with
  | case1 =>
      intro sources hmem
      rw [chunks_nil] at hmem
      cases hmem
  | case2 count rest ih =>
      intro sources hmem
      rw [chunks_cons] at hmem
      rcases List.mem_cons.1 hmem with rfl | hmem
      · have hlt := count.toNat_lt
        have htake := List.length_take_le (3 * count.toNat) rest
        rw [length_triples]
        omega
      · exact ih sources hmem

/-- Two webs of one size with the same links have as many of them. -/
theorem totalLinks_eq {wot' : WebOfTrust} (hsize : wot'.size = wot.size)
    (h : ∀ source target, wot'.hasLink source target = wot.hasLink source target) :
    wot'.totalLinks = wot.totalLinks := by
  rw [totalLinks, totalLinks]
  congr 1
  apply List.ext_getElem?
  intro id
  rw [List.getElem?_map, List.getElem?_map]
  rcases Nat.lt_or_ge id wot.size with hlt | hge
  · rcases exists_node hlt with ⟨node, hnode⟩
    rcases exists_node (hsize ▸ hlt) with ⟨node', hnode'⟩
    have hlen : node'.linksSource.len = node.linksSource.len := by
      apply HashSet.len_eq_of_forall_mem_iff
      intro source
      have hlink := h source id
      rw [Bool.eq_iff_iff, hasLink_iff, hasLink_iff, hnode, hnode'] at hlink
      simpa using hlink
    rw [hnode, hnode', Option.map_some, Option.map_some, hlen]
  · rw [List.getElem?_eq_none hge, List.getElem?_eq_none (hsize.symm ▸ hge : wot'.size ≤ id)]

/-- When a section gives all the links of a web, each link is in the chunk of its target: the
section is too short to go around the 32-bit targets. -/
theorem foundIn_of_hasLink {bytes taken : List UInt8} {maxLinks : Nat}
    (hsize : wot.size < 4294967296)
    (hlen : bytes.length ≤ wot.size + 3 * wot.totalLinks + 1)
    (h : ∀ source target,
      ((flagsRead taken wot.size maxLinks).addChunks 0 (chunks bytes)).hasLink source target =
        wot.hasLink source target) :
    FoundIn wot bytes := by
  have htotal : wot.totalLinks ≤ ((chunks bytes).map List.length).sum := by
    rw [← totalLinks_eq ((addChunks_size ..).trans flagsRead_size) h]
    have hle := totalLinks_addChunks_le (chunks bytes) (flagsRead taken wot.size maxLinks) 0
    rwa [flagsRead_totalLinks, Nat.zero_add] at hle
  have hcount : (chunks bytes).length ≤ 4294967296 := by
    have hle := chunks_length_le bytes
    omega
  intro source target hlink
  rw [← h source target] at hlink
  rcases hasLink_addChunks hlink with hlink | ⟨i, sources, hget, hmem, htarget⟩
  · rw [flagsRead_hasLink] at hlink
    cases hlink
  · have hi : i < (chunks bytes).length := (List.getElem?_eq_some_iff.1 hget).1
    have hmod : (0 + i) % 4294967296 = i := by
      rw [Nat.zero_add]
      exact Nat.mod_eq_of_lt (Nat.lt_of_lt_of_le hi hcount)
    rw [hmod] at htarget
    exact ⟨sources, htarget ▸ hget, hmem⟩

/-- A node whose sources are found has no more of them than a byte can count. -/
theorem FoundIn.linksCount_le {bytes : List UInt8} (h : FoundIn wot bytes) (target : NodeId) :
    wot.linksCount target ≤ 255 := by
  rw [linksCount]
  cases hnode : wot.nodes[target]? with
  | none => exact Nat.zero_le _
  | some node =>
      cases hsources : node.linksSource.iter with
      | nil =>
          change node.linksSource.iter.length ≤ 255
          rw [hsources]
          exact Nat.zero_le _
      | cons first rest =>
          have hfirst : first ∈ node.linksSource := by
            rw [← HashSet.mem_iter, hsources]
            exact List.mem_cons_self
          rcases h first target (hasLink_iff.2 ⟨node, hnode, hfirst⟩) with ⟨chunk, hget, -⟩
          have hsub : node.linksSource.iter ⊆ chunk := by
            intro source hmem
            rcases h source target (hasLink_iff.2 ⟨node, hnode, hmem⟩) with ⟨chunk', hget', hin⟩
            rw [hget] at hget'
            obtain rfl := Option.some.inj hget'
            exact hin
          exact Nat.le_trans ((HashSet.nodup_iter _).length_le_of_subset hsub)
            (length_le_of_mem_chunks bytes chunk (List.mem_of_getElem? hget))

/-- A web that comes back is one that a file can hold. -/
theorem RoundTrip.fileSafe {data : List UInt8} (h : RoundTrip wot data) : FileSafe wot data := by
  rcases h with ⟨file, wot', hto, hfrom, hsize, hflags, hlinks⟩
  rcases fromFile_eq_ok hfrom with ⟨hdata, hwot'⟩
  have hwot : wot.size < 4294967296 := hsize ▸ hwot'
  rcases toFile_eq_ok hwot hto with ⟨states, links, hstates, hwritten, rfl⟩
  rw [fromFile_written hdata hwot] at hfrom
  split at hfrom
  case isFalse => exact absurd hfrom fatalError_ne_ok
  case isTrue hfits =>
    rcases writeStates_ok wot with ⟨states', hstates', hlen, hlast, hflag⟩
    obtain rfl := Except.ok.inj (hstates.symm.trans hstates')
    rcases bind_eq_ok_iff.1 hfrom with ⟨wot'', hread, heq⟩
    obtain rfl := (Prod.mk.inj (pure_eq_ok_iff.1 heq)).1
    have htaken : ((states ++ links).take (nodesStatesSize wot.size)).length =
        nodesStatesSize wot.size := List.length_take_of_le hfits
    rw [readStates_eq (by rw [htaken]; exact le_eight_mul_nodesStatesSize _)] at hread
    change readLinks (flagsRead _ _ _) _ = _ at hread
    -- the web read obeys the bound on links, so the sources are nodes and fit on three bytes
    have hread' := readLinks_eq_ok hread
    have hbound : LinksBound wot'' := by
      rw [hread']
      exact addChunks_preserves (fun _ source target h => h.addLink source target) _ _ _
        flagsRead_linksBound
    have hmax : wot''.maxLinks = wot.maxLinks := by
      rw [hread', addChunks_maxLinks]
      rfl
    have hknown : ∀ source target, wot.hasLink source target = true →
        source < wot.size ∧ source < 16777216 := by
      intro source target hlink
      have hlt : source < wot.size := hsize ▸ hbound.known source target (hlinks .. ▸ hlink)
      have hfit := lt_of_writeLinks hwritten hlink
      rw [Nat.mod_eq_of_lt (Nat.lt_trans hlt hwot)] at hfit
      exact ⟨hlt, hfit⟩
    have hissued : ∀ source, wot.linksFrom source ≤ wot.maxLinks := by
      intro source
      rw [← hmax]
      apply Nat.le_trans _ (hbound.linksFrom_le source)
      exact linksFrom_le_of_hasLink hsize fun target hlink => (hlinks source target).trans hlink
    -- so the section holds the links of every node, wherever its reading starts
    have hsection : links = linkBytes wot.nodes := Except.ok.inj (hwritten.symm.trans
      (writeLinks_ok fun source target hlink => (hknown source target hlink).2))
    have hsectionLen : links.length = wot.size + 3 * wot.totalLinks := by
      rw [hsection]
      exact linkBytes_length wot.nodes
    rw [hread', drop_written hlen hlast] at hlinks
    have hfound : FoundIn wot (if wot.size % 8 = 0 then 0 :: links
        else if wot.size % 8 = 7 then links.tail else links) := by
      apply foundIn_of_hasLink hwot _ hlinks
      split
      case isTrue => rw [List.length_cons, hsectionLen]
      case isFalse =>
        split
        case isTrue =>
          rw [List.length_tail]
          omega
        case isFalse => omega
    have hcounts : ∀ target, wot.linksCount target ≤ 255 := hfound.linksCount_le
    have hnone : wot.size % 8 = 0 ∨ wot.size % 8 = 7 →
        ∀ source target, wot.hasLink source target = false := by
      rintro (hzero | hseven) source target
      · rw [if_pos hzero, hsection] at hfound
        exact no_link_of_extra_byte hfound target source
      · rw [if_neg (by omega), if_pos hseven, hsection] at hfound
        refine no_link_of_dropped_byte ?_ (fun s t hlink => (hknown s t hlink).2) hfound target
          source
        intro node hmem
        rcases List.mem_iff_getElem?.1 hmem with ⟨id, hid⟩
        exact linksCount_of_getElem? hid ▸ hcounts id
    refine ⟨hdata, hwot, hnone, fun hseven id hid hlate => ?_, hknown, hcounts, hissued⟩
    -- the flags of the last seven nodes were read from the count of the first node, a zero
    have hstatesLen : states.length = wot.size / 8 := by
      rwa [if_neg (not_not.2 hseven)] at hlen
    have hlinksZero : links = List.replicate wot.size 0 := by
      rw [hsection]
      apply linkBytes_of_no_link
      intro node hmem
      rcases List.mem_iff_getElem?.1 hmem with ⟨id, hid⟩
      exact linksSource_len_eq_zero hid fun source => hnone (.inr hseven) source id
    have hpast : ¬ id / 8 < states.length := by omega
    have hbyte : links.getD (id / 8 - states.length) 0 = 0 := by
      rw [hlinksZero, List.getD_eq_getElem?_getD, List.getElem?_replicate]
      split <;> rfl
    rw [← hflags id, isEnabled_eq, hread', addChunks_flags, flagsRead_flags_getElem? hid,
      flagAt_written id hid, if_neg hpast, hbyte, bitAt_zero_byte (Nat.mod_lt _ (by decide))]

/-! ## No node links to itself -/

/-- The calls that change a web of trust. -/
inductive WotCall
  | operation (op : WotOp)
  | setMaxLink (maxLinks : Nat)
deriving DecidableEq, Repr

/-- Answer a call. -/
def WotCall.apply (wot : WebOfTrust) : WotCall → WebOfTrust
  | .operation op => op.apply wot
  | .setMaxLink maxLinks => { wot with maxLinks }

/-- The step of a run of calls, none of which fails. -/
def WotCall.step (wot : WebOfTrust) (call : WotCall) : Run WebOfTrust := .ok (call.apply wot)

/-- A change that adds no source keeps a web without self links. -/
theorem noSelfLink_of_forall_mem {wot' : WebOfTrust} (hself : ∀ id, wot.hasLink id id = false)
    (h : ∀ (id : NodeId) (node : WotNode), wot'.nodes[id]? = some node → id ∈ node.linksSource →
      ∃ old, wot.nodes[id]? = some old ∧ id ∈ old.linksSource) (id : NodeId) :
    wot'.hasLink id id = false := by
  refine Bool.eq_false_iff.2 fun hlink => ?_
  rcases hasLink_iff.1 hlink with ⟨node, hnode, hmem⟩
  have hold := hasLink_iff.2 (h id node hnode hmem)
  rw [hself id] at hold
  cases hold

/-- No call links a node to itself. -/
theorem noSelfLink_apply (hself : ∀ id, wot.hasLink id id = false) (call : WotCall) :
    ∀ id, (call.apply wot).hasLink id id = false := by
  match call with
  | .setMaxLink maxLinks => exact hself
  | .operation .addNode =>
      apply noSelfLink_of_forall_mem hself
      intro id node hnode hmem
      change (wot.nodes ++ [WotNode.new])[id]? = some node at hnode
      rw [List.getElem?_append] at hnode
      split at hnode
      case isTrue => exact ⟨node, hnode, hmem⟩
      case isFalse =>
        rw [List.getElem?_singleton] at hnode
        split at hnode
        case isTrue =>
          obtain rfl := Option.some.inj hnode
          exact absurd hmem (HashSet.not_mem_empty _)
        case isFalse => cases hnode
  | .operation .remNode =>
      apply noSelfLink_of_forall_mem hself
      intro id node hnode hmem
      change wot.nodes.dropLast[id]? = some node at hnode
      rw [List.dropLast_eq_take, List.getElem?_take] at hnode
      split at hnode
      case isTrue => exact ⟨node, hnode, hmem⟩
      case isFalse => cases hnode
  | .operation (.setEnabled id' enabled) =>
      apply noSelfLink_of_forall_mem hself
      intro id node hnode hmem
      change (wot.setEnabled id' enabled).nodes[id]? = some node at hnode
      rw [setEnabled, modifyNode_getElem?, Option.map_eq_some_iff] at hnode
      rcases hnode with ⟨old, hold, rfl⟩
      refine ⟨old, hold, ?_⟩
      split at hmem <;> exact hmem
  | .operation (.addLink source target) =>
      change ∀ id, (wot.addLink source target).1.hasLink id id = false
      apply addLink_preserves (P := fun w => ∀ id, w.hasLink id id = false) hself
      intro hcan id
      refine Bool.eq_false_iff.2 fun hlink => ?_
      rcases (hasLink_withLink hcan.2.1 id id).1 hlink with hlink | ⟨rfl, heq⟩
      · rw [hself id] at hlink
        cases hlink
      · exact hcan.1 heq
  | .operation (.remLink source target) =>
      change ∀ id, (wot.remLink source target).1.hasLink id id = false
      rcases remLink_cases wot source target with heq | ⟨-, -, heq⟩
      · rw [heq]
        exact hself
      · rw [heq]
        apply noSelfLink_of_forall_mem hself
        intro id node hnode hmem
        rw [modifyNode_getElem?, modifyNode_getElem?, Option.map_map, Option.map_eq_some_iff] at hnode
        rcases hnode with ⟨old, hold, rfl⟩
        refine ⟨old, hold, ?_⟩
        rw [Function.comp] at hmem
        split at hmem <;> split at hmem
        case isTrue.isTrue => exact ((HashSet.mem_remove _ _ _).1 hmem).2
        case isTrue.isFalse => exact ((HashSet.mem_remove _ _ _).1 hmem).2
        case isFalse.isTrue => exact hmem
        case isFalse.isFalse => exact hmem

/-- Of the webs that calls reach, those that come back from a file are those that a file can
hold. -/
theorem roundTrip_iff_of_reached {maxLinks : Nat}
    (h : Reached (WebOfTrust.new maxLinks) WotCall.step (fun _ _ => True) wot)
    (data : List UInt8) : RoundTrip wot data ↔ FileSafe wot data := by
  have hself : ∀ id, wot.hasLink id id = false := by
    apply h.invariant
    · intro id
      rfl
    · intro wot call wot' hself _ hrun
      obtain rfl := Except.ok.inj hrun
      exact noSelfLink_apply hself call
  exact ⟨RoundTrip.fileSafe, fun hsafe => hsafe.roundTrip hself⟩

/-- Three nodes, one of them disabled, and links between the others. -/
def linkedCalls : List WotCall :=
  [.operation .addNode, .operation .addNode, .operation .addNode, .operation (.setEnabled 1 false), .operation (.addLink 0 2),
    .operation (.addLink 2 0), .setMaxLink 3]

theorem roundTrip_iff_linkedCalls :
    ∃ wot, linkedCalls.foldlM WotCall.step (WebOfTrust.new 2) = .ok wot ∧
      (RoundTrip wot [53, 45, 65] ↔ FileSafe wot [53, 45, 65]) := by
  have hsome : (guardedRun WotCall.step (fun _ _ => True) linkedCalls
      (WebOfTrust.new 2)).isSome := by decide
  rcases Option.isSome_iff_exists.1 hsome with ⟨wot, hrun⟩
  exact ⟨wot, foldlM_of_guardedRun hrun, roundTrip_iff_of_reached (.of_guardedRun .init hrun) _⟩

/-- Seven enabled nodes: their flags are not written. -/
def sevenNodesCalls : List WotCall := List.replicate 7 (.operation .addNode)

theorem not_roundTrip_sevenNodesCalls :
    ∃ wot, sevenNodesCalls.foldlM WotCall.step (WebOfTrust.new 2) = .ok wot ∧
      ¬ RoundTrip wot [] := by
  refine ⟨_, rfl, ?_⟩
  rintro ⟨file, wot', hto, hfrom, -, hflags, -⟩
  obtain rfl := Except.ok.inj (Except.ok.inj hto)
  obtain rfl := (Prod.mk.inj (Except.ok.inj hfrom)).1
  exact absurd (hflags 0) (by decide)

end WebOfTrust

end Durs
