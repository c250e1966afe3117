/-
# Which blocks can be applied

The application of a block to the graph refuses an exclusion, a revocation or a certification of an
unknown key, but stops the process on a renewal of an unknown key and on a link that the graph does
not take.  So a block can be applied, or is refused, exactly when it has none of the latter before
the first of the former.
-/

import Durs.Blockchain.ModuleSteps
import Durs.Wot.Links

namespace Durs

open RustStd

/-! ## Computations that do not stop the process -/

/-- Whether an end is that of the process. -/
def ApplyEnd.Stops : ApplyEnd → Prop
  | .abort _ => True
  | .refused _ _ => False

theorem stops_abort (reason : Abort) : (ApplyEnd.abort reason).Stops := trivial

theorem not_stops_refused (error : ApplyValidBlockError) (memory : WotMemory) :
    ¬ (ApplyEnd.refused error memory).Stops := id

/-- The application of a part of a block ends, or refuses the block. -/
def NotAborted {α : Type} (x : Applying α) : Prop := ∀ ending, x = .error ending → ¬ ending.Stops

section NotAborted

variable {α β : Type}

theorem notAborted_ok (a : α) : NotAborted (.ok a : Applying α) := fun _ h => by cases h

theorem notAborted_error_iff {ending : ApplyEnd} :
    NotAborted (.error ending : Applying α) ↔ ¬ ending.Stops := by
  constructor
  · exact fun h => h ending rfl
  · intro h ending' heq
    obtain rfl := Except.error.inj heq
    exact h

end NotAborted

/-! ## The graph before the certifications -/

namespace WotMemory

/-- Give a new identity its node. -/
def withNewcomer (memory : WotMemory) (newcomer : MembershipDocument) : WotMemory where
  wotIndex := memory.wotIndex.insert newcomer.issuer memory.wotDb.size
  wotDb := memory.wotDb.addNode

/-- The graph and its index with the new identities of a block. -/
def withNewcomers (memory : WotMemory) (block : BlockDocument) : WotMemory :=
  (block.joiners.filter fun ms => block.newIdentities.containsKey ms.issuer).foldl withNewcomer
    memory

/-- Whether both keys of a certification have a node. -/
def knows (memory : WotMemory) (certification : CompactCertificationDocument) : Bool :=
  memory.wotIndex.containsKey certification.issuer &&
    memory.wotIndex.containsKey certification.target

/-- The number of certifications that a node issues, among some. -/
def issuedAmong (memory : WotMemory) (source : NodeId)
    (certifications : List CompactCertificationDocument) : Nat :=
  certifications.countP fun certification =>
    memory.wotIndex.get? certification.issuer = some source

/-- A certification can be linked after some others: its keys have two different nodes of the graph,
and the issuer has not issued all its links. -/
def CertLinkable (memory : WotMemory) (before : List CompactCertificationDocument)
    (certification : CompactCertificationDocument) : Prop :=
  ∀ source target, memory.wotIndex.get? certification.issuer = some source →
    memory.wotIndex.get? certification.target = some target →
    source ≠ target ∧ target < memory.wotDb.size ∧
      ∃ issued, memory.wotDb.issuedCount source = some issued ∧
        issued + memory.issuedAmong source before < memory.wotDb.maxLinks

/-- Two memories of one index, the nodes of which have issued as many links. -/
structure SameCounts (memory memory' : WotMemory) : Prop where
  index : memory'.wotIndex = memory.wotIndex
  size : memory'.wotDb.size = memory.wotDb.size
  maxLinks : memory'.wotDb.maxLinks = memory.wotDb.maxLinks
  issued : ∀ id, memory'.wotDb.issuedCount id = memory.wotDb.issuedCount id

variable {memory memory' : WotMemory}

theorem SameCounts.refl (memory : WotMemory) : SameCounts memory memory :=
  ⟨rfl, rfl, rfl, fun _ => rfl⟩

/-- Changing an enabled flag changes neither the index nor the links issued. -/
theorem SameCounts.setEnabled {s : ApplyState} (h : SameCounts memory s.memory) (wotId : NodeId)
    (enabled : Bool) (request : WotsDBsWriteQuery) :
    SameCounts memory (s.setEnabled wotId enabled request).memory where
  index := h.index
  size := (WebOfTrust.modifyNode_size ..).trans h.size
  maxLinks := h.maxLinks
  issued id := by
    rw [← h.issued id]
    change ((s.memory.wotDb.modifyNode wotId _).nodes[id]?).map _ = _
    rw [WebOfTrust.modifyNode_getElem?, WebOfTrust.issuedCount]
    cases s.memory.wotDb.nodes[id]? with
    | none => rfl
    | some node =>
        by_cases hid : wotId = id
        · simp [hid]
        · simp [hid]

/-- The same newcomer gets the same node in both memories. -/
theorem SameCounts.withNewcomer (h : SameCounts memory memory') (newcomer : MembershipDocument) :
    SameCounts (memory.withNewcomer newcomer) (memory'.withNewcomer newcomer) where
  index := by
    change memory'.wotIndex.insert _ _ = memory.wotIndex.insert _ _
    rw [h.index, h.size]
  size := by
    change (memory'.wotDb.nodes ++ [WotNode.new]).length =
      (memory.wotDb.nodes ++ [WotNode.new]).length
    rw [List.length_append, List.length_append]
    exact congrArg (· + 1) h.size
  maxLinks := h.maxLinks
  issued id := by
    have hsize : memory'.wotDb.nodes.length = memory.wotDb.nodes.length := h.size
    have hissued := h.issued id
    change ((memory'.wotDb.nodes ++ [WotNode.new])[id]?).map _ =
      ((memory.wotDb.nodes ++ [WotNode.new])[id]?).map _
    rw [List.getElem?_append, List.getElem?_append, hsize]
    split
    case isTrue => exact hissued
    case isFalse => rfl

end WotMemory

/-! ## Applying a part of a block -/

open WotMemory

variable {C : Crypto} {block : BlockDocument} {memory : WotMemory} {s s' : ApplyState}
  {blockstamp : Blockstamp}

/-- Whether a membership is that of a new identity or of a key that has a node. -/
def BlockDocument.IsNewOrKnown (block : BlockDocument) (memory : WotMemory)
    (ms : MembershipDocument) : Prop :=
  block.newIdentities.containsKey ms.issuer = true ∨
    memory.wotIndex.containsKey ms.issuer = true

theorem ApplyState.index_of_get? {pubkey : PubKey} {wotId : NodeId}
    (h : s.memory.wotIndex.get? pubkey = some wotId) : s.index pubkey = .ok wotId := by
  rw [ApplyState.index, h]
  rfl

theorem ApplyState.index_of_not_containsKey {pubkey : PubKey}
    (h : ¬ s.memory.wotIndex.containsKey pubkey = true) :
    s.index pubkey = .error (.abort (.fatal "no entry found for key")) := by
  rw [ApplyState.index,
    (HashMap.containsKey_eq_false_iff _ _).1 (Bool.eq_false_iff.2 h)]
  rfl

/-- A loop over keys, each step of which is taken or ends the application. -/
theorem foldlM_of_cases {α : Type} {step : ApplyState → α → Applying ApplyState} {good : α → Prop}
    {Ends : ApplyEnd → Prop}
    (hcases : ∀ s, SameCounts memory s.memory → ∀ a,
      (good a ∧ ∃ s', step s a = .ok s' ∧ SameCounts memory s'.memory) ∨
      (¬ good a ∧ ∃ ending, Ends ending ∧ step s a = .error ending))
    {l : List α} (hsame : SameCounts memory s.memory) :
    ((∀ a ∈ l, good a) ∧ ∃ s', l.foldlM step s = .ok s' ∧ SameCounts memory s'.memory) ∨
    ((¬ ∀ a ∈ l, good a) ∧ ∃ ending, Ends ending ∧ l.foldlM step s = .error ending) := by
  induction l generalizing s with
  | nil => exact Or.inl ⟨List.forall_mem_nil _, s, rfl, hsame⟩
  | cons a l ih =>
      rw [List.foldlM_cons, List.forall_mem_cons]
      rcases hcases s hsame a with ⟨hgood, mid, hstep, hmid⟩ | ⟨hbad, ending, hends, hstep⟩
      · rw [hstep, ok_bind]
        rcases ih hmid with ⟨hall, hrun⟩ | ⟨hnot, hrun⟩
        · exact Or.inl ⟨⟨hgood, hall⟩, hrun⟩
        · exact Or.inr ⟨fun h => hnot h.2, hrun⟩
      · rw [hstep, error_bind]
        exact Or.inr ⟨fun h => hbad h.1, ending, hends, rfl⟩

/-- A newcomer gets a node. -/
theorem applyJoiner_newcomer (hsame : SameCounts memory s.memory) {joiner : MembershipDocument}
    (hnew : block.newIdentities.containsKey joiner.issuer = true) :
    ∃ s', applyJoiner block blockstamp s joiner = .ok s' ∧
      SameCounts (memory.withNewcomer joiner) s'.memory := by
  rcases (HashMap.containsKey_iff _ _).1 hnew with ⟨idtyDoc, hget⟩
  have hrun : ∃ requests, applyJoiner block blockstamp s joiner =
      .ok ⟨s.memory.withNewcomer joiner, requests⟩ := by
    rw [applyJoiner, hget]
    exact ⟨_, rfl⟩
  rcases hrun with ⟨requests, hrun⟩
  exact ⟨_, hrun, hsame.withNewcomer joiner⟩

/-- Another joiner is enabled when the key has a node, and stops the process when it has none. -/
theorem applyJoiner_renewer (blockstamp : Blockstamp) (hsame : SameCounts memory s.memory)
    {joiner : MembershipDocument}
    (hnew : block.newIdentities.containsKey joiner.issuer = false) :
    (memory.wotIndex.containsKey joiner.issuer = true ∧
      ∃ s', applyJoiner block blockstamp s joiner = .ok s' ∧ SameCounts memory s'.memory) ∨
    (¬ memory.wotIndex.containsKey joiner.issuer = true ∧
      ∃ ending, ending.Stops ∧ applyJoiner block blockstamp s joiner = .error ending) := by
  rw [applyJoiner, (HashMap.containsKey_eq_false_iff _ _).1 hnew]
  simp only
  by_cases hknown : memory.wotIndex.containsKey joiner.issuer = true
  · rcases (HashMap.containsKey_iff _ _).1 hknown with ⟨wotId, hget⟩
    rw [ApplyState.index_of_get? (hsame.index ▸ hget), ok_bind]
    exact Or.inl ⟨hknown, _, rfl, hsame.setEnabled wotId true _⟩
  · rw [ApplyState.index_of_not_containsKey (hsame.index ▸ hknown), error_bind]
    exact Or.inr ⟨hknown, _, stops_abort _, rfl⟩

/-- The joiners of a block that are new identities. -/
abbrev newcomersAmong (block : BlockDocument) (joiners : List MembershipDocument) :
    List MembershipDocument :=
  joiners.filter fun ms => block.newIdentities.containsKey ms.issuer

/-- New identities leave it as it is whether a membership is new or known. -/
theorem isNewOrKnown_withNewcomer {joiner : MembershipDocument}
    (h : block.newIdentities.containsKey joiner.issuer = true) (ms : MembershipDocument) :
    block.IsNewOrKnown (memory.withNewcomer joiner) ms ↔ block.IsNewOrKnown memory ms := by
  rw [BlockDocument.IsNewOrKnown, BlockDocument.IsNewOrKnown, withNewcomer,
    HashMap.containsKey_insert_iff]
  constructor
  · rintro (hnew | heq | hknown)
    · exact Or.inl hnew
    · exact Or.inl (heq ▸ h)
    · exact Or.inr hknown
  · rintro (hnew | hknown)
    · exact Or.inl hnew
    · exact Or.inr (Or.inr hknown)

theorem isNewOrKnown_withNewcomers {joiners : List MembershipDocument} (ms : MembershipDocument) :
    ∀ {memory : WotMemory}, block.IsNewOrKnown
      ((newcomersAmong block joiners).foldl withNewcomer memory) ms ↔
        block.IsNewOrKnown memory ms := by
  induction joiners with
  | nil => exact Iff.rfl
  | cons joiner joiners ih =>
      intro memory
      cases hnew : block.newIdentities.containsKey joiner.issuer with
      | true =>
          rw [newcomersAmong, List.filter_cons, hnew]
          exact ih.trans (isNewOrKnown_withNewcomer hnew ms)
      | false =>
          rw [newcomersAmong, List.filter_cons, hnew]
          exact ih

/-- The joiners are applied when each of them is new or known, and else stop the process. -/
theorem foldlM_joiners (blockstamp : Blockstamp) {joiners : List MembershipDocument} :
    ∀ {memory : WotMemory} {s : ApplyState}, SameCounts memory s.memory →
      ((∀ ms ∈ joiners, block.IsNewOrKnown memory ms) ∧
        ∃ s', joiners.foldlM (applyJoiner block blockstamp) s = .ok s' ∧
          SameCounts ((newcomersAmong block joiners).foldl withNewcomer memory) s'.memory) ∨
      ((¬ ∀ ms ∈ joiners, block.IsNewOrKnown memory ms) ∧ ∃ ending, ending.Stops ∧
        joiners.foldlM (applyJoiner block blockstamp) s = .error ending) := by
  induction joiners with
  | nil => exact fun hsame => Or.inl ⟨List.forall_mem_nil _, _, rfl, hsame⟩
  | cons joiner joiners ih =>
      intro memory s hsame
      rw [List.foldlM_cons, List.forall_mem_cons, newcomersAmong, List.filter_cons]
      cases hnew : block.newIdentities.containsKey joiner.issuer with
      | true =>
          have hnewcomer : ∃ s', applyJoiner block blockstamp s joiner = .ok s' ∧
              SameCounts (memory.withNewcomer joiner) s'.memory := applyJoiner_newcomer hsame hnew
          rcases hnewcomer with ⟨mid, hstep, hmid⟩
          rw [hstep, ok_bind]
          have hrest := ih hmid
          simp only [isNewOrKnown_withNewcomer hnew] at hrest
          rcases hrest with ⟨hall, hrun⟩ | ⟨hnot, hrun⟩
          · exact Or.inl ⟨⟨Or.inl hnew, hall⟩, hrun⟩
          · exact Or.inr ⟨fun h => hnot h.2, hrun⟩
      | false =>
          rcases applyJoiner_renewer blockstamp hsame hnew with ⟨hknown, mid, hstep, hmid⟩ |
            ⟨hunknown, ending, hends, hstep⟩
          · rw [hstep, ok_bind]
            rcases ih hmid with ⟨hall, hrun⟩ | ⟨hnot, hrun⟩
            · exact Or.inl ⟨⟨Or.inr hknown, hall⟩, hrun⟩
            · exact Or.inr ⟨fun h => hnot h.2, hrun⟩
          · rw [hstep, error_bind]
            refine Or.inr ⟨?_, ending, hends, rfl⟩
            exact fun h => h.1.elim (Bool.eq_false_iff.1 hnew) hunknown

/-- An active member that is new or known is taken, and another one stops the process. -/
theorem applyActive_cases (block : BlockDocument) (hsame : SameCounts memory s.memory)
    (active : MembershipDocument) :
    (block.IsNewOrKnown memory active ∧
      ∃ s', applyActive block s active = .ok s' ∧ SameCounts memory s'.memory) ∨
    (¬ block.IsNewOrKnown memory active ∧
      ∃ ending, ending.Stops ∧ applyActive block s active = .error ending) := by
  cases hnew : block.newIdentities.containsKey active.issuer with
  | true =>
      rw [applyActive, if_pos hnew]
      exact Or.inl ⟨Or.inl hnew, s, rfl, hsame⟩
  | false =>
      have hnot := Bool.eq_false_iff.1 hnew
      rw [applyActive, if_neg hnot]
      by_cases hknown : memory.wotIndex.containsKey active.issuer = true
      · rcases (HashMap.containsKey_iff _ _).1 hknown with ⟨wotId, hget⟩
        rw [ApplyState.index_of_get? (hsame.index ▸ hget), ok_bind]
        exact Or.inl ⟨Or.inr hknown, _, rfl, hsame.setEnabled wotId true _⟩
      · rw [ApplyState.index_of_not_containsKey (hsame.index ▸ hknown), error_bind]
        exact Or.inr ⟨fun h => h.elim hnot hknown, _, stops_abort _, rfl⟩

/-- An exclusion disables the node of a known key, and refuses the block for another one. -/
theorem applyExclusion_cases (blockstamp : Blockstamp) (hsame : SameCounts memory s.memory)
    (exclusion : PubKey) :
    (memory.wotIndex.containsKey exclusion = true ∧
      ∃ s', applyExclusion blockstamp s exclusion = .ok s' ∧ SameCounts memory s'.memory) ∨
    (¬ memory.wotIndex.containsKey exclusion = true ∧
      ∃ ending, ¬ ending.Stops ∧ applyExclusion blockstamp s exclusion = .error ending) := by
  rw [applyExclusion, hsame.index]
  cases hget : memory.wotIndex.get? exclusion with
  | some wotId =>
      exact Or.inl ⟨(HashMap.containsKey_iff _ _).2 ⟨wotId, hget⟩, _, rfl,
        hsame.setEnabled wotId false _⟩
  | none =>
      exact Or.inr ⟨Bool.eq_false_iff.1 ((HashMap.containsKey_eq_false_iff _ _).2 hget), _,
        not_stops_refused _ _, rfl⟩

/-- A revocation disables the node of a known key, and refuses the block for another one. -/
theorem applyRevocation_cases (blockstamp : Blockstamp) (hsame : SameCounts memory s.memory)
    (revocation : CompactRevocationDocument) :
    (memory.wotIndex.containsKey revocation.issuer = true ∧
      ∃ s', applyRevocation blockstamp s revocation = .ok s' ∧ SameCounts memory s'.memory) ∨
    (¬ memory.wotIndex.containsKey revocation.issuer = true ∧
      ∃ ending, ¬ ending.Stops ∧ applyRevocation blockstamp s revocation = .error ending) := by
  rw [applyRevocation, hsame.index]
  cases hget : memory.wotIndex.get? revocation.issuer with
  | some wotId =>
      exact Or.inl ⟨(HashMap.containsKey_iff _ _).2 ⟨wotId, hget⟩, _, rfl,
        hsame.setEnabled wotId false _⟩
  | none =>
      exact Or.inr ⟨Bool.eq_false_iff.1 ((HashMap.containsKey_eq_false_iff _ _).2 hget), _,
        not_stops_refused _ _, rfl⟩

/-! ## Certifications -/

/-- A memory from which some certifications have been linked. -/
structure LinkedFrom (memory : WotMemory) (linked : List CompactCertificationDocument)
    (memory' : WotMemory) : Prop where
  index : memory'.wotIndex = memory.wotIndex
  size : memory'.wotDb.size = memory.wotDb.size
  maxLinks : memory'.wotDb.maxLinks = memory.wotDb.maxLinks
  issued : ∀ id, memory'.wotDb.issuedCount id =
    (memory.wotDb.issuedCount id).map (· + memory.issuedAmong id linked)

theorem WotMemory.SameCounts.linkedFrom {memory' : WotMemory} (h : SameCounts memory memory') :
    LinkedFrom memory [] memory' where
  index := h.index
  size := h.size
  maxLinks := h.maxLinks
  issued id := by
    rw [h.issued id]
    exact Option.map_id'.symm

/-- Linking one certification more. -/
theorem LinkedFrom.withLink {linked : List CompactCertificationDocument} {source target : NodeId}
    {certification : CompactCertificationDocument} (h : LinkedFrom memory linked s.memory)
    (hsource : memory.wotIndex.get? certification.issuer = some source) :
    LinkedFrom memory (linked ++ [certification])
      { s.memory with wotDb := s.memory.wotDb.withLink source target } where
  index := h.index
  size := WebOfTrust.withLink_size.trans h.size
  maxLinks := h.maxLinks
  issued id := by
    have hissued := h.issued id
    rw [WebOfTrust.issuedCount] at hissued ⊢
    rw [WebOfTrust.withLink_getElem?, Option.map_map, issuedAmong, List.countP_append,
      List.countP_singleton]
    change (s.memory.wotDb.nodes[id]?).map _ = _
    cases hnode : s.memory.wotDb.nodes[id]? with
    | none =>
        rw [hnode, Option.map_none, eq_comm, Option.map_eq_none_iff] at hissued
        rw [hissued]
        rfl
    | some node =>
        rw [hnode, Option.map_some, eq_comm, Option.map_eq_some_iff] at hissued
        rcases hissued with ⟨issued, hid, hsum⟩
        rw [hid, Option.map_some, Option.map_some, hsource]
        simp only [Function.comp_apply, ← hsum, issuedAmong, Option.some.injEq,
          decide_eq_true_eq, Nat.add_assoc]

/-- A certification whose keys are known is linked, or stops the process; another one refuses the
block. -/
theorem applyCertification_cases (block : BlockDocument)
    {linked : List CompactCertificationDocument}
    (h : LinkedFrom memory linked s.memory) (certification : CompactCertificationDocument) :
    (memory.knows certification = false ∧ ∃ ending, ¬ ending.Stops ∧
      applyCertification block s certification = .error ending) ∨
    (memory.knows certification = true ∧ memory.CertLinkable linked certification ∧
      ∃ s', applyCertification block s certification = .ok s' ∧
        LinkedFrom memory (linked ++ [certification]) s'.memory) ∨
    (memory.knows certification = true ∧ ¬ memory.CertLinkable linked certification ∧
      ∃ ending, ending.Stops ∧ applyCertification block s certification = .error ending) := by
  rw [applyCertification, h.index]
  cases hsource : memory.wotIndex.get? certification.issuer with
  | none =>
      have hnot := (HashMap.containsKey_eq_false_iff _ _).2 hsource
      exact Or.inl ⟨by rw [knows, hnot]; rfl, _, not_stops_refused _ _, rfl⟩
  | some source =>
      cases htarget : memory.wotIndex.get? certification.target with
      | none =>
          have hnot := (HashMap.containsKey_eq_false_iff _ _).2 htarget
          exact Or.inl ⟨by rw [knows, hnot, Bool.and_false], _, not_stops_refused _ _, rfl⟩
      | some target =>
          have hknows : memory.knows certification = true :=
            Bool.and_eq_true_iff.2 ⟨(HashMap.containsKey_iff _ _).2 ⟨source, hsource⟩,
              (HashMap.containsKey_iff _ _).2 ⟨target, htarget⟩⟩
          have hlinkable : memory.CertLinkable linked certification ↔
              s.memory.wotDb.CanLink source target := by
            rw [WebOfTrust.canLink_iff, h.size, h.maxLinks, h.issued]
            simp only [Option.map_eq_some_iff]
            constructor
            · intro hl
              rcases hl source target hsource htarget with ⟨hne, hsize, issued, hissued, hlt⟩
              exact ⟨hne, hsize, _, ⟨issued, hissued, rfl⟩, hlt⟩
            · rintro ⟨hne, hsize, _, ⟨issued, hissued, rfl⟩, hlt⟩ source' target' hs ht
              obtain rfl := Option.some.inj (hsource.symm.trans hs)
              obtain rfl := Option.some.inj (htarget.symm.trans ht)
              exact ⟨hne, hsize, issued, hissued, hlt⟩
          refine Or.inr ?_
          by_cases hcan : s.memory.wotDb.CanLink source target
          · rcases WebOfTrust.addLink_snd_of_canLink hcan with ⟨count, hcount⟩
            have hadd : s.memory.wotDb.addLink source target =
                (s.memory.wotDb.withLink source target, .ok count) :=
              Prod.ext (WebOfTrust.addLink_of_canLink hcan) hcount
            simp only [hadd]
            exact Or.inl ⟨hknows, hlinkable.2 hcan, _, rfl, h.withLink hsource⟩
          · refine Or.inr ⟨hknows, fun hl => hcan (hlinkable.1 hl),
              .abort (.fatal "Fail to add_link \x7b\x7d->\x7b\x7d : \x7b:?\x7d"), trivial, ?_⟩
            have hnot := WebOfTrust.addLink_snd_of_not_canLink hcan
            simp only
            cases hadd : s.memory.wotDb.addLink source target with
            | mk wotDb result =>
                rw [hadd] at hnot
                cases result with
                | ok count => exact absurd rfl (hnot count)
                | _ => rfl

/-- The certifications stop the process exactly when one of them cannot be linked, among those
before the first that refuses the block. -/
theorem notAborted_certifications_iff {certifications : List CompactCertificationDocument} :
    ∀ {linked : List CompactCertificationDocument} {s : ApplyState},
      LinkedFrom memory linked s.memory →
      (NotAborted (certifications.foldlM (applyCertification block) s) ↔
        ∀ before certification after,
          certifications.takeWhile memory.knows = before ++ certification :: after →
          memory.CertLinkable (linked ++ before) certification) := by
  induction certifications with
  | nil =>
      refine fun _ => iff_of_true (notAborted_ok _) fun before certification after h => ?_
      exact absurd h.symm (List.append_ne_nil_of_right_ne_nil _ (List.cons_ne_nil _ _))
  | cons first certifications ih =>
      intro linked s hlinked
      rw [List.foldlM_cons]
      rcases applyCertification_cases block hlinked first with ⟨hnot, ending, hends, hrun⟩ |
        ⟨hknows, hlink, s', hrun, hlinked'⟩ | ⟨hknows, hlink, ending, hends, hrun⟩
      · rw [List.takeWhile_cons_of_neg (Bool.eq_false_iff.1 hnot), hrun, error_bind]
        refine iff_of_true (notAborted_error_iff.2 hends) fun before certification after h => ?_
        exact absurd h.symm (List.append_ne_nil_of_right_ne_nil _ (List.cons_ne_nil _ _))
      · rw [hrun, ok_bind, ih hlinked', List.takeWhile_cons_of_pos hknows]
        constructor
        · intro h before certification after heq
          cases before with
          | nil =>
              rcases List.cons.inj heq with ⟨rfl, -⟩
              rw [List.append_nil]
              exact hlink
          | cons _ before =>
              rcases List.cons.inj heq with ⟨rfl, htail⟩
              rw [List.append_cons]
              exact h before certification after htail
        · intro h before certification after heq
          rw [← List.append_cons]
          refine h (first :: before) certification after ?_
          rw [heq]
          rfl
      · rw [hrun, error_bind]
        refine iff_of_false (fun h => h ending rfl hends) fun h => hlink ?_
        have hfirst := h [] first (certifications.takeWhile memory.knows)
          (List.takeWhile_cons_of_pos hknows)
        rwa [List.append_nil] at hfirst

/-! ## Blocks that can be applied -/

/-- Whether a block can be applied without stopping the process: each membership is that of a new
identity or of a known key, and once no exclusion or revocation refuses the block each certification
can be linked, up to the first of an unknown key. -/
structure Applicable (block : BlockDocument) (memory : WotMemory) : Prop where
  members : ∀ ms ∈ block.joiners ++ block.actives, block.IsNewOrKnown memory ms
  linkable : (∀ pubkey ∈ block.excluded ++ block.revoked.map CompactRevocationDocument.issuer,
      (memory.withNewcomers block).wotIndex.containsKey pubkey = true) →
    ∀ before certification after, block.certifications.takeWhile (memory.withNewcomers block).knows
        = before ++ certification :: after →
      (memory.withNewcomers block).CertLinkable before certification

/-- The part of a block that concerns the web of trust stops the process exactly when the block
cannot be applied. -/
theorem notAborted_applyWot_iff (blockstamp : Blockstamp) :
    NotAborted (applyWot block memory blockstamp) ↔ Applicable block memory := by
  rw [applyWot]
  rcases foldlM_joiners blockstamp (s := ⟨memory, []⟩) (SameCounts.refl memory) with
    ⟨hjoiners, s, hrun, hsame⟩ | ⟨hjoiners, ending, hends, hrun⟩
  case inr =>
    rw [hrun, error_bind]
    exact iff_of_false (fun h => h ending rfl hends) fun h => hjoiners fun ms hmem =>
      h.members ms (List.mem_append_left _ hmem)
  rw [hrun, ok_bind]
  rcases foldlM_of_cases (fun _ => applyActive_cases block) hsame with
    ⟨hactives, s', hrun', hsame'⟩ | ⟨hactives, ending, hends, hrun'⟩
  case inr =>
    rw [hrun', error_bind]
    exact iff_of_false (fun h => h ending rfl hends) fun h => hactives fun ms hmem =>
      (isNewOrKnown_withNewcomers ms).2 (h.members ms (List.mem_append_right _ hmem))
  rw [hrun', ok_bind]
  have hmembers : ∀ ms ∈ block.joiners ++ block.actives, block.IsNewOrKnown memory ms := by
    intro ms hmem
    rcases List.mem_append.1 hmem with hmem | hmem
    · exact hjoiners ms hmem
    · exact (isNewOrKnown_withNewcomers ms).1 (hactives ms hmem)
  change NotAborted (_ >>= _) ↔ _
  rcases foldlM_of_cases (fun _ => applyExclusion_cases blockstamp) hsame' with
    ⟨hexcluded, s'', hrun'', hsame''⟩ | ⟨hexcluded, ending, hends, hrun''⟩
  case inr =>
    rw [hrun'', error_bind]
    refine iff_of_true (notAborted_error_iff.2 hends) ⟨hmembers, fun hknown => ?_⟩
    exact absurd (fun pubkey hmem => hknown pubkey (List.mem_append_left _ hmem)) hexcluded
  rw [hrun'', ok_bind]
  rcases foldlM_of_cases (fun _ => applyRevocation_cases blockstamp) hsame'' with
    ⟨hrevoked, s₃, hrun₃, hsame₃⟩ | ⟨hrevoked, ending, hends, hrun₃⟩
  case inr =>
    rw [hrun₃, error_bind]
    refine iff_of_true (notAborted_error_iff.2 hends) ⟨hmembers, fun hknown => ?_⟩
    exact absurd (fun revocation hmem => hknown _ (List.mem_append_right _
      (List.mem_map_of_mem hmem))) hrevoked
  rw [hrun₃, ok_bind, notAborted_certifications_iff hsame₃.linkedFrom]
  constructor
  · exact fun h => ⟨hmembers, fun _ => h⟩
  · intro h
    refine h.linkable fun pubkey hmem => ?_
    rcases List.mem_append.1 hmem with hmem | hmem
    · exact hexcluded pubkey hmem
    · rcases List.mem_map.1 hmem with ⟨revocation, hrevocation, rfl⟩
      exact hrevoked revocation hrevocation

/-! ## Parsed blocks -/

/-- What the parsers of blocks promise: the block has its two hashes, an issuer and a signature, and
its transactions are documents with their text. -/
structure BlockDocument.Parsed (block : BlockDocument) : Prop where
  hash : block.hash.isSome = true
  innerHash : block.innerHash.isSome = true
  issuers : block.issuers ≠ []
  signatures : block.signatures ≠ []
  transactions : ∀ tx ∈ block.transactions, ∃ doc, tx = .txDoc doc ∧ doc.text.isSome = true

namespace BlockDocument.Parsed

theorem returns_blockstamp (h : block.Parsed) : Returns block.blockstamp := by
  rcases Option.isSome_iff_exists.1 h.hash with ⟨hash, hhash⟩
  exact ⟨⟨block.number, hash⟩, BlockDocument.blockstamp_eq_ok_iff.2 ⟨rfl, hhash⟩⟩

/-- The requests for the currency databases of a parsed block can be made. -/
theorem returns_currencyRequests (h : block.Parsed) (memory : WotMemory) :
    Returns (currencyRequests block memory) := by
  have hdocs : Returns (block.transactions.mapM TxDocOrTxHash.unwrapDoc) := by
    refine exists_mapM fun tx hmem => ?_
    rcases h.transactions tx hmem with ⟨doc, rfl, -⟩
    exact ⟨doc, rfl⟩
  exact (returns_bind_iff_of_forall fun _ => returns_pure _).2 hdocs

/-- A parsed block can be lightened. -/
theorem returns_reduce (h : block.Parsed) : Returns (block.reduce C) := by
  have hvisit : Returns (block.transactions.mapM (TxDocOrTxHash.reduce C.toTxCrypto)) := by
    refine exists_mapM fun tx hmem => ?_
    rcases h.transactions tx hmem with ⟨doc, rfl, htext⟩
    rcases Option.isSome_iff_exists.1 htext with ⟨text, htext⟩
    cases hhash : doc.hash with
    | some hash => exact ⟨.txHash hash, by rw [TxDocOrTxHash.reduce, hhash]; rfl⟩
    | none =>
        refine ⟨.txHash (C.txHash text doc.signatures), ?_⟩
        rw [TxDocOrTxHash.reduce, hhash]
        simp only [TransactionDocument.computeHash, htext, expect_some, ok_bind]
        rfl
  exact (returns_bind_iff_of_forall fun _ => returns_pure _).2 hvisit

end BlockDocument.Parsed

/-- A parsed block without expiring certifications stops the process exactly when it cannot be
applied. -/
theorem notAborted_applyValidBlock_iff (h : block.Parsed) :
    NotAborted (applyValidBlock C block memory ∅) ↔ Applicable block memory := by
  rcases h.returns_blockstamp with ⟨blockstamp, hstamp⟩
  rw [← notAborted_applyWot_iff blockstamp, applyValidBlock, hstamp]
  change NotAborted (applyWot block memory blockstamp >>= _) ↔ _
  cases applyWot block memory blockstamp with
  | error ending => rw [error_bind, notAborted_error_iff, notAborted_error_iff]
  | ok s =>
      rw [ok_bind]
      refine iff_of_true ?_ (notAborted_ok s)
      rcases h.returns_currencyRequests s.memory with ⟨currencyQueries, hcurrency⟩
      rcases h.returns_reduce (C := C) with ⟨reduced, hreduced⟩
      change NotAborted (Applying.ofRun (currencyRequests block s.memory) >>= _)
      rw [hcurrency, hreduced]
      exact notAborted_ok _

end Durs
