/-
# Network heads

What a node last said of its current block.  The heads cache keeps one head for each node, and a
head of version 2 takes the place of another only with a greater block number, or with the same one
from fewer steps away.
-/

import Durs.Documents.Blockstamp
import Durs.Lib.KeepBest
import Durs.Network.Endpoints
import Durs.RustStd.HashMap
import Mathlib.Data.Prod.Lex
import Mathlib.Order.Lattice.Nat

namespace Durs.Network

open RustStd

/-- Head message of version 2. -/
structure NetworkHeadMessageV2 where
  api : String
  version : Nat
  pubkey : PubKey
  blockstamp : Blockstamp
  nodeUuid : NodeId
  software : String
  softVersion : String
  prefixNumber : Nat
  freeMemberRoom : Option Nat
  freeMirrorRoom : Option Nat
deriving DecidableEq, Repr

/-- Head message. -/
inductive NetworkHeadMessage
  | v2 (message : NetworkHeadMessageV2)
  | other
deriving DecidableEq, Repr

namespace NetworkHeadMessage

def blockstamp : NetworkHeadMessage → Run Blockstamp
  | .v2 message => return message.blockstamp
  | .other => fatalError "This HEAD version is not supported !"

def nodeUuid : NetworkHeadMessage → Run NodeId
  | .v2 message => return message.nodeUuid
  | .other => fatalError "This HEAD version is not supported !"

end NetworkHeadMessage

/-- Head of version 2: the messages of versions 1 and 2, each with its signature. -/
structure NetworkHeadV2 where
  message : NetworkHeadMessage
  sig : Sig
  messageV2 : NetworkHeadMessage
  sigV2 : Sig
  step : Nat
  uid : Option String
deriving DecidableEq, Repr

/-- Head of version 3. -/
structure NetworkHeadV3 where
  currencyName : String
  apiOutgoingConf : Nat
  apiIncomingConf : Nat
  freeMemberRooms : Nat
  freeMirrorRooms : Nat
  nodeId : NodeId
  pubkey : PubKey
  blockstamp : Blockstamp
  software : String
  softVersion : String
  signature : Option Sig
  step : Nat
deriving DecidableEq, Repr

/-- The current state of a node, whose blockstamp is that of its current block. -/
inductive NetworkHead
  | v2 (head : NetworkHeadV2)
  | v3 (head : NetworkHeadV3)
deriving DecidableEq, Repr

namespace NetworkHead

def version : NetworkHead → Run Nat
  | .v2 _ => return 2
  | .v3 _ => fatalError "This HEAD version is not supported !"

def blockstamp : NetworkHead → Run Blockstamp
  | .v2 head => head.messageV2.blockstamp
  | .v3 _ => fatalError "This HEAD version is not supported !"

/-- Get pubkey of head issuer. -/
def pubkey : NetworkHead → Run PubKey
  | .v2 head =>
      match head.messageV2 with
      | .v2 message => return message.pubkey
      | .other => fatalError "This HEAD message version is not supported !"
  | .v3 _ => fatalError "This HEAD version is not supported !"

def step : NetworkHead → Run Nat
  | .v2 head => return head.step
  | .v3 _ => fatalError "This HEAD version is not supported !"

/-- Returns issuer node id. -/
def nodeUuid : NetworkHead → Run NodeId
  | .v2 head => head.messageV2.nodeUuid
  | .v3 _ => fatalError "This HEAD version is not supported !"

/-- Returns issuer node full identifier. -/
def nodeFullId (head : NetworkHead) : Run NodeFullId := do
  let nodeId ← head.nodeUuid
  let pubkey ← head.pubkey
  return { nodeId, pubkey }

/-- Whether a head is to replace the one in the cache: the step is only looked at when the numbers
are the same and the version is not lower. -/
def replaces (self head : NetworkHead) : Run Bool := do
  let selfStamp ← self.blockstamp
  let headStamp ← head.blockstamp
  if headStamp.id < selfStamp.id then return true
  else if selfStamp.id = headStamp.id then
    let selfVersion ← self.version
    let headVersion ← head.version
    if headVersion ≤ selfVersion then
      let selfStep ← self.step
      let headStep ← head.step
      return selfStep < headStep
    else return false
  else return false

/-- Returns true only if this head is to replace the old head of the same issuer in the head cache,
or if it is the first head of this issuer. -/
def apply (self : NetworkHead) (headsCache : HashMap NodeFullId NetworkHead) :
    Run (Bool × HashMap NodeFullId NetworkHead) := do
  let nodeFullId ← self.nodeFullId
  match headsCache.get? nodeFullId with
  | some head =>
      let replaced ← self.replaces head
      if replaced then return (true, headsCache.insert nodeFullId self)
      else return (false, headsCache)
  | none => return (true, headsCache.insert nodeFullId self)

/-- Apply heads one after the other. -/
def applyAll (heads : List NetworkHead) (headsCache : HashMap NodeFullId NetworkHead) :
    Run (HashMap NodeFullId NetworkHead) :=
  heads.foldlM (fun headsCache head => (·.2) <$> head.apply headsCache) headsCache

/-- The block number and the step of a head. -/
def position (head : NetworkHead) : Run (Nat × Nat) := do
  let blockstamp ← head.blockstamp
  let step ← head.step
  return (blockstamp.id, step)

end NetworkHead

/-! ## Heads of version 2 -/

/-- A head of version 2.  Its message is of version 2, as that of each head is which is read from the
network. -/
structure HeadV2 where
  head : NetworkHeadV2
  message : NetworkHeadMessageV2
  messageV2_eq : head.messageV2 = .v2 message

namespace HeadV2

def toHead (head : HeadV2) : NetworkHead := .v2 head.head

/-- The node that sent the head. -/
def node (head : HeadV2) : NodeFullId :=
  { nodeId := head.message.nodeUuid, pubkey := head.message.pubkey }

def number (head : HeadV2) : Nat := head.message.blockstamp.id

def step (head : HeadV2) : Nat := head.head.step

/-- A head ranks above those with smaller numbers, and those with its number that took more steps. -/
def rank (head : HeadV2) : ℕ ×ₗ ℕᵒᵈ := toLex (head.number, OrderDual.toDual head.step)

variable (head other : HeadV2)

theorem rank_lt_iff : head.rank < other.rank ↔
    head.number < other.number ∨ (head.number = other.number ∧ other.step < head.step) :=
  Prod.Lex.toLex_lt_toLex

theorem rank_le_iff : head.rank ≤ other.rank ↔
    head.number ≤ other.number ∧ (head.number = other.number → other.step ≤ head.step) := by
  rw [← not_lt, rank_lt_iff, not_or, not_and, not_lt, not_lt]
  exact and_congr_right' ⟨fun h heq => h heq.symm, fun h heq => h heq.symm⟩

theorem blockstamp_toHead : head.toHead.blockstamp = .ok head.message.blockstamp := by
  rw [toHead, NetworkHead.blockstamp, head.messageV2_eq]
  rfl

theorem nodeFullId_toHead : head.toHead.nodeFullId = .ok head.node := by
  simp only [NetworkHead.nodeFullId, toHead, NetworkHead.nodeUuid, NetworkHead.pubkey,
    head.messageV2_eq]
  rfl

theorem position_toHead : head.toHead.position = .ok (head.number, head.step) := by
  rw [NetworkHead.position, blockstamp_toHead]
  rfl

theorem toHead_injective : Function.Injective toHead := by
  rintro ⟨head, message, heq⟩ ⟨head', message', heq'⟩ h
  obtain rfl : head = head' := NetworkHead.v2.inj h
  obtain rfl : message = message' := NetworkHeadMessage.v2.inj (heq.symm.trans heq')
  rfl

/-- A head replaces those that rank below it. -/
theorem replaces_toHead :
    head.toHead.replaces other.toHead = .ok (decide (other.rank < head.rank)) := by
  rw [NetworkHead.replaces, blockstamp_toHead, blockstamp_toHead, ok_bind, ok_bind]
  split
  case isTrue hlt => exact congrArg Except.ok (decide_eq_true ((rank_lt_iff _ _).2 (Or.inl hlt))).symm
  case isFalse hge =>
    split
    case isTrue heq =>
      have hiff : other.rank < head.rank ↔ head.step < other.step := by
        rw [rank_lt_iff]
        exact (or_iff_right hge).trans (and_iff_right heq.symm)
      simp only [hiff]
      rfl
    case isFalse hne =>
      have hnot : ¬other.rank < head.rank := by
        rw [rank_lt_iff]
        rintro (hlt | ⟨heq, -⟩)
        · exact hge hlt
        · exact hne heq.symm
      exact congrArg Except.ok (decide_eq_false hnot).symm

end HeadV2

/-! ## The heads cache -/

/-- The cache holds for each node that sent one of the heads the best of those it sent. -/
structure HoldsBest (heads : List HeadV2) (headsCache : HashMap NodeFullId NetworkHead) : Prop where
  get?_eq_none_iff : ∀ node, headsCache.get? node = none ↔ ∀ head ∈ heads, head.node ≠ node
  best : ∀ node held, headsCache.get? node = some held → ∃ best ∈ heads, best.toHead = held ∧
    best.node = node ∧ ∀ head ∈ heads, head.node = node →
      head.number ≤ best.number ∧ (head.number = best.number → best.step ≤ head.step)

/-- Whether two caches hold the same heads. -/
def SameHeads (headsCache headsCache' : HashMap NodeFullId NetworkHead) : Prop :=
  ∀ node, headsCache.get? node = headsCache'.get? node

/-- The cache is what is kept of the heads, by node and by rank. -/
def CacheKeeps (heads : List HeadV2) (headsCache : HashMap NodeFullId NetworkHead) : Prop :=
  ∃ kept, Lib.KeepsBest HeadV2.node HeadV2.rank heads kept ∧
    ∀ node, headsCache.get? node = (kept node).map HeadV2.toHead

variable {heads : List HeadV2} {headsCache : HashMap NodeFullId NetworkHead}

theorem cacheKeeps_empty : CacheKeeps [] ∅ :=
  ⟨fun _ => none, .nil, fun _ => rfl⟩

theorem CacheKeeps.holdsBest (h : CacheKeeps heads headsCache) : HoldsBest heads headsCache := by
  obtain ⟨kept, hkept, hget⟩ := h
  constructor
  · intro node
    rw [hget, Option.map_eq_none_iff, hkept.eq_none_iff]
  · intro node held hheld
    rw [hget, Option.map_eq_some_iff] at hheld
    obtain ⟨best, hbest, rfl⟩ := hheld
    refine ⟨best, hkept.mem _ _ hbest, rfl, hkept.key_eq _ _ hbest, ?_⟩
    intro head hmem hnode
    exact (head.rank_le_iff best).1 (hkept.rank_le _ _ hbest head hmem hnode)

/-- A head that takes its place is put into the cache, which changes it. -/
theorem CacheKeeps.insert (h : CacheKeeps heads headsCache) (head : HeadV2)
    (hplace : ∀ old : HeadV2, headsCache.get? head.node = some old.toHead →
      old.rank < head.rank) :
    CacheKeeps (heads ++ [head]) (headsCache.insert head.node head.toHead) ∧
      ¬SameHeads headsCache (headsCache.insert head.node head.toHead) := by
  obtain ⟨kept, hkept, hget⟩ := h
  constructor
  · refine ⟨fun node => if node = head.node then some head else kept node,
      hkept.replace ?_ (if_pos rfl) (fun node hne => if_neg hne), ?_⟩
    · intro old hold
      exact hplace old (by rw [hget, hold, Option.map_some])
    · intro node
      rw [HashMap.get?_insert]
      by_cases hnode : node = head.node
      · simp only [if_pos hnode, Option.map_some]
      · simp only [if_neg hnode, hget]
  · intro hsame
    have hself := hsame head.node
    rw [HashMap.get?_insert_self] at hself
    exact lt_irrefl head.rank (hplace head hself)

/-- A head that does not take its place leaves the cache as it is. -/
theorem CacheKeeps.keep (h : CacheKeeps heads headsCache) {head old : HeadV2}
    (hold : headsCache.get? head.node = some old.toHead) (hplace : ¬old.rank < head.rank) :
    CacheKeeps (heads ++ [head]) headsCache := by
  obtain ⟨kept, hkept, hget⟩ := h
  refine ⟨kept, hkept.keep fun htakes => hplace (htakes old ?_), hget⟩
  rw [hget, Option.map_eq_some_iff] at hold
  obtain ⟨found, hfound, heq⟩ := hold
  rw [hfound, HeadV2.toHead_injective heq]

/-- Applying a head keeps the cache, and tells whether it changed. -/
theorem CacheKeeps.apply (h : CacheKeeps heads headsCache) (head : HeadV2) :
    ∃ changed headsCache', head.toHead.apply headsCache = .ok (changed, headsCache') ∧
      CacheKeeps (heads ++ [head]) headsCache' ∧
      (changed = true ↔ ¬SameHeads headsCache headsCache') := by
  rw [NetworkHead.apply, head.nodeFullId_toHead, ok_bind]
  cases hheld : headsCache.get? head.node with
  | none =>
      have hinsert := h.insert head (by
        intro old hold
        rw [hheld] at hold
        cases hold)
      exact ⟨true, _, rfl, hinsert.1, iff_of_true rfl hinsert.2⟩
  | some held =>
      obtain ⟨old, -, rfl, -⟩ := h.holdsBest.best _ _ hheld
      simp only [head.replaces_toHead old, ok_bind, decide_eq_true_eq]
      by_cases hlt : old.rank < head.rank
      · have hinsert := h.insert head (by
          intro old' hold'
          rw [hheld, Option.some.injEq] at hold'
          rwa [← HeadV2.toHead_injective hold'])
        rw [if_pos hlt]
        exact ⟨true, _, rfl, hinsert.1, iff_of_true rfl hinsert.2⟩
      · rw [if_neg hlt]
        exact ⟨false, _, rfl, h.keep hheld hlt, iff_of_false Bool.false_ne_true
          (not_not.2 fun node => rfl)⟩

/-- A run of applications returns, and keeps the cache. -/
theorem CacheKeeps.applyAll (h : CacheKeeps heads headsCache) (heads' : List HeadV2) :
    ∃ headsCache', NetworkHead.applyAll (heads'.map HeadV2.toHead) headsCache = .ok headsCache' ∧
      CacheKeeps (heads ++ heads') headsCache' := by
  induction heads' generalizing heads headsCache with
  | nil => exact ⟨headsCache, rfl, by rwa [List.append_nil]⟩
  | cons head heads' ih =>
      obtain ⟨changed, mid, happly, hmid, -⟩ := h.apply head
      obtain ⟨headsCache', hrun, hkeeps⟩ := ih hmid
      refine ⟨headsCache', ?_, by rwa [List.append_cons]⟩
      rw [List.map_cons, NetworkHead.applyAll, List.foldlM_cons, happly]
      exact hrun

/-- The numbers and steps in the cache do not depend on the order of the heads. -/
theorem CacheKeeps.position_eq {heads' : List HeadV2}
    {headsCache' : HashMap NodeFullId NetworkHead} (h : CacheKeeps heads headsCache)
    (h' : CacheKeeps heads' headsCache') (hperm : heads.Perm heads') (node : NodeFullId) :
    (headsCache.get? node).map NetworkHead.position =
      (headsCache'.get? node).map NetworkHead.position := by
  obtain ⟨kept, hkept, hget⟩ := h
  obtain ⟨kept', hkept', hget'⟩ := h'
  have hposition : NetworkHead.position ∘ HeadV2.toHead =
      (fun rank : ℕ ×ₗ ℕᵒᵈ => .ok ((ofLex rank).1, OrderDual.ofDual (ofLex rank).2)) ∘ HeadV2.rank :=
    funext HeadV2.position_toHead
  have hrank := hkept.rank_eq hkept' (fun head => hperm.mem_iff) node
  rw [hget, hget', Option.map_map, Option.map_map, hposition, ← Option.map_map, ← Option.map_map,
    hrank]

/-- Whatever heads of version 2 are applied to an empty cache, it holds the best head of each node;
a further application tells whether it changes the cache, and another order of the same heads gives
the same numbers and steps. -/
theorem headsCache_keeps_best (heads : List HeadV2) :
    ∃ headsCache, NetworkHead.applyAll (heads.map HeadV2.toHead) ∅ = .ok headsCache ∧
      HoldsBest heads headsCache ∧
      (∀ head : HeadV2, ∃ changed headsCache',
        head.toHead.apply headsCache = .ok (changed, headsCache') ∧
          (changed = true ↔ ¬SameHeads headsCache headsCache')) ∧
      ∀ heads', heads.Perm heads' → ∃ headsCache',
        NetworkHead.applyAll (heads'.map HeadV2.toHead) ∅ = .ok headsCache' ∧
          ∀ node, (headsCache.get? node).map NetworkHead.position =
            (headsCache'.get? node).map NetworkHead.position := by
  obtain ⟨headsCache, hrun, hkeeps⟩ := cacheKeeps_empty.applyAll heads
  refine ⟨headsCache, hrun, hkeeps.holdsBest, ?_, ?_⟩
  · intro head
    obtain ⟨changed, headsCache', happly, -, hchanged⟩ := hkeeps.apply head
    exact ⟨changed, headsCache', happly, hchanged⟩
  · intro heads' hperm
    obtain ⟨headsCache', hrun', hkeeps'⟩ := cacheKeeps_empty.applyAll heads'
    exact ⟨headsCache', hrun', hkeeps.position_eq hkeeps' hperm⟩

end Durs.Network
