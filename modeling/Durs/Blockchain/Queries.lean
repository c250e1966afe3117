/-
# Requesting blocks from the network

The missing blocks are requested chunk after chunk, each request under an identifier that no
pending request has.  The number of the next chunk and the identifier that is tried are `u32`, which
wrap in the release profile, so close to their end neither loop need stop.
-/

import Durs.Router.Messages
import Durs.Documents.Blockstamp
import Durs.Documents.Integers
import Durs.Run
import Mathlib.Data.List.Range
import Mathlib.Data.Finset.Card
import Mathlib.Data.Finset.Range

namespace Durs

open RustStd

/-- Identifier of an inter-module request. -/
abbrev ModuleReqId := Nat

/-- The identifier of a request with the module that makes it. -/
structure ModuleReqFullId where
  module : ModuleStaticName
  reqId : ModuleReqId
deriving DecidableEq, Repr

/-- Type containing a request addressed to the network module. -/
inductive OldNetworkRequest
  | getCurrent (reqId : ModuleReqFullId)
  | getBlocks (reqId : ModuleReqFullId) (count first : Nat)
  | getRequirementsPending (reqId : ModuleReqFullId) (minCert : Nat)
  | getConsensus (reqId : ModuleReqFullId)
  | getHeadsCache (reqId : ModuleReqFullId)
  | getEndpoints (reqId : ModuleReqFullId)
deriving DecidableEq, Repr

namespace OldNetworkRequest

def getReqFullId : OldNetworkRequest → ModuleReqFullId
  | .getCurrent reqId => reqId
  | .getBlocks reqId _ _ => reqId
  | .getRequirementsPending reqId _ => reqId
  | .getConsensus reqId => reqId
  | .getHeadsCache reqId => reqId
  | .getEndpoints reqId => reqId

def getReqId (request : OldNetworkRequest) : ModuleReqId := request.getReqFullId.reqId

end OldNetworkRequest

/-- The static name of the blockchain module. -/
def blockchainModuleName : ModuleStaticName := "blockchain"

/-- The blocks are requested by packet groups: the block packet size. -/
def chunkSize : Nat := 50

/-- The blocks are requested by packet groups: the number of blocks per group. -/
def maxBlocksRequest : Nat := 500

/-- What was sent to the router, the last message last. -/
abbrev SentToRouter := List (RouterThreadMessage OldNetworkRequest)

/-- Send network request. -/
def requestNetwork (sent : SentToRouter) (reqId : ModuleReqId) (request : OldNetworkRequest) :
    ModuleReqId × SentToRouter :=
  (request.getReqId,
    sent ++ [.moduleMessage (.request blockchainModuleName .interNodesNetwork reqId request)])

/-- Request a chunk, a group of blocks, from the network. -/
def requestChunk (sent : SentToRouter) (reqId : ModuleReqId) (first : BlockNumber) :
    (ModuleReqId × OldNetworkRequest) × SentToRouter :=
  let req := .getBlocks ⟨blockchainModuleName, reqId⟩ chunkSize first
  let (reqId, sent) := requestNetwork sent reqId req
  ((reqId, req), sent)

section

variable (pendingNetworkRequests : HashMap ModuleReqId OldNetworkRequest)

/-- The first identifier from `reqId` on that no request has. -/
def freeReqId (requestsIds : HashMap ModuleReqId OldNetworkRequest) :
    Nat → ModuleReqId → Run ModuleReqId
  | 0, _ => .error .outOfFuel
  | fuel + 1, reqId =>
      if pendingNetworkRequests.containsKey reqId || requestsIds.containsKey reqId then
        freeReqId requestsIds fuel (addU32 reqId 1)
      else return reqId

/-- Request the chunks from the one that starts at `first` up to the block `realTo`. -/
def requestChunks (idFuel : Nat) (realTo : BlockNumber) :
    Nat → BlockNumber → HashMap ModuleReqId OldNetworkRequest × SentToRouter →
      Run (HashMap ModuleReqId OldNetworkRequest × SentToRouter)
  | 0, _, _ => .error .outOfFuel
  | fuel + 1, first, (requestsIds, sent) =>
      if first ≤ realTo then do
        let reqId ← freeReqId pendingNetworkRequests requestsIds idFuel 0
        let chunk := requestChunk sent reqId first
        requestChunks idFuel realTo fuel (addU32 first chunkSize)
          (requestsIds.insert chunk.1.1 chunk.1.2, chunk.2)
      else return (requestsIds, sent)

/-- Requests blocks from current to `target`. -/
def requestBlocksTo (fuel : Nat) (currentBlockstamp : Blockstamp) (target : BlockNumber) :
    Run (HashMap ModuleReqId OldNetworkRequest × SentToRouter) :=
  let first := if currentBlockstamp = default then 0 else addU32 currentBlockstamp.id 1
  if currentBlockstamp.id < target then
    let realTo := if maxBlocksRequest < target - currentBlockstamp.id then
      addU32 currentBlockstamp.id maxBlocksRequest else target
    requestChunks pendingNetworkRequests fuel realTo fuel first (∅, [])
  else return (∅, [])

end

-- The identifier 0 is pending.
example : (requestBlocksTo ((∅ : HashMap ModuleReqId OldNetworkRequest).insert 0
      (.getConsensus ⟨blockchainModuleName, 0⟩)) 9 ⟨10, 1⟩ 100).map (·.1.iter.reverse) =
    .ok [(1, .getBlocks ⟨blockchainModuleName, 1⟩ 50 11),
      (2, .getBlocks ⟨blockchainModuleName, 2⟩ 50 61)] := by decide

/-! ## The plan of the requests -/

/-- The request for the chunk that starts at a block. -/
def chunkRequest (planned : ModuleReqId × BlockNumber) : OldNetworkRequest :=
  .getBlocks ⟨blockchainModuleName, planned.1⟩ chunkSize planned.2

/-- What asks the network for the chunk. -/
def chunkMessage (planned : ModuleReqId × BlockNumber) : RouterThreadMessage OldNetworkRequest :=
  .moduleMessage (.request blockchainModuleName .interNodesNetwork planned.1 (chunkRequest planned))

/-- The block after the current one, which is the genesis block on an empty chain. -/
def firstRequested (currentBlockstamp : Blockstamp) : Nat :=
  if currentBlockstamp = default then 0 else currentBlockstamp.id + 1

/-- The last block that is asked for. -/
def lastRequested (currentBlockstamp : Blockstamp) (target : Nat) : Nat :=
  min target (currentBlockstamp.id + maxBlocksRequest)

/-- The requests that are sent and returned are those of a plan, which asks for the missing blocks
chunk after chunk under identifiers of its own. -/
structure RequestPlan (pending : HashMap ModuleReqId OldNetworkRequest)
    (currentBlockstamp : Blockstamp) (target : Nat)
    (requestsIds : HashMap ModuleReqId OldNetworkRequest) (sent : SentToRouter)
    (plan : List (ModuleReqId × BlockNumber)) : Prop where
  sent_eq : sent = plan.map chunkMessage
  get?_iff : ∀ reqId request, requestsIds.get? reqId = some request ↔
    ∃ planned ∈ plan, planned.1 = reqId ∧ chunkRequest planned = request
  nodup : (plan.map Prod.fst).Nodup
  not_pending : ∀ planned ∈ plan, pending.containsKey planned.1 = false
  consecutive : plan.map Prod.snd =
    List.range' (firstRequested currentBlockstamp) plan.length chunkSize
  covers : currentBlockstamp.id < target → ∀ number, firstRequested currentBlockstamp ≤ number →
    number ≤ lastRequested currentBlockstamp target →
    ∃ planned ∈ plan, planned.2 ≤ number ∧ number < planned.2 + chunkSize
  eq_nil : target ≤ currentBlockstamp.id → plan = []

/-- Whether the missing blocks are requested according to a plan. -/
def RequestsByPlan (pending : HashMap ModuleReqId OldNetworkRequest)
    (currentBlockstamp : Blockstamp) (target : Nat) : Prop :=
  ∃ fuel requestsIds sent,
    requestBlocksTo pending fuel currentBlockstamp target = .ok (requestsIds, sent) ∧
      ∃ plan, RequestPlan pending currentBlockstamp target requestsIds sent plan

/-- How many chunks the missing blocks make. -/
def chunksRequested (currentBlockstamp : Blockstamp) (target : Nat) : Nat :=
  (lastRequested currentBlockstamp target - firstRequested currentBlockstamp) / chunkSize + 1

variable {pending requestsIds : HashMap ModuleReqId OldNetworkRequest}

/-! ## Free identifiers -/

/-- The search ends on a `u32` that no request has. -/
theorem freeReqId_spec {fuel start reqId : Nat} (hstart : start < 4294967296)
    (h : freeReqId pending requestsIds fuel start = .ok reqId) :
    reqId < 4294967296 ∧ pending.containsKey reqId = false ∧
      requestsIds.containsKey reqId = false := by
  induction fuel generalizing start with
  | zero => cases h
  | succ fuel ih =>
      rw [freeReqId] at h
      split at h
      case isTrue => exact ih (Nat.mod_lt _ (by decide)) h
      case isFalse hfree =>
        obtain rfl := pure_eq_ok_iff.1 h
        rw [Bool.or_eq_true, not_or, Bool.not_eq_true, Bool.not_eq_true] at hfree
        exact ⟨hstart, hfree⟩

/-- The search ends when there is a free identifier from its start on. -/
theorem freeReqId_returns {fuel start reqId : Nat} (hle : start ≤ reqId)
    (hlt : reqId < 4294967296) (hpending : pending.containsKey reqId = false)
    (hids : requestsIds.containsKey reqId = false) (hfuel : reqId < start + fuel) :
    Returns (freeReqId pending requestsIds fuel start) := by
  induction fuel generalizing start with
  | zero => omega
  | succ fuel ih =>
      rw [freeReqId]
      split
      case isFalse => exact ⟨start, rfl⟩
      case isTrue htaken =>
        have hne : start ≠ reqId := by
          rintro rfl
          rw [hpending, hids] at htaken
          cases htaken
        have hnext : addU32 start 1 = start + 1 := Nat.mod_eq_of_lt (by omega)
        rw [hnext]
        exact ih (by omega) (by omega)

theorem card_keys (m : HashMap ModuleReqId OldNetworkRequest) : m.keys.toFinset.card = m.len :=
  List.toFinset_card_of_nodup m.keys_nodup

/-- Fewer requests than `u32` leave an identifier free. -/
theorem exists_free (pending requestsIds : HashMap ModuleReqId OldNetworkRequest)
    (hlen : pending.len + requestsIds.len < 4294967296) :
    ∃ reqId : Nat, reqId < 4294967296 ∧ pending.containsKey reqId = false ∧
      requestsIds.containsKey reqId = false := by
  have hcard : (pending.keys.toFinset ∪ requestsIds.keys.toFinset).card <
      (Finset.range 4294967296).card := by
    rw [Finset.card_range]
    have hunion := Finset.card_union_le pending.keys.toFinset requestsIds.keys.toFinset
    rw [card_keys, card_keys] at hunion
    exact lt_of_le_of_lt hunion hlen
  obtain ⟨reqId, hrange, hnot⟩ := Finset.exists_mem_notMem_of_card_lt_card hcard
  rw [Finset.mem_union, List.mem_toFinset, List.mem_toFinset, not_or, HashMap.mem_keys_iff,
    HashMap.mem_keys_iff, ← HashMap.containsKey_iff, ← HashMap.containsKey_iff,
    Bool.not_eq_true, Bool.not_eq_true] at hnot
  exact ⟨reqId, Finset.mem_range.1 hrange, hnot⟩

/-! ## Runs of the loop -/

/-- Where the chunks start that the loop asks for from `first` on. -/
def ChunkStarts (realTo : Nat) : Nat → List Nat → Prop
  | first, [] => realTo < first
  | first, start :: starts =>
      start = first ∧ first ≤ realTo ∧ ChunkStarts realTo (addU32 first chunkSize) starts

/-- The requests of a plan are added, each under an identifier that was free. -/
structure IssuesPlan (pending requestsIds : HashMap ModuleReqId OldNetworkRequest)
    (sent : SentToRouter) (requestsIds' : HashMap ModuleReqId OldNetworkRequest)
    (sent' : SentToRouter) (plan : List (ModuleReqId × BlockNumber)) : Prop where
  sent_eq : sent' = sent ++ plan.map chunkMessage
  get?_iff : ∀ reqId request, requestsIds'.get? reqId = some request ↔
    (requestsIds.get? reqId = some request ∨
      ∃ planned ∈ plan, planned.1 = reqId ∧ chunkRequest planned = request)
  nodup : (plan.map Prod.fst).Nodup
  fresh : ∀ planned ∈ plan, planned.1 < 4294967296 ∧ pending.containsKey planned.1 = false ∧
    requestsIds.containsKey planned.1 = false

theorem IssuesPlan.nil (sent : SentToRouter) :
    IssuesPlan pending requestsIds sent requestsIds sent [] where
  sent_eq := (List.append_nil sent).symm
  get?_iff reqId request := by
    constructor
    · exact Or.inl
    · rintro (h | ⟨planned, hmem, -⟩)
      · exact h
      · cases hmem
  nodup := List.nodup_nil
  fresh planned hmem := by cases hmem

theorem IssuesPlan.cons {sent sent' : SentToRouter}
    {requestsIds' : HashMap ModuleReqId OldNetworkRequest}
    {planned : ModuleReqId × BlockNumber} {plan : List (ModuleReqId × BlockNumber)}
    (hlt : planned.1 < 4294967296) (hpending : pending.containsKey planned.1 = false)
    (hids : requestsIds.containsKey planned.1 = false)
    (h : IssuesPlan pending (requestsIds.insert planned.1 (chunkRequest planned))
      (sent ++ [chunkMessage planned]) requestsIds' sent' plan) :
    IssuesPlan pending requestsIds sent requestsIds' sent' (planned :: plan) where
  sent_eq := by
    rw [h.sent_eq, List.append_assoc, List.map_cons, List.singleton_append]
  get?_iff reqId request := by
    rw [h.get?_iff reqId request, HashMap.get?_insert]
    simp only [List.mem_cons, exists_eq_or_imp]
    split
    case isTrue heq =>
      have hnone := (HashMap.containsKey_eq_false_iff _ _).1 hids
      simp [heq, hnone]
    case isFalse hne =>
      have hother : planned.1 ≠ reqId := fun heq => hne heq.symm
      simp [hother]
  nodup := by
    rw [List.map_cons, List.nodup_cons]
    refine ⟨?_, h.nodup⟩
    rw [List.mem_map]
    rintro ⟨other, hmem, heq⟩
    have hfree := (h.fresh other hmem).2.2
    rw [heq, (HashMap.containsKey_insert_iff _ _ _ _).2 (Or.inl rfl)] at hfree
    cases hfree
  fresh other hmem := by
    rcases List.mem_cons.1 hmem with rfl | hmem
    · exact ⟨hlt, hpending, hids⟩
    · rcases h.fresh other hmem with ⟨hlt, hpending, hids⟩
      refine ⟨hlt, hpending, ?_⟩
      rw [← Bool.not_eq_true, HashMap.containsKey_insert_iff, not_or, Bool.not_eq_true] at hids
      exact hids.2

/-- A run of the loop issues the requests of a plan with the chunks that the loop goes through. -/
theorem requestChunks_spec {idFuel fuel realTo first : Nat} {sent sent' : SentToRouter}
    {requestsIds' : HashMap ModuleReqId OldNetworkRequest}
    (h : requestChunks pending idFuel realTo fuel first (requestsIds, sent) =
      .ok (requestsIds', sent')) :
    ∃ plan, ChunkStarts realTo first (plan.map Prod.snd) ∧
      IssuesPlan pending requestsIds sent requestsIds' sent' plan := by
  induction fuel generalizing first requestsIds sent with
  | zero => cases h
  | succ fuel ih =>
      rw [requestChunks] at h
      split at h
      case isTrue hle =>
        obtain ⟨reqId, hfree, h⟩ := bind_eq_ok_iff.1 h
        obtain ⟨hlt, hpending, hids⟩ := freeReqId_spec (by decide) hfree
        obtain ⟨plan, hstarts, hissues⟩ := ih h
        exact ⟨(reqId, first) :: plan, ⟨rfl, hle, hstarts⟩, .cons hlt hpending hids hissues⟩
      case isFalse hlt =>
        cases pure_eq_ok_iff.1 h
        exact ⟨[], Nat.lt_of_not_le hlt, .nil sent'⟩

/-- The loop ends when the chunks do not reach the end of the numbers and there are identifiers for
all of them. -/
theorem requestChunks_returns {n fuel realTo first : Nat} (hend : first + 50 * n < 4294967296)
    (hpast : realTo < first + 50 * n) (hlast : first + 50 * n ≤ realTo + 50)
    (hlen : pending.len + requestsIds.len + n ≤ 4294967296) (hfuel : n < fuel)
    (sent : SentToRouter) :
    Returns (requestChunks pending 4294967296 realTo fuel first (requestsIds, sent)) := by
  induction n generalizing fuel first requestsIds sent with
  | zero =>
      obtain ⟨fuel, rfl⟩ := Nat.exists_eq_add_of_le' hfuel
      have hdone : ¬first ≤ realTo := by omega
      rw [requestChunks, if_neg hdone]
      exact ⟨_, rfl⟩
  | succ n ih =>
      obtain ⟨fuel, rfl⟩ := Nat.exists_eq_add_of_le' (Nat.succ_le_of_lt (Nat.zero_lt_of_lt hfuel))
      have hnext : addU32 first chunkSize = first + 50 := Nat.mod_eq_of_lt (by
        simp only [chunkSize]
        omega)
      obtain ⟨free, hlt, hpending, hids⟩ :=
        exists_free pending requestsIds (by omega)
      obtain ⟨reqId, hfree⟩ : Returns (freeReqId pending requestsIds 4294967296 0) :=
        freeReqId_returns (Nat.zero_le free) hlt hpending hids (by omega)
      have hnone := (HashMap.containsKey_eq_false_iff _ _).1 (freeReqId_spec (by decide) hfree).2.2
      have hle : first ≤ realTo := by omega
      rw [requestChunks, if_pos hle, hfree, ok_bind, hnext]
      refine ih (by omega) (by omega) (by omega) ?_ (by omega) _
      show _ + (requestsIds.insert reqId _).len + n ≤ _
      rw [HashMap.len_insert_of_get?_eq_none _ _ hnone]
      omega

/-! ## The chunks of a run -/

/-- As long as the numbers do not wrap, the chunks that the loop goes through follow each other. -/
theorem ChunkStarts.eq_range' {n realTo first : Nat} {starts : List Nat}
    (h : ChunkStarts realTo first starts) (hend : first + 50 * n < 4294967296)
    (hpast : realTo < first + 50 * n) (hlast : first + 50 * n ≤ realTo + 50) :
    starts = List.range' first n chunkSize := by
  induction n generalizing first starts with
  | zero =>
      cases starts with
      | nil => rfl
      | cons start starts =>
          have hle := h.2.1
          omega
  | succ n ih =>
      cases starts with
      | nil =>
          have hlt : realTo < first := h
          omega
      | cons start starts =>
          rcases h with ⟨rfl, -, h⟩
          have hnext : addU32 start chunkSize = start + chunkSize := Nat.mod_eq_of_lt (by
            simp only [chunkSize]
            omega)
          rw [hnext] at h
          rw [List.range'_succ, ih h] <;> simp only [chunkSize] <;> omega

/-- When the chunks that the loop goes through follow each other, it stops at the first number past
the last block, which has not wrapped. -/
theorem ChunkStarts.stop {realTo first : Nat} {starts : List Nat} (h : ChunkStarts realTo first starts)
    (hstarts : starts = List.range' first starts.length chunkSize) (hfirst : first < 4294967296)
    (hrealTo : realTo < 4294967296) (hle : first ≤ realTo + 50) :
    first + 50 * starts.length < 4294967296 ∧ realTo < first + 50 * starts.length ∧
      first + 50 * starts.length ≤ realTo + 50 := by
  induction starts generalizing first with
  | nil =>
      have hlt : realTo < first := h
      exact ⟨hfirst, hlt, hle⟩
  | cons start starts ih =>
      rcases h with ⟨rfl, hstart, h⟩
      rw [List.length_cons, List.range'_succ] at hstarts
      have hrest := List.tail_eq_of_cons_eq hstarts
      -- A next number that wraps is neither past the last block nor the one that follows.
      have hnext : addU32 start chunkSize = start + chunkSize := by
        cases starts with
        | nil =>
            have hlt : realTo < addU32 start chunkSize := h
            simp only [addU32, chunkSize] at hlt ⊢
            omega
        | cons next starts =>
            rw [List.length_cons, List.range'_succ] at hrest
            exact h.1.symm.trans (List.head_eq_of_cons_eq hrest)
      rw [hnext] at h
      have hlt : start + chunkSize < 4294967296 := by
        rw [← hnext]
        exact Nat.mod_lt _ (by decide)
      have hrec := ih h hrest hlt (by simp only [chunkSize]; omega)
      simp only [chunkSize, List.length_cons] at hrec ⊢
      omega

section

variable {currentBlockstamp : Blockstamp} {target : Nat}

theorem firstRequested_le (h : currentBlockstamp.id < target) :
    firstRequested currentBlockstamp ≤ lastRequested currentBlockstamp target := by
  simp only [BlockNumber, firstRequested, lastRequested, maxBlocksRequest] at h ⊢
  split <;> omega

/-- How far the chunks reach beyond the last block that is asked for. -/
theorem chunksRequested_spec (h : currentBlockstamp.id < target) :
    lastRequested currentBlockstamp target <
        firstRequested currentBlockstamp + 50 * chunksRequested currentBlockstamp target ∧
      firstRequested currentBlockstamp + 50 * chunksRequested currentBlockstamp target ≤
        lastRequested currentBlockstamp target + 50 := by
  have hle := firstRequested_le h
  simp only [chunksRequested, chunkSize]
  omega

theorem requestBlocksTo_eq (h : currentBlockstamp.id < target) (htarget : target < 4294967296)
    (fuel : Nat) :
    requestBlocksTo pending fuel currentBlockstamp target =
      requestChunks pending fuel (lastRequested currentBlockstamp target) fuel
        (firstRequested currentBlockstamp) (∅, []) := by
  have hfirst : (if currentBlockstamp = default then 0 else addU32 currentBlockstamp.id 1) =
      firstRequested currentBlockstamp := by
    simp only [BlockNumber, firstRequested, addU32] at h ⊢
    split <;> omega
  have hlast : (if maxBlocksRequest < target - currentBlockstamp.id then
      addU32 currentBlockstamp.id maxBlocksRequest else target) =
      lastRequested currentBlockstamp target := by
    split <;> simp only [BlockNumber, lastRequested, maxBlocksRequest, addU32] at * <;> omega
  rw [requestBlocksTo, if_pos h, hfirst, hlast]

theorem requestBlocksTo_eq_nil (h : target ≤ currentBlockstamp.id) (fuel : Nat) :
    requestBlocksTo pending fuel currentBlockstamp target = .ok (∅, []) := by
  rw [requestBlocksTo, if_neg (Nat.not_lt.2 h)]
  rfl

/-- An empty plan requests nothing. -/
theorem RequestPlan.nil (h : target ≤ currentBlockstamp.id) :
    RequestPlan pending currentBlockstamp target ∅ [] [] where
  sent_eq := rfl
  get?_iff reqId request := by simp
  nodup := List.nodup_nil
  not_pending planned hmem := by cases hmem
  consecutive := rfl
  covers hlt := absurd h (Nat.not_le.2 hlt)
  eq_nil _ := rfl

/-- A run that issues as many chunks as the missing blocks make requests them by plan. -/
theorem RequestPlan.of_issues {requestsIds : HashMap ModuleReqId OldNetworkRequest}
    {sent : SentToRouter} {plan : List (ModuleReqId × BlockNumber)}
    (hlt : currentBlockstamp.id < target) (hissues : IssuesPlan pending ∅ [] requestsIds sent plan)
    (hstarts : plan.map Prod.snd = List.range' (firstRequested currentBlockstamp)
      (chunksRequested currentBlockstamp target) chunkSize) :
    RequestPlan pending currentBlockstamp target requestsIds sent plan where
  sent_eq := by rw [hissues.sent_eq, List.nil_append]
  get?_iff reqId request := by
    rw [hissues.get?_iff reqId request, HashMap.get?_empty]
    exact or_iff_right (Option.some_ne_none request).symm
  nodup := hissues.nodup
  not_pending planned hmem := (hissues.fresh planned hmem).2.1
  consecutive := by
    have hlength := congrArg List.length hstarts
    rw [List.length_map, List.length_range'] at hlength
    rw [hlength, hstarts]
  covers _ number hfirst hlast := by
    have hspec := chunksRequested_spec hlt
    have hstart : firstRequested currentBlockstamp +
        chunkSize * ((number - firstRequested currentBlockstamp) / chunkSize) ∈
          plan.map Prod.snd := by
      rw [hstarts, List.mem_range']
      refine ⟨_, ?_, rfl⟩
      simp only [chunkSize]
      omega
    obtain ⟨planned, hmem, heq⟩ := List.mem_map.1 hstart
    refine ⟨planned, hmem, ?_⟩
    rw [heq]
    simp only [BlockNumber, chunkSize]
    omega
  eq_nil hge := absurd hge (Nat.not_le.2 hlt)

theorem requestsByPlan_of_fits (htarget : target < 4294967296) (hlt : currentBlockstamp.id < target)
    (hend : firstRequested currentBlockstamp +
      chunkSize * chunksRequested currentBlockstamp target < 4294967296)
    (hlen : pending.len + chunksRequested currentBlockstamp target ≤ 4294967296) :
    RequestsByPlan pending currentBlockstamp target := by
  simp only [chunkSize] at hend
  obtain ⟨hpast, hlast⟩ := chunksRequested_spec hlt
  have hfree : pending.len + (∅ : HashMap ModuleReqId OldNetworkRequest).len +
      chunksRequested currentBlockstamp target ≤ 4294967296 := hlen
  obtain ⟨⟨requestsIds, sent⟩, hrun⟩ : Returns (requestChunks pending 4294967296
      (lastRequested currentBlockstamp target) 4294967296 (firstRequested currentBlockstamp)
      (∅, [])) :=
    requestChunks_returns hend hpast hlast hfree (by omega) []
  obtain ⟨plan, hstarts, hissues⟩ := requestChunks_spec hrun
  rw [← requestBlocksTo_eq hlt htarget] at hrun
  exact ⟨4294967296, requestsIds, sent, hrun, plan,
    .of_issues hlt hissues (hstarts.eq_range' hend hpast hlast)⟩

/-- The messages that are sent determine the plan. -/
theorem chunkMessage_injective : Function.Injective chunkMessage := by
  rintro ⟨reqId, first⟩ ⟨reqId', first'⟩ h
  simp only [chunkMessage, chunkRequest] at h
  cases h
  rfl

theorem fits_of_plan {fuel : Nat} {requestsIds : HashMap ModuleReqId OldNetworkRequest}
    {sent : SentToRouter} {plan : List (ModuleReqId × BlockNumber)}
    (hpending : ∀ reqId ∈ pending.keys, reqId < 4294967296) (htarget : target < 4294967296)
    (hlt : currentBlockstamp.id < target)
    (hrun : requestBlocksTo pending fuel currentBlockstamp target = .ok (requestsIds, sent))
    (hplan : RequestPlan pending currentBlockstamp target requestsIds sent plan) :
    firstRequested currentBlockstamp +
        chunkSize * chunksRequested currentBlockstamp target < 4294967296 ∧
      pending.len + chunksRequested currentBlockstamp target ≤ 4294967296 := by
  rw [requestBlocksTo_eq hlt htarget] at hrun
  obtain ⟨issued, hstarts, hissues⟩ := requestChunks_spec hrun
  obtain rfl : plan = issued := by
    have hsent := hissues.sent_eq
    rw [hplan.sent_eq, List.nil_append] at hsent
    exact List.map_injective_iff.2 chunkMessage_injective hsent
  have hle := firstRequested_le hlt
  have hspec := chunksRequested_spec hlt
  have hlast : lastRequested currentBlockstamp target ≤ target := Nat.min_le_left _ _
  have hstop := hstarts.stop (by rw [List.length_map]; exact hplan.consecutive) (by omega)
    (by omega) (by omega)
  rw [List.length_map] at hstop
  have hlength : plan.length = chunksRequested currentBlockstamp target := by omega
  rw [hlength] at hstop
  refine ⟨hstop.1, ?_⟩
  -- The pending identifiers and those of the plan are distinct numbers below `2 ^ 32`.
  have hnodup : (pending.keys ++ plan.map Prod.fst).Nodup := by
    refine List.nodup_append'.2 ⟨pending.keys_nodup, hplan.nodup, ?_⟩
    intro reqId hkey hids
    obtain ⟨planned, hmem, rfl⟩ := List.mem_map.1 hids
    have hfree := hplan.not_pending planned hmem
    rw [(HashMap.containsKey_iff _ _).2 ((HashMap.mem_keys_iff _ _).1 hkey)] at hfree
    cases hfree
  have hsub : (pending.keys ++ plan.map Prod.fst).toFinset ⊆ Finset.range 4294967296 := by
    intro reqId hmem
    rw [List.mem_toFinset, List.mem_append] at hmem
    rw [Finset.mem_range]
    rcases hmem with hkey | hids
    · exact hpending reqId hkey
    · obtain ⟨planned, hmem, rfl⟩ := List.mem_map.1 hids
      exact (hissues.fresh planned hmem).1
  have hcard := Finset.card_le_card hsub
  rwa [List.toFinset_card_of_nodup hnodup, Finset.card_range, List.length_append, List.length_map,
    hlength] at hcard

/-- The missing blocks are requested by plan exactly when there are none, or the number that follows
the chunks is a `u32` and there are identifiers for all of them. -/
theorem requestsByPlan_iff (hpending : ∀ reqId ∈ pending.keys, reqId < 4294967296)
    (htarget : target < 4294967296) :
    RequestsByPlan pending currentBlockstamp target ↔
      (target ≤ currentBlockstamp.id ∨
        (firstRequested currentBlockstamp +
            chunkSize * chunksRequested currentBlockstamp target < 4294967296 ∧
          pending.len + chunksRequested currentBlockstamp target ≤ 4294967296)) := by
  constructor
  · rintro ⟨fuel, requestsIds, sent, hrun, plan, hplan⟩
    rcases Nat.lt_or_ge currentBlockstamp.id target with hlt | hge
    · exact Or.inr (fits_of_plan hpending htarget hlt hrun hplan)
    · exact Or.inl hge
  · rintro (hge | ⟨hend, hlen⟩)
    · exact ⟨0, ∅, [], requestBlocksTo_eq_nil hge 0, [], .nil hge⟩
    · rcases Nat.lt_or_ge currentBlockstamp.id target with hlt | hge
      · exact requestsByPlan_of_fits htarget hlt hend hlen
      · exact ⟨0, ∅, [], requestBlocksTo_eq_nil hge 0, [], .nil hge⟩

/-- One request is pending and the 500 blocks after the current one are asked for in ten chunks. -/
theorem requestsByPlan_mockPending :
    RequestsByPlan ((∅ : HashMap ModuleReqId OldNetworkRequest).insert 0
      (.getConsensus ⟨blockchainModuleName, 0⟩)) ⟨10, 1⟩ 700 := by
  have hpending : ∀ reqId ∈ ((∅ : HashMap ModuleReqId OldNetworkRequest).insert 0
      (.getConsensus ⟨blockchainModuleName, 0⟩)).keys, reqId < 4294967296 :=
    List.forall_mem_singleton.2 (by decide)
  exact (requestsByPlan_iff hpending (by decide)).2 (Or.inr ⟨by decide, by decide⟩)

/-- The chunk of the last block ends beyond the `u32`, and the loop starts again from the genesis
block. -/
theorem not_requestsByPlan_lastBlock : ¬RequestsByPlan ∅ ⟨4294967290, 1⟩ 4294967295 := by
  rintro ⟨fuel, requestsIds, sent, hrun, plan, hplan⟩
  have hpending : ∀ reqId ∈ (∅ : HashMap ModuleReqId OldNetworkRequest).keys,
      reqId < 4294967296 := by
    intro reqId hmem
    cases hmem
  have hfits := fits_of_plan hpending (by decide) (by decide) hrun hplan
  exact absurd hfits.1 (by decide)

end

end Durs
