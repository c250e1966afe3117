/-
# Served answers

How a node answers the requests of its peers for blocks, from the request to what a peer takes from
the answer.  The blocks that the node stores have lost their inner hash, without which a peer reads
none: no answer ever hands a block over.
-/

import Durs.Blockchain.KeptParts
import Durs.Blockchain.Queries
import Durs.Ws2pV1.Messages
import Durs.Ws2pV1.ServedBlocks

namespace Durs.Ws2pV1

open RustStd Lib Network

/-! ## Requests to the blockchain module -/

/-- What a module asks the blockchain module for. -/
inductive BlockchainRequest
  | currentBlock
  | blockByNumber (number : BlockNumber)
  | chunk (first : BlockNumber) (count : Nat)
deriving DecidableEq

/-- What the blockchain module answers. -/
inductive BlockchainResponse
  | currentBlock (block : BlockDocument) (blockstamp : Blockstamp)
  | blockByNumber (block : BlockDocument)
  | chunk (blocks : List BlockDocument)
deriving DecidableEq

/-- The blocks of a response. -/
def BlockchainResponse.blocks : BlockchainResponse → List BlockDocument
  | .currentBlock block _ | .blockByNumber block => [block]
  | .chunk blocks => blocks

/-- `receive_req`: there is no answer where there is no block. -/
def receiveReq (fuel : Nat) (bc : BlockchainModule) :
    BlockchainRequest → Run (Option BlockchainResponse)
  | .currentBlock => do
      let dalBlock := getBlock bc.dbs.blocks none bc.currentBlockstamp
      return dalBlock.map (.currentBlock ·.block bc.currentBlockstamp)
  | .blockByNumber number =>
      return (getBlockInLocalBlockchain bc.dbs.blocks number).map .blockByNumber
  | .chunk first count => do
      let blocks ← getBlocksInLocalBlockchain bc.dbs.blocks first count fuel
      return if blocks.isEmpty then none else some (.chunk blocks)

/-! ## Responses to a peer -/

/-- The body of a response to a peer. -/
inductive WS2Pv1ReqResBody
  | getCurrent (block : BlockDocument)
  | getBlock (block : BlockDocument)
  | getBlocks (blocks : List BlockDocument)
  | getRequirementsPending
deriving DecidableEq

namespace WS2Pv1ReqResBody

/-- The blocks of a body. -/
def blocks : WS2Pv1ReqResBody → List BlockDocument
  | .getCurrent block | .getBlock block => [block]
  | .getBlocks blocks => blocks
  | .getRequirementsPending => []

/-- The JSON of a body. -/
def toJson (C : DocCrypto) (printF64 : F64 → String) : WS2Pv1ReqResBody → Run Json
  | .getCurrent block | .getBlock block => block.intoWs2pV1Json C printF64
  | .getBlocks blocks => do
      let jsonBlocks ← blocks.mapM (BlockDocument.intoWs2pV1Json C printF64)
      return .array jsonBlocks
  | .getRequirementsPending => return .object [("identities", .array [])]

end WS2Pv1ReqResBody

/-- A response to a peer. -/
structure WS2Pv1ReqRes where
  reqId : Uuid
  body : WS2Pv1ReqResBody
deriving DecidableEq

/-- Which peer made a request, and under which identifier. -/
structure WS2Pv1ReqFullId where
  sender : NodeFullId
  reqId : Uuid
deriving DecidableEq

/-- The request to the blockchain module that a request of a peer is passed on as. -/
def WS2Pv1ReqBody.passedOn : WS2Pv1ReqBody → Option BlockchainRequest
  | .getCurrent => some .currentBlock
  | .getBlock number => some (.blockByNumber number)
  | .getBlocks count fromNumber => some (.chunk fromNumber count)
  | .getRequirementsPending _ => none

/-! ## Steps of the node -/

/-- A node that answers: its blockchain module, the table and the counter of its WS2P module, the
requests and the responses that are on their way between the two, and what was sent to peers. -/
structure AnsweringNode where
  blockchain : BlockchainModule × SaveFlags
  countDalRequests : Nat
  pendingReceivedRequests : HashMap ModuleReqId WS2Pv1ReqFullId
  requests : List (ModuleReqId × BlockchainRequest)
  responses : List (ModuleReqId × BlockchainResponse)
  sent : List (NodeFullId × WS2Pv1ReqRes)

namespace AnsweringNode

/-- A node that has no files yet. -/
def start : AnsweringNode := ⟨(default, .none), 0, ∅, [], [], []⟩

/-- `send_response`: a response to a peer without a socket is lost. -/
def sendResponse (s : AnsweringNode) (connected : NodeFullId → Bool) (sender : NodeFullId)
    (response : WS2Pv1ReqRes) : AnsweringNode :=
  if connected sender then { s with sent := s.sent ++ [(sender, response)] } else s

/-- `send_dal_request`: the counter skips the greatest number. -/
def sendDalRequest (s : AnsweringNode) (request : BlockchainRequest) :
    AnsweringNode × ModuleReqId :=
  let count := addU32 s.countDalRequests 1
  let count := if count = 4294967295 then 0 else count
  ({ s with countDalRequests := count, requests := s.requests ++ [(count, request)] }, count)

/-- `receive_ws2p_v1_request`. -/
def receiveWs2pV1Request (s : AnsweringNode) (connected : NodeFullId → Bool)
    (sender : NodeFullId) (reqId : Uuid) (body : WS2Pv1ReqBody) : AnsweringNode :=
  match body.passedOn with
  | some request =>
      let (s, moduleReqId) := s.sendDalRequest request
      { s with pendingReceivedRequests :=
          s.pendingReceivedRequests.insert moduleReqId ⟨sender, reqId⟩ }
  | none => s.sendResponse connected sender ⟨reqId, .getRequirementsPending⟩

/-- `receive_response` of the WS2P module: only the current block is passed on to a peer. -/
def receiveResponse (s : AnsweringNode) (connected : NodeFullId → Bool) (reqId : ModuleReqId) :
    BlockchainResponse → AnsweringNode
  | .currentBlock block _ =>
      match s.pendingReceivedRequests.get? reqId with
      | some full =>
          { s with pendingReceivedRequests :=
              s.pendingReceivedRequests.remove reqId }.sendResponse connected full.sender
            ⟨full.reqId, .getCurrent block⟩
      | none => s
  | _ => s

/-- What happens in the node: an operation of its blockchain module, the arrival of a request of a
peer, of a request at the blockchain module, and of a response at the WS2P module, each in any
order. -/
inductive Op
  | blockchain (op : ModuleOp)
  | request (connected : NodeFullId → Bool) (sender : NodeFullId) (reqId : Uuid)
      (body : WS2Pv1ReqBody)
  | answer (i : Nat)
  | respond (connected : NodeFullId → Bool) (i : Nat)

/-- Take a step. -/
def step (K : Crypto) (S : SheetSort) (fuel : Nat) (s : AnsweringNode) : Op → Run AnsweringNode
  | .blockchain op => do
      let blockchain ← op.apply K S fuel s.blockchain
      return { s with blockchain }
  | .request connected sender reqId body =>
      return s.receiveWs2pV1Request connected sender reqId body
  | .answer i =>
      match s.requests[i]? with
      | some (reqId, request) => do
          let response ← receiveReq fuel s.blockchain.1 request
          return { s with
            requests := s.requests.eraseIdx i
            responses := s.responses ++ (response.map (reqId, ·)).toList }
      | none => return s
  | .respond connected i =>
      match s.responses[i]? with
      | some (reqId, response) =>
          return { s with responses := s.responses.eraseIdx i }.receiveResponse connected reqId
            response
      | none => return s

end AnsweringNode

/-! ## What a peer takes -/

/-- What a peer hands over to its other modules. -/
inductive HandedOver
  | currentBlock (block : BlockDocument)
  | receiveBlocks (chunk : List BlockDocument)
deriving DecidableEq

/-- The blocks that are handed over. -/
def HandedOver.blocks : HandedOver → List BlockDocument
  | .currentBlock block => [block]
  | .receiveBlocks chunk => chunk

/-- `receive_response` of a connection: what the request was about decides how its answer is
read. -/
def receiveAnswer (C : DocCrypto) (parseF64 : List Char → Option F64) (response : Json) :
    WS2Pv1ReqBody → Run (Option HandedOver)
  | .getCurrent => do
      let block ← (parseJsonBlock C parseF64 response).run
      return block.map .currentBlock
  | .getBlocks _ _ =>
      match response.asArray with
      | some jsonBlocks => do
          let blocks ← jsonBlocks.mapM fun jsonBlock => (parseJsonBlock C parseF64 jsonBlock).run
          return some (.receiveBlocks (blocks.filterMap id))
      | none => return none
  | .getBlock _ | .getRequirementsPending _ => return none

/-! ## Blocks without their inner hash -/

/-- The stored blocks have lost their inner hash. -/
def StoredReduced (blocks : BlocksV10DBs) : Prop :=
  ∀ number dalBlock, blocks.blockchainDb.get? number = some dalBlock →
    dalBlock.block.innerHash = none

theorem storedReduced_default : StoredReduced default := by
  rintro number dalBlock hget
  cases hget

/-- Lightening a block drops its inner hash. -/
theorem innerHash_of_reduce {C : Crypto} {block reduced : BlockDocument}
    (h : block.reduce C = .ok reduced) : reduced.innerHash = none := by
  rw [BlockDocument.reduce, bind_eq_ok_iff] at h
  obtain ⟨_, -, h⟩ := h
  obtain rfl := Except.ok.inj h
  rfl

theorem keptByQueries_storedReduced (C : Crypto) :
    KeptByQueries C StoredReduced (fun _ => True) where
  block := by
    intro blocks block reduced expireCerts hreduced hstored number dalBlock hget
    by_cases heq : number = reduced.number
    case pos =>
      rw [heq, HashMap.get?_insert_self] at hget
      obtain rfl := Option.some.inj hget
      exact innerHash_of_reduce hreduced
    case neg =>
      rw [HashMap.get?_insert_of_ne _ _ heq] at hget
      exact hstored number dalBlock hget
  query := fun _ _ => trivial

variable {blocks : BlocksV10DBs}

/-- Without the fork blocks, a block is looked up by its number alone. -/
theorem getBlock_none (blocks : BlocksV10DBs) (blockstamp : Blockstamp) :
    getBlock blocks none blockstamp = blocks.blockchainDb.get? blockstamp.id := by
  unfold getBlock
  cases blocks.blockchainDb.get? blockstamp.id with
  | none => rfl
  | some dalBlock => rfl

theorem StoredReduced.collectBlocks (h : StoredReduced blocks) {fuel : Nat} {number : BlockNumber}
    {collected all : List BlockDocument} (hcollected : ∀ block ∈ collected, block.innerHash = none)
    (hrun : collectBlocks blocks fuel number collected = .ok all) :
    ∀ block ∈ all, block.innerHash = none := by
  induction fuel generalizing number collected with
  | zero => cases hrun
  | succ fuel ih =>
      rw [Durs.collectBlocks] at hrun
      split at hrun
      case h_1 dalBlock hget =>
        refine ih (List.forall_mem_append.2 ⟨hcollected, ?_⟩) hrun
        exact List.forall_mem_singleton.2 (h number dalBlock hget)
      case h_2 => exact Except.ok.inj hrun ▸ hcollected

/-- The blockchain module answers with stored blocks. -/
theorem StoredReduced.receiveReq {fuel : Nat} {bc : BlockchainModule}
    (h : StoredReduced bc.dbs.blocks) {request : BlockchainRequest}
    {response : Option BlockchainResponse} (hrun : receiveReq fuel bc request = .ok response) :
    ∀ answer ∈ response, ∀ block ∈ answer.blocks, block.innerHash = none := by
  cases request with
  | currentBlock =>
      obtain rfl := Except.ok.inj hrun
      intro answer hanswer
      obtain ⟨dalBlock, hget, rfl⟩ := Option.map_eq_some_iff.1 hanswer
      rw [getBlock_none] at hget
      exact List.forall_mem_singleton.2 (h bc.currentBlockstamp.id dalBlock hget)
  | blockByNumber number =>
      obtain rfl := Except.ok.inj hrun
      intro answer hanswer
      obtain ⟨block, hblock, rfl⟩ := Option.map_eq_some_iff.1 hanswer
      obtain ⟨dalBlock, hget, rfl⟩ := Option.map_eq_some_iff.1 hblock
      exact List.forall_mem_singleton.2 (h number dalBlock hget)
  | chunk first count =>
      rw [Ws2pV1.receiveReq, bind_eq_ok_iff] at hrun
      obtain ⟨chunk, hchunk, hrun⟩ := hrun
      have hblocks := h.collectBlocks (List.forall_mem_nil _) hchunk
      intro answer hanswer
      cases hempty : chunk.isEmpty with
      | true =>
          rw [hempty] at hrun
          obtain rfl := Except.ok.inj hrun
          cases hanswer
      | false =>
          rw [hempty] at hrun
          obtain rfl := Except.ok.inj hrun
          obtain rfl := Option.some.inj hanswer
          exact hblocks

/-! ## Runs -/

namespace AnsweringNode

variable {K : Crypto} {S : SheetSort} {fuel : Nat} {s s' : AnsweringNode}

/-- No block that is stored, on its way or sent has its inner hash. -/
structure Reduced (s : AnsweringNode) : Prop where
  stored : PartsHold StoredReduced (fun _ => True) s.blockchain.1
  responses : ∀ response ∈ s.responses, ∀ block ∈ response.2.blocks, block.innerHash = none
  sent : ∀ response ∈ s.sent, ∀ block ∈ response.2.body.blocks, block.innerHash = none

namespace Reduced

theorem start : Reduced start where
  stored := ⟨storedReduced_default, trivial, storedReduced_default, trivial⟩
  responses := List.forall_mem_nil _
  sent := List.forall_mem_nil _

theorem sendResponse (h : s.Reduced) (connected : NodeFullId → Bool) (sender : NodeFullId)
    {response : WS2Pv1ReqRes} (hresponse : ∀ block ∈ response.body.blocks, block.innerHash = none) :
    (s.sendResponse connected sender response).Reduced := by
  rw [AnsweringNode.sendResponse]
  split
  case isTrue =>
    exact ⟨h.stored, h.responses,
      List.forall_mem_append.2 ⟨h.sent, List.forall_mem_singleton.2 hresponse⟩⟩
  case isFalse => exact h

theorem receiveWs2pV1Request (h : s.Reduced) (connected : NodeFullId → Bool) (sender : NodeFullId)
    (reqId : Uuid) (body : WS2Pv1ReqBody) :
    (s.receiveWs2pV1Request connected sender reqId body).Reduced := by
  rw [AnsweringNode.receiveWs2pV1Request]
  split
  case h_1 => exact ⟨h.stored, h.responses, h.sent⟩
  case h_2 => exact h.sendResponse connected sender (List.forall_mem_nil _)

theorem receiveResponse (h : s.Reduced) (connected : NodeFullId → Bool) (reqId : ModuleReqId)
    {response : BlockchainResponse}
    (hresponse : ∀ block ∈ response.blocks, block.innerHash = none) :
    (s.receiveResponse connected reqId response).Reduced := by
  cases response with
  | currentBlock block blockstamp =>
      rw [AnsweringNode.receiveResponse]
      split
      case h_1 full _ =>
        have hremoved : Reduced { s with pendingReceivedRequests :=
            s.pendingReceivedRequests.remove reqId } := ⟨h.stored, h.responses, h.sent⟩
        exact hremoved.sendResponse connected full.sender hresponse
      case h_2 => exact h
  | blockByNumber | chunk => exact h

/-- A step keeps it. -/
theorem step {op : Op} (h : s.Reduced) (hrun : s.step K S fuel op = .ok s') : s'.Reduced := by
  cases op with
  | blockchain op =>
      rw [AnsweringNode.step, bind_eq_ok_iff] at hrun
      obtain ⟨blockchain, happly, hrun⟩ := hrun
      obtain rfl := Except.ok.inj hrun
      exact ⟨(keptByQueries_storedReduced K).step h.stored happly, h.responses, h.sent⟩
  | request connected sender reqId body =>
      exact Except.ok.inj hrun ▸ h.receiveWs2pV1Request connected sender reqId body
  | answer i =>
      rw [AnsweringNode.step] at hrun
      split at hrun
      case h_1 reqId request _ =>
        rw [bind_eq_ok_iff] at hrun
        obtain ⟨response, hresponse, hrun⟩ := hrun
        obtain rfl := Except.ok.inj hrun
        refine ⟨h.stored, List.forall_mem_append.2 ⟨h.responses, ?_⟩, h.sent⟩
        intro entry hentry
        obtain ⟨answer, hanswer, rfl⟩ := Option.map_eq_some_iff.1 (Option.mem_toList.1 hentry)
        exact h.stored.blocks.receiveReq hresponse answer hanswer
      case h_2 => exact Except.ok.inj hrun ▸ h
  | respond connected i =>
      rw [AnsweringNode.step] at hrun
      split at hrun
      case h_1 reqId response hget =>
        obtain rfl := Except.ok.inj hrun
        have htaken : Reduced { s with responses := s.responses.eraseIdx i } :=
          ⟨h.stored, fun entry hentry => h.responses entry (List.mem_of_mem_eraseIdx hentry),
            h.sent⟩
        exact htaken.receiveResponse connected reqId
          (h.responses _ (List.mem_of_getElem? hget))
      case h_2 => exact Except.ok.inj hrun ▸ h

end Reduced

end AnsweringNode

/-! ## Answers without blocks -/

variable {C D : DocCrypto} {parseF64 : List Char → Option F64} {printF64 : F64 → String}

/-- A block without its inner hash is not read. -/
theorem not_read_of_innerHash {block : BlockDocument} (hinner : block.innerHash = none)
    {json : Json} (hjson : block.intoWs2pV1Json C printF64 = .ok json) {read : BlockDocument} :
    (parseJsonBlock D parseF64 json).run ≠ .ok (some read) := by
  intro h
  obtain ⟨transactions, issuer, signature, rfl⟩ := BlockDocument.exists_jsonWith hjson
  rw [parseJsonBlock] at h
  -- the fields before the inner hash
  iterate 10 obtain ⟨_, -, h⟩ := run_bind_eq_some_iff.1 h
  obtain ⟨innerHash, hinnerHash, -⟩ := run_bind_eq_some_iff.1 h
  replace hinnerHash : (Json.ofOption (block.innerHash.map Hash.toHex)).asStr = some innerHash :=
    run_option_eq_some_iff.1 hinnerHash
  rw [Json.asStr_ofOption, hinner] at hinnerHash
  cases hinnerHash

/-- What has no number is not read. -/
theorem not_read_of_number {json : Json} (hnumber : json.u64 "number" = none)
    {read : BlockDocument} : (parseJsonBlock D parseF64 json).run ≠ .ok (some read) := by
  intro h
  rw [parseJsonBlock] at h
  obtain ⟨number, hread, -⟩ := run_bind_eq_some_iff.1 h
  have hsome := run_option_eq_some_iff.1 hread
  rw [hnumber] at hsome
  cases hsome

/-- No block is read from an answer whose blocks have lost their inner hash, nor from one of its
elements. -/
theorem not_read_of_body {body : WS2Pv1ReqResBody}
    (hbody : ∀ block ∈ body.blocks, block.innerHash = none) {json : Json}
    (hjson : body.toJson C printF64 = .ok json) :
    (∀ read, (parseJsonBlock D parseF64 json).run ≠ .ok (some read)) ∧
      ∀ elems ∈ json.asArray, ∀ elem ∈ elems, ∀ read,
        (parseJsonBlock D parseF64 elem).run ≠ .ok (some read) := by
  cases body with
  | getCurrent block | getBlock block =>
      have hblock := List.forall_mem_singleton.1 hbody
      refine ⟨fun read => not_read_of_innerHash hblock hjson, ?_⟩
      obtain ⟨transactions, issuer, signature, rfl⟩ := BlockDocument.exists_jsonWith hjson
      intro elems helems
      cases helems
  | getBlocks blocks =>
      rw [WS2Pv1ReqResBody.toJson, bind_eq_ok_iff] at hjson
      obtain ⟨jsonBlocks, hmap, hjson⟩ := hjson
      obtain rfl := Except.ok.inj hjson
      refine ⟨fun read => not_read_of_number rfl, ?_⟩
      intro elems helems elem helem read
      obtain rfl := Option.some.inj helems
      obtain ⟨block, hblock, hserved⟩ := (mem_mapM_iff hmap _).1 helem
      exact not_read_of_innerHash (hbody block hblock) hserved
  | getRequirementsPending =>
      obtain rfl := Except.ok.inj hjson
      refine ⟨fun read => not_read_of_number rfl, ?_⟩
      intro elems helems
      cases helems

/-- In every run of a node, a peer takes no block from any response that it is sent, whatever it
had asked for. -/
theorem no_block_from_sent {K : Crypto} {S : SheetSort} {fuel : Nat} {s : AnsweringNode}
    (hreached : Reached .start (AnsweringNode.step K S fuel) (fun _ _ => True) s)
    {sent : NodeFullId × WS2Pv1ReqRes} (hsent : sent ∈ s.sent) {json : Json}
    (hjson : sent.2.body.toJson C printF64 = .ok json) {reqBody : WS2Pv1ReqBody}
    {handedOver : Option HandedOver}
    (hread : receiveAnswer D parseF64 json reqBody = .ok handedOver) :
    ∀ taken ∈ handedOver, taken.blocks = [] := by
  have hreduced : s.Reduced := hreached.invariant .start fun _ _ _ hinv _ hrun => hinv.step hrun
  obtain ⟨hnot, helems⟩ := @not_read_of_body C D parseF64 printF64 _ (hreduced.sent sent hsent) _
    hjson
  intro taken htaken
  cases reqBody with
  | getCurrent =>
      rw [receiveAnswer, bind_eq_ok_iff] at hread
      obtain ⟨block, hblock, hread⟩ := hread
      obtain rfl := Except.ok.inj hread
      obtain ⟨read, rfl, -⟩ := Option.map_eq_some_iff.1 htaken
      exact absurd hblock (hnot read)
  | getBlocks count fromNumber =>
      rw [receiveAnswer] at hread
      split at hread
      case h_1 jsonBlocks harray =>
        rw [bind_eq_ok_iff] at hread
        obtain ⟨blocks, hblocks, hread⟩ := hread
        obtain rfl := Except.ok.inj hread
        obtain rfl := Option.some.inj htaken
        refine List.filterMap_eq_nil_iff.2 fun block hblock => ?_
        obtain ⟨elem, helem, hparse⟩ := (mem_mapM_iff hblocks _).1 hblock
        cases block with
        | none => rfl
        | some read => exact absurd hparse (helems jsonBlocks harray elem helem read)
      case h_2 =>
        obtain rfl := Except.ok.inj hread
        cases htaken
  | getBlock | getRequirementsPending =>
      obtain rfl := Except.ok.inj hread
      cases htaken

/-- A node takes a block, and a peer asks it for its current block. -/
def currentBlockOps : List AnsweringNode.Op :=
  [.blockchain (.receiveBlock (mockBlock 0 0)),
    .request (fun _ => true) ⟨0, exampleKeyPair.pubkey⟩ 0 .getCurrent, .answer 0,
    .respond (fun _ => true) 0]

theorem no_block_from_sent_currentBlock : ∃ s sent json handedOver,
    currentBlockOps.foldlM (AnsweringNode.step mockCrypto .insertion 10) .start = .ok s ∧
    sent ∈ s.sent ∧ sent.2.body.toJson exampleCrypto (fun _ => "") = .ok json ∧
    receiveAnswer exampleCrypto (fun _ => none) json .getCurrent = .ok handedOver ∧
    ∀ taken ∈ handedOver, taken.blocks = [] := by
  have hreturns : ∃ s,
      currentBlockOps.foldlM (AnsweringNode.step mockCrypto .insertion 10) .start = .ok s ∧
      ∃ sent ∈ s.sent, Returns (do
        let json ← sent.2.body.toJson exampleCrypto (fun _ => "")
        receiveAnswer exampleCrypto (fun _ => none) json .getCurrent) := by
    decide +kernel
  obtain ⟨s, hrun, sent, hsent, handedOver, hanswer⟩ := hreturns
  rw [bind_eq_ok_iff] at hanswer
  obtain ⟨json, hjson, hread⟩ := hanswer
  have hreached : Reached .start (AnsweringNode.step mockCrypto .insertion 10)
      (fun _ _ => True) s := Reached.of_foldlM .init (fun _ _ _ => trivial) hrun
  exact ⟨s, sent, json, handedOver, hrun, hsent, hjson, hread,
    no_block_from_sent hreached hsent hjson hread⟩

end Durs.Ws2pV1
