/-
# Reading the chunks of a blockchain

The reader of a synchronisation takes the blocks from files of 250 blocks each.  The files are
parsed in batches of sixteen, and of their blocks those are sent that come after the current block
of the node, up to the target.
-/

import Durs.Dal.Readers
import Durs.Documents.JsonBlocks
import Durs.Documents.Lines
import Mathlib.Data.Finset.Range

namespace Durs.Sync

open RustStd Lib

/-! ## Constants -/

/-- Chunk size, in blocks. -/
def chunkSize : Nat := 250

/-- Number of chunks parsed before sending them to the apply workers. -/
def chunksStep : Nat := 16

/-- Chunk file name begin. -/
def chunkFileNameBegin : String := "chunk_"

/-- Chunk file name end. -/
def chunkFileNameEnd : String := "-250.json"

/-- The name of the file of a chunk. -/
def chunkFileName (chunkNumber : Nat) : String :=
  chunkFileNameBegin ++ toString chunkNumber ++ chunkFileNameEnd

/-! ## Files -/

/-- A directory of chunks: its files with their texts, in the order in which they are listed. -/
abbrev ChunksDir := List (String × String)

/-- `&text[len..]`. -/
def sliceFrom : List Char → Nat → Run (List Char)
  | text, 0 => return text
  | [], _ + 1 => fatalError "byte index is out of bounds"
  | c :: text, len + 1 =>
      if c.utf8Size ≤ len + 1 then sliceFrom text (len + 1 - c.utf8Size)
      else fatalError "byte index is not a char boundary"

/-- The number in the name of a file of a chunk. -/
def chunkNumberOf (fileName : String) : Run (Option Nat) := do
  let name := fileName.toList
  let nameBegin ← sliceTo name (byteLen chunkFileNameBegin.toList)
  if nameBegin ≠ chunkFileNameBegin.toList then return none
  else if byteLen name < byteLen chunkFileNameEnd.toList then
    fatalError "attempt to subtract with overflow"
  else do
    let numberEnd := byteLen name - byteLen chunkFileNameEnd.toList
    let nameEnd ← sliceFrom name numberEnd
    if nameEnd ≠ chunkFileNameEnd.toList then return none
    else do
      let front ← sliceTo name numberEnd
      let number ← sliceFrom front (byteLen chunkFileNameBegin.toList)
      return parseUnsigned 64 number

/-- `get_chunks_set`. -/
def getChunksSet (dir : ChunksDir) : Run (Finset Nat) := do
  let numbers ← dir.mapM fun file => chunkNumberOf file.1
  return (numbers.filterMap id).toFinset

/-- `open_json_chunk_file`. -/
def openJsonChunkFile (dir : ChunksDir) (chunkNumber : Nat) : Option String :=
  dir.lookup (chunkFileName chunkNumber)

/-! ## Chunks -/

variable (C : DocCrypto) (parseF64 : List Char → Option F64) (order : IterOrder)

/-- Parse json chunk into BlockDocument Vector. -/
def parseJsonChunk (jsonChunkContent : String) : OptionT Run (List BlockDocument) := do
  let jsonValue ← JSONValue.parseJsonString order jsonChunkContent
  let jsonObject ← OptionT.lift (expect jsonValue.toObject
    "Fail to parse json chunk : json root node must be an object !")
  let blocks ← OptionT.lift (expect (jsonObject.lookup "blocks")
    "Fail to parse json chunk : field \"blocks\" don't exist !")
  let blocksArray ← OptionT.lift (expect blocks.toArray
    "Fail to parse json chunk : field \"blocks\" must be an array !")
  blocksArray.mapM (Parsers.parseJsonBlock C parseF64)

/-- The blocks of a chunk, which stops the process when its file cannot be opened or parsed. -/
def readJsonChunk (dir : ChunksDir) (chunkNumber : Nat) : Run (List BlockDocument) := do
  let content ← expect (openJsonChunkFile dir chunkNumber) "Fail to open chunk file"
  let blocks ← (parseJsonChunk C parseF64 order content).run
  expect blocks "Fail to parse chunk file"

/-- Treat one JSON Chunk. -/
def treatOnceJsonChunk (dir : ChunksDir) (chunkNumber : Nat) : Run (Nat × List BlockDocument) := do
  let blocks ← readJsonChunk C parseF64 order dir chunkNumber
  return (chunkNumber, blocks)

/-! ## Sending -/

/-- The messages that the reader sends. -/
inductive MessForSyncThread
  | target (currency : CurrencyName) (blockstamp : Blockstamp)
  | blockDocument (block : BlockDocument)
  | downloadFinish

/-- Verify if the block number is within the expected interval. -/
def isExpected (currentBlockstamp : Blockstamp) (maxBlockId blockId : BlockNumber) : Bool :=
  (currentBlockstamp.id < blockId && blockId ≤ maxBlockId) ||
    (blockId = 0 && currentBlockstamp = default)

section

variable (currentBlockstamp : Blockstamp) (maxBlockId : BlockNumber)

/-- The blocks of a chunk that are sent. -/
def sendBlocks : List BlockDocument → Run (List BlockDocument)
  | [] => return []
  | block :: blocks => do
      let blockstamp ← block.blockstamp
      let sent ← sendBlocks blocks
      return if isExpected currentBlockstamp maxBlockId blockstamp.id then block :: sent else sent

/-- The blocks of a batch that are sent, chunk by chunk. -/
def sendChunks : List Nat → HashMap Nat (List BlockDocument) → Run (List BlockDocument)
  | [], _ => return []
  | chunkNumber :: chunksNumbers, chunksBlocks => do
      let blocks ← expect (chunksBlocks.get? chunkNumber)
        "Dev error: sync: chunk_blocks not contain key chunk_number !"
      let sent ← sendBlocks currentBlockstamp maxBlockId blocks
      let more ← sendChunks chunksNumbers (chunksBlocks.remove chunkNumber)
      return sent ++ more

/-- The blocks of all batches that are sent. -/
def sendBatches (dir : ChunksDir) (maxChunkNumber : Nat) :
    Nat → Nat → Run (List BlockDocument)
  | 0, _ => .error .outOfFuel
  | fuel + 1, beginChunkNumber =>
      if beginChunkNumber ≤ maxChunkNumber then do
        let lastChunkNumber :=
          if beginChunkNumber + chunksStep < maxChunkNumber + 1 then beginChunkNumber + chunksStep
          else maxChunkNumber + 1
        let chunksNumbers := List.range' beginChunkNumber (lastChunkNumber - beginChunkNumber)
        let chunks ← chunksNumbers.mapM (treatOnceJsonChunk C parseF64 order dir)
        let sent ← sendChunks currentBlockstamp maxBlockId chunksNumbers (HashMap.ofList chunks)
        let more ← sendBatches dir maxChunkNumber fuel (beginChunkNumber + chunksStep)
        return sent ++ more
      else return []

end

/-- Get max chunk number and max block id, which is cut to `u32`. -/
def maxNumbers (chunksSet : Finset Nat) (end' : Option BlockNumber) : Nat × BlockNumber :=
  match end' with
  | some number => (number / chunkSize, number)
  | none => (chunksSet.card - 1, (chunksSet.card * chunkSize - 1) % 4294967296)

/-- Json reader worker: the messages that it sends.  The databases are those of a currency. -/
def jsonReaderWorker (fuel : Nat) (blocksDatabases : CurrencyName → BlocksV10DBs)
    (dir : ChunksDir) (end' : Option BlockNumber) : Run (List MessForSyncThread) := do
  let chunksSet ← getChunksSet dir
  if chunksSet = ∅ then fatalError "json_files_path directory is empty !"
  else do
    let maxChunkNumber := (maxNumbers chunksSet end').1
    let maxBlockId := (maxNumbers chunksSet end').2
    if maxChunkNumber ∉ chunksSet then fatalError "Missing chunk file"
    else do
      let lastChunkBlocks ← readJsonChunk C parseF64 order dir maxChunkNumber
      if lastChunkBlocks = [] then fatalError "Last chunk is empty !"
      else do
        let lastBlock ← expect lastChunkBlocks[maxBlockId % chunkSize]?
          "safe unwrap because not empty"
        let target ← lastBlock.blockstamp
        let current ← getCurrentBlockstamp (blocksDatabases lastBlock.currency)
        let currentBlockstamp := current.getD default
        let firstChunkNumber := currentBlockstamp.id / chunkSize
        let blocks ← sendBatches C parseF64 order currentBlockstamp maxBlockId dir maxChunkNumber
          fuel firstChunkNumber
        return .target lastBlock.currency target ::
          blocks.map .blockDocument ++ [.downloadFinish]

variable {C parseF64 order}

/-! ## Names of files -/

theorem sliceFrom_append (text rest : List Char) :
    sliceFrom (text ++ rest) (byteLen text) = .ok rest := by
  induction text with
  | nil =>
      cases rest with
      | nil => rfl
      | cons => rfl
  | cons c text ih =>
      have hlen : byteLen (c :: text) = byteLen text + (c.utf8Size - 1) + 1 := by
        have hpos := Char.utf8Size_pos c
        rw [byteLen_cons]
        omega
      have hrest : byteLen text + (c.utf8Size - 1) + 1 - c.utf8Size = byteLen text := by
        have hpos := Char.utf8Size_pos c
        omega
      rw [hlen, List.cons_append, sliceFrom, if_pos (by omega), hrest, ih]

/-- The name of the file of a chunk holds the number of the chunk. -/
theorem chunkNumberOf_chunkFileName {chunkNumber : Nat} (h : chunkNumber < 2 ^ 64) :
    chunkNumberOf (chunkFileName chunkNumber) = .ok (some chunkNumber) := by
  have hname : (chunkFileName chunkNumber).toList = chunkFileNameBegin.toList ++
      ((toString chunkNumber).toList ++ chunkFileNameEnd.toList) := by
    rw [chunkFileName, String.toList_append, String.toList_append, List.append_assoc]
  have hle : ¬ byteLen (chunkFileNameBegin.toList ++
      ((toString chunkNumber).toList ++ chunkFileNameEnd.toList)) <
        byteLen chunkFileNameEnd.toList := by
    rw [byteLen_append, byteLen_append]
    omega
  have hnumberEnd : byteLen (chunkFileNameBegin.toList ++
      ((toString chunkNumber).toList ++ chunkFileNameEnd.toList)) -
        byteLen chunkFileNameEnd.toList =
      byteLen (chunkFileNameBegin.toList ++ (toString chunkNumber).toList) := by
    rw [byteLen_append, byteLen_append, byteLen_append]
    omega
  rw [chunkNumberOf, hname, sliceTo_append, ok_bind, if_neg (not_not.2 rfl), if_neg hle]
  simp only [hnumberEnd]
  rw [← List.append_assoc, sliceFrom_append, ok_bind, if_neg (not_not.2 rfl), sliceTo_append,
    ok_bind, sliceFrom_append, ok_bind, parseUnsigned_toString h]
  rfl

/-! ## Complete chunks -/

variable (C parseF64 order) in
/-- The files of the chunks up to one, each of which holds the blocks of its numbers in order. -/
structure CompleteChunks (dir : ChunksDir) (m : Nat) (blocks : Nat → List BlockDocument) :
    Prop where
  names : ∃ numbers : List Nat, numbers.Perm (List.range (m + 1)) ∧
    dir.map Prod.fst = numbers.map chunkFileName
  chunks : ∀ c ≤ m, ∃ content, openJsonChunkFile dir c = some content ∧
    (parseJsonChunk C parseF64 order content).run = .ok (some (blocks c))
  numbers : ∀ c ≤ m, (blocks c).map BlockDocument.number = List.range' (c * chunkSize) chunkSize

section

variable {dir : ChunksDir} {m : Nat} {blocks : Nat → List BlockDocument}

theorem CompleteChunks.getChunksSet_eq (h : CompleteChunks C parseF64 order dir m blocks)
    (hm : m < 2 ^ 64) : getChunksSet dir = .ok (Finset.range (m + 1)) := by
  rcases h.names with ⟨numbers, hperm, hnames⟩
  have hmap : (dir.map Prod.fst).mapM chunkNumberOf = .ok (numbers.map some) := by
    rw [hnames, List.mapM_map]
    refine mapM_eq_ok_map fun n hn => chunkNumberOf_chunkFileName ?_
    have hmem := List.mem_range.1 (hperm.mem_iff.1 hn)
    omega
  have hread : dir.mapM (fun file => chunkNumberOf file.1) = .ok (numbers.map some) := by
    rw [List.mapM_map] at hmap
    exact hmap
  rw [getChunksSet, hread, ok_bind, List.filterMap_map]
  have hset : (numbers.filterMap (id ∘ some)).toFinset = Finset.range (m + 1) := by
    ext n
    rw [Function.id_comp, List.filterMap_some, List.mem_toFinset, hperm.mem_iff, List.mem_range,
      Finset.mem_range]
  rw [hset]
  rfl

theorem CompleteChunks.readJsonChunk_eq (h : CompleteChunks C parseF64 order dir m blocks)
    {c : Nat} (hc : c ≤ m) : readJsonChunk C parseF64 order dir c = .ok (blocks c) := by
  rcases h.chunks c hc with ⟨content, hopen, hparse⟩
  rw [readJsonChunk, hopen, expect_some, ok_bind, hparse, ok_bind, expect_some]

/-! ## What is sent -/

variable {currentBlockstamp : Blockstamp} {maxBlockId : BlockNumber}

theorem sendBlocks_eq {chunk : List BlockDocument} (h : ∀ block ∈ chunk, block.hash.isSome) :
    sendBlocks currentBlockstamp maxBlockId chunk =
      .ok (chunk.filter fun block => isExpected currentBlockstamp maxBlockId block.number) := by
  induction chunk with
  | nil => rfl
  | cons block chunk ih =>
      rcases List.forall_mem_cons.1 h with ⟨hblock, hchunk⟩
      obtain ⟨hash, hhash⟩ := Option.isSome_iff_exists.1 hblock
      have hstamp : block.blockstamp = .ok ⟨block.number, hash⟩ :=
        BlockDocument.blockstamp_eq_ok_iff.2 ⟨rfl, hhash⟩
      rw [sendBlocks, hstamp, ok_bind, ih hchunk, ok_bind, List.filter_cons]
      rfl

/-- The chunks of a batch are taken out of the map in their order. -/
theorem sendChunks_eq {sent : Nat → List BlockDocument} {chunksNumbers : List Nat}
    (hnodup : chunksNumbers.Nodup) {chunks : HashMap Nat (List BlockDocument)}
    (hget : ∀ c ∈ chunksNumbers, chunks.get? c = some (blocks c))
    (hsent : ∀ c ∈ chunksNumbers, sendBlocks currentBlockstamp maxBlockId (blocks c) =
      .ok (sent c)) :
    sendChunks currentBlockstamp maxBlockId chunksNumbers chunks =
      .ok (chunksNumbers.flatMap sent) := by
  induction chunksNumbers generalizing chunks with
  | nil => rfl
  | cons c chunksNumbers ih =>
      rcases List.forall_mem_cons.1 hget with ⟨hc, hget⟩
      rcases List.forall_mem_cons.1 hsent with ⟨hsentC, hsent⟩
      rcases List.nodup_cons.1 hnodup with ⟨hnot, hnodup⟩
      have hrest : ∀ c' ∈ chunksNumbers, (chunks.remove c).get? c' = some (blocks c') := by
        intro c' hc'
        have hne : c' ≠ c := by
          rintro rfl
          exact hnot hc'
        rw [HashMap.get?_remove_of_ne _ hne, hget c' hc']
      rw [sendChunks, hc, expect_some, ok_bind, hsentC, ok_bind, ih hnodup hrest hsent, ok_bind,
        List.flatMap_cons]
      rfl

/-- A batch and the chunks after it. -/
theorem range'_batch (beginChunkNumber maxChunkNumber : Nat) :
    List.range' beginChunkNumber
        ((if beginChunkNumber + chunksStep < maxChunkNumber + 1 then beginChunkNumber + chunksStep
          else maxChunkNumber + 1) - beginChunkNumber) ++
      List.range' (beginChunkNumber + chunksStep)
        (maxChunkNumber + 1 - (beginChunkNumber + chunksStep)) =
      List.range' beginChunkNumber (maxChunkNumber + 1 - beginChunkNumber) := by
  by_cases hfull : beginChunkNumber + chunksStep < maxChunkNumber + 1
  · have hlen : maxChunkNumber + 1 - beginChunkNumber =
        chunksStep + (maxChunkNumber + 1 - (beginChunkNumber + chunksStep)) := by omega
    rw [if_pos hfull, Nat.add_sub_cancel_left, List.range'_append_1, hlen]
  · have hrest : maxChunkNumber + 1 - (beginChunkNumber + chunksStep) = 0 := by omega
    rw [if_neg hfull, hrest, List.range'_zero, List.append_nil]

/-- The batches cover the chunks from the first one on, sixteen at a time. -/
theorem sendBatches_eq {sent : Nat → List BlockDocument} {maxChunkNumber : Nat}
    (hread : ∀ c ≤ maxChunkNumber, readJsonChunk C parseF64 order dir c = .ok (blocks c))
    (hsent : ∀ c ≤ maxChunkNumber, sendBlocks currentBlockstamp maxBlockId (blocks c) =
      .ok (sent c)) {fuel beginChunkNumber : Nat}
    (hfuel : maxChunkNumber + 1 ≤ beginChunkNumber + chunksStep * fuel) :
    sendBatches C parseF64 order currentBlockstamp maxBlockId dir maxChunkNumber (fuel + 1)
        beginChunkNumber =
      .ok ((List.range' beginChunkNumber (maxChunkNumber + 1 - beginChunkNumber)).flatMap
        sent) := by
  induction fuel generalizing beginChunkNumber with
  | zero =>
      have hdone : ¬ beginChunkNumber ≤ maxChunkNumber := by omega
      have hnone : maxChunkNumber + 1 - beginChunkNumber = 0 := by omega
      rw [sendBatches, if_neg hdone, hnone]
      rfl
  | succ fuel ih =>
      by_cases hmore : beginChunkNumber ≤ maxChunkNumber
      · rw [sendBatches, if_pos hmore, ← range'_batch, List.flatMap_append]
        generalize hnumbers : List.range' beginChunkNumber
          ((if beginChunkNumber + chunksStep < maxChunkNumber + 1
            then beginChunkNumber + chunksStep else maxChunkNumber + 1) - beginChunkNumber) =
          chunksNumbers
        have hle : ∀ c ∈ chunksNumbers, c ≤ maxChunkNumber := by
          intro c hc
          rw [← hnumbers, List.mem_range'_1] at hc
          split at hc <;> omega
        have hnodup : chunksNumbers.Nodup := hnumbers ▸ List.nodup_range'
        have hchunks : chunksNumbers.mapM (treatOnceJsonChunk C parseF64 order dir) =
            .ok (chunksNumbers.map fun c => (c, blocks c)) := by
          refine mapM_eq_ok_map fun c hc => ?_
          rw [treatOnceJsonChunk, hread c (hle c hc)]
          rfl
        have hget : ∀ c ∈ chunksNumbers, (HashMap.ofList
            (chunksNumbers.map fun c => (c, blocks c))).get? c = some (blocks c) := by
          intro c hc
          rw [HashMap.ofList, HashMap.get?_insertAll_map, if_pos hc]
        have hbatch := sendChunks_eq hnodup hget fun c hc => hsent c (hle c hc)
        have hrest := @ih (beginChunkNumber + chunksStep)
          (by rw [Nat.mul_succ] at hfuel; omega)
        simp only [hnumbers, hchunks, ok_bind, hbatch, hrest]
        rfl
      · have hnone : maxChunkNumber + 1 - beginChunkNumber = 0 := by omega
        rw [sendBatches, if_neg hmore, hnone]
        rfl

end

end Durs.Sync
