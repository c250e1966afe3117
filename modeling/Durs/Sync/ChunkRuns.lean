/-
# Runs of the chunk reader

Which blocks the reader of complete chunks sends: those that come after the current block, up to the
target, in the order of their numbers.
-/

import Durs.Documents.JsonNumbers
import Durs.Sync.ChunkReader

namespace Durs.Sync

open RustStd Lib

/-! ## Intervals -/

/-- Chunks of consecutive numbers follow each other. -/
theorem flatMap_range'_mul (size first len : Nat) :
    ((List.range' first len).flatMap fun c => List.range' (c * size) size) =
      List.range' (first * size) (len * size) := by
  induction len generalizing first with
  | zero =>
      rw [Nat.zero_mul]
      rfl
  | succ len ih =>
      have hnext : (first + 1) * size = first * size + size := Nat.succ_mul first size
      have hlen : (len + 1) * size = size + len * size := by
        rw [Nat.succ_mul, Nat.add_comm]
      rw [List.range'_succ, List.flatMap_cons, ih, hnext, hlen, List.range'_append_1]

/-- An interval of an interval. -/
theorem filter_range'_eq {p : Nat → Bool} {lo len a n : Nat}
    (hsub : n = 0 ∨ lo ≤ a ∧ a + n ≤ lo + len)
    (h : ∀ i, lo ≤ i → i < lo + len → (p i ↔ a ≤ i ∧ i < a + n)) :
    (List.range' lo len).filter p = List.range' a n := by
  rcases hsub with rfl | ⟨hlo, hhi⟩
  · refine List.filter_eq_nil_iff.2 fun i hi => ?_
    rw [List.mem_range'_1] at hi
    rw [h i hi.1 hi.2]
    omega
  have hsplit : List.range' lo len = List.range' lo (a - lo) ++ (List.range' a n ++
      List.range' (a + n) (lo + len - (a + n))) := by
    have hmiddle : List.range' a n ++ List.range' (a + n) (lo + len - (a + n)) =
        List.range' (lo + (a - lo)) (lo + len - a) := by
      rw [List.range'_append_1, Nat.add_sub_cancel' hlo]
      congr 1
      omega
    rw [hmiddle, List.range'_append_1]
    congr 1
    omega
  have hbefore : (List.range' lo (a - lo)).filter p = [] := by
    refine List.filter_eq_nil_iff.2 fun i hi => ?_
    rw [List.mem_range'_1] at hi
    rw [h i hi.1 (by omega)]
    omega
  have hinside : (List.range' a n).filter p = List.range' a n := by
    refine List.filter_eq_self.2 fun i hi => ?_
    rw [List.mem_range'_1] at hi
    exact (h i (by omega) (by omega)).2 hi
  have hafter : (List.range' (a + n) (lo + len - (a + n))).filter p = [] := by
    refine List.filter_eq_nil_iff.2 fun i hi => ?_
    rw [List.mem_range'_1] at hi
    rw [h i (by omega) (by omega)]
    omega
  rw [hsplit, List.filter_append, List.filter_append, hbefore, hinside, hafter, List.append_nil,
    List.nil_append]

theorem filter_range'_le {len first last : Nat} (h : last < len) :
    (List.range' 0 len).filter (fun n => first ≤ n ∧ n ≤ last) =
      List.range' first (last + 1 - first) := by
  refine filter_range'_eq (by omega) fun i _ _ => ?_
  rw [decide_eq_true_iff]
  omega

/-- Elements that give nothing can be left out. -/
theorem flatMap_filter_of_eq_nil {α β : Type} {p : α → Bool} {f : α → List β} {l : List α}
    (h : ∀ a ∈ l, p a = false → f a = []) : (l.filter p).flatMap f = l.flatMap f := by
  induction l with
  | nil => rfl
  | cons a l ih =>
      rcases List.forall_mem_cons.1 h with ⟨ha, hl⟩
      cases hp : p a with
      | true => rw [List.filter_cons_of_pos hp, List.flatMap_cons, List.flatMap_cons, ih hl]
      | false =>
          rw [List.filter_cons_of_neg (by simp [hp]), List.flatMap_cons, ha hp, List.nil_append,
            ih hl]

/-! ## Runs of the reader -/

section

variable {C : DocCrypto} {parseF64 : List Char → Option F64} {order : IterOrder} {dir : ChunksDir}
  {m : Nat} {blocks : Nat → List BlockDocument} {maxBlockId : BlockNumber}

theorem CompleteChunks.hash_isSome (h : CompleteChunks C parseF64 order dir m blocks) {c : Nat}
    (hc : c ≤ m) : ∀ block ∈ blocks c, block.hash.isSome ∧ block.number < 2 ^ 32 := by
  rcases h.chunks c hc with ⟨content, -, hparse⟩
  rw [parseJsonChunk] at hparse
  rcases run_bind_eq_some_iff.1 hparse with ⟨_, -, hparse⟩
  rcases run_bind_eq_some_iff.1 hparse with ⟨_, -, hparse⟩
  rcases run_bind_eq_some_iff.1 hparse with ⟨_, -, hparse⟩
  rcases run_bind_eq_some_iff.1 hparse with ⟨_, -, hparse⟩
  intro block hblock
  rcases exists_of_run_mapM hparse block hblock with ⟨_, -, hread⟩
  exact Parsers.hash_of_parseJsonBlock hread

/-- The numbers of all blocks are of the type of a number. -/
theorem CompleteChunks.le (h : CompleteChunks C parseF64 order dir m blocks) :
    (m + 1) * chunkSize ≤ 2 ^ 32 := by
  have hlast : (m + 1) * chunkSize - 1 ∈ (blocks m).map BlockDocument.number := by
    rw [h.numbers m le_rfl, List.mem_range'_1, chunkSize]
    omega
  rcases List.mem_map.1 hlast with ⟨block, hblock, hnumber⟩
  have hlt : (m + 1) * chunkSize - 1 < 2 ^ 32 := hnumber ▸ (h.hash_isSome le_rfl block hblock).2
  omega

/-- The number from which blocks are expected: that after the current block, or zero on a chain
that is empty.  The blockstamp of zeros stands for the current block of an empty chain. -/
def firstExpected (current : Option Blockstamp) : BlockNumber :=
  if current.getD default = default then 0 else (current.getD default).id + 1

theorem isExpected_iff {current : Option Blockstamp} {blockId : BlockNumber} :
    isExpected (current.getD default) maxBlockId blockId ↔
      firstExpected current ≤ blockId ∧ blockId < maxBlockId + 1 := by
  rw [isExpected, firstExpected]
  by_cases hdefault : current.getD default = default
  · have hid : (default : Blockstamp).id = 0 := rfl
    have hzero : 0 < blockId ∧ blockId ≤ maxBlockId ∨ blockId = 0 ↔ blockId ≤ maxBlockId := by
      rw [Nat.pos_iff_ne_zero]
      constructor
      · rintro (h | rfl)
        · exact h.2
        · exact Nat.zero_le _
      · intro h
        by_cases hblockId : blockId = 0
        · exact Or.inr hblockId
        · exact Or.inl ⟨hblockId, h⟩
    rw [if_pos hdefault, hdefault, hid, Nat.lt_succ_iff]
    simpa using hzero
  · rw [if_neg hdefault, Nat.lt_succ_iff, Nat.succ_le_iff]
    simp [hdefault]

variable (m blocks maxBlockId) in
/-- The blocks of the chunks that are expected, in the order in which they stand there. -/
def expectedBlocks (current : Option Blockstamp) : List BlockDocument :=
  ((List.range (m + 1)).flatMap blocks).filter fun block =>
    firstExpected current ≤ block.number ∧ block.number ≤ maxBlockId

/-- The numbers of the expected blocks increase by one from the first one to the last one. -/
theorem CompleteChunks.map_number_expectedBlocks
    (h : CompleteChunks C parseF64 order dir m blocks) (hmax : maxBlockId < (m + 1) * chunkSize)
    (current : Option Blockstamp) :
    (expectedBlocks m blocks maxBlockId current).map BlockDocument.number =
      List.range' (firstExpected current) (maxBlockId + 1 - firstExpected current) := by
  have hnumbers : ((List.range (m + 1)).flatMap blocks).map BlockDocument.number =
      List.range' (0 * chunkSize) ((m + 1) * chunkSize) := by
    rw [List.map_flatMap, ← flatMap_range'_mul, List.range_eq_range']
    refine List.flatMap_congr fun c hc => h.numbers c ?_
    rw [List.mem_range'_1] at hc
    omega
  have hfilter := List.filter_map (f := BlockDocument.number)
    (p := fun n => decide (firstExpected current ≤ n ∧ n ≤ maxBlockId))
    (l := (List.range (m + 1)).flatMap blocks)
  rw [hnumbers, Nat.zero_mul] at hfilter
  exact hfilter.symm.trans (filter_range'_le hmax)

/-- No chunk before that of the current block or after that of the last block has expected
blocks. -/
theorem CompleteChunks.filter_eq_nil (h : CompleteChunks C parseF64 order dir m blocks)
    {current : Option Blockstamp} {c : Nat} (hc : c ≤ m)
    (hout : c < (current.getD default).id / chunkSize ∨ maxBlockId / chunkSize < c) :
    (blocks c).filter (fun block => isExpected (current.getD default) maxBlockId block.number) =
      [] := by
  refine List.filter_eq_nil_iff.2 fun block hblock => ?_
  have hnumber : block.number ∈ List.range' (c * chunkSize) chunkSize :=
    h.numbers c hc ▸ List.mem_map_of_mem hblock
  rw [List.mem_range'_1] at hnumber
  rw [isExpected_iff, not_and_or, not_le, not_lt]
  rcases hout with hbefore | hafter
  · left
    have hlt : block.number < (current.getD default).id := calc
      block.number < (c + 1) * chunkSize := by rw [Nat.succ_mul]; exact hnumber.2
      _ ≤ (current.getD default).id / chunkSize * chunkSize := Nat.mul_le_mul_right _ hbefore
      _ ≤ (current.getD default).id := Nat.div_mul_le_self _ _
    rw [firstExpected]
    split
    case isTrue hdefault =>
      rw [hdefault] at hlt
      exact absurd hlt (Nat.not_lt_zero _)
    case isFalse => exact Nat.lt_succ_of_lt hlt
  · right
    exact le_trans (Nat.succ_le_of_lt ((Nat.div_lt_iff_lt_mul (by decide)).1 hafter)) hnumber.1

/-- The chunks from that of the current block to that of the last block hold all expected blocks. -/
theorem CompleteChunks.flatMap_filter_eq (h : CompleteChunks C parseF64 order dir m blocks)
    (hmax : maxBlockId / chunkSize ≤ m) (current : Option Blockstamp) :
    (List.range' ((current.getD default).id / chunkSize)
        (maxBlockId / chunkSize + 1 - (current.getD default).id / chunkSize)).flatMap
      (fun c => (blocks c).filter
        fun block => isExpected (current.getD default) maxBlockId block.number) =
      expectedBlocks m blocks maxBlockId current := by
  rw [← filter_range'_le (Nat.lt_succ_of_le hmax), flatMap_filter_of_eq_nil, ← List.range_eq_range', expectedBlocks,
    List.filter_flatMap]
  · refine List.flatMap_congr fun c _ => List.filter_congr fun block _ => ?_
    rw [Bool.eq_iff_iff, isExpected_iff, decide_eq_true_iff, Nat.lt_succ_iff]
  · intro c hc hout
    rw [decide_eq_false_iff_not, not_and_or, not_le, not_le] at hout
    rw [List.mem_range'_1] at hc
    exact h.filter_eq_nil (by omega) hout

/-- The number of the target: the end, or that of the last block of the chunks. -/
def targetNumber (m : Nat) : Option BlockNumber → BlockNumber
  | some number => number
  | none => (m + 1) * chunkSize - 1

theorem CompleteChunks.maxNumbers_eq (h : CompleteChunks C parseF64 order dir m blocks)
    (end' : Option BlockNumber) : maxNumbers (Finset.range (m + 1)) end' =
      (targetNumber m end' / chunkSize, targetNumber m end') := by
  cases end' with
  | some number => rfl
  | none =>
      have hle := h.le
      have hpos : 0 < (m + 1) * chunkSize := Nat.mul_pos (Nat.succ_pos m) (by decide)
      have hlt : (m + 1) * chunkSize - 1 < 4294967296 := by omega
      have hchunk : ((m + 1) * chunkSize - 1) / chunkSize = m := by
        rw [chunkSize]
        omega
      rw [maxNumbers, targetNumber, Finset.card_range, Nat.mod_eq_of_lt hlt, hchunk,
        Nat.add_sub_cancel]

theorem targetNumber_lt {end' : Option BlockNumber}
    (hend : ∀ number ∈ end', number < (m + 1) * chunkSize) :
    targetNumber m end' < (m + 1) * chunkSize := by
  cases end' with
  | some number => exact hend number rfl
  | none => exact Nat.sub_lt (Nat.mul_pos (Nat.succ_pos m) (by decide)) Nat.one_pos

/-- The last block that is read has the number of the target. -/
theorem CompleteChunks.exists_getElem? (h : CompleteChunks C parseF64 order dir m blocks)
    {number : BlockNumber} (hnumber : number / chunkSize ≤ m) :
    ∃ lastBlock hash, (blocks (number / chunkSize))[number % chunkSize]? = some lastBlock ∧
      lastBlock.number = number ∧ lastBlock.hash = some hash := by
  have hget : ((blocks (number / chunkSize)).map BlockDocument.number)[number % chunkSize]? =
      some number := by
    rw [h.numbers _ hnumber, List.getElem?_range' (Nat.mod_lt _ (by decide)), Nat.one_mul,
      Nat.div_add_mod']
  rw [List.getElem?_map, Option.map_eq_some_iff] at hget
  rcases hget with ⟨lastBlock, hlast, hlastNumber⟩
  have hhash := (h.hash_isSome hnumber lastBlock (List.mem_of_getElem? hlast)).1
  rcases Option.isSome_iff_exists.1 hhash with ⟨hash, hhash⟩
  exact ⟨lastBlock, hash, hlast, hlastNumber, hhash⟩

/-- The reader names its target, sends the expected blocks, and ends. -/
theorem CompleteChunks.jsonReaderWorker_eq (h : CompleteChunks C parseF64 order dir m blocks)
    {end' : Option BlockNumber} (hend : ∀ number ∈ end', number < (m + 1) * chunkSize)
    {fuel : Nat} (hfuel : m / chunksStep + 2 ≤ fuel)
    {blocksDatabases : CurrencyName → BlocksV10DBs} {lastBlock : BlockDocument} {hash : Hash}
    (hlast : (blocks (targetNumber m end' / chunkSize))[targetNumber m end' % chunkSize]? =
      some lastBlock) (hnumber : lastBlock.number = targetNumber m end')
    (hhash : lastBlock.hash = some hash) {current : Option Blockstamp}
    (hcurrent : getCurrentBlockstamp (blocksDatabases lastBlock.currency) = .ok current) :
    jsonReaderWorker C parseF64 order fuel blocksDatabases dir end' =
      .ok (.target lastBlock.currency ⟨targetNumber m end', hash⟩ ::
        (expectedBlocks m blocks (targetNumber m end') current).map .blockDocument ++
          [.downloadFinish]) := by
  have hle := h.le
  have hm : m < 2 ^ 64 := by
    rw [chunkSize] at hle
    omega
  have hmax : targetNumber m end' / chunkSize ≤ m :=
    Nat.lt_succ_iff.1 ((Nat.div_lt_iff_lt_mul (by decide)).2 (targetNumber_lt hend))
  have hnonempty : blocks (targetNumber m end' / chunkSize) ≠ [] := by
    intro hempty
    rw [hempty] at hlast
    cases hlast
  have hstamp : lastBlock.blockstamp = .ok ⟨targetNumber m end', hash⟩ :=
    BlockDocument.blockstamp_eq_ok_iff.2 ⟨hnumber, hhash⟩
  obtain ⟨fuel, rfl⟩ : ∃ n, fuel = n + 1 :=
    Nat.exists_eq_succ_of_ne_zero (Nat.pos_iff_ne_zero.1 ((Nat.succ_pos _).trans_le hfuel))
  have hcover : m + 1 ≤ chunksStep * fuel := by
    rw [chunksStep] at hfuel ⊢
    omega
  have hbatches : sendBatches C parseF64 order (current.getD default) (targetNumber m end') dir
      (targetNumber m end' / chunkSize) (fuel + 1) ((current.getD default).id / chunkSize) = _ :=
    sendBatches_eq (fun c hc => h.readJsonChunk_eq (hc.trans hmax))
    (fun c hc => sendBlocks_eq fun block hblock =>
      (h.hash_isSome (hc.trans hmax) block hblock).1)
    ((Nat.succ_le_succ hmax).trans (hcover.trans (Nat.le_add_left _ _)))
  rw [jsonReaderWorker, h.getChunksSet_eq hm, ok_bind, if_neg (by simp), h.maxNumbers_eq,
    if_neg (by simpa [Nat.lt_succ_iff] using hmax), h.readJsonChunk_eq hmax, ok_bind,
    if_neg hnonempty, hlast, expect_some, ok_bind, hstamp, ok_bind, hcurrent, ok_bind]
  dsimp only
  rw [hbatches, h.flatMap_filter_eq hmax]
  rfl

/-- The reader of complete chunks names its target, sends exactly the blocks that come after the
current one up to the target, in the order of their numbers, and ends. -/
theorem CompleteChunks.sendsExpected (h : CompleteChunks C parseF64 order dir m blocks)
    {end' : Option BlockNumber} (hend : ∀ number ∈ end', number < (m + 1) * chunkSize) {fuel : Nat}
    (hfuel : m / chunksStep + 2 ≤ fuel) (blocksDatabases : CurrencyName → BlocksV10DBs) :
    ∃ lastBlock ∈ blocks (targetNumber m end' / chunkSize), ∃ hash,
      lastBlock.number = targetNumber m end' ∧ lastBlock.hash = some hash ∧
      ∀ current, getCurrentBlockstamp (blocksDatabases lastBlock.currency) = .ok current →
        jsonReaderWorker C parseF64 order fuel blocksDatabases dir end' =
          .ok (.target lastBlock.currency ⟨targetNumber m end', hash⟩ ::
            (expectedBlocks m blocks (targetNumber m end') current).map .blockDocument ++
              [.downloadFinish]) ∧
        (expectedBlocks m blocks (targetNumber m end') current).map BlockDocument.number =
          List.range' (firstExpected current)
            (targetNumber m end' + 1 - firstExpected current) := by
  have hmax : targetNumber m end' / chunkSize ≤ m :=
    Nat.lt_succ_iff.1 ((Nat.div_lt_iff_lt_mul (by decide)).2 (targetNumber_lt hend))
  rcases h.exists_getElem? hmax with ⟨lastBlock, hash, hlast, hnumber, hhash⟩
  refine ⟨lastBlock, List.mem_of_getElem? hlast, hash, hnumber, hhash, fun current hcurrent => ?_⟩
  exact ⟨h.jsonReaderWorker_eq hend hfuel hlast hnumber hhash hcurrent,
    h.map_number_expectedBlocks (targetNumber_lt hend) current⟩

end

/-! ## An example -/

/-- The text of a chunk of blocks without content, of given numbers. -/
def exampleChunk (numbers : List Nat) : JsonText :=
  .object [("blocks", .array (numbers.map fun n => .object (exampleMembers n 10)))]

/-- A directory of one complete chunk. -/
def exampleDir : ChunksDir :=
  [(chunkFileName 0, String.ofList (exampleChunk (List.range' 0 chunkSize)).chars)]

theorem writes_exampleChunk (numbers : List Nat) :
    JsonText.Writes (String.ofList (exampleChunk numbers).chars) (exampleChunk numbers) := by
  refine JsonText.IsWritten.writes (.object ?_ ?_) trivial
  · rw [List.forall_mem_singleton]
    have hplain : "blocks".toList.all (fun c => c ≠ '"' && c ≠ '\\') := by decide
    exact JsonGrammar.isInner_of_plain hplain
  · rw [List.forall_mem_singleton]
    refine .array fun elem helem => ?_
    rcases List.mem_map.1 helem with ⟨n, -, rfl⟩
    exact isWritten_exampleMembers n 10

/-- A chunk of blocks without content is parsed into blocks of its numbers. -/
theorem exists_parseJsonChunk_exampleChunk {numbers : List Nat}
    (hnumbers : ∀ n ∈ numbers, n < 2 ^ 32) :
    ∃ blocks, (parseJsonChunk exampleCrypto (fun _ => none) JSONValue.entryOrder
        (String.ofList (exampleChunk numbers).chars)).run = .ok (some blocks) ∧
      blocks.map BlockDocument.number = numbers := by
  have hread : ∀ n ∈ numbers, ∃ block, (Parsers.parseJsonBlock exampleCrypto (fun _ => none)
      ((JsonText.object (exampleMembers n 10)).read JSONValue.entryOrder)).run =
        .ok (some block) ∧ n = block.number := by
    intro n hn
    rcases exists_parseJsonBlock JSONValue.entryOrder (writesBlock_exampleBlock n 10)
      (hnumbers n hn) with ⟨block, hblock, hreads⟩
    have hnumber : block.number = Float64.readUnsigned 32 n :=
      congrArg BlockNumbers.number hreads.numbers
    exact ⟨block, hblock, (hnumber.trans (Float64.readUnsigned_of_lt (hnumbers n hn))).symm⟩
  rcases exists_run_mapM hread with ⟨blocks, hblocks, hall⟩
  have hmap : numbers = blocks.map BlockDocument.number := by
    rw [← List.forall₂_eq_eq_eq]
    exact List.forall₂_map_right_iff.2 hall
  refine ⟨blocks, ?_, hmap.symm⟩
  refine run_bind_eq_some_iff.2 ⟨_, (writes_exampleChunk numbers).parseJsonString, ?_⟩
  refine run_bind_eq_some_iff.2 ⟨_, run_lift_eq_some_iff.2 rfl, ?_⟩
  refine run_bind_eq_some_iff.2 ⟨_, run_lift_eq_some_iff.2 rfl, ?_⟩
  refine run_bind_eq_some_iff.2 ⟨_, run_lift_eq_some_iff.2 rfl, ?_⟩
  rw [JsonText.elemsRead_eq_map, List.map_map, List.mapM_map]
  exact hblocks

theorem exists_completeChunks_exampleDir :
    ∃ blocks, CompleteChunks exampleCrypto (fun _ => none) JSONValue.entryOrder exampleDir 0
      blocks := by
  have hnumbers : ∀ n ∈ List.range' 0 chunkSize, n < 2 ^ 32 := by
    intro n hn
    rw [List.mem_range'_1, chunkSize] at hn
    omega
  rcases exists_parseJsonChunk_exampleChunk hnumbers with ⟨blocks, hblocks, hmap⟩
  refine ⟨fun _ => blocks, ⟨[0], List.Perm.refl _, rfl⟩, fun c hc => ?_, fun c hc => ?_⟩
  · obtain rfl := Nat.le_zero.1 hc
    exact ⟨_, List.lookup_cons_self, hblocks⟩
  · obtain rfl := Nat.le_zero.1 hc
    exact hmap

theorem sendsExpected_exampleDir :
    ∃ blocks currency hash,
      jsonReaderWorker exampleCrypto (fun _ => none) JSONValue.entryOrder 2 (fun _ => default)
          exampleDir (some 99) =
        .ok (.target currency ⟨99, hash⟩ :: (expectedBlocks 0 blocks 99 none).map .blockDocument ++
          [.downloadFinish]) ∧
      (expectedBlocks 0 blocks 99 none).map BlockDocument.number = List.range' 0 100 := by
  rcases exists_completeChunks_exampleDir with ⟨blocks, h⟩
  have hend : ∀ number ∈ some 99, number < (0 + 1) * chunkSize := by decide
  rcases h.sendsExpected hend (le_refl 2) (fun _ => default) with
    ⟨lastBlock, -, hash, -, -, hrun⟩
  exact ⟨blocks, lastBlock.currency, hash, hrun none rfl⟩

/-- Databases of which the current block is the first one, with a hash of zeros. -/
def exampleFirstDbs : BlocksV10DBs :=
  ⟨HashMap.ofList [(0, { block := exampleBlock 0 10, expireCerts := none })]⟩

/-- The current block is sent again when it is the first one with a hash of zeros, the blockstamp
of which stands for an empty chain. -/
theorem sendsCurrent_exampleDir :
    ∃ blocks messages block,
      CompleteChunks exampleCrypto (fun _ => none) JSONValue.entryOrder exampleDir 0 blocks ∧
      getCurrentBlockstamp exampleFirstDbs = .ok (some ⟨0, 0⟩) ∧
      jsonReaderWorker exampleCrypto (fun _ => none) JSONValue.entryOrder 2
        (fun _ => exampleFirstDbs) exampleDir (some 99) = .ok messages ∧
      MessForSyncThread.blockDocument block ∈ messages ∧ block.number = 0 := by
  rcases exists_completeChunks_exampleDir with ⟨blocks, h⟩
  have hend : ∀ number ∈ some 99, number < (0 + 1) * chunkSize := by decide
  have hcurrent : getCurrentBlockstamp exampleFirstDbs = .ok (some ⟨0, 0⟩) := rfl
  have hmax : 99 / chunkSize ≤ 0 := by decide
  rcases h.exists_getElem? hmax with ⟨lastBlock, hash, hlast, hnumber, hhash⟩
  have hsent : 0 ∈ (expectedBlocks 0 blocks 99 (some ⟨0, 0⟩)).map BlockDocument.number := by
    rw [h.map_number_expectedBlocks (by decide) (some ⟨0, 0⟩)]
    decide +kernel
  rcases List.mem_map.1 hsent with ⟨block, hblock, hzero⟩
  refine ⟨blocks, _, block, h, hcurrent,
    h.jsonReaderWorker_eq hend (le_refl 2) hlast hnumber hhash hcurrent, ?_, hzero⟩
  exact List.mem_append_left _ (List.mem_cons_of_mem _ (List.mem_map_of_mem hblock))

end Durs.Sync
