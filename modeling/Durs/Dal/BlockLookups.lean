/-
# Looking blocks up

The local chain is keyed by number and the fork store by blockstamp.  A lookup by blockstamp takes
the block of the chain for its number alone, and the reading of a chunk goes on to the end of the
chain, whatever the count.
-/

import Durs.Dal.KnownBlocks
import Mathlib.Data.List.Range

namespace Durs

open RustStd

variable {blocks : BlocksV10DBs} {blockstamp : Blockstamp}

/-! ## The keys of the stores -/

/-- Each block of the local chain is stored under its number. -/
def ChainKeyed (blocks : BlocksV10DBs) : Prop :=
  ∀ number dalBlock, blocks.blockchainDb.get? number = some dalBlock →
    dalBlock.block.number = number

/-- Each fork block is stored under its blockstamp. -/
def ForksKeyed (forkBlocksDb : HashMap Blockstamp DALBlock) : Prop :=
  ∀ blockstamp dalBlock, forkBlocksDb.get? blockstamp = some dalBlock →
    dalBlock.blockstamp = .ok blockstamp

theorem ForksKeyed.insert {forkBlocksDb : HashMap Blockstamp DALBlock} (h : ForksKeyed forkBlocksDb)
    {dalBlock : DALBlock} (hstamp : dalBlock.blockstamp = .ok blockstamp) :
    ForksKeyed (forkBlocksDb.insert blockstamp dalBlock) := by
  intro key found hget
  rw [HashMap.get?_insert] at hget
  split at hget
  case isTrue heq =>
    obtain rfl := Option.some.inj hget
    rw [heq, hstamp]
  case isFalse => exact h key found hget

theorem ForksKeyed.removeAll {forkBlocksDb : HashMap Blockstamp DALBlock}
    (h : ForksKeyed forkBlocksDb) (keys : List Blockstamp) :
    ForksKeyed (forkBlocksDb.removeAll keys) := by
  intro key found hget
  rw [HashMap.get?_removeAll] at hget
  split at hget
  case isTrue => cases hget
  case isFalse => exact h key found hget

/-- A new head block is stored under its number and under its blockstamp. -/
theorem keyed_insertNewHeadBlock {forks : ForksDBs} {dalBlock : DALBlock} {blocks' : BlocksV10DBs}
    {forks' : ForksDBs} (hchain : ChainKeyed blocks) (hforks : ForksKeyed forks.forkBlocksDb)
    (h : insertNewHeadBlock blocks forks dalBlock = .ok (blocks', forks')) :
    ChainKeyed blocks' ∧ ForksKeyed forks'.forkBlocksDb := by
  simp only [insertNewHeadBlock, bind_eq_ok_iff, pure_eq_ok_iff] at h
  rcases h with ⟨stamp, hstamp, ⟨tree, removed⟩, -, hstores⟩
  cases hstores
  constructor
  · intro number found hget
    rw [HashMap.get?_insert] at hget
    split at hget
    case isTrue heq =>
      obtain rfl := Option.some.inj hget
      exact heq.symm
    case isFalse => exact hchain number found hget
  · exact (hforks.insert hstamp).removeAll removed

/-- So are a new fork block and the orphans above it. -/
theorem keyed_insertNewForkBlockAux {fuel : Nat} {forks forks' : ForksDBs} {dalBlock : DALBlock}
    {inserted : Bool} (hforks : ForksKeyed forks.forkBlocksDb)
    (h : insertNewForkBlockAux fuel forks dalBlock = .ok (forks', inserted)) :
    ForksKeyed forks'.forkBlocksDb := by
  induction fuel generalizing forks forks' dalBlock inserted with
  | zero => cases h
  | succ fuel ih =>
      simp only [insertNewForkBlockAux, bind_eq_ok_iff] at h
      rcases h with ⟨stamp, hstamp, ⟨tree, found⟩, -, h⟩
      cases found with
      | false =>
          cases h
          exact hforks
      | true =>
          rw [if_pos rfl, bind_eq_ok_iff] at h
          rcases h with ⟨last, hfold, hpair⟩
          cases hpair
          refine foldlM_preserves (P := fun forks : ForksDBs => ForksKeyed forks.forkBlocksDb)
            ?_ (hforks.insert hstamp) hfold
          intro mid stackable next _ hmid hstep
          rw [bind_eq_ok_iff] at hstep
          rcases hstep with ⟨⟨next', inserted'⟩, hrun, heq⟩
          cases heq
          exact ih hmid hrun

theorem keyed_insertNewForkBlock {forks forks' : ForksDBs} {dalBlock : DALBlock} {inserted : Bool}
    (hforks : ForksKeyed forks.forkBlocksDb)
    (h : insertNewForkBlock forks dalBlock = .ok (forks', inserted)) :
    ForksKeyed forks'.forkBlocksDb := keyed_insertNewForkBlockAux hforks h

/-! ## By blockstamp -/

theorem DALBlock.blockstamp_eq_ok_iff {dalBlock : DALBlock} :
    dalBlock.blockstamp = .ok blockstamp ↔
      dalBlock.block.number = blockstamp.id ∧ dalBlock.block.hash = some blockstamp.hash := by
  simp only [DALBlock.blockstamp, BlockDocument.blockstamp, bind_eq_ok_iff, expect_eq_ok_iff,
    pure_eq_ok_iff]
  constructor
  · rintro ⟨hash, hhash, rfl⟩
    exact ⟨rfl, hhash⟩
  · rintro ⟨hnumber, hhash⟩
    exact ⟨_, hhash, by rw [hnumber]⟩

/-- The fork store, if it is given, holds the block. -/
def InForkBlocks (forkBlocksDb : Option (HashMap Blockstamp DALBlock)) (blockstamp : Blockstamp) :
    Prop :=
  ∃ forkBlocks ∈ forkBlocksDb, forkBlocks.containsKey blockstamp = true

/-- Whether the lookup finds a block exactly when one with the blockstamp is stored, and then one
with the blockstamp. -/
structure LooksUp (blocks : BlocksV10DBs) (forkBlocksDb : Option (HashMap Blockstamp DALBlock))
    (blockstamp : Blockstamp) : Prop where
  found_iff : (∃ dalBlock, getBlock blocks forkBlocksDb blockstamp = some dalBlock) ↔
    InLocalChain blocks blockstamp ∨ InForkBlocks forkBlocksDb blockstamp
  blockstamp_eq : ∀ dalBlock, getBlock blocks forkBlocksDb blockstamp = some dalBlock →
    dalBlock.blockstamp = .ok blockstamp

/-- The lookup respects the blockstamp exactly when the local chain has no other block of that
number. -/
theorem looksUp_iff {forkBlocksDb : Option (HashMap Blockstamp DALBlock)}
    (hchain : ChainKeyed blocks) (hforks : ∀ forkBlocks ∈ forkBlocksDb, ForksKeyed forkBlocks) :
    LooksUp blocks forkBlocksDb blockstamp ↔
      ∀ dalBlock, blocks.blockchainDb.get? blockstamp.id = some dalBlock →
        dalBlock.block.hash = some blockstamp.hash := by
  cases hget : blocks.blockchainDb.get? blockstamp.id with
  | some dalBlock =>
      have hfound : getBlock blocks forkBlocksDb blockstamp = some dalBlock := by
        simp only [getBlock, hget]
      have hnumber := hchain _ _ hget
      constructor
      · intro h found hsome
        obtain rfl := Option.some.inj hsome
        exact (DALBlock.blockstamp_eq_ok_iff.1 (h.blockstamp_eq _ hfound)).2
      · intro h
        have hhash := h dalBlock rfl
        refine ⟨iff_of_true ⟨_, hfound⟩ (.inl ⟨_, hget, hhash⟩), ?_⟩
        intro found hsome
        obtain rfl := Option.some.inj (hfound.symm.trans hsome)
        exact DALBlock.blockstamp_eq_ok_iff.2 ⟨hnumber, hhash⟩
  | none =>
      have hlocal : ¬ InLocalChain blocks blockstamp := by
        rintro ⟨found, hsome, -⟩
        cases hget.symm.trans hsome
      refine iff_of_true ?_ (by rintro _ ⟨⟩)
      cases forkBlocksDb with
      | none =>
          have hnone : getBlock blocks none blockstamp = none := by simp only [getBlock, hget]
          constructor
          · rw [hnone, or_iff_right hlocal]
            exact iff_of_false (by rintro ⟨_, ⟨⟩⟩) (by rintro ⟨_, ⟨⟩, _⟩)
          · rw [hnone]
            rintro _ ⟨⟩
      | some forkBlocks =>
          have hfork : getBlock blocks (some forkBlocks) blockstamp =
              forkBlocks.get? blockstamp := by simp only [getBlock, hget]
          constructor
          · rw [hfork, or_iff_right hlocal, ← HashMap.containsKey_iff]
            exact ⟨fun h => ⟨_, rfl, h⟩, by rintro ⟨_, ⟨⟩, h⟩; exact h⟩
          · rw [hfork]
            exact fun found => hforks _ rfl blockstamp found

/-- The fork blocks of a node that has received one. -/
def mockForks (blockstamp : Blockstamp) : HashMap Blockstamp DALBlock :=
  (∅ : HashMap Blockstamp DALBlock).insert blockstamp ⟨genEmptyTimedBlock blockstamp 0 10, none⟩

theorem chainKeyed_mockChain : ChainKeyed mockChain := by
  intro number found hget
  rw [mockChain, HashMap.get?_insert] at hget
  split at hget
  case isTrue heq =>
    obtain rfl := Option.some.inj hget
    exact heq.symm
  case isFalse => cases hget

theorem forksKeyed_mockForks (blockstamp : Blockstamp) : ForksKeyed (mockForks blockstamp) :=
  ForksKeyed.insert (by rintro _ _ ⟨⟩) rfl

/-- A fork block above the chain is found. -/
theorem looksUp_mockForks : LooksUp mockChain (some (mockForks ⟨2, 12⟩)) ⟨2, 12⟩ := by
  refine (looksUp_iff chainKeyed_mockChain ?_).2 ?_
  · rintro _ ⟨⟩
    exact forksKeyed_mockForks _
  · have hnone : mockChain.blockchainDb.get? 2 = none := by decide +kernel
    intro found hsome
    cases hnone.symm.trans hsome

/-- Instead of a fork block beside the chain, the block of the chain is found. -/
theorem not_looksUp_mockForks :
    (∃ dalBlock, (mockForks ⟨1, 12⟩).get? ⟨1, 12⟩ = some dalBlock) ∧
      (∃ dalBlock, getBlock mockChain (some (mockForks ⟨1, 12⟩)) ⟨1, 12⟩ = some dalBlock ∧
        dalBlock.blockstamp = .ok ⟨1, 11⟩) ∧
      ¬ LooksUp mockChain (some (mockForks ⟨1, 12⟩)) ⟨1, 12⟩ := by
  have hstamp : (getBlock mockChain (some (mockForks ⟨1, 12⟩)) ⟨1, 12⟩).map DALBlock.blockstamp =
      some (.ok ⟨1, 11⟩) := by decide +kernel
  rcases Option.map_eq_some_iff.1 hstamp with ⟨found, hfound, hblockstamp⟩
  refine ⟨⟨_, HashMap.get?_insert_self _ _ _⟩, ⟨found, hfound, hblockstamp⟩, fun h => ?_⟩
  cases hblockstamp.symm.trans (h.blockstamp_eq found hfound)

/-! ## By range of numbers -/

/-- The blocks of the local chain have the numbers below its length, which are `u32`. -/
structure Contiguous (blocks : BlocksV10DBs) (len : Nat) : Prop where
  stored_iff : ∀ number : Nat, (∃ dalBlock, blocks.blockchainDb.get? number = some dalBlock) ↔
    number < len
  len_le : len ≤ 4294967296

/-- The blocks of a range of numbers that exist, in increasing order. -/
def blocksOfRange (blocks : BlocksV10DBs) (first count : Nat) : List BlockDocument :=
  (List.range' first count).filterMap (getBlockInLocalBlockchain blocks)

/-- Whether the reading of a chunk ends, with the blocks of the range. -/
def GetsChunk (blocks : BlocksV10DBs) (first count : Nat) : Prop :=
  ∃ fuel, getBlocksInLocalBlockchain blocks first count fuel =
    .ok (blocksOfRange blocks first count)

theorem blocksOfRange_succ {number : Nat} {dalBlock : DALBlock}
    (h : blocks.blockchainDb.get? number = some dalBlock) (count : Nat) :
    blocksOfRange blocks number (count + 1) =
      dalBlock.block :: blocksOfRange blocks (number + 1) count := by
  have hblock : getBlockInLocalBlockchain blocks number = some dalBlock.block := by
    rw [getBlockInLocalBlockchain, h]
    rfl
  rw [blocksOfRange, List.range'_succ, List.filterMap_cons_some hblock, blocksOfRange]

theorem blocksOfRange_eq_nil {first : Nat}
    (h : ∀ number, first ≤ number → blocks.blockchainDb.get? number = none) (count : Nat) :
    blocksOfRange blocks first count = [] := by
  rw [blocksOfRange, List.filterMap_eq_nil_iff]
  intro number hmem
  rw [getBlockInLocalBlockchain, h number (List.mem_range'_1.1 hmem).1]
  rfl

/-- More fuel does not change what the loop collects. -/
theorem collectBlocks_mono {fuel fuel' : Nat} (hle : fuel ≤ fuel') {number : BlockNumber}
    {collected result : List BlockDocument}
    (h : collectBlocks blocks fuel number collected = .ok result) :
    collectBlocks blocks fuel' number collected = .ok result := by
  induction fuel generalizing fuel' number collected with
  | zero => cases h
  | succ fuel ih =>
      obtain ⟨fuel', rfl⟩ := Nat.exists_eq_add_of_le' hle
      rw [collectBlocks] at h
      rw [← Nat.add_assoc, collectBlocks]
      split
      case h_1 dalBlock hget =>
        simp only [hget] at h
        exact ih (Nat.le_add_left _ _) h
      case h_2 hget =>
        simp only [hget] at h
        exact h

namespace Contiguous

variable {len : Nat}

theorem get?_eq_none_iff (h : Contiguous blocks len) {number : Nat} :
    blocks.blockchainDb.get? number = none ↔ len ≤ number := by
  rw [← Nat.not_lt, ← h.stored_iff number, Option.eq_none_iff_forall_ne_some, not_exists]

/-- The loop collects the blocks up to the end of the chain. -/
theorem collectBlocks_eq (h : Contiguous blocks len) (hlen : len < 4294967296) (rest : Nat)
    {number : Nat} (hrest : number + rest = len) (collected : List BlockDocument) :
    collectBlocks blocks (rest + 1) number collected =
      .ok (collected ++ blocksOfRange blocks number rest) := by
  induction rest generalizing number collected with
  | zero =>
      have hnone : blocks.blockchainDb.get? number = none :=
        h.get?_eq_none_iff.2 (Nat.le_of_eq hrest.symm)
      rw [collectBlocks, hnone]
      exact congrArg Except.ok (List.append_nil collected).symm
  | succ rest ih =>
      obtain ⟨dalBlock, hget⟩ := (h.stored_iff number).2 (by omega)
      have hnext : addU32 number 1 = number + 1 := Nat.mod_eq_of_lt (by omega)
      rw [collectBlocks, hget, hnext, blocksOfRange_succ hget]
      show collectBlocks blocks (rest + 1) (number + 1) _ = _
      rw [ih (by omega), List.append_assoc, List.singleton_append]

/-- On a chain that has all the numbers, the loop never ends. -/
theorem collectBlocks_ne_ok (h : Contiguous blocks 4294967296) (fuel : Nat)
    {number : Nat} (hnumber : number < 4294967296)
    {collected result : List BlockDocument} :
    collectBlocks blocks fuel number collected ≠ .ok result := by
  induction fuel generalizing number collected with
  | zero => nofun
  | succ fuel ih =>
      obtain ⟨dalBlock, hget⟩ := (h.stored_iff number).2 hnumber
      rw [collectBlocks, hget]
      exact ih (Nat.mod_lt _ (by decide))

/-- The reading of a chunk ends on a chain that has not all the numbers, with the blocks up to the
end of the chain. -/
theorem getBlocks_eq (h : Contiguous blocks len) (hlen : len < 4294967296) (first count : Nat) :
    getBlocksInLocalBlockchain blocks first count (len - first + 1) =
      .ok (blocksOfRange blocks first (len - first)) := by
  by_cases hfirst : first ≤ len
  · exact h.collectBlocks_eq hlen _ (Nat.add_sub_cancel' hfirst) []
  · have hsub : len - first = 0 := by omega
    rw [hsub, getBlocksInLocalBlockchain, collectBlocks, h.get?_eq_none_iff.2 (by omega)]
    rfl

theorem length_blocksOfRange (h : Contiguous blocks len) (first : Nat) :
    (blocksOfRange blocks first (len - first)).length = len - first := by
  have hsome : ∀ number ∈ List.range' first (len - first),
      (getBlockInLocalBlockchain blocks number).isSome = true := by
    intro number hmem
    have hbounds := List.mem_range'_1.1 hmem
    obtain ⟨dalBlock, hget⟩ := (h.stored_iff number).2 (by omega)
    rw [getBlockInLocalBlockchain, hget]
    rfl
  rw [blocksOfRange, List.filterMap_length_eq_length.2 hsome, List.length_range']

/-- The blocks of a range that goes beyond the chain are those up to its end. -/
theorem blocksOfRange_eq (h : Contiguous blocks len) {first count : Nat}
    (hend : len ≤ first + count) :
    blocksOfRange blocks first count = blocksOfRange blocks first (len - first) := by
  have hsplit : count = len - first + (count - (len - first)) := by omega
  have hbeyond : blocksOfRange blocks (first + (len - first)) (count - (len - first)) = [] :=
    blocksOfRange_eq_nil (fun _ hle => h.get?_eq_none_iff.2 (Nat.le_trans (by omega) hle)) _
  calc
    blocksOfRange blocks first count =
        blocksOfRange blocks first (len - first + (count - (len - first))) := by rw [← hsplit]
    _ = blocksOfRange blocks first (len - first) ++
        blocksOfRange blocks (first + (len - first)) (count - (len - first)) := by
      rw [blocksOfRange, ← List.range'_append_1, List.filterMap_append]
      rfl
    _ = blocksOfRange blocks first (len - first) := by rw [hbeyond, List.append_nil]

end Contiguous

/-- A chunk is read exactly when no block comes after it and the chain has not all the numbers. -/
theorem getsChunk_iff {len first : Nat} (h : Contiguous blocks len) (hfirst : first < 4294967296)
    (count : Nat) : GetsChunk blocks first count ↔
      blocks.blockchainDb.get? (first + count) = none ∧ len < 4294967296 := by
  rw [h.get?_eq_none_iff]
  constructor
  · rintro ⟨fuel, hrun⟩
    have hlen : len < 4294967296 := by
      refine Nat.lt_of_le_of_ne h.len_le ?_
      rintro rfl
      exact h.collectBlocks_ne_ok fuel hfirst hrun
    have heq : blocksOfRange blocks first (len - first) = blocksOfRange blocks first count :=
      Except.ok.inj ((collectBlocks_mono (Nat.le_max_right fuel _)
        (h.getBlocks_eq hlen first count)).symm.trans
          (collectBlocks_mono (Nat.le_max_left _ _) hrun))
    have hcount : (blocksOfRange blocks first count).length ≤ count := by
      have hle := List.length_filterMap_le (getBlockInLocalBlockchain blocks)
        (List.range' first count)
      rwa [List.length_range'] at hle
    rw [← heq, h.length_blocksOfRange first] at hcount
    exact ⟨by omega, hlen⟩
  · rintro ⟨hend, hlen⟩
    exact ⟨_, h.blocksOfRange_eq hend ▸ h.getBlocks_eq hlen first count⟩

/-- A local chain of two blocks. -/
def mockTwoBlocks : BlocksV10DBs :=
  ⟨((∅ : HashMap BlockNumber DALBlock).insert 0 ⟨genEmptyTimedBlock ⟨0, 10⟩ 0 0, none⟩).insert 1
    ⟨genEmptyTimedBlock ⟨1, 11⟩ 0 10, none⟩⟩

theorem contiguous_mockTwoBlocks : Contiguous mockTwoBlocks 2 := by
  refine ⟨fun number => ?_, by decide⟩
  rw [mockTwoBlocks, HashMap.get?_insert, HashMap.get?_insert]
  split
  case isTrue heq => exact iff_of_true ⟨_, rfl⟩ (heq ▸ by decide)
  case isFalse hone =>
    split
    case isTrue heq => exact iff_of_true ⟨_, rfl⟩ (heq ▸ by decide)
    case isFalse hzero =>
      have hbeyond : ¬ (number = 0 ∨ number = 1) := not_or.2 ⟨hzero, hone⟩
      exact iff_of_false (by rintro ⟨_, ⟨⟩⟩) (by omega)

/-- A chunk that goes to the end of the chain is read. -/
theorem getsChunk_mockTwoBlocks : GetsChunk mockTwoBlocks 1 5 :=
  (getsChunk_iff contiguous_mockTwoBlocks (by decide) 5).2 ⟨by decide +kernel, by decide⟩

/-- Of the two blocks, a chunk of one block has both. -/
theorem not_getsChunk_mockTwoBlocks :
    (∃ chunk, getBlocksInLocalBlockchain mockTwoBlocks 0 1 3 = .ok chunk ∧ chunk.length = 2) ∧
      ¬ GetsChunk mockTwoBlocks 0 1 := by
  have hlen := contiguous_mockTwoBlocks.length_blocksOfRange 0
  have hread := contiguous_mockTwoBlocks.getBlocks_eq (by decide) 0 1
  refine ⟨⟨_, hread, hlen⟩, ?_⟩
  rintro ⟨fuel, hrun⟩
  have heq := Except.ok.inj ((collectBlocks_mono (Nat.le_max_right fuel _) hread).symm.trans
    (collectBlocks_mono (Nat.le_max_left _ _) hrun))
  have hcount : (blocksOfRange mockTwoBlocks 0 1).length ≤ 1 :=
    List.length_filterMap_le (getBlockInLocalBlockchain mockTwoBlocks) (List.range' 0 1)
  rw [← heq, hlen] at hcount
  exact absurd hcount (by decide)

end Durs
