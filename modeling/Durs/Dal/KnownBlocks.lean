/-
# Blocks that are already known

A block is known when the local chain, the fork blocks or the orphan blocks hold it.  The lookup
looks at the local chain only when no orphan has the same previous block.
-/

import Durs.Dal.Readers
import Durs.Dal.Writers.Block

namespace Durs

open RustStd

variable {blocks : BlocksV10DBs} {forks : ForksDBs} {blockstamp : Blockstamp} {previousHash : Hash}

/-- The local chain holds the block, under its number. -/
def InLocalChain (blocks : BlocksV10DBs) (blockstamp : Blockstamp) : Prop :=
  ∃ dalBlock, blocks.blockchainDb.get? blockstamp.id = some dalBlock ∧
    dalBlock.block.hash = some blockstamp.hash

/-- The orphan blocks above a block. -/
def orphansAbove (forks : ForksDBs) (blockstamp : Blockstamp) (previousHash : Hash) :
    Option (List DALBlock) :=
  forks.orphanBlocksDb.get? { id := blockstamp.id - 1, hash := previousHash }

/-- The orphan store holds the block, under its previous blockstamp. -/
def InOrphans (forks : ForksDBs) (blockstamp : Blockstamp) (previousHash : Hash) : Prop :=
  ∃ orphans, orphansAbove forks blockstamp previousHash = some orphans ∧
    ∃ orphan ∈ orphans, orphan.blockstamp = .ok blockstamp

/-- One of the three stores holds the block. -/
def Known (blocks : BlocksV10DBs) (forks : ForksDBs) (blockstamp : Blockstamp)
    (previousHash : Hash) : Prop :=
  InLocalChain blocks blockstamp ∨ forks.forkBlocksDb.containsKey blockstamp = true ∨
    InOrphans forks blockstamp previousHash

/-- Whether no store hides the answer from the lookup: the fork blocks hold the block; or the orphans
with the same previous block carry their hashes, and one of them is the block if the local chain
holds it; or there are none, and no block without hash stands for one of hash zero. -/
def Unshadowed (blocks : BlocksV10DBs) (forks : ForksDBs) (blockstamp : Blockstamp)
    (previousHash : Hash) : Prop :=
  forks.forkBlocksDb.containsKey blockstamp = true ∨
  (∃ orphans, orphansAbove forks blockstamp previousHash = some orphans ∧
    (∀ orphan ∈ orphans, orphan.block.hash.isSome) ∧
    (InLocalChain blocks blockstamp → InOrphans forks blockstamp previousHash)) ∨
  (orphansAbove forks blockstamp previousHash = none ∧
    ∀ dalBlock, blocks.blockchainDb.get? blockstamp.id = some dalBlock →
      dalBlock.block.hash = none → blockstamp.hash ≠ 0)

/-- Whether the lookup tells if the block is known. -/
def Answers (blocks : BlocksV10DBs) (forks : ForksDBs) (blockstamp : Blockstamp)
    (previousHash : Hash) : Prop :=
  ∃ answer, alreadyHaveBlock blocks forks blockstamp previousHash = .ok answer ∧
    (answer = true ↔ Known blocks forks blockstamp previousHash)

theorem alreadyHaveBlock_of_pos (h : 1 ≤ blockstamp.id) :
    alreadyHaveBlock blocks forks blockstamp previousHash =
      if forks.forkBlocksDb.containsKey blockstamp then return true
      else match orphansAbove forks blockstamp previousHash with
        | some orphanBlocks => do
            let orphanBlockstamps ← orphanBlocks.mapM DALBlock.blockstamp
            return orphanBlockstamps.contains blockstamp
        | none =>
            match blocks.blockchainDb.get? blockstamp.id with
            | some dalBlock => return dalBlock.block.hash.getD 0 = blockstamp.hash
            | none => return false := by
  rw [alreadyHaveBlock, previousBlockNumber, if_neg (Nat.ne_of_gt h)]
  rfl

theorem DALBlock.returns_blockstamp_iff {dalBlock : DALBlock} :
    Returns dalBlock.blockstamp ↔ dalBlock.block.hash.isSome := by
  rw [DALBlock.blockstamp, BlockDocument.blockstamp,
    returns_bind_iff_of_forall fun _ => returns_pure _, returns_expect_iff]

/-- Among orphans, the lookup looks for the block. -/
theorem answers_of_orphans {orphans : List DALBlock} (h : 1 ≤ blockstamp.id)
    (hfork : forks.forkBlocksDb.containsKey blockstamp = false)
    (horphans : orphansAbove forks blockstamp previousHash = some orphans) :
    Answers blocks forks blockstamp previousHash ↔
      (∀ orphan ∈ orphans, orphan.block.hash.isSome) ∧
        (InLocalChain blocks blockstamp → InOrphans forks blockstamp previousHash) := by
  have hrun : alreadyHaveBlock blocks forks blockstamp previousHash =
      orphans.mapM DALBlock.blockstamp >>= fun stamps => .ok (stamps.contains blockstamp) := by
    rw [alreadyHaveBlock_of_pos h, if_neg (Bool.eq_false_iff.1 hfork), horphans]
    rfl
  have hin : InOrphans forks blockstamp previousHash ↔
      ∃ orphan ∈ orphans, orphan.blockstamp = .ok blockstamp := by
    constructor
    · rintro ⟨found, hfound, hmem⟩
      exact Option.some.inj (horphans.symm.trans hfound) ▸ hmem
    · exact fun hmem => ⟨orphans, horphans, hmem⟩
  have hknown : Known blocks forks blockstamp previousHash ↔
      InLocalChain blocks blockstamp ∨ InOrphans forks blockstamp previousHash := by
    rw [Known, hfork]
    exact or_congr Iff.rfl (or_iff_right Bool.false_ne_true)
  have hhashed : (∀ orphan ∈ orphans, orphan.block.hash.isSome) ↔
      Returns (orphans.mapM DALBlock.blockstamp) := by
    rw [returns_mapM_iff]
    exact forall₂_congr fun _ _ => DALBlock.returns_blockstamp_iff.symm
  rw [Answers, hrun, hknown, hhashed]
  constructor
  · rintro ⟨answer, hanswer, hiff⟩
    rw [bind_eq_ok_iff] at hanswer
    rcases hanswer with ⟨stamps, hstamps, hcontains⟩
    obtain rfl := Except.ok.inj hcontains
    refine ⟨⟨stamps, hstamps⟩, fun hlocal => ?_⟩
    rw [hin, ← mem_mapM_iff hstamps, ← List.contains_iff_mem]
    exact hiff.2 (.inl hlocal)
  · rintro ⟨⟨stamps, hstamps⟩, hlocal⟩
    refine ⟨stamps.contains blockstamp, by rw [hstamps]; rfl, ?_⟩
    rw [List.contains_iff_mem, mem_mapM_iff hstamps, ← hin]
    exact ⟨.inr, fun hboth => hboth.elim hlocal id⟩

/-- Without orphans, the lookup looks at the block of the local chain with the same number. -/
theorem answers_of_no_orphans (h : 1 ≤ blockstamp.id)
    (hfork : forks.forkBlocksDb.containsKey blockstamp = false)
    (horphans : orphansAbove forks blockstamp previousHash = none) :
    Answers blocks forks blockstamp previousHash ↔
      ∀ dalBlock, blocks.blockchainDb.get? blockstamp.id = some dalBlock →
        dalBlock.block.hash = none → blockstamp.hash ≠ 0 := by
  have hknown : Known blocks forks blockstamp previousHash ↔ InLocalChain blocks blockstamp := by
    rw [Known, hfork]
    constructor
    · rintro (hlocal | hfalse | ⟨orphans, hfound, -⟩)
      · exact hlocal
      · cases hfalse
      · cases horphans.symm.trans hfound
    · exact .inl
  rw [Answers, hknown, InLocalChain, alreadyHaveBlock_of_pos h, if_neg (Bool.eq_false_iff.1 hfork),
    horphans]
  cases hget : blocks.blockchainDb.get? blockstamp.id with
  | none =>
      have hanswer : ¬ ∃ found : DALBlock, none = some found ∧
          found.block.hash = some blockstamp.hash := by
        rintro ⟨found, hsome, -⟩
        cases hsome
      refine iff_of_true ⟨false, rfl, iff_of_false Bool.false_ne_true hanswer⟩ ?_
      intro found hsome
      cases hsome
  | some dalBlock =>
      have hanswer : (∃ answer, (return dalBlock.block.hash.getD 0 = blockstamp.hash : Run Bool) =
          .ok answer ∧ (answer = true ↔ ∃ found, some dalBlock = some found ∧
            found.block.hash = some blockstamp.hash)) ↔
          (dalBlock.block.hash.getD 0 = blockstamp.hash ↔
            dalBlock.block.hash = some blockstamp.hash) := by
        constructor
        · rintro ⟨answer, hok, hiff⟩
          obtain rfl := Except.ok.inj hok
          rw [decide_eq_true_eq] at hiff
          rw [hiff]
          exact ⟨fun ⟨_, hsome, hhash⟩ => Option.some.inj hsome ▸ hhash,
            fun hhash => ⟨_, rfl, hhash⟩⟩
        · intro hiff
          refine ⟨_, rfl, ?_⟩
          rw [decide_eq_true_eq, hiff]
          exact ⟨fun hhash => ⟨_, rfl, hhash⟩,
            fun ⟨_, hsome, hhash⟩ => Option.some.inj hsome ▸ hhash⟩
      refine hanswer.trans ?_
      cases hhash : dalBlock.block.hash with
      | none =>
          constructor
          · rintro hiff found - - hzero
            cases hiff.1 hzero.symm
          · intro hne
            exact iff_of_false (fun hzero => hne dalBlock rfl hhash hzero.symm) nofun
      | some hash =>
          rw [Option.getD_some, Option.some.injEq]
          refine iff_of_true Iff.rfl ?_
          intro found hfound hnone
          obtain rfl := Option.some.inj hfound
          cases hhash.symm.trans hnone

/-- The lookup tells whether a block is known exactly when no store hides the answer. -/
theorem answers_iff (h : 1 ≤ blockstamp.id) :
    Answers blocks forks blockstamp previousHash ↔
      Unshadowed blocks forks blockstamp previousHash := by
  by_cases hfork : forks.forkBlocksDb.containsKey blockstamp = true
  · refine iff_of_true ⟨true, ?_, iff_of_true rfl (.inr (.inl hfork))⟩ (.inl hfork)
    rw [alreadyHaveBlock_of_pos h, if_pos hfork]
    rfl
  · have hfalse := Bool.eq_false_iff.2 hfork
    cases horphans : orphansAbove forks blockstamp previousHash with
    | some orphans =>
        rw [answers_of_orphans h hfalse horphans, Unshadowed, horphans]
        constructor
        · exact fun hboth => .inr (.inl ⟨orphans, rfl, hboth⟩)
        · rintro (hcontains | ⟨found, hfound, hboth⟩ | ⟨hnone, -⟩)
          · exact absurd hcontains hfork
          · exact Option.some.inj hfound ▸ hboth
          · cases hnone
    | none =>
        rw [answers_of_no_orphans h hfalse horphans, Unshadowed, horphans]
        constructor
        · exact fun hhashes => .inr (.inr ⟨rfl, hhashes⟩)
        · rintro (hcontains | ⟨found, hfound, -⟩ | ⟨-, hhashes⟩)
          · exact absurd hcontains hfork
          · cases hfound
          · exact hhashes

/-- A local chain with a block above another. -/
def mockChain : BlocksV10DBs :=
  ⟨(∅ : HashMap BlockNumber DALBlock).insert 1 ⟨genEmptyTimedBlock ⟨1, 11⟩ 0 10, none⟩⟩

/-- Without an orphan, the block of the chain is known. -/
theorem answers_mockChain : alreadyHaveBlock mockChain default ⟨1, 11⟩ 10 = .ok true ∧
    Answers mockChain default ⟨1, 11⟩ 10 := by
  have hunshadowed : Unshadowed mockChain default ⟨1, 11⟩ 10 := by
    have horphans : orphansAbove default ⟨1, 11⟩ 10 = none := by decide +kernel
    refine .inr (.inr ⟨horphans, ?_⟩)
    intro dalBlock hget hnone
    have hhash : ((mockChain.blockchainDb.get? 1).map (·.block.hash)) = some (some 11) := by
      decide +kernel
    rw [hget, Option.map_some, hnone] at hhash
    cases hhash
  exact ⟨by decide +kernel, (answers_iff (by decide)).2 hunshadowed⟩

/-- Once another block above the same one has arrived, it is no longer. -/
theorem not_answers_mockChain : ∃ forks,
    insertNewForkBlock default ⟨genEmptyTimedBlock ⟨1, 12⟩ 0 10, none⟩ = .ok (forks, false) ∧
      ¬ Answers mockChain forks ⟨1, 11⟩ 10 := by
  have hrun : ∃ forks,
      insertNewForkBlock default ⟨genEmptyTimedBlock ⟨1, 12⟩ 0 10, none⟩ = .ok (forks, false) ∧
      alreadyHaveBlock mockChain forks ⟨1, 11⟩ 10 = .ok false := ⟨_, rfl, by decide +kernel⟩
  rcases hrun with ⟨forks, hinsert, hfalse⟩
  have hlocal : InLocalChain mockChain ⟨1, 11⟩ := by
    have hget : ∃ dalBlock, mockChain.blockchainDb.get? 1 = some dalBlock := ⟨_, rfl⟩
    rcases hget with ⟨dalBlock, hget⟩
    have hhash : ((mockChain.blockchainDb.get? 1).map (·.block.hash)) = some (some 11) := by
      decide +kernel
    rw [hget] at hhash
    exact ⟨dalBlock, hget, Option.some.inj hhash⟩
  refine ⟨forks, hinsert, ?_⟩
  rintro ⟨answer, hanswer, hiff⟩
  obtain rfl := Except.ok.inj (hfalse.symm.trans hanswer)
  cases hiff.2 (.inl hlocal)

end Durs
