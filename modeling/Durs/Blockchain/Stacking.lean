/-
# Stacking the orphans

The loop that applies the orphans above the current block goes on as long as one of them is valid.
Each turn that goes on raises the current block by one, so the loop ends.  A valid block is applied
in its turn when the candidates that fail before it neither stop the process nor leave a trace.
-/

import Durs.Blockchain.Refusals
import Durs.Blockchain.Robustness
import Durs.Lib.CountedRuns

namespace Durs

open RustStd Lib

/-! ## The turns of the loop -/

namespace BlockchainModule

/-- The candidates of a turn: the orphans above the current block. -/
def candidates (bc : BlockchainModule) : List DALBlock :=
  getStackablesBlocks bc.dbs.forks bc.currentBlockstamp

/-- The number of stored orphans that are numbered above the current block. -/
def countOrphansAbove (bc : BlockchainModule) : Nat :=
  (bc.dbs.forks.orphanBlocksDb.iter.flatMap Prod.snd).countP fun dalBlock =>
    bc.currentBlockstamp.id < dalBlock.block.number

end BlockchainModule

/-- A turn of the loop stacks a block. -/
def Stacks (C : Crypto) (bc bc' : BlockchainModule) : Prop :=
  tryStackables C bc.candidates bc = .ok (bc', true)

/-- What the loop gives in a turn that stacks no block. -/
def endOfLoop (C : Crypto) (bc : BlockchainModule) : Run BlockchainModule :=
  if bc.candidates.isEmpty then return bc
  else do
    let (bc, _) ← tryStackables C bc.candidates bc
    return bc.save

/-- The current block is one above the last one, and follows it. -/
structure RaisesByOne (bc bc' : BlockchainModule) : Prop where
  number : bc'.currentBlockstamp.id = bc.currentBlockstamp.id + 1
  stacked : ∃ dalBlock ∈ bc.candidates, dalBlock.blockstamp = .ok bc'.currentBlockstamp ∧
    dalBlock.block.previousHash = bc.currentBlockstamp.hash

/-- A block is found valid. -/
def FoundValid (C : Crypto) (bc : BlockchainModule) (block : BlockDocument) : Prop :=
  ∃ bc' reqs, checkAndApplyBlock C bc block = .ok (bc', .ok (.validBlock reqs))

instance (C : Crypto) (bc : BlockchainModule) (block : BlockDocument) :
    Decidable (FoundValid C bc block) :=
  match h : checkAndApplyBlock C bc block with
  | .ok (bc', .ok (.validBlock reqs)) => .isTrue ⟨bc', reqs, h⟩
  | .ok (_, .ok .forkBlock) | .ok (_, .ok .orphanBlock) | .ok (_, .error _) | .error _ =>
      .isFalse fun ⟨_, _, hvalid⟩ => nomatch h.symm.trans hvalid

/-- What is wanted of the loop.  Each turn ends it or raises the current block by one, the latter no
more often than there are orphans above the current block; and the first candidate of a turn that is
found valid is applied as if the candidates that fail were not there. -/
structure StacksWell (C : Crypto) (bc : BlockchainModule) : Prop where
  turns : ∀ n mid, Steps (Stacks C) n bc mid →
    (∀ fuel, applyStackableBlocks C (fuel + 1) mid = endOfLoop C mid) ∨
    ∃ bc', RaisesByOne mid bc' ∧
      ∀ fuel, applyStackableBlocks C (fuel + 1) mid = applyStackableBlocks C fuel bc'
  ends : ∃ n last, Steps (Stacks C) n bc last ∧ n ≤ bc.countOrphansAbove ∧
    ∀ fuel, n < fuel → applyStackableBlocks C fuel bc = endOfLoop C last
  siblings : ∀ n mid, Steps (Stacks C) n bc mid → ∀ before sibling after,
    mid.candidates = before ++ sibling :: after →
    (∀ failing ∈ before, ¬ FoundValid C mid failing.block) →
    FoundValid C mid sibling.block →
    tryStackables C mid.candidates mid = tryStackables C [sibling] mid

/-! ## Blocks that are valid and blocks that fail -/

/-- Whether the keys that a block excludes, revokes and certifies, and those that certify them, have
a node once the newcomers of the block have theirs. -/
structure KnowsKeys (block : BlockDocument) (memory : WotMemory) : Prop where
  left : block.left.all (memory.withNewcomers block).wotIndex.containsKey = true
  certifications : block.certifications.all (memory.withNewcomers block).knows = true

/-- Whether a block passes the checks, can be applied and is not refused for an unknown key. -/
structure IsValid (C : Crypto) (bc : BlockchainModule) (block : BlockDocument) : Prop where
  reaches : ReachesApplication C bc block
  applicable : Applicable block bc.memory
  known : KnowsKeys block bc.memory

/-- Whether a block that fails leaves the module running, and as it is. -/
structure FailsCleanly (C : Crypto) (bc : BlockchainModule) (block : BlockDocument) : Prop where
  withstood : Withstood C bc block
  traceless : ReachesApplication C bc block → LeavesNoTrace block bc.memory

/-- What a turn needs: the number of the current block has a successor, and the candidates that fail
before the first valid one fail cleanly. -/
structure TurnHolds (C : Crypto) (bc : BlockchainModule) : Prop where
  number : bc.currentBlockstamp.id ≤ lastBlockNumber
  failing : ∀ before sibling after, bc.candidates = before ++ sibling :: after →
    (∀ failing ∈ before, ¬ IsValid C bc failing.block) → IsValid C bc sibling.block →
    ∀ failing ∈ before, FailsCleanly C bc failing.block

variable {C : Crypto} {S : SheetSort} {fuel : Nat} {bc bc' : BlockchainModule}
  {block : BlockDocument} {memory memory' : WotMemory} {blockstamp : Blockstamp}
  {s s' : ApplyState}

open WotMemory

/-- The certifications that are applied are all of known keys, and one of them is not when they
refuse the block. -/
theorem certifications_known (block : BlockDocument)
    (certifications : List CompactCertificationDocument)
    {linked : List CompactCertificationDocument} (hlinked : LinkedFrom memory linked s.memory) :
    (∀ s', certifications.foldlM (applyCertification block) s = .ok s' →
      certifications.all memory.knows = true) ∧
    ∀ error memory', certifications.foldlM (applyCertification block) s =
      .error (.refused error memory') → certifications.all memory.knows = false := by
  induction certifications generalizing s linked with
  | nil =>
      refine ⟨fun _ _ => rfl, fun _ _ h => ?_⟩
      cases h
  | cons first certifications ih =>
      rw [List.foldlM_cons, List.all_cons]
      rcases applyCertification_cases block hlinked first with ⟨hnot, ending, -, hstep⟩ |
        ⟨hyes, -, mid, hstep, hmid⟩ | ⟨-, -, ending, hends, hstep⟩
      · rw [hstep, error_bind, hnot]
        exact ⟨nofun, fun _ _ _ => rfl⟩
      · rw [hstep, ok_bind, hyes, Bool.true_and]
        exact ih hmid
      · rw [hstep, error_bind]
        refine ⟨nofun, fun error memory' h => ?_⟩
        obtain rfl := Except.error.inj h
        exact absurd hends (not_stops_refused _ _)

/-- A block whose part for the web of trust is applied knows its keys, and one that is refused there
does not. -/
theorem applyWot_knowsKeys :
    (∀ s, applyWot block memory blockstamp = .ok s → KnowsKeys block memory) ∧
    ∀ error memory', applyWot block memory blockstamp = .error (.refused error memory') →
      ¬ KnowsKeys block memory := by
  rw [applyWot_eq]
  rcases applyMembers_cases block memory blockstamp with ⟨s, hrun, hsame, -⟩ |
    ⟨ending, hends, hrun⟩
  case inr =>
    rw [hrun, error_bind]
    refine ⟨nofun, fun error memory' h => ?_⟩
    obtain rfl := Except.error.inj h
    exact absurd hends (not_stops_refused _ _)
  have hindex : s.memory.wotIndex = (memory.withNewcomers block).wotIndex := hsame.index
  rw [hrun, ok_bind]
  rcases applyLeft_cases block blockstamp s with ⟨hall, mid, hrun', hmid⟩ | ⟨hall, _, hrun'⟩
  · rw [hindex] at hall
    have hsame' : SameCounts (memory.withNewcomers block) mid.memory := hmid ▸ hsame.setFlags _ _
    rcases certifications_known block block.certifications hsame'.linkedFrom with ⟨hok, hrefused⟩
    rw [hrun', ok_bind]
    refine ⟨fun s' h => ⟨hall, hok s' h⟩, fun error memory' h hknows => ?_⟩
    cases (hrefused error memory' h).symm.trans hknows.certifications
  · rw [hindex] at hall
    rw [hrun', error_bind]
    refine ⟨nofun, fun _ _ _ hknows => ?_⟩
    cases hall.symm.trans hknows.left

/-- A block that reaches its application is applied as the next one of the chain. -/
theorem checkAndApplyChainable_of_reaches {result : Except BlockError CheckAndApplyBlockReturn}
    (hreach : ReachesApplication C bc block)
    (h : checkAndApplyBlock C bc block = .ok (bc', result)) :
    checkAndApplyChainable C bc block = .ok (bc', result) := by
  rcases checkAndApplyBlock_eq_ok h with ⟨_, hverify, -, -⟩ | ⟨-, -, h⟩ | ⟨-, hchain, -⟩
  · cases hverify.symm.trans hreach.1
  · exact h
  · exact absurd hreach.2.1 hchain

/-- A block that is found valid reaches its application, and is applied. -/
theorem reaches_of_foundValid (h : FoundValid C bc block) :
    ReachesApplication C bc block ∧ ∃ memory reqs,
      applyValidBlock C block bc.memory (findExpireCerts bc.dbs.wots.certsDb []) =
        .ok (memory, reqs) := by
  rcases h with ⟨bc', reqs, h⟩
  rcases checkAndApplyBlock_eq_ok h with ⟨_, -, -, heq⟩ | ⟨hverify, hchain, h⟩ |
    ⟨-, -, _, _, -, -, h⟩
  · cases heq
  · rcases checkAndApplyChainable_cases h with ⟨memory, reqs, hvalid, happly, -, -⟩ | ⟨_, _, -, heq⟩
    · exact ⟨⟨hverify, hchain, hvalid⟩, memory, reqs, happly⟩
    · cases heq
  · rcases storeForkBlock_cases h with ⟨_, -, heq⟩ | ⟨_, inserted, -, -, heq⟩
    · cases heq
    · cases inserted <;> cases Except.ok.inj heq

/-- A parsed block that reaches its application and can be applied is withstood. -/
theorem withstood_of_isValid (hparsed : block.Parsed) (h : IsValid C bc block) :
    Withstood C bc block where
  previousIssuer := (returns_verifyBlockHashs_iff (C := C) hparsed).1 ⟨_, h.reaches.1⟩
  applicable _ _ _ := h.applicable
  insertable _ hchain := absurd h.reaches.2.1 hchain

/-- A parsed block is found valid exactly when it is. -/
theorem foundValid_iff (hkeyed : OrphansKeyed bc.dbs.forks.orphanBlocksDb)
    (hparsed : block.Parsed) : FoundValid C bc block ↔ IsValid C bc block := by
  constructor
  · intro h
    rcases reaches_of_foundValid h with ⟨hreach, memory, reqs, happly⟩
    rcases applyValidBlock_eq_ok happly with ⟨blockstamp, s, -, -, -, hwot, -⟩
    refine ⟨hreach, ?_, applyWot_knowsKeys.1 s hwot⟩
    rw [← notAborted_applyWot_iff blockstamp, hwot]
    exact notAborted_ok s
  · intro h
    rcases (returns_check_iff hkeyed hparsed).2 (withstood_of_isValid hparsed h) with
      ⟨⟨bc', result⟩, hrun⟩
    rcases checkAndApplyChainable_cases (checkAndApplyChainable_of_reaches h.reaches hrun) with
      ⟨_, reqs, -, -, -, rfl⟩ | ⟨_, error, -, rfl⟩
    · exact ⟨bc', reqs, hrun⟩
    · rcases checkAndApplyBlock_eq_error hrun with ⟨hnot, -⟩ | ⟨-, _, _, memory', hwot, -⟩
      · exact absurd h.reaches hnot
      · exact absurd h.known (applyWot_knowsKeys.2 _ memory' hwot)

/-! ## The candidates -/

/-- The candidates of a turn are numbered one above the current block, which they follow. -/
theorem follows_of_mem_candidates (hkeyed : OrphansKeyed bc.dbs.forks.orphanBlocksDb)
    (hnumber : bc.currentBlockstamp.id ≤ lastBlockNumber) {dalBlock : DALBlock}
    (hmem : dalBlock ∈ bc.candidates) :
    dalBlock.block.number = bc.currentBlockstamp.id + 1 ∧
      dalBlock.block.previousHash = bc.currentBlockstamp.hash := by
  have hkey := hkeyed.keyed bc.currentBlockstamp dalBlock hmem
  rw [DALBlock.previousBlockstamp, previousBlockNumber] at hkey
  rw [← hkey] at hnumber ⊢
  unfold lastBlockNumber BlockNumber at *
  refine ⟨?_, rfl⟩
  simp only at hnumber ⊢
  split at hnumber
  case isTrue => omega
  case isFalse hpos =>
    rw [if_neg hpos]
    omega

/-- The candidates of a turn are next blocks of the chain. -/
theorem chainable_of_mem_candidates (hkeyed : OrphansKeyed bc.dbs.forks.orphanBlocksDb)
    (hnumber : bc.currentBlockstamp.id ≤ lastBlockNumber) {dalBlock : DALBlock}
    (hmem : dalBlock ∈ bc.candidates) : Chainable bc.currentBlockstamp dalBlock.block := by
  rcases follows_of_mem_candidates hkeyed hnumber hmem with ⟨hnext, hprevious⟩
  refine .inl ⟨?_, hprevious⟩
  rw [hnext, addU32, Nat.mod_eq_of_lt]
  unfold lastBlockNumber BlockNumber at *
  omega

/-- A candidate that fails cleanly leaves the module as it is. -/
theorem check_of_failsCleanly (hkeyed : OrphansKeyed bc.dbs.forks.orphanBlocksDb)
    (hparsed : block.Parsed) (hchain : Chainable bc.currentBlockstamp block)
    (hfails : ¬ FoundValid C bc block) (hclean : FailsCleanly C bc block) :
    ∃ error, checkAndApplyBlock C bc block = .ok (bc, .error error) := by
  rcases (returns_check_iff hkeyed hparsed).2 hclean.withstood with ⟨⟨bc', result⟩, hrun⟩
  cases result with
  | error error =>
      obtain rfl := (unchanged_iff_of_refused hrun).2 hclean.traceless
      exact ⟨error, hrun⟩
  | ok taken =>
      refine absurd ?_ hfails
      rcases checkAndApplyBlock_eq_ok hrun with ⟨_, -, -, heq⟩ | ⟨-, -, h⟩ | ⟨-, hnot, -⟩
      · cases heq
      · rcases checkAndApplyChainable_cases h with ⟨_, reqs, -, -, -, heq⟩ | ⟨_, _, -, heq⟩
        · obtain rfl := Except.ok.inj heq
          exact ⟨bc', reqs, hrun⟩
        · cases heq
      · exact absurd hchain hnot

/-- Among candidates the first that is found valid is tried as if those before were not there, when
they fail cleanly. -/
theorem tryStackables_of_failsCleanly {before after : List DALBlock} {sibling : DALBlock}
    (hkeyed : OrphansKeyed bc.dbs.forks.orphanBlocksDb)
    (hbefore : ∀ failing ∈ before, failing.block.Parsed ∧
      Chainable bc.currentBlockstamp failing.block ∧ ¬ FoundValid C bc failing.block ∧
      FailsCleanly C bc failing.block)
    (hsibling : FoundValid C bc sibling.block) :
    tryStackables C (before ++ sibling :: after) bc = tryStackables C [sibling] bc := by
  induction before with
  | nil =>
      rcases hsibling with ⟨bc', reqs, hrun⟩
      rw [List.nil_append, tryStackables, tryStackables, hrun]
      rfl
  | cons failing before ih =>
      rcases List.forall_mem_cons.1 hbefore with ⟨⟨hparsed, hchain, hfails, hclean⟩, hrest⟩
      rcases check_of_failsCleanly hkeyed hparsed hchain hfails hclean with ⟨error, hrun⟩
      rcases hparsed.returns_blockstamp with ⟨blockstamp, hstamp⟩
      rw [List.cons_append, tryStackables, DALBlock.blockstamp, hstamp, ok_bind, hrun, ok_bind]
      exact ih hrest

/-! ## A turn that goes on -/

/-- A turn over next blocks of the chain that stacks one of them leaves the orphans as they are. -/
theorem tryStackables_eq_stacked {stackableBlocks : List DALBlock}
    (hchain : ∀ dalBlock ∈ stackableBlocks, Chainable bc.currentBlockstamp dalBlock.block)
    (hrun : tryStackables C stackableBlocks bc = .ok (bc', true)) :
    (∃ dalBlock ∈ stackableBlocks, dalBlock.blockstamp = .ok bc'.currentBlockstamp) ∧
      bc'.dbs.forks.orphanBlocksDb = bc.dbs.forks.orphanBlocksDb := by
  induction stackableBlocks generalizing bc with
  | nil => cases (Prod.mk.inj (Except.ok.inj hrun)).2
  | cons stackableBlock stackableBlocks ih =>
      rcases List.forall_mem_cons.1 hchain with ⟨hfirst, hrest⟩
      rw [tryStackables, bind_eq_ok_iff] at hrun
      rcases hrun with ⟨blockstamp, hstamp, hrun⟩
      rw [bind_eq_ok_iff] at hrun
      rcases hrun with ⟨⟨mid, result⟩, hcheck, hrun⟩
      have hmid : ∃ memory, mid = bc.withMemory memory := by
        rcases checkAndApplyBlock_eq_ok hcheck with ⟨_, -, rfl, -⟩ | ⟨-, -, h⟩ | ⟨-, hnot, -⟩
        · exact ⟨mid.memory, rfl⟩
        · rcases checkAndApplyChainable_cases h with ⟨memory, _, -, -, rfl, -⟩ | ⟨memory, _, rfl, -⟩
          · exact ⟨memory, rfl⟩
          · exact ⟨memory, rfl⟩
        · exact absurd hfirst hnot
      rcases hmid with ⟨memory, rfl⟩
      split at hrun
      case h_1 reqs heq =>
        obtain ⟨rfl, rfl⟩ := Prod.mk.inj heq
        rw [bind_eq_ok_iff] at hrun
        rcases hrun with ⟨applied, hqueries, hrun⟩
        rcases Prod.mk.inj (Except.ok.inj hrun) with ⟨rfl, -⟩
        rcases BlockchainModule.applyQueries_eq_ok hqueries with
          ⟨blocks, forks, _, _, hquery, -, -, rfl⟩
        exact ⟨⟨stackableBlock, List.mem_cons_self, hstamp⟩,
          BlocksDBsWriteQuery.apply_orphans hquery⟩
      case h_2 heq =>
        obtain ⟨rfl, -⟩ := Prod.mk.inj heq
        rcases @ih (bc.withMemory memory) hrest hrun with ⟨⟨dalBlock, hmem, hstamp⟩, horphans⟩
        exact ⟨⟨dalBlock, List.mem_cons_of_mem _ hmem, hstamp⟩, horphans⟩

/-- A turn that stacks a block raises the current block by one, and leaves the orphans as they
are. -/
theorem raisesByOne_of_stacks (hkeyed : OrphansKeyed bc.dbs.forks.orphanBlocksDb)
    (hnumber : bc.currentBlockstamp.id ≤ lastBlockNumber) (h : Stacks C bc bc') :
    RaisesByOne bc bc' ∧ bc'.dbs.forks.orphanBlocksDb = bc.dbs.forks.orphanBlocksDb := by
  rcases tryStackables_eq_stacked
    (fun _ hmem => chainable_of_mem_candidates hkeyed hnumber hmem) h with
    ⟨⟨dalBlock, hmem, hstamp⟩, horphans⟩
  rcases follows_of_mem_candidates hkeyed hnumber hmem with ⟨hnext, hprevious⟩
  have hid : dalBlock.block.number = bc'.currentBlockstamp.id :=
    (BlockDocument.blockstamp_eq_ok_iff.1 hstamp).1
  exact ⟨⟨hid.symm.trans hnext, dalBlock, hmem, hstamp, hprevious⟩, horphans⟩

/-- The candidates are among the stored orphans. -/
theorem mem_orphans_of_mem_candidates {dalBlock : DALBlock} (hmem : dalBlock ∈ bc.candidates) :
    dalBlock ∈ bc.dbs.forks.orphanBlocksDb.iter.flatMap Prod.snd := by
  rw [BlockchainModule.candidates, getStackablesBlocks] at hmem
  cases hget : bc.dbs.forks.orphanBlocksDb.get? bc.currentBlockstamp with
  | none =>
      rw [hget] at hmem
      cases hmem
  | some dalBlocks =>
      rw [hget] at hmem
      exact List.mem_flatMap.2 ⟨_, (HashMap.mem_iter_iff _ _ _).2 hget, hmem⟩

/-- A turn that raises the current block by one leaves fewer orphans above it. -/
theorem countOrphansAbove_lt (hkeyed : OrphansKeyed bc.dbs.forks.orphanBlocksDb)
    (hnumber : bc.currentBlockstamp.id ≤ lastBlockNumber) (hraises : RaisesByOne bc bc')
    (horphans : bc'.dbs.forks.orphanBlocksDb = bc.dbs.forks.orphanBlocksDb) :
    bc'.countOrphansAbove < bc.countOrphansAbove := by
  rcases hraises.stacked with ⟨dalBlock, hmem, -, -⟩
  have hnext : dalBlock.block.number = bc.currentBlockstamp.id + 1 :=
    (follows_of_mem_candidates hkeyed hnumber hmem).1
  have hid : bc'.currentBlockstamp.id = bc.currentBlockstamp.id + 1 := hraises.number
  rw [BlockchainModule.countOrphansAbove, BlockchainModule.countOrphansAbove, horphans, hid]
  -- the block that is stacked is no longer counted
  have hsub : ∀ orphan : DALBlock,
      decide (bc.currentBlockstamp.id + 1 < orphan.block.number) =
        (decide (bc.currentBlockstamp.id + 1 < orphan.block.number) &&
          decide (bc.currentBlockstamp.id < orphan.block.number)) := by
    intro orphan
    rw [Bool.eq_iff_iff, Bool.and_eq_true_iff, decide_eq_true_eq, decide_eq_true_eq]
    exact ⟨fun h => ⟨h, Nat.lt_of_succ_lt h⟩, And.left⟩
  rw [funext hsub, ← List.countP_filter, List.countP_eq_length_filter (p := fun orphan : DALBlock =>
    decide (bc.currentBlockstamp.id < orphan.block.number))]
  refine Nat.lt_of_le_of_ne List.countP_le_length fun heq => ?_
  have habove := List.countP_eq_length.1 heq dalBlock (List.mem_filter.2
    ⟨mem_orphans_of_mem_candidates hmem, ?_⟩)
  · rw [decide_eq_true_eq, hnext] at habove
    exact Nat.lt_irrefl _ habove
  · rw [decide_eq_true_eq, hnext]
    exact Nat.lt_succ_self _

/-- A turn that stacks no block ends the loop. -/
theorem applyStackableBlocks_of_not_stacks (h : ∀ bc', ¬ Stacks C bc bc') (fuel : Nat) :
    applyStackableBlocks C (fuel + 1) bc = endOfLoop C bc := by
  rw [applyStackableBlocks, endOfLoop]
  change (if bc.candidates.isEmpty then _ else _) = _
  split
  case isTrue => rfl
  case isFalse =>
    change tryStackables C bc.candidates bc >>= _ = _
    cases htry : tryStackables C bc.candidates bc with
    | error reason => rfl
    | ok result =>
        rcases result with ⟨mid, stacked⟩
        cases stacked with
        | true => exact absurd htry (h mid)
        | false => rfl

/-- A turn that stacks a block goes on with the state that it leaves. -/
theorem applyStackableBlocks_of_stacks (h : Stacks C bc bc') (fuel : Nat) :
    applyStackableBlocks C (fuel + 1) bc = applyStackableBlocks C fuel bc' := by
  have hsome : bc.candidates.isEmpty = false := by
    rw [Bool.eq_false_iff]
    intro hempty
    rw [Stacks, List.isEmpty_iff.1 hempty] at h
    cases (Prod.mk.inj (Except.ok.inj h)).2
  rw [applyStackableBlocks]
  change (if bc.candidates.isEmpty then _ else tryStackables C bc.candidates bc >>= _) = _
  rw [hsome, h]
  rfl

/-- After some turns that stack a block the loop goes on with the state that they leave. -/
theorem applyStackableBlocks_of_steps {n : Nat} (h : Steps (Stacks C) n bc bc') :
    ∀ fuel, applyStackableBlocks C (n + fuel) bc = applyStackableBlocks C fuel bc' := by
  induction h with
  | refl bc => exact fun fuel => by rw [Nat.zero_add]
  | @head n bc mid bc' hfirst _ ih =>
      intro fuel
      rw [Nat.add_right_comm, applyStackableBlocks_of_stacks hfirst, ih]

/-! ## Runs of the loop -/

section Runs

variable {n : Nat} {mid : BlockchainModule}

/-- The turns leave the orphans as they are. -/
theorem orphans_of_steps (h : Steps (Stacks C) n bc mid)
    (hkeyed : OrphansKeyed bc.dbs.forks.orphanBlocksDb)
    (hholds : ∀ n mid, Steps (Stacks C) n bc mid → TurnHolds C mid) :
    mid.dbs.forks.orphanBlocksDb = bc.dbs.forks.orphanBlocksDb := by
  induction h with
  | refl bc => rfl
  | @head n bc next mid hfirst _ ih =>
      have hnext := (raisesByOne_of_stacks hkeyed (hholds 0 bc (.refl bc)).number hfirst).2
      have hrest := ih (hnext ▸ hkeyed) fun n mid hrun => hholds (n + 1) mid (.head hfirst hrun)
      exact hrest.trans hnext

/-- The loop does what is wanted of it from a state whose orphans are as the module stores them. -/
theorem stacksWell_of_keyed (hkeyed : OrphansKeyed bc.dbs.forks.orphanBlocksDb)
    (hparsed : ∀ key, ∀ dalBlock ∈ getStackablesBlocks bc.dbs.forks key, dalBlock.block.Parsed)
    (hholds : ∀ n mid, Steps (Stacks C) n bc mid → TurnHolds C mid) : StacksWell C bc := by
  have hkept : ∀ n mid, Steps (Stacks C) n bc mid →
      OrphansKeyed mid.dbs.forks.orphanBlocksDb :=
    fun n mid hrun => orphans_of_steps hrun hkeyed hholds ▸ hkeyed
  have hraises : ∀ n mid, Steps (Stacks C) n bc mid → ∀ next, Stacks C mid next →
      RaisesByOne mid next ∧ next.countOrphansAbove < mid.countOrphansAbove := by
    intro n mid hrun next hstacks
    have hnumber := (hholds n mid hrun).number
    rcases raisesByOne_of_stacks (hkept n mid hrun) hnumber hstacks with ⟨hraise, horphans⟩
    exact ⟨hraise, countOrphansAbove_lt (hkept n mid hrun) hnumber hraise horphans⟩
  have hdrop : ∀ n mid, Steps (Stacks C) n bc mid → ∀ next, Stacks C mid next →
      next.countOrphansAbove < mid.countOrphansAbove :=
    fun n mid hrun next hstacks => (hraises n mid hrun next hstacks).2
  constructor
  case turns =>
    intro n mid hrun
    by_cases hstacks : ∃ next, Stacks C mid next
    · rcases hstacks with ⟨next, hstacks⟩
      exact .inr ⟨next, (hraises n mid hrun next hstacks).1,
        applyStackableBlocks_of_stacks hstacks⟩
    · exact .inl (applyStackableBlocks_of_not_stacks fun next h => hstacks ⟨next, h⟩)
  case ends =>
    rcases Steps.exists_last hdrop with ⟨n, last, hrun, hlast⟩
    have hbound := hrun.add_measure_le hdrop
    refine ⟨n, last, hrun, Nat.le_of_add_right_le hbound, fun fuel hfuel => ?_⟩
    rcases Nat.exists_eq_add_of_lt hfuel with ⟨more, rfl⟩
    rw [Nat.add_assoc, applyStackableBlocks_of_steps hrun,
      applyStackableBlocks_of_not_stacks hlast]
  case siblings =>
    intro n mid hrun before sibling after hsplit hfails hvalid
    have hmid := hkept n mid hrun
    have hturn := hholds n mid hrun
    have hblocks : ∀ dalBlock ∈ mid.candidates, dalBlock.block.Parsed := by
      intro dalBlock hmem
      refine hparsed mid.currentBlockstamp dalBlock ?_
      rw [getStackablesBlocks, ← orphans_of_steps hrun hkeyed hholds]
      exact hmem
    have hbefore : ∀ failing ∈ before, failing ∈ mid.candidates := by
      intro failing hmem
      rw [hsplit]
      exact List.mem_append_left _ hmem
    have hsibling : sibling ∈ mid.candidates := by
      rw [hsplit]
      exact List.mem_append_right _ List.mem_cons_self
    have hclean := hturn.failing before sibling after hsplit
      (fun failing hmem hisValid => hfails failing hmem
        ((foundValid_iff hmid (hblocks failing (hbefore failing hmem))).2 hisValid))
      ((foundValid_iff hmid (hblocks sibling hsibling)).1 hvalid)
    rw [hsplit]
    refine tryStackables_of_failsCleanly hmid (fun failing hmem => ?_) hvalid
    exact ⟨hblocks failing (hbefore failing hmem),
      chainable_of_mem_candidates hmid hturn.number (hbefore failing hmem),
      hfails failing hmem, hclean failing hmem⟩

end Runs

/-! ## Reached states -/

/-- The fork blocks are stored under their own blockstamps, and the orphans are as the parsers build
them. -/
structure OrphansParsed (forks : ForksDBs) : Prop where
  stamped : ∀ blockstamp dalBlock, forks.forkBlocksDb.get? blockstamp = some dalBlock →
    dalBlock.blockstamp = .ok blockstamp
  parsed : ∀ key, ∀ dalBlock ∈ getStackablesBlocks forks key, dalBlock.block.Parsed

namespace OrphansParsed

variable {forks forks' : ForksDBs} {dalBlock : DALBlock}

theorem default : OrphansParsed default where
  stamped _ _ hget := by cases hget
  parsed _ _ hmem := by cases hmem

/-- Adding a block to the store keeps it. -/
theorem insert (h : OrphansParsed forks) (hstamp : dalBlock.blockstamp = .ok blockstamp)
    (tree : ForkTree) :
    OrphansParsed { forks with
      forkTreeDb := tree
      forkBlocksDb := forks.forkBlocksDb.insert blockstamp dalBlock } where
  stamped b stored hget := by
    change (forks.forkBlocksDb.insert blockstamp dalBlock).get? b = some stored at hget
    rw [HashMap.get?_insert] at hget
    split at hget
    case isTrue hb =>
      obtain rfl := Option.some.inj hget
      exact hb ▸ hstamp
    case isFalse => exact h.stamped b stored hget
  parsed := h.parsed

/-- Removing blocks from the store keeps it. -/
theorem removeAll (h : OrphansParsed forks) (tree : ForkTree) (removed : List Blockstamp) :
    OrphansParsed { forks with
      forkTreeDb := tree
      forkBlocksDb := forks.forkBlocksDb.removeAll removed } where
  stamped b stored hget := by
    change (forks.forkBlocksDb.removeAll removed).get? b = some stored at hget
    rw [HashMap.get?_removeAll] at hget
    split at hget
    case isTrue => cases hget
    case isFalse => exact h.stamped b stored hget
  parsed := h.parsed

/-- A new fork block keeps it, with the orphans that follow it. -/
theorem fork (h : OrphansParsed forks) (hblock : dalBlock.block.Parsed) {inserted : Bool}
    (hrun : insertNewForkBlock forks dalBlock = .ok (forks', inserted)) : OrphansParsed forks' := by
  refine insertNewForkBlockAux_preserves (P := OrphansParsed)
    (Q := fun dalBlock => dalBlock.block.Parsed) ?_ ?_ ?_ h hblock hrun
  · exact fun _ _ _ tree hforks _ hstamp _ => hforks.insert hstamp tree
  · intro forks dalBlock hforks hblock
    refine ⟨hforks.stamped, fun key orphan hmem => ?_⟩
    rcases mem_insertOrphanBlock hmem with hmem | ⟨rfl, -⟩
    · exact hforks.parsed key orphan hmem
    · exact hblock
  · intro forks blockstamp dalBlocks hforks hget orphan hmem
    refine hforks.parsed blockstamp orphan ?_
    rw [getStackablesBlocks, hget]
    exact hmem

end OrphansParsed

/-- Checking a block of the fork store again leaves the fork databases as they are. -/
theorem forks_of_check_stored {dalBlock : DALBlock}
    {result : Except BlockError CheckAndApplyBlockReturn}
    (hstamp : dalBlock.blockstamp = .ok blockstamp)
    (hget : bc.dbs.forks.forkBlocksDb.get? blockstamp = some dalBlock)
    (hrun : checkAndApplyBlock C bc dalBlock.block = .ok (bc', result)) :
    bc'.dbs.forks = bc.dbs.forks := by
  rcases checkAndApplyBlock_eq_ok hrun with ⟨_, -, rfl, -⟩ | ⟨-, -, h⟩ |
    ⟨-, -, found, already, hfound, halready, h⟩
  · rfl
  · rcases checkAndApplyChainable_cases h with ⟨_, _, -, -, rfl, -⟩ | ⟨_, _, rfl, -⟩
    · rfl
    · rfl
  · obtain rfl := Except.ok.inj (hstamp.symm.trans hfound)
    have hknown : bc.dbs.forks.forkBlocksDb.containsKey blockstamp = true :=
      (HashMap.containsKey_iff _ _).2 ⟨dalBlock, hget⟩
    rw [alreadyHaveBlock, if_pos hknown] at halready
    obtain rfl := Except.ok.inj halready
    have hnotNew : true ≠ false := Bool.noConfusion
    rw [storeForkBlock, if_neg fun hnew => hnotNew hnew.1] at h
    rcases Prod.mk.inj (Except.ok.inj h) with ⟨rfl, -⟩
    rfl

/-- The module keeps it, where the blocks that it receives are as the parsers build them. -/
theorem keptByModule_orphansParsed (C : Crypto) :
    KeptByModule C OrphansParsed BlockDocument.Parsed := by
  constructor
  case initial => exact .default
  case orphans => exact fun h hmem => h.parsed _ _ hmem
  case received =>
    intro bc bc' block result h hblock hrun
    rcases checkAndApplyBlock_cases hrun with ⟨memory, _, -, -, -, rfl, -⟩ | ⟨memory, _, rfl, -⟩ |
      ⟨forks, inserted, hinsert, rfl, -⟩
    · exact h
    · exact h
    · exact h.fork hblock hinsert
  case stored =>
    exact fun h hget hrun => forks_of_check_stored (h.stamped _ _ hget) hget hrun ▸ h
  case queried =>
    intro blocksQuery blocks blocks' forks forks' h hrun
    cases blocksQuery with
    | writeBlock dalBlock =>
        change insertNewHeadBlock blocks forks dalBlock = _ at hrun
        rw [insertNewHeadBlock, bind_eq_ok_iff] at hrun
        rcases hrun with ⟨blockstamp, hstamp, hrun⟩
        rw [bind_eq_ok_iff] at hrun
        rcases hrun with ⟨⟨tree, removed⟩, -, hrun⟩
        obtain ⟨-, rfl⟩ := Prod.mk.inj (Except.ok.inj hrun)
        exact (h.insert hstamp tree).removeAll tree removed
    | revertBlock dalBlock =>
        obtain ⟨-, rfl⟩ := Prod.mk.inj (Except.ok.inj hrun)
        exact h
  case changed =>
    intro forks forks' oldCurrent newCurrent h hrun
    rw [changeMainBranch, bind_eq_ok_iff] at hrun
    rcases hrun with ⟨tree, -, hrun⟩
    obtain rfl := Except.ok.inj hrun
    exact h.removeAll tree _

/-- In every state that the module reaches with parsed blocks, the loop does what is wanted of it
when each of its turns has what it needs. -/
theorem stacksWell_of_reached {s : BlockchainModule × SaveFlags}
    (hreached : Reached (default, .none) (ModuleOp.apply C S fuel)
      (fun _ op => op.Receives BlockDocument.Parsed) s)
    (hholds : ∀ n mid, Steps (Stacks C) n s.1 mid → TurnHolds C mid) : StacksWell C s.1 :=
  stacksWell_of_keyed (orphansInv_of_reached (hreached.mono fun _ _ _ => trivial)).dbs
    ((keptByModule_orphansParsed C).of_reached hreached).dbs.parsed hholds

/-- A genesis block with one member. -/
def memberBlock : BlockDocument :=
  { mockBlock 0 0 with identities := [mockIdentity 1], joiners := [mockMembership 1] }

/-- Blocks above the genesis block that arrive before it. -/
def stackingOps (blocks : List BlockDocument) : List ModuleOp :=
  (blocks ++ [memberBlock]).map .receiveBlock

/-- A block that excludes an unknown key. -/
def excludingOrphan : BlockDocument := { mockBlock 0 1 with excluded := [⟨9⟩] }

/-- A block that brings in the third key, and excludes an unknown key. -/
def traceOrphan : BlockDocument :=
  { excludingOrphan with identities := [mockIdentity 3], joiners := [mockMembership 3] }

/-- A block that certifies the third key. -/
def certifyingOrphan : BlockDocument :=
  { mockBlock 1 1 with certifications := [{ mockCertification 1 with target := ⟨3⟩ }] }

/-- A block with a key that certifies itself. -/
def selfCertifyingOrphan : BlockDocument :=
  { mockBlock 0 1 with certifications := [{ mockCertification 1 with target := ⟨1⟩ }] }

/-- The first candidate fails and the second one is valid, and is applied. -/
theorem stacksWell_excludingOrphan :
    ∃ s, (stackingOps [excludingOrphan, mockBlock 2 1]).foldlM
        (ModuleOp.apply mockCrypto .insertion 10) (default, .none) = .ok s ∧
      ¬ FoundValid mockCrypto s.1 excludingOrphan ∧ FoundValid mockCrypto s.1 (mockBlock 2 1) ∧
      StacksWell mockCrypto s.1 := by
  have hrun : ∃ s next, (stackingOps [excludingOrphan, mockBlock 2 1]).foldlM
        (ModuleOp.apply mockCrypto .insertion 10) (default, .none) = .ok s ∧
      s.1.candidates = [⟨excludingOrphan, none⟩, ⟨mockBlock 2 1, none⟩] ∧
      Stacks mockCrypto s.1 next ∧ next.candidates = [] ∧
      ¬ FoundValid mockCrypto s.1 excludingOrphan ∧ FoundValid mockCrypto s.1 (mockBlock 2 1) ∧
      s.1.currentBlockstamp.id ≤ lastBlockNumber ∧ next.currentBlockstamp.id ≤ lastBlockNumber ∧
      Chainable s.1.currentBlockstamp excludingOrphan ∧
      (s.1.memory.withNewcomers excludingOrphan).wotIndex.containsKey ⟨9⟩ = false ∧
      newcomersAmong excludingOrphan excludingOrphan.joiners = [] ∧
      excludingOrphan.linked s.1.memory = [] ∧ excludingOrphan.disabled s.1.memory = [] ∧
      excludingOrphan.renewed = [] := ⟨_, _, rfl, rfl, rfl, rfl, by decide +kernel⟩
  rcases hrun with ⟨s, next, hrun, hcandidates, hstacks, hlast, hfails, hvalid, hnumber, hnext,
    hchain, hunknown, hnewcomers, hlinked, hdisabled, hrenewed⟩
  refine ⟨s, hrun, hfails, hvalid, stacksWell_of_reached
    (Reached.of_foldlM .init ?_ hrun) ?_⟩
  · intro op hop s
    rcases List.mem_map.1 hop with ⟨block, hmem, rfl⟩
    have hhashed : ∀ block ∈ [excludingOrphan, mockBlock 2 1] ++ [memberBlock],
        block.hash.isSome ∧ block.innerHash.isSome ∧ block.issuers ≠ [] ∧
          block.signatures ≠ [] ∧ block.transactions = [] := by decide +kernel
    rcases hhashed block hmem with ⟨hhash, hinner, hissuers, hsignatures, hnone⟩
    exact ⟨hhash, hinner, hissuers, hsignatures, hnone ▸ List.forall_mem_nil _⟩
  have hclean : FailsCleanly mockCrypto s.1 excludingOrphan := by
    refine ⟨⟨fun _ => rfl, fun _ _ _ => ⟨List.forall_mem_nil _, ?_⟩,
      fun _ hnot => absurd hchain hnot⟩, fun _ => ⟨hnewcomers, hlinked, ?_, ?_⟩⟩
    · intro hknown
      cases hunknown.symm.trans (hknown ⟨9⟩ List.mem_cons_self)
    · rintro wotId ⟨pubkey, hmem, -⟩
      rw [hdisabled] at hmem
      cases hmem
    · rintro wotId ⟨pubkey, hmem, -⟩
      rw [hrenewed] at hmem
      cases hmem
  intro n mid hsteps
  cases hsteps with
  | refl =>
      refine ⟨hnumber, fun before sibling after hsplit _ _ failing hmem => ?_⟩
      rw [hcandidates] at hsplit
      cases before with
      | nil => cases hmem
      | cons first before =>
          rcases List.cons.inj hsplit with ⟨rfl, hsplit⟩
          cases before with
          | nil => exact List.mem_singleton.1 hmem ▸ hclean
          | cons second before => cases before <;> cases (List.cons.inj hsplit).2
  | head hfirst hrest =>
      obtain rfl := (Prod.mk.inj (Except.ok.inj (hfirst.symm.trans hstacks))).1
      cases hrest with
      | refl =>
          refine ⟨hnext, fun before sibling after hsplit => ?_⟩
          rw [hlast] at hsplit
          cases before <;> cases hsplit
      | head hmore _ =>
          rw [Stacks, hlast] at hmore
          cases (Prod.mk.inj (Except.ok.inj hmore)).2

/-- The trace of a block that is refused makes the next candidate valid, which takes the place of
the valid one. -/
theorem not_stacksWell_traceOrphan :
    ∃ s taken, (stackingOps [traceOrphan, certifyingOrphan, mockBlock 2 1]).foldlM
        (ModuleOp.apply mockCrypto .insertion 10) (default, .none) = .ok s ∧
      Stacks mockCrypto s.1 taken ∧ taken.currentBlockstamp = ⟨1, mockBlockHash 1 1⟩ ∧
      ¬ StacksWell mockCrypto s.1 := by
  have hrun : ∃ s taken wanted, (stackingOps [traceOrphan, certifyingOrphan, mockBlock 2 1]).foldlM
        (ModuleOp.apply mockCrypto .insertion 10) (default, .none) = .ok s ∧
      s.1.candidates = [⟨traceOrphan, none⟩, ⟨certifyingOrphan, none⟩, ⟨mockBlock 2 1, none⟩] ∧
      Stacks mockCrypto s.1 taken ∧
      tryStackables mockCrypto [⟨mockBlock 2 1, none⟩] s.1 = .ok (wanted, true) ∧
      taken.currentBlockstamp = ⟨1, mockBlockHash 1 1⟩ ∧
      wanted.currentBlockstamp = ⟨1, mockBlockHash 2 1⟩ ∧
      ¬ FoundValid mockCrypto s.1 traceOrphan ∧ ¬ FoundValid mockCrypto s.1 certifyingOrphan ∧
      FoundValid mockCrypto s.1 (mockBlock 2 1) :=
    ⟨_, _, _, rfl, rfl, rfl, rfl, by decide +kernel⟩
  rcases hrun with ⟨s, taken, wanted, hrun, hcandidates, hstacks, halone, htaken, hwanted, htrace,
    hcertifying, hvalid⟩
  refine ⟨s, taken, hrun, hstacks, htaken, fun hwell => ?_⟩
  have hsame := hwell.siblings 0 s.1 (.refl s.1) [⟨traceOrphan, none⟩, ⟨certifyingOrphan, none⟩]
    ⟨mockBlock 2 1, none⟩ [] hcandidates
    (List.forall_mem_cons.2 ⟨htrace, List.forall_mem_singleton.2 hcertifying⟩) hvalid
  have hequal := Except.ok.inj (hstacks.symm.trans (hsame.trans halone))
  rw [(Prod.mk.inj hequal).1, hwanted] at htaken
  revert htaken
  decide

/-- A candidate that stops the process keeps the valid one from being tried. -/
theorem not_stacksWell_selfCertifyingOrphan :
    ∃ s, (stackingOps [selfCertifyingOrphan, mockBlock 2 1]).foldlM
        (ModuleOp.apply mockCrypto .insertion 10) (default, .none) = .ok s ∧
      ¬ Returns (tryStackables mockCrypto s.1.candidates s.1) ∧ ¬ StacksWell mockCrypto s.1 := by
  have hrun : ∃ s, (stackingOps [selfCertifyingOrphan, mockBlock 2 1]).foldlM
        (ModuleOp.apply mockCrypto .insertion 10) (default, .none) = .ok s ∧
      s.1.candidates = [⟨selfCertifyingOrphan, none⟩, ⟨mockBlock 2 1, none⟩] ∧
      ¬ FoundValid mockCrypto s.1 selfCertifyingOrphan ∧
      FoundValid mockCrypto s.1 (mockBlock 2 1) ∧
      ¬ Returns (tryStackables mockCrypto s.1.candidates s.1) ∧
      Returns (tryStackables mockCrypto [⟨mockBlock 2 1, none⟩] s.1) :=
    ⟨_, rfl, rfl, by decide +kernel⟩
  rcases hrun with ⟨s, hrun, hcandidates, hfails, hvalid, hstops, hreturns⟩
  refine ⟨s, hrun, hstops, fun hwell => hstops ?_⟩
  rw [hwell.siblings 0 s.1 (.refl s.1) [⟨selfCertifyingOrphan, none⟩] ⟨mockBlock 2 1, none⟩ []
    hcandidates (List.forall_mem_singleton.2 hfails) hvalid]
  exact hreturns

end Durs
