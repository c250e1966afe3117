/-
# Orphans that await each other

A fork block brings the orphans that await it into the tree, and those that await them.  A block
number wraps below zero, so orphans can await each other in a circle, and their insertion never
ends; it does end in all other cases.
-/

import Durs.ForkTree.Arrival

namespace Durs

open RustStd Relation

namespace ForkTree

variable {t : ForkTree}

/-- A fork block whose parent the tree carries is placed in the tree. -/
theorem insertNewForkBlock_of_carries (blockstamp : Blockstamp) {previousHash : Hash}
    (hparent : t.Carries ⟨previousBlockNumber blockstamp.id, previousHash⟩) :
    ∃ t', t.insertNewForkBlock blockstamp previousHash = .ok (t', true) ∧
      ∀ b, t'.Carries b ↔ b = blockstamp ∨ t.Carries b := by
  rcases hparent with ⟨id, node, hnode, hdata⟩
  cases hfind : t.findNodeWithBlockstamp ⟨previousBlockNumber blockstamp.id, previousHash⟩ with
  | none => exact absurd hdata (findNodeWithBlockstamp_eq_none_iff.1 hfind id node hnode)
  | some p =>
      rcases node?_of_findNodeWithBlockstamp hfind with ⟨parent, hp, -⟩
      refine ⟨(t.withChild blockstamp p parent).withSheet t.nodes.length, ?_,
        carries_withChild_iff hp blockstamp⟩
      simp only [insertNewForkBlock, hfind, insertNewNode_some _ _ hp, Bool.false_eq_true,
        if_false, ok_bind, pure_bind]
      rfl

/-- A fork block whose parent the tree does not carry is not placed. -/
theorem insertNewForkBlock_of_not_carries (blockstamp : Blockstamp) {previousHash : Hash}
    (hparent : ¬ t.Carries ⟨previousBlockNumber blockstamp.id, previousHash⟩) :
    t.insertNewForkBlock blockstamp previousHash = .ok (t, false) := by
  have hfind : t.findNodeWithBlockstamp ⟨previousBlockNumber blockstamp.id, previousHash⟩ = none :=
    findNodeWithBlockstamp_eq_none_iff.2 fun id node hnode hdata =>
      hparent ⟨id, node, hnode, hdata⟩
  rw [insertNewForkBlock, hfind]
  rfl

end ForkTree

/-- The orphans carry their hash, and are stored under the blockstamp of their parent. -/
structure OrphansKeyed (orphans : HashMap Blockstamp (List DALBlock)) : Prop where
  hashed : ∀ key, ∀ x ∈ (orphans.get? key).getD [], x.block.hash.isSome = true
  keyed : ∀ key, ∀ x ∈ (orphans.get? key).getD [], x.previousBlockstamp = key

/-- Among the orphans that a block brings in, one awaits itself through others. -/
def BringsCircle (orphans : HashMap Blockstamp (List DALBlock)) (dalBlock : DALBlock) : Prop :=
  ∃ x, ReflTransGen (Awaits orphans) dalBlock x ∧ TransGen (Awaits orphans) x x

variable {orphans : HashMap Blockstamp (List DALBlock)} {forks forks' : ForksDBs}
  {dalBlock x : DALBlock}

/-- The databases of which the tree and the fork store alone have grown. -/
structure Grows (orphans : HashMap Blockstamp (List DALBlock)) (forks forks' : ForksDBs) : Prop where
  orphans : forks'.orphanBlocksDb = orphans
  carries : ∀ b, forks.forkTreeDb.Carries b → forks'.forkTreeDb.Carries b

theorem Grows.trans {mid : ForksDBs} (h : Grows orphans forks mid) (h' : Grows orphans mid forks') :
    Grows orphans forks forks' :=
  ⟨h'.orphans, fun b hb => h'.carries b (h.carries b hb)⟩

/-- The insertion of the blocks that await a placed one. -/
abbrev insertStackable (fuel : Nat) (forks : ForksDBs) (stackable : DALBlock) : Run ForksDBs := do
  let (forks, _) ← insertNewForkBlockAux fuel forks stackable
  return forks

/-- A block whose parent the tree carries is placed, then the blocks that await it are inserted. -/
theorem insertNewForkBlockAux_succ (fuel : Nat) (hhash : dalBlock.block.hash.isSome = true)
    (hparent : forks.forkTreeDb.Carries dalBlock.previousBlockstamp) :
    ∃ mid, Grows forks.orphanBlocksDb forks mid ∧ mid.forkTreeDb.Carries dalBlock.stamp ∧
      insertNewForkBlockAux (fuel + 1) forks dalBlock = do
        let forks ← ((forks.orphanBlocksDb.get? dalBlock.stamp).getD []).foldlM
          (insertStackable fuel) mid
        return (forks, true) := by
  rcases ForkTree.insertNewForkBlock_of_carries dalBlock.stamp hparent with ⟨tree, hinsert, htree⟩
  refine ⟨{ forks with
    forkTreeDb := tree, forkBlocksDb := forks.forkBlocksDb.insert dalBlock.stamp dalBlock },
    ⟨rfl, fun b hb => (htree b).2 (.inr hb)⟩, (htree _).2 (.inl rfl), ?_⟩
  rw [insertNewForkBlockAux, DALBlock.blockstamp_eq_stamp hhash, ok_bind, hinsert, ok_bind]
  rfl

/-- A block that awaits a placed one has its parent in the tree. -/
theorem carries_of_awaits (hkeyed : OrphansKeyed orphans) (hx : Awaits orphans dalBlock x)
    (hplaced : forks.forkTreeDb.Carries dalBlock.stamp) :
    forks.forkTreeDb.Carries x.previousBlockstamp := by
  rw [hkeyed.keyed dalBlock.stamp x hx]
  exact hplaced

/-- The insertion of a block whose parent the tree carries leaves the orphans as they are. -/
theorem grows_of_insert (hkeyed : OrphansKeyed orphans) (fuel : Nat) :
    ∀ {forks forks' : ForksDBs} {dalBlock : DALBlock} {inserted : Bool},
      forks.orphanBlocksDb = orphans → dalBlock.block.hash.isSome = true →
      forks.forkTreeDb.Carries dalBlock.previousBlockstamp →
      insertNewForkBlockAux fuel forks dalBlock = .ok (forks', inserted) →
      Grows orphans forks forks' := by
  induction fuel with
  | zero =>
      intro forks forks' dalBlock inserted _ _ _ hrun
      cases hrun
  | succ fuel ih =>
      rintro forks forks' dalBlock inserted rfl hhash hparent hrun
      rcases insertNewForkBlockAux_succ fuel hhash hparent with ⟨mid, hgrows, hstamp, heq⟩
      rw [heq, bind_eq_ok_iff] at hrun
      rcases hrun with ⟨last, hfold, hrun⟩
      obtain ⟨rfl, -⟩ := Prod.mk.inj (Except.ok.inj hrun)
      have hlast : Grows forks.orphanBlocksDb forks last ∧
          last.forkTreeDb.Carries dalBlock.stamp := by
        refine foldlM_preserves (P := fun now => Grows forks.orphanBlocksDb forks now ∧
          now.forkTreeDb.Carries dalBlock.stamp) ?_ ⟨hgrows, hstamp⟩ hfold
        rintro now stackable now' hmem ⟨hnow, hplaced⟩ hstep
        rw [insertStackable, bind_eq_ok_iff] at hstep
        rcases hstep with ⟨⟨_, inserted⟩, hrec, hstep⟩
        obtain rfl := Except.ok.inj hstep
        have hgrows' := ih hnow.orphans (hkeyed.hashed _ _ hmem)
          (carries_of_awaits hkeyed hmem hplaced) hrec
        exact ⟨hnow.trans hgrows', hgrows'.carries _ hplaced⟩
      exact hlast.1

/-- The insertion of a block that brings a circle of orphans does not end. -/
theorem not_returns_of_bringsCircle (hkeyed : OrphansKeyed orphans) (fuel : Nat) :
    ∀ {forks : ForksDBs} {dalBlock : DALBlock}, forks.orphanBlocksDb = orphans →
      dalBlock.block.hash.isSome = true →
      forks.forkTreeDb.Carries dalBlock.previousBlockstamp → BringsCircle orphans dalBlock →
      ¬ Returns (insertNewForkBlockAux fuel forks dalBlock) := by
  induction fuel with
  | zero =>
      rintro forks dalBlock _ _ _ _ ⟨_, hrun⟩
      cases hrun
  | succ fuel ih =>
      rintro forks dalBlock rfl hhash hparent ⟨y, hreaches, hcircle⟩ ⟨⟨last, inserted⟩, hrun⟩
      rcases insertNewForkBlockAux_succ fuel hhash hparent with ⟨mid, hgrows, hstamp, heq⟩
      -- one of the blocks that await this one brings the circle too
      have hnext : ∃ x, Awaits forks.orphanBlocksDb dalBlock x ∧
          BringsCircle forks.orphanBlocksDb x := by
        rcases ReflTransGen.cases_head hreaches with rfl | ⟨x, hx, hreaches⟩
        · rcases TransGen.head'_iff.1 hcircle with ⟨x, hx, hback⟩
          exact ⟨x, hx, dalBlock, hback, hcircle⟩
        · exact ⟨x, hx, y, hreaches, hcircle⟩
      rcases hnext with ⟨x, hx, hbrings⟩
      rw [heq, bind_eq_ok_iff] at hrun
      rcases hrun with ⟨last, hfold, -⟩
      refine foldlM_ne_ok (P := fun now => Grows forks.orphanBlocksDb forks now ∧
        now.forkTreeDb.Carries dalBlock.stamp) ?_ hx ?_ ⟨hgrows, hstamp⟩ hfold
      · rintro now stackable now' hmem ⟨hnow, hplaced⟩ hstep
        rw [insertStackable, bind_eq_ok_iff] at hstep
        rcases hstep with ⟨⟨_, inserted⟩, hrec, hstep⟩
        obtain rfl := Except.ok.inj hstep
        have hgrows' := grows_of_insert hkeyed fuel hnow.orphans (hkeyed.hashed _ _ hmem)
          (carries_of_awaits hkeyed hmem hplaced) hrec
        exact ⟨hnow.trans hgrows', hgrows'.carries _ hplaced⟩
      · rintro now now' ⟨hnow, hplaced⟩ hstep
        rw [insertStackable, bind_eq_ok_iff] at hstep
        rcases hstep with ⟨result, hrec, -⟩
        exact ih hnow.orphans (hkeyed.hashed _ _ hx) (carries_of_awaits hkeyed hx hplaced) hbrings
          ⟨result, hrec⟩

/-- The keys of the orphan store that are not among those met. -/
def keysLeft (orphans : HashMap Blockstamp (List DALBlock)) (met : List Blockstamp) : Nat :=
  orphans.keys.countP fun key => decide (key ∉ met)

theorem keysLeft_lt {met : List Blockstamp} (hx : Awaits orphans dalBlock x)
    (hnew : dalBlock.stamp ∉ met) : keysLeft orphans (dalBlock.stamp :: met) < keysLeft orphans met := by
  have hkey : dalBlock.stamp ∈ orphans.keys := by
    rw [HashMap.mem_keys_iff]
    cases hget : orphans.get? dalBlock.stamp with
    | some waiting => exact ⟨waiting, rfl⟩
    | none =>
        rw [Awaits, hget] at hx
        cases hx
  refine countP_lt_countP hkey (decide_eq_true hnew) (decide_eq_false ?_) ?_
  · exact fun hnot => hnot List.mem_cons_self
  · intro key hnot
    have hnot := of_decide_eq_true hnot
    exact decide_eq_true fun hmem => hnot (List.mem_cons_of_mem _ hmem)

/-- The insertion of a block that brings no circle of orphans ends: it meets each key of the orphan
store once. -/
theorem returns_of_not_bringsCircle (hkeyed : OrphansKeyed orphans) (fuel : Nat) :
    ∀ {forks : ForksDBs} {dalBlock : DALBlock} (met : List Blockstamp),
      forks.orphanBlocksDb = orphans → dalBlock.block.hash.isSome = true →
      forks.forkTreeDb.Carries dalBlock.previousBlockstamp → ¬ BringsCircle orphans dalBlock →
      (∀ x, ReflTransGen (Awaits orphans) dalBlock x → x.stamp ∉ met) →
      keysLeft orphans met < fuel →
      Returns (insertNewForkBlockAux fuel forks dalBlock) := by
  induction fuel with
  | zero =>
      intro forks dalBlock met _ _ _ _ _ hfuel
      cases hfuel
  | succ fuel ih =>
      rintro forks dalBlock met rfl hhash hparent hcircle hmet hfuel
      rcases insertNewForkBlockAux_succ fuel hhash hparent with ⟨mid, hgrows, hstamp, heq⟩
      have hfold : ∃ last, ((forks.orphanBlocksDb.get? dalBlock.stamp).getD []).foldlM
          (insertStackable fuel) mid = .ok last ∧ Grows forks.orphanBlocksDb forks last ∧
            last.forkTreeDb.Carries dalBlock.stamp := by
        refine exists_foldlM (P := fun now => Grows forks.orphanBlocksDb forks now ∧
          now.forkTreeDb.Carries dalBlock.stamp) ?_ ⟨hgrows, hstamp⟩
        rintro now stackable hmem ⟨hnow, hplaced⟩
        have hawaits : Awaits forks.orphanBlocksDb dalBlock stackable := hmem
        have hhash' := hkeyed.hashed _ _ hmem
        have hparent' := carries_of_awaits hkeyed hawaits hplaced
        have hnocircle : ¬ BringsCircle forks.orphanBlocksDb stackable := by
          rintro ⟨y, hreaches, hback⟩
          exact hcircle ⟨y, .head hawaits hreaches, hback⟩
        have hfresh : ∀ y, ReflTransGen (Awaits forks.orphanBlocksDb) stackable y →
            y.stamp ∉ dalBlock.stamp :: met := by
          intro y hreaches hmem
          rcases List.mem_cons.1 hmem with heq | hmem
          · -- a later block with this blockstamp is awaited by the same orphans
            have hback : Awaits forks.orphanBlocksDb y stackable := by
              rw [Awaits, heq]
              exact hawaits
            exact hnocircle ⟨stackable, .refl, .tail' hreaches hback⟩
          · exact hmet y (.head hawaits hreaches) hmem
        have hless := keysLeft_lt hawaits (hmet dalBlock .refl)
        rcases ih (dalBlock.stamp :: met) hnow.orphans hhash' hparent' hnocircle hfresh
          (Nat.lt_of_lt_of_le hless (Nat.le_of_lt_succ hfuel)) with ⟨⟨now', inserted⟩, hrec⟩
        have hgrows' := grows_of_insert hkeyed fuel hnow.orphans hhash' hparent' hrec
        refine ⟨now', ?_, hnow.trans hgrows', hgrows'.carries _ hplaced⟩
        rw [insertStackable, hrec]
        rfl
      rcases hfold with ⟨last, hfold, -⟩
      rw [heq, hfold]
      exact returns_pure _

/-- A fork block can be inserted exactly when it is an orphan or brings no circle of orphans. -/
theorem returns_insertNewForkBlock_iff (hkeyed : OrphansKeyed forks.orphanBlocksDb)
    (hhash : dalBlock.block.hash.isSome = true) :
    Returns (insertNewForkBlock forks dalBlock) ↔
      ¬ (forks.forkTreeDb.Carries dalBlock.previousBlockstamp ∧
        BringsCircle forks.orphanBlocksDb dalBlock) := by
  rw [insertNewForkBlock]
  by_cases hparent : forks.forkTreeDb.Carries dalBlock.previousBlockstamp
  · constructor
    · rintro hreturns ⟨-, hcircle⟩
      exact not_returns_of_bringsCircle hkeyed _ rfl hhash hparent hcircle hreturns
    · intro hnot
      refine returns_of_not_bringsCircle hkeyed _ [] rfl hhash hparent
        (fun hcircle => hnot ⟨hparent, hcircle⟩) (fun _ _ hmem => by cases hmem) ?_
      exact Nat.lt_succ_of_le (List.countP_le_length.trans_eq rfl)
  · refine iff_of_true ?_ fun h => hparent h.1
    rw [insertNewForkBlockAux, DALBlock.blockstamp_eq_stamp hhash, ok_bind,
      ForkTree.insertNewForkBlock_of_not_carries dalBlock.stamp hparent, ok_bind]
    exact returns_pure _

end Durs
