/-
# The issuers frame

The blocks of each issuer in the frame below the current block, and the median of their numbers.
For an odd number of issuers the median is taken one position too far.
-/

import Durs.Dal.Readers
import Durs.Lib.Median
import Durs.RustStd.Grouping
import Durs.Sync.Expiry
import Mathlib.Data.List.Dedup

namespace Durs

open RustStd Lib

/-- `a - b` on `u32`, which stops the process where overflows are checked and wraps elsewhere. -/
def subtractU32 (checked : Bool) (a b : Nat) : Run Nat :=
  if b ≤ a then .ok (a - b)
  else if checked then fatalError "attempt to subtract with overflow"
  else .ok (a + 4294967296 - b)

/-- Count a block for its issuer. -/
def countIssuer (blocks : BlocksV10DBs) (currentFrame : HashMap PubKey Nat)
    (blockNumber : BlockNumber) : Run (HashMap PubKey Nat) :=
  match blocks.blockchainDb.get? blockNumber with
  | some dalBlock => do
      let issuer ← expect dalBlock.block.issuers[0]? "index out of bounds"
      let issuerCountBlocks :=
        match currentFrame.get? issuer with
        | some issuerCountBlocks => issuerCountBlocks + 1
        | none => 1
      return currentFrame.insert issuer issuerCountBlocks
  | none => fatalError s!"Fail to get block #{blockNumber} !"

/-- Get the current frame of calculating members. -/
def getCurrentFrame (checked : Bool) (currentBlock : DALBlock) (blocks : BlocksV10DBs) :
    Run (HashMap PubKey Nat) := do
  let frameBegin ← subtractU32 checked currentBlock.block.number
    (Sync.isizeAsU32 currentBlock.block.issuersFrame)
  (List.range' frameBegin (currentBlock.block.number - frameBegin)).foldlM (countIssuer blocks) ∅

/-- Compute the median of the issuers frame. -/
def computeMedianIssuersFrame (checked : Bool) (currentBlock : DALBlock)
    (currentFrame : HashMap PubKey Nat) : Run Nat :=
  if currentFrame.isEmpty then return 0
  else do
    let currentFrameVec := (currentFrame.iter.map Prod.snd).mergeSort (· ≤ ·)
    let issuersCount := currentBlock.block.issuersCount
    let medianIndex := if issuersCount % 2 = 1 then issuersCount / 2 + 1 else issuersCount / 2
    let medianIndex ← if medianIndex ≥ issuersCount then Sync.subtractU64 checked issuersCount 1
      else pure medianIndex
    expect currentFrameVec[medianIndex]? "index out of bounds"

variable {checked : Bool} {currentBlock : DALBlock} {blocks : BlocksV10DBs}
  {issuers : List PubKey} {issuer : PubKey} {numbers : List BlockNumber}

/-! ## The frame -/

/-- The issuer of a block of the local chain. -/
def BlocksV10DBs.issuer? (blocks : BlocksV10DBs) (blockNumber : BlockNumber) : Option PubKey :=
  (blocks.blockchainDb.get? blockNumber).bind fun dalBlock => dalBlock.block.issuers[0]?

/-- The issuers of the blocks of the frame, one for each block. -/
def frameIssuers (blocks : BlocksV10DBs) (currentBlock : DALBlock) : List PubKey :=
  (List.range' (currentBlock.block.number - currentBlock.block.issuersFrame.toNat)
    currentBlock.block.issuersFrame.toNat).filterMap blocks.issuer?

/-- The number of blocks of each issuer. -/
def blockCounts (issuers : List PubKey) : List Nat :=
  issuers.dedup.map fun issuer => issuers.count issuer

/-- The map of the number of blocks of each issuer. -/
def countIssuers (issuers : List PubKey) : HashMap PubKey Nat :=
  issuers.foldl (fun frame issuer => frame.insert issuer ((frame.get? issuer).getD 0 + 1)) ∅

theorem countIssuer_ok {frame : HashMap PubKey Nat} {blockNumber : BlockNumber}
    (h : blocks.issuer? blockNumber = some issuer) :
    countIssuer blocks frame blockNumber =
      .ok (frame.insert issuer ((frame.get? issuer).getD 0 + 1)) := by
  obtain ⟨dalBlock, hblock, hissuer⟩ := Option.bind_eq_some_iff.1 h
  rw [countIssuer, hblock]
  simp only [hissuer, expect, ok_bind]
  cases frame.get? issuer with
  | none => rfl
  | some count => rfl

theorem foldlM_countIssuer (h : ∀ i ∈ numbers, (blocks.issuer? i).isSome) :
    numbers.foldlM (countIssuer blocks) ∅ =
      .ok (countIssuers (numbers.filterMap blocks.issuer?)) := by
  suffices hgeneral : ∀ frame : HashMap PubKey Nat, numbers.foldlM (countIssuer blocks) frame =
      .ok ((numbers.filterMap blocks.issuer?).foldl
        (fun frame issuer => frame.insert issuer ((frame.get? issuer).getD 0 + 1)) frame) from
    hgeneral ∅
  induction numbers with
  | nil => exact fun _ => rfl
  | cons i numbers ih =>
      intro frame
      obtain ⟨issuer, hissuer⟩ := Option.isSome_iff_exists.1 (h i List.mem_cons_self)
      rw [List.foldlM_cons, countIssuer_ok hissuer, ok_bind,
        ih fun j hj => h j (List.mem_cons_of_mem _ hj), List.filterMap_cons_some hissuer,
        List.foldl_cons]

/-- Each block is counted once, for its issuer. -/
theorem get?_countIssuers (issuers : List PubKey) (issuer : PubKey) :
    (countIssuers issuers).get? issuer =
      if issuer ∈ issuers then some (issuers.count issuer) else none := by
  have hgroup : (countIssuers issuers).get? issuer =
      if (issuers.filter (· = issuer)).isEmpty then none
      else some ((issuers.filter (· = issuer)).foldl (fun count _ => count + 1) 0) :=
    HashMap.get?_foldl_group (fun _ => 0) (fun count _ => count + 1) id (fun _ _ => rfl) issuer
  have hcount : (issuers.filter (· = issuer)).foldl (fun count _ => count + 1) 0 =
      issuers.count issuer := by
    rw [List.foldl_add_const, Nat.one_mul, Nat.zero_add, List.count, List.countP_eq_length_filter]
    rfl
  rw [hgroup, hcount]
  by_cases hmem : issuer ∈ issuers
  · rw [if_pos hmem, if_neg]
    intro hempty
    have hnil := List.filter_eq_nil_iff.1 (List.isEmpty_iff.1 hempty) issuer hmem
    exact hnil (decide_eq_true rfl)
  · rw [if_neg hmem, if_pos]
    refine List.isEmpty_iff.2 (List.filter_eq_nil_iff.2 fun other hother heq => ?_)
    rw [of_decide_eq_true heq] at hother
    exact hmem hother

/-- The values of the map are the numbers of blocks of the issuers. -/
theorem countIssuers_values_perm (issuers : List PubKey) :
    ((countIssuers issuers).iter.map Prod.snd).Perm (blockCounts issuers) := by
  have hbound {entry : PubKey × Nat} (hentry : entry ∈ (countIssuers issuers).iter) :
      entry.1 ∈ issuers ∧ entry.2 = issuers.count entry.1 := by
    have hget := (HashMap.mem_iter_iff _ entry.1 entry.2).1 hentry
    rw [get?_countIssuers] at hget
    split at hget
    case isTrue hmem => exact ⟨hmem, (Option.some.inj hget).symm⟩
    case isFalse => cases hget
  have hvalues : (countIssuers issuers).iter.map Prod.snd =
      ((countIssuers issuers).iter.map Prod.fst).map fun issuer => issuers.count issuer := by
    rw [List.map_map]
    exact List.map_congr_left fun entry hentry => (hbound hentry).2
  rw [hvalues, blockCounts]
  refine List.Perm.map _ ((List.perm_ext_iff_of_nodup (HashMap.nodup_map_fst_iter _)
    (List.nodup_dedup issuers)).2 fun issuer => ?_)
  rw [List.mem_dedup, List.mem_map]
  constructor
  · rintro ⟨entry, hentry, rfl⟩
    exact (hbound hentry).1
  · intro hmem
    refine ⟨(issuer, issuers.count issuer), ?_, rfl⟩
    rw [HashMap.mem_iter_iff, get?_countIssuers, if_pos hmem]

/-! ## The median -/

theorem pairwise_mergeSort_le (l : List Nat) : (l.mergeSort (· ≤ ·)).Pairwise (· ≤ ·) := by
  refine (List.pairwise_mergeSort ?_ ?_ l).imp fun h => of_decide_eq_true h
  · intro a b c h h'
    exact decide_eq_true (Nat.le_trans (of_decide_eq_true h) (of_decide_eq_true h'))
  · intro a b
    simpa using Nat.le_total a b

/-- The numbers of blocks of the issuers, sorted. -/
def sortedCounts (issuers : List PubKey) : List Nat := (blockCounts issuers).mergeSort (· ≤ ·)

theorem length_sortedCounts (issuers : List PubKey) :
    (sortedCounts issuers).length = issuers.dedup.length := by
  rw [sortedCounts, List.length_mergeSort, blockCounts, List.length_map]

theorem sortedCounts_eq {l : List Nat} (hsorted : l.Pairwise (· ≤ ·))
    (hperm : (blockCounts issuers).Perm l) : sortedCounts issuers = l :=
  List.Perm.eq_of_pairwise (fun _ _ _ _ h h' => Nat.le_antisymm h h') (pairwise_mergeSort_le _)
    hsorted ((List.mergeSort_perm _ _).trans hperm)

/-- The values of the map are sorted as the numbers of blocks of the issuers are. -/
theorem mergeSort_values (issuers : List PubKey) :
    ((countIssuers issuers).iter.map Prod.snd).mergeSort (· ≤ ·) = sortedCounts issuers :=
  (sortedCounts_eq (pairwise_mergeSort_le _)
    ((countIssuers_values_perm issuers).symm.trans (List.mergeSort_perm _ _).symm)).symm

/-- The two numbers in the middle are equal, if the number of issuers is odd and not one. -/
def MiddleTwice (issuers : List PubKey) : Prop :=
  issuers.dedup.length % 2 = 1 → 1 < issuers.dedup.length →
    (sortedCounts issuers)[issuers.dedup.length / 2]? =
      (sortedCounts issuers)[issuers.dedup.length / 2 + 1]?

theorem isEmpty_countIssuers (issuers : List PubKey) :
    (countIssuers issuers).isEmpty = true ↔ issuers.dedup.length = 0 := by
  rw [HashMap.isEmpty, List.isEmpty_iff, List.eq_nil_iff_forall_not_mem, List.length_eq_zero_iff,
    List.eq_nil_iff_forall_not_mem]
  refine forall_congr' fun issuer => not_congr ?_
  rw [HashMap.mem_keys_iff, get?_countIssuers, List.mem_dedup]
  split
  case isTrue hmem => simp [hmem]
  case isFalse hmem => simp [hmem]

/-- A number is computed, and it is a median of the numbers of blocks exactly when the two in the
middle are equal. -/
theorem computeMedianIssuersFrame_ok
    (hcount : currentBlock.block.issuersCount = issuers.dedup.length) :
    ∃ m, computeMedianIssuersFrame checked currentBlock (countIssuers issuers) = .ok m ∧
      (IsMedian (blockCounts issuers) m ↔ MiddleTwice issuers) := by
  have hsorted : (sortedCounts issuers).Pairwise (· ≤ ·) := pairwise_mergeSort_le _
  have hlength := length_sortedCounts issuers
  have hmedian {m : Nat} : IsMedian (blockCounts issuers) m ↔ IsMedian (sortedCounts issuers) m :=
    ⟨fun h => h.perm (List.mergeSort_perm _ _).symm, fun h => h.perm (List.mergeSort_perm _ _)⟩
  rw [computeMedianIssuersFrame, hcount, MiddleTwice, mergeSort_values]
  simp only [isEmpty_countIssuers, hmedian]
  by_cases hzero : issuers.dedup.length = 0
  · rw [if_pos hzero]
    have hnil := List.length_eq_zero_iff.1 (hlength.trans hzero)
    refine ⟨0, rfl, iff_of_true (hnil ▸ .nil 0) ?_⟩
    intro hodd
    omega
  rw [if_neg hzero]
  have hread {i : Nat} (hi : i < issuers.dedup.length) : ∃ m, (sortedCounts issuers)[i]? = some m :=
    ⟨_, List.getElem?_eq_getElem (by rw [hlength]; exact hi)⟩
  by_cases hodd : issuers.dedup.length % 2 = 1
  · rw [if_pos hodd]
    by_cases hone : 1 < issuers.dedup.length
    · obtain ⟨m, hm⟩ := hread (i := issuers.dedup.length / 2 + 1) (by omega)
      rw [if_neg (by omega), pure_bind, hm]
      refine ⟨m, rfl, ?_⟩
      have hnext := isMedian_half_succ_iff (m := m) hsorted (by rw [hlength]; exact hodd)
        (by rw [hlength]; exact hm)
      rw [hnext, hlength]
      exact ⟨fun h _ _ => h, fun h => h hodd hone⟩
    · obtain ⟨m, hm⟩ := hread (i := 0) (by omega)
      have hsub : Sync.subtractU64 checked issuers.dedup.length 1 = .ok 0 := by
        have hlen : issuers.dedup.length = 1 := by omega
        rw [hlen]
        cases checked with
        | true => rfl
        | false => rfl
      rw [if_pos (by omega), hsub, ok_bind, hm]
      refine ⟨m, rfl, iff_of_true (isMedian_half hsorted ?_) fun _ h => absurd h hone⟩
      rw [hlength, Nat.div_eq_of_lt (by omega)]
      exact hm
  · obtain ⟨m, hm⟩ := hread (i := issuers.dedup.length / 2) (by omega)
    rw [if_neg hodd, if_neg (by omega), pure_bind, hm]
    refine ⟨m, rfl, iff_of_true (isMedian_half hsorted ?_) fun h => absurd h hodd⟩
    rw [hlength]
    exact hm

/-! ## The current frame -/

/-- The local chain below a block: each block has an issuer. -/
def HoldsChain (blocks : BlocksV10DBs) (currentBlock : DALBlock) : Prop :=
  ∀ i < currentBlock.block.number, (blocks.issuer? i).isSome

/-- The size of the frame is cast to `u32` without a change, or to a frame that is empty too. -/
def FrameFits (checked : Bool) (currentBlock : DALBlock) : Prop :=
  0 ≤ currentBlock.block.issuersFrame ∨ Sync.isizeAsU32 currentBlock.block.issuersFrame = 0 ∨
    checked = false ∧
      currentBlock.block.number < Sync.isizeAsU32 currentBlock.block.issuersFrame

instance FrameFits.decidable (checked : Bool) (currentBlock : DALBlock) :
    Decidable (FrameFits checked currentBlock) :=
  inferInstanceAs (Decidable (_ ∨ _ ∨ _ ∧ _))

/-- What the frame and its median should be: each block of the frame is counted once, for its
issuer, and the median is one of these numbers. -/
def MedianOfFrame (checked : Bool) (currentBlock : DALBlock) (blocks : BlocksV10DBs) : Prop :=
  ∃ frame m, getCurrentFrame checked currentBlock blocks = .ok frame ∧
    (∀ issuer, frame.get? issuer =
      if issuer ∈ frameIssuers blocks currentBlock
      then some ((frameIssuers blocks currentBlock).count issuer) else none) ∧
    computeMedianIssuersFrame checked currentBlock frame = .ok m ∧
    IsMedian (blockCounts (frameIssuers blocks currentBlock)) m

theorem isizeAsU32_lt (number : Int) : Sync.isizeAsU32 number < 4294967296 := by
  have hlt : number % 4294967296 < 4294967296 := Int.emod_lt_of_pos number (by decide)
  have hpos : 0 ≤ number % 4294967296 := Int.emod_nonneg number (by decide)
  exact (Int.toNat_lt hpos).2 hlt

theorem sub_wrapped_eq_zero (number : Nat) {size : Nat} (hsize : size < 4294967296) :
    number - (number + 4294967296 - size) = 0 := by
  omega

/-- The frame of a size up to the number of the current block. -/
theorem getCurrentFrame_of_le (hchain : HoldsChain blocks currentBlock) {size : Nat}
    (hsize : Sync.isizeAsU32 currentBlock.block.issuersFrame = size)
    (hle : size ≤ currentBlock.block.number) :
    getCurrentFrame checked currentBlock blocks =
      .ok (countIssuers ((List.range' (currentBlock.block.number - size) size).filterMap
        blocks.issuer?)) := by
  rw [getCurrentFrame, hsize, subtractU32, if_pos hle, ok_bind, Nat.sub_sub_self hle]
  refine foldlM_countIssuer fun i hi => hchain i ?_
  rw [List.mem_range'_1, Nat.sub_add_cancel hle] at hi
  exact hi.2

/-- A size above the number of the current block stops the process where overflows are checked, and
gives an empty frame elsewhere. -/
theorem getCurrentFrame_of_lt
    (hlt : currentBlock.block.number < Sync.isizeAsU32 currentBlock.block.issuersFrame) :
    getCurrentFrame checked currentBlock blocks =
      if checked then fatalError "attempt to subtract with overflow" else .ok ∅ := by
  have hwraps := sub_wrapped_eq_zero currentBlock.block.number
    (isizeAsU32_lt currentBlock.block.issuersFrame)
  rw [getCurrentFrame, subtractU32, if_neg (Nat.not_le_of_lt hlt)]
  cases checked with
  | true =>
      rw [if_pos rfl, if_pos rfl]
      rfl
  | false =>
      rw [if_neg Bool.false_ne_true, if_neg Bool.false_ne_true, ok_bind, hwraps,
        List.range'_zero, List.foldlM_nil]
      exact pure_eq_ok_iff.2 rfl

/-- The frame of a size that fits is the one of the issuers of its blocks. -/
theorem getCurrentFrame_ok (hchain : HoldsChain blocks currentBlock)
    (hnumber : currentBlock.block.number < 4294967296)
    (hframe : currentBlock.block.issuersFrame ≤ currentBlock.block.number)
    (hfits : FrameFits checked currentBlock) :
    getCurrentFrame checked currentBlock blocks =
      .ok (countIssuers (frameIssuers blocks currentBlock)) := by
  by_cases hsign : 0 ≤ currentBlock.block.issuersFrame
  · obtain ⟨size, hsize⟩ := Int.eq_ofNat_of_zero_le hsign
    rw [hsize] at hframe
    have hle : size ≤ currentBlock.block.number := Int.ofNat_le.1 hframe
    have hcast : Sync.isizeAsU32 currentBlock.block.issuersFrame = size := by
      rw [hsize]
      exact Sync.isizeAsU32_natCast (Nat.lt_of_le_of_lt hle hnumber)
    rw [getCurrentFrame_of_le hchain hcast hle, frameIssuers, hsize, Int.toNat_natCast]
  · have hnil : frameIssuers blocks currentBlock = [] := by
      rw [frameIssuers, Int.toNat_of_nonpos (Int.le_of_lt (Int.not_le.1 hsign))]
      rfl
    rw [hnil]
    rcases hfits with hfits | hzero | ⟨rfl, hlt⟩
    · exact absurd hfits hsign
    · exact getCurrentFrame_of_le hchain hzero (Nat.zero_le _)
    · exact getCurrentFrame_of_lt hlt

/-- A negative size that does not fit stops the process, or counts blocks for an empty frame. -/
theorem not_frame_of_not_frameFits (hchain : HoldsChain blocks currentBlock)
    (hfits : ¬ FrameFits checked currentBlock) {frame : HashMap PubKey Nat}
    (h : getCurrentFrame checked currentBlock blocks = .ok frame) :
    frameIssuers blocks currentBlock = [] ∧ ∃ issuer, (frame.get? issuer).isSome := by
  rw [FrameFits, not_or, not_or] at hfits
  obtain ⟨hsign, hzero, hlt⟩ := hfits
  refine ⟨?_, ?_⟩
  · rw [frameIssuers, Int.toNat_of_nonpos (Int.le_of_lt (Int.not_le.1 hsign))]
    rfl
  · by_cases hle : Sync.isizeAsU32 currentBlock.block.issuersFrame ≤ currentBlock.block.number
    · obtain ⟨size, hsize⟩ : ∃ size, Sync.isizeAsU32 currentBlock.block.issuersFrame = size + 1 :=
        Nat.exists_eq_succ_of_ne_zero hzero
      rw [hsize] at hle
      have hfirst : currentBlock.block.number - (size + 1) < currentBlock.block.number :=
        Nat.sub_lt (Nat.lt_of_lt_of_le (Nat.succ_pos size) hle) (Nat.succ_pos size)
      obtain ⟨issuer, hissuer⟩ := Option.isSome_iff_exists.1 (hchain _ hfirst)
      rw [getCurrentFrame_of_le hchain hsize hle] at h
      obtain rfl := Except.ok.inj h
      refine ⟨issuer, ?_⟩
      rw [get?_countIssuers, List.range'_succ, List.filterMap_cons_some hissuer,
        if_pos List.mem_cons_self]
      rfl
    · rw [getCurrentFrame_of_lt (Nat.lt_of_not_le hle)] at h
      cases checked with
      | true => cases h
      | false => exact absurd ⟨rfl, Nat.lt_of_not_le hle⟩ hlt

/-- On a local chain, and for a current block whose frame is at most its number and whose number of
issuers is that of the frame, the blocks are counted and their median computed exactly when the
frame fits and the two numbers in the middle are equal, if there is an odd number of issuers. -/
theorem medianOfFrame_iff (hchain : HoldsChain blocks currentBlock)
    (hnumber : currentBlock.block.number < 4294967296)
    (hframe : currentBlock.block.issuersFrame ≤ currentBlock.block.number)
    (hcount : currentBlock.block.issuersCount = (frameIssuers blocks currentBlock).dedup.length) :
    MedianOfFrame checked currentBlock blocks ↔
      FrameFits checked currentBlock ∧ MiddleTwice (frameIssuers blocks currentBlock) := by
  by_cases hfits : FrameFits checked currentBlock
  · have hok := getCurrentFrame_ok hchain hnumber hframe hfits
    obtain ⟨m, hm, hmedian⟩ := computeMedianIssuersFrame_ok hcount
    rw [and_iff_right hfits, ← hmedian]
    constructor
    · rintro ⟨frame, m', hframe', -, hm', hmedian'⟩
      obtain rfl := Except.ok.inj (hok.symm.trans hframe')
      obtain rfl := Except.ok.inj (hm.symm.trans hm')
      exact hmedian'
    · intro hmedian'
      exact ⟨_, m, hok, get?_countIssuers _, hm, hmedian'⟩
  · refine iff_of_false ?_ fun h => hfits h.1
    rintro ⟨frame, m, hframe', hcounts, -⟩
    obtain ⟨hnil, issuer, hsome⟩ := not_frame_of_not_frameFits hchain hfits hframe'
    rw [hcounts, hnil] at hsome
    cases hsome

/-- A chain of blocks of given issuers. -/
def issuedChain (issuers : List Nat) : BlocksV10DBs :=
  ⟨HashMap.ofList (issuers.zipIdx.map fun entry =>
    (entry.2, { block := { genEmptyTimedBlock ⟨entry.2, 0⟩ 0 0 with issuers := [⟨entry.1⟩] }
                expireCerts := none }))⟩

/-- A current block whose frame reaches down to the first block. -/
def currentOf (number : Nat) (issuersCount : Nat) : DALBlock :=
  { block := { genEmptyTimedBlock ⟨number, 0⟩ 0 0 with issuersCount, issuersFrame := number }
    expireCerts := none }

/-- Of one block, two blocks and two blocks the median is two. -/
theorem medianOfFrame_issuedChain :
    MedianOfFrame true (currentOf 5 3) (issuedChain [1, 2, 3, 2, 3]) := by
  have hsorted : sortedCounts [⟨1⟩, ⟨2⟩, ⟨3⟩, ⟨2⟩, ⟨3⟩] = [1, 2, 2] :=
    sortedCounts_eq (by decide) (by decide)
  refine (medianOfFrame_iff (by unfold HoldsChain; decide) (by decide) (by decide)
    (by decide)).2 ⟨by decide, fun _ _ => ?_⟩
  have hissuers : frameIssuers (issuedChain [1, 2, 3, 2, 3]) (currentOf 5 3) =
      [⟨1⟩, ⟨2⟩, ⟨3⟩, ⟨2⟩, ⟨3⟩] := rfl
  rw [hissuers, hsorted]
  rfl

/-- Of one block, one block and two blocks the median is one, and two is computed. -/
theorem not_medianOfFrame_issuedChain :
    HoldsChain (issuedChain [1, 2, 3, 3]) (currentOf 4 3) ∧
      (frameIssuers (issuedChain [1, 2, 3, 3]) (currentOf 4 3)).dedup.length = 3 ∧
      (∃ frame, getCurrentFrame true (currentOf 4 3) (issuedChain [1, 2, 3, 3]) = .ok frame ∧
        computeMedianIssuersFrame true (currentOf 4 3) frame = .ok 2) ∧
      ¬ MedianOfFrame true (currentOf 4 3) (issuedChain [1, 2, 3, 3]) := by
  have hframe : getCurrentFrame true (currentOf 4 3) (issuedChain [1, 2, 3, 3]) =
      .ok (countIssuers [⟨1⟩, ⟨2⟩, ⟨3⟩, ⟨3⟩]) := rfl
  have hmedian : computeMedianIssuersFrame true (currentOf 4 3)
      (countIssuers [⟨1⟩, ⟨2⟩, ⟨3⟩, ⟨3⟩]) = .ok 2 := by
    rw [computeMedianIssuersFrame, mergeSort_values,
      sortedCounts_eq (l := [1, 1, 2]) (by decide) (by decide)]
    rfl
  refine ⟨by unfold HoldsChain; decide, by decide, ⟨_, hframe, hmedian⟩, ?_⟩
  rintro ⟨frame, m, hframe', -, hm, hisMedian⟩
  obtain rfl := Except.ok.inj (hframe.symm.trans hframe')
  obtain rfl := Except.ok.inj (hmedian.symm.trans hm)
  exact absurd hisMedian.above (by decide)

end Durs
