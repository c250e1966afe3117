/-
# The expiry window of the synchronisation

The synchronisation keeps the median times of the blocks whose certifications have not expired, and
at each block takes out of the queue those that are older than the validity of a certification.
The blocks that leave the queue are exactly those that expire there, provided that no block is
younger than the validity period: the date to compare with is then below zero.
-/

import Durs.Dal.Entities
import Durs.Documents.Integers
import Durs.Lib.Sweep
import Durs.Run
import Mathlib.Order.Monotone.Defs

namespace Durs

open RustStd Lib

namespace Sync

/-! ## The window -/

/-- `a - b` on `u64`, which stops the process where overflows are checked and wraps elsewhere. -/
def subtractU64 (checked : Bool) (a b : Nat) : Run Nat :=
  if checked && a < b then fatalError "attempt to subtract with overflow" else .ok (subU64 a b)

/-- `a + 1` on `isize`, which stops the process where overflows are checked and wraps elsewhere. -/
def incrementIsize (checked : Bool) (a : Int) : Run Int :=
  if a + 1 < 9223372036854775808 then .ok (a + 1)
  else if checked then fatalError "attempt to add with overflow"
  else .ok (a + 1 - 18446744073709551616)

/-- `number as u32` of an `isize`. -/
def isizeAsU32 (number : Int) : BlockNumber := (number % 4294967296).toNat

/-- `front < Some(bound)`: no date at all is below every date. -/
def frontBefore (front : Option Nat) (bound : Nat) : Bool :=
  match front with
  | none => true
  | some date => date < bound

/-- Get `blocks_expiring`, with what is left of the queue and the last number that was given. -/
def getBlocksExpiring (checked : Bool) (medianTime sigValidity : Nat) :
    Nat → List Nat → Int → Run (List BlockNumber × List Nat × Int)
  | 0, _, _ => .error .outOfFuel
  | fuel + 1, blocksNotExpiring, lastBlockExpiring => do
      let bound ← subtractU64 checked medianTime sigValidity
      if frontBefore blocksNotExpiring.head? bound then
        let lastBlockExpiring ← incrementIsize checked lastBlockExpiring
        let rest ← getBlocksExpiring checked medianTime sigValidity fuel blocksNotExpiring.tail
          lastBlockExpiring
        return (isizeAsU32 lastBlockExpiring :: rest.1, rest.2)
      else return ([], blocksNotExpiring, lastBlockExpiring)

/-- What the synchronisation keeps from a block to the next for its expiry window. -/
structure ExpiryWindow where
  /-- The currency parameters, once the first block has given them. -/
  currencyParams : Option CurrencyParameters
  blocksNotExpiring : List Nat
  lastBlockExpiring : Int

/-- The window before the first block. -/
def ExpiryWindow.new : ExpiryWindow :=
  { currencyParams := none, blocksNotExpiring := [], lastBlockExpiring := -1 }

/-- The parameters of the currency, in the first block. -/
def getAndWriteCurrencyParams (block : BlockDocument) : Run CurrencyParameters :=
  if block.number ≠ 0 then fatalError "The first block must have number equal to zero !"
  else
    match block.parameters with
    | none => fatalError "The genesis block must have parameters !"
    | some params => return .ofGenesis block.currency params

/-- The parameters of the currency, which the first block gives for all. -/
def ExpiryWindow.paramsAt (window : ExpiryWindow) (block : BlockDocument) :
    Run CurrencyParameters :=
  match window.currencyParams with
  | some currencyParams => return currencyParams
  | none => getAndWriteCurrencyParams block

/-- The blocks that expire at a block, with the window after it. -/
def ExpiryWindow.receive (checked : Bool) (fuel : Nat) (window : ExpiryWindow)
    (block : BlockDocument) : Run (List BlockNumber × ExpiryWindow) := do
  let currencyParams ← window.paramsAt block
  let expiring ← getBlocksExpiring checked block.medianTime currencyParams.sigValidity fuel
    (window.blocksNotExpiring ++ [block.medianTime]) window.lastBlockExpiring
  return (expiring.1,
    { currencyParams := some currencyParams
      blocksNotExpiring := expiring.2.1
      lastBlockExpiring := expiring.2.2 })

/-- The blocks that expire at each of the blocks that `local_sync` receives. -/
def localSyncExpiring (checked : Bool) (fuel : Nat) :
    ExpiryWindow → List BlockDocument → Run (List (List BlockNumber))
  | _, [] => return []
  | window, block :: blocks => do
      let received ← window.receive checked fuel block
      let rest ← localSyncExpiring checked fuel received.2 blocks
      return received.1 :: rest

/-! ## When blocks should expire -/

/-- Blocks synced from the genesis block on, whose median times do not decrease, in a currency with
this validity of signatures. -/
structure SyncedBlocks (sigValidity : Nat) (blocks : List BlockDocument) : Prop where
  numbers : blocks.map (·.number) = List.range blocks.length
  number_lt : ∀ block ∈ blocks, block.number < 4294967296
  parameters : ∀ block ∈ blocks.head?,
    ∃ params, block.parameters = some params ∧ params.sigValidity = sigValidity
  sigValidity_lt : sigValidity < 18446744073709551616
  medianTimes : (blocks.map (·.medianTime)).Pairwise (· ≤ ·)

/-- A block is the first later one whose median time minus the validity period exceeds the median
time of the block with this number. -/
def ExpiresAt (sigValidity : Nat) (blocks : List BlockDocument) (number : BlockNumber)
    (block : BlockDocument) : Prop :=
  ∃ old ∈ blocks, old.number = number ∧ old.number < block.number ∧
    old.medianTime + sigValidity < block.medianTime ∧
    ∀ mid ∈ blocks, old.number < mid.number → mid.number < block.number →
      mid.medianTime ≤ old.medianTime + sigValidity

/-- The numbers given at each block are those of the blocks that expire there, in increasing order
and each once. -/
structure ExpiresInTime (sigValidity : Nat) (blocks : List BlockDocument)
    (expiring : List (List BlockNumber)) : Prop where
  length_eq : expiring.length = blocks.length
  mem_iff : ∀ numbers block, (numbers, block) ∈ expiring.zip blocks →
    ∀ number, number ∈ numbers ↔ ExpiresAt sigValidity blocks number block
  increasing : expiring.flatten.Pairwise (· < ·)

/-- The expiry loop ends at each block, and the blocks expire in time. -/
def ExpiryRight (checked : Bool) (sigValidity : Nat) (blocks : List BlockDocument) : Prop :=
  ∃ fuel expiring, localSyncExpiring checked fuel .new blocks = .ok expiring ∧
    ExpiresInTime sigValidity blocks expiring

/-! ## The loop at a block -/

variable {checked : Bool} {sigValidity medianTime : Nat} {blocks : List BlockDocument}

theorem subtractU64_of_le {a b : Nat} (h : b ≤ a) : subtractU64 checked a b = .ok (a - b) := by
  have hlt : ¬ a < b := Nat.not_lt_of_le h
  rw [subtractU64, decide_eq_false hlt, Bool.and_false, if_neg Bool.false_ne_true, subU64,
    if_pos h]

/-- The number given for the next block that expires is its own. -/
theorem isizeAsU32_natCast {k : Nat} (hk : k < 4294967296) : isizeAsU32 (k : Int) = k := by
  rw [isizeAsU32, Int.emod_eq_of_lt (Int.natCast_nonneg k) (by omega), Int.toNat_natCast]

theorem incrementIsize_pred {k : Nat} (hk : k < 4294967296) :
    incrementIsize checked ((k : Int) - 1) = .ok (k : Int) := by
  have hlt : (k : Int) - 1 + 1 < 9223372036854775808 := by omega
  rw [incrementIsize, if_pos hlt, Int.sub_add_cancel]

/-- The loop gives the numbers up to the cursor of its bound, when a date that is not below it is in
the queue. -/
theorem getBlocksExpiring_ok {dates : List Nat} {k count fuel : Nat}
    (hvalid : sigValidity ≤ medianTime)
    (hcursor : IsCursor dates (medianTime - sigValidity) (k + count))
    (hlast : k + count < dates.length) (hlen : dates.length ≤ 4294967296) (hfuel : count < fuel) :
    getBlocksExpiring checked medianTime sigValidity fuel (dates.drop k) ((k : Int) - 1) =
      .ok (List.range' k count, dates.drop (k + count), ((k + count : Nat) : Int) - 1) := by
  induction count generalizing k fuel with
  | zero =>
      obtain ⟨fuel, rfl⟩ := Nat.exists_eq_add_of_lt hfuel
      rw [Nat.add_zero] at hcursor hlast ⊢
      have hnot : ¬ dates[k] < medianTime - sigValidity :=
        Nat.not_lt_of_le (hcursor.above k hlast (Nat.le_refl k))
      rw [Nat.zero_add, getBlocksExpiring, subtractU64_of_le hvalid, ok_bind,
        List.head?_drop, List.getElem?_eq_getElem hlast, frontBefore, decide_eq_false hnot,
        if_neg Bool.false_ne_true]
      rfl
  | succ count ih =>
      obtain ⟨fuel, rfl⟩ := Nat.exists_eq_add_of_lt (Nat.zero_lt_of_lt hfuel)
      have hk : k < dates.length := Nat.lt_of_le_of_lt (Nat.le_add_right _ _) hlast
      have hlt : dates[k] < medianTime - sigValidity :=
        hcursor.below k hk (Nat.lt_add_of_pos_right (Nat.succ_pos count))
      have hshift : k + (count + 1) = k + 1 + count := by omega
      rw [hshift] at hcursor hlast ⊢
      have hfuel' : count < fuel := by omega
      have hrest := ih hcursor hlast hfuel'
      rw [Int.natCast_succ, Int.add_sub_cancel] at hrest
      rw [Nat.zero_add, getBlocksExpiring, subtractU64_of_le hvalid, ok_bind,
        List.head?_drop, List.getElem?_eq_getElem hk, frontBefore, decide_eq_true hlt,
        if_pos rfl, incrementIsize_pred (Nat.lt_of_lt_of_le hk hlen), ok_bind, List.tail_drop,
        hrest, ok_bind, isizeAsU32_natCast (Nat.lt_of_lt_of_le hk hlen), List.range'_succ]
      rfl

/-- The window over the blocks received so far, when this many have expired. -/
def windowAfter (currencyParams : Option CurrencyParameters) (dates : List Nat) (expired : Nat) :
    ExpiryWindow :=
  { currencyParams
    blocksNotExpiring := dates.drop expired
    lastBlockExpiring := (expired : Int) - 1 }

variable {dates : List Nat} {currencyParams : Option CurrencyParameters}
  {params : CurrencyParameters} {block : BlockDocument} {fuel : Nat}

/-- A block moves the window to the cursor of its bound, and the numbers passed are given. -/
theorem receive_windowAfter {k k' : Nat}
    (hparams : (windowAfter currencyParams dates k).paramsAt block = .ok params)
    (hvalid : params.sigValidity ≤ block.medianTime) (hle : k ≤ k') (hk' : k' ≤ dates.length)
    (hcursor : IsCursor (dates ++ [block.medianTime]) (block.medianTime - params.sigValidity) k')
    (hlen : dates.length < 4294967296) (hfuel : k' - k < fuel) :
    (windowAfter currencyParams dates k).receive checked fuel block =
      .ok (List.range' k (k' - k),
        windowAfter (some params) (dates ++ [block.medianTime]) k') := by
  obtain ⟨count, rfl⟩ := Nat.exists_eq_add_of_le hle
  rw [Nat.add_sub_cancel_left] at hfuel ⊢
  have hlength : (dates ++ [block.medianTime]).length = dates.length + 1 := by
    rw [List.length_append, List.length_singleton]
  have hloop : getBlocksExpiring checked block.medianTime params.sigValidity fuel
      ((dates ++ [block.medianTime]).drop k) ((k : Int) - 1) = _ :=
    getBlocksExpiring_ok hvalid hcursor (by omega) (by omega) hfuel
  rw [List.drop_append_of_le_length (Nat.le_trans hle hk')] at hloop
  rw [ExpiryWindow.receive, hparams, ok_bind, windowAfter, hloop, ok_bind]
  rfl

/-- From the window over some blocks on, the numbers given at each of the next ones are those that a
sweep over all the dates passes. -/
theorem localSyncExpiring_ok {cursor : Nat → Nat}
    (hparams : ∀ block ∈ blocks.head?,
      (windowAfter currencyParams dates (cursor dates.length)).paramsAt block = .ok params)
    (hsweep : Sweep (dates ++ blocks.map (·.medianTime)) (· - params.sigValidity) cursor)
    (hsorted : (dates ++ blocks.map (·.medianTime)).Pairwise (· ≤ ·))
    (hvalid : ∀ block ∈ blocks, params.sigValidity ≤ block.medianTime)
    (hlen : (dates ++ blocks.map (·.medianTime)).length ≤ 4294967296)
    (hfuel : (dates ++ blocks.map (·.medianTime)).length < fuel) :
    localSyncExpiring checked fuel
        (windowAfter currencyParams dates (cursor dates.length)) blocks =
      .ok ((List.range' dates.length blocks.length).map fun i =>
        List.range' (cursor i) (cursor (i + 1) - cursor i)) := by
  induction blocks generalizing dates currencyParams with
  | nil => rfl
  | cons block blocks ih =>
      have hassoc : dates ++ (block :: blocks).map (·.medianTime) =
          dates ++ [block.medianTime] ++ blocks.map (·.medianTime) := by
        rw [List.map_cons, List.append_assoc, List.singleton_append]
      have hlength : (dates ++ [block.medianTime]).length = dates.length + 1 := by
        rw [List.length_append, List.length_singleton]
      have hlt : dates.length < (dates ++ (block :: blocks).map (·.medianTime)).length := by
        rw [hassoc, List.length_append, hlength]
        omega
      have hbounds : ∀ date ∈ dates ++ (block :: blocks).map (·.medianTime),
          date - params.sigValidity ≤ date := fun date _ => Nat.sub_le _ _
      have hmono : Monotone fun date => date - params.sigValidity :=
        fun _ _ h => Nat.sub_le_sub_right h _
      have hreceived : (windowAfter currencyParams dates (cursor dates.length)).receive checked fuel
          block = _ :=
        receive_windowAfter (hparams block rfl)
          (hvalid block List.mem_cons_self) (hsweep.mono hmono hsorted hbounds hlt)
          (hsweep.succ_le hbounds hlt) hsweep.next (Nat.lt_of_lt_of_le hlt hlen) (by
            have hk' := hsweep.succ_le hbounds hlt
            omega)
      have hrest : localSyncExpiring checked fuel (windowAfter (some params)
          (dates ++ [block.medianTime]) (cursor (dates ++ [block.medianTime]).length)) blocks = _ :=
        ih (fun block _ => rfl) (hassoc ▸ hsweep) (hassoc ▸ hsorted)
        (fun b hb => hvalid b (List.mem_cons_of_mem _ hb)) (hassoc ▸ hlen) (hassoc ▸ hfuel)
      rw [hlength] at hrest
      rw [localSyncExpiring, hreceived, ok_bind, hrest, ok_bind, List.length_cons,
        List.range'_succ, List.map_cons]
      rfl

/-! ## When the window is right -/

namespace SyncedBlocks

variable (hsynced : SyncedBlocks sigValidity blocks)
include hsynced

theorem number_getElem {i : Nat} (hi : i < blocks.length) : blocks[i].number = i := by
  have hnumber : (blocks.map (·.number))[i]? = (List.range blocks.length)[i]? := by
    rw [hsynced.numbers]
  rw [List.getElem?_map, List.getElem?_eq_getElem hi, List.getElem?_range hi] at hnumber
  exact Option.some.inj hnumber

/-- A block is at the place of its number. -/
theorem getElem_number {old : BlockDocument} (hold : old ∈ blocks) :
    ∃ h : old.number < blocks.length, blocks[old.number] = old := by
  obtain ⟨i, hi, rfl⟩ := List.mem_iff_getElem.1 hold
  have hnumber := hsynced.number_getElem hi
  refine ⟨hnumber.symm ▸ hi, ?_⟩
  simp only [hnumber]

theorem length_le : blocks.length ≤ 4294967296 := by
  by_contra hlt
  have hi : 4294967296 < blocks.length := Nat.lt_of_not_le hlt
  have hnumber := hsynced.number_lt _ (List.getElem_mem hi)
  rw [hsynced.number_getElem hi] at hnumber
  exact absurd hnumber (Nat.lt_irrefl _)

/-- The block at a place expires a number exactly when the sweep passes the date of that number
there. -/
theorem expiresAt_iff {number m : Nat} (hm : m < blocks.length) :
    ExpiresAt sigValidity blocks number blocks[m] ↔
      ∃ h : number < m, blocks[number].medianTime + sigValidity < blocks[m].medianTime ∧
        ∀ i, (hi : i < m) → number < i →
          blocks[i].medianTime ≤ blocks[number].medianTime + sigValidity := by
  constructor
  · rintro ⟨old, hold, rfl, hlt, hbelow, hfirst⟩
    obtain ⟨hnumber, heq⟩ := hsynced.getElem_number hold
    rw [hsynced.number_getElem hm] at hlt hfirst
    refine ⟨hlt, ?_, ?_⟩
    · rw [heq]
      exact hbelow
    · intro i hi hni
      have hi' : i < blocks.length := Nat.lt_trans hi hm
      have hmid := hfirst blocks[i] (List.getElem_mem hi')
      rw [hsynced.number_getElem hi'] at hmid
      rw [heq]
      exact hmid hni hi
  · rintro ⟨hlt, hbelow, hfirst⟩
    have hlen : number < blocks.length := Nat.lt_trans hlt hm
    refine ⟨blocks[number], List.getElem_mem hlen, hsynced.number_getElem hlen, ?_, hbelow, ?_⟩
    · rw [hsynced.number_getElem hlen, hsynced.number_getElem hm]
      exact hlt
    · intro mid hmid hni hi
      obtain ⟨hnumber, heq⟩ := hsynced.getElem_number hmid
      rw [hsynced.number_getElem hlen] at hni
      rw [hsynced.number_getElem hm] at hi
      have hle := hfirst mid.number hi hni
      rw [heq] at hle
      exact hle

end SyncedBlocks

/-- The intervals of a sweep over the median times are the blocks that expire. -/
theorem expiresInTime_of_sweep (hsynced : SyncedBlocks sigValidity blocks) {cursor : Nat → Nat}
    (hsweep : Sweep (blocks.map (·.medianTime)) (· - sigValidity) cursor) :
    ExpiresInTime sigValidity blocks ((List.range blocks.length).map fun i =>
      List.range' (cursor i) (cursor (i + 1) - cursor i)) := by
  have hbounds : ∀ date ∈ blocks.map (·.medianTime), date - sigValidity ≤ date :=
    fun date _ => Nat.sub_le _ _
  have hmono : Monotone fun date => date - sigValidity := fun _ _ h => Nat.sub_le_sub_right h _
  have hcursor : ∀ i < blocks.length, cursor i ≤ cursor (i + 1) := by
    intro i hi
    exact hsweep.mono hmono hsynced.medianTimes hbounds (by rwa [List.length_map])
  refine ⟨by rw [List.length_map, List.length_range], ?_, ?_⟩
  · intro numbers block hmem number
    obtain ⟨m, hm, heq⟩ := List.mem_iff_getElem.1 hmem
    rw [List.length_zip, List.length_map, List.length_range, Nat.min_self] at hm
    rw [List.getElem_zip, List.getElem_map, List.getElem_range, Prod.mk.injEq] at heq
    obtain ⟨rfl, rfl⟩ := heq
    have hm' : m < (blocks.map (·.medianTime)).length := by rwa [List.length_map]
    rw [List.mem_range'_1, Nat.add_sub_cancel' (hcursor m hm),
      hsweep.passed_iff hmono hsynced.medianTimes hbounds hm', hsynced.expiresAt_iff hm]
    simp only [List.getElem_map, Nat.lt_sub_iff_add_lt, Nat.sub_le_iff_le_add]
  · rw [flatten_range'_cursor hsweep.zero hcursor]
    exact List.pairwise_lt_range

/-- The first block of the synchronisation gives the parameters of the currency. -/
theorem paramsAt_new (hsynced : SyncedBlocks sigValidity blocks)
    (hblocks : blocks.head? = some block) :
    ∃ params, ExpiryWindow.new.paramsAt block = .ok params ∧ params.sigValidity = sigValidity := by
  obtain ⟨params, hparams, rfl⟩ := hsynced.parameters block hblocks
  cases blocks with
  | nil => cases hblocks
  | cons first blocks =>
      obtain rfl := Option.some.inj hblocks
      have hnumber : first.number = 0 := hsynced.number_getElem (i := 0) (Nat.succ_pos _)
      refine ⟨.ofGenesis first.currency params, ?_, rfl⟩
      rw [ExpiryWindow.paramsAt, ExpiryWindow.new]
      dsimp only
      rw [getAndWriteCurrencyParams, hnumber, if_neg (not_not.2 rfl), hparams]
      rfl

/-- Where no block is younger than the validity period, the blocks expire in time. -/
theorem expiryRight_of_le (hsynced : SyncedBlocks sigValidity blocks)
    (hvalid : ∀ block ∈ blocks, sigValidity ≤ block.medianTime) :
    ExpiryRight checked sigValidity blocks := by
  obtain ⟨cursor, hsweep⟩ := exists_sweep hsynced.medianTimes (· - sigValidity)
  refine ⟨blocks.length + 1, _, ?_, expiresInTime_of_sweep hsynced hsweep⟩
  have hlength : ([] ++ blocks.map BlockDocument.medianTime).length = blocks.length := by
    rw [List.nil_append, List.length_map]
  have hnew : ExpiryWindow.new = windowAfter none [] (cursor ([] : List Nat).length) := by
    rw [List.length_nil, hsweep.zero]
    rfl
  cases hblocks : blocks.head? with
  | none =>
      obtain rfl := List.head?_eq_none_iff.1 hblocks
      rfl
  | some block =>
      obtain ⟨params, hparams, rfl⟩ := paramsAt_new hsynced hblocks
      rw [List.range_eq_range', hnew]
      have hsorted : ([] ++ blocks.map BlockDocument.medianTime).Pairwise (· ≤ ·) := hsynced.medianTimes
      refine localSyncExpiring_ok ?_ hsweep hsorted hvalid ?_ ?_
      · intro first hfirst
        obtain rfl := Option.some.inj (hblocks.symm.trans hfirst)
        rw [← hnew]
        exact hparams
      · rw [hlength]
        exact hsynced.length_le
      · rw [hlength]
        exact Nat.lt_succ_self _

/-- Against a bound above all its dates the queue is emptied, and the loop does not end. -/
theorem getBlocksExpiring_wrapped (hbelow : medianTime < sigValidity)
    (hsig : sigValidity < 18446744073709551616) (hdates : ∀ date ∈ dates, date ≤ medianTime)
    (last : Int) :
    ¬ Returns (getBlocksExpiring checked medianTime sigValidity fuel dates last) := by
  induction fuel generalizing dates last with
  | zero =>
      rintro ⟨result, h⟩
      cases h
  | succ fuel ih =>
      rw [getBlocksExpiring, subtractU64, decide_eq_true hbelow, Bool.and_true]
      cases checked with
      | true => exact fun h => not_returns_fatalError _ h
      | false =>
          have hfront : frontBefore dates.head? (subU64 medianTime sigValidity) = true := by
            cases dates with
            | nil => rfl
            | cons date dates =>
                have hdate := hdates date List.mem_cons_self
                rw [List.head?_cons, frontBefore, decide_eq_true_eq, subU64,
                  if_neg (Nat.not_le_of_lt hbelow)]
                omega
          rw [if_neg Bool.false_ne_true, ok_bind, if_pos hfront, returns_bind_iff]
          rintro ⟨next, -, h⟩
          rcases returns_bind_iff.1 h with ⟨rest, hrest, -⟩
          exact ih (fun date hdate => hdates date (List.mem_of_mem_tail hdate)) next ⟨rest, hrest⟩

/-- Where the first block is younger than the validity period, the synchronisation does not go past
it. -/
theorem not_expiryRight_of_lt (hsynced : SyncedBlocks sigValidity (block :: blocks))
    (hbelow : block.medianTime < sigValidity) :
    ¬ ExpiryRight checked sigValidity (block :: blocks) := by
  rintro ⟨fuel, expiring, hrun, -⟩
  obtain ⟨params, hparams, rfl⟩ := paramsAt_new hsynced rfl
  rw [localSyncExpiring, bind_eq_ok_iff] at hrun
  rcases hrun with ⟨received, hreceived, -⟩
  rw [ExpiryWindow.receive, hparams, ok_bind, bind_eq_ok_iff] at hreceived
  rcases hreceived with ⟨result, hresult, -⟩
  refine getBlocksExpiring_wrapped hbelow hsynced.sigValidity_lt ?_ _ ⟨result, hresult⟩
  intro date hdate
  exact Nat.le_of_eq (List.mem_singleton.1 hdate)

/-- The blocks of a synchronisation expire in time exactly when none of them is younger than the
validity period of signatures. -/
theorem expiryRight_iff (checked : Bool) (hsynced : SyncedBlocks sigValidity blocks) :
    ExpiryRight checked sigValidity blocks ↔ ∀ block ∈ blocks, sigValidity ≤ block.medianTime := by
  refine ⟨?_, expiryRight_of_le hsynced⟩
  intro h block hblock
  by_contra hlt
  cases blocks with
  | nil => exact absurd hblock List.not_mem_nil
  | cons first blocks =>
      -- the first block is the youngest
      have hle : first.medianTime ≤ block.medianTime := by
        rcases List.mem_cons.1 hblock with rfl | hmem
        · exact Nat.le_refl _
        · exact List.rel_of_pairwise_cons hsynced.medianTimes (List.mem_map_of_mem hmem)
      exact not_expiryRight_of_lt hsynced (Nat.lt_of_le_of_lt hle (Nat.lt_of_not_le hlt)) h

/-- Blocks with these median times, in a currency with this validity of signatures. -/
def datedBlocks (sigValidity : Nat) (dates : List Nat) : List BlockDocument :=
  dates.mapIdx fun k date =>
    { genEmptyTimedBlock ⟨k, 0⟩ date 0 with
      parameters := some
        { c := 0, dt := 86400, ud0 := 1000, sigPeriod := 432000, sigStock := 100
          sigWindow := 5259600, sigValidity, sigQty := 5, idtyWindow := 5259600
          msWindow := 5259600, xPercent := 0, msValidity := 31557600, stepMax := 5
          medianTimeBlocks := 24, avgGenTime := 300, dtDiffEval := 12, percentRot := 0
          udTime0 := 1488970800, udReevalTime0 := 1490094000, dtReeval := 15778800 } }

theorem parameters_datedBlocks (sigValidity : Nat) (dates : List Nat) :
    ∀ block ∈ (datedBlocks sigValidity dates).head?,
      ∃ params, block.parameters = some params ∧ params.sigValidity = sigValidity := by
  intro block hblock
  cases dates with
  | nil => cases hblock
  | cons date dates =>
      rw [datedBlocks, List.mapIdx_cons] at hblock
      obtain rfl := Option.some.inj hblock
      exact ⟨_, rfl, rfl⟩

theorem syncedBlocks_datedBlocks : SyncedBlocks 10 (datedBlocks 10 [10, 12, 23]) where
  numbers := rfl
  number_lt := by decide
  parameters := parameters_datedBlocks 10 _
  sigValidity_lt := by decide
  medianTimes := by decide

/-- The first two blocks expire at the third one. -/
theorem expiryRight_datedBlocks :
    (ExpiryRight true 10 (datedBlocks 10 [10, 12, 23]) ↔
      ∀ block ∈ datedBlocks 10 [10, 12, 23], 10 ≤ block.medianTime) ∧
    localSyncExpiring true 4 .new (datedBlocks 10 [10, 12, 23]) = .ok [[], [], [0, 1]] :=
  ⟨expiryRight_iff true syncedBlocks_datedBlocks, rfl⟩

/-- The synchronisation does not go past a genesis block whose median time is below the validity
period, whether overflows are checked or not. -/
theorem not_expiryRight_youngGenesis :
    SyncedBlocks 63115200 (datedBlocks 63115200 [300]) ∧
      ∀ checked, ¬ ExpiryRight checked 63115200 (datedBlocks 63115200 [300]) := by
  have hsynced : SyncedBlocks 63115200 (datedBlocks 63115200 [300]) :=
    { numbers := rfl
      number_lt := by decide
      parameters := parameters_datedBlocks 63115200 _
      sigValidity_lt := by decide
      medianTimes := by decide }
  exact ⟨hsynced, fun checked => not_expiryRight_of_lt hsynced (by decide)⟩

end Sync

end Durs
