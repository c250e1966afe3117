/-
# Paging the identities

The identities created in an interval of blocks are sorted by their creation block and read by
pages.  The pages, put end to end, are the whole list, up to the first one that is empty.
-/

import Durs.Dal.Readers
import Mathlib.Algebra.Order.Ring.Int

namespace Durs

open RustStd

/-! ## The pages of a list -/

section Pages

variable {α : Type} {l : List α} {size count : Nat}

/-- A page of a list. -/
def pageOf (l : List α) (size i : Nat) : List α := (l.drop (size * i)).take size

/-- The first pages put end to end are the front of the list. -/
theorem flatten_pages (l : List α) (size count : Nat) :
    ((List.range count).map (pageOf l size)).flatten = l.take (size * count) := by
  induction count with
  | zero => rfl
  | succ count ih =>
      rw [List.range_succ, List.map_append, List.flatten_append, ih, List.map_singleton,
        List.flatten_singleton, pageOf, Nat.mul_succ, List.take_add]

theorem length_pageOf (l : List α) (size i : Nat) :
    (pageOf l size i).length = min size (l.length - size * i) := by
  rw [pageOf, List.length_take, List.length_drop]

/-- The number of pages of a list that are not empty. -/
def pageCount (l : List α) (size : Nat) : Nat := (l.length + size - 1) / size

theorem lt_pageCount_iff (hsize : 1 ≤ size) {i : Nat} :
    i < pageCount l size ↔ size * i < l.length := by
  rw [pageCount, ← Nat.succ_le_iff, Nat.le_div_iff_mul_le hsize, Nat.succ_mul, Nat.mul_comm i]
  omega

/-- The pages that are not empty, put end to end, are the list. -/
theorem flatten_pageCount (hsize : 1 ≤ size) :
    ((List.range (pageCount l size)).map (pageOf l size)).flatten = l := by
  rw [flatten_pages]
  refine List.take_of_length_le (Nat.le_of_not_lt fun hlt => ?_)
  exact absurd ((lt_pageCount_iff hsize).2 hlt) (Nat.lt_irrefl _)

theorem pageOf_eq_nil_iff (hsize : 1 ≤ size) {i : Nat} :
    pageOf l size i = [] ↔ pageCount l size ≤ i := by
  rw [← List.length_eq_zero_iff, length_pageOf, ← Nat.not_lt, lt_pageCount_iff hsize]
  omega

/-- Every page before the last one is full. -/
theorem length_pageOf_of_lt (hsize : 1 ≤ size) {i : Nat} (hi : i + 1 < pageCount l size) :
    (pageOf l size i).length = size := by
  have hlt := (lt_pageCount_iff hsize).1 hi
  rw [Nat.mul_succ] at hlt
  rw [length_pageOf]
  omega

end Pages

/-! ## Reading the identities -/

/-- Pagination parameters. -/
structure PagingFilter where
  /-- Retrieve only the elements created from this block on. -/
  from' : BlockNumber
  /-- Retrieve only the elements created up to this block. -/
  to' : Option BlockNumber
  pageSize : Nat
  pageNumber : Nat

/-- Whether an element has been created in the requested period. -/
def PagingFilter.checkCreatedOn (paging : PagingFilter) (createdOn currentBlockId : BlockNumber) :
    Bool :=
  paging.from' ≤ createdOn && createdOn ≤ paging.to'.getD currentBlockId

/-- Identities filter. -/
structure IdentitiesFilter where
  paging : PagingFilter
  byPubkey : Option PubKey

/-- `a * b` on `usize`, which stops the process where overflows are checked and wraps elsewhere. -/
def multiplyUsize (checked : Bool) (a b : Nat) : Run Nat :=
  if a * b < 18446744073709551616 then .ok (a * b)
  else if checked then fatalError "attempt to multiply with overflow"
  else .ok (a * b % 18446744073709551616)

/-- The number of the block in which an identity has been created. -/
def DALIdentity.createdOn (idty : DALIdentity) : BlockNumber := idty.idtyDoc.blockstamp.id

/-- Get identities in databases. -/
def getIdentities (checked : Bool) (identitiesDb : HashMap PubKey DALIdentity)
    (filters : IdentitiesFilter) (currentBlockId : BlockNumber) : Run (List DALIdentity) :=
  match filters.byPubkey with
  | some pubkey => return (identitiesDb.get? pubkey).toList
  | none => do
      let identities := (identitiesDb.iter.map Prod.snd).filter fun idty =>
        filters.paging.checkCreatedOn idty.createdOn currentBlockId
      let sorted := identities.mergeSort fun idty idty' => idty.createdOn ≤ idty'.createdOn
      let skipped ← multiplyUsize checked filters.paging.pageSize filters.paging.pageNumber
      return (sorted.drop skipped).take filters.paging.pageSize

/-! ## The pages of the identities -/

/-- A page of the identities created in an interval. -/
def identitiesPage (checked : Bool) (identitiesDb : HashMap PubKey DALIdentity)
    (from' : BlockNumber) (to' : Option BlockNumber) (currentBlockId : BlockNumber) (pageSize pageNumber : Nat) :
    Run (List DALIdentity) :=
  getIdentities checked identitiesDb
    { paging := { from', to', pageSize, pageNumber }, byPubkey := none } currentBlockId

/-- These pages are those read before the first empty one, and they partition the identities created
in the interval. -/
structure PagesPartition (checked : Bool) (identitiesDb : HashMap PubKey DALIdentity)
    (from' : BlockNumber) (to' : Option BlockNumber) (currentBlockId : BlockNumber) (pageSize : Nat)
    (pages : List (List DALIdentity)) : Prop where
  page : ∀ i, (h : i < pages.length) →
    identitiesPage checked identitiesDb from' to' currentBlockId pageSize i = .ok pages[i]
  afterLast :
    identitiesPage checked identitiesDb from' to' currentBlockId pageSize pages.length = .ok []
  partition : pages.flatten.Perm ((identitiesDb.iter.map Prod.snd).filter fun idty =>
    from' ≤ idty.createdOn ∧ idty.createdOn ≤ to'.getD currentBlockId)
  sorted : pages.flatten.Pairwise fun idty idty' => idty.createdOn ≤ idty'.createdOn
  full : ∀ page ∈ pages.dropLast, page.length = pageSize
  nonempty : ∀ page ∈ pages, page ≠ []

variable {checked : Bool} {identitiesDb : HashMap PubKey DALIdentity} {from' : BlockNumber}
  {to' : Option BlockNumber} {currentBlockId : BlockNumber} {pageSize : Nat}

/-- The identities created in an interval, in the order of their pages. -/
def sortedIdentities (identitiesDb : HashMap PubKey DALIdentity) (from' : BlockNumber)
    (to' : Option BlockNumber) (currentBlockId : BlockNumber) : List DALIdentity :=
  ((identitiesDb.iter.map Prod.snd).filter fun idty =>
    from' ≤ idty.createdOn ∧ idty.createdOn ≤ to'.getD currentBlockId).mergeSort
      fun idty idty' => idty.createdOn ≤ idty'.createdOn

theorem sortedIdentities_pairwise :
    (sortedIdentities identitiesDb from' to' currentBlockId).Pairwise
      fun idty idty' => idty.createdOn ≤ idty'.createdOn := by
  refine (List.pairwise_mergeSort ?_ ?_ _).imp fun h => of_decide_eq_true h
  · intro idty idty' idty'' h h'
    exact decide_eq_true (Nat.le_trans (of_decide_eq_true h) (of_decide_eq_true h'))
  · intro idty idty'
    simpa using Nat.le_total idty.createdOn idty'.createdOn

theorem length_sortedIdentities_le :
    (sortedIdentities identitiesDb from' to' currentBlockId).length ≤ identitiesDb.len := by
  rw [sortedIdentities, List.length_mergeSort]
  refine Nat.le_trans (List.length_filter_le _ _) ?_
  rw [List.length_map, HashMap.length_iter]

/-- A page whose start does not overflow is a page of the sorted identities. -/
theorem identitiesPage_of_lt {i : Nat} (h : pageSize * i < 18446744073709551616) :
    identitiesPage checked identitiesDb from' to' currentBlockId pageSize i =
      .ok (pageOf (sortedIdentities identitiesDb from' to' currentBlockId) pageSize i) := by
  rw [identitiesPage, getIdentities]
  dsimp only
  rw [multiplyUsize, if_pos h, ok_bind]
  simp only [PagingFilter.checkCreatedOn, ← Bool.decide_and]
  rfl

/-- The pages of the identities partition those created in the interval, as long as the store holds
less than half of the numbers of the machine, as any store in memory does. -/
theorem exists_pagesPartition (checked : Bool) (identitiesDb : HashMap PubKey DALIdentity)
    (from' : BlockNumber) (to' : Option BlockNumber) (currentBlockId : BlockNumber)
    (hsize : 1 ≤ pageSize) (husize : pageSize < 18446744073709551616)
    (hlen : identitiesDb.len < 9223372036854775808) :
    ∃ pages, PagesPartition checked identitiesDb from' to' currentBlockId pageSize pages := by
  set sorted := sortedIdentities identitiesDb from' to' currentBlockId with hsorted
  have hsortedLen : sorted.length < 9223372036854775808 :=
    Nat.lt_of_le_of_lt length_sortedIdentities_le hlen
  -- no page up to the first empty one starts beyond the numbers of the machine
  have hstart : ∀ i ≤ pageCount sorted pageSize, pageSize * i < 18446744073709551616 := by
    intro i hi
    cases i with
    | zero => exact Nat.zero_lt_of_lt husize
    | succ i =>
        have hlt := (lt_pageCount_iff hsize).1 hi
        rw [Nat.mul_succ]
        cases i with
        | zero => omega
        | succ i =>
            rw [Nat.mul_succ] at hlt ⊢
            omega
  have hflatten := flatten_pageCount (l := sorted) hsize
  refine ⟨(List.range (pageCount sorted pageSize)).map (pageOf sorted pageSize), ?_, ?_, ?_, ?_, ?_,
    ?_⟩
  · intro i hi
    rw [List.length_map, List.length_range] at hi
    rw [identitiesPage_of_lt (hstart i (Nat.le_of_lt hi)), List.getElem_map, List.getElem_range]
  · rw [List.length_map, List.length_range, identitiesPage_of_lt (hstart _ (Nat.le_refl _)),
      (pageOf_eq_nil_iff hsize).2 (Nat.le_refl _)]
  · rw [hflatten]
    exact List.mergeSort_perm _ _
  · rw [hflatten]
    exact sortedIdentities_pairwise
  · intro page hpage
    rw [← List.map_dropLast, List.mem_map] at hpage
    rcases hpage with ⟨i, hi, rfl⟩
    cases hcount : pageCount sorted pageSize with
    | zero =>
        rw [hcount] at hi
        cases hi
    | succ count =>
        rw [hcount, List.range_succ, List.dropLast_concat, List.mem_range] at hi
        refine length_pageOf_of_lt hsize ?_
        rw [hcount]
        exact Nat.succ_lt_succ hi
  · intro page hpage
    rcases List.mem_map.1 hpage with ⟨i, hi, rfl⟩
    rw [Ne, pageOf_eq_nil_iff hsize]
    exact Nat.not_le_of_lt (List.mem_range.1 hi)

/-- The identities of three keys, created in blocks 2, 1 and 2. -/
def threeIdentities : HashMap PubKey DALIdentity :=
  HashMap.ofList ([(⟨1⟩, 2), (⟨2⟩, 1), (⟨3⟩, 2)].map fun (issuer, createdOn) =>
    (issuer,
      { hash := "", state := .member [], joinedOn := default, expiredOn := none, revokedOn := none
        idtyDoc :=
          { text := none, currency := "", username := "", blockstamp := ⟨createdOn, 0⟩, issuer
            signature := ⟨0⟩ }
        wotId := 0, msCreatedBlockId := 0, msChainableOn := [], certChainableOn := [] }))

theorem exists_pagesPartition_threeIdentities :
    ∃ pages, PagesPartition true threeIdentities 1 none 5 2 pages :=
  exists_pagesPartition true threeIdentities 1 none 5 (by decide) (by decide) (by decide)

end Durs
