/-
# Dividends keep the balances

Creating a dividend adds it to the sources and to the balance of each member; reverting it takes
both back.
-/

import Durs.Currency.AmountLaws
import Durs.Currency.LedgerSteps

namespace Durs

open RustStd

namespace Ledger

variable {s : Ledger} {duAmount : SourceAmount} {duBlockId : BlockNumber} {members : List PubKey}
  {revert : Bool}

/-- The ledger after a dividend is created or reverted. -/
def withDu (s : Ledger) (duAmount : SourceAmount) (duBlockId : BlockNumber)
    (members : List PubKey) (revert : Bool) : Ledger where
  dbs := createDu s.dbs duAmount duBlockId members revert
  dividends := fun pubkey blockId =>
    if revert = false ∧ pubkey ∈ members ∧ blockId = duBlockId then duAmount
    else s.dividends pubkey blockId

theorem dividends_withDu (pubkey : PubKey) (b : BlockNumber) :
    (s.withDu duAmount duBlockId members revert).dividends pubkey b =
      if revert = false ∧ pubkey ∈ members ∧ b = duBlockId then duAmount
      else s.dividends pubkey b := rfl

theorem mem_dus_withDu (pubkey : PubKey) (b : BlockNumber) :
    b ∈ (s.withDu duAmount duBlockId members revert).dbs.dus pubkey ↔
      if pubkey ∈ members ∧ b = duBlockId then revert = false else b ∈ s.dbs.dus pubkey :=
  mem_foldl_writeMemberDu duBlockId revert members s.dbs.duDb pubkey b

/-- The balance of a member after a dividend is created or reverted. -/
def duBalance (duAmount : SourceAmount) (revert : Bool) (balance : AddressBalance) :
    AddressBalance :=
  (if revert then balance.1 - duAmount else balance.1 + duAmount, balance.2)

theorem balancesDb_withDu_addressOf (pubkey : PubKey) :
    (s.withDu duAmount duBlockId members revert).dbs.balancesDb.get? (addressOf pubkey) =
      if pubkey ∈ members then some (duBalance duAmount revert (s.dbs.balance (addressOf pubkey)))
      else s.dbs.balancesDb.get? (addressOf pubkey) := by
  refine (HashMap.get?_insertAll_map_iter s.dbs.balancesDb _ addressOf_injective
    (fun _ => duBalance duAmount revert) pubkey).trans ?_
  rw [HashMap.ofList, HashMap.get?_insertAll_map]
  by_cases hmem : pubkey ∈ members
  · rw [if_pos hmem, if_pos hmem]
    rfl
  · rw [if_neg hmem, if_neg hmem]
    rfl

theorem balancesDb_withDu_of_forall_ne {address : UTXOConditionsGroup}
    (h : ∀ pubkey, address ≠ addressOf pubkey) :
    (s.withDu duAmount duBlockId members revert).dbs.balancesDb.get? address =
      s.dbs.balancesDb.get? address := by
  refine HashMap.get?_insertAll_of_forall_ne _ fun entry hentry heq => ?_
  rcases List.mem_map.1 hentry with ⟨⟨pubkey, balance⟩, -, rfl⟩
  exact h pubkey heq.symm

/-- The entry of an address that is not the one of a member stays. -/
theorem balancesDb_withDu_of_not_member {address : UTXOConditionsGroup}
    (h : ∀ pubkey ∈ members, address ≠ addressOf pubkey) :
    (s.withDu duAmount duBlockId members revert).dbs.balancesDb.get? address =
      s.dbs.balancesDb.get? address := by
  by_cases haddress : ∃ pubkey, address = addressOf pubkey
  · rcases haddress with ⟨pubkey, rfl⟩
    rw [balancesDb_withDu_addressOf, if_neg fun hmem => h pubkey hmem rfl]
  · exact balancesDb_withDu_of_forall_ne (not_exists.1 haddress)

theorem balance_withDu_of_mem {pubkey : PubKey} (h : pubkey ∈ members) :
    (s.withDu duAmount duBlockId members revert).dbs.balance (addressOf pubkey) =
      duBalance duAmount revert (s.dbs.balance (addressOf pubkey)) := by
  rw [CurrencyV10DBs.balance, balancesDb_withDu_addressOf, if_pos h, Option.getD_some]

theorem balance_withDu_of_not_member {address : UTXOConditionsGroup}
    (h : ∀ pubkey ∈ members, address ≠ addressOf pubkey) :
    (s.withDu duAmount duBlockId members revert).dbs.balance address = s.dbs.balance address := by
  rw [CurrencyV10DBs.balance, balancesDb_withDu_of_not_member h]
  rfl

/-- What an address that is not the one of a member owns stays. -/
theorem sourcesValue_withDu_of_not_member {address : UTXOConditionsGroup}
    (h : ∀ pubkey ∈ members, address ≠ addressOf pubkey) :
    (s.withDu duAmount duBlockId members revert).sourcesValue address =
      s.sourcesValue address := by
  refine congrArg (s.utxosValue address + ·) (dusValue_congr fun pubkey heq => ?_)
  have hnot : pubkey ∉ members := fun hmem => h pubkey hmem heq
  refine memberDusValue_congr (fun b => ?_) fun b _ => if_neg fun hnew => hnot hnew.2.1
  rw [mem_dus_withDu, if_neg fun hnew => hnot hnew.1]

/-- What a member owns after a dividend is created. -/
theorem sourcesValue_withDu_create (duAmount : SourceAmount) {pubkey : PubKey}
    (hmem : pubkey ∈ members) (hnew : duBlockId ∉ s.dbs.dus pubkey) :
    (s.withDu duAmount duBlockId members false).sourcesValue (addressOf pubkey) =
      s.sourcesValue (addressOf pubkey) + duAmount.value := by
  have hdus := memberDusValue_of_gains s (s.withDu duAmount duBlockId members false) hnew
    (fun b => by
      rw [mem_dus_withDu]
      by_cases hb : b = duBlockId <;> simp [hb, hmem])
    (fun b hb => by
      have hne : b ≠ duBlockId := fun heq => hnew (heq ▸ hb)
      rw [dividends_withDu, if_neg (by simp [hne])])
  rw [dividends_withDu, if_pos ⟨rfl, hmem, rfl⟩] at hdus
  rw [sourcesValue_addressOf, hdus, sourcesValue_addressOf, Int.add_left_comm,
    Int.add_comm duAmount.value]
  rfl

/-- What a member owns after a dividend is reverted. -/
theorem sourcesValue_withDu_revert {pubkey : PubKey} (hmem : pubkey ∈ members)
    (hold : s.amount? (.ud pubkey duBlockId) = some duAmount) :
    s.sourcesValue (addressOf pubkey) = duAmount.value +
      (s.withDu duAmount duBlockId members true).sourcesValue (addressOf pubkey) := by
  have hrecorded : duBlockId ∈ s.dbs.dus pubkey := by
    by_contra hnot
    rw [amount?, if_neg hnot] at hold
    cases hold
  rw [amount?, if_pos hrecorded] at hold
  have hdus := memberDusValue_of_gains (s.withDu duAmount duBlockId members true) s
    (fun hin => by
      rw [mem_dus_withDu, if_pos ⟨hmem, rfl⟩] at hin
      cases hin)
    (fun b => by
      rw [mem_dus_withDu]
      by_cases hb : b = duBlockId <;> simp [hb, hmem, hrecorded])
    (fun b _ => by rw [dividends_withDu, if_neg fun hboth => absurd hboth.1 (by decide)])
  rw [sourcesValue_addressOf, hdus, Option.some.inj hold, Int.add_left_comm]
  rfl

/-- What a dividend is allowed to be. -/
structure AllowsDu (s : Ledger) (duAmount : SourceAmount) (duBlockId : BlockNumber)
    (members : List PubKey) (revert : Bool) : Prop where
  fits : ∀ pubkey ∈ members, ∃ base,
    (s.dbs.balance (addressOf pubkey)).1.Fits base ∧ duAmount.Fits base
  create : revert = false → ∀ pubkey ∈ members, s.amount? (.ud pubkey duBlockId) = none ∧
    s.sourcesValue (addressOf pubkey) + duAmount.value < 2 ^ 63
  undo : revert = true → ∀ pubkey ∈ members, s.amount? (.ud pubkey duBlockId) = some duAmount ∧
    (s.dbs.balance (addressOf pubkey)).1.base ≤ duAmount.base

/-- The amounts that are recorded after a dividend. -/
theorem amount?_withDu (source : SourceIndexV10) (amount : SourceAmount)
    (h : (s.withDu duAmount duBlockId members revert).amount? source = some amount) :
    s.amount? source = some amount ∨
      revert = false ∧ amount = duAmount ∧ ∃ pubkey ∈ members, source = .ud pubkey duBlockId := by
  cases source with
  | utxo index => exact Or.inl h
  | ud pubkey blockId =>
      rw [amount?] at h
      split at h
      case isTrue hmem =>
        rw [mem_dus_withDu] at hmem
        by_cases hnew : pubkey ∈ members ∧ blockId = duBlockId
        · rw [if_pos hnew] at hmem
          rw [dividends_withDu, if_pos ⟨hmem, hnew⟩] at h
          exact Or.inr ⟨hmem, (Option.some.inj h).symm, pubkey, hnew.1, by rw [hnew.2]⟩
        · rw [if_neg hnew] at hmem
          rw [dividends_withDu, if_neg fun hall => hnew hall.2] at h
          exact Or.inl ((if_pos hmem).trans h)
      case isFalse => cases h

/-- A dividend keeps the invariant. -/
theorem AllowsDu.balanced (h : s.AllowsDu duAmount duBlockId members revert) (hs : s.Balanced) :
    (s.withDu duAmount duBlockId members revert).Balanced := by
  have hnonneg : ∀ source amount,
      (s.withDu duAmount duBlockId members revert).amount? source = some amount →
        0 ≤ amount.amount := by
    intro source amount hamount
    rcases amount?_withDu source amount hamount with hold | ⟨-, rfl, pubkey, hmem, -⟩
    · exact hs.nonneg source amount hold
    · rcases h.fits pubkey hmem with ⟨base, -, hfits⟩
      exact hfits.nonneg
  have hvalue := sourcesValue_nonneg hnonneg
  have hamount : ∀ address,
      ((s.withDu duAmount duBlockId members revert).dbs.balance address).1.value =
        (s.withDu duAmount duBlockId members revert).sourcesValue address ∧
      (s.withDu duAmount duBlockId members revert).sourcesValue address < 2 ^ 63 := by
    intro address
    by_cases haddress : ∃ pubkey ∈ members, address = addressOf pubkey
    · rcases haddress with ⟨pubkey, hmem, rfl⟩
      rcases h.fits pubkey hmem with ⟨base, hfits, hdu⟩
      have hbefore := hs.amount (addressOf pubkey)
      have hrange := hs.range (addressOf pubkey)
      rw [balance_withDu_of_mem hmem]
      cases revert with
      | true =>
          rcases h.undo rfl pubkey hmem with ⟨hold, hbase⟩
          have hlost := sourcesValue_withDu_revert hmem hold
          have hafter := hvalue (addressOf pubkey)
          have hpos := SourceAmount.value_nonneg_iff.2 hdu.nonneg
          have hsub := (hfits.sub hdu hbase (by omega) hrange).2
          change (_ - duAmount).value = _ ∧ _
          exact ⟨by omega, by omega⟩
      | false =>
          rcases h.create rfl pubkey hmem with ⟨hnew, hsum⟩
          have hnot : duBlockId ∉ s.dbs.dus pubkey := by
            intro hin
            rw [amount?, if_pos hin] at hnew
            cases hnew
          have hgain := sourcesValue_withDu_create duAmount hmem hnot
          have hadd := (hfits.add hdu (by omega)).2
          change (_ + duAmount).value = _ ∧ _
          exact ⟨by omega, by omega⟩
    · have hne : ∀ pubkey ∈ members, address ≠ addressOf pubkey := fun pubkey hmem heq =>
        haddress ⟨pubkey, hmem, heq⟩
      rw [balance_withDu_of_not_member hne, sourcesValue_withDu_of_not_member hne, ← hs.amount]
      exact ⟨rfl, hs.range address⟩
  refine ⟨fun address => (hamount address).1, ?_, ?_, hnonneg, ?_⟩
  · intro address index
    have hsources : ((s.withDu duAmount duBlockId members revert).dbs.balance address).2 =
        (s.dbs.balance address).2 := by
      by_cases haddress : ∃ pubkey ∈ members, address = addressOf pubkey
      · rcases haddress with ⟨pubkey, hmem, rfl⟩
        rw [balance_withDu_of_mem hmem]
        rfl
      · rw [balance_withDu_of_not_member fun pubkey hmem heq => haddress ⟨pubkey, hmem, heq⟩]
    rw [hsources]
    exact hs.sources address index
  · intro address source howns
    rcases howns with ⟨⟨amount, hsource⟩, haddress⟩
    by_cases hmember' : ∃ pubkey ∈ members, address = addressOf pubkey
    · rcases hmember' with ⟨pubkey, hmem, rfl⟩
      rw [HashMap.containsKey, balancesDb_withDu_addressOf, if_pos hmem]
      rfl
    · have hne : ∀ pubkey ∈ members, address ≠ addressOf pubkey := fun pubkey hmem heq =>
        hmember' ⟨pubkey, hmem, heq⟩
      rw [HashMap.containsKey, balancesDb_withDu_of_not_member hne]
      rcases amount?_withDu source amount hsource with hold | ⟨-, -, pubkey, hmem, rfl⟩
      · exact hs.entries address source ⟨⟨amount, hold⟩, haddress⟩
      · exact absurd (Option.some.inj haddress).symm (hne pubkey hmem)
  · intro address
    rw [(hamount address).1]
    exact (hamount address).2

/-- The dividends of every member come back when a dividend that was just created is reverted. -/
theorem mem_dus_withDu_revert
    (hnew : ∀ pubkey ∈ members, duBlockId ∉ s.dbs.dus pubkey) (pubkey : PubKey) (b : BlockNumber) :
    b ∈ ((s.withDu duAmount duBlockId members false).withDu duAmount duBlockId members
        true).dbs.dus pubkey ↔ b ∈ s.dbs.dus pubkey := by
  rw [mem_dus_withDu, mem_dus_withDu]
  by_cases h : pubkey ∈ members ∧ b = duBlockId
  · rw [if_pos h]
    exact iff_of_false (by decide) (h.2 ▸ hnew pubkey h.1)
  · rw [if_neg h, if_neg h]

/-- Taking a dividend back from a balance that it was added to. -/
theorem duBalance_revert_eq_self_iff {balance : AddressBalance}
    (h : SourceAmount.InRange balance.1.amount) :
    duBalance duAmount true (duBalance duAmount false balance) = balance ↔
      balance.1.ComesBack duAmount := by
  rw [← SourceAmount.add_sub_eq_self_iff h]
  constructor
  · intro hback
    exact congrArg Prod.fst hback
  · intro hback
    exact Prod.ext hback rfl

/-- The balances come back exactly when the balance of every member does. -/
theorem balance_withDu_revert_iff
    (hrange : ∀ pubkey ∈ members,
      SourceAmount.InRange (s.dbs.balance (addressOf pubkey)).1.amount) :
    (∀ address, ((s.withDu duAmount duBlockId members false).withDu duAmount duBlockId members
        true).dbs.balance address = s.dbs.balance address) ↔
      ∀ pubkey ∈ members, (s.dbs.balance (addressOf pubkey)).1.ComesBack duAmount := by
  constructor
  · intro h pubkey hmem
    have hback := h (addressOf pubkey)
    rw [balance_withDu_of_mem hmem, balance_withDu_of_mem hmem] at hback
    exact (duBalance_revert_eq_self_iff (hrange pubkey hmem)).1 hback
  · intro h address
    by_cases haddress : ∃ pubkey ∈ members, address = addressOf pubkey
    · rcases haddress with ⟨pubkey, hmem, rfl⟩
      rw [balance_withDu_of_mem hmem, balance_withDu_of_mem hmem]
      exact (duBalance_revert_eq_self_iff (hrange pubkey hmem)).2 (h pubkey hmem)
    · have hne : ∀ pubkey ∈ members, address ≠ addressOf pubkey := fun pubkey hmem heq =>
        haddress ⟨pubkey, hmem, heq⟩
      rw [balance_withDu_of_not_member hne, balance_withDu_of_not_member hne]

end Ledger

namespace CurrencyV10DBs

/-- Whether two states of the databases hold the same dividends, and the same balances, where an
address without an entry has the default balance. -/
structure SameAccounts (dbs dbs' : CurrencyV10DBs) : Prop where
  dus : ∀ pubkey blockId, blockId ∈ dbs'.dus pubkey ↔ blockId ∈ dbs.dus pubkey
  balance : ∀ address, dbs'.balance address = dbs.balance address

/-- Reverting a dividend that was just created gives the accounts back exactly when it does so for
the amount of every member. -/
theorem sameAccounts_createDu_revert_iff {dbs : CurrencyV10DBs} {duAmount : SourceAmount}
    {duBlockId : BlockNumber} {members : List PubKey}
    (hnew : ∀ pubkey ∈ members, duBlockId ∉ dbs.dus pubkey)
    (hrange : ∀ pubkey ∈ members, SourceAmount.InRange (dbs.balance (addressOf pubkey)).1.amount) :
    dbs.SameAccounts
        (createDu (createDu dbs duAmount duBlockId members false) duAmount duBlockId members true) ↔
      ∀ pubkey ∈ members, (dbs.balance (addressOf pubkey)).1.ComesBack duAmount := by
  let s : Ledger := ⟨dbs, fun _ _ => default⟩
  constructor
  · intro h
    exact (Ledger.balance_withDu_revert_iff (s := s) hrange).1 h.balance
  · intro h
    exact ⟨Ledger.mem_dus_withDu_revert (s := s) hnew,
      (Ledger.balance_withDu_revert_iff (s := s) hrange).2 h⟩

/-- A member whose balance is fifty, written in base one. -/
def tensDbs : CurrencyV10DBs := createDu default ⟨5, 1⟩ 1 [⟨1⟩] false

theorem sameAccounts_createDu_revert_tens :
    tensDbs.SameAccounts
        (createDu (createDu tensDbs ⟨3, 1⟩ 2 [⟨1⟩] false) ⟨3, 1⟩ 2 [⟨1⟩] true) :=
  (sameAccounts_createDu_revert_iff (by decide +kernel) (by decide +kernel)).2 fun pubkey hmem =>
    .inl (by rw [List.mem_singleton.1 hmem]; decide +kernel)

/-- A dividend of thirty, written in base zero, leaves a debt. -/
theorem not_sameAccounts_createDu_revert : ¬tensDbs.SameAccounts
    (createDu (createDu tensDbs ⟨30, 0⟩ 2 [⟨1⟩] false) ⟨30, 0⟩ 2 [⟨1⟩] true) := fun h =>
  absurd (h.balance (addressOf ⟨1⟩)) (by decide +kernel)

end CurrencyV10DBs

end Durs
