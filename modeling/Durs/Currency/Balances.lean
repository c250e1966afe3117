/-
# Balances after a call

What a dividend, the consumption of inputs and the creation of outputs leave in the balance of each
address.
-/

import Durs.Currency.Ledger
import Durs.RustStd.Grouping

namespace Durs

open RustStd

variable {dbs dbs' : CurrencyV10DBs}

/-- The balance of an address after the balances of some addresses are written. -/
theorem balance_of_insertAll (dbs : CurrencyV10DBs)
    (addresses : HashMap UTXOConditionsGroup AddressBalance)
    (g : UTXOConditionsGroup → AddressBalance → AddressBalance) (address : UTXOConditionsGroup) :
    CurrencyV10DBs.balance { dbs with
        balancesDb := dbs.balancesDb.insertAll
          (addresses.iter.map fun entry => (entry.1, g entry.1 entry.2)) } address =
      ((addresses.get? address).map (g address)).getD (dbs.balance address) := by
  have hget := HashMap.get?_insertAll_map_iter dbs.balancesDb addresses Function.injective_id g
    address
  refine (congrArg (Option.getD · _) hget).trans ?_
  cases addresses.get? address with
  | none => rfl
  | some _ => rfl

/-- An address has an entry after the balances of some addresses are written when it had one or is
one of them. -/
theorem containsKey_of_insertAll (dbs : CurrencyV10DBs)
    (addresses : HashMap UTXOConditionsGroup AddressBalance)
    (g : UTXOConditionsGroup → AddressBalance → AddressBalance) (address : UTXOConditionsGroup) :
    (dbs.balancesDb.insertAll
        (addresses.iter.map fun entry => (entry.1, g entry.1 entry.2))).containsKey address =
      (addresses.containsKey address || dbs.balancesDb.containsKey address) := by
  have hget := HashMap.get?_insertAll_map_iter dbs.balancesDb addresses Function.injective_id g
    address
  refine (congrArg Option.isSome hget).trans ?_
  rw [Option.isSome_or, Option.isSome_map]
  rfl

/-! ## Finding the addresses of sources -/

/-- Add a source to what is known of its address. -/
def addSource (balance : AddressBalance) (source : SourceIndexV10 × SourceAmount) :
    AddressBalance :=
  (balance.1 + source.2,
    match source.1 with
    | .utxo index => balance.2.insert index
    | .ud _ _ => balance.2)

theorem foldl_addSource_fst (balance : AddressBalance)
    (sources : List (SourceIndexV10 × SourceAmount)) :
    (sources.foldl addSource balance).1 = (sources.map Prod.snd).foldl (· + ·) balance.1 := by
  induction sources generalizing balance with
  | nil => rfl
  | cons source sources ih => rw [List.foldl_cons, ih, List.map_cons, List.foldl_cons, addSource]

theorem mem_foldl_addSource_snd (balance : AddressBalance)
    (sources : List (SourceIndexV10 × SourceAmount)) (index : UTXOIndexV10) :
    index ∈ (sources.foldl addSource balance).2 ↔
      index ∈ balance.2 ∨ SourceIndexV10.utxo index ∈ sources.map Prod.fst := by
  induction sources generalizing balance with
  | nil => simp
  | cons source sources ih =>
      rw [List.foldl_cons, ih, List.map_cons, List.mem_cons]
      cases hsource : source.1 with
      | utxo index' =>
          rw [addSource, hsource]
          simp only [HashSet.mem_insert, SourceIndexV10.utxo.injEq]
          rw [or_assoc, or_left_comm]
      | ud pubkey blockId =>
          rw [addSource, hsource]
          simp

theorem addSourceToAddress_eq_ok {utxosDb : HashMap UTXOIndexV10 TransactionOutput}
    {addresses addresses' : HashMap UTXOConditionsGroup AddressBalance}
    {source : SourceIndexV10 × SourceAmount}
    (h : addSourceToAddress utxosDb addresses source = .ok addresses') :
    ∃ address, sourceAddress? utxosDb source.1 = some address ∧
      addresses' = addresses.insert address
        (addSource ((addresses.get? address).getD (default, ∅)) source) := by
  rcases source with ⟨source | ⟨pubkey, blockId⟩, amount⟩
  · rcases bind_eq_ok_iff.1 h with ⟨output, houtput, hinsert⟩
    rw [expect_eq_ok_iff] at houtput
    exact ⟨output.address, congrArg (Option.map _) houtput, (Except.ok.inj hinsert).symm⟩
  · exact ⟨addressOf pubkey, rfl, (Except.ok.inj h).symm⟩

/-- What is found of an address are its sources, added one after the other. -/
theorem findAddresses_get? {utxosDb : HashMap UTXOIndexV10 TransactionOutput}
    {sources : HashMap SourceIndexV10 SourceAmount}
    {addresses : HashMap UTXOConditionsGroup AddressBalance}
    (h : findAddresses utxosDb sources = .ok addresses) (address : UTXOConditionsGroup) :
    addresses.get? address =
      if (sources.iter.filter (sourceAddress? utxosDb ·.1 = some address)).isEmpty then none
      else some ((sources.iter.filter (sourceAddress? utxosDb ·.1 = some address)).foldl addSource
        (default, ∅)) :=
  HashMap.get?_foldlM_group (fun _ => (default, ∅)) addSource (sourceAddress? utxosDb ·.1)
    (fun _ _ _ hstep => addSourceToAddress_eq_ok hstep) h address

/-! ## Consuming inputs -/

/-- What is left of a balance after some of its sources are consumed. -/
def spendFrom (balance spent : AddressBalance) : AddressBalance :=
  (if (balance.1 - spent.1).amount < 100 then ⟨0, (balance.1 - spent.1).base⟩
    else balance.1 - spent.1,
    spent.2.iter.foldl HashSet.remove balance.2)

theorem mem_foldl_remove {α : Type} [DecidableEq α] (s : HashSet α) (l : List α) (a : α) :
    a ∈ l.foldl HashSet.remove s ↔ a ∈ s ∧ a ∉ l := by
  induction l generalizing s with
  | nil => simp
  | cons b l ih =>
      rw [List.foldl_cons, ih, HashSet.mem_remove, List.mem_cons, not_or, and_right_comm, and_comm,
        ← and_assoc, and_comm]

theorem mem_spendFrom_snd (balance spent : AddressBalance) (index : UTXOIndexV10) :
    index ∈ (spendFrom balance spent).2 ↔ index ∈ balance.2 ∧ index ∉ spent.2 :=
  mem_foldl_remove balance.2 spent.2.iter index

/-- The balances that a transaction leaves at the addresses it consumes from. -/
theorem foldlM_consumeFromAddress
    {entries : List (UTXOConditionsGroup × AddressBalance)}
    {acc acc' : HashSet UTXOIndexV10 × List (UTXOConditionsGroup × AddressBalance)}
    (h : entries.foldlM (consumeFromAddress dbs.balancesDb) acc = .ok acc') :
    acc'.2 = acc.2 ++ entries.map fun entry =>
      (entry.1, spendFrom (dbs.balance entry.1) entry.2) := by
  induction entries generalizing acc with
  | nil =>
      rw [List.foldlM_nil, pure_eq_ok_iff] at h
      rw [h, List.map_nil, List.append_nil]
  | cons entry entries ih =>
      rw [List.foldlM_cons, bind_eq_ok_iff] at h
      rcases h with ⟨mid, hmid, hrest⟩
      rcases bind_eq_ok_iff.1 hmid with ⟨balance, hbalance, hreturn⟩
      rw [expect_eq_ok_iff] at hbalance
      have hbalance' : dbs.balance entry.1 = balance := by
        rw [CurrencyV10DBs.balance, hbalance, Option.getD_some]
      obtain rfl := Except.ok.inj hreturn
      rw [ih hrest, List.map_cons, hbalance', List.append_assoc]
      rfl

/-- Consuming inputs writes what is left at each address, then removes the sources. -/
theorem consumeInputs_eq_ok {tx : TransactionDocument} {destroyed : HashSet UTXOIndexV10}
    (h : consumeInputs dbs tx = .ok (dbs', destroyed)) :
    ∃ consumed, findAddresses dbs.utxosDb tx.inputSources = .ok consumed ∧
      dbs' = tx.inputSources.keys.foldl removeSource { dbs with
        balancesDb := dbs.balancesDb.insertAll (consumed.iter.map fun entry =>
          (entry.1, spendFrom (dbs.balance entry.1) entry.2)) } := by
  rcases bind_eq_ok_iff.1 h with ⟨consumed, hconsumed, hrest⟩
  rcases bind_eq_ok_iff.1 hrest with ⟨acc, hacc, hreturn⟩
  have hbalances := foldlM_consumeFromAddress hacc
  rw [List.nil_append] at hbalances
  refine ⟨consumed, hconsumed, ?_⟩
  rw [← hbalances]
  exact (Prod.mk.inj (Except.ok.inj hreturn)).1.symm

/-! ## Creating outputs -/

/-- Add an output to the balance of its address. -/
def supply (balance : AddressBalance) (utxo : UTXOV10) : AddressBalance :=
  (balance.1 + utxo.getAmount, balance.2.insert utxo.index)

theorem foldl_supply_fst (balance : AddressBalance) (utxos : List UTXOV10) :
    (utxos.foldl supply balance).1 = (utxos.map UTXOV10.getAmount).foldl (· + ·) balance.1 := by
  induction utxos generalizing balance with
  | nil => rfl
  | cons utxo utxos ih => rw [List.foldl_cons, ih, List.map_cons, List.foldl_cons, supply]

theorem mem_foldl_supply_snd (balance : AddressBalance) (utxos : List UTXOV10)
    (index : UTXOIndexV10) :
    index ∈ (utxos.foldl supply balance).2 ↔
      index ∈ balance.2 ∨ index ∈ utxos.map UTXOV10.index := by
  induction utxos generalizing balance with
  | nil => simp
  | cons utxo utxos ih =>
      rw [List.foldl_cons, ih, List.map_cons, List.mem_cons, supply, HashSet.mem_insert, or_assoc,
        or_left_comm]

/-- The outputs are added one after the other to the balance of their address. -/
theorem foldl_supplyAddress_get? (dbs : CurrencyV10DBs) (utxos : List UTXOV10)
    (address : UTXOConditionsGroup) :
    (utxos.foldl (supplyAddress dbs.balancesDb) ∅).get? address =
      if (utxos.filter (·.getConditions = address)).isEmpty then none
      else some ((utxos.filter (·.getConditions = address)).foldl supply (dbs.balance address)) :=
  HashMap.get?_foldl_group (m := ∅) dbs.balance supply UTXOV10.getConditions (fun _ _ => rfl) address

end Durs
