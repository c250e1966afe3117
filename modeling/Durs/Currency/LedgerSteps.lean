/-
# The calls keep the balances

The invariant behind the agreement of balances and sources, and what a dividend, the consumption of
inputs and the creation of outputs do to it.
-/

import Durs.Currency.Balances
import Durs.Currency.Sources

namespace Durs

open RustStd

namespace Ledger

/-- The invariant of the calls: the balance of every address, with an entry or not, is what it owns,
no source has a negative amount and no balance leaves the range of the machine integers. -/
structure Balanced (s : Ledger) : Prop where
  amount : ∀ address, (s.dbs.balance address).1.value = s.sourcesValue address
  sources : ∀ address index, index ∈ (s.dbs.balance address).2 ↔
    sourceAddress? s.dbs.utxosDb (.utxo index) = some address
  entries : ∀ address source, s.Owns address source → s.dbs.balancesDb.containsKey address = true
  nonneg : ∀ source amount, s.amount? source = some amount → 0 ≤ amount.amount
  range : ∀ address, (s.dbs.balance address).1.value < 2 ^ 63

variable {s s' : Ledger} {tx : TransactionDocument}

theorem balanced_default : (default : Ledger).Balanced where
  amount address := by
    have hdus : (default : Ledger).dusValue address = 0 := by
      match address with
      | .single (.sig pubkey) => rfl
      | .single (.xhx _) => rfl
      | .single (.cltv _) => rfl
      | .single (.csv _) => rfl
      | .brackets _ => rfl
      | .and _ _ => rfl
      | .or _ _ => rfl
    rw [sourcesValue, hdus]
    rfl
  sources address index := by
    constructor
    · intro h
      exact absurd h (HashSet.not_mem_empty index)
    · intro h
      cases h
  entries address source h := by
    rcases h.1 with ⟨amount, hamount⟩
    cases source with
    | utxo index => cases hamount
    | ud pubkey blockId =>
        have hnot : blockId ∉ (default : Ledger).dbs.dus pubkey := HashSet.not_mem_empty blockId
        rw [amount?, if_neg hnot] at hamount
        cases hamount
  nonneg source amount h := by
    cases source with
    | utxo index => cases h
    | ud pubkey blockId =>
        have hnot : blockId ∉ (default : Ledger).dbs.dus pubkey := HashSet.not_mem_empty blockId
        rw [amount?, if_neg hnot] at h
        cases h
  range address := by
    have hvalue : ((default : Ledger).dbs.balance address).1.value = 0 := rfl
    rw [hvalue]
    decide

/-- The balances that hold agree with the sources. -/
theorem Balanced.ledgerInv (h : s.Balanced) : LedgerInv s := by
  have hbalance : ∀ {address balance utxos},
      s.dbs.balancesDb.get? address = some (balance, utxos) →
        s.dbs.balance address = (balance, utxos) := by
    intro address balance utxos hget
    rw [CurrencyV10DBs.balance, hget, Option.getD_some]
  have hsources : ∀ address balance utxos,
      s.dbs.balancesDb.get? address = some (balance, utxos) → ∀ index,
        index ∈ utxos ↔ sourceAddress? s.dbs.utxosDb (.utxo index) = some address := by
    intro address balance utxos hget index
    have hmem := h.sources address index
    rwa [hbalance hget] at hmem
  refine ⟨?_, ?_, h.entries, ?_⟩
  · intro address balance utxos hget
    have hamount := h.amount address
    rwa [hbalance hget] at hamount
  · intro address balance utxos hget index
    rw [hsources address balance utxos hget index]
    refine ⟨fun haddress => ⟨?_, haddress⟩, And.right⟩
    rcases Option.map_eq_some_iff.1 haddress with ⟨output, houtput, -⟩
    exact ⟨output.sourceAmount, congrArg (Option.map _) houtput⟩
  · intro address balance utxos address' balance' utxos' index hget hget' hmem hmem'
    rw [hsources address balance utxos hget index] at hmem
    rw [hsources address' balance' utxos' hget' index] at hmem'
    exact Option.some.inj (hmem.symm.trans hmem')

/-! ## Consuming inputs -/

/-- What the inputs of a transaction are allowed to be. -/
structure Spends (s : Ledger) (tx : TransactionDocument) : Prop where
  available : ∀ input ∈ tx.inputs, s.amount? input.source.1 = some input.source.2
  fits : ∀ address, s.spentAt tx address ≠ [] → ∃ base, (s.dbs.balance address).1.Fits base ∧
    ∀ amount ∈ s.spentAt tx address, amount.Fits base
  keeps : ∀ address, s.spentAt tx address ≠ [] →
    KeepsRemainder (s.dbs.balance address).1 ((s.spentAt tx address).foldl (· + ·) default)

/-- Every source that is indexed from the inputs is recorded with its amount. -/
theorem Spends.amount? (h : s.Spends tx) {source : SourceIndexV10 × SourceAmount}
    (hmem : source ∈ tx.inputSources.iter) : s.amount? source.1 = some source.2 := by
  rcases List.mem_map.1 (HashMap.mem_of_mem_iter_ofList hmem) with ⟨input, hinput, rfl⟩
  exact h.available input hinput

theorem map_fst_iter_inputSources (tx : TransactionDocument) :
    tx.inputSources.iter.map Prod.fst = tx.inputSources.keys := by
  rw [HashMap.iter, List.map_map]
  rfl

/-- The ledger after the inputs of a transaction are consumed. -/
structure Spent (s : Ledger) (tx : TransactionDocument) (s' : Ledger) : Prop where
  value : ∀ address, s.sourcesValue address =
    SourceAmount.totalValue (s.spentAt tx address) + s'.sourcesValue address
  amount? : ∀ source, s'.amount? source =
    if source ∈ tx.inputSources.keys then none else s.amount? source
  address? : ∀ source, source ∉ tx.inputSources.keys →
    sourceAddress? s'.dbs.utxosDb source = sourceAddress? s.dbs.utxosDb source
  untouched : ∀ address, s.spentAt tx address = [] →
    s'.dbs.balance address = s.dbs.balance address
  touched : ∀ address, s.spentAt tx address ≠ [] → ∃ consumed : AddressBalance,
    consumed.1 = (s.spentAt tx address).foldl (· + ·) default ∧
    (∀ index, index ∈ consumed.2 ↔ SourceIndexV10.utxo index ∈ tx.inputSources.keys ∧
      sourceAddress? s.dbs.utxosDb (.utxo index) = some address) ∧
    s'.dbs.balance address = spendFrom (s.dbs.balance address) consumed
  entries : ∀ address, s.dbs.balancesDb.containsKey address = true →
    s'.dbs.balancesDb.containsKey address = true

/-- What is left at each address that sources are consumed from is written, then the sources are
removed. -/
def consume (s : Ledger) (consumed : HashMap UTXOConditionsGroup AddressBalance)
    (sources : List SourceIndexV10) : Ledger :=
  sources.foldl remove { s with
    dbs.balancesDb := s.dbs.balancesDb.insertAll
      (consumed.iter.map fun entry => (entry.1, spendFrom (s.dbs.balance entry.1) entry.2)) }

theorem balance_consume (s : Ledger) (consumed : HashMap UTXOConditionsGroup AddressBalance)
    (sources : List SourceIndexV10) (address : UTXOConditionsGroup) :
    (s.consume consumed sources).dbs.balance address =
      ((consumed.get? address).map (spendFrom (s.dbs.balance address))).getD
        (s.dbs.balance address) := by
  rw [CurrencyV10DBs.balance, consume, balancesDb_foldl_remove]
  exact balance_of_insertAll s.dbs consumed (fun address => spendFrom (s.dbs.balance address))
    address

theorem containsKey_consume (s : Ledger) (consumed : HashMap UTXOConditionsGroup AddressBalance)
    (sources : List SourceIndexV10) (address : UTXOConditionsGroup) :
    (s.consume consumed sources).dbs.balancesDb.containsKey address =
      (consumed.containsKey address || s.dbs.balancesDb.containsKey address) := by
  rw [consume, balancesDb_foldl_remove]
  exact containsKey_of_insertAll s.dbs consumed (fun address => spendFrom (s.dbs.balance address))
    address

theorem consume_of_consumeInputs {dbs' : CurrencyV10DBs} {destroyed : HashSet UTXOIndexV10}
    (h : consumeInputs s.dbs tx = .ok (dbs', destroyed)) :
    ∃ consumed, findAddresses s.dbs.utxosDb tx.inputSources = .ok consumed ∧
      { s with dbs := dbs' } = s.consume consumed tx.inputSources.keys := by
  rcases consumeInputs_eq_ok h with ⟨consumed, hconsumed, rfl⟩
  refine ⟨consumed, hconsumed, ?_⟩
  rw [consume, foldl_remove_eq]

/-- The sources that are found at an address a transaction consumes from. -/
theorem consumed_of_findAddresses {consumed : HashMap UTXOConditionsGroup AddressBalance}
    (h : findAddresses s.dbs.utxosDb tx.inputSources = .ok consumed)
    (address : UTXOConditionsGroup) :
    (s.spentAt tx address = [] → consumed.get? address = none) ∧
      (s.spentAt tx address ≠ [] → ∃ spent, consumed.get? address = some spent ∧
        spent.1 = (s.spentAt tx address).foldl (· + ·) default ∧
        ∀ index, index ∈ spent.2 ↔ SourceIndexV10.utxo index ∈ tx.inputSources.keys ∧
          sourceAddress? s.dbs.utxosDb (.utxo index) = some address) := by
  rw [findAddresses_get? h address, spentAt, ← map_fst_iter_inputSources]
  have hempty : (tx.inputSources.iter.filter
      (sourceAddress? s.dbs.utxosDb ·.1 = some address)).isEmpty = true ↔
      (tx.inputSources.iter.filter
        (sourceAddress? s.dbs.utxosDb ·.1 = some address)).map Prod.snd = [] := by
    rw [List.map_eq_nil_iff, List.isEmpty_iff]
  refine ⟨fun hnil => if_pos (hempty.2 hnil), fun hspent => ?_⟩
  refine ⟨_, if_neg (mt hempty.1 hspent), foldl_addSource_fst _ _, fun index => ?_⟩
  rw [mem_foldl_addSource_snd]
  simp only [HashSet.not_mem_empty, false_or, List.mem_map, List.mem_filter, decide_eq_true_eq]
  constructor
  · rintro ⟨source, ⟨hmem, haddress⟩, heq⟩
    exact ⟨⟨source, hmem, heq⟩, heq ▸ haddress⟩
  · rintro ⟨⟨source, hmem, heq⟩, haddress⟩
    exact ⟨source, ⟨hmem, heq.symm ▸ haddress⟩, heq⟩

/-- The ledger after the inputs are consumed. -/
theorem spent_of_consumeInputs {dbs' : CurrencyV10DBs} {destroyed : HashSet UTXOIndexV10}
    (h : s.Spends tx) (hrun : consumeInputs s.dbs tx = .ok (dbs', destroyed)) :
    s.Spent tx { s with dbs := dbs' } := by
  rcases consume_of_consumeInputs hrun with ⟨consumed, hconsumed, heq⟩
  have hfound := consumed_of_findAddresses hconsumed
  have hkeys := map_fst_iter_inputSources tx
  rw [heq]
  refine ⟨?_, ?_, ?_, ?_, ?_, ?_⟩
  · intro address
    have hvalue := sourcesValue_foldl_remove { s with
      dbs.balancesDb := s.dbs.balancesDb.insertAll
        (consumed.iter.map fun entry => (entry.1, spendFrom (s.dbs.balance entry.1) entry.2)) }
      (hkeys ▸ tx.inputSources.keys_nodup) (fun source hmem => h.amount? hmem) address
    rw [hkeys] at hvalue
    exact hvalue
  · exact amount?_foldl_remove _ tx.inputSources.keys
  · intro source hsource
    exact sourceAddress?_foldl_remove _ hsource
  · intro address hnil
    rw [balance_consume, (hfound address).1 hnil]
    rfl
  · intro address hspent
    rcases (hfound address).2 hspent with ⟨spent, hget, hamount, hsources⟩
    refine ⟨spent, hamount, hsources, ?_⟩
    rw [balance_consume, hget]
    rfl
  · intro address hkey
    rw [containsKey_consume, hkey, Bool.or_true]

/-- What is left of a balance after amounts that fit its base are consumed. -/
theorem spendFrom_fst {balance spent : AddressBalance} {amounts : List SourceAmount} {base : TxBase}
    (hspent : spent.1 = amounts.foldl (· + ·) default) (hfits : balance.1.Fits base)
    (hamounts : ∀ amount ∈ amounts, amount.Fits base)
    (hkeeps : KeepsRemainder balance.1 (amounts.foldl (· + ·) default))
    (hle : SourceAmount.totalValue amounts ≤ balance.1.value) (hrange : balance.1.value < 2 ^ 63) :
    (spendFrom balance spent).1.Fits base ∧
      (spendFrom balance spent).1.value = balance.1.value - SourceAmount.totalValue amounts := by
  rw [← hspent] at hkeeps
  have hsum := (SourceAmount.fits_default base).foldl_add hamounts
    (by rw [SourceAmount.value_default]; omega)
  rw [← hspent, SourceAmount.value_default, Int.zero_add] at hsum
  rcases hsum with ⟨hspentFits, hspentValue⟩
  rw [← hspentValue] at hle ⊢
  have hsub := hfits.sub hspentFits hkeeps.1 hle hrange
  -- what is destroyed as dust is nothing
  have hfst : (spendFrom balance spent).1 = balance.1 - spent.1 := by
    change (if (balance.1 - spent.1).amount < 100 then _ else _) = _
    split
    case isTrue hdust =>
      rcases hkeeps.2 with hzero | hlarge
      · rw [← hzero]
      · exact absurd hdust (Int.not_lt.2 hlarge)
    case isFalse => rfl
  rw [hfst]
  exact hsub

/-- The balance of an address that a transaction consumes from. -/
theorem Spent.touched_fst (hspent : s.Spent tx s') (hs : s.Balanced) (h : s.Spends tx)
    {address : UTXOConditionsGroup} (hne : s.spentAt tx address ≠ []) {base : TxBase}
    (hfits : (s.dbs.balance address).1.Fits base)
    (hamounts : ∀ amount ∈ s.spentAt tx address, amount.Fits base)
    (hnonneg : 0 ≤ s'.sourcesValue address) :
    (s'.dbs.balance address).1.Fits base ∧
      (s'.dbs.balance address).1.value = s'.sourcesValue address := by
  rcases hspent.touched address hne with ⟨consumed, hconsumed, -, hbalance⟩
  have hvalue := hspent.value address
  have hamount := hs.amount address
  have hleft := spendFrom_fst hconsumed hfits hamounts (h.keeps address hne)
    (by omega) (hs.range address)
  rw [hbalance]
  exact ⟨hleft.1, by omega⟩

/-- Consuming inputs keeps the invariant. -/
theorem Spent.balanced (hspent : s.Spent tx s') (hs : s.Balanced) (h : s.Spends tx) :
    s'.Balanced := by
  have hrecorded : ∀ source amount, s'.amount? source = some amount →
      source ∉ tx.inputSources.keys ∧ s.amount? source = some amount := by
    intro source amount hamount
    rw [hspent.amount?] at hamount
    split at hamount
    case isTrue => cases hamount
    case isFalse hnot => exact ⟨hnot, hamount⟩
  have hnonneg : ∀ source amount, s'.amount? source = some amount → 0 ≤ amount.amount :=
    fun source amount hamount => hs.nonneg source amount (hrecorded source amount hamount).2
  have hvalue := sourcesValue_nonneg hnonneg
  have hamount : ∀ address, (s'.dbs.balance address).1.value = s'.sourcesValue address := by
    intro address
    by_cases hne : s.spentAt tx address = []
    · have hkeep := hspent.value address
      rw [hne, SourceAmount.totalValue_nil, Int.zero_add] at hkeep
      rw [hspent.untouched address hne, hs.amount, hkeep]
    · rcases h.fits address hne with ⟨base, hfits, hamounts⟩
      exact (hspent.touched_fst hs h hne hfits hamounts (hvalue address)).2
  refine ⟨hamount, ?_, ?_, hnonneg, ?_⟩
  · intro address index
    have haddress : sourceAddress? s'.dbs.utxosDb (.utxo index) = some address ↔
        SourceIndexV10.utxo index ∉ tx.inputSources.keys ∧
          sourceAddress? s.dbs.utxosDb (.utxo index) = some address := by
      by_cases hmem : SourceIndexV10.utxo index ∈ tx.inputSources.keys
      · have hgone := hspent.amount? (.utxo index)
        rw [if_pos hmem] at hgone
        rw [sourceAddress?, get?_utxosDb_of_amount?_eq_none hgone]
        exact iff_of_false (Option.some_ne_none address).symm fun hboth => absurd hmem hboth.1
      · rw [hspent.address? _ hmem]
        exact (and_iff_right hmem).symm
    rw [haddress]
    by_cases hne : s.spentAt tx address = []
    · rw [hspent.untouched address hne, hs.sources]
      refine (and_iff_right_of_imp fun howner hmem => ?_).symm
      -- a consumed output of this address would be among what is spent there
      rw [← map_fst_iter_inputSources] at hmem
      rcases List.mem_map.1 hmem with ⟨source, hsource, heq⟩
      have hin : source.2 ∈ s.spentAt tx address := List.mem_map_of_mem
        (List.mem_filter.2 ⟨hsource, decide_eq_true (heq.symm ▸ howner)⟩)
      rw [hne] at hin
      cases hin
    · rcases hspent.touched address hne with ⟨consumed, -, hsources, hbalance⟩
      rw [hbalance, mem_spendFrom_snd, hs.sources, hsources, and_comm]
      exact and_congr_left fun howner => ⟨fun hnot hmem => hnot ⟨hmem, howner⟩,
        fun hnot hboth => hnot hboth.1⟩
  · intro address source howns
    rcases howns.1 with ⟨amount, hsource⟩
    rcases hrecorded source amount hsource with ⟨hnot, hold⟩
    refine hspent.entries address (hs.entries address source ⟨⟨amount, hold⟩, ?_⟩)
    rw [← hspent.address? source hnot]
    exact howns.2
  · intro address
    rw [hamount]
    have htotal : 0 ≤ SourceAmount.totalValue (s.spentAt tx address) := by
      by_cases hne : s.spentAt tx address = []
      · rw [hne, SourceAmount.totalValue_nil]
      · rcases h.fits address hne with ⟨base, -, hamounts⟩
        exact SourceAmount.totalValue_nonneg hamounts
    have hsum := hspent.value address
    have hbefore := hs.amount address
    have hrange := hs.range address
    omega

/-! ## Creating outputs -/

/-- What the outputs of a transaction are allowed to be. -/
structure Creates (s : Ledger) (utxos : List UTXOV10) : Prop where
  new : ∀ utxo ∈ utxos, s.amount? (.utxo utxo.index) = none
  distinct : (utxos.map UTXOV10.index).Nodup
  fits : ∀ address, createdAt utxos address ≠ [] → ∃ base,
    (s.dbs.balance address).1.Fits base ∧ ∀ amount ∈ createdAt utxos address, amount.Fits base
  range : ∀ address, createdAt utxos address ≠ [] →
    s.sourcesValue address + SourceAmount.totalValue (createdAt utxos address) < 2 ^ 63

/-- The balances of the supplied addresses are written, then the outputs are added. -/
def supplied (s : Ledger) (utxos : List UTXOV10) : Ledger :=
  utxos.foldl add { s with
    dbs.balancesDb := s.dbs.balancesDb.insertAll
      ((utxos.foldl (supplyAddress s.dbs.balancesDb) ∅).iter.map fun entry =>
        (entry.1, entry.2)) }

theorem createOutputs_eq (s : Ledger) (tx : TransactionDocument) (txHash : Hash) :
    { s with dbs := createOutputs s.dbs tx txHash } = s.supplied (tx.createdUtxos txHash) := by
  rw [supplied, foldl_add_eq, List.map_id']
  rfl

variable {utxos : List UTXOV10}

theorem balancesDb_supplied (s : Ledger) (utxos : List UTXOV10) :
    (s.supplied utxos).dbs.balancesDb = s.dbs.balancesDb.insertAll
      ((utxos.foldl (supplyAddress s.dbs.balancesDb) ∅).iter.map fun entry =>
        (entry.1, entry.2)) := by
  rw [supplied, foldl_add_eq]

/-- The balance of an address after outputs are created is supplied with its outputs. -/
theorem balance_supplied (s : Ledger) (utxos : List UTXOV10) (address : UTXOConditionsGroup) :
    (s.supplied utxos).dbs.balance address =
      (utxos.filter (·.getConditions = address)).foldl supply (s.dbs.balance address) := by
  rw [CurrencyV10DBs.balance, balancesDb_supplied]
  refine (balance_of_insertAll s.dbs _ (fun _ balance => balance) address).trans ?_
  rw [foldl_supplyAddress_get?]
  cases hfilter : utxos.filter (·.getConditions = address) with
  | nil => rfl
  | cons utxo rest => rfl

theorem containsKey_supplied (s : Ledger) (utxos : List UTXOV10)
    (address : UTXOConditionsGroup) :
    (s.supplied utxos).dbs.balancesDb.containsKey address = true ↔
      (∃ utxo ∈ utxos, utxo.getConditions = address) ∨
        s.dbs.balancesDb.containsKey address = true := by
  rw [balancesDb_supplied, containsKey_of_insertAll s.dbs _ (fun _ balance => balance) address,
    Bool.or_eq_true, HashMap.containsKey, foldl_supplyAddress_get?]
  refine or_congr_left ?_
  by_cases hempty : (utxos.filter (·.getConditions = address)).isEmpty = true
  · rw [if_pos hempty]
    rw [List.isEmpty_iff, List.filter_eq_nil_iff] at hempty
    simpa using hempty
  · rw [if_neg hempty]
    rw [List.isEmpty_iff, List.filter_eq_nil_iff] at hempty
    simpa using hempty

/-- The balance of an address that outputs are created for. -/
theorem Creates.balance_fst (h : s.Creates utxos) (hs : s.Balanced)
    (address : UTXOConditionsGroup) : ((s.supplied utxos).dbs.balance address).1.value =
      s.sourcesValue address + SourceAmount.totalValue (createdAt utxos address) := by
  rw [balance_supplied, foldl_supply_fst]
  change ((createdAt utxos address).foldl (· + ·) _).value = _
  by_cases hne : createdAt utxos address = []
  · rw [hne, SourceAmount.totalValue_nil, Int.add_zero, List.foldl_nil, hs.amount]
  · rcases h.fits address hne with ⟨base, hfits, hamounts⟩
    rw [← hs.amount]
    refine (hfits.foldl_add hamounts ?_).2
    rw [hs.amount]
    exact h.range address hne

/-- Creating outputs keeps the invariant. -/
theorem Creates.balanced (h : s.Creates utxos) (hs : s.Balanced) :
    (s.supplied utxos).Balanced := by
  have hget := get?_foldl_add { s with
    dbs.balancesDb := s.dbs.balancesDb.insertAll
      ((utxos.foldl (supplyAddress s.dbs.balancesDb) ∅).iter.map fun entry =>
        (entry.1, entry.2)) } h.distinct h.new
  have hvalue : ∀ address, (s.supplied utxos).sourcesValue address =
      s.sourcesValue address + SourceAmount.totalValue (createdAt utxos address) :=
    sourcesValue_foldl_add _ h.distinct h.new
  have hdus : ∀ pubkey blockId, (s.supplied utxos).amount? (.ud pubkey blockId) =
      s.amount? (.ud pubkey blockId) := by
    intro pubkey blockId
    rw [supplied, foldl_add_eq]
    rfl
  -- a source that is recorded was recorded before or is a new output
  have hsource : ∀ source amount, (s.supplied utxos).amount? source = some amount →
      (∃ utxo ∈ utxos, source = .utxo utxo.index ∧ amount = utxo.getAmount ∧
        sourceAddress? (s.supplied utxos).dbs.utxosDb source = some utxo.getConditions) ∨
      (s.amount? source = some amount ∧
        sourceAddress? (s.supplied utxos).dbs.utxosDb source =
          sourceAddress? s.dbs.utxosDb source) := by
    intro source amount hamount
    cases source with
    | utxo index =>
        rcases Option.map_eq_some_iff.1 hamount with ⟨output, houtput, rfl⟩
        rcases (hget index output).1 houtput with hnew | hold
        · exact Or.inl ⟨_, hnew, rfl, rfl, congrArg (Option.map _) houtput⟩
        · refine Or.inr ⟨congrArg (Option.map _) hold, ?_⟩
          rw [sourceAddress?, sourceAddress?, houtput, hold]
    | ud pubkey blockId => exact Or.inr ⟨(hdus pubkey blockId).symm.trans hamount, rfl⟩
  refine ⟨?_, ?_, ?_, ?_, ?_⟩
  · intro address
    rw [h.balance_fst hs, hvalue]
  · intro address index
    rw [balance_supplied, mem_foldl_supply_snd, hs.sources]
    have hfind : sourceAddress? (s.supplied utxos).dbs.utxosDb (.utxo index) = some address ↔
        ∃ output, (⟨index, output⟩ ∈ utxos ∨ s.dbs.utxosDb.get? index = some output) ∧
          output.address = address := by
      rw [sourceAddress?, Option.map_eq_some_iff]
      exact exists_congr fun output => and_congr_left fun _ => hget index output
    rw [hfind, sourceAddress?, Option.map_eq_some_iff]
    constructor
    · rintro (⟨output, hold, haddress⟩ | hnew)
      · exact ⟨output, Or.inr hold, haddress⟩
      · rcases List.mem_map.1 hnew with ⟨utxo, hmem, rfl⟩
        rcases List.mem_filter.1 hmem with ⟨hutxo, howner⟩
        exact ⟨utxo.content, Or.inl hutxo, of_decide_eq_true howner⟩
    · rintro ⟨output, hnew | hold, haddress⟩
      · exact Or.inr (List.mem_map.2
          ⟨_, List.mem_filter.2 ⟨hnew, decide_eq_true haddress⟩, rfl⟩)
      · exact Or.inl ⟨output, hold, haddress⟩
  · intro address source howns
    rcases howns with ⟨⟨amount, hamount⟩, haddress⟩
    rw [containsKey_supplied]
    rcases hsource source amount hamount with ⟨utxo, hutxo, -, -, howner⟩ | ⟨hold, howner⟩
    · exact Or.inl ⟨utxo, hutxo, Option.some.inj (howner.symm.trans haddress)⟩
    · exact Or.inr (hs.entries address source ⟨⟨amount, hold⟩, howner ▸ haddress⟩)
  · intro source amount hamount
    rcases hsource source amount hamount with ⟨utxo, hutxo, -, rfl, -⟩ | ⟨hold, -⟩
    · have hmem : utxo.getAmount ∈ createdAt utxos utxo.getConditions :=
        List.mem_map_of_mem (List.mem_filter.2 ⟨hutxo, decide_eq_true rfl⟩)
      rcases h.fits utxo.getConditions (List.ne_nil_of_mem hmem) with ⟨base, -, hamounts⟩
      exact (hamounts _ hmem).nonneg
    · exact hs.nonneg source amount hold
  · intro address
    rw [h.balance_fst hs]
    by_cases hne : createdAt utxos address = []
    · rw [hne, SourceAmount.totalValue_nil, Int.add_zero, ← hs.amount]
      exact hs.range address
    · exact h.range address hne

end Ledger

end Durs
