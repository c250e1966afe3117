/-
# Adding and removing sources

What one write in the stores of unused outputs and of dividends does to the recorded sources, to
their addresses and to the value of what each address owns.
-/

import Durs.Currency.Ledger

namespace Durs

open RustStd

/-! ## The dividends of a member -/

theorem addressOf_injective : Function.Injective addressOf := by
  intro pubkey pubkey' h
  exact TransactionOutputCondition.sig.inj (UTXOConditionsGroup.single.inj h)

theorem mem_writeMemberDu (blockId : BlockNumber) (revert : Bool)
    (duDb : HashMap PubKey (HashSet BlockNumber)) (pubkey pubkey' : PubKey) (b : BlockNumber) :
    b ∈ ((writeMemberDu blockId revert duDb pubkey).get? pubkey').getD ∅ ↔
      if pubkey' = pubkey ∧ b = blockId then revert = false else b ∈ (duDb.get? pubkey').getD ∅ := by
  rw [writeMemberDu, HashMap.get?_insert]
  by_cases hkey : pubkey' = pubkey
  · subst hkey
    cases revert with
    | true => by_cases hb : b = blockId <;> simp [hb]
    | false => by_cases hb : b = blockId <;> simp [hb]
  · simp [hkey]

theorem mem_foldl_writeMemberDu (blockId : BlockNumber) (revert : Bool) (members : List PubKey)
    (duDb : HashMap PubKey (HashSet BlockNumber)) (pubkey : PubKey) (b : BlockNumber) :
    b ∈ ((members.foldl (writeMemberDu blockId revert) duDb).get? pubkey).getD ∅ ↔
      if pubkey ∈ members ∧ b = blockId then revert = false
      else b ∈ (duDb.get? pubkey).getD ∅ := by
  induction members generalizing duDb with
  | nil => simp
  | cons member members ih =>
      rw [List.foldl_cons, ih, mem_writeMemberDu]
      by_cases hb : b = blockId
      · by_cases hmember : pubkey = member <;> by_cases hmem : pubkey ∈ members <;>
          simp [hb, hmember, hmem]
      · simp [hb]

namespace Ledger

variable {s s' : Ledger}

/-! ## The value of what an address owns -/

theorem sourcesValue_addressOf (s : Ledger) (pubkey : PubKey) :
    s.sourcesValue (addressOf pubkey) =
      s.utxosValue (addressOf pubkey) + s.memberDusValue pubkey := rfl

/-- The dividends of an address are those of its member, if it is the address of one. -/
theorem dusValue_congr {address : UTXOConditionsGroup}
    (h : ∀ pubkey, address = addressOf pubkey → s.memberDusValue pubkey = s'.memberDusValue pubkey) :
    s.dusValue address = s'.dusValue address := by
  match address with
  | .single (.sig pubkey) => exact h pubkey rfl
  | .single (.xhx _) => rfl
  | .single (.cltv _) => rfl
  | .single (.csv _) => rfl
  | .brackets _ => rfl
  | .and _ _ => rfl
  | .or _ _ => rfl

/-- The dividends of a member count when they are the same and have the same amounts. -/
theorem memberDusValue_congr {pubkey : PubKey}
    (hdus : ∀ b, b ∈ s.dbs.dus pubkey ↔ b ∈ s'.dbs.dus pubkey)
    (hamount : ∀ b ∈ s.dbs.dus pubkey, s.dividends pubkey b = s'.dividends pubkey b) :
    s.memberDusValue pubkey = s'.memberDusValue pubkey := by
  rw [memberDusValue, HashSet.sumOf_congr_of_mem fun b hb => congrArg _ (hamount b hb)]
  exact HashSet.sumOf_congr _ hdus

/-- A member with one more dividend. -/
theorem memberDusValue_of_gains (s s' : Ledger) {pubkey : PubKey} {blockId : BlockNumber}
    (hfresh : blockId ∉ s.dbs.dus pubkey)
    (hdus : ∀ b, b ∈ s'.dbs.dus pubkey ↔ b = blockId ∨ b ∈ s.dbs.dus pubkey)
    (hamount : ∀ b ∈ s.dbs.dus pubkey, s'.dividends pubkey b = s.dividends pubkey b) :
    s'.memberDusValue pubkey = (s'.dividends pubkey blockId).value + s.memberDusValue pubkey := by
  have hmem : ∀ b, b ∈ s'.dbs.dus pubkey ↔ b ∈ (s.dbs.dus pubkey).insert blockId := by
    intro b
    rw [hdus, HashSet.mem_insert]
  rw [memberDusValue, HashSet.sumOf_congr _ hmem, HashSet.sumOf_insert_of_not_mem _ hfresh,
    HashSet.sumOf_congr_of_mem fun b hb => congrArg _ (hamount b hb)]
  rfl

/-- What an address owns is worth no less than nothing when no source is. -/
theorem sourcesValue_nonneg (h : ∀ source amount, s.amount? source = some amount → 0 ≤ amount.amount)
    (address : UTXOConditionsGroup) : 0 ≤ s.sourcesValue address := by
  have hutxos : 0 ≤ s.utxosValue address := by
    refine List.sum_nonneg fun v hv => ?_
    rcases List.mem_map.1 hv with ⟨⟨index, output⟩, hmem, rfl⟩
    have hamount : s.amount? (.utxo index) = some output.sourceAmount :=
      congrArg (Option.map _) ((HashMap.mem_iter_iff _ index output).1 hmem)
    change 0 ≤ if output.address = address then output.sourceAmount.value else 0
    by_cases howner : output.address = address
    · rw [if_pos howner]
      exact SourceAmount.value_nonneg_iff.2 (h _ _ hamount)
    · rw [if_neg howner]
  have hmember : ∀ pubkey, 0 ≤ s.memberDusValue pubkey := by
    intro pubkey
    refine List.sum_nonneg fun v hv => ?_
    rcases List.mem_map.1 hv with ⟨blockId, hmem, rfl⟩
    have hamount : s.amount? (.ud pubkey blockId) = some (s.dividends pubkey blockId) := if_pos hmem
    exact SourceAmount.value_nonneg_iff.2 (h _ _ hamount)
  have hdus : 0 ≤ s.dusValue address := by
    match address with
    | .single (.sig pubkey) => exact hmember pubkey
    | .single (.xhx _) => exact Int.le_refl 0
    | .single (.cltv _) => exact Int.le_refl 0
    | .single (.csv _) => exact Int.le_refl 0
    | .brackets _ => exact Int.le_refl 0
    | .and _ _ => exact Int.le_refl 0
    | .or _ _ => exact Int.le_refl 0
  exact Int.add_nonneg hutxos hdus

/-! ## Removing a source -/

/-- What is left when the databases lose a source. -/
def remove (s : Ledger) (source : SourceIndexV10) : Ledger :=
  { s with dbs := removeSource s.dbs source }

theorem balancesDb_remove (s : Ledger) (source : SourceIndexV10) :
    (s.remove source).dbs.balancesDb = s.dbs.balancesDb := by
  cases source with
  | utxo index => rfl
  | ud pubkey blockId => rfl

theorem mem_dus_remove_ud (s : Ledger) (pubkey pubkey' : PubKey) (blockId b : BlockNumber) :
    b ∈ (s.remove (.ud pubkey blockId)).dbs.dus pubkey' ↔
      b ∈ s.dbs.dus pubkey' ∧ ¬ (pubkey' = pubkey ∧ b = blockId) := by
  rw [CurrencyV10DBs.dus, CurrencyV10DBs.dus, remove, removeSource, mem_writeMemberDu]
  by_cases h : pubkey' = pubkey ∧ b = blockId <;> simp [h]

/-- A source that is removed is no longer recorded; the others stay. -/
theorem amount?_remove (s : Ledger) (source other : SourceIndexV10) :
    (s.remove source).amount? other = if other = source then none else s.amount? other := by
  cases source with
  | utxo index =>
      cases other with
      | utxo index' =>
          rw [amount?, amount?, remove, removeSource, HashMap.get?_remove]
          by_cases h : index' = index <;> simp [h]
      | ud pubkey blockId =>
          rw [if_neg SourceIndexV10.noConfusion]
          rfl
  | ud pubkey blockId =>
      cases other with
      | utxo index' =>
          rw [if_neg SourceIndexV10.noConfusion]
          rfl
      | ud pubkey' b =>
          rw [amount?, amount?]
          by_cases h : pubkey' = pubkey ∧ b = blockId
          · have hnot : b ∉ (s.remove (.ud pubkey blockId)).dbs.dus pubkey' := by
              rw [mem_dus_remove_ud]
              exact fun hb => hb.2 h
            rw [if_neg hnot, if_pos (by rw [h.1, h.2])]
          · have hne : SourceIndexV10.ud pubkey' b ≠ .ud pubkey blockId :=
              fun heq => h (SourceIndexV10.ud.inj heq)
            rw [if_neg hne]
            refine if_congr ?_ rfl rfl
            rw [mem_dus_remove_ud]
            exact and_iff_left h

/-- Removing another source does not move a source to another address. -/
theorem sourceAddress?_remove_of_ne (s : Ledger) {source other : SourceIndexV10}
    (h : other ≠ source) : sourceAddress? (s.remove source).dbs.utxosDb other =
      sourceAddress? s.dbs.utxosDb other := by
  cases source with
  | utxo index =>
      cases other with
      | utxo index' =>
          rw [sourceAddress?, sourceAddress?, remove, removeSource,
            HashMap.get?_remove_of_ne _ (fun heq => h (congrArg SourceIndexV10.utxo heq))]
      | ud pubkey blockId => rfl
  | ud pubkey blockId => rfl

/-- The owner of a source that is removed loses its value. -/
theorem sourcesValue_remove (s : Ledger) {source : SourceIndexV10} {amount : SourceAmount}
    (hamount : s.amount? source = some amount) (address : UTXOConditionsGroup) :
    s.sourcesValue address =
      (if sourceAddress? s.dbs.utxosDb source = some address then amount.value else 0) +
        (s.remove source).sourcesValue address := by
  cases source with
  | utxo index =>
      rcases Option.map_eq_some_iff.1 hamount with ⟨output, houtput, rfl⟩
      have hutxos := HashMap.sumOf_remove_of_get?_eq_some
        (fun _ output => if output.address = address then output.sourceAmount.value else 0)
        s.dbs.utxosDb houtput
      have hdus : s.dusValue address = (s.remove (.utxo index)).dusValue address :=
        dusValue_congr fun _ _ => rfl
      have haddress : sourceAddress? s.dbs.utxosDb (.utxo index) = some output.address :=
        congrArg (Option.map _) houtput
      rw [sourcesValue, sourcesValue, hdus, ← Int.add_assoc, haddress]
      refine congrArg (· + _) (hutxos.trans ?_)
      simp only [Option.some.injEq]
      rfl
  | ud pubkey blockId =>
      have hmem : blockId ∈ s.dbs.dus pubkey := by
        by_contra hnot
        rw [amount?, if_neg hnot] at hamount
        cases hamount
      rw [amount?, if_pos hmem] at hamount
      obtain rfl := Option.some.inj hamount
      by_cases haddress : addressOf pubkey = address
      · subst haddress
        have hdus := memberDusValue_of_gains (s.remove (.ud pubkey blockId)) s
          (fun h => ((mem_dus_remove_ud s pubkey pubkey blockId blockId).1 h).2 ⟨rfl, rfl⟩)
          (fun b => by
            rw [mem_dus_remove_ud]
            by_cases hb : b = blockId <;> simp [hb, hmem])
          (fun _ _ => rfl)
        have howner : sourceAddress? s.dbs.utxosDb (.ud pubkey blockId) =
            some (addressOf pubkey) := rfl
        rw [if_pos howner, sourcesValue_addressOf, sourcesValue_addressOf, hdus, Int.add_left_comm]
        rfl
      · have howner : sourceAddress? s.dbs.utxosDb (.ud pubkey blockId) ≠ some address :=
          fun heq => haddress (Option.some.inj heq)
        rw [if_neg howner, Int.zero_add]
        refine congrArg (s.utxosValue address + ·) (dusValue_congr fun pubkey' heq => ?_)
        refine memberDusValue_congr (fun b => ?_) (fun _ _ => rfl)
        rw [mem_dus_remove_ud]
        have hother : ¬ (pubkey' = pubkey ∧ b = blockId) := fun h => haddress (h.1 ▸ heq.symm)
        exact (and_iff_left hother).symm

/-! ## Removing the sources of a transaction -/

theorem foldl_remove_eq (s : Ledger) (sources : List SourceIndexV10) :
    sources.foldl remove s = { s with dbs := sources.foldl removeSource s.dbs } := by
  induction sources generalizing s with
  | nil => rfl
  | cons source sources ih => exact ih (s.remove source)

theorem balancesDb_foldl_remove (s : Ledger) (sources : List SourceIndexV10) :
    (sources.foldl remove s).dbs.balancesDb = s.dbs.balancesDb := by
  induction sources generalizing s with
  | nil => rfl
  | cons source sources ih => rw [List.foldl_cons, ih, balancesDb_remove]

theorem amount?_foldl_remove (s : Ledger) (sources : List SourceIndexV10)
    (other : SourceIndexV10) :
    (sources.foldl remove s).amount? other =
      if other ∈ sources then none else s.amount? other := by
  induction sources generalizing s with
  | nil => simp
  | cons source sources ih =>
      rw [List.foldl_cons, ih, amount?_remove]
      by_cases hsource : other = source <;> by_cases hmem : other ∈ sources <;>
        simp [hsource, hmem]

theorem sourceAddress?_foldl_remove (s : Ledger) {sources : List SourceIndexV10}
    {other : SourceIndexV10} (h : other ∉ sources) :
    sourceAddress? (sources.foldl remove s).dbs.utxosDb other =
      sourceAddress? s.dbs.utxosDb other := by
  induction sources generalizing s with
  | nil => rfl
  | cons source sources ih =>
      rw [List.mem_cons, not_or] at h
      rw [List.foldl_cons, ih _ h.2, sourceAddress?_remove_of_ne s h.1]

/-- An address loses the value of those of its sources that are removed. -/
theorem sourcesValue_foldl_remove (s : Ledger) {sources : List (SourceIndexV10 × SourceAmount)}
    (hnodup : (sources.map Prod.fst).Nodup)
    (hamount : ∀ source ∈ sources, s.amount? source.1 = some source.2)
    (address : UTXOConditionsGroup) :
    s.sourcesValue address = SourceAmount.totalValue
        ((sources.filter (sourceAddress? s.dbs.utxosDb ·.1 = some address)).map Prod.snd) +
      ((sources.map Prod.fst).foldl remove s).sourcesValue address := by
  induction sources generalizing s with
  | nil => exact (Int.zero_add _).symm
  | cons source sources ih =>
      rw [List.map_cons, List.nodup_cons] at hnodup
      have hne : ∀ other ∈ sources, other.1 ≠ source.1 := fun other hmem heq =>
        hnodup.1 (heq ▸ List.mem_map_of_mem hmem)
      have hrest : ∀ other ∈ sources, (s.remove source.1).amount? other.1 = some other.2 := by
        intro other hmem
        rw [amount?_remove, if_neg (hne other hmem)]
        exact hamount other (List.mem_cons_of_mem _ hmem)
      have hfilter : sources.filter
            (sourceAddress? (s.remove source.1).dbs.utxosDb ·.1 = some address) =
          sources.filter (sourceAddress? s.dbs.utxosDb ·.1 = some address) :=
        List.filter_congr fun other hmem => by
          rw [sourceAddress?_remove_of_ne s (hne other hmem)]
      rw [sourcesValue_remove s (hamount source List.mem_cons_self) address,
        ih (s.remove source.1) hnodup.2 hrest, hfilter, List.map_cons, List.foldl_cons,
        ← Int.add_assoc]
      refine congrArg (· + _) ?_
      by_cases howner : sourceAddress? s.dbs.utxosDb source.1 = some address
      · rw [if_pos howner, List.filter_cons_of_pos (by simpa using howner), List.map_cons,
          SourceAmount.totalValue_cons]
      · rw [if_neg howner, List.filter_cons_of_neg (by simpa using howner), Int.zero_add]

/-! ## Adding the outputs of a transaction -/

/-- What the databases hold with one more unused output. -/
def add (s : Ledger) (utxo : UTXOV10) : Ledger :=
  { s with dbs.utxosDb := s.dbs.utxosDb.insert utxo.index utxo.content }

theorem amount?_add_of_ne (s : Ledger) {utxo : UTXOV10} {source : SourceIndexV10}
    (h : source ≠ .utxo utxo.index) : (s.add utxo).amount? source = s.amount? source := by
  cases source with
  | utxo index =>
      rw [amount?, amount?, add,
        HashMap.get?_insert_of_ne _ _ fun heq => h (congrArg SourceIndexV10.utxo heq)]
  | ud pubkey blockId => rfl

theorem get?_utxosDb_of_amount?_eq_none {index : UTXOIndexV10}
    (h : s.amount? (.utxo index) = none) : s.dbs.utxosDb.get? index = none :=
  Option.map_eq_none_iff.1 h

/-- The address of a new output gains its value. -/
theorem sourcesValue_add (s : Ledger) {utxo : UTXOV10}
    (hfresh : s.amount? (.utxo utxo.index) = none) (address : UTXOConditionsGroup) :
    (s.add utxo).sourcesValue address =
      (if utxo.getConditions = address then utxo.getAmount.value else 0) +
        s.sourcesValue address := by
  have hutxos := HashMap.sumOf_insert_of_get?_eq_none
    (fun _ output => if output.address = address then output.sourceAmount.value else 0)
    s.dbs.utxosDb utxo.content (get?_utxosDb_of_amount?_eq_none hfresh)
  have hdus : (s.add utxo).dusValue address = s.dusValue address := dusValue_congr fun _ _ => rfl
  rw [sourcesValue, sourcesValue, hdus, ← Int.add_assoc]
  exact congrArg (· + _) hutxos

theorem foldl_add_eq (s : Ledger) (utxos : List UTXOV10) :
    utxos.foldl add s = { s with
      dbs.utxosDb :=
        s.dbs.utxosDb.insertAll (utxos.map fun utxo => (utxo.index, utxo.content)) } := by
  induction utxos generalizing s with
  | nil => rfl
  | cons utxo utxos ih => exact ih (s.add utxo)

/-- The outputs that are recorded after some are added. -/
theorem get?_foldl_add (s : Ledger) {utxos : List UTXOV10}
    (hnodup : (utxos.map UTXOV10.index).Nodup)
    (hfresh : ∀ utxo ∈ utxos, s.amount? (.utxo utxo.index) = none) (index : UTXOIndexV10)
    (output : TransactionOutput) :
    (utxos.foldl add s).dbs.utxosDb.get? index = some output ↔
      ⟨index, output⟩ ∈ utxos ∨ s.dbs.utxosDb.get? index = some output := by
  have hpairwise : (utxos.map fun utxo => (utxo.index, utxo.content)).Pairwise
      fun e e' => e.1 ≠ e'.1 := by
    rw [List.Nodup, List.pairwise_map] at hnodup
    exact List.pairwise_map.2 hnodup
  rw [foldl_add_eq]
  constructor
  · intro h
    rcases HashMap.mem_of_get?_insertAll _ h with hmem | hold
    · rcases List.mem_map.1 hmem with ⟨utxo, hutxo, heq⟩
      obtain ⟨rfl, rfl⟩ := Prod.mk.inj heq
      exact Or.inl hutxo
    · exact Or.inr hold
  · rintro (hmem | hold)
    · exact HashMap.get?_insertAll_of_mem _ hpairwise
        (List.mem_map_of_mem (f := fun utxo : UTXOV10 => (utxo.index, utxo.content)) hmem)
    · refine (HashMap.get?_insertAll_of_forall_ne _ fun entry hentry heq => ?_).trans hold
      rcases List.mem_map.1 hentry with ⟨utxo, hutxo, rfl⟩
      subst heq
      rw [get?_utxosDb_of_amount?_eq_none (hfresh utxo hutxo)] at hold
      cases hold

/-- An address gains the value of its new outputs. -/
theorem sourcesValue_foldl_add (s : Ledger) {utxos : List UTXOV10}
    (hnodup : (utxos.map UTXOV10.index).Nodup)
    (hfresh : ∀ utxo ∈ utxos, s.amount? (.utxo utxo.index) = none)
    (address : UTXOConditionsGroup) :
    (utxos.foldl add s).sourcesValue address =
      s.sourcesValue address + SourceAmount.totalValue (createdAt utxos address) := by
  induction utxos generalizing s with
  | nil => exact (Int.add_zero _).symm
  | cons utxo utxos ih =>
      rw [List.map_cons, List.nodup_cons] at hnodup
      have hrest : ∀ other ∈ utxos, (s.add utxo).amount? (.utxo other.index) = none := by
        intro other hmem
        have hne : SourceIndexV10.utxo other.index ≠ .utxo utxo.index := fun heq =>
          hnodup.1 (SourceIndexV10.utxo.inj heq ▸ List.mem_map_of_mem hmem)
        rw [amount?_add_of_ne s hne]
        exact hfresh other (List.mem_cons_of_mem _ hmem)
      rw [List.foldl_cons, ih (s.add utxo) hnodup.2 hrest,
        sourcesValue_add s (hfresh utxo List.mem_cons_self)]
      by_cases howner : utxo.getConditions = address
      · rw [if_pos howner, createdAt, createdAt,
          List.filter_cons_of_pos (by simpa using howner), List.map_cons,
          SourceAmount.totalValue_cons, Int.add_comm utxo.getAmount.value, Int.add_assoc]
      · rw [if_neg howner, Int.zero_add, createdAt, createdAt,
          List.filter_cons_of_neg (by simpa using howner)]

end Ledger

end Durs
