/-
# What applying a protocol means

The rules that the groups of a protocol list, each occurrence serial or parallel, are read as one
sequence.  Applying the protocol succeeds when each occurrence passes on the data that the serial
ones before it leave, and otherwise ends with the data up to the first occurrence that does not
pass, whatever order the rules of the parallel groups are tried in.
-/

import Durs.Rules.Engine
import Mathlib.Algebra.Order.Group.Multiset

namespace Durs.Rules

universe u

variable {D E : Type u}

/-! ## The rules that are listed -/

/-- A rule in the place where a protocol lists it. -/
inductive Occurrence
  | serial (ruleNumber : RuleNumber)
  | parallel (ruleNumber : RuleNumber)
deriving DecidableEq, Repr

mutual

/-- The rules of a group, at any depth. -/
def RulesGroup.rules : RulesGroup → List RuleNumber
  | .ser rulesNumbers => rulesNumbers
  | .par rulesGroups => rulesOfParts rulesGroups

/-- The rules of the parts of a parallel group. -/
def rulesOfParts : List RulesGroup → List RuleNumber
  | [] => []
  | part :: parts => part.rules ++ rulesOfParts parts

end

/-- The occurrences of a group of the protocol: only a top-level serial group is serial. -/
def RulesGroup.occurrences : RulesGroup → List Occurrence
  | .ser rulesNumbers => rulesNumbers.map .serial
  | .par rulesGroups => (rulesOfParts rulesGroups).map .parallel

/-- The occurrences of the groups of a protocol. -/
def listed (groups : List RulesGroup) : List Occurrence := groups.flatMap RulesGroup.occurrences

namespace RuleFn

/-- The result of an implementation. -/
def result : RuleFn D E → D → Except E Unit
  | .ref run, ruleDatas => run ruleDatas
  | .refMut run, ruleDatas => (run ruleDatas).2

/-- The data that an implementation leaves. -/
def after : RuleFn D E → D → D
  | .ref _, ruleDatas => ruleDatas
  | .refMut run, ruleDatas => (run ruleDatas).1

end RuleFn

namespace RulesEngine

variable (engine : RulesEngine D E) (protocolVersion : ProtocolVersion)

/-- The implementation of a rule with the greatest version up to that of the protocol. -/
def Implements (ruleNumber : RuleNumber) (ruleFn : RuleFn D E) : Prop :=
  ∃ rule version, engine.allRules.get? ruleNumber = some rule ∧
    (version, ruleFn) ∈ rule.ruleVersions.entries ∧ version ≤ protocolVersion ∧
      ∀ other ∈ rule.ruleVersions.entries, other.1 ≤ protocolVersion → other.1 ≤ version

/-- Whether an occurrence passes: the rule exists and has an implementation, which succeeds, and
which is read-only in a parallel group. -/
def Passes : Occurrence → D → Prop
  | .serial ruleNumber, ruleDatas =>
      ∃ ruleFn, engine.Implements protocolVersion ruleNumber ruleFn ∧ ruleFn.result ruleDatas = .ok ()
  | .parallel ruleNumber, ruleDatas =>
      ∃ run, engine.Implements protocolVersion ruleNumber (.ref run) ∧ run ruleDatas = .ok ()

/-- The data that an occurrence leaves. -/
def after : Occurrence → D → D
  | .serial ruleNumber, ruleDatas => (engine.applyRuleMut protocolVersion ruleNumber ruleDatas).1
  | .parallel _, ruleDatas => ruleDatas

/-- The data that a sequence of occurrences leaves. -/
def dataAfter (ruleDatas : D) (occurrences : List Occurrence) : D :=
  occurrences.foldl (fun ruleDatas occurrence => engine.after protocolVersion occurrence ruleDatas)
    ruleDatas

/-- Whether each occurrence passes on the data that the ones before it leave. -/
def AllPass : D → List Occurrence → Prop
  | _, [] => True
  | ruleDatas, occurrence :: occurrences =>
      engine.Passes protocolVersion occurrence ruleDatas ∧
        AllPass (engine.after protocolVersion occurrence ruleDatas) occurrences

/-- The data that is left up to the first occurrence that does not pass. -/
def FailsLeaving (ruleDatas : D) (occurrences : List Occurrence) (left : D) : Prop :=
  ∃ before occurrence rest, occurrences = before ++ occurrence :: rest ∧
    engine.AllPass protocolVersion ruleDatas before ∧
      ¬engine.Passes protocolVersion occurrence (engine.dataAfter protocolVersion ruleDatas before) ∧
        left = engine.dataAfter protocolVersion ruleDatas (before ++ [occurrence])

/-- How applying groups ends: with all of them when each occurrence passes, and otherwise with the
group of the first occurrence that does not, none of a later group having been tried. -/
structure Ends (ruleDatas : D) (groups : List RulesGroup) (reached : List (Multiset RuleNumber))
    (left : D) (result : Except (EngineError E) Unit) : Prop where
  ok_iff : result = .ok () ↔ engine.AllPass protocolVersion ruleDatas (listed groups)
  left_of_ok : result = .ok () →
    left = engine.dataAfter protocolVersion ruleDatas (listed groups) ∧
      reached.length = groups.length
  left_of_error : result ≠ .ok () → ∃ before group rest, groups = before ++ group :: rest ∧
    engine.AllPass protocolVersion ruleDatas (listed before) ∧
      engine.FailsLeaving protocolVersion
        (engine.dataAfter protocolVersion ruleDatas (listed before)) group.occurrences left ∧
      reached.length = before.length + 1
  tried_le : List.Forall₂ (fun tried group => tried ≤ (group.rules : Multiset RuleNumber)) reached
    (groups.take reached.length)

/-! ## One rule -/

variable {engine protocolVersion} {ruleNumber : RuleNumber} {ruleDatas : D}

/-- The implementation of a rule is the one that is looked up. -/
theorem implements_iff {ruleFn : RuleFn D E} :
    engine.Implements protocolVersion ruleNumber ruleFn ↔
      ∃ rule version, engine.allRules.get? ruleNumber = some rule ∧
        rule.ruleVersions.lastUpTo protocolVersion = some (version, ruleFn) := by
  simp only [Implements, RustStd.BTreeMap.lastUpTo_eq_some_iff]

theorem mapError_eq_ok_iff {ε ε' : Type u} {x : Except ε Unit} {f : ε → ε'} :
    x.mapError f = .ok () ↔ x = .ok () := by
  cases x with
  | error err => simp [Except.mapError]
  | ok value => exact iff_of_true rfl rfl

theorem applyRuleRef_eq_ok_iff (engine : RulesEngine D E) (protocolVersion : ProtocolVersion)
    (ruleNumber : RuleNumber) (ruleDatas : D) :
    engine.applyRuleRef protocolVersion ruleNumber ruleDatas = .ok () ↔
      engine.Passes protocolVersion (.parallel ruleNumber) ruleDatas := by
  simp only [Passes, implements_iff, applyRuleRef, Rule.execute]
  cases hrule : engine.allRules.get? ruleNumber with
  | none => simp
  | some rule =>
      cases hlast : rule.ruleVersions.lastUpTo protocolVersion with
      | none => simp [hlast]
      | some entry =>
          obtain ⟨version, ruleFn⟩ := entry
          cases ruleFn with
          | ref run => simp [hlast, mapError_eq_ok_iff]
          | refMut run => simp [hlast]

theorem applyRuleMut_eq_ok_iff (engine : RulesEngine D E) (protocolVersion : ProtocolVersion)
    (ruleNumber : RuleNumber) (ruleDatas : D) :
    (engine.applyRuleMut protocolVersion ruleNumber ruleDatas).2 = .ok () ↔
      engine.Passes protocolVersion (.serial ruleNumber) ruleDatas := by
  simp only [Passes, implements_iff, applyRuleMut, Rule.executeMut]
  cases hrule : engine.allRules.get? ruleNumber with
  | none => simp
  | some rule =>
      cases hlast : rule.ruleVersions.lastUpTo protocolVersion with
      | none => simp [hlast]
      | some entry =>
          obtain ⟨version, ruleFn⟩ := entry
          cases ruleFn with
          | ref run => simp [hlast, mapError_eq_ok_iff, RuleFn.result]
          | refMut run => simp [hlast, mapError_eq_ok_iff, RuleFn.result]

/-- A serial occurrence leaves the data that the implementation leaves. -/
theorem after_serial {ruleFn : RuleFn D E}
    (h : engine.Implements protocolVersion ruleNumber ruleFn) (ruleDatas : D) :
    engine.after protocolVersion (.serial ruleNumber) ruleDatas = ruleFn.after ruleDatas := by
  obtain ⟨rule, version, hrule, hlast⟩ := implements_iff.1 h
  simp only [after, applyRuleMut, hrule, Rule.executeMut, hlast]
  cases ruleFn with
  | ref run => rfl
  | refMut run => rfl

/-! ## Sequences of occurrences -/

section

variable {occurrences occurrences' : List Occurrence} {left : D}

theorem dataAfter_append : engine.dataAfter protocolVersion ruleDatas (occurrences ++ occurrences') =
    engine.dataAfter protocolVersion (engine.dataAfter protocolVersion ruleDatas occurrences)
      occurrences' :=
  List.foldl_append

theorem allPass_append :
    engine.AllPass protocolVersion ruleDatas (occurrences ++ occurrences') ↔
      engine.AllPass protocolVersion ruleDatas occurrences ∧
        engine.AllPass protocolVersion
          (engine.dataAfter protocolVersion ruleDatas occurrences) occurrences' := by
  induction occurrences generalizing ruleDatas with
  | nil => exact (iff_of_eq (true_and _)).symm
  | cons occurrence occurrences ih =>
      rw [List.cons_append, AllPass, AllPass, ih, and_assoc]
      rfl

/-- Once an occurrence fails, not all pass. -/
theorem FailsLeaving.not_allPass
    (h : engine.FailsLeaving protocolVersion ruleDatas occurrences left) :
    ¬engine.AllPass protocolVersion ruleDatas occurrences := by
  obtain ⟨before, occurrence, rest, rfl, -, hfails, -⟩ := h
  rw [allPass_append]
  exact fun hpass => hfails hpass.2.1

theorem FailsLeaving.cons {occurrence : Occurrence}
    (hpass : engine.Passes protocolVersion occurrence ruleDatas)
    (h : engine.FailsLeaving protocolVersion
      (engine.after protocolVersion occurrence ruleDatas) occurrences left) :
    engine.FailsLeaving protocolVersion ruleDatas (occurrence :: occurrences) left := by
  obtain ⟨before, failing, rest, rfl, hbefore, hfails, rfl⟩ := h
  exact ⟨occurrence :: before, failing, rest, rfl, ⟨hpass, hbefore⟩, hfails, rfl⟩

theorem failsLeaving_head {occurrence : Occurrence}
    (hfails : ¬engine.Passes protocolVersion occurrence ruleDatas) :
    engine.FailsLeaving protocolVersion ruleDatas (occurrence :: occurrences)
      (engine.after protocolVersion occurrence ruleDatas) :=
  ⟨[], occurrence, occurrences, rfl, trivial, hfails, rfl⟩

variable {rulesNumbers : List RuleNumber}

/-- Parallel occurrences leave the data as it is. -/
theorem dataAfter_parallel :
    engine.dataAfter protocolVersion ruleDatas (rulesNumbers.map .parallel) = ruleDatas := by
  induction rulesNumbers with
  | nil => rfl
  | cons ruleNumber rulesNumbers ih => exact ih

/-- Whether all of the rules of a parallel group pass. -/
theorem allPass_parallel :
    engine.AllPass protocolVersion ruleDatas (rulesNumbers.map .parallel) ↔
      ∀ ruleNumber ∈ rulesNumbers, engine.Passes protocolVersion (.parallel ruleNumber) ruleDatas := by
  induction rulesNumbers with
  | nil => simp [AllPass]
  | cons ruleNumber rulesNumbers ih => simp [AllPass, after, ih]

/-- When some rule of a parallel group fails, the data is left as it is. -/
theorem failsLeaving_parallel
    (h : ¬engine.AllPass protocolVersion ruleDatas (rulesNumbers.map .parallel)) :
    engine.FailsLeaving protocolVersion ruleDatas (rulesNumbers.map .parallel) ruleDatas := by
  induction rulesNumbers with
  | nil => exact absurd trivial h
  | cons ruleNumber rulesNumbers ih =>
      rw [List.map_cons, AllPass, not_and] at h
      by_cases hpass : engine.Passes protocolVersion (.parallel ruleNumber) ruleDatas
      · exact .cons hpass (ih (h hpass))
      · exact failsLeaving_head hpass

end

/-! ## Serial groups -/

theorem applyRulesMut_cons_ok {mid : D} (rulesNumbers : List RuleNumber)
    (h : engine.applyRuleMut protocolVersion ruleNumber ruleDatas = (mid, .ok ())) :
    engine.applyRulesMut protocolVersion (ruleNumber :: rulesNumbers) ruleDatas =
      (ruleNumber :: (engine.applyRulesMut protocolVersion rulesNumbers mid).1,
        (engine.applyRulesMut protocolVersion rulesNumbers mid).2) := by
  rw [applyRulesMut, h]

theorem applyRulesMut_cons_error {mid : D} {err : EngineError E} (rulesNumbers : List RuleNumber)
    (h : engine.applyRuleMut protocolVersion ruleNumber ruleDatas = (mid, .error err)) :
    engine.applyRulesMut protocolVersion (ruleNumber :: rulesNumbers) ruleDatas =
      ([ruleNumber], mid, .error err) := by
  rw [applyRulesMut, h]

/-- What a serial group of the protocol tries and leaves. -/
theorem applyRulesMut_spec {rulesNumbers tried : List RuleNumber} {left : D}
    {result : Except (EngineError E) Unit}
    (h : engine.applyRulesMut protocolVersion rulesNumbers ruleDatas = (tried, left, result)) :
    tried.Sublist rulesNumbers ∧
      ((result = .ok () ∧ engine.AllPass protocolVersion ruleDatas (rulesNumbers.map .serial) ∧
          left = engine.dataAfter protocolVersion ruleDatas (rulesNumbers.map .serial)) ∨
        (result ≠ .ok () ∧
          engine.FailsLeaving protocolVersion ruleDatas (rulesNumbers.map .serial) left)) := by
  induction rulesNumbers generalizing ruleDatas tried with
  | nil =>
      cases h
      exact ⟨List.Sublist.refl [], Or.inl ⟨rfl, trivial, rfl⟩⟩
  | cons ruleNumber rulesNumbers ih =>
      have hpasses := applyRuleMut_eq_ok_iff engine protocolVersion ruleNumber ruleDatas
      rcases happly : engine.applyRuleMut protocolVersion ruleNumber ruleDatas with ⟨mid, err | value⟩
      · have hfails : ¬engine.Passes protocolVersion (.serial ruleNumber) ruleDatas := by
          rw [← hpasses, happly]
          exact fun heq => by cases heq
        have hmid : mid = engine.after protocolVersion (.serial ruleNumber) ruleDatas :=
          (congrArg Prod.fst happly).symm
        rw [applyRulesMut_cons_error rulesNumbers happly] at h
        cases h
        exact ⟨List.singleton_sublist.2 List.mem_cons_self,
          Or.inr ⟨fun heq => (by cases heq), hmid ▸ failsLeaving_head hfails⟩⟩
      · have hpass : engine.Passes protocolVersion (.serial ruleNumber) ruleDatas := by
          rw [← hpasses, happly]
        have hmid : mid = engine.after protocolVersion (.serial ruleNumber) ruleDatas :=
          (congrArg Prod.fst happly).symm
        rw [applyRulesMut_cons_ok rulesNumbers happly] at h
        obtain ⟨rfl, hrun⟩ := Prod.mk.inj h
        obtain ⟨hsub, hrest⟩ := ih (Prod.ext rfl hrun)
        refine ⟨hsub.cons_cons ruleNumber, ?_⟩
        rw [hmid] at hrest
        rcases hrest with ⟨hok, hall, hleft⟩ | ⟨herr, hleaving⟩
        · exact Or.inl ⟨hok, ⟨hpass, hall⟩, hleft⟩
        · exact Or.inr ⟨herr, hleaving.cons hpass⟩

/-! ## Parallel groups -/

theorem applyRulesRef_cons_ok (rulesNumbers : List RuleNumber)
    (h : engine.applyRuleRef protocolVersion ruleNumber ruleDatas = .ok ()) :
    engine.applyRulesRef protocolVersion ruleDatas (ruleNumber :: rulesNumbers) =
      (ruleNumber :: (engine.applyRulesRef protocolVersion ruleDatas rulesNumbers).1,
        (engine.applyRulesRef protocolVersion ruleDatas rulesNumbers).2) := by
  rw [applyRulesRef, h]

theorem applyRulesRef_cons_error {err : EngineError E} (rulesNumbers : List RuleNumber)
    (h : engine.applyRuleRef protocolVersion ruleNumber ruleDatas = .error err) :
    engine.applyRulesRef protocolVersion ruleDatas (ruleNumber :: rulesNumbers) =
      ([ruleNumber], .error err) := by
  rw [applyRulesRef, h]

/-- What a serial group within a parallel one tries, and when it succeeds. -/
theorem applyRulesRef_spec {rulesNumbers tried : List RuleNumber}
    {result : Except (EngineError E) Unit}
    (h : engine.applyRulesRef protocolVersion ruleDatas rulesNumbers = (tried, result)) :
    tried.Sublist rulesNumbers ∧ (result = .ok () ↔
      ∀ ruleNumber ∈ rulesNumbers,
        engine.Passes protocolVersion (.parallel ruleNumber) ruleDatas) := by
  induction rulesNumbers generalizing tried with
  | nil =>
      cases h
      exact ⟨List.Sublist.refl [], iff_of_true rfl (List.forall_mem_nil _)⟩
  | cons ruleNumber rulesNumbers ih =>
      have hpasses := applyRuleRef_eq_ok_iff engine protocolVersion ruleNumber ruleDatas
      rw [List.forall_mem_cons, ← hpasses]
      rcases happly : engine.applyRuleRef protocolVersion ruleNumber ruleDatas with err | value
      · rw [applyRulesRef_cons_error rulesNumbers happly] at h
        cases h
        exact ⟨List.singleton_sublist.2 List.mem_cons_self,
          iff_of_false (fun heq => by cases heq) (fun hall => by cases hall.1)⟩
      · rw [applyRulesRef_cons_ok rulesNumbers happly] at h
        cases h
        obtain ⟨hsub, hiff⟩ := ih rfl
        exact ⟨hsub.cons_cons ruleNumber, hiff.trans (and_iff_right rfl).symm⟩

mutual

/-- However a group goes, it tries no other rules and succeeds exactly when all of its rules pass. -/
theorem GroupRun.spec {group : RulesGroup} {tried : Multiset RuleNumber}
    {result : Except (EngineError E) Unit}
    (h : GroupRun engine protocolVersion ruleDatas group tried result) :
    tried ≤ (group.rules : Multiset RuleNumber) ∧ (result = .ok () ↔
      ∀ ruleNumber ∈ group.rules,
        engine.Passes protocolVersion (.parallel ruleNumber) ruleDatas) := by
  cases h with
  | ser rulesNumbers =>
      obtain ⟨hsub, hiff⟩ := applyRulesRef_spec (rfl :
        engine.applyRulesRef protocolVersion ruleDatas rulesNumbers = (_, _))
      exact ⟨Multiset.coe_le.2 hsub.subperm, hiff⟩
  | parOk hparts =>
      obtain ⟨htried, hall, -⟩ := hparts.spec
      exact ⟨htried, iff_of_true rfl (hall rfl rfl)⟩
  | parError hparts hmem =>
      obtain ⟨htried, -, hfails⟩ := hparts.spec
      exact ⟨htried, iff_of_false (fun heq => by cases heq) (hfails (List.ne_nil_of_mem hmem))⟩

/-- However the parts of a group go, all of their rules pass when there is no error and none is left
out, and not all pass when there is an error. -/
theorem PartsRun.spec {parts : List RulesGroup} {tried : Multiset RuleNumber}
    {errs : List (EngineError E)} {skipped : Bool}
    (h : PartsRun engine protocolVersion ruleDatas parts tried errs skipped) :
    tried ≤ (rulesOfParts parts : Multiset RuleNumber) ∧
      (errs = [] → skipped = false → ∀ ruleNumber ∈ rulesOfParts parts,
        engine.Passes protocolVersion (.parallel ruleNumber) ruleDatas) ∧
      (errs ≠ [] → ¬∀ ruleNumber ∈ rulesOfParts parts,
        engine.Passes protocolVersion (.parallel ruleNumber) ruleDatas) := by
  cases h with
  | nil => exact ⟨le_refl _, fun _ _ => List.forall_mem_nil _, fun hne => absurd rfl hne⟩
  | ok hpart hparts =>
      obtain ⟨htried, hiff⟩ := hpart.spec
      obtain ⟨htried', hall, hfails⟩ := hparts.spec
      rw [rulesOfParts, ← Multiset.coe_add, List.forall_mem_append]
      exact ⟨add_le_add htried htried', fun hnil hskip => ⟨hiff.1 rfl, hall hnil hskip⟩,
        fun hne hboth => hfails hne hboth.2⟩
  | error hpart hparts =>
      obtain ⟨htried, hiff⟩ := hpart.spec
      obtain ⟨htried', -, -⟩ := hparts.spec
      rw [rulesOfParts, ← Multiset.coe_add, List.forall_mem_append]
      exact ⟨add_le_add htried htried', fun hnil => (by cases hnil),
        fun _ hboth => by cases hiff.2 hboth.1⟩
  | skip hparts =>
      obtain ⟨htried, -, hfails⟩ := hparts.spec
      rw [rulesOfParts, ← Multiset.coe_add, List.forall_mem_append]
      exact ⟨htried.trans (Multiset.le_add_left _ _), fun _ hskip => (by cases hskip),
        fun hne hboth => hfails hne hboth.2⟩

end

/-! ## The groups of a protocol -/

/-- What a group of the protocol tries and leaves. -/
theorem TopGroupRun.spec {group : RulesGroup} {tried : Multiset RuleNumber} {left : D}
    {result : Except (EngineError E) Unit}
    (h : TopGroupRun engine protocolVersion ruleDatas group tried left result) :
    tried ≤ (group.rules : Multiset RuleNumber) ∧
      ((result = .ok () ∧ engine.AllPass protocolVersion ruleDatas group.occurrences ∧
          left = engine.dataAfter protocolVersion ruleDatas group.occurrences) ∨
        (result ≠ .ok () ∧
          engine.FailsLeaving protocolVersion ruleDatas group.occurrences left)) := by
  cases h with
  | ser rulesNumbers =>
      obtain ⟨hsub, hends⟩ := applyRulesMut_spec (rfl :
        engine.applyRulesMut protocolVersion rulesNumbers ruleDatas = (_, _, _))
      exact ⟨Multiset.coe_le.2 hsub.subperm, hends⟩
  | par hrun =>
      obtain ⟨htried, hiff⟩ := hrun.spec
      rw [RulesGroup.rules, ← allPass_parallel] at hiff
      refine ⟨htried, ?_⟩
      by_cases hok : result = .ok ()
      · exact Or.inl ⟨hok, hiff.1 hok, dataAfter_parallel.symm⟩
      · exact Or.inr ⟨hok, failsLeaving_parallel (mt hiff.2 hok)⟩

/-- Applying groups ends with the first one that fails. -/
theorem GroupsRun.ends {groups : List RulesGroup} {reached : List (Multiset RuleNumber)} {left : D}
    {result : Except (EngineError E) Unit}
    (h : GroupsRun engine protocolVersion ruleDatas groups reached left result) :
    engine.Ends protocolVersion ruleDatas groups reached left result := by
  induction h with
  | nil ruleDatas =>
      exact ⟨iff_of_true rfl trivial, fun _ => ⟨rfl, rfl⟩, fun hne => absurd rfl hne, .nil⟩
  | @ok ruleDatas mid left group groups tried reached result hgroup hgroups ih =>
      obtain ⟨htried, ⟨-, hpass, rfl⟩ | ⟨herr, -⟩⟩ := hgroup.spec
      case inr => exact absurd rfl herr
      have hlisted : listed (group :: groups) = group.occurrences ++ listed groups := rfl
      refine ⟨?_, ?_, ?_, .cons htried ih.tried_le⟩
      · rw [hlisted, allPass_append, ih.ok_iff]
        exact (and_iff_right hpass).symm
      · intro hok
        obtain ⟨hleft, hlength⟩ := ih.left_of_ok hok
        exact ⟨by rw [hlisted, dataAfter_append, hleft],
          by rw [List.length_cons, List.length_cons, hlength]⟩
      · intro herr
        obtain ⟨before, failing, rest, rfl, hbefore, hfails, hlength⟩ := ih.left_of_error herr
        have hlisted' : listed (group :: before) = group.occurrences ++ listed before := rfl
        refine ⟨group :: before, failing, rest, rfl, ?_, ?_, by
          rw [List.length_cons, List.length_cons, hlength]⟩
        · rw [hlisted', allPass_append]
          exact ⟨hpass, hbefore⟩
        · rw [hlisted', dataAfter_append]
          exact hfails
  | @error ruleDatas left group groups tried err hgroup =>
      obtain ⟨htried, ⟨hok, -⟩ | ⟨herr, hfails⟩⟩ := hgroup.spec
      case inl => cases hok
      refine ⟨iff_of_false herr ?_, fun hok => absurd hok herr,
        fun _ => ⟨[], group, groups, rfl, trivial, hfails, rfl⟩, .cons htried .nil⟩
      have hlisted : listed (group :: groups) = group.occurrences ++ listed groups := rfl
      rw [hlisted, allPass_append]
      exact fun hpass => hfails.not_allPass hpass.1

/-! ## Some way to go -/

theorem PartsRun.exists_skip (engine : RulesEngine D E) (protocolVersion : ProtocolVersion)
    (ruleDatas : D) (parts : List RulesGroup) :
    ∃ skipped, PartsRun engine protocolVersion ruleDatas parts 0 [] skipped := by
  induction parts with
  | nil => exact ⟨false, .nil⟩
  | cons part parts ih =>
      obtain ⟨skipped, hparts⟩ := ih
      exact ⟨true, .skip hparts⟩

mutual

/-- A group can always be applied, for instance its parts in order up to the first error. -/
theorem GroupRun.total (engine : RulesEngine D E) (protocolVersion : ProtocolVersion)
    (ruleDatas : D) : ∀ group : RulesGroup,
    ∃ tried result, GroupRun engine protocolVersion ruleDatas group tried result
  | .ser rulesNumbers => ⟨_, _, .ser rulesNumbers⟩
  | .par rulesGroups => by
      obtain ⟨tried, errs, skipped, hparts, hends⟩ :=
        PartsRun.total engine protocolVersion ruleDatas rulesGroups
      rcases hends with ⟨rfl, rfl⟩ | hne
      · exact ⟨tried, .ok (), .parOk hparts⟩
      · obtain ⟨err, hmem⟩ := List.exists_mem_of_ne_nil errs hne
        exact ⟨tried, .error err, .parError hparts hmem⟩

theorem PartsRun.total (engine : RulesEngine D E) (protocolVersion : ProtocolVersion)
    (ruleDatas : D) : ∀ parts : List RulesGroup,
    ∃ tried errs skipped, PartsRun engine protocolVersion ruleDatas parts tried errs skipped ∧
      ((errs = [] ∧ skipped = false) ∨ errs ≠ [])
  | [] => ⟨0, [], false, .nil, Or.inl ⟨rfl, rfl⟩⟩
  | part :: parts => by
      obtain ⟨tried, result, hpart⟩ := GroupRun.total engine protocolVersion ruleDatas part
      cases result with
      | error err =>
          obtain ⟨skipped, hskip⟩ :=
            PartsRun.exists_skip engine protocolVersion ruleDatas parts
          exact ⟨_, _, _, .error hpart hskip, Or.inr (List.cons_ne_nil err [])⟩
      | ok value =>
          obtain ⟨tried', errs, skipped, hparts, hends⟩ :=
            PartsRun.total engine protocolVersion ruleDatas parts
          exact ⟨_, errs, skipped, .ok hpart hparts, hends⟩

end

theorem TopGroupRun.total (engine : RulesEngine D E) (protocolVersion : ProtocolVersion)
    (ruleDatas : D) (group : RulesGroup) :
    ∃ tried left result, TopGroupRun engine protocolVersion ruleDatas group tried left result := by
  cases group with
  | ser rulesNumbers => exact ⟨_, _, _, .ser rulesNumbers⟩
  | par rulesGroups =>
      obtain ⟨tried, result, hrun⟩ :=
        GroupRun.total engine protocolVersion ruleDatas (.par rulesGroups)
      exact ⟨tried, ruleDatas, result, .par hrun⟩

theorem GroupsRun.total (engine : RulesEngine D E) (protocolVersion : ProtocolVersion)
    (ruleDatas : D) (groups : List RulesGroup) :
    ∃ reached left result,
      GroupsRun engine protocolVersion ruleDatas groups reached left result := by
  induction groups generalizing ruleDatas with
  | nil => exact ⟨[], ruleDatas, .ok (), .nil ruleDatas⟩
  | cons group groups ih =>
      obtain ⟨tried, mid, result, hgroup⟩ :=
        TopGroupRun.total engine protocolVersion ruleDatas group
      cases result with
      | error err => exact ⟨[tried], mid, .error err, .error hgroup⟩
      | ok value =>
          obtain ⟨reached, left, result, hgroups⟩ := ih mid
          exact ⟨tried :: reached, left, result, .ok hgroup hgroups⟩

end RulesEngine

end Durs.Rules
