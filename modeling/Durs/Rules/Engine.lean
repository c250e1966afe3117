/-
# The rules engine

A protocol lists groups of rules for each of its versions.  The groups are applied one after the
other: the rules of a serial group in order, each on the data that the ones before it left, and
those of a parallel group on the same data, in an order that nothing fixes.  Once a rule has failed,
the others of its parallel group may be left out.
-/

import Durs.RustStd.BTreeMap
import Mathlib.Data.Multiset.AddSub

namespace Durs.Rules

open RustStd

universe u

abbrev ProtocolVersion := Nat

abbrev RuleNumber := Nat

/-- Rules groups. -/
inductive RulesGroup
  /-- In serial. -/
  | ser (rulesNumbers : List RuleNumber)
  /-- In parallel. -/
  | par (rulesGroups : List RulesGroup)

/-- The groups of rules that are to be applied, for each version of the protocol. -/
abbrev Protocol := BTreeMap ProtocolVersion (List RulesGroup)

/-- Protocol error. -/
inductive EngineError (E : Type u)
  | ruleError (ruleNumber : RuleNumber) (cause : E)
  | protocolVersionNotExist (protocolVersion : ProtocolVersion)
  | ruleNotExist (ruleNumber : RuleNumber) (protocolVersion : ProtocolVersion)
  /-- A mutable rule in a part executed in parallel. -/
  | mutRuleInPar (ruleNumber : RuleNumber) (protocolVersion : ProtocolVersion)
  | ruleTooRecent (ruleNumber : RuleNumber) (protocolVersion : ProtocolVersion)
deriving DecidableEq, Repr

/-- Rule execution function. -/
inductive RuleFn (D E : Type u)
  | ref (run : D → Except E Unit)
  | refMut (run : D → D × Except E Unit)

/-- A rule was given no implementation. -/
structure RuleWithoutImpl where
  ruleNumber : RuleNumber
deriving DecidableEq, Repr

/-- A rule: the different versions of its execution function, of which there is one at least. -/
structure Rule (D E : Type u) where
  ruleVersions : BTreeMap ProtocolVersion (RuleFn D E)
  isEmpty_eq : ruleVersions.isEmpty = false

variable {D E : Type u}

namespace Rule

/-- Create new rule. -/
def new (ruleNumber : RuleNumber) (ruleVersions : BTreeMap ProtocolVersion (RuleFn D E)) :
    Except RuleWithoutImpl (Rule D E) :=
  match h : ruleVersions.isEmpty with
  | true => .error { ruleNumber }
  | false => .ok { ruleVersions, isEmpty_eq := h }

/-- Executes the correct version of the rule. -/
def execute (rule : Rule D E) (protocolVersion : ProtocolVersion) (ruleNumber : RuleNumber)
    (ruleDatas : D) : Except (EngineError E) Unit :=
  match rule.ruleVersions.lastUpTo protocolVersion with
  | some (_, .ref run) => (run ruleDatas).mapError (.ruleError ruleNumber)
  | some (_, .refMut _) => .error (.mutRuleInPar ruleNumber protocolVersion)
  | none => .error (.ruleTooRecent ruleNumber protocolVersion)

/-- Executes the correct version of the rule, which may change the data. -/
def executeMut (rule : Rule D E) (protocolVersion : ProtocolVersion) (ruleNumber : RuleNumber)
    (ruleDatas : D) : D × Except (EngineError E) Unit :=
  match rule.ruleVersions.lastUpTo protocolVersion with
  | some (_, .ref run) => (ruleDatas, (run ruleDatas).mapError (.ruleError ruleNumber))
  | some (_, .refMut run) =>
      ((run ruleDatas).1, (run ruleDatas).2.mapError (.ruleError ruleNumber))
  | none => (ruleDatas, .error (.ruleTooRecent ruleNumber protocolVersion))

end Rule

/-- Rules engine. -/
structure RulesEngine (D E : Type u) where
  allRules : BTreeMap RuleNumber (Rule D E)

namespace RulesEngine

variable (engine : RulesEngine D E) (protocolVersion : ProtocolVersion)

def applyRuleRef (ruleNumber : RuleNumber) (ruleDatas : D) : Except (EngineError E) Unit :=
  match engine.allRules.get? ruleNumber with
  | some rule => rule.execute protocolVersion ruleNumber ruleDatas
  | none => .error (.ruleNotExist ruleNumber protocolVersion)

def applyRuleMut (ruleNumber : RuleNumber) (ruleDatas : D) : D × Except (EngineError E) Unit :=
  match engine.allRules.get? ruleNumber with
  | some rule => rule.executeMut protocolVersion ruleNumber ruleDatas
  | none => (ruleDatas, .error (.ruleNotExist ruleNumber protocolVersion))

/-- Apply rules one after the other to data that stays the same, up to the first one that fails.
The rules that were tried come with the result. -/
def applyRulesRef (ruleDatas : D) : List RuleNumber → List RuleNumber × Except (EngineError E) Unit
  | [] => ([], .ok ())
  | ruleNumber :: rulesNumbers =>
      match engine.applyRuleRef protocolVersion ruleNumber ruleDatas with
      | .ok () =>
          let rest := applyRulesRef ruleDatas rulesNumbers
          (ruleNumber :: rest.1, rest.2)
      | .error err => ([ruleNumber], .error err)

/-- Apply rules one after the other, each to the data that the one before it left, up to the first
one that fails. -/
def applyRulesMut : List RuleNumber → D → List RuleNumber × D × Except (EngineError E) Unit
  | [], ruleDatas => ([], ruleDatas, .ok ())
  | ruleNumber :: rulesNumbers, ruleDatas =>
      match engine.applyRuleMut protocolVersion ruleNumber ruleDatas with
      | (ruleDatas, .ok ()) =>
          let rest := applyRulesMut rulesNumbers ruleDatas
          (ruleNumber :: rest.1, rest.2)
      | (ruleDatas, .error err) => ([ruleNumber], ruleDatas, .error err)

mutual

/-- How `apply_rules_group_ref` may go: the rules that are tried, and the result.  The result of a
parallel group is the error of any one of its parts that failed. -/
inductive GroupRun (ruleDatas : D) :
    RulesGroup → Multiset RuleNumber → Except (EngineError E) Unit → Prop
  | ser (rulesNumbers : List RuleNumber) :
      GroupRun ruleDatas (.ser rulesNumbers)
        (engine.applyRulesRef protocolVersion ruleDatas rulesNumbers).1
        (engine.applyRulesRef protocolVersion ruleDatas rulesNumbers).2
  | parOk {rulesGroups : List RulesGroup} {tried : Multiset RuleNumber} :
      PartsRun ruleDatas rulesGroups tried [] false →
        GroupRun ruleDatas (.par rulesGroups) tried (.ok ())
  | parError {rulesGroups : List RulesGroup} {tried : Multiset RuleNumber}
      {errs : List (EngineError E)} {skipped : Bool} {err : EngineError E} :
      PartsRun ruleDatas rulesGroups tried errs skipped → err ∈ errs →
        GroupRun ruleDatas (.par rulesGroups) tried (.error err)

/-- How the parts of a parallel group may go: the rules that are tried, the errors, and whether a
part was left out. -/
inductive PartsRun (ruleDatas : D) :
    List RulesGroup → Multiset RuleNumber → List (EngineError E) → Bool → Prop
  | nil : PartsRun ruleDatas [] 0 [] false
  | ok {part : RulesGroup} {parts : List RulesGroup} {tried tried' : Multiset RuleNumber}
      {errs : List (EngineError E)} {skipped : Bool} :
      GroupRun ruleDatas part tried (.ok ()) → PartsRun ruleDatas parts tried' errs skipped →
        PartsRun ruleDatas (part :: parts) (tried + tried') errs skipped
  | error {part : RulesGroup} {parts : List RulesGroup} {tried tried' : Multiset RuleNumber}
      {err : EngineError E} {errs : List (EngineError E)} {skipped : Bool} :
      GroupRun ruleDatas part tried (.error err) → PartsRun ruleDatas parts tried' errs skipped →
        PartsRun ruleDatas (part :: parts) (tried + tried') (err :: errs) skipped
  | skip {part : RulesGroup} {parts : List RulesGroup} {tried : Multiset RuleNumber}
      {errs : List (EngineError E)} {skipped : Bool} :
      PartsRun ruleDatas parts tried errs skipped →
        PartsRun ruleDatas (part :: parts) tried errs true

end

/-- How a group of the protocol may be applied: the rules that are tried, the data that is left, and
the result. -/
inductive TopGroupRun (ruleDatas : D) :
    RulesGroup → Multiset RuleNumber → D → Except (EngineError E) Unit → Prop
  | ser (rulesNumbers : List RuleNumber) :
      TopGroupRun ruleDatas (.ser rulesNumbers)
        (engine.applyRulesMut protocolVersion rulesNumbers ruleDatas).1
        (engine.applyRulesMut protocolVersion rulesNumbers ruleDatas).2.1
        (engine.applyRulesMut protocolVersion rulesNumbers ruleDatas).2.2
  | par {rulesGroups : List RulesGroup} {tried : Multiset RuleNumber}
      {result : Except (EngineError E) Unit} :
      GroupRun engine protocolVersion ruleDatas (.par rulesGroups) tried result →
        TopGroupRun ruleDatas (.par rulesGroups) tried ruleDatas result

/-- How the groups of the protocol may be applied, up to the first one that fails: the rules that
are tried in each group that is reached, the data that is left, and the result. -/
inductive GroupsRun :
    D → List RulesGroup → List (Multiset RuleNumber) → D → Except (EngineError E) Unit → Prop
  | nil (ruleDatas : D) : GroupsRun ruleDatas [] [] ruleDatas (.ok ())
  | ok {ruleDatas mid left : D} {group : RulesGroup} {groups : List RulesGroup}
      {tried : Multiset RuleNumber} {reached : List (Multiset RuleNumber)}
      {result : Except (EngineError E) Unit} :
      TopGroupRun engine protocolVersion ruleDatas group tried mid (.ok ()) →
        GroupsRun mid groups reached left result →
          GroupsRun ruleDatas (group :: groups) (tried :: reached) left result
  | error {ruleDatas left : D} {group : RulesGroup} {groups : List RulesGroup}
      {tried : Multiset RuleNumber} {err : EngineError E} :
      TopGroupRun engine protocolVersion ruleDatas group tried left (.error err) →
        GroupsRun ruleDatas (group :: groups) [tried] left (.error err)

/-- How a specific version of the protocol may be applied. -/
inductive ApplyProtocol (protocol : Protocol) (ruleDatas : D) :
    List (Multiset RuleNumber) → D → Except (EngineError E) Unit → Prop
  | known {groups : List RulesGroup} {reached : List (Multiset RuleNumber)} {left : D}
      {result : Except (EngineError E) Unit} :
      protocol.get? protocolVersion = some groups →
        GroupsRun engine protocolVersion ruleDatas groups reached left result →
          ApplyProtocol protocol ruleDatas reached left result
  | unknown : protocol.get? protocolVersion = none →
      ApplyProtocol protocol ruleDatas [] ruleDatas
        (.error (.protocolVersionNotExist protocolVersion))

end RulesEngine

end Durs.Rules
