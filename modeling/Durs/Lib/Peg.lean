/-
# Parsing expressions

Parsing expression grammars as combinators.  An expression reads a prefix of its input and records
the rules matched there; it carries the language of the texts that it can match, with what it
records for them.
-/

import Mathlib.Logic.Basic
import Mathlib.Data.List.Basic

namespace Lib.Peg

variable {R : Type}

/-- A matched rule with its text and the rules matched within. -/
inductive Pair (R : Type)
  | node (rule : R) (text : List Char) (inner : List (Pair R))
deriving Repr

namespace Pair

/-- The rule. -/
def rule : Pair R → R
  | node rule _ _ => rule

/-- The text matched by the rule. -/
def text : Pair R → List Char
  | node _ text _ => text

/-- The rules matched within. -/
def inner : Pair R → List (Pair R)
  | node _ _ inner => inner

@[simp] theorem rule_node (rule : R) (text : List Char) (inner : List (Pair R)) :
    (node rule text inner).rule = rule := rfl

@[simp] theorem text_node (rule : R) (text : List Char) (inner : List (Pair R)) :
    (node rule text inner).text = text := rfl

@[simp] theorem inner_node (rule : R) (text : List Char) (inner : List (Pair R)) :
    (node rule text inner).inner = inner := rfl

/-- A rule that records nothing within. -/
abbrev leaf (rule : R) (text : List Char) : Pair R := node rule text []

section

variable [DecidableEq R]

mutual

/-- Whether two pairs are equal. -/
def beq : Pair R → Pair R → Bool
  | node rule text inner, node rule' text' inner' =>
      rule = rule' && text = text' && beqAll inner inner'

/-- Whether two lists of pairs are equal. -/
def beqAll : List (Pair R) → List (Pair R) → Bool
  | [], [] => true
  | pair :: pairs, pair' :: pairs' => beq pair pair' && beqAll pairs pairs'
  | _, _ => false

end

mutual

theorem beq_iff : ∀ pair pair' : Pair R, beq pair pair' = true ↔ pair = pair'
  | node rule text inner, node rule' text' inner' => by
      simp only [beq, Bool.and_eq_true, decide_eq_true_eq, beqAll_iff inner inner', node.injEq,
        and_assoc]

theorem beqAll_iff : ∀ pairs pairs' : List (Pair R), beqAll pairs pairs' = true ↔ pairs = pairs'
  | [], [] => by simp only [beqAll]
  | [], _ :: _ => by simp only [beqAll, Bool.false_eq_true, reduceCtorEq]
  | _ :: _, [] => by simp only [beqAll, Bool.false_eq_true, reduceCtorEq]
  | pair :: pairs, pair' :: pairs' => by
      simp only [beqAll, Bool.and_eq_true, beq_iff pair pair', beqAll_iff pairs pairs',
        List.cons.injEq]

end

instance : DecidableEq (Pair R) := fun pair pair' => decidable_of_iff _ (beq_iff pair pair')

end

mutual

/-- Whether a property of rules and their texts holds of a pair and of all those within. -/
def all (p : R → List Char → Bool) : Pair R → Bool
  | node rule text inner => p rule text && allWithin p inner

/-- Whether a property of rules and their texts holds of some pairs and of all those within. -/
def allWithin (p : R → List Char → Bool) : List (Pair R) → Bool
  | [] => true
  | pair :: pairs => all p pair && allWithin p pairs

end

theorem allWithin_iff {p : R → List Char → Bool} {pairs : List (Pair R)} :
    allWithin p pairs = true ↔ ∀ pair ∈ pairs, pair.all p = true := by
  induction pairs with
  | nil => exact iff_of_true rfl (List.forall_mem_nil _)
  | cons pair pairs ih => rw [allWithin, Bool.and_eq_true, ih, List.forall_mem_cons]

theorem all_node_iff {p : R → List Char → Bool} {rule : R} {text : List Char}
    {inner : List (Pair R)} : (node rule text inner).all p = true ↔
      p rule text = true ∧ ∀ pair ∈ inner, pair.all p = true := by
  rw [all, Bool.and_eq_true, allWithin_iff]

end Pair

/-- What an expression has matched: the text, the rules recorded for it, and the input left. -/
structure Match (R : Type) where
  text : List Char
  pairs : List (Pair R)
  rest : List Char

/-- Nothing has been matched. -/
def Match.none (cs : List Char) : Match R := ⟨[], [], cs⟩

/-- One match after another. -/
def Match.append (m m' : Match R) : Match R := ⟨m.text ++ m'.text, m.pairs ++ m'.pairs, m'.rest⟩

/-- The texts of a language, with what is recorded for each. -/
abbrev Language (R : Type) := List Char → List (Pair R) → Prop

/-- A match of a text of a language at the front of an input. -/
def Match.Reads (m : Match R) (lang : Language R) (cs : List Char) : Prop :=
  m.text ++ m.rest = cs ∧ lang m.text m.pairs

/-- A parsing expression: it reads texts of its language.  It is told whether it stands at the start
of the input. -/
structure Expr (R : Type) where
  run : Bool → List Char → Option (Match R)
  lang : Language R
  sound : ∀ {start cs m}, run start cs = some m → m.Reads lang cs

namespace Expr

/-! ## Texts -/

/-- The input left after a prefix. -/
def strRun : List Char → List Char → Option (List Char)
  | [], cs => some cs
  | _ :: _, [] => none
  | c :: s, c' :: cs => if c = c' then strRun s cs else none

theorem strRun_eq_some_iff {s cs rest : List Char} : strRun s cs = some rest ↔ s ++ rest = cs := by
  induction s generalizing cs with
  | nil =>
      constructor
      · exact fun h => (Option.some.inj h).symm
      · exact fun h => congrArg some h.symm
  | cons c s ih =>
      cases cs with
      | nil =>
          constructor
          · intro h
            cases h
          · intro h
            cases h
      | cons c' cs =>
          rw [strRun, List.cons_append, List.cons.injEq]
          split
          case isTrue hc => rw [ih, and_iff_right hc]
          case isFalse hc =>
            constructor
            · intro h
              cases h
            · exact fun h => absurd h.1 hc

/-- A literal text. -/
def str (s : String) : Expr R where
  run _ cs := (strRun s.toList cs).map fun rest => ⟨s.toList, [], rest⟩
  lang text pairs := text = s.toList ∧ pairs = []
  sound h := by
    rcases Option.map_eq_some_iff.1 h with ⟨rest, hrest, rfl⟩
    exact ⟨strRun_eq_some_iff.1 hrest, rfl, rfl⟩

/-- A character of a class. -/
def chr (p : Char → Bool) : Expr R where
  run _ cs :=
    match cs with
    | [] => none
    | c :: rest => if p c then some ⟨[c], [], rest⟩ else none
  lang text pairs := ∃ c, p c = true ∧ text = [c] ∧ pairs = []
  sound {_ cs m} h := by
    cases cs with
    | nil => cases h
    | cons c rest =>
        simp only at h
        split at h
        case isTrue hc => exact Option.some.inj h ▸ ⟨rfl, c, hc, rfl, rfl⟩
        case isFalse => cases h

/-- The start of the input. -/
def soi : Expr R where
  run start cs := if start then some (.none cs) else none
  lang text pairs := text = [] ∧ pairs = []
  sound h := by
    split at h
    case isTrue => exact Option.some.inj h ▸ ⟨rfl, rfl, rfl⟩
    case isFalse => cases h

/-- The end of the input, which is recorded. -/
def eoi (rule : R) : Expr R where
  run _ cs := if cs = [] then some ⟨[], [.leaf rule []], cs⟩ else none
  lang text pairs := text = [] ∧ pairs = [.leaf rule []]
  sound h := by
    split at h
    case isTrue => exact Option.some.inj h ▸ ⟨rfl, rfl, rfl⟩
    case isFalse => cases h

/-- No text. -/
def fail : Expr R where
  run _ _ := none
  lang _ _ := False
  sound h := by cases h

/-! ## Sequences and choices -/

/-- Match an expression, then another one in the input left. -/
def seqRun (e e' : Expr R) (start : Bool) (cs : List Char) : Option (Match R) := do
  let m ← e.run start cs
  let m' ← e'.run (start && m.text.isEmpty) m.rest
  return m.append m'

theorem seqRun_eq_some_iff {e e' : Expr R} {start : Bool} {cs : List Char} {m : Match R} :
    seqRun e e' start cs = some m ↔ ∃ m₁, e.run start cs = some m₁ ∧ ∃ m₂,
      e'.run (start && m₁.text.isEmpty) m₁.rest = some m₂ ∧ m₁.append m₂ = m := by
  simp only [seqRun, Option.bind_eq_bind, Option.bind_eq_some_iff, Option.pure_def,
    Option.some.injEq]

/-- One expression after another. -/
def seq (e e' : Expr R) : Expr R where
  run := seqRun e e'
  lang text pairs := ∃ text₁ pairs₁ text₂ pairs₂, e.lang text₁ pairs₁ ∧ e'.lang text₂ pairs₂ ∧
    text = text₁ ++ text₂ ∧ pairs = pairs₁ ++ pairs₂
  sound h := by
    rcases seqRun_eq_some_iff.1 h with ⟨m₁, h₁, m₂, h₂, rfl⟩
    rcases e.sound h₁ with ⟨hsplit₁, hlang₁⟩
    rcases e'.sound h₂ with ⟨hsplit₂, hlang₂⟩
    refine ⟨?_, _, _, _, _, hlang₁, hlang₂, rfl, rfl⟩
    rw [Match.append, List.append_assoc, hsplit₂, hsplit₁]

instance : Append (Expr R) := ⟨seq⟩

/-- The first of two expressions that matches. -/
def choice (e e' : Expr R) : Expr R where
  run start cs := (e.run start cs).or (e'.run start cs)
  lang text pairs := e.lang text pairs ∨ e'.lang text pairs
  sound h := by
    rcases Option.or_eq_some_iff.1 h with h | ⟨-, h⟩
    · exact ⟨(e.sound h).1, Or.inl (e.sound h).2⟩
    · exact ⟨(e'.sound h).1, Or.inr (e'.sound h).2⟩

instance : OrElse (Expr R) := ⟨fun e e' => choice e (e' ())⟩

/-- An expression, if it matches. -/
def opt (e : Expr R) : Expr R where
  run start cs := (e.run start cs).or (some (.none cs))
  lang text pairs := e.lang text pairs ∨ text = [] ∧ pairs = []
  sound h := by
    rcases Option.or_eq_some_iff.1 h with h | ⟨-, h⟩
    · exact ⟨(e.sound h).1, Or.inl (e.sound h).2⟩
    · exact Option.some.inj h ▸ ⟨rfl, Or.inr ⟨rfl, rfl⟩⟩

/-! ## Repetitions -/

/-- The texts made of some texts of a language, with how many of them. -/
def RepLang (lang : Language R) (count : Nat) (text : List Char) (pairs : List (Pair R)) : Prop :=
  ∃ parts : List (List Char × List (Pair R)), parts.length = count ∧
    (∀ part ∈ parts, lang part.1 part.2) ∧ text = parts.flatMap Prod.fst ∧
    pairs = parts.flatMap Prod.snd

/-- Match an expression as often as possible, at most so many times; returns how often. -/
def repRun (e : Expr R) : Nat → Bool → List Char → Nat × Match R
  | 0, _, cs => (0, .none cs)
  | most + 1, start, cs =>
      match e.run start cs with
      | none => (0, .none cs)
      | some m =>
          let (count, m') := repRun e most (start && m.text.isEmpty) m.rest
          (count + 1, m.append m')

theorem reads_repRun (e : Expr R) (most : Nat) :
    ∀ (start : Bool) (cs : List Char),
      (repRun e most start cs).2.Reads (RepLang e.lang (repRun e most start cs).1) cs := by
  induction most with
  | zero => exact fun _ _ => ⟨rfl, [], rfl, List.forall_mem_nil _, rfl, rfl⟩
  | succ most ih =>
      intro start cs
      rw [repRun]
      cases he : e.run start cs with
      | none => exact ⟨rfl, [], rfl, List.forall_mem_nil _, rfl, rfl⟩
      | some m =>
          rcases e.sound he with ⟨hsplit, hlang⟩
          have hrest := ih (start && m.text.isEmpty) m.rest
          simp only
          cases hrun : repRun e most (start && m.text.isEmpty) m.rest with
          | mk count m' =>
              rw [hrun] at hrest
              rcases hrest with ⟨hsplit', parts, hcount, hparts, htext, hpairs⟩
              refine ⟨?_, (m.text, m.pairs) :: parts, congrArg (· + 1) hcount,
                List.forall_mem_cons.2 ⟨hlang, hparts⟩, ?_, ?_⟩
              · show (m.text ++ m'.text) ++ m'.rest = cs
                rw [List.append_assoc, hsplit', hsplit]
              · exact congrArg (m.text ++ ·) htext
              · exact congrArg (m.pairs ++ ·) hpairs

theorem repRun_fst_le (e : Expr R) (most : Nat) :
    ∀ (start : Bool) (cs : List Char), (repRun e most start cs).1 ≤ most := by
  induction most with
  | zero => exact fun _ _ => Nat.le_refl 0
  | succ most ih =>
      intro start cs
      rw [repRun]
      split
      case h_1 => exact Nat.zero_le _
      case h_2 => exact Nat.succ_le_succ (ih _ _)

/-- An expression as often as possible, at least so many times.  It must not match the empty text,
so the length of the input bounds the repetitions. -/
def atLeast (least : Nat) (e : Expr R) : Expr R where
  run start cs :=
    let (count, m) := repRun e cs.length start cs
    if least ≤ count then some m else none
  lang text pairs := ∃ count, least ≤ count ∧ RepLang e.lang count text pairs
  sound {start cs m} h := by
    rcases reads_repRun e cs.length start cs with ⟨hsplit, hlang⟩
    simp only at h
    split at h
    case isTrue hleast =>
      exact Option.some.inj h ▸ ⟨hsplit, _, hleast, hlang⟩
    case isFalse => cases h

/-- An expression as often as possible, between two bounds. -/
def between (least most : Nat) (e : Expr R) : Expr R where
  run start cs :=
    let (count, m) := repRun e most start cs
    if least ≤ count then some m else none
  lang text pairs := ∃ count, least ≤ count ∧ count ≤ most ∧ RepLang e.lang count text pairs
  sound {start cs m} h := by
    rcases reads_repRun e most start cs with ⟨hsplit, hlang⟩
    simp only at h
    split at h
    case isTrue hleast =>
      exact Option.some.inj h ▸ ⟨hsplit, _, hleast, repRun_fst_le e most start cs, hlang⟩
    case isFalse => cases h

/-! ## Lookahead -/

/-- Whether an expression matches here, without reading it. -/
def followedBy (e : Expr R) : Expr R where
  run start cs := if (e.run start cs).isSome then some (.none cs) else none
  lang text pairs := text = [] ∧ pairs = []
  sound h := by
    split at h
    case isTrue => exact Option.some.inj h ▸ ⟨rfl, rfl, rfl⟩
    case isFalse => cases h

/-- Whether an expression does not match here. -/
def notFollowedBy (e : Expr R) : Expr R where
  run start cs := if (e.run start cs).isSome then none else some (.none cs)
  lang text pairs := text = [] ∧ pairs = []
  sound h := by
    split at h
    case isTrue => cases h
    case isFalse => exact Option.some.inj h ▸ ⟨rfl, rfl, rfl⟩

/-! ## Rules -/

/-- A rule, which is recorded with the rules matched within. -/
def rule (r : R) (e : Expr R) : Expr R where
  run start cs := (e.run start cs).map fun m => { m with pairs := [.node r m.text m.pairs] }
  lang text pairs := ∃ inner, e.lang text inner ∧ pairs = [.node r text inner]
  sound h := by
    rcases Option.map_eq_some_iff.1 h with ⟨m, hm, rfl⟩
    exact ⟨(e.sound hm).1, m.pairs, (e.sound hm).2, rfl⟩

/-- An atomic rule, which is recorded without the rules matched within. -/
def atomic (r : R) (e : Expr R) : Expr R where
  run start cs := (e.run start cs).map fun m => { m with pairs := [.leaf r m.text] }
  lang text pairs := (∃ inner, e.lang text inner) ∧ pairs = [.leaf r text]
  sound h := by
    rcases Option.map_eq_some_iff.1 h with ⟨m, hm, rfl⟩
    exact ⟨(e.sound hm).1, ⟨m.pairs, (e.sound hm).2⟩, rfl⟩

/-- A recursive rule, unfolded so many times. -/
def unfoldRec (body : Expr R → Expr R) : Nat → Expr R
  | 0 => fail
  | depth + 1 => body (unfoldRec body depth)

/-- A recursive rule.  It must read a character before it is used within itself, so the length of
the input bounds the depth. -/
def recursive (body : Expr R → Expr R) : Expr R where
  run start cs := (unfoldRec body (cs.length + 1)).run start cs
  lang text pairs := ∃ depth, (unfoldRec body depth).lang text pairs
  sound {start cs m} h := by
    rcases (unfoldRec body (cs.length + 1)).sound h with ⟨hsplit, hlang⟩
    exact ⟨hsplit, _, hlang⟩

/-! ## Languages -/

section Languages

variable {e e' : Expr R} {text : List Char} {pairs : List (Pair R)} {r : R}

@[simp] theorem lang_str {s : String} :
    (str s : Expr R).lang text pairs ↔ text = s.toList ∧ pairs = [] := Iff.rfl

@[simp] theorem lang_chr {p : Char → Bool} :
    (chr p : Expr R).lang text pairs ↔ ∃ c, p c = true ∧ text = [c] ∧ pairs = [] := Iff.rfl

@[simp] theorem lang_soi : (soi : Expr R).lang text pairs ↔ text = [] ∧ pairs = [] := Iff.rfl

@[simp] theorem lang_eoi :
    (eoi r : Expr R).lang text pairs ↔ text = [] ∧ pairs = [.leaf r []] := Iff.rfl

@[simp] theorem lang_append : (e ++ e').lang text pairs ↔ ∃ text₁ pairs₁ text₂ pairs₂,
    e.lang text₁ pairs₁ ∧ e'.lang text₂ pairs₂ ∧
      text = text₁ ++ text₂ ∧ pairs = pairs₁ ++ pairs₂ := Iff.rfl

@[simp] theorem lang_orElse :
    (e <|> e').lang text pairs ↔ e.lang text pairs ∨ e'.lang text pairs := Iff.rfl

@[simp] theorem lang_opt :
    (opt e).lang text pairs ↔ e.lang text pairs ∨ text = [] ∧ pairs = [] := Iff.rfl

@[simp] theorem lang_followedBy :
    (followedBy e).lang text pairs ↔ text = [] ∧ pairs = [] := Iff.rfl

@[simp] theorem lang_notFollowedBy :
    (notFollowedBy e).lang text pairs ↔ text = [] ∧ pairs = [] := Iff.rfl

@[simp] theorem lang_rule :
    (rule r e).lang text pairs ↔ ∃ inner, e.lang text inner ∧ pairs = [.node r text inner] :=
  Iff.rfl

@[simp] theorem lang_atomic :
    (atomic r e).lang text pairs ↔ (∃ inner, e.lang text inner) ∧ pairs = [.leaf r text] :=
  Iff.rfl

end Languages

/-! ## Repetitions of characters and of rules -/

section Repetitions

variable {lang : Language R} {count : Nat} {text : List Char} {pairs : List (Pair R)}

/-- Texts of one length in a class of characters, repeated. -/
theorem RepLang.blocks {p : Char → Prop} {length : Nat}
    (hlang : ∀ text pairs, lang text pairs → text.length = length ∧ ∀ c ∈ text, p c)
    (h : RepLang lang count text pairs) : text.length = length * count ∧ ∀ c ∈ text, p c := by
  rcases h with ⟨parts, rfl, hparts, rfl, -⟩
  induction parts with
  | nil => exact ⟨rfl, List.forall_mem_nil _⟩
  | cons part parts ih =>
      rcases List.forall_mem_cons.1 hparts with ⟨hpart, hparts⟩
      rcases hlang _ _ hpart with ⟨hlength, hchars⟩
      rw [List.flatMap_cons, List.length_append, hlength, (ih hparts).1, List.length_cons,
        Nat.mul_succ, Nat.add_comm]
      exact ⟨rfl, List.forall_mem_append.2 ⟨hchars, (ih hparts).2⟩⟩

/-- Characters of a class, repeated: a text of that length in the class. -/
theorem RepLang.chars {p : Char → Prop}
    (hlang : ∀ text pairs, lang text pairs → ∃ c, p c ∧ text = [c])
    (h : RepLang lang count text pairs) : text.length = count ∧ ∀ c ∈ text, p c := by
  have hblocks := @RepLang.blocks _ _ _ _ _ p 1 (fun text pairs htext => by
    rcases hlang text pairs htext with ⟨c, hc, rfl⟩
    exact ⟨rfl, List.forall_mem_singleton.2 hc⟩) h
  rwa [Nat.one_mul] at hblocks

/-- Texts that record one rule each, repeated: what they print and record. -/
theorem RepLang.exists_list {A : Type} {P : A → Prop} {print : A → List Char}
    (record : A → Pair R)
    (hlang : ∀ text pairs, lang text pairs →
      ∃ a, P a ∧ text = print a ∧ pairs = [record a])
    (h : RepLang lang count text pairs) :
    ∃ as : List A, as.length = count ∧ (∀ a ∈ as, P a) ∧ text = as.flatMap print ∧
      pairs = as.map record := by
  rcases h with ⟨parts, rfl, hparts, rfl, rfl⟩
  induction parts with
  | nil => exact ⟨[], rfl, List.forall_mem_nil _, rfl, rfl⟩
  | cons part parts ih =>
      rcases List.forall_mem_cons.1 hparts with ⟨hpart, hparts⟩
      rcases hlang _ _ hpart with ⟨a, ha, htext, hpairs⟩
      rcases ih hparts with ⟨as, hcount, has, htexts, hrecords⟩
      refine ⟨a :: as, congrArg (· + 1) hcount, List.forall_mem_cons.2 ⟨ha, has⟩, ?_, ?_⟩
      · rw [List.flatMap_cons, List.flatMap_cons, htext, htexts]
      · rw [List.flatMap_cons, hpairs, hrecords, List.map_cons, List.singleton_append]

end Repetitions

/-! ## What an expression records -/

/-- Whether an expression records only pairs with a property. -/
def Records (P : Pair R → Prop) (e : Expr R) : Prop :=
  ∀ text pairs, e.lang text pairs → ∀ pair ∈ pairs, P pair

section Records

variable {P : Pair R → Prop} {e e' : Expr R}

theorem records_str (s : String) : Records P (str s) := by
  rintro text pairs ⟨-, rfl⟩
  exact List.forall_mem_nil _

theorem records_atomic {r : R} (h : ∀ text inner, e.lang text inner → P (.leaf r text)) :
    Records P (atomic r e) := by
  rintro text pairs ⟨⟨inner, hinner⟩, rfl⟩
  exact List.forall_mem_singleton.2 (h text inner hinner)

theorem Records.append (h : Records P e) (h' : Records P e') : Records P (e ++ e') := by
  rintro text pairs ⟨_, _, _, _, hfirst, hsecond, -, rfl⟩
  exact List.forall_mem_append.2 ⟨h _ _ hfirst, h' _ _ hsecond⟩

theorem Records.opt (h : Records P e) : Records P (opt e) := by
  rintro text pairs (hsome | ⟨-, rfl⟩)
  · exact h _ _ hsome
  · exact List.forall_mem_nil _

theorem Records.atLeast (h : Records P e) (least : Nat) : Records P (atLeast least e) := by
  rintro text pairs ⟨count, -, parts, -, hparts, -, rfl⟩ pair hpair
  rcases List.mem_flatMap.1 hpair with ⟨part, hpart, hmem⟩
  exact h _ _ (hparts part hpart) pair hmem

end Records

/-- Whether each match of an expression records a rule. -/
def Includes (r : R) (e : Expr R) : Prop :=
  ∀ text pairs, e.lang text pairs → ∃ pair ∈ pairs, pair.rule = r

section Includes

variable {r : R} {e : Expr R}

theorem includes_atomic (r : R) (e : Expr R) : Includes r (atomic r e) := by
  rintro text pairs ⟨-, rfl⟩
  exact ⟨_, List.mem_cons_self, rfl⟩

theorem includes_rule (r : R) (e : Expr R) : Includes r (rule r e) := by
  rintro text pairs ⟨inner, -, rfl⟩
  exact ⟨_, List.mem_cons_self, rfl⟩

theorem Includes.append_left (h : Includes r e) (e' : Expr R) : Includes r (e ++ e') := by
  rintro text pairs ⟨_, _, _, _, hfirst, -, -, rfl⟩
  rcases h _ _ hfirst with ⟨pair, hmem, hrule⟩
  exact ⟨pair, List.mem_append_left _ hmem, hrule⟩

theorem Includes.append_right (h : Includes r e) (e' : Expr R) : Includes r (e' ++ e) := by
  rintro text pairs ⟨_, _, _, _, -, hsecond, -, rfl⟩
  rcases h _ _ hsecond with ⟨pair, hmem, hrule⟩
  exact ⟨pair, List.mem_append_right _ hmem, hrule⟩

end Includes

/-! ## Expressions that read the whole input -/

/-- Whether an expression leaves nothing of its input. -/
def Finishes (e : Expr R) : Prop := ∀ start cs m, e.run start cs = some m → m.rest = []

theorem finishes_eoi (r : R) : Finishes (eoi r) := by
  intro start cs m h
  simp only [eoi] at h
  split at h
  case isTrue hcs => exact Option.some.inj h ▸ hcs
  case isFalse => cases h

theorem Finishes.append {e' : Expr R} (h' : Finishes e') (e : Expr R) : Finishes (e ++ e') := by
  intro start cs m h
  rcases seqRun_eq_some_iff.1 h with ⟨m₁, -, m₂, h₂, rfl⟩
  show m₂.rest = []
  exact h' _ _ _ h₂

theorem Finishes.orElse {e e' : Expr R} (h : Finishes e) (h' : Finishes e') :
    Finishes (e <|> e') := by
  intro start cs m hm
  rcases Option.or_eq_some_iff.1 hm with hm | ⟨-, hm⟩
  · exact h _ _ _ hm
  · exact h' _ _ _ hm

theorem Finishes.rule {e : Expr R} (h : Finishes e) (r : R) : Finishes (rule r e) := by
  intro start cs m hm
  rcases Option.map_eq_some_iff.1 hm with ⟨m', hm', rfl⟩
  show m'.rest = []
  exact h _ _ _ hm'

/-- An expression that reads the whole input matches a text of its language. -/
theorem Finishes.lang_of_run {e : Expr R} (h : Finishes e) {start : Bool} {cs : List Char}
    {m : Match R} (hm : e.run start cs = some m) : e.lang cs m.pairs := by
  rcases e.sound hm with ⟨hsplit, hlang⟩
  rw [h _ _ _ hm, List.append_nil] at hsplit
  exact hsplit ▸ hlang

end Expr

end Lib.Peg
