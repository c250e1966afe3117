/-
# What parsing expressions read back

An expression is deterministic, so to say what it reads of a printed text one says what it matches
there, and what it does not match: the alternatives before the right one, and one more repetition
after the last.
-/

import Durs.Lib.Peg

namespace Lib.Peg.Expr

variable {R : Type} {e e' : Expr R} {text text' rest cs : List Char}
  {pairs pairs' : List (Pair R)} {r : R}

/-- In front of some rest, an expression matches this text and records these pairs. -/
def MatchesText (e : Expr R) (text : List Char) (pairs : List (Pair R)) (rest : List Char) : Prop :=
  ∀ start, e.run start (text ++ rest) = some ⟨text, pairs, rest⟩

/-- An expression does not match an input. -/
def Fails (e : Expr R) (cs : List Char) : Prop := ∀ start, e.run start cs = none

/-! ## Texts and characters -/

theorem matchesText_str (s : String) (rest : List Char) :
    MatchesText (R := R) (str s) s.toList [] rest := by
  intro start
  have hrun : strRun s.toList (s.toList ++ rest) = some rest := strRun_eq_some_iff.2 rfl
  exact congrArg (Option.map _) hrun

theorem fails_str {s : String} (h : ∀ rest, s.toList ++ rest ≠ cs) :
    Fails (R := R) (str s) cs := by
  intro start
  cases hrun : strRun s.toList cs with
  | none => exact congrArg (Option.map _) hrun
  | some rest => exact absurd (strRun_eq_some_iff.1 hrun) (h rest)

/-- A literal text does not match what starts with another character. -/
theorem fails_str_of_head {s : String} {c : Char} {s' : List Char} (hs : s.toList = c :: s')
    (h : c ∉ cs.head?) : Fails (R := R) (str s) cs := by
  refine fails_str fun rest heq => h ?_
  rw [← heq, hs]
  rfl

theorem fails_str_cons {s : String} {c d : Char} {s' : List Char} (hs : s.toList = c :: s')
    (hne : d ≠ c) (cs : List Char) : Fails (R := R) (str s) (d :: cs) :=
  fails_str_of_head hs fun h => hne (Option.some.inj h)

theorem matchesText_chr {p : Char → Bool} {c : Char} (hc : p c = true) (rest : List Char) :
    MatchesText (R := R) (chr p) [c] [] rest := by
  intro start
  show (if p c then some (⟨[c], [], rest⟩ : Match R) else none) = _
  rw [if_pos hc]

theorem fails_chr {p : Char → Bool} (h : ∀ c ∈ cs.head?, p c = false) :
    Fails (R := R) (chr p) cs := by
  intro start
  cases cs with
  | nil => rfl
  | cons c cs =>
      show (if p c then some (⟨[c], [], cs⟩ : Match R) else none) = none
      rw [h c rfl]
      rfl

theorem matchesText_eoi (r : R) : MatchesText (eoi r) [] [.leaf r []] [] := fun _ => rfl

/-- An expression fails where no text of its language stands. -/
theorem fails_of_lang (h : ∀ text pairs rest, e.lang text pairs → text ++ rest ≠ cs) :
    Fails e cs := by
  intro start
  cases hrun : e.run start cs with
  | none => rfl
  | some m => exact absurd (e.sound hrun).1 (h _ _ _ (e.sound hrun).2)

/-! ## Sequences and choices -/

theorem MatchesText.append (h : MatchesText e text pairs (text' ++ rest))
    (h' : MatchesText e' text' pairs' rest) :
    MatchesText (e ++ e') (text ++ text') (pairs ++ pairs') rest := by
  intro start
  rw [List.append_assoc]
  exact seqRun_eq_some_iff.2 ⟨_, h start, _, h' _, rfl⟩

/-- What is missing may come after what is matched. -/
theorem MatchesText.append_missing (h : MatchesText e text pairs rest) (h' : Fails e' rest) :
    MatchesText (e ++ opt e') text pairs rest := by
  intro start
  refine seqRun_eq_some_iff.2 ⟨_, h start, ⟨[], [], rest⟩, ?_, ?_⟩
  · show ((e'.run _ rest).or (some ⟨[], [], rest⟩)) = _
    rw [h' _]
    rfl
  · simp only [Match.append, List.append_nil]

/-- A run is continued by what an expression matches. -/
theorem run_append {start : Bool} {m : Match R} (h : e.run start cs = some m)
    (h' : MatchesText e' text pairs rest) (hrest : m.rest = text ++ rest) :
    (e ++ e').run start cs = some (m.append ⟨text, pairs, rest⟩) := by
  refine seqRun_eq_some_iff.2 ⟨m, h, _, ?_, rfl⟩
  rw [hrest]
  exact h' _

theorem Fails.append (h : Fails e cs) (e' : Expr R) : Fails (e ++ e') cs := by
  intro start
  show seqRun e e' start cs = none
  rw [seqRun, h start]
  rfl

theorem MatchesText.append_fails (h : MatchesText e text pairs rest) (h' : Fails e' rest) :
    Fails (e ++ e') (text ++ rest) := by
  intro start
  show seqRun e e' start (text ++ rest) = none
  rw [seqRun, h start]
  show (do
    let m' ← e'.run _ rest
    return Match.append _ m') = none
  rw [h' _]
  rfl

theorem append_append_run (e e' e'' : Expr R) (start : Bool) (cs : List Char) :
    ((e ++ e') ++ e'').run start cs = (e ++ (e' ++ e'')).run start cs := by
  have hempty (text text' : List Char) :
      (text ++ text').isEmpty = (text.isEmpty && text'.isEmpty) := by
    cases text
    · rfl
    · rfl
  show seqRun (e ++ e') e'' start cs = seqRun e (e' ++ e'') start cs
  unfold seqRun
  show (seqRun e e' start cs >>= _) = e.run start cs >>= fun m => seqRun e' e'' _ m.rest >>= _
  unfold seqRun
  simp only [Option.bind_eq_bind, Option.pure_def, Option.bind_assoc, Option.bind_some,
    Match.append, hempty, Bool.and_assoc, List.append_assoc]

/-- A sequence may be grouped the other way. -/
theorem MatchesText.append_assoc {e'' : Expr R} (h : MatchesText (e ++ (e' ++ e'')) text pairs rest) :
    MatchesText ((e ++ e') ++ e'') text pairs rest :=
  fun start => (append_append_run e e' e'' start _).trans (h start)

theorem MatchesText.orElse (h : MatchesText e text pairs rest) (e' : Expr R) :
    MatchesText (e <|> e') text pairs rest := by
  intro start
  show (e.run start _).or (e'.run start _) = _
  rw [h start]
  rfl

theorem Fails.orElse_matchesText (h : Fails e (text ++ rest))
    (h' : MatchesText e' text pairs rest) : MatchesText (e <|> e') text pairs rest := by
  intro start
  show (e.run start _).or (e'.run start _) = _
  rw [h start]
  exact h' start

theorem Fails.orElse (h : Fails e cs) (h' : Fails e' cs) : Fails (e <|> e') cs := by
  intro start
  show (e.run start _).or (e'.run start _) = _
  rw [h start]
  exact h' start

theorem MatchesText.opt (h : MatchesText e text pairs rest) :
    MatchesText (Expr.opt e) text pairs rest := by
  intro start
  show (e.run start _).or _ = _
  rw [h start]
  rfl

theorem Fails.opt (h : Fails e rest) : MatchesText (Expr.opt e) [] [] rest := by
  intro start
  show (e.run start rest).or _ = _
  rw [h start]
  rfl

/-! ## Lookahead -/

theorem Fails.notFollowedBy (h : Fails e rest) :
    MatchesText (Expr.notFollowedBy e) [] [] rest := by
  intro start
  show (if (e.run start rest).isSome then none else some (Match.none rest)) = _
  rw [h start]
  rfl

theorem MatchesText.notFollowedBy (h : MatchesText e text pairs rest) :
    Fails (Expr.notFollowedBy e) (text ++ rest) := by
  intro start
  show (if (e.run start _).isSome then none else some (Match.none _)) = _
  rw [h start]
  rfl

/-! ## Rules -/

theorem MatchesText.rule (h : MatchesText e text pairs rest) (r : R) :
    MatchesText (Expr.rule r e) text [.node r text pairs] rest := by
  intro start
  show (e.run start _).map _ = _
  rw [h start]
  rfl

theorem MatchesText.atomic (h : MatchesText e text pairs rest) (r : R) :
    MatchesText (Expr.atomic r e) text [.leaf r text] rest := by
  intro start
  show (e.run start _).map _ = _
  rw [h start]
  rfl

theorem Fails.rule (h : Fails e cs) (r : R) : Fails (Expr.rule r e) cs := by
  intro start
  show (e.run start _).map _ = _
  rw [h start]
  rfl

theorem Fails.atomic (h : Fails e cs) (r : R) : Fails (Expr.atomic r e) cs := by
  intro start
  show (e.run start _).map _ = _
  rw [h start]
  rfl

/-- A recursive rule matches what it matches when it is unfolded more often than the text is
long. -/
theorem matchesText_recursive {body : Expr R → Expr R}
    (h : ∀ depth, text.length < depth → MatchesText (unfoldRec body depth) text pairs rest) :
    MatchesText (recursive body) text pairs rest := by
  intro start
  refine h _ ?_ start
  rw [List.length_append]
  exact Nat.lt_succ_of_le (Nat.le_add_right _ _)

/-! ## Repetitions -/

/-- Texts that an expression matches one after another, until it does not match the rest. -/
def MatchesAll (e : Expr R) : List (List Char × List (Pair R)) → List Char → Prop
  | [], rest => Fails e rest
  | part :: parts, rest =>
      part.1 ≠ [] ∧ MatchesText e part.1 part.2 (parts.flatMap Prod.fst ++ rest) ∧
        MatchesAll e parts rest

theorem MatchesAll.length_le {parts : List (List Char × List (Pair R))}
    (h : MatchesAll e parts rest) : parts.length ≤ (parts.flatMap Prod.fst).length := by
  induction parts with
  | nil => exact Nat.le_refl 0
  | cons part parts ih =>
      rcases h with ⟨hne, -, hparts⟩
      have hpos := List.length_pos_of_ne_nil hne
      have hle := ih hparts
      rw [List.flatMap_cons, List.length_append, List.length_cons]
      omega

/-- Enough turns of a repetition match all the texts. -/
theorem repRun_of_matchesAll {parts : List (List Char × List (Pair R))}
    (h : MatchesAll e parts rest) {most : Nat} (hmost : parts.length ≤ most) (start : Bool) :
    repRun e most start (parts.flatMap Prod.fst ++ rest) =
      (parts.length, ⟨parts.flatMap Prod.fst, parts.flatMap Prod.snd, rest⟩) := by
  induction parts generalizing most start with
  | nil =>
      cases most with
      | zero => rfl
      | succ most =>
          have hrun : e.run start rest = none := h start
          rw [List.flatMap_nil, List.nil_append, repRun, hrun]
          rfl
  | cons part parts ih =>
      rcases h with ⟨-, hpart, hparts⟩
      cases most with
      | zero => cases hmost
      | succ most =>
          have hrun := ih hparts (Nat.le_of_succ_le_succ hmost)
          rw [List.flatMap_cons, List.append_assoc, repRun, hpart start]
          simp only [hrun]
          rfl

theorem matchesText_atLeast {parts : List (List Char × List (Pair R))}
    (h : MatchesAll e parts rest) {least : Nat} (hleast : least ≤ parts.length) :
    MatchesText (atLeast least e) (parts.flatMap Prod.fst) (parts.flatMap Prod.snd) rest := by
  intro start
  have hmost : parts.length ≤ (parts.flatMap Prod.fst ++ rest).length := by
    rw [List.length_append]
    exact Nat.le_add_right_of_le h.length_le
  simp only [atLeast, repRun_of_matchesAll h hmost start]
  exact if_pos hleast

theorem Fails.atLeast (h : Fails e cs) {least : Nat} (hleast : 0 < least) :
    Fails (Expr.atLeast least e) cs := by
  intro start
  have hrun : repRun e cs.length start cs = (0, Match.none cs) := by
    cases hlen : cs.length with
    | zero => rfl
    | succ most => rw [repRun, h start]
  simp only [Expr.atLeast, hrun]
  exact if_neg (Nat.not_le_of_gt hleast)

theorem matchesText_between {parts : List (List Char × List (Pair R))}
    (h : MatchesAll e parts rest) {least most : Nat} (hleast : least ≤ parts.length)
    (hmost : parts.length ≤ most) :
    MatchesText (between least most e) (parts.flatMap Prod.fst) (parts.flatMap Prod.snd) rest := by
  intro start
  simp only [between, repRun_of_matchesAll h hmost start]
  exact if_pos hleast

/-- A repetition fails where the expression matches too few texts. -/
theorem MatchesAll.fails_between {parts : List (List Char × List (Pair R))}
    (h : MatchesAll e parts rest) {least most : Nat} (hleast : parts.length < least)
    (hmost : parts.length ≤ most) :
    Fails (between least most e) (parts.flatMap Prod.fst ++ rest) := by
  intro start
  simp only [between, repRun_of_matchesAll h hmost start]
  exact if_neg (Nat.not_le_of_gt hleast)

/-! ## Repetitions of characters -/

/-- A text of characters, each of which the expression matches. -/
theorem matchesAll_chars (hchar : ∀ c ∈ text, ∀ rest, MatchesText e [c] [] rest)
    (hfails : Fails e rest) : MatchesAll e (text.map fun c => ([c], [])) rest := by
  induction text with
  | nil => exact hfails
  | cons c text ih =>
      rcases List.forall_mem_cons.1 hchar with ⟨hc, hchar⟩
      exact ⟨List.cons_ne_nil _ _, hc _, ih hchar⟩

theorem flatMap_fst_chars (text : List Char) :
    (text.map fun c => (([c], []) : List Char × List (Pair R))).flatMap Prod.fst = text := by
  rw [List.flatMap_map]
  exact List.flatMap_singleton' text

theorem flatMap_snd_chars (text : List Char) :
    (text.map fun c => (([c], []) : List Char × List (Pair R))).flatMap Prod.snd = [] := by
  rw [List.flatMap_map]
  exact List.flatMap_eq_nil_iff.2 fun _ _ => rfl

theorem length_chars (text : List Char) :
    (text.map fun c => (([c], []) : List Char × List (Pair R))).length = text.length :=
  List.length_map _

theorem matchesText_atLeast_chars (hchar : ∀ c ∈ text, ∀ rest, MatchesText e [c] [] rest)
    (hfails : Fails e rest) {least : Nat} (hleast : least ≤ text.length) :
    MatchesText (atLeast least e) text [] rest := by
  rw [← length_chars (R := R) text] at hleast
  have h := matchesText_atLeast (matchesAll_chars hchar hfails) hleast
  rwa [flatMap_fst_chars, flatMap_snd_chars] at h

theorem matchesText_between_chars (hchar : ∀ c ∈ text, ∀ rest, MatchesText e [c] [] rest)
    (hfails : Fails e rest) {least most : Nat} (hleast : least ≤ text.length)
    (hmost : text.length ≤ most) : MatchesText (between least most e) text [] rest := by
  rw [← length_chars (R := R) text] at hleast hmost
  have h := matchesText_between (matchesAll_chars hchar hfails) hleast hmost
  rwa [flatMap_fst_chars, flatMap_snd_chars] at h

/-- As many characters as are asked for at most, whatever follows them. -/
theorem matchesText_between_full (hchar : ∀ c ∈ text, ∀ rest, MatchesText e [c] [] rest)
    {least : Nat} (hleast : least ≤ text.length) (rest : List Char) :
    MatchesText (between least text.length e) text [] rest := by
  have hrun (start : Bool) : repRun e text.length start (text ++ rest) =
      (text.length, ⟨text, [], rest⟩) := by
    clear hleast
    induction text generalizing start with
    | nil => rfl
    | cons c text ih =>
        rcases List.forall_mem_cons.1 hchar with ⟨hc, hchar⟩
        rw [List.length_cons, repRun, List.cons_append, ← List.singleton_append, hc _ start]
        simp only [ih hchar]
        rfl
  intro start
  simp only [between, hrun start]
  exact if_pos hleast

/-! ## The characters that are matched -/

/-- Whether an expression matches only texts in a class of characters. -/
def Within (p : Char → Prop) (e : Expr R) : Prop :=
  ∀ text pairs, e.lang text pairs → ∀ c ∈ text, p c

section Within

variable {p : Char → Prop}

/-- Over the characters of a text only these are tried. -/
instance decidableForallMem [DecidablePred p] (text : List Char) : Decidable (∀ c ∈ text, p c) :=
  List.decidableBAll p text

theorem within_str {s : String} (h : ∀ c ∈ s.toList, p c) : Within (R := R) p (str s) := by
  rintro text pairs ⟨rfl, -⟩
  exact h

theorem within_chr {q : Char → Bool} (h : ∀ c, q c = true → p c) :
    Within (R := R) p (chr q) := by
  rintro text pairs ⟨c, hc, rfl, -⟩
  exact List.forall_mem_singleton.2 (h c hc)

theorem Within.append (h : Within p e) (h' : Within p e') : Within p (e ++ e') := by
  rintro text pairs ⟨_, _, _, _, hfirst, hsecond, rfl, -⟩
  exact List.forall_mem_append.2 ⟨h _ _ hfirst, h' _ _ hsecond⟩

theorem Within.orElse (h : Within p e) (h' : Within p e') : Within p (e <|> e') := by
  rintro text pairs (hfirst | hsecond)
  · exact h _ _ hfirst
  · exact h' _ _ hsecond

theorem Within.opt (h : Within p e) : Within p (Expr.opt e) := by
  rintro text pairs (hsome | ⟨rfl, -⟩)
  · exact h _ _ hsome
  · exact List.forall_mem_nil _

theorem Within.between (h : Within p e) (least most : Nat) :
    Within p (Expr.between least most e) := by
  rintro text pairs ⟨count, -, -, parts, -, hparts, rfl, -⟩ c hc
  rcases List.mem_flatMap.1 hc with ⟨part, hpart, hmem⟩
  exact h _ _ (hparts part hpart) c hmem

end Within

/-! ## What is recorded in a run

A lookahead is not part of the language, so what it excludes is known of a run only. -/

/-- Whether an expression records only pairs with a property whenever it matches. -/
def Yields (P : Pair R → Prop) (e : Expr R) : Prop :=
  ∀ start cs m, e.run start cs = some m → ∀ pair ∈ m.pairs, P pair

section Yields

variable {P : Pair R → Prop}

theorem Records.yields (h : Records P e) : Yields P e := fun _ _ _ hm => h _ _ (e.sound hm).2

theorem yields_fail : Yields P (fail : Expr R) := by
  intro start cs m hm
  cases hm

theorem Yields.append (h : Yields P e) (h' : Yields P e') : Yields P (e ++ e') := by
  intro start cs m hm
  rcases seqRun_eq_some_iff.1 hm with ⟨m₁, h₁, m₂, h₂, rfl⟩
  exact List.forall_mem_append.2 ⟨h _ _ _ h₁, h' _ _ _ h₂⟩

theorem Yields.orElse (h : Yields P e) (h' : Yields P e') : Yields P (e <|> e') := by
  intro start cs m hm
  rcases Option.or_eq_some_iff.1 hm with hm | ⟨-, hm⟩
  · exact h _ _ _ hm
  · exact h' _ _ _ hm

theorem Yields.opt (h : Yields P e) : Yields P (Expr.opt e) := by
  intro start cs m hm
  rcases Option.or_eq_some_iff.1 hm with hm | ⟨-, hm⟩
  · exact h _ _ _ hm
  · obtain rfl := Option.some.inj hm
    exact List.forall_mem_nil _

theorem Yields.rule (h : Yields P e)
    (hnode : ∀ text inner, (∀ pair ∈ inner, P pair) → P (.node r text inner)) :
    Yields P (Expr.rule r e) := by
  intro start cs m hm
  rcases Option.map_eq_some_iff.1 hm with ⟨m', hm', rfl⟩
  exact List.forall_mem_singleton.2 (hnode _ _ (h _ _ _ hm'))

/-- What a repetition has matched, from what each of its turns has. -/
theorem repLang_repRun (lang : Language R)
    (h : ∀ start cs m, e.run start cs = some m → lang m.text m.pairs) (most : Nat) (start : Bool)
    (cs : List Char) : RepLang lang (repRun e most start cs).1 (repRun e most start cs).2.text
      (repRun e most start cs).2.pairs := by
  have hnil : RepLang lang 0 [] [] := ⟨[], rfl, List.forall_mem_nil _, rfl, rfl⟩
  induction most generalizing start cs with
  | zero => exact hnil
  | succ most ih =>
      rw [repRun]
      cases he : e.run start cs with
      | none => exact hnil
      | some m =>
          rcases ih (start && m.text.isEmpty) m.rest with ⟨parts, hcount, hparts, htext, hpairs⟩
          exact ⟨(m.text, m.pairs) :: parts, congrArg (· + 1) hcount,
            List.forall_mem_cons.2 ⟨h _ _ _ he, hparts⟩, congrArg (m.text ++ ·) htext,
            congrArg (m.pairs ++ ·) hpairs⟩

theorem Yields.atLeast (h : Yields P e) (least : Nat) : Yields P (Expr.atLeast least e) := by
  intro start cs m hm
  rcases repLang_repRun (fun _ pairs => ∀ pair ∈ pairs, P pair) h cs.length start cs with
    ⟨parts, -, hparts, -, hpairs⟩
  simp only [Expr.atLeast] at hm
  split at hm
  case isTrue =>
    obtain rfl := Option.some.inj hm
    intro pair hpair
    rw [hpairs] at hpair
    rcases List.mem_flatMap.1 hpair with ⟨part, hpart, hmem⟩
    exact hparts part hpart pair hmem
  case isFalse => cases hm

theorem yields_recursive {body : Expr R → Expr R} (h : ∀ e, Yields P e → Yields P (body e)) :
    Yields P (recursive body) := by
  have hunfold : ∀ depth, Yields P (unfoldRec body depth) := by
    intro depth
    induction depth with
    | zero => exact yields_fail
    | succ depth ih => exact h _ ih
  exact fun start cs m hm => hunfold _ start cs m hm

end Yields

/-- A repetition of characters of a class has matched a text of as many of them. -/
theorem of_between_run {p : Char → Prop} {least most : Nat} {start : Bool} {m : Match R}
    (h : ∀ start cs m, e.run start cs = some m → ∃ c, p c ∧ m.text = [c])
    (hm : (between least most e).run start cs = some m) :
    least ≤ m.text.length ∧ m.text.length ≤ most ∧ ∀ c ∈ m.text, p c := by
  have hchars := RepLang.chars (fun _ _ hchar => hchar)
    (repLang_repRun (fun text _ => ∃ c, p c ∧ text = [c]) h most start cs)
  have hle := repRun_fst_le e most start cs
  simp only [between] at hm
  split at hm
  case isTrue hleast =>
    obtain rfl := Option.some.inj hm
    exact ⟨hchars.1 ▸ hleast, hchars.1 ▸ hle, hchars.2⟩
  case isFalse => cases hm

end Lib.Peg.Expr
