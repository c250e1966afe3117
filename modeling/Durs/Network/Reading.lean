/-
# Reading the parts of network texts

What the rules of the network grammar match of a printed text: numbers, bytes, and addresses, up to
the character that comes after them.
-/

import Durs.Lib.PegRuns
import Durs.Network.AddressTexts
import Durs.Network.Robustness

namespace Durs.Network

open RustStd Lib.Peg Lib.Peg.Expr

variable {text rest : List Char}

/-! ## What the parts of a printed text do -/

/-- An expression matches a text, and the fields there bring what is being built from one state to
another. -/
def Takes {S : Type} (step : S → Pair Rule → Run S) (e : Expr Rule) (text : List Char) (s s' : S)
    (rest : List Char) : Prop :=
  ∃ pairs, MatchesText e text pairs rest ∧ pairs.foldlM step s = .ok s'

section Takes

variable {S : Type} {step : S → Pair Rule → Run S} {e e' : Expr Rule} {text' : List Char}
  {s mid s' : S}

theorem Takes.append (h : Takes step e text s mid (text' ++ rest))
    (h' : Takes step e' text' mid s' rest) : Takes step (e ++ e') (text ++ text') s s' rest := by
  obtain ⟨pairs, hmatch, hfold⟩ := h
  obtain ⟨pairs', hmatch', hfold'⟩ := h'
  refine ⟨pairs ++ pairs', hmatch.append hmatch', ?_⟩
  rw [List.foldlM_append, hfold]
  exact hfold'

theorem Takes.opt (h : Takes step e text s s' rest) : Takes step (Expr.opt e) text s s' rest := by
  obtain ⟨pairs, hmatch, hfold⟩ := h
  exact ⟨pairs, hmatch.opt, hfold⟩

theorem takes_missing (h : Fails e rest) (hsame : s' = s) :
    Takes step (Expr.opt e) [] s s' rest := ⟨[], h.opt, congrArg Except.ok hsame.symm⟩

theorem takes_str (str' : String) (s : S) (rest : List Char) :
    Takes step (str str') str'.toList s s rest := ⟨[], matchesText_str str' rest, rfl⟩

/-- A rule that is one field. -/
theorem takes_field {r : Rule} {pairs : List (Pair Rule)} (h : MatchesText e text pairs rest)
    (hstep : step s (.leaf r text) = .ok s') :
    Takes step (Expr.atomic r e) text s s' rest := by
  refine ⟨[.leaf r text], h.atomic r, ?_⟩
  rw [List.foldlM_cons, hstep]
  rfl

end Takes

/-- Characters of a class are dropped up to one that is not of it. -/
theorem dropWhile_append_of_head {p : Char → Bool} {cs : List Char} (hcs : ∀ c ∈ cs, p c = true)
    (hrest : ∀ c ∈ rest.head?, p c = false) : (cs ++ rest).dropWhile p = rest := by
  rw [List.dropWhile_append_of_pos hcs]
  cases rest with
  | nil => rfl
  | cons c rest => exact List.dropWhile_cons_of_neg (Bool.eq_false_iff.1 (hrest c rfl))

/-! ## Numbers -/

theorem matchesText_noZeroUInt {c : Char} {digits : List Char} (hc : '1' ≤ c ∧ c ≤ '9')
    (hdigits : ∀ digit ∈ digits, digit.isDigit = true)
    (hrest : ∀ c ∈ rest.head?, c.isDigit = false) :
    MatchesText Grammar.noZeroUInt (c :: digits) [] rest := by
  have hfirst : MatchesText (R := Rule) (chr fun c => '1' ≤ c && c ≤ '9') [c] []
      (digits ++ rest) := matchesText_chr (by simpa using hc) _
  exact hfirst.append (matchesText_atLeast_chars (fun c hc => matchesText_chr (hdigits c hc))
    (fails_chr hrest) (Nat.zero_le _))

/-- A number is read up to what is no digit. -/
theorem matchesText_uInt (h : IsUInt text) (hrest : ∀ c ∈ rest.head?, c.isDigit = false) :
    MatchesText Grammar.uInt text [] rest := by
  rcases h with rfl | ⟨c, digits, rfl, hc, hdigits⟩
  · exact (matchesText_str "0" _).orElse _
  · have hzero : Fails (R := Rule) (str "0") (c :: digits ++ rest) := by
      refine fails_str_of_head rfl ?_
      rintro ⟨⟩
      exact absurd hc.1 (by decide)
    exact hzero.orElse_matchesText (matchesText_noZeroUInt hc hdigits hrest)

/-! ## Bytes -/

/-- A text of the first alternative of a byte is three digits. -/
theorem exists_of_lang_u8Hundreds {pairs : List (Pair Rule)}
    (h : Grammar.u8Hundreds.lang text pairs) :
    ∃ a b c, text = [a, b, c] ∧ b.isDigit = true ∧ c.isDigit = true := by
  simp only [Grammar.u8Hundreds, lang_orElse, lang_append, lang_chr, lang_str] at h
  rcases h with ⟨_, _, _, _, ⟨rfl, -⟩, hrest, rfl, -⟩ | ⟨_, _, _, _, ⟨rfl, -⟩, hrest, rfl, -⟩
  · rcases hrest with ⟨_, _, _, _, ⟨b, hb, rfl, -⟩, ⟨c, hc, rfl, -⟩, rfl, -⟩ | hrest
    · exact ⟨'2', b, c, rfl, (isDigit_of_le_le hb rfl).1, hc⟩
    · obtain ⟨b, c, rfl, hb, hc⟩ := exists_pair_of_lang hrest
      exact ⟨'2', b, c, rfl, (isDigit_of_le_le hb rfl).1, (isDigit_of_le_le hc rfl).1⟩
  · obtain ⟨b, c, rfl, hb, hc⟩ := exists_pair_of_lang hrest
    exact ⟨'1', b, c, rfl, hb, hc⟩

/-- The first alternative of a byte asks for three digits. -/
theorem fails_u8Hundreds {a : Char} (h : ∀ b c more, rest = b :: c :: more → b.isDigit = true →
    c.isDigit = false) : Fails Grammar.u8Hundreds (a :: rest) := by
  refine fails_of_lang fun text pairs more hlang heq => ?_
  obtain ⟨_, b, c, rfl, hb, hc⟩ := exists_of_lang_u8Hundreds hlang
  rw [h b c more (List.cons.inj heq).2.symm hb] at hc
  cases hc

/-- The texts of bytes, by the alternatives of the grammar. -/
def isU8Text : List Char → Bool
  | [a] => a.isDigit
  | [a, b] => '1' ≤ a && a ≤ '9' && b.isDigit
  | ['1', b, c] => b.isDigit && c.isDigit
  | ['2', b, c] => ('0' ≤ b && b ≤ '4' && c.isDigit) || (b = '5' && '0' ≤ c && c ≤ '5')
  | _ => false

theorem isU8Text_toString {n : Nat} (h : n < 256) : isU8Text (toString n).toList = true := by
  have hall : ∀ n < 256, isU8Text (Nat.toDigits 10 n) = true := by decide +kernel
  have htext : (toString n).toList = Nat.toDigits 10 n := Nat.toList_repr
  exact htext ▸ hall n h

/-- Two characters of a class. -/
theorem matchesText_pair {p : Char → Bool} {a b : Char} (ha : p a = true) (hb : p b = true)
    (rest : List Char) : MatchesText (R := Rule) (between 2 2 (chr p)) [a, b] [] rest :=
  have hchars : ∀ c ∈ [a, b], ∀ rest, MatchesText (R := Rule) (chr p) [c] [] rest :=
    List.forall_mem_cons.2 ⟨matchesText_chr ha, List.forall_mem_singleton.2 (matchesText_chr hb)⟩
  matchesText_between_full hchars (Nat.le_refl 2) rest

theorem matchesText_u8Hundreds_one {b c : Char} (hb : b.isDigit = true) (hc : c.isDigit = true)
    (rest : List Char) : MatchesText Grammar.u8Hundreds ['1', b, c] [] rest := by
  have htwo : Fails (R := Rule) (str "2") ('1' :: b :: c :: rest) :=
    fails_str_cons rfl (by decide) _
  exact (htwo.append _).orElse_matchesText ((matchesText_str "1" _).append
    (matchesText_pair hb hc rest))

theorem matchesText_u8Hundreds_two {b c : Char}
    (h : ('0' ≤ b && b ≤ '4' && c.isDigit || (b = '5' && '0' ≤ c && c ≤ '5')) = true)
    (rest : List Char) : MatchesText Grammar.u8Hundreds ['2', b, c] [] rest := by
  refine MatchesText.orElse ((matchesText_str "2" _).append ?_) _
  simp only [Bool.or_eq_true, Bool.and_eq_true, decide_eq_true_eq] at h
  rcases h with ⟨hb, hc⟩ | ⟨⟨rfl, hlow⟩, hhigh⟩
  · have hfirst : MatchesText (R := Rule) (chr fun c => '0' ≤ c && c ≤ '4') [b] [] (c :: rest) :=
      matchesText_chr (by simpa using hb) _
    exact (hfirst.append (matchesText_chr hc rest)).orElse _
  · have hfirst : Fails (R := Rule) (chr fun c => '0' ≤ c && c ≤ '4') ('5' :: c :: rest) := by
      refine fails_chr ?_
      rintro _ ⟨⟩
      rfl
    exact (hfirst.append _).orElse_matchesText
      (matchesText_pair (by decide) (by simpa using ⟨hlow, hhigh⟩) rest)

/-- The text of a byte is read up to what is no digit. -/
theorem matchesText_u8 (h : isU8Text text = true) (hrest : ∀ c ∈ rest.head?, c.isDigit = false) :
    MatchesText Grammar.u8 text [.leaf .u8 text] rest := by
  suffices hread : MatchesText (Grammar.u8Hundreds <|> Grammar.tens <|> chr Char.isDigit) text []
    rest from hread.atomic Rule.u8
  unfold isU8Text at h
  split at h
  case h_1 a =>
    have hhundreds : Fails Grammar.u8Hundreds (a :: rest) := by
      refine fails_u8Hundreds fun b c more heq hb => ?_
      rw [hrest b (heq ▸ rfl)] at hb
      cases hb
    have htens : Fails Grammar.tens (a :: rest) := by
      refine fails_of_lang fun text pairs more hlang heq => ?_
      obtain ⟨_, _, _, _, ⟨c, -, rfl, -⟩, ⟨d, hd, rfl, -⟩, rfl, -⟩ := hlang
      rw [hrest d ((List.cons.inj heq).2 ▸ rfl)] at hd
      cases hd
    exact hhundreds.orElse_matchesText (htens.orElse_matchesText (matchesText_chr h rest))
  case h_2 a b =>
    simp only [Bool.and_eq_true, decide_eq_true_eq] at h
    have hhundreds : Fails Grammar.u8Hundreds (a :: b :: rest) :=
      fails_u8Hundreds fun b' c more heq _ => hrest c ((List.cons.inj heq).2 ▸ rfl)
    have hfirst : MatchesText (R := Rule) (chr fun c => '1' ≤ c && c ≤ '9') [a] [] (b :: rest) :=
      matchesText_chr (by simpa using h.1) _
    exact hhundreds.orElse_matchesText ((hfirst.append (matchesText_chr h.2 rest)).orElse _)
  case h_3 b c =>
    rw [Bool.and_eq_true] at h
    exact (matchesText_u8Hundreds_one h.1 h.2 rest).orElse _
  case h_4 b c => exact (matchesText_u8Hundreds_two h rest).orElse _
  case h_5 => cases h

/-! ## Addresses -/

/-- A byte and a dot, before the bytes after it. -/
theorem matchesText_ip4Inner (addr : Ipv4Addr) (hrest : ∀ c ∈ rest.head?, c.isDigit = false) :
    ∃ inner, MatchesText Grammar.ip4Inner addr.toText [.node .ip4Inner addr.toText inner] rest := by
  obtain ⟨a, b, c, d, -, ⟨ha, hb, hc, hd⟩, htext⟩ := addr.exists_octets
  have hdot (text : List Char) : ∀ c ∈ ('.' :: text).head?, c.isDigit = false := by
    rintro _ ⟨⟩
    rfl
  have hstr (text : List Char) : MatchesText (R := Rule) (str ".") ['.'] [] text :=
    matchesText_str "." text
  have hread := (matchesText_u8 (isU8Text_toString ha) (hdot _)).append ((hstr _).append
    ((matchesText_u8 (isU8Text_toString hb) (hdot _)).append ((hstr _).append
      ((matchesText_u8 (isU8Text_toString hc) (hdot _)).append ((hstr _).append
        (matchesText_u8 (isU8Text_toString hd) hrest))))))
  rw [htext]
  exact ⟨_, hread.rule .ip4Inner⟩

/-- Digits that end without a dot are no address. -/
theorem fails_ip4Inner {digits : List Char} (hdigits : ∀ c ∈ digits, c.isDigit = true)
    (hrest : ∀ c ∈ rest.head?, c.isDigit = false ∧ c ≠ '.') :
    Fails Grammar.ip4Inner (digits ++ rest) := by
  refine fails_of_lang fun text pairs more hlang heq => ?_
  obtain ⟨_, ⟨a, _, _, _, ha, ⟨_, _, after, _, ⟨rfl, -⟩, -, rfl, -⟩, rfl, -⟩, -⟩ := hlang
  have hleft : (a ++ '.' :: (after ++ more)).dropWhile Char.isDigit = '.' :: (after ++ more) :=
    dropWhile_append_of_head (isByteText_of_lang ha).digits (by rintro _ ⟨⟩; rfl)
  have hright := dropWhile_append_of_head hdigits fun c hc => (hrest c hc).1
  have hsame : a ++ '.' :: (after ++ more) = digits ++ rest := by
    rw [← heq]
    simp
  rw [hsame, hright] at hleft
  exact (hrest '.' (hleft ▸ rfl)).2 rfl

/-! ## Addresses of version 6 -/

theorem fails_hexaLower (hrest : ∀ c ∈ rest.head?, (c.isDigit || ('a' ≤ c && c ≤ 'f')) = false) :
    Fails Grammar.hexaLower rest := fails_chr hrest

theorem fails_ip6Seg (hrest : ∀ c ∈ rest.head?, (c.isDigit || ('a' ≤ c && c ≤ 'f')) = false) :
    Fails Grammar.ip6Seg rest := by
  have hall : MatchesAll Grammar.hexaLower [] rest := fails_hexaLower hrest
  exact hall.fails_between (Nat.zero_lt_one) (Nat.zero_le _)

/-- A group is read up to what is no digit. -/
theorem matchesText_ip6Seg {segment : Nat} (hlt : segment < 65536)
    (hrest : ∀ c ∈ rest.head?, (c.isDigit || ('a' ≤ c && c ≤ 'f')) = false) :
    MatchesText Grammar.ip6Seg (segmentText segment) [] rest := by
  have htext := isSegmentText_segmentText segment
  exact matchesText_between_chars (fun c hc => matchesText_chr (htext.digits c hc))
    (fails_hexaLower hrest) (List.length_pos_of_ne_nil htext.ne_nil) (htext.length_le 3 hlt)

/-- A group with a colon after it, or before it. -/
def groupParts (print : Nat → List Char) (segments : List Nat) :
    List (List Char × List (Pair Rule)) :=
  segments.map fun s => (print s, [])

theorem flatMap_groupParts (print : Nat → List Char) (segments : List Nat) :
    (groupParts print segments).flatMap Prod.fst = segments.flatMap print ∧
      (groupParts print segments).flatMap Prod.snd = [] := by
  constructor
  · rw [groupParts, List.flatMap_map]
  · rw [groupParts, List.flatMap_map]
    exact List.flatMap_eq_nil_iff.2 fun _ _ => rfl

theorem toText_colon (rest : List Char) :
    ∀ c ∈ (':' :: rest).head?, (c.isDigit || ('a' ≤ c && c ≤ 'f')) = false := by
  rintro _ ⟨⟩
  rfl

/-- Groups before colons are read up to what is no such group. -/
theorem matchesAll_segColon {segments : List Nat} (hlt : ∀ s ∈ segments, s < 65536)
    (hrest : Fails (Grammar.ip6Seg ++ str ":") rest) :
    MatchesAll (Grammar.ip6Seg ++ str ":")
      (groupParts (fun s => segmentText s ++ [':']) segments) rest := by
  induction segments with
  | nil => exact hrest
  | cons segment segments ih =>
      obtain ⟨hsegment, hsegments⟩ := List.forall_mem_cons.1 hlt
      refine ⟨List.append_ne_nil_of_right_ne_nil _ (List.cons_ne_nil _ _), ?_, ih hsegments⟩
      exact (matchesText_ip6Seg hsegment (toText_colon _)).append (matchesText_str ":" _)

/-- Groups after colons are read up to what is no such group. -/
theorem matchesAll_colonSeg {segments : List Nat} (hlt : ∀ s ∈ segments, s < 65536)
    (hrest : Fails (str ":" ++ Grammar.ip6Seg) rest)
    (hhead : ∀ c ∈ rest.head?, (c.isDigit || ('a' ≤ c && c ≤ 'f')) = false) :
    MatchesAll (str ":" ++ Grammar.ip6Seg)
      (groupParts (fun s => ':' :: segmentText s) segments) rest := by
  induction segments with
  | nil => exact hrest
  | cons segment segments ih =>
      obtain ⟨hsegment, hsegments⟩ := List.forall_mem_cons.1 hlt
      refine ⟨List.cons_ne_nil _ _, ?_, ih hsegments⟩
      refine (matchesText_str ":" _).append (matchesText_ip6Seg hsegment ?_)
      cases segments with
      | nil => exact hhead
      | cons segment segments => exact toText_colon _

theorem fmtSubslice_cons_append (segment : Nat) (segments : List Nat) (rest : List Char) :
    fmtSubslice (segment :: segments) ++ ':' :: rest =
      (segment :: segments).flatMap (fun s => segmentText s ++ [':']) ++ rest := by
  induction segments generalizing segment with
  | nil => simp [fmtSubslice, colonGroups]
  | cons next segments ih =>
      have hnext := ih next
      simp only [fmtSubslice, colonGroups, List.flatMap_cons, List.append_assoc, List.cons_append,
        List.nil_append] at hnext ⊢
      rw [hnext]

theorem fmtSubslice_concat (segments : List Nat) (last : Nat) :
    fmtSubslice (segments ++ [last]) =
      segments.flatMap (fun s => segmentText s ++ [':']) ++ segmentText last := by
  cases segments with
  | nil => simp [fmtSubslice, colonGroups]
  | cons segment segments =>
      rw [← fmtSubslice_cons_append]
      simp [fmtSubslice, colonGroups]

/-- A text at which the groups of an address end. -/
def EndsIp6 (rest : List Char) : Prop :=
  ∀ c ∈ rest.head?, (c.isDigit || ('a' ≤ c && c ≤ 'f')) = false ∧ c ≠ ':'

section Groups

variable {segments : List Nat} (hlt : ∀ s ∈ segments, s < 65536)

include hlt in
/-- The groups after the run of zeros. -/
theorem matchesText_tail (hlength : segments.length ≤ 7) (hrest : EndsIp6 rest) :
    MatchesText (between 0 6 (Grammar.ip6Seg ++ str ":") ++ opt Grammar.ip6Seg)
      (fmtSubslice segments) [] rest := by
  have hfails : Fails Grammar.ip6Seg rest := fails_ip6Seg fun c hc => (hrest c hc).1
  rcases List.eq_nil_or_concat segments with rfl | ⟨init, last, rfl⟩
  · have hnone : MatchesAll (Grammar.ip6Seg ++ str ":") [] rest := hfails.append _
    exact (matchesText_between hnone (Nat.le_refl 0) (Nat.zero_le 6)).append hfails.opt
  · rw [List.concat_eq_append] at hlt hlength ⊢
    obtain ⟨hinit, hlast⟩ := List.forall_mem_append.1 hlt
    have hseg := matchesText_ip6Seg (hlast last List.mem_cons_self) fun c hc => (hrest c hc).1
    have hstop : Fails (Grammar.ip6Seg ++ str ":") (segmentText last ++ rest) :=
      hseg.append_fails (fails_str_of_head (c := ':') rfl fun h => (hrest ':' h).2 rfl)
    have hmost : (groupParts (fun s => segmentText s ++ [':']) init).length ≤ 6 := by
      rw [List.length_append, List.length_singleton] at hlength
      rw [groupParts, List.length_map]
      omega
    have hparts := matchesText_between (matchesAll_segColon hinit hstop) (Nat.zero_le _) hmost
    rw [(flatMap_groupParts _ _).1, (flatMap_groupParts _ _).2] at hparts
    rw [fmtSubslice_concat]
    exact hparts.append hseg.opt

include hlt in
/-- The groups before the run of zeros. -/
theorem matchesText_head (hlength : segments.length ≤ 7) :
    MatchesText (opt Grammar.ip6Seg ++ between 0 6 (str ":" ++ Grammar.ip6Seg))
      (fmtSubslice segments) [] (':' :: ':' :: rest) := by
  have hfails : Fails (str ":" ++ Grammar.ip6Seg) (':' :: ':' :: rest) :=
    (matchesText_str ":" (':' :: rest)).append_fails (fails_ip6Seg (toText_colon rest))
  cases segments with
  | nil =>
      have hnone : MatchesAll (str ":" ++ Grammar.ip6Seg) [] (':' :: ':' :: rest) := hfails
      exact (fails_ip6Seg (toText_colon _)).opt.append
        (matchesText_between hnone (Nat.le_refl 0) (Nat.zero_le 6))
  | cons segment segments =>
      obtain ⟨hsegment, hsegments⟩ := List.forall_mem_cons.1 hlt
      have hmost : (groupParts (fun s => ':' :: segmentText s) segments).length ≤ 6 := by
        rw [groupParts, List.length_map]
        exact Nat.le_of_succ_le_succ hlength
      have hparts := matchesText_between
        (matchesAll_colonSeg hsegments hfails (toText_colon _)) (Nat.zero_le _) hmost
      rw [(flatMap_groupParts _ _).1, (flatMap_groupParts _ _).2] at hparts
      refine (matchesText_ip6Seg hsegment ?_).opt.append hparts
      cases segments with
      | nil => exact toText_colon _
      | cons next segments => exact toText_colon _

include hlt in
/-- Groups in full are read only if there are eight. -/
theorem fails_ip6Full (hlength : segments.length < 7) :
    Fails Grammar.ip6Full (fmtSubslice segments ++ ':' :: ':' :: rest) := by
  cases segments with
  | nil =>
      have hnone : MatchesAll (Grammar.ip6Seg ++ str ":") [] (':' :: ':' :: rest) :=
        (fails_ip6Seg (toText_colon _)).append _
      exact (hnone.fails_between (by decide) (by decide)).append _
  | cons segment segments =>
      have hall := matchesAll_segColon hlt
        ((fails_ip6Seg (toText_colon rest)).append (str ":"))
      have hcount : (groupParts (fun s => segmentText s ++ [':']) (segment :: segments)).length =
          (segment :: segments).length := List.length_map _
      have hfails := hall.fails_between (hcount ▸ hlength) (hcount ▸ Nat.le_of_lt hlength)
      rw [(flatMap_groupParts _ _).1, ← fmtSubslice_cons_append] at hfails
      exact hfails.append _

end Groups

/-- An address that is printed without dots is read up to what ends it. -/
theorem matchesText_ip6Inner {addr : Ipv6Addr} (h : ¬ addr.EmbedsIpv4) (hrest : EndsIp6 rest) :
    MatchesText Grammar.ip6Inner addr.toText [.leaf .ip6Inner addr.toText] rest := by
  have hlt := addr.segments_lt
  have hlength := addr.length_segments
  suffices hread : MatchesText (Grammar.ip6Full <|> Grammar.ip6NoFull) addr.toText [] rest from
    hread.atomic Rule.ip6Inner
  cases Ipv6Addr.printsGroups h with
  | compressed head tail zeros hzeros hsegments htext =>
      rw [hsegments] at hlt hlength
      rw [List.forall_mem_append, List.forall_mem_append] at hlt
      rw [List.length_append, List.length_append, List.length_replicate] at hlength
      have hfull : Fails Grammar.ip6Full (addr.toText ++ rest) := by
        rw [htext, List.append_assoc]
        exact fails_ip6Full hlt.1.1 (by omega)
      have hhead := @matchesText_head (fmtSubslice tail ++ rest) _ hlt.1.1 (by omega)
      have hzeros : MatchesText (R := Rule) (str "::") [':', ':'] [] (fmtSubslice tail ++ rest) :=
        matchesText_str "::" _
      have hnoFull := (hhead.append hzeros).append (matchesText_tail hlt.2 (by omega) hrest)
      rw [List.append_assoc] at hnoFull
      exact hfull.orElse_matchesText (htext ▸ hnoFull.append_assoc)
  | full htext =>
      obtain ⟨init, last, hsegments⟩ := List.eq_nil_or_concat addr.segments |>.resolve_left
        (List.ne_nil_of_length_pos (hlength ▸ Nat.zero_lt_succ 7))
      rw [List.concat_eq_append] at hsegments
      rw [hsegments] at hlt hlength
      obtain ⟨hinit, hlast⟩ := List.forall_mem_append.1 hlt
      have hcount : (groupParts (fun s => segmentText s ++ [':']) init).length = 7 := by
        rw [groupParts, List.length_map]
        rw [List.length_append, List.length_singleton] at hlength
        exact Nat.succ.inj hlength
      have hseg := matchesText_ip6Seg (hlast last List.mem_cons_self) fun c hc => (hrest c hc).1
      have hstop : Fails (Grammar.ip6Seg ++ str ":") (segmentText last ++ rest) :=
        hseg.append_fails (fails_str_of_head (c := ':') rfl fun h => (hrest ':' h).2 rfl)
      have hparts := matchesText_between (matchesAll_segColon hinit hstop) hcount.ge hcount.le
      rw [(flatMap_groupParts _ _).1, (flatMap_groupParts _ _).2] at hparts
      have hfull := hparts.append hseg
      rw [← fmtSubslice_concat, ← hsegments, ← htext] at hfull
      exact hfull.orElse _

/-! ## Addresses with dots -/

/-- The characters of an address of version 6 without dots. -/
def IsIp6Char (c : Char) : Prop := (c.isDigit || ('a' ≤ c && c ≤ 'f')) = true ∨ c = ':'

instance (c : Char) : Decidable (IsIp6Char c) := inferInstanceAs (Decidable (_ ∨ _))

theorem within_ip6 : Within IsIp6Char (Grammar.ip6Full <|> Grammar.ip6NoFull) := by
  have hseg : Within IsIp6Char Grammar.ip6Seg := (within_chr fun c hc => Or.inl hc).between 1 4
  have hcolon : Within (R := Rule) IsIp6Char (str ":") := within_str (by decide)
  have hcolons : Within (R := Rule) IsIp6Char (str "::") := within_str (by decide)
  exact (((hseg.append hcolon).between 7 7).append hseg).orElse
    ((((hseg.opt.append ((hcolon.append hseg).between 0 6)).append hcolons).append
      ((hseg.append hcolon).between 0 6)).append hseg.opt)

/-- An address that embeds one of version 4 is printed with dots. -/
theorem Ipv6Addr.EmbedsIpv4.exists_dot {addr : Ipv6Addr} (h : addr.EmbedsIpv4) :
    ∃ front back, addr.toText = front ++ '.' :: back ∧ ∀ c ∈ front, IsIp6Char c := by
  obtain ⟨a, b, c, d, -, -, htext⟩ := Ipv4Addr.exists_octets (addr.setWidth 32)
  have hfront (colons : List Char) (hcolons : ∀ c ∈ colons, IsIp6Char c) :
      ∃ front back, colons ++ Ipv4Addr.toText (addr.setWidth 32) = front ++ '.' :: back ∧
        ∀ c ∈ front, IsIp6Char c := by
    rw [htext, ← List.append_assoc]
    refine ⟨_, _, rfl, List.forall_mem_append.2 ⟨hcolons, fun c hc => Or.inl ?_⟩⟩
    rw [isDigit_of_mem_toString hc, Bool.true_or]
  have htext : addr.toText = "::".toList ++ Ipv4Addr.toText (addr.setWidth 32) ∨
      addr.toText = "::ffff:".toList ++ Ipv4Addr.toText (addr.setWidth 32) := by
    rcases h with ⟨hcompatible, hzero, hone⟩ | hmapped
    · exact Or.inl (by simp only [toText, if_neg hzero, if_neg hone, if_pos hcompatible])
    · have hne (last : Nat) : addr.segments ≠ [0, 0, 0, 0, 0, 0, 0, last] := by
        intro heq
        rw [heq] at hmapped
        simp at hmapped
      have hcompatible : addr.segments.take 6 ≠ [0, 0, 0, 0, 0, 0] := by
        rw [hmapped]
        decide
      exact Or.inr (by
        simp only [toText, if_neg (hne 0), if_neg (hne 1), if_neg hcompatible, if_pos hmapped])
  rcases htext with htext | htext
  · exact htext ▸ hfront _ (by decide)
  · exact htext ▸ hfront _ (by decide)

/-- An address with dots is not read. -/
theorem fails_ip6 {addr : Ipv6Addr} (h : addr.EmbedsIpv4) (rest : List Char) :
    Fails Grammar.ip6 ('[' :: addr.toText ++ rest) := by
  obtain ⟨front, back, htext, hfront⟩ := h.exists_dot
  refine fails_of_lang fun text pairs more hlang heq => ?_
  obtain ⟨_, _, _, _, ⟨_, _, inner, _, ⟨rfl, -⟩, ⟨⟨_, hinner⟩, -⟩, rfl, -⟩, ⟨rfl, -⟩, rfl, -⟩ :=
    hlang
  have hsame : inner ++ ']' :: (' ' :: more) = front ++ '.' :: (back ++ rest) := by
    rw [htext] at heq
    simpa using heq
  have hleft : (inner ++ ']' :: (' ' :: more)).dropWhile (fun c => decide (IsIp6Char c)) =
      ']' :: (' ' :: more) := dropWhile_append_of_head
    (fun c hc => decide_eq_true (within_ip6 _ _ hinner c hc)) (by rintro _ ⟨⟩; rfl)
  have hright : (front ++ '.' :: (back ++ rest)).dropWhile (fun c => decide (IsIp6Char c)) =
      '.' :: (back ++ rest) := dropWhile_append_of_head
    (fun c hc => decide_eq_true (hfront c hc)) (by rintro _ ⟨⟩; rfl)
  rw [hsame, hright] at hleft
  exact absurd (List.cons.inj hleft).1 (by decide)

end Durs.Network
