/-
# Printed addresses

The text that the standard library prints for the address of a host.  The longest run of zero groups
of an address of version 6 is left out, and one that embeds an address of version 4 is printed with
dots.  An address that is printed without dots is read back.
-/

import Durs.Network.Addresses
import Durs.Network.Endpoints

namespace Durs.Network

open RustStd

/-! ## Printing -/

/-- The four bytes of an address of version 4. -/
def Ipv4Addr.octets (addr : Ipv4Addr) : List Nat :=
  (List.range 4).map fun i => addr.toNat / 256 ^ (3 - i) % 256

/-- `Display for Ipv4Addr` -/
def Ipv4Addr.toText (addr : Ipv4Addr) : List Char :=
  ['.'].intercalate (addr.octets.map fun octet => (toString octet).toList)

/-- The eight groups of an address of version 6. -/
def Ipv6Addr.segments (addr : Ipv6Addr) : List Nat :=
  (List.range 8).map fun i => addr.toNat / 65536 ^ (7 - i) % 65536

/-- A group in lower-case hexadecimal. -/
def segmentText (segment : Nat) : List Char := Nat.toDigits 16 segment

/-- Groups after colons. -/
def colonGroups (segments : List Nat) : List Char :=
  segments.flatMap fun s => ':' :: segmentText s

/-- `fmt_subslice`: some groups with colons between them. -/
def fmtSubslice : List Nat → List Char
  | [] => []
  | segment :: segments => segmentText segment ++ colonGroups segments

/-- The longest run of zeros found so far and the current one. -/
structure ZeroSpans where
  longestLen : Nat
  longestAt : Nat
  curLen : Nat
  curAt : Nat

/-- Look at the next group. -/
def ZeroSpans.next (spans : ZeroSpans) (entry : Nat × Nat) : ZeroSpans :=
  let (segment, i) := entry
  if segment = 0 then
    let curAt := if spans.curLen = 0 then i else spans.curAt
    let curLen := spans.curLen + 1
    if spans.longestLen < curLen then
      { longestLen := curLen, longestAt := curAt, curLen, curAt }
    else { spans with curLen, curAt }
  else { spans with curLen := 0, curAt := 0 }

/-- `find_zero_slice`: where the longest run of zeros starts, and its length. -/
def findZeroSlice (segments : List Nat) : Nat × Nat :=
  let spans := segments.zipIdx.foldl ZeroSpans.next
    { longestLen := 0, longestAt := 0, curLen := 0, curAt := 0 }
  (spans.longestAt, spans.longestLen)

/-- `Display for Ipv6Addr` -/
def Ipv6Addr.toText (addr : Ipv6Addr) : List Char :=
  let segments := addr.segments
  let ipv4 : Ipv4Addr := addr.setWidth 32
  if segments = [0, 0, 0, 0, 0, 0, 0, 0] then "::".toList
  else if segments = [0, 0, 0, 0, 0, 0, 0, 1] then "::1".toList
  -- an address that is compatible with version 4, or is mapped from it
  else if segments.take 6 = [0, 0, 0, 0, 0, 0] then "::".toList ++ ipv4.toText
  else if segments.take 6 = [0, 0, 0, 0, 0, 65535] then "::ffff:".toList ++ ipv4.toText
  else
    let (zerosAt, zerosLen) := findZeroSlice segments
    if 1 < zerosLen then
      fmtSubslice (segments.take zerosAt) ++ "::".toList ++
        fmtSubslice (segments.drop (zerosAt + zerosLen))
    else fmtSubslice segments

/-- Whether an address is printed with dots. -/
def Ipv6Addr.EmbedsIpv4 (addr : Ipv6Addr) : Prop :=
  (addr.segments.take 6 = [0, 0, 0, 0, 0, 0] ∧ addr.segments ≠ [0, 0, 0, 0, 0, 0, 0, 0] ∧
    addr.segments ≠ [0, 0, 0, 0, 0, 0, 0, 1]) ∨
  addr.segments.take 6 = [0, 0, 0, 0, 0, 65535]

instance (addr : Ipv6Addr) : Decidable addr.EmbedsIpv4 :=
  inferInstanceAs (Decidable ((_ ∧ _ ∧ _) ∨ _))

/-! ## The longest run of zeros -/

/-- So many groups from an index are zero. -/
def ZerosAt (segments : List Nat) (i count : Nat) : Prop :=
  i + count ≤ segments.length ∧ ∀ k < count, segments[i + k]? = some 0

/-- The runs that are kept are runs of zeros among the groups looked at. -/
structure ZeroSpans.Holds (done : List Nat) (spans : ZeroSpans) : Prop where
  longest : ZerosAt done spans.longestAt spans.longestLen
  current : ZerosAt done spans.curAt spans.curLen
  reaches : spans.curLen = 0 ∨ spans.curAt + spans.curLen = done.length

theorem ZerosAt.append {done : List Nat} {i count : Nat} (h : ZerosAt done i count) (s : Nat) :
    ZerosAt (done ++ [s]) i count := by
  refine ⟨by rw [List.length_append]; exact Nat.le_add_right_of_le h.1, fun k hk => ?_⟩
  rw [List.getElem?_append_left (Nat.lt_of_lt_of_le (Nat.add_lt_add_left hk i) h.1)]
  exact h.2 k hk

/-- A run of zeros that reaches the end is continued by one more. -/
theorem ZerosAt.succ {done : List Nat} {i count : Nat} (h : ZerosAt done i count)
    (hreaches : i + count = done.length) : ZerosAt (done ++ [0]) i (count + 1) := by
  refine ⟨by rw [List.length_append, List.length_singleton]; omega, fun k hk => ?_⟩
  rcases Nat.lt_succ_iff_lt_or_eq.1 hk with hlt | rfl
  · exact (h.append 0).2 k hlt
  · rw [hreaches, List.getElem?_append_right (Nat.le_refl _), Nat.sub_self]
    rfl

/-- The current run, continued by a zero. -/
theorem ZeroSpans.Holds.continued {done : List Nat} {spans : ZeroSpans} (h : spans.Holds done) :
    ZerosAt (done ++ [0]) (if spans.curLen = 0 then done.length else spans.curAt)
      (spans.curLen + 1) := by
  by_cases hzero : spans.curLen = 0
  · have hempty : ZerosAt done done.length 0 := ⟨Nat.le_refl _, nofun⟩
    rw [if_pos hzero, hzero]
    exact hempty.succ rfl
  · rw [if_neg hzero]
    exact h.current.succ (h.reaches.resolve_left hzero)

theorem ZeroSpans.Holds.next {done : List Nat} {spans : ZeroSpans} (h : spans.Holds done)
    (segment : Nat) : (spans.next (segment, done.length)).Holds (done ++ [segment]) := by
  have hlength : (done ++ [segment]).length = done.length + 1 := List.length_append
  simp only [ZeroSpans.next]
  by_cases hsegment : segment = 0
  · subst hsegment
    have hreaches : (if spans.curLen = 0 then done.length else spans.curAt) +
        (spans.curLen + 1) = (done ++ [0]).length := by
      rw [hlength]
      split
      case isTrue hzero => omega
      case isFalse hne =>
        have hend := h.reaches.resolve_left hne
        omega
    rw [if_pos rfl]
    split
    case isTrue => exact ⟨h.continued, h.continued, Or.inr hreaches⟩
    case isFalse => exact ⟨h.longest.append 0, h.continued, Or.inr hreaches⟩
  · rw [if_neg hsegment]
    exact ⟨h.longest.append segment, ⟨Nat.zero_le _, nofun⟩, Or.inl rfl⟩

theorem holds_foldl_next (segments : List Nat) : (segments.zipIdx.foldl ZeroSpans.next
    { longestLen := 0, longestAt := 0, curLen := 0, curAt := 0 }).Holds segments := by
  induction segments using List.reverseRecOn with
  | nil => exact ⟨⟨Nat.le_refl _, nofun⟩, ⟨Nat.le_refl _, nofun⟩, Or.inl rfl⟩
  | append_singleton done segment ih =>
      rw [List.zipIdx_append, List.foldl_append, Nat.zero_add]
      exact ih.next segment

/-- The groups are those before the run that is left out, its zeros, and those after it. -/
theorem eq_of_findZeroSlice {segments : List Nat} {zerosAt zerosLen : Nat}
    (h : findZeroSlice segments = (zerosAt, zerosLen)) :
    zerosAt + zerosLen ≤ segments.length ∧ segments = segments.take zerosAt ++
      (List.replicate zerosLen 0 ++ segments.drop (zerosAt + zerosLen)) := by
  obtain ⟨rfl, rfl⟩ := Prod.mk.inj h
  obtain ⟨hle, hzeros⟩ := (holds_foldl_next segments).longest
  generalize (segments.zipIdx.foldl ZeroSpans.next _).longestAt = zerosAt at hle hzeros
  generalize (segments.zipIdx.foldl ZeroSpans.next _).longestLen = zerosLen at hle hzeros
  refine ⟨hle, ?_⟩
  have hslice : (segments.drop zerosAt).take zerosLen = List.replicate zerosLen 0 := by
    refine List.ext_getElem? fun k => ?_
    rw [List.getElem?_take, List.getElem?_replicate]
    split
    case isTrue hk => rw [List.getElem?_drop, hzeros k hk]
    case isFalse => rfl
  conv_lhs => rw [← List.take_append_drop zerosAt segments,
    ← List.take_append_drop zerosLen (segments.drop zerosAt), hslice, List.drop_drop]

/-! ## Printed groups -/

theorem hexValue_digitChar : ∀ d < 16, hexValue (Nat.digitChar d) = some d := by decide

theorem isHexaLower_digitChar : ∀ d < 16,
    ((Nat.digitChar d).isDigit || ('a' ≤ Nat.digitChar d && Nat.digitChar d ≤ 'f')) = true := by
  decide

/-- A group is printed in lower-case digits that write it. -/
structure IsSegmentText (text : List Char) (segment : Nat) : Prop where
  ne_nil : text ≠ []
  digits : ∀ c ∈ text, (c.isDigit || ('a' ≤ c && c ≤ 'f')) = true
  number : digitsNumber 16 text = segment
  length_le : ∀ count, segment < 16 ^ (count + 1) → text.length ≤ count + 1

theorem isSegmentText_segmentText (segment : Nat) :
    IsSegmentText (segmentText segment) segment := by
  induction segment using Nat.strongRecOn with
  | ind n ih =>
      rcases Nat.lt_or_ge n 16 with hlt | hge
      · have htext : segmentText n = [Nat.digitChar n] := Nat.toDigits_of_lt_base hlt
        rw [htext]
        refine ⟨List.cons_ne_nil _ _, List.forall_mem_singleton.2 (isHexaLower_digitChar n hlt), ?_,
          fun count _ => Nat.le_add_left 1 count⟩
        simp [digitsNumber, hexValue_digitChar n hlt]
      · have hlast : n % 16 < 16 := Nat.mod_lt _ (by decide)
        have htext : segmentText n = segmentText (n / 16) ++ [Nat.digitChar (n % 16)] := by
          have happend := Nat.toDigits_append_toDigits (b := 16) (by decide)
            (Nat.div_pos hge (by decide)) hlast
          rw [Nat.div_add_mod, Nat.toDigits_of_lt_base hlast] at happend
          exact happend.symm
        have hquotient : n / 16 < n := Nat.div_lt_self (by omega) (by decide)
        obtain ⟨-, hdigits, hnumber, hlength⟩ := ih (n / 16) hquotient
        rw [htext]
        refine ⟨List.append_ne_nil_of_right_ne_nil _ (List.cons_ne_nil _ _),
          List.forall_mem_append.2
            ⟨hdigits, List.forall_mem_singleton.2 (isHexaLower_digitChar _ hlast)⟩, ?_, ?_⟩
        · rw [digitsNumber, List.foldl_append]
          show 16 * digitsNumber 16 (segmentText (n / 16)) +
            (hexValue (Nat.digitChar (n % 16))).getD 0 = n
          rw [hnumber, hexValue_digitChar _ hlast, Option.getD_some]
          omega
        · intro count hcount
          cases count with
          | zero => omega
          | succ count =>
              have hquotient : n / 16 < 16 ^ (count + 1) :=
                Nat.div_lt_of_lt_mul (by rwa [Nat.pow_succ, Nat.mul_comm] at hcount)
              rw [List.length_append, List.length_singleton]
              exact Nat.succ_le_succ (hlength count hquotient)

theorem not_mem_segmentText {c : Char} (hc : (c.isDigit || ('a' ≤ c && c ≤ 'f')) = false)
    (segment : Nat) : c ∉ segmentText segment := by
  intro hmem
  rw [(isSegmentText_segmentText segment).digits c hmem] at hc
  cases hc

theorem not_mem_colonGroups {c : Char} (hc : (c.isDigit || ('a' ≤ c && c ≤ 'f')) = false)
    (hcolon : c ≠ ':') (segments : List Nat) : c ∉ colonGroups segments := by
  intro hmem
  rcases List.mem_flatMap.1 hmem with ⟨s, -, hs⟩
  rcases List.mem_cons.1 hs with rfl | hs
  · exact hcolon rfl
  · exact not_mem_segmentText hc s hs

/-- The characters of some printed groups. -/
theorem not_mem_fmtSubslice {c : Char} (hc : (c.isDigit || ('a' ≤ c && c ≤ 'f')) = false)
    (hcolon : c ≠ ':') (segments : List Nat) : c ∉ fmtSubslice segments := by
  cases segments with
  | nil => exact List.not_mem_nil
  | cons segment segments =>
      intro hmem
      rcases List.mem_append.1 hmem with hmem | hmem
      · exact not_mem_segmentText hc segment hmem
      · exact not_mem_colonGroups hc hcolon segments hmem

/-! ## Reading what is printed -/

theorem isSome_toDigit_sixteen {c : Char} (h : (c.isDigit || ('a' ≤ c && c ≤ 'f')) = true) :
    (toDigit 16 c).isSome = true := by
  rcases hexValue_of_hexaLower h with ⟨digit, hvalue, hlt⟩
  rw [toDigit, hvalue, Option.filter_some, if_pos (decide_eq_true hlt), Option.isSome_some]

/-- A group is read up to the character after it. -/
theorem readNumber_segmentText {segment : Nat} (hlt : segment < 65536) {rest : List Char}
    (hrest : ∀ c ∈ rest.head?, (toDigit 16 c).isSome = false) :
    readNumber 16 4 65536 (segmentText segment ++ rest) = some (segment, rest) := by
  have htext := isSegmentText_segmentText segment
  rw [readNumber_append htext.ne_nil (htext.length_le 3 hlt)
    (fun c hc => isSome_toDigit_sixteen (htext.digits c hc)) (htext.number.symm ▸ hlt) hrest,
    htext.number]

theorem readGivenChar_eq_none {c : Char} {text : List Char} (h : c ∉ text) :
    readGivenChar c text = none := by
  cases text with
  | nil => rfl
  | cons c' text =>
      refine if_neg ?_
      rintro rfl
      exact h List.mem_cons_self

/-- A text without dots is not read as an address of version 4. -/
theorem readIpv4Addr_eq_none {text : List Char} (h : '.' ∉ text) : readIpv4Addr text = none := by
  cases hread : readNumber 10 3 256 text with
  | none => simp only [readIpv4Addr, hread, Option.bind_eq_bind, Option.bind_none]
  | some read =>
      have hrest : '.' ∉ read.2 := by
        simp only [readNumber] at hread
        split at hread
        case isTrue =>
          obtain rfl := Option.some.inj hread
          exact fun hmem => h ((List.dropWhile_suffix _).subset hmem)
        case isFalse => cases hread
      simp only [readIpv4Addr, hread, readGivenChar_eq_none hrest, Option.bind_eq_bind,
        Option.bind_some, Option.bind_none]

/-- A text at which the groups end: its end, or two colons. -/
inductive EndsGroups : List Char → Prop
  | nil : EndsGroups []
  | colons (text : List Char) : EndsGroups (':' :: ':' :: text)

theorem EndsGroups.toDigit_head {rest : List Char} (h : EndsGroups rest) :
    ∀ c ∈ rest.head?, (toDigit 16 c).isSome = false := by
  cases h with
  | nil => exact fun c hc => by cases hc
  | colons text =>
      rintro c ⟨⟩
      rfl

theorem readNumber_of_colon (radix maxDigits upto : Nat) (text : List Char) :
    readNumber radix maxDigits upto (':' :: text) = none := by
  simp only [readNumber]
  exact if_neg fun h => h.1 rfl

theorem EndsGroups.readGroups {rest : List Char} (h : EndsGroups rest) (hdots : '.' ∉ rest)
    (first : Bool) (limit : Nat) : readGroups first limit rest = ([], false, rest) := by
  cases limit with
  | zero => rfl
  | succ limit =>
      have hfront : ∀ text ∈ (if first then some rest else readGivenChar ':' rest),
          '.' ∉ text ∧ readNumber 16 4 65536 text = none := by
        intro text htext
        cases h with
        | nil =>
            cases first
            · cases htext
            · obtain rfl := Option.some.inj htext
              exact ⟨hdots, rfl⟩
        | colons rest =>
            cases first
            · obtain rfl := Option.some.inj htext
              exact ⟨fun hmem => hdots (List.mem_cons_of_mem _ hmem), readNumber_of_colon _ _ _ _⟩
            · obtain rfl := Option.some.inj htext
              exact ⟨hdots, readNumber_of_colon _ _ _ _⟩
      simp only [Network.readGroups]
      cases hcase : (if first then some rest else readGivenChar ':' rest) with
      | none => simp only [Option.bind_none, ite_self]
      | some text =>
          obtain ⟨hdot, hnumber⟩ := hfront text hcase
          simp only [Option.bind_some, readIpv4Addr_eq_none hdot, hnumber, ite_self]

/-- What comes after a group does not continue it. -/
theorem toDigit_head_colonGroups {rest : List Char} (h : EndsGroups rest) (segments : List Nat) :
    ∀ c ∈ (colonGroups segments ++ rest).head?, (toDigit 16 c).isSome = false := by
  cases segments with
  | nil => exact h.toDigit_head
  | cons segment segments =>
      rintro c ⟨⟩
      rfl

/-- A group and those after it, from those after it. -/
theorem readGroups_cons {first : Bool} {limit segment : Nat} {text rest left : List Char}
    {segments : List Nat} (hfront : (if first then some text else readGivenChar ':' text) =
      some (segmentText segment ++ rest)) (hlt : segment < 65536)
    (hdots : '.' ∉ segmentText segment ++ rest)
    (hrest : ∀ c ∈ rest.head?, (toDigit 16 c).isSome = false)
    (hread : readGroups false limit rest = (segments, false, left)) :
    readGroups first (limit + 1) text = (segment :: segments, false, left) := by
  simp only [readGroups, hfront, Option.bind_some, readIpv4Addr_eq_none hdots, ite_self,
    readNumber_segmentText hlt hrest, hread]

theorem readGroups_colonGroups {segments : List Nat} (hlt : ∀ s ∈ segments, s < 65536)
    {limit : Nat} (hlimit : segments.length ≤ limit) {rest : List Char} (hends : EndsGroups rest)
    (hdots : '.' ∉ rest) :
    readGroups false limit (colonGroups segments ++ rest) = (segments, false, rest) := by
  induction segments generalizing limit with
  | nil => exact hends.readGroups hdots false limit
  | cons segment segments ih =>
      obtain ⟨hsegment, hsegments⟩ := List.forall_mem_cons.1 hlt
      cases limit with
      | zero => cases hlimit
      | succ limit =>
          have htext : colonGroups (segment :: segments) ++ rest =
              ':' :: (segmentText segment ++ (colonGroups segments ++ rest)) := by
            simp only [colonGroups, List.flatMap_cons, List.cons_append, List.append_assoc]
          rw [htext]
          refine readGroups_cons rfl hsegment ?_ (toDigit_head_colonGroups hends segments)
            (ih hsegments (Nat.le_of_succ_le_succ hlimit))
          simp only [List.mem_append, not_or]
          exact ⟨not_mem_segmentText rfl segment, not_mem_colonGroups rfl (by decide) segments,
            hdots⟩

/-- Printed groups are read up to the end, or up to two colons. -/
theorem readGroups_fmtSubslice {segments : List Nat} (hlt : ∀ s ∈ segments, s < 65536)
    {limit : Nat} (hlimit : segments.length ≤ limit) {rest : List Char} (hends : EndsGroups rest)
    (hdots : '.' ∉ rest) :
    readGroups true limit (fmtSubslice segments ++ rest) = (segments, false, rest) := by
  cases segments with
  | nil => exact hends.readGroups hdots true limit
  | cons segment segments =>
      obtain ⟨hsegment, hsegments⟩ := List.forall_mem_cons.1 hlt
      cases limit with
      | zero => cases hlimit
      | succ limit =>
          refine readGroups_cons ?_ hsegment ?_
            (toDigit_head_colonGroups hends segments)
            (readGroups_colonGroups hsegments (Nat.le_of_succ_le_succ hlimit) hends hdots)
          · rw [if_pos rfl, fmtSubslice, List.append_assoc]
          · simp only [List.mem_append, not_or]
            exact ⟨not_mem_segmentText rfl segment, not_mem_colonGroups rfl (by decide) segments,
              hdots⟩

theorem Ipv6Addr.segments_lt (addr : Ipv6Addr) : ∀ s ∈ addr.segments, s < 65536 := by
  intro s hs
  rcases List.mem_map.1 hs with ⟨i, -, rfl⟩
  exact Nat.mod_lt _ (by decide)

theorem Ipv6Addr.length_segments (addr : Ipv6Addr) : addr.segments.length = 8 :=
  (List.length_map _).trans List.length_range

/-- An address is the number that its groups write. -/
theorem Ipv6Addr.ofNat_segments (addr : Ipv6Addr) : BitVec.ofNat 128
    (addr.segments.foldl (fun number group => 65536 * number + group) 0) = addr := by
  have hnumber := @foldl_digits 65536 addr.toNat 8
  have hpow : 65536 ^ 8 = 2 ^ 128 := by decide
  rw [hpow, Nat.mod_eq_of_lt addr.isLt] at hnumber
  rw [Ipv6Addr.segments, hnumber, BitVec.ofNat_toNat, BitVec.setWidth_eq]

/-- Groups with a run of zeros left out. -/
theorem readIpv6Addr_compressed {head tail : List Nat} {zeros : Nat} (hzeros : 1 < zeros)
    (hlength : head.length + zeros + tail.length = 8) (hhead : ∀ s ∈ head, s < 65536)
    (htail : ∀ s ∈ tail, s < 65536) :
    readIpv6Addr (fmtSubslice head ++ (':' :: ':' :: fmtSubslice tail)) =
      some (head ++ List.replicate zeros 0 ++ tail, []) := by
  have hdots : '.' ∉ ':' :: ':' :: fmtSubslice tail := by
    simp only [List.mem_cons, not_or]
    exact ⟨by decide, by decide, not_mem_fmtSubslice rfl (by decide) tail⟩
  have hfit : head.length ≤ 8 := by omega
  have hfit' : tail.length ≤ 8 - (head.length + 1) := by omega
  have hread := readGroups_fmtSubslice hhead hfit
    (EndsGroups.colons (fmtSubslice tail)) hdots
  have hread' := readGroups_fmtSubslice htail hfit'
    EndsGroups.nil List.not_mem_nil
  have hmissing : 8 - head.length - tail.length = zeros := by omega
  have hne : head.length ≠ 8 := by omega
  rw [List.append_nil] at hread'
  simp only [readIpv6Addr, hread, if_neg hne, readGivenChar, if_pos, Bool.false_eq_true, if_false,
    Option.bind_eq_bind, Option.bind_some, hread', hmissing, Option.pure_def]

/-- How an address is printed without dots: with a run of zeros left out, or in full. -/
inductive Ipv6Addr.PrintsGroups (addr : Ipv6Addr) : Prop
  | compressed (head tail : List Nat) (zeros : Nat) : 1 < zeros →
      addr.segments = head ++ List.replicate zeros 0 ++ tail →
      addr.toText = fmtSubslice head ++ (':' :: ':' :: fmtSubslice tail) → PrintsGroups addr
  | full : addr.toText = fmtSubslice addr.segments → PrintsGroups addr

theorem Ipv6Addr.printsGroups {addr : Ipv6Addr} (h : ¬ addr.EmbedsIpv4) : addr.PrintsGroups := by
  simp only [EmbedsIpv4, not_or, not_and] at h
  by_cases hzero : addr.segments = [0, 0, 0, 0, 0, 0, 0, 0]
  · exact .compressed [] [] 8 (by decide) hzero (by rw [toText, if_pos hzero]; rfl)
  by_cases hone : addr.segments = [0, 0, 0, 0, 0, 0, 0, 1]
  · exact .compressed [] [1] 7 (by decide) hone (by rw [toText, if_neg hzero, if_pos hone]; rfl)
  cases hslice : findZeroSlice addr.segments with
  | mk zerosAt zerosLen =>
      obtain ⟨hle, hsplit⟩ := eq_of_findZeroSlice hslice
      have htext : addr.toText = if 1 < zerosLen then
          fmtSubslice (addr.segments.take zerosAt) ++ "::".toList ++
            fmtSubslice (addr.segments.drop (zerosAt + zerosLen))
          else fmtSubslice addr.segments := by
        simp only [toText, if_neg hzero, if_neg hone, if_neg fun hfirst => h.1 hfirst hzero hone,
          if_neg h.2, hslice]
      by_cases hlong : 1 < zerosLen
      · rw [if_pos hlong, List.append_assoc] at htext
        exact .compressed _ _ zerosLen hlong ((List.append_assoc _ _ _).symm ▸ hsplit) htext
      · rw [if_neg hlong] at htext
        exact .full htext

/-- An address that is printed without dots is read back. -/
theorem Ipv6Addr.fromStr_toText {addr : Ipv6Addr} (h : ¬ addr.EmbedsIpv4) :
    Ipv6Addr.fromStr addr.toText = some addr := by
  have hread : readIpv6Addr addr.toText = some (addr.segments, []) := by
    have hlt := addr.segments_lt
    have hlength := addr.length_segments
    cases printsGroups h with
    | compressed head tail zeros hzeros hsegments htext =>
        rw [hsegments] at hlt hlength ⊢
        rw [List.forall_mem_append, List.forall_mem_append] at hlt
        rw [List.length_append, List.length_append, List.length_replicate] at hlength
        rw [htext, readIpv6Addr_compressed hzeros hlength hlt.1.1 hlt.2]
    | full htext =>
        have hfull := readGroups_fmtSubslice hlt (Nat.le_of_eq hlength)
          EndsGroups.nil List.not_mem_nil
        rw [List.append_nil] at hfull
        rw [htext]
        simp only [readIpv6Addr, hfull, hlength, if_pos]
  rw [fromStr, hread]
  exact congrArg some addr.ofNat_segments

/-! ## Addresses of version 4 -/

/-- A byte prints a text of three digits at most. -/
theorem isByteText_toString {n : Nat} (h : n < 256) : IsByteText (toString n).toList := by
  have hlength : ∀ n < 256, (Nat.toDigits 10 n).length ≤ 3 := by decide +kernel
  have htext : (toString n).toList = Nat.toDigits 10 n := Nat.toList_repr
  refine ⟨(isUInt_toString n).digits.1, htext ▸ hlength n h, fun c hc =>
    isDigit_of_mem_toString hc, ?_⟩
  rwa [htext, Nat.ofDigitChars_ten_toDigits]

/-- Four bytes are printed with dots between them. -/
theorem Ipv4Addr.exists_octets (addr : Ipv4Addr) : ∃ a b c d : Nat, addr.octets = [a, b, c, d] ∧
    (a < 256 ∧ b < 256 ∧ c < 256 ∧ d < 256) ∧ addr.toText = (toString a).toList ++
      '.' :: ((toString b).toList ++ '.' :: ((toString c).toList ++
        '.' :: (toString d).toList)) := by
  have hlt (i : Nat) : addr.toNat / 256 ^ (3 - i) % 256 < 256 := Nat.mod_lt _ (by decide)
  refine ⟨_, _, _, _, rfl, ⟨hlt 0, hlt 1, hlt 2, hlt 3⟩, ?_⟩
  simp only [toText, octets, List.range_succ, List.range_zero, List.nil_append, List.cons_append,
    List.map_cons, List.map_nil, List.intercalate_cons_cons, List.intercalate_singleton,
    List.append_assoc]

/-- An address of version 4 is read back. -/
theorem Ipv4Addr.fromStr_toText (addr : Ipv4Addr) : Ipv4Addr.fromStr addr.toText = some addr := by
  obtain ⟨a, b, c, d, hoctets, ⟨ha, hb, hc, hd⟩, htext⟩ := addr.exists_octets
  have hvalue (n : Nat) : Nat.ofDigitChars 10 (toString n).toList 0 = n :=
    (congrArg (Nat.ofDigitChars 10 · 0) Nat.toList_repr).trans Nat.ofDigitChars_ten_toDigits
  have hread : readIpv4Addr addr.toText = some (addr.octets, []) := by
    rw [htext, readIpv4Addr_bytes (isByteText_toString ha) (isByteText_toString hb)
      (isByteText_toString hc) (isByteText_toString hd), hoctets, hvalue, hvalue, hvalue, hvalue]
  have hnumber : addr.octets.foldl (fun number byte => 256 * number + byte) 0 =
      addr.toNat % 256 ^ 4 := foldl_digits addr.toNat 4
  have hpow : 256 ^ 4 = 2 ^ 32 := by decide
  rw [fromStr, hread]
  refine congrArg some ?_
  show BitVec.ofNat 32 (addr.octets.foldl _ 0) = addr
  rw [hnumber, hpow, Nat.mod_eq_of_lt addr.isLt, BitVec.ofNat_toNat, BitVec.setWidth_eq]

end Durs.Network
