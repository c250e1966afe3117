/-
# Printed endpoints

The printed form of an endpoint of version 2.  Its parts are printed only when they are there, and
the grammar tells them apart by what they start with.  An endpoint that was parsed is read back from
its printed form exactly when its features are printed faithfully and its address of version 6 is
printed without dots.
-/

import Durs.Network.Reading

namespace Durs.Network

open RustStd Lib.Peg Lib.Peg.Expr

/-! ## Printing -/

/-- The two digits of a byte. -/
def byteDigits (byte : UInt8) : List Char :=
  [Nat.digitChar (byte.toNat / 16), Nat.digitChar (byte.toNat % 16)]

/-- The codec of hexadecimal texts, which a library does: two lower-case digits for each byte, which
are decoded to it. -/
structure HexCodec extends HexDecoder where
  encode : List UInt8 → List Char
  encode_eq : ∀ bytes : List UInt8, encode bytes = bytes.flatMap byteDigits
  decode_encode : ∀ bytes : List UInt8, decode (encode bytes) = some bytes

/-- `is_empty`, of network features and of api features. -/
def featuresEmpty (features : List UInt8) : Bool := features.all (· = 0)

/-- `EndpointV2NetworkFeatures::to_string` -/
def networkFeaturesText (features : List UInt8) : List Char :=
  if featuresEmpty features then []
  else
    let enabled (bit : UInt8) : Bool := features.head?.any fun byte => byte &&& bit = bit
    let names := (if enabled 1 then ["HTTP"] else []) ++ (if enabled 2 then ["WS"] else []) ++
      (if enabled 4 then ["S"] else []) ++ (if enabled 8 then ["TOR"] else [])
    (" ".intercalate names).toList ++ [' ']

variable (X : HexCodec)

/-- `ApiFeatures::to_string`.  Of a single byte, the last digit alone is printed. -/
def apiFeaturesText (features : List UInt8) : List Char :=
  if featuresEmpty features then []
  else
    let hexStr := X.encode features
    if hexStr.length = 2 then "0x".toList ++ hexStr.drop 1 ++ [' ']
    else "0x".toList ++ hexStr ++ [' ']

/-- The text of a version, which is printed if it is positive. -/
def versionText (version : Nat) : List Char :=
  if 0 < version then 'V' :: (toString version).toList ++ [' '] else []

namespace EndpointV2

/-- `ToString for EndpointV2` -/
def toText (ep : EndpointV2) : List Char :=
  let host := ep.host.elim [] fun host => host.toList ++ [' ']
  let ip4 := ep.ipV4.elim [] fun ip4 => ip4.toText ++ [' ']
  let ip6 := ep.ipV6.elim [] fun ip6 => '[' :: ip6.toText ++ "] ".toList
  let path := ep.path.elim [] fun path => ' ' :: path.toList
  ep.api.toList ++ [' '] ++ versionText ep.apiVersion ++ networkFeaturesText ep.networkFeatures ++
    apiFeaturesText X ep.apiFeatures ++ host ++ ip4 ++ ip6 ++ (toString ep.port).toList ++ path

end EndpointV2

/-! ## What is parsed -/

def isApiChar (c : Char) : Bool := c.isUpper || c.isDigit || c = '_'

def isHostChar (c : Char) : Bool := c.isLower || c.isDigit || c = '-' || c = '_' || c = '.'

def isPathChar (c : Char) : Bool := c.isAlphanum || c = '-' || c = '_' || c = '.'

/-- The text of an api name. -/
def IsApiText (text : List Char) : Prop := text ≠ [] ∧ ∀ c ∈ text, isApiChar c = true

/-- The text of a host. -/
def IsHostText (text : List Char) : Prop :=
  ∃ c chars, text = c :: chars ∧ c.isLower = true ∧ ∀ c ∈ chars, isHostChar c = true

/-- The text of a path. -/
def IsPathText (text : List Char) : Prop := text ≠ [] ∧ ∀ c ∈ text, isPathChar c = true

/-- What the grammar and the conversions ask of the parts of an endpoint. -/
structure EndpointV2.WellFormed (ep : EndpointV2) : Prop where
  api : IsApiText ep.api.toList
  apiVersion : ep.apiVersion < 65536
  networkFeatures : ep.networkFeatures = [] ∨
    ∃ byte : UInt8, ep.networkFeatures = [byte] ∧ byte ≠ 0 ∧ byte < 16
  host : ∀ host ∈ ep.host, IsHostText host.toList
  port : ep.port < 65536
  path : ∀ path ∈ ep.path, IsPathText path.toList

/-- What the grammar asks of the fields that are taken over. -/
def FieldShape (field : Pair Rule) : Prop :=
  (field.rule = .apiName → IsApiText field.text) ∧
  (field.rule = .hostV2Inner → IsHostText field.text) ∧
  (field.rule = .pathInner → IsPathText field.text)

/-- What each field leaves of an endpoint that is being built. -/
structure EndpointV2.Building (ep : EndpointV2) : Prop where
  api : IsApiText ep.api.toList
  apiVersion : ep.apiVersion < 65536
  networkFeatures : ∃ byte : UInt8, ep.networkFeatures = [byte] ∧ byte < 16
  host : ∀ host ∈ ep.host, IsHostText host.toList
  port : ep.port < 65536
  path : ∀ path ∈ ep.path, IsPathText path.toList

variable {H : HexDecoder}

theorem lt_of_parseUnsigned {bits n : Nat} {text : List Char}
    (h : parseUnsigned bits text = some n) : n < 2 ^ bits := by
  unfold parseUnsigned at h
  split at h
  case h_1 => exact of_decide_eq_true (Option.filter_eq_some_iff.1 h).2
  case h_2 => exact of_decide_eq_true (Option.filter_eq_some_iff.1 h).2

namespace EndpointV2

theorem Building.enable {ep : EndpointV2} (h : ep.Building) {bit : UInt8} (hbit : bit < 16) :
    (ep.enable bit).Building := by
  obtain ⟨byte, hfeatures, hlt⟩ := h.networkFeatures
  have hor : byte ||| bit < 16 := by
    rw [UInt8.lt_iff_toNat_lt] at hlt hbit ⊢
    rw [UInt8.toNat_or]
    exact Nat.or_lt_two_pow (n := 4) hlt hbit
  exact { h with networkFeatures := ⟨byte ||| bit, by rw [EndpointV2.enable, hfeatures]; rfl, hor⟩ }

theorem Building.step {ep ep' : EndpointV2} {field : Pair Rule} (hshape : FieldShape field)
    (h : ep.Building) (hstep : step H ep field = .ok ep') : ep'.Building := by
  obtain ⟨rule, text, inner⟩ := field
  cases rule
  case apiName =>
    exact Except.ok.inj hstep ▸ { h with api := String.toList_ofList.symm ▸ hshape.1 rfl }
  case apiVersionInner =>
    obtain ⟨version, hversion, hstep⟩ := bind_eq_ok_iff.1 hstep
    exact Except.ok.inj hstep ▸
      { h with apiVersion := lt_of_parseUnsigned (unwrap_eq_ok_iff.1 hversion) }
  case http => exact Except.ok.inj hstep ▸ h.enable (by decide)
  case ws => exact Except.ok.inj hstep ▸ h.enable (by decide)
  case tls => exact Except.ok.inj hstep ▸ h.enable (by decide)
  case tor => exact Except.ok.inj hstep ▸ h.enable (by decide)
  case apiFeaturesInner =>
    obtain ⟨features, -, hstep⟩ := bind_eq_ok_iff.1 hstep
    exact Except.ok.inj hstep ▸ { h with }
  case port =>
    obtain ⟨port, hport, hstep⟩ := bind_eq_ok_iff.1 hstep
    exact Except.ok.inj hstep ▸
      { h with port := lt_of_parseUnsigned (unwrap_eq_ok_iff.1 hport) }
  case hostV2Inner =>
    refine Except.ok.inj hstep ▸ { h with host := ?_ }
    rintro host ⟨⟩
    exact String.toList_ofList.symm ▸ hshape.2.1 rfl
  case ip4Inner =>
    obtain ⟨ip4, -, hstep⟩ := bind_eq_ok_iff.1 hstep
    exact Except.ok.inj hstep ▸ { h with }
  case ip6Inner =>
    obtain ⟨ip6, -, hstep⟩ := bind_eq_ok_iff.1 hstep
    exact Except.ok.inj hstep ▸ { h with }
  case pathInner =>
    refine Except.ok.inj hstep ▸ { h with path := ?_ }
    rintro path ⟨⟩
    exact String.toList_ofList.symm ▸ hshape.2.2 rfl
  all_goals cases hstep

end EndpointV2

/-- The fields within an endpoint. -/
theorem records_endpointV2 : Records (fun pair => pair.rule = .endpointV2 ∧
    (∀ field ∈ pair.inner, FieldShape field) ∧
    ∃ name fields, pair.inner = .leaf .apiName name :: fields)
    Grammar.endpointV2 := by
  have hstr (s : String) : Records FieldShape (str s) := records_str s
  have hplain {r : Rule} {e : Expr Rule} (hname : r ≠ .apiName) (hhost : r ≠ .hostV2Inner)
      (hpath : r ≠ .pathInner) : Records FieldShape (atomic r e) := records_atomic fun _ _ _ =>
    ⟨fun h => absurd h hname, fun h => absurd h hhost, fun h => absurd h hpath⟩
  have hname : Records FieldShape Grammar.apiName := by
    refine records_atomic fun text inner h => ⟨fun _ => ?_, nofun, nofun⟩
    rcases h with ⟨count, hleast, hchars⟩
    obtain ⟨hlength, hall⟩ := hchars.chars (p := fun c => isApiChar c = true)
      fun _ _ ⟨c, hc, htext, _⟩ => ⟨c, hc, htext⟩
    exact ⟨List.ne_nil_of_length_pos (hlength ▸ hleast), hall⟩
  have hhost : Records FieldShape Grammar.hostV2Inner := by
    refine records_atomic fun text inner h => ⟨nofun, fun _ => ?_, nofun⟩
    rcases h with ⟨_, _, chars, _, ⟨c, hc, rfl, -⟩, ⟨count, -, hchars⟩, rfl, -⟩
    exact ⟨c, chars, rfl, hc, (hchars.chars (p := fun c => isHostChar c = true)
      fun _ _ ⟨c, hc, htext, _⟩ => ⟨c, hc, htext⟩).2⟩
  have hpath : Records FieldShape Grammar.pathInner := by
    refine records_atomic fun text inner h => ⟨nofun, nofun, fun _ => ?_⟩
    rcases h with ⟨count, hleast, hchars⟩
    obtain ⟨hlength, hall⟩ := hchars.chars (p := fun c => isPathChar c = true)
      fun _ _ ⟨c, hc, htext, _⟩ => ⟨c, hc, htext⟩
    exact ⟨List.ne_nil_of_length_pos (hlength ▸ hleast), hall⟩
  have hversion : Records FieldShape Grammar.apiVersionInner := hplain nofun nofun nofun
  have hhttp : Records FieldShape Grammar.http := hplain nofun nofun nofun
  have hws : Records FieldShape Grammar.ws := hplain nofun nofun nofun
  have htls : Records FieldShape Grammar.tls := hplain nofun nofun nofun
  have htor : Records FieldShape Grammar.tor := hplain nofun nofun nofun
  have hfeatures : Records FieldShape Grammar.apiFeaturesInner := hplain nofun nofun nofun
  have hip6 : Records FieldShape Grammar.ip6Inner := hplain nofun nofun nofun
  have hport : Records FieldShape Grammar.port := hplain nofun nofun nofun
  have hip4 : Records FieldShape Grammar.ip4Inner := by
    rintro text pairs ⟨inner, -, rfl⟩
    exact List.forall_mem_singleton.2 ⟨nofun, nofun, nofun⟩
  have hnetwork := ((hhttp.opt.append hws.opt).append htls.opt).append htor.opt
  have hfields := (((((((((hname.append (hstr " ")).append
    (((hstr "V").append hversion).append (hstr " ")).opt).append hnetwork.opt).append
    (((hstr "0x").append hfeatures).append (hstr " ")).opt).append
    (hhost.append (hstr " ")).opt).append (hip4.append (hstr " ")).opt).append
    (((hstr "[").append hip6).append (hstr "] ")).opt).append hport).append
    ((hstr " ").append hpath).opt)
  rintro text pairs ⟨inner, hinner, rfl⟩
  refine List.forall_mem_singleton.2 ⟨rfl, hfields text inner hinner, ?_⟩
  rcases hinner with ⟨_, _, _, _, ⟨_, _, _, _, ⟨_, _, _, _, ⟨_, _, _, _, ⟨_, _, _, _, ⟨_, _, _, _,
    ⟨_, _, _, _, ⟨_, _, _, _, ⟨name, _, _, _, ⟨-, rfl⟩, -, -, rfl⟩, -, -, rfl⟩, -, -, rfl⟩, -, -,
    rfl⟩, -, -, rfl⟩, -, -, rfl⟩, -, -, rfl⟩, -, -, rfl⟩, -, -, rfl⟩
  exact ⟨name, _, rfl⟩

/-- An endpoint that is built is well formed. -/
theorem wellFormed_of_fromPestPair {pair : Pair Rule} {ep : EndpointV2}
    (hfields : ∀ field ∈ pair.inner, FieldShape field)
    (hname : ∃ name fields, pair.inner = .leaf .apiName name :: fields)
    (h : EndpointV2.fromPestPair H pair = .ok ep) : ep.WellFormed := by
  rw [EndpointV2.fromPestPair, bind_eq_ok_iff] at h
  obtain ⟨built, hfold, h⟩ := h
  have hbuilding : built.Building := by
    obtain ⟨name, fields, hinner⟩ := hname
    rw [hinner] at hfields hfold
    rw [List.foldlM_cons, bind_eq_ok_iff] at hfold
    obtain ⟨first, hstep, hfold⟩ := hfold
    obtain rfl := Except.ok.inj hstep
    obtain ⟨hfirst, hfields⟩ := List.forall_mem_cons.1 hfields
    refine foldlM_preserves
      (fun ep field ep' hfield hep hstep => hep.step (hfields field hfield) hstep) ?_ hfold
    exact {
      api := String.toList_ofList.symm ▸ hfirst.1 rfl
      apiVersion := show 0 < 65536 by decide
      networkFeatures := ⟨0, rfl, by decide⟩
      host := by
        rintro _ ⟨⟩
      port := show 0 < 65536 by decide
      path := by
        rintro _ ⟨⟩ }
  obtain ⟨byte, hbyte, hlt⟩ := hbuilding.networkFeatures
  split at h
  case isTrue =>
    obtain rfl := Except.ok.inj h
    exact { hbuilding with networkFeatures := Or.inl rfl }
  case isFalse hne =>
    obtain rfl := Except.ok.inj h
    refine { hbuilding with networkFeatures := Or.inr ⟨byte, hbyte, ?_, hlt⟩ }
    rintro rfl
    exact hne (hbyte ▸ rfl)

/-! ## What the parts of a printed endpoint do -/

section Parts

variable {text rest : List Char} {ep ep' : EndpointV2}

/-! ### What comes next -/

/-- Some digits come next, if any, and then a character with a property or the end. -/
def Ahead (p : Char → Prop) (cs : List Char) : Prop :=
  ∃ digits more, cs = digits ++ more ∧ (∀ c ∈ digits, c.isDigit = true) ∧
    ∀ c ∈ more.head?, c.isDigit = false ∧ p c

theorem Ahead.mono {p q : Char → Prop} {cs : List Char} (h : Ahead p cs) (hpq : ∀ c, p c → q c) :
    Ahead q cs := by
  obtain ⟨digits, more, rfl, hdigits, hmore⟩ := h
  exact ⟨digits, more, rfl, hdigits, fun c hc => ⟨(hmore c hc).1, hpq c (hmore c hc).2⟩⟩

theorem Ahead.head {p : Char → Prop} {cs : List Char} (h : Ahead p cs) :
    ∀ c ∈ cs.head?, c.isDigit = true ∨ p c := by
  obtain ⟨digits, more, rfl, hdigits, hmore⟩ := h
  cases digits with
  | nil => exact fun c hc => Or.inr (hmore c hc).2
  | cons d digits =>
      rintro _ ⟨⟩
      exact Or.inl (hdigits d List.mem_cons_self)

/-- What comes after the digits of a port. -/
def AfterPort (c : Char) : Prop := c = ' ' ∨ c = '\n'

/-- What comes after the digits of a port, or opens an address of version 6. -/
def AfterIp4 (c : Char) : Prop := AfterPort c ∨ c = '['

/-- What comes after the first digits behind the host. -/
def AfterHost (c : Char) : Prop := AfterIp4 c ∨ c = '.'

instance : DecidablePred AfterPort := fun _ => inferInstanceAs (Decidable (_ ∨ _))
instance : DecidablePred AfterIp4 := fun _ => inferInstanceAs (Decidable (_ ∨ _))
instance : DecidablePred AfterHost := fun _ => inferInstanceAs (Decidable (_ ∨ _))

/-- Some parts of an endpoint come next, the first of which is no feature: a host, an address or the
port. -/
inductive PartAhead : List Char → Prop
  | host {c : Char} (hc : c.isLower = true) (cs : List Char) : PartAhead (c :: cs)
  | number {cs : List Char} : Ahead AfterHost cs → PartAhead cs

theorem isLower_iff {c : Char} :
    c.isLower = true ↔ 97 ≤ c.toNat ∧ c.toNat ≤ 122 := by
  change (decide (c.val ≥ ('a' : Char).val) && decide (c.val ≤ ('z' : Char).val)) = true ↔ _
  rw [Bool.and_eq_true, decide_eq_true_eq, decide_eq_true_eq, ge_iff_le, UInt32.le_iff_toNat_le,
    UInt32.le_iff_toNat_le]
  rfl

theorem isUpper_iff {c : Char} :
    c.isUpper = true ↔ 65 ≤ c.toNat ∧ c.toNat ≤ 90 := by
  change decide (c.val ≥ ('A' : Char).val ∧ c.val ≤ ('Z' : Char).val) = true ↔ _
  rw [decide_eq_true_eq, ge_iff_le, UInt32.le_iff_toNat_le, UInt32.le_iff_toNat_le]
  rfl

theorem not_isUpper_of_isLower {c : Char} (h : c.isLower = true) : c.isUpper = false := by
  rw [isLower_iff] at h
  rw [Bool.eq_false_iff, ne_eq, isUpper_iff]
  omega

theorem not_isUpper_of_isDigit {c : Char} (h : c.isDigit = true) : c.isUpper = false := by
  have hbounds := toNat_of_isDigit h
  rw [Bool.eq_false_iff, ne_eq, isUpper_iff]
  omega

theorem not_isUpper_of_afterHost {c : Char} (h : AfterHost c) :
    c.isUpper = false ∧ c.isLower = false := by
  rcases h with ((rfl | rfl) | rfl) | rfl
  all_goals exact ⟨rfl, rfl⟩

theorem not_isLower_of_isDigit {c : Char} (h : c.isDigit = true) : c.isLower = false := by
  have hbounds := toNat_of_isDigit h
  rw [Bool.eq_false_iff, ne_eq, isLower_iff]
  omega

theorem Ahead.not_letter {cs : List Char} (h : Ahead AfterHost cs) :
    ∀ c ∈ cs.head?, c.isUpper = false ∧ c.isLower = false := by
  intro c hc
  rcases h.head c hc with hdigit | hafter
  · exact ⟨not_isUpper_of_isDigit hdigit, not_isLower_of_isDigit hdigit⟩
  · exact not_isUpper_of_afterHost hafter

theorem PartAhead.not_upper {cs : List Char} (h : PartAhead cs) :
    ∀ c ∈ cs.head?, c.isUpper = false := by
  cases h with
  | host hc cs =>
      rintro c ⟨⟩
      exact not_isUpper_of_isLower hc
  | number h => exact fun c hc => (h.not_letter c hc).1

/-! ### The front of an endpoint -/

theorem takes_apiName (h : IsApiText text) (ep : EndpointV2) (rest : List Char) :
    Takes (EndpointV2.step H) Grammar.apiName text ep { ep with api := String.ofList text }
      (' ' :: rest) := by
  refine takes_field (matchesText_atLeast_chars (fun c hc => matchesText_chr (h.2 c hc))
    (fails_chr ?_) (List.length_pos_of_ne_nil h.1)) rfl
  rintro _ ⟨⟩
  rfl

theorem takes_version {version : Nat} (h : version < 65536) (hrest : 'V' ∉ rest.head?)
    (hep : ep.apiVersion = 0) : Takes (EndpointV2.step H) (Expr.opt Grammar.apiVersion)
      (versionText version) ep { ep with apiVersion := version } rest := by
  rcases Nat.eq_zero_or_pos version with rfl | hpos
  · rw [versionText, if_neg (Nat.lt_irrefl 0)]
    have hfails : Fails Grammar.apiVersion rest :=
      ((fails_str_of_head rfl hrest).append _).append _
    refine takes_missing hfails ?_
    cases ep
    cases hep
    rfl
  · have htext : (toString version).toList = Nat.toDigits 10 version := Nat.toList_repr
    obtain ⟨c, digits, hdigits, hc, hall⟩ := exists_toDigits_cons hpos
    have hinner : MatchesText Grammar.noZeroUInt (toString version).toList [] (' ' :: rest) := by
      rw [htext, hdigits]
      exact matchesText_noZeroUInt hc hall (by rintro _ ⟨⟩; rfl)
    have hstep : EndpointV2.step H ep (.leaf .apiVersionInner (toString version).toList) =
        .ok { ep with apiVersion := version } := by
      show (do
        let apiVersion ← unwrap (parseUnsigned 16 (toString version).toList)
        return { ep with apiVersion } : Run EndpointV2) = _
      rw [parseUnsigned_toString h]
      rfl
    rw [versionText, if_pos hpos]
    exact (((takes_str "V" ep _).append (takes_field hinner hstep)).append (takes_str " " _ _)).opt

/-- A flag, which is printed if it is set. -/
theorem takes_flag {s : String} {r : Rule} {c : Char} {s' : List Char} {bit : UInt8}
    (hs : s.toList = c :: s') (hstep : ∀ ep, EndpointV2.step H ep (.leaf r s.toList) =
      .ok (ep.enable bit)) (enabled : Bool) (hrest : c ∉ rest.head?) (ep : EndpointV2) :
    Takes (EndpointV2.step H) (Expr.opt (Expr.atomic r (str s)))
      (if enabled then s.toList else []) ep (if enabled then ep.enable bit else ep) rest := by
  cases enabled with
  | true => exact (takes_field (matchesText_str s rest) (hstep ep)).opt
  | false => exact takes_missing ((fails_str_of_head hs hrest).atomic r) rfl

/-- The features of a byte are printed as the names of its bits. -/
theorem networkFeaturesText_byte : ∀ n < 16, n ≠ 0 →
    networkFeaturesText [UInt8.ofNat n] =
      (if n.testBit 0 then "HTTP ".toList else []) ++ (if n.testBit 1 then "WS ".toList else []) ++
      (if n.testBit 2 then "S ".toList else []) ++ (if n.testBit 3 then "TOR ".toList else []) := by
  decide +kernel

/-- Set a bit, if it is enabled. -/
def setIf (enabled : Bool) (bit : UInt8) (features : List UInt8) : List UInt8 :=
  if enabled then features.modifyHead (· ||| bit) else features

/-- The bits of a byte, set one after the other. -/
theorem setIf_bits : ∀ n < 16, setIf (n.testBit 3) 8 (setIf (n.testBit 2) 4
    (setIf (n.testBit 1) 2 (setIf (n.testBit 0) 1 [0]))) = [UInt8.ofNat n] := by
  decide +kernel

theorem enable_eq_setIf (enabled : Bool) (bit : UInt8) (ep : EndpointV2) :
    (if enabled then ep.enable bit else ep) =
      { ep with networkFeatures := setIf enabled bit ep.networkFeatures } := by
  cases enabled
  · rfl
  · rfl

theorem not_mem_head_flag {s : String} {c d : Char} {s' : List Char} (hs : s.toList = d :: s')
    (hne : d ≠ c) (enabled : Bool) (hrest : c ∉ rest.head?) :
    c ∉ ((if enabled then s.toList else []) ++ rest).head? := by
  cases enabled with
  | true =>
      rw [if_pos rfl, hs]
      exact fun h => hne (Option.some.inj h)
  | false => exact hrest

/-- The features of the network, as they are while an endpoint is being built. -/
def buildingFeatures (features : List UInt8) : List UInt8 :=
  if features = [] then [0] else features

/-- Features are printed, and set while an endpoint is being built, as some bits. -/
theorem exists_bits {features : List UInt8}
    (h : features = [] ∨ ∃ byte : UInt8, features = [byte] ∧ byte ≠ 0 ∧ byte < 16) :
    ∃ n < 16, buildingFeatures features = [UInt8.ofNat n] ∧ networkFeaturesText features =
      (if n.testBit 0 then "HTTP ".toList else []) ++ (if n.testBit 1 then "WS ".toList else []) ++
      (if n.testBit 2 then "S ".toList else []) ++ (if n.testBit 3 then "TOR ".toList else []) := by
  rcases h with rfl | ⟨byte, rfl, hne, hlt⟩
  · exact ⟨0, by decide, rfl, rfl⟩
  · have hbyte : UInt8.ofNat byte.toNat = byte := UInt8.ofNat_toNat
    have htext := networkFeaturesText_byte byte.toNat (UInt8.lt_iff_toNat_lt.1 hlt)
      fun hzero => hne (UInt8.toNat_inj.1 hzero)
    rw [hbyte] at htext
    exact ⟨byte.toNat, UInt8.lt_iff_toNat_lt.1 hlt, by rw [hbyte]; rfl, htext⟩

theorem takes_networkFeatures {features : List UInt8}
    (h : features = [] ∨ ∃ byte : UInt8, features = [byte] ∧ byte ≠ 0 ∧ byte < 16)
    (hrest : ∀ c ∈ rest.head?, c.isUpper = false) (hep : ep.networkFeatures = [0]) :
    Takes (EndpointV2.step H) (Expr.opt Grammar.networkFeatures) (networkFeaturesText features) ep
      { ep with networkFeatures := buildingFeatures features } rest := by
  obtain ⟨n, hn, hfeatures, htext⟩ := exists_bits h
  have hupper {c : Char} (hc : c.isUpper = true) : c ∉ rest.head? := fun hmem => by
    rw [hrest c hmem] at hc
    cases hc
  have hS {c : Char} (hne : 'T' ≠ c) (hc : c.isUpper = true) :
      c ∉ ((if n.testBit 3 then "TOR ".toList else []) ++ rest).head? :=
    not_mem_head_flag rfl hne _ (hupper hc)
  have hW {c : Char} (hne : 'S' ≠ c) (hne' : 'T' ≠ c) (hc : c.isUpper = true) :=
    not_mem_head_flag (s := "S ") rfl hne (n.testBit 2) (hS hne' hc)
  have hH {c : Char} (hne : 'W' ≠ c) (hne' : 'S' ≠ c) (hne'' : 'T' ≠ c) (hc : c.isUpper = true) :=
    not_mem_head_flag (s := "WS ") rfl hne (n.testBit 1) (hW hne' hne'' hc)
  have hhttp := takes_flag (H := H) (r := .http) (s := "HTTP ") rfl (fun _ => rfl)
    (n.testBit 0) (hH (by decide) (by decide) (by decide) rfl) ep
  have hws := fun ep => takes_flag (H := H) (r := .ws) (s := "WS ") rfl (fun _ => rfl)
    (n.testBit 1) (hW (by decide) (by decide) rfl) ep
  have htls := fun ep => takes_flag (H := H) (r := .tls) (s := "S ") rfl (fun _ => rfl)
    (n.testBit 2) (hS (by decide) rfl) ep
  have htor := fun ep => takes_flag (H := H) (r := .tor) (s := "TOR ") rfl
    (fun _ => rfl) (n.testBit 3) (hupper rfl) ep
  simp only [enable_eq_setIf] at hhttp hws htls htor
  have hall := ((hhttp.append (hws _)).append (htls _)).append (htor _)
  rw [htext, hfeatures, ← setIf_bits n hn, ← hep]
  exact hall.opt

/-! ### Features of the api -/

/-- Whether features are read back from their text: there are none, or some bit is set, and a
single byte is one digit. -/
def FeaturesPrinted (features : List UInt8) : Prop :=
  features = [] ∨ (featuresEmpty features = false ∧ ∀ byte ∈ features, features.length = 1 →
    byte < 16)

instance (features : List UInt8) : Decidable (FeaturesPrinted features) :=
  have : Decidable (∀ byte ∈ features, features.length = 1 → byte < 16) :=
    List.decidableBAll _ features
  inferInstanceAs (Decidable (_ ∨ _ ∧ _))

theorem isHexaLower_byteDigits (byte : UInt8) :
    ∀ c ∈ byteDigits byte, (c.isDigit || ('a' ≤ c && c ≤ 'f')) = true := by
  have hlt : byte.toNat < 256 := byte.toNat_lt
  exact List.forall_mem_cons.2 ⟨isHexaLower_digitChar _ (by omega),
    List.forall_mem_singleton.2 (isHexaLower_digitChar _ (by omega))⟩

theorem length_encode (X : HexCodec) (features : List UInt8) :
    (X.encode features).length = 2 * features.length := by
  rw [X.encode_eq]
  induction features with
  | nil => rfl
  | cons byte features ih =>
      rw [List.flatMap_cons, List.length_append, ih, List.length_cons]
      show 2 + 2 * features.length = 2 * (features.length + 1)
      omega

theorem fails_blank (rest : List Char) : Fails Grammar.hexaLower (' ' :: rest) := by
  refine fails_chr ?_
  rintro _ ⟨⟩
  rfl

/-- The digits of some bytes are read up to a blank. -/
theorem matchesAll_bytes (features : List UInt8) (rest : List Char) :
    MatchesAll (R := Rule) (between 2 2 Grammar.hexaLower)
      (features.map fun byte => (byteDigits byte, [])) (' ' :: rest) := by
  induction features with
  | nil =>
      have hnone : MatchesAll Grammar.hexaLower [] (' ' :: rest) := fails_blank rest
      exact hnone.fails_between (by decide) (by decide)
  | cons byte features ih =>
      refine ⟨List.cons_ne_nil _ _, ?_, ih⟩
      have hdigits : ∀ c ∈ byteDigits byte, ∀ rest, MatchesText Grammar.hexaLower [c] [] rest :=
        fun c hc => matchesText_chr (isHexaLower_byteDigits byte c hc)
      exact matchesText_between_full hdigits (Nat.le_refl 2) _

/-- Two digits or more. -/
theorem matchesText_bytes {features : List UInt8} (hne : features ≠ []) (rest : List Char) :
    MatchesText (R := Rule) (atLeast 1 (between 2 2 Grammar.hexaLower) <|> Grammar.noZeroHexaLower)
      (features.flatMap byteDigits) [] (' ' :: rest) := by
  have hleast :
      1 ≤ (features.map fun byte => (byteDigits byte, ([] : List (Pair Rule)))).length := by
    rw [List.length_map]
    exact List.length_pos_of_ne_nil hne
  have hread := matchesText_atLeast (matchesAll_bytes features rest) hleast
  rw [List.flatMap_map, List.flatMap_map, List.flatMap_eq_nil_iff.2 fun _ _ => rfl] at hread
  exact hread.orElse _

/-- A single digit. -/
theorem matchesText_digit {digit : Nat} (hlt : digit < 16) (hpos : 0 < digit) (rest : List Char) :
    MatchesText (R := Rule) (atLeast 1 (between 2 2 Grammar.hexaLower) <|> Grammar.noZeroHexaLower)
      [Nat.digitChar digit] [] (' ' :: rest) := by
  have hnoZero : ∀ digit < 16, 0 < digit → (('1' ≤ Nat.digitChar digit &&
      Nat.digitChar digit ≤ '9') || ('a' ≤ Nat.digitChar digit && Nat.digitChar digit ≤ 'f')) =
      true := by decide
  have hone : MatchesAll Grammar.hexaLower [([Nat.digitChar digit], [])] (' ' :: rest) :=
    ⟨List.cons_ne_nil _ _, matchesText_chr (isHexaLower_digitChar digit hlt) _, fails_blank rest⟩
  exact ((hone.fails_between (Nat.lt_succ_self 1) (Nat.le_succ 1)).atLeast
    Nat.zero_lt_one).orElse_matchesText (matchesText_chr (hnoZero digit hlt hpos) _)

theorem PartAhead.fails_features {cs : List Char} (h : PartAhead cs) :
    Fails Grammar.apiFeatures cs := by
  have hstr : Fails (R := Rule) (str "0x") cs := by
    cases h with
    | host hc cs =>
        refine fails_str_cons rfl ?_ cs
        rintro rfl
        exact absurd hc (by decide)
    | number h =>
        obtain ⟨digits, more, rfl, hdigits, hmore⟩ := h
        refine Expr.fails_str fun rest heq => ?_
        rcases digits with _ | ⟨d, _ | ⟨d', digits⟩⟩
        · have hsame : '0' :: 'x' :: rest = more := heq
          have hzero := (hmore '0' (hsame ▸ rfl)).1
          cases hzero
        · have hsame : 'x' :: rest = more := (List.cons.inj heq).2
          have hafter := (hmore 'x' (hsame ▸ rfl)).2
          revert hafter
          decide
        · obtain rfl : 'x' = d' := (List.cons.inj (List.cons.inj heq).2).1
          exact absurd (hdigits 'x' (List.mem_cons_of_mem _ List.mem_cons_self)) (by decide)
  exact (hstr.append _).append _

/-- A field of features. -/
theorem takes_featuresInner {X : HexCodec} {features : List UInt8}
    (hread : MatchesText (R := Rule) (atLeast 1 (between 2 2 Grammar.hexaLower) <|>
      Grammar.noZeroHexaLower) text [] (' ' :: rest))
    (hdecode : X.decode (if text.length = 1 then '0' :: text else text) = some features) :
    Takes (EndpointV2.step X.toHexDecoder) (Expr.opt Grammar.apiFeatures)
      ("0x".toList ++ text ++ [' ']) ep { ep with apiFeatures := features } rest := by
  have hstep : EndpointV2.step X.toHexDecoder ep (.leaf .apiFeaturesInner text) =
      .ok { ep with apiFeatures := features } := by
    show (do
      let apiFeatures ← unwrap (X.decode (if text.length = 1 then '0' :: text else text))
      return { ep with apiFeatures } : Run EndpointV2) = _
    rw [hdecode]
    rfl
  exact (((takes_str "0x" ep _).append (takes_field hread hstep)).append (takes_str " " _ _)).opt

/-- Features that are read back from their text. -/
theorem takes_apiFeatures {X : HexCodec} {features : List UInt8} (h : FeaturesPrinted features)
    (hrest : PartAhead rest) (hep : ep.apiFeatures = []) :
    Takes (EndpointV2.step X.toHexDecoder) (Expr.opt Grammar.apiFeatures)
      (apiFeaturesText X features) ep { ep with apiFeatures := features } rest := by
  rcases h with rfl | ⟨hempty, hsingle⟩
  · refine takes_missing hrest.fails_features ?_
    cases ep
    cases hep
    rfl
  · have hdecode := X.decode_encode features
    have hlength := length_encode X features
    rw [apiFeaturesText, hempty]
    simp only [Bool.false_eq_true, if_false]
    split
    case isTrue htwo =>
      obtain ⟨byte, rfl⟩ := List.length_eq_one_iff.1 (show features.length = 1 by omega)
      have hlt := UInt8.lt_iff_toNat_lt.1 (hsingle byte List.mem_cons_self rfl)
      have hpos : 0 < byte.toNat := by
        refine Nat.pos_of_ne_zero fun hzero => ?_
        obtain rfl : byte = 0 := UInt8.toNat_inj.1 hzero
        cases hempty
      have hdigits : X.encode [byte] = ['0', Nat.digitChar byte.toNat] := by
        have hlt : byte.toNat < 16 := hlt
        rw [X.encode_eq, List.flatMap_singleton, byteDigits, Nat.div_eq_of_lt hlt,
          Nat.mod_eq_of_lt hlt]
        rfl
      rw [hdigits] at hdecode ⊢
      exact takes_featuresInner (matchesText_digit hlt hpos rest) hdecode
    case isFalse htwo =>
      have hne : features ≠ [] := by
        rintro rfl
        cases hempty
      have hread := matchesText_bytes hne rest
      rw [← X.encode_eq] at hread
      exact takes_featuresInner hread (by rwa [if_neg (by omega)])

/-! ### Hosts, addresses, the port and the path -/

theorem takes_host {host : Option String} (hhost : ∀ text ∈ host, IsHostText text.toList)
    (hrest : ∀ c ∈ rest.head?, c.isLower = false) (hep : ep.host = none) :
    Takes (EndpointV2.step H) (Expr.opt Grammar.hostV2)
      (host.elim [] fun host => host.toList ++ [' ']) ep { ep with host } rest := by
  cases host with
  | none =>
      refine takes_missing ((((fails_chr hrest).append _).atomic _).append _) ?_
      cases ep
      cases hep
      rfl
  | some host =>
      obtain ⟨c, chars, htext, hc, hchars⟩ := hhost host rfl
      have hblank : ∀ c ∈ (' ' :: rest).head?, isHostChar c = false := by
        rintro _ ⟨⟩
        rfl
      have hinner : MatchesText (R := Rule) (chr Char.isLower ++ atLeast 0 (chr isHostChar))
          host.toList [] (' ' :: rest) := by
        rw [htext]
        have hfirst : MatchesText (R := Rule) (chr Char.isLower) [c] [] (chars ++ ' ' :: rest) :=
          matchesText_chr hc _
        exact hfirst.append (matchesText_atLeast_chars
          (fun c hc => matchesText_chr (hchars c hc)) (fails_chr hblank) (Nat.zero_le _))
      have hstep : EndpointV2.step H ep (.leaf .hostV2Inner host.toList) =
          .ok { ep with host := some host } := by
        show Except.ok { ep with host := some (String.ofList host.toList) } = _
        rw [String.ofList_toList]
      exact ((takes_field hinner hstep).append (takes_str " " _ rest)).opt

theorem takes_ip4 {ip4 : Option Ipv4Addr}
    (hrest : Ahead AfterIp4 rest) (hep : ep.ipV4 = none) :
    Takes (EndpointV2.step H) (Expr.opt Grammar.ip4) (ip4.elim [] fun ip4 => ip4.toText ++ [' ']) ep
      { ep with ipV4 := ip4 } rest := by
  cases ip4 with
  | none =>
      have hinner : Fails Grammar.ip4Inner rest := by
        obtain ⟨digits, more, rfl, hdigits, hmore⟩ := hrest
        refine fails_ip4Inner hdigits fun c hc => ⟨(hmore c hc).1, ?_⟩
        rintro rfl
        have hafter := (hmore '.' hc).2
        revert hafter
        decide
      refine takes_missing (hinner.append _) ?_
      cases ep
      cases hep
      rfl
  | some addr =>
      have hblank : ∀ c ∈ (' ' :: rest).head?, c.isDigit = false := by
        rintro _ ⟨⟩
        rfl
      obtain ⟨inner, hmatch⟩ := matchesText_ip4Inner addr hblank
      have hinner : Takes (EndpointV2.step H) Grammar.ip4Inner addr.toText ep
          { ep with ipV4 := some addr } (' ' :: rest) := by
        refine ⟨_, hmatch, ?_⟩
        have hstep : EndpointV2.step H ep (.node .ip4Inner addr.toText inner) = (do
            let ipV4 ← unwrap (Ipv4Addr.fromStr addr.toText)
            return { ep with ipV4 := some ipV4 }) := rfl
        rw [List.foldlM_cons, hstep, addr.fromStr_toText]
        rfl
      exact (hinner.append (takes_str " " _ rest)).opt

theorem takes_ip6 {ip6 : Option Ipv6Addr} (hip6 : ∀ addr ∈ ip6, ¬ Ipv6Addr.EmbedsIpv4 addr)
    (hrest : Ahead AfterPort rest) (hep : ep.ipV6 = none) :
    Takes (EndpointV2.step H) (Expr.opt Grammar.ip6)
      (ip6.elim [] fun ip6 => '[' :: ip6.toText ++ "] ".toList) ep { ep with ipV6 := ip6 } rest := by
  cases ip6 with
  | none =>
      have hfails : Fails (R := Rule) (str "[") rest := by
        refine fails_str_of_head (c := '[') rfl fun hmem => ?_
        have hhead := hrest.head '[' hmem
        revert hhead
        decide
      refine takes_missing ((hfails.append _).append _) ?_
      cases ep
      cases hep
      rfl
  | some addr =>
      have hdots := hip6 addr rfl
      have hends : EndsIp6 (']' :: ' ' :: rest) := by
        rintro _ ⟨⟩
        exact ⟨rfl, by decide⟩
      have hinner : Takes (EndpointV2.step H) Grammar.ip6Inner addr.toText ep
          { ep with ipV6 := some addr } (']' :: ' ' :: rest) := by
        refine ⟨_, matchesText_ip6Inner hdots hends, ?_⟩
        have hstep : EndpointV2.step H ep (.leaf .ip6Inner addr.toText) = (do
            let ipV6 ← unwrap (Ipv6Addr.fromStr addr.toText)
            return { ep with ipV6 := some ipV6 }) := rfl
        rw [List.foldlM_cons, hstep, Ipv6Addr.fromStr_toText hdots]
        rfl
      exact (((takes_str "[" ep _).append hinner).append (takes_str "] " _ rest)).opt

/-- What ends an endpoint. -/
def EndsEndpoint (rest : List Char) : Prop := ∀ c ∈ rest.head?, c = '\n'

theorem takes_port {port : Nat} (h : port < 65536) (ep : EndpointV2)
    (hrest : ∀ c ∈ rest.head?, c.isDigit = false) :
    Takes (EndpointV2.step H) Grammar.port (toString port).toList ep { ep with port } rest := by
  refine takes_field (matchesText_uInt (isUInt_toString port) hrest) ?_
  show (do
    let port ← unwrap (parseUnsigned 16 (toString port).toList)
    return { ep with port } : Run EndpointV2) = _
  rw [parseUnsigned_toString h]
  rfl

theorem takes_path {path : Option String} (hpath : ∀ text ∈ path, IsPathText text.toList)
    (hrest : EndsEndpoint rest) (hep : ep.path = none) :
    Takes (EndpointV2.step H) (Expr.opt Grammar.path)
      (path.elim [] fun path => ' ' :: path.toList) ep { ep with path } rest := by
  cases path with
  | none =>
      have hblank : Fails (R := Rule) (str " ") rest :=
        fails_str_of_head rfl fun hmem => absurd (hrest _ hmem) (by decide)
      refine takes_missing (hblank.append _) ?_
      cases ep
      cases hep
      rfl
  | some path =>
      obtain ⟨hne, hchars⟩ := hpath path rfl
      have hinner : MatchesText (R := Rule) (atLeast 1 (chr isPathChar)) path.toList [] rest := by
        refine matchesText_atLeast_chars (fun c hc => matchesText_chr (hchars c hc))
          (fails_chr fun c hc => ?_) (List.length_pos_of_ne_nil hne)
        obtain rfl := hrest c hc
        rfl
      have hstep : EndpointV2.step H ep (.leaf .pathInner path.toList) =
          .ok { ep with path := some path } := by
        show Except.ok { ep with path := some (String.ofList path.toList) } = _
        rw [String.ofList_toList]
      exact ((takes_str " " ep _).append (takes_field hinner hstep)).opt

/-! ### The whole endpoint -/

theorem EndsEndpoint.append_path (hrest : EndsEndpoint rest) (path : Option String) :
    ∀ c ∈ ((path.elim [] fun path => ' ' :: path.toList) ++ rest).head?, AfterPort c := by
  cases path with
  | none => exact fun c hc => Or.inr (hrest c hc)
  | some path =>
      rintro _ ⟨⟩
      exact Or.inl rfl

/-- The port comes after the addresses. -/
theorem ahead_port (port : Nat) (hrest : ∀ c ∈ rest.head?, AfterPort c) :
    Ahead AfterPort ((toString port).toList ++ rest) := by
  refine ⟨_, rest, rfl, (isUInt_toString port).digits.2, fun c hc => ⟨?_, hrest c hc⟩⟩
  rcases hrest c hc with rfl | rfl
  · rfl
  · rfl

theorem ahead_ip6 (ip6 : Option Ipv6Addr) (h : Ahead AfterPort rest) :
    Ahead AfterIp4 ((ip6.elim [] fun ip6 => '[' :: ip6.toText ++ "] ".toList) ++ rest) := by
  cases ip6 with
  | none => exact h.mono fun c hc => Or.inl hc
  | some addr =>
      refine ⟨[], _, rfl, List.forall_mem_nil _, ?_⟩
      rintro _ ⟨⟩
      exact ⟨rfl, Or.inr rfl⟩

theorem ahead_ip4 (ip4 : Option Ipv4Addr) (h : Ahead AfterIp4 rest) :
    Ahead AfterHost ((ip4.elim [] fun ip4 => ip4.toText ++ [' ']) ++ rest) := by
  cases ip4 with
  | none => exact h.mono fun c hc => Or.inl hc
  | some addr =>
      obtain ⟨a, b, c, d, -, -, htext⟩ := addr.exists_octets
      rw [Option.elim_some, htext, List.append_assoc, List.append_assoc]
      refine ⟨_, _, rfl, (isUInt_toString a).digits.2, ?_⟩
      rintro _ ⟨⟩
      exact ⟨rfl, Or.inr rfl⟩

theorem partAhead_host {host : Option String} (hhost : ∀ text ∈ host, IsHostText text.toList)
    (h : Ahead AfterHost rest) :
    PartAhead ((host.elim [] fun host => host.toList ++ [' ']) ++ rest) := by
  cases host with
  | none => exact .number h
  | some host =>
      obtain ⟨c, chars, htext, hc, -⟩ := hhost host rfl
      rw [Option.elim_some, htext]
      exact .host hc _

/-- Features come before the parts of which none is a feature. -/
theorem not_upper_features {X : HexCodec} (features : List UInt8) (h : PartAhead rest) :
    ∀ c ∈ (apiFeaturesText X features ++ rest).head?, c.isUpper = false := by
  unfold apiFeaturesText
  split
  case isTrue => exact h.not_upper
  case isFalse =>
    dsimp only
    split
    all_goals
      rintro _ ⟨⟩
      rfl

/-- An endpoint of which nothing has been read. -/
def EndpointV2.empty : EndpointV2 :=
  { api := "", apiVersion := 0, networkFeatures := [0], apiFeatures := [], ipV4 := none,
    ipV6 := none, host := none, port := 0, path := none }

/-- The name, the version and the features of the network. -/
theorem takes_front {ep : EndpointV2} (h : ep.WellFormed)
    (hrest : ∀ c ∈ rest.head?, c.isUpper = false) :
    Takes (EndpointV2.step H) (Grammar.apiName ++ str " " ++ Expr.opt Grammar.apiVersion ++
        Expr.opt Grammar.networkFeatures)
      (ep.api.toList ++ [' '] ++ versionText ep.apiVersion ++
        networkFeaturesText ep.networkFeatures) .empty
      { EndpointV2.empty with
        api := ep.api
        apiVersion := ep.apiVersion
        networkFeatures := buildingFeatures ep.networkFeatures } rest := by
  have hV : 'V' ∉ (networkFeaturesText ep.networkFeatures ++ rest).head? := by
    obtain ⟨n, -, -, htext⟩ := exists_bits h.networkFeatures
    rw [htext, List.append_assoc, List.append_assoc, List.append_assoc]
    refine not_mem_head_flag rfl (by decide) _ (not_mem_head_flag rfl (by decide) _
      (not_mem_head_flag rfl (by decide) _ (not_mem_head_flag rfl (by decide) _ fun hmem => ?_)))
    have hupper := hrest 'V' hmem
    cases hupper
  have hname := takes_apiName (H := H) h.api EndpointV2.empty
    (versionText ep.apiVersion ++ (networkFeaturesText ep.networkFeatures ++ rest))
  rw [String.ofList_toList] at hname
  exact ((hname.append (takes_str " " _ _)).append (takes_version h.apiVersion hV rfl)).append
    (takes_networkFeatures h.networkFeatures hrest rfl)

/-- A printed endpoint is read back, if its features and its address of version 6 are. -/
theorem takes_endpoint {X : HexCodec} {ep : EndpointV2} (h : ep.WellFormed)
    (hfeatures : FeaturesPrinted ep.apiFeatures)
    (hip6 : ∀ addr ∈ ep.ipV6, ¬ Ipv6Addr.EmbedsIpv4 addr) (hrest : EndsEndpoint rest) :
    Takes (EndpointV2.step X.toHexDecoder) (Grammar.apiName ++ str " " ++
        Expr.opt Grammar.apiVersion ++
        Expr.opt Grammar.networkFeatures ++ Expr.opt Grammar.apiFeatures ++
        Expr.opt Grammar.hostV2 ++ Expr.opt Grammar.ip4 ++ Expr.opt Grammar.ip6 ++ Grammar.port ++
        Expr.opt Grammar.path) (ep.toText X) .empty
      { ep with networkFeatures := buildingFeatures ep.networkFeatures } rest := by
  have hpath := hrest.append_path ep.path
  have hport := ahead_port ep.port hpath
  have hip6' := ahead_ip6 ep.ipV6 hport
  have hip4' := ahead_ip4 ep.ipV4 hip6'
  have hhost := partAhead_host h.host hip4'
  have hafter : ∀ c ∈ ((ep.path.elim [] fun path => ' ' :: path.toList) ++ rest).head?,
      c.isDigit = false := by
    intro c hc
    rcases hpath c hc with rfl | rfl
    · rfl
    · rfl
  exact ((((((takes_front h (not_upper_features ep.apiFeatures hhost)).append
    (takes_apiFeatures hfeatures hhost rfl)).append
    (takes_host h.host (fun c hc => (hip4'.not_letter c hc).2) rfl)).append
    (takes_ip4 hip6' rfl)).append (takes_ip6 hip6 hport rfl)).append
    (takes_port h.port _ hafter)).append (takes_path h.path hrest rfl)

/-- An endpoint whose address of version 6 is printed with dots is not read. -/
theorem fails_endpoint {X : HexCodec} {ep : EndpointV2} (h : ep.WellFormed)
    (hfeatures : FeaturesPrinted ep.apiFeatures) {addr : Ipv6Addr} (haddr : ep.ipV6 = some addr)
    (hdots : addr.EmbedsIpv4) : Fails Grammar.endpointV2 (ep.toText X ++ rest) := by
  obtain ⟨after, hafter⟩ : ∃ after, after = '[' :: addr.toText ++ ("] ".toList ++
      ((toString ep.port).toList ++ ((ep.path.elim [] fun path => ' ' :: path.toList) ++ rest))) :=
    ⟨_, rfl⟩
  have hhead : after.head? = some '[' := by
    rw [hafter]
    rfl
  have hnext : Ahead AfterIp4 after := by
    refine ⟨[], after, rfl, List.forall_mem_nil _, fun c hc => ?_⟩
    obtain rfl := Option.some.inj (hhead.symm.trans hc)
    exact ⟨rfl, Or.inr rfl⟩
  have hip4 := ahead_ip4 ep.ipV4 hnext
  have hhost := partAhead_host h.host hip4
  obtain ⟨pairs, hmatch, -⟩ := (((takes_front h (not_upper_features ep.apiFeatures hhost)).append
    (takes_apiFeatures (X := X) hfeatures hhost rfl)).append
    (takes_host h.host (fun c hc => (hip4.not_letter c hc).2) rfl)).append (takes_ip4 hnext rfl)
  have hmissing : MatchesText (Expr.opt Grammar.ip6) [] [] after := by
    rw [hafter]
    exact (fails_ip6 hdots _).opt
  have hport : Fails Grammar.port after := by
    have hzero : Fails (R := Rule) (str "0") after := fails_str_of_head (c := '0') rfl fun hmem =>
      absurd (Option.some.inj (hhead.symm.trans hmem)) (by decide)
    have hdigit : Fails (R := Rule) (chr fun c => '1' ≤ c && c ≤ '9') after := by
      refine fails_chr fun c hc => ?_
      obtain rfl := Option.some.inj (hhead.symm.trans hc)
      rfl
    exact (hzero.orElse (hdigit.append _)).atomic _
  have hfails : Fails Grammar.endpointV2 _ :=
    (((hmatch.append hmissing).append_fails hport).append (Expr.opt Grammar.path)).rule .endpointV2
  rw [hafter] at hfails
  simpa only [EndpointV2.toText, haddr, Option.elim_some, List.append_assoc, List.append_nil,
    List.cons_append] using hfails

end Parts

/-! ## Parsing what was printed -/

theorem build_eq_ok_iff {D E : Type} {e : Expr Rule} {fromPestPair : Pair Rule → Run D}
    {pestError : E} {text : String} {document : D} :
    NetworkDocsParser.build e fromPestPair pestError text = .ok (.ok document) ↔
      ∃ pair pairs, NetworkDocsParser.parse e text = some (pair :: pairs) ∧
        fromPestPair pair = .ok document := by
  unfold NetworkDocsParser.build
  cases hparse : NetworkDocsParser.parse e text with
  | none =>
      refine iff_of_false nofun ?_
      rintro ⟨pair, pairs, hpairs, -⟩
      cases hpairs
  | some found =>
      cases found with
      | nil =>
          refine iff_of_false fatalError_ne_ok ?_
          rintro ⟨pair, pairs, hpairs, -⟩
          cases hpairs
      | cons pair pairs =>
          constructor
          · intro h
            obtain ⟨_, hnext, h⟩ := bind_eq_ok_iff.1 h
            obtain rfl := Except.ok.inj hnext
            obtain ⟨document', hread, h⟩ := bind_eq_ok_iff.1 h
            obtain rfl := Except.ok.inj (Except.ok.inj h)
            exact ⟨pair, pairs, rfl, hread⟩
          · rintro ⟨_, _, ⟨⟩, hread⟩
            exact bind_eq_ok_iff.2 ⟨_, rfl, bind_eq_ok_iff.2 ⟨document, hread, rfl⟩⟩

theorem parseFromRaw_eq_ok_iff {raw : String} {ep : EndpointV2} :
    EndpointV2.parseFromRaw H raw = .ok (.ok (.v2 ep)) ↔ ∃ pair pairs,
      NetworkDocsParser.parse Grammar.endpointV2 raw = some (pair :: pairs) ∧
        EndpointV2.fromPestPair H pair = .ok ep := by
  rw [EndpointV2.parseFromRaw, build_eq_ok_iff]
  have hmap (pair : Pair Rule) : (EndpointEnum.v2 <$> EndpointV2.fromPestPair H pair) =
      .ok (.v2 ep) ↔ EndpointV2.fromPestPair H pair = .ok ep := by
    cases EndpointV2.fromPestPair H pair with
    | error e => exact iff_of_false nofun nofun
    | ok ep' => simp [Functor.map, Except.map]
  simp only [hmap]

/-- An endpoint that is parsed is well formed. -/
theorem wellFormed_of_parseFromRaw {raw : String} {ep : EndpointV2}
    (h : EndpointV2.parseFromRaw H raw = .ok (.ok (.v2 ep))) : ep.WellFormed := by
  obtain ⟨pair, pairs, hparse, hread⟩ := parseFromRaw_eq_ok_iff.1 h
  obtain ⟨m, hm, hpairs⟩ := Option.map_eq_some_iff.1 hparse
  have hlang := (Grammar.endpointV2.sound hm).2
  obtain ⟨-, hfields, hname⟩ := records_endpointV2 _ _ hlang pair (hpairs ▸ List.mem_cons_self)
  exact wellFormed_of_fromPestPair hfields hname hread

/-- What the fields of a text make of an endpoint is what the text is parsed as. -/
theorem parseFromRaw_of_takes {text rest : List Char} {built : EndpointV2}
    (h : Takes (EndpointV2.step H) (Grammar.apiName ++ str " " ++ Expr.opt Grammar.apiVersion ++
        Expr.opt Grammar.networkFeatures ++ Expr.opt Grammar.apiFeatures ++
        Expr.opt Grammar.hostV2 ++ Expr.opt Grammar.ip4 ++ Expr.opt Grammar.ip6 ++ Grammar.port ++
        Expr.opt Grammar.path) text .empty built rest) :
    EndpointV2.parseFromRaw H (String.ofList (text ++ rest)) = .ok (.ok (.v2
      (if featuresEmpty built.networkFeatures then { built with networkFeatures := [] }
        else built))) := by
  obtain ⟨pairs, hmatch, hfold⟩ := h
  refine parseFromRaw_eq_ok_iff.2 ⟨.node .endpointV2 text pairs, [], ?_, ?_⟩
  · rw [NetworkDocsParser.parse, String.toList_ofList]
    exact congrArg (Option.map Match.pairs) (hmatch.rule .endpointV2 true)
  · refine bind_eq_ok_iff.2 ⟨built, hfold, ?_⟩
    show (if featuresEmpty built.networkFeatures then _ else _) = _
    split
    case isTrue => rfl
    case isFalse => rfl

variable {X : HexCodec}

/-- A printed endpoint is parsed again, if its features and its address of version 6 are read
back. -/
theorem parseFromRaw_toText {ep : EndpointV2} (h : ep.WellFormed)
    (hfeatures : FeaturesPrinted ep.apiFeatures)
    (hip6 : ∀ addr ∈ ep.ipV6, ¬ Ipv6Addr.EmbedsIpv4 addr) :
    EndpointV2.parseFromRaw X.toHexDecoder (String.ofList (ep.toText X)) = .ok (.ok (.v2 ep)) := by
  have hends : EndsEndpoint [] := fun c hc => by cases hc
  have hparse := parseFromRaw_of_takes (takes_endpoint (X := X) h hfeatures hip6 hends)
  rw [List.append_nil] at hparse
  rw [hparse]
  obtain ⟨api, apiVersion, features, apiFeatures, ipV4, ipV6, host, port, path⟩ := ep
  rcases h.networkFeatures with rfl | ⟨byte, rfl, hne, -⟩
  · rfl
  · have hsome : featuresEmpty (buildingFeatures [byte]) = false := by
      simp [buildingFeatures, featuresEmpty, hne]
    rw [hsome]
    rfl

/-- What is read from a printed endpoint whose features are read back is that endpoint, and its
address of version 6 is printed without dots. -/
theorem eq_of_parseFromRaw_toText {ep ep' : EndpointV2} (h : ep.WellFormed)
    (hfeatures : FeaturesPrinted ep.apiFeatures)
    (hparse : EndpointV2.parseFromRaw X.toHexDecoder (String.ofList (ep.toText X)) =
      .ok (.ok (.v2 ep'))) : ep' = ep ∧ ∀ addr ∈ ep.ipV6, ¬ Ipv6Addr.EmbedsIpv4 addr := by
  have hdots : ∀ addr ∈ ep.ipV6, ¬ Ipv6Addr.EmbedsIpv4 addr := by
    intro addr haddr hembeds
    obtain ⟨pair, pairs, hfound, -⟩ := parseFromRaw_eq_ok_iff.1 hparse
    have hfails : Fails Grammar.endpointV2 (ep.toText X ++ []) :=
      fails_endpoint h hfeatures haddr hembeds
    rw [List.append_nil] at hfails
    rw [NetworkDocsParser.parse, String.toList_ofList, hfails true] at hfound
    cases hfound
  rw [parseFromRaw_toText h hfeatures hdots] at hparse
  cases hparse
  exact ⟨rfl, hdots⟩

/-- Of a single byte, the last digit is printed. -/
theorem apiFeaturesText_singleton {byte : UInt8} (hne : byte ≠ 0) :
    apiFeaturesText X [byte] = ['0', 'x', Nat.digitChar (byte.toNat % 16), ' '] := by
  have hempty : featuresEmpty [byte] = false := by simp [featuresEmpty, hne]
  have hlength : (byteDigits byte).length = 2 := rfl
  rw [apiFeaturesText, hempty, X.encode_eq, List.flatMap_singleton]
  simp only [Bool.false_eq_true, if_false, if_pos hlength]
  rfl

/-- Where a single byte is printed as the digit zero, the parts after the features are missing, and
the zero before the digit is the port. -/
theorem takes_zero_digit {ep : EndpointV2} (h : ep.WellFormed) (rest : List Char) :
    Takes (EndpointV2.step H) (Grammar.apiName ++ str " " ++ Expr.opt Grammar.apiVersion ++
        Expr.opt Grammar.networkFeatures ++ Expr.opt Grammar.apiFeatures ++
        Expr.opt Grammar.hostV2 ++ Expr.opt Grammar.ip4 ++ Expr.opt Grammar.ip6 ++ Grammar.port ++
        Expr.opt Grammar.path)
      (ep.api.toList ++ [' '] ++ versionText ep.apiVersion ++
        networkFeaturesText ep.networkFeatures ++ [] ++ [] ++ [] ++ [] ++ ['0'] ++ []) .empty
      { EndpointV2.empty with
        api := ep.api
        apiVersion := ep.apiVersion
        networkFeatures := buildingFeatures ep.networkFeatures }
      ('x' :: '0' :: ' ' :: rest) := by
  have hzero : ∀ c ∈ ('0' :: 'x' :: '0' :: ' ' :: rest).head?,
      c.isUpper = false ∧ c.isLower = false := by
    rintro _ ⟨⟩
    exact ⟨rfl, rfl⟩
  have hinner : Fails (R := Rule) (atLeast 1 (between 2 2 Grammar.hexaLower) <|>
      Grammar.noZeroHexaLower) ('0' :: ' ' :: rest) := by
    have hone : MatchesAll Grammar.hexaLower [(['0'], [])] (' ' :: rest) :=
      ⟨List.cons_ne_nil _ _, matchesText_chr rfl _, fails_blank rest⟩
    have hzero : Fails Grammar.noZeroHexaLower ('0' :: ' ' :: rest) := by
      refine fails_chr ?_
      rintro _ ⟨⟩
      rfl
    exact ((hone.fails_between (by decide) (by decide)).atLeast Nat.zero_lt_one).orElse hzero
  have hfeatures : Fails Grammar.apiFeatures ('0' :: 'x' :: '0' :: ' ' :: rest) :=
    ((matchesText_str "0x" _).append_fails (hinner.atomic _)).append _
  have hip4 : Fails Grammar.ip4 ('0' :: 'x' :: '0' :: ' ' :: rest) := by
    have hdigits : ∀ c ∈ ['0'], c.isDigit = true := by decide
    refine (fails_ip4Inner hdigits ?_).append _
    rintro _ ⟨⟩
    exact ⟨rfl, by decide⟩
  have hip6 : Fails Grammar.ip6 ('0' :: 'x' :: '0' :: ' ' :: rest) :=
    ((fails_str_cons rfl (by decide) _).append _).append _
  have hport : 0 < 65536 := by decide
  have hhost : Fails Grammar.hostV2 ('0' :: 'x' :: '0' :: ' ' :: rest) :=
    (((fails_chr fun c hc => (hzero c hc).2).append _).atomic _).append _
  have hpath : Fails Grammar.path ('x' :: '0' :: ' ' :: rest) :=
    (fails_str_cons rfl (by decide) _).append _
  have hfront := takes_front (H := H) h fun c hc => (hzero c hc).1
  exact (((((hfront.append (takes_missing hfeatures rfl)).append
    (takes_missing hhost rfl)).append
    (takes_missing hip4 rfl)).append (takes_missing hip6 rfl)).append
    (takes_port hport _ (by rintro _ ⟨⟩; rfl))).append (takes_missing hpath rfl)

/-- The features of a single byte of which the last digit is zero are lost. -/
theorem apiFeatures_of_zero_digit {ep ep' : EndpointV2} (h : ep.WellFormed) {byte : UInt8}
    (hbyte : ep.apiFeatures = [byte]) (hne : byte ≠ 0) (hdigit : byte.toNat % 16 = 0)
    (hparse : EndpointV2.parseFromRaw X.toHexDecoder (String.ofList (ep.toText X)) =
      .ok (.ok (.v2 ep'))) : ep'.apiFeatures = [] := by
  obtain ⟨rest, hrest⟩ : ∃ rest, ep.toText X = ep.api.toList ++ [' '] ++
      versionText ep.apiVersion ++ networkFeaturesText ep.networkFeatures ++ [] ++ [] ++ [] ++ [] ++
      ['0'] ++ [] ++ 'x' :: '0' :: ' ' :: rest := by
    refine ⟨(ep.host.elim [] fun host => host.toList ++ [' ']) ++
      ((ep.ipV4.elim [] fun ip4 => ip4.toText ++ [' ']) ++
      ((ep.ipV6.elim [] fun ip6 => '[' :: ip6.toText ++ "] ".toList) ++
      ((toString ep.port).toList ++ ep.path.elim [] fun path => ' ' :: path.toList))), ?_⟩
    have hzero : Nat.digitChar 0 = '0' := rfl
    simp only [EndpointV2.toText, hbyte, apiFeaturesText_singleton hne, hdigit, hzero,
      List.append_assoc, List.cons_append, List.nil_append, List.append_nil]
  rw [hrest, parseFromRaw_of_takes (takes_zero_digit h rest)] at hparse
  cases hparse
  split
  case isTrue => rfl
  case isFalse => rfl

/-- An endpoint that was parsed is parsed again from its printed form exactly when its features are
printed faithfully and its address of version 6 is printed without dots. -/
theorem parseFromRaw_toText_iff (X : HexCodec) {raw : String} {ep : EndpointV2}
    (h : EndpointV2.parseFromRaw X.toHexDecoder raw = .ok (.ok (.v2 ep))) :
    EndpointV2.parseFromRaw X.toHexDecoder (String.ofList (ep.toText X)) = .ok (.ok (.v2 ep)) ↔
      FeaturesPrinted ep.apiFeatures ∧ ∀ addr ∈ ep.ipV6, ¬ Ipv6Addr.EmbedsIpv4 addr := by
  have hwf := wellFormed_of_parseFromRaw h
  constructor
  · intro hparse
    by_cases hfeatures : FeaturesPrinted ep.apiFeatures
    · exact ⟨hfeatures, (eq_of_parseFromRaw_toText hwf hfeatures hparse).2⟩
    · -- what is printed is the text of an endpoint with other features
      have hother {features : List UInt8} (hprinted : FeaturesPrinted features)
          (htext : apiFeaturesText X ep.apiFeatures = apiFeaturesText X features) :
          ep.apiFeatures = features := by
        have hsame : ep.toText X = ({ ep with apiFeatures := features } : EndpointV2).toText X := by
          simp only [EndpointV2.toText, htext]
        rw [hsame] at hparse
        have hwf' : EndpointV2.WellFormed { ep with apiFeatures := features } := { hwf with }
        have heq := (eq_of_parseFromRaw_toText hwf' hprinted hparse).1
        exact congrArg EndpointV2.apiFeatures heq
      simp only [FeaturesPrinted, not_or, not_and, not_forall] at hfeatures
      obtain ⟨hne, hlarge⟩ := hfeatures
      cases hempty : featuresEmpty ep.apiFeatures with
      | true =>
          refine absurd (hother (Or.inl rfl) ?_) hne
          rw [apiFeaturesText, hempty]
          rfl
      | false =>
          obtain ⟨byte, hmem, hlength, hge⟩ := hlarge hempty
          obtain ⟨_, hfeatures⟩ := List.length_eq_one_iff.1 hlength
          obtain rfl := List.mem_singleton.1 (hfeatures ▸ hmem)
          have hzero : byte ≠ 0 := by
            rintro rfl
            exact hge (by decide)
          by_cases hdigit : byte.toNat % 16 = 0
          · exact absurd (apiFeatures_of_zero_digit hwf hfeatures hzero hdigit hparse) hne
          · have hlt : byte.toNat % 16 < 16 := Nat.mod_lt _ (by decide)
            have hvalue : (UInt8.ofNat (byte.toNat % 16)).toNat = byte.toNat % 16 := by
              rw [UInt8.toNat_ofNat']
              omega
            have hpos : UInt8.ofNat (byte.toNat % 16) ≠ 0 := fun hzero =>
              hdigit (hvalue.symm.trans (congrArg UInt8.toNat hzero))
            have hprinted : FeaturesPrinted [UInt8.ofNat (byte.toNat % 16)] := by
              refine Or.inr ⟨by simp [featuresEmpty, hpos], fun other hother _ => ?_⟩
              rw [List.mem_singleton.1 hother, UInt8.lt_iff_toNat_lt, hvalue]
              exact hlt
            have heq := hother hprinted (by
              rw [hfeatures, apiFeaturesText_singleton hzero, apiFeaturesText_singleton hpos,
                hvalue, Nat.mod_mod])
            rw [hfeatures, List.singleton_inj] at heq
            refine absurd ?_ hge
            rw [heq, UInt8.lt_iff_toNat_lt, hvalue]
            exact hlt
  · rintro ⟨hfeatures, hip6⟩
    exact parseFromRaw_toText hwf hfeatures hip6

theorem decodePairs_digits (bytes : List UInt8) :
    decodePairs (bytes.flatMap byteDigits) = some bytes := by
  induction bytes with
  | nil => rfl
  | cons byte bytes ih =>
      have hlt : byte.toNat < 256 := byte.toNat_lt
      have hvalue : UInt8.ofNat (16 * (byte.toNat / 16) + byte.toNat % 16) = byte := by
        rw [Nat.div_add_mod, UInt8.ofNat_toNat]
      show decodePairs (Nat.digitChar (byte.toNat / 16) :: Nat.digitChar (byte.toNat % 16) ::
        bytes.flatMap byteDigits) = _
      rw [decodePairs, hexValue_digitChar _ (by omega), hexValue_digitChar _ (by omega), ih]
      simp only [Option.bind_eq_bind, Option.bind_some, hvalue, Option.pure_def]

/-- A codec of hexadecimal texts. -/
def exampleHexCodec : HexCodec where
  toHexDecoder := exampleHexDecoder
  encode bytes := bytes.flatMap byteDigits
  encode_eq _ := rfl
  decode_encode := decodePairs_digits

/-- An endpoint with all its parts. -/
theorem parseFromRaw_toText_example : ∃ ep, EndpointV2.parseFromRaw exampleHexDecoder
      "WS2P V1 WS S 0x4 dns.example.org 84.16.72.210 [2001:db8::1] 443 ws2p" =
        .ok (.ok (.v2 ep)) ∧
    EndpointV2.parseFromRaw exampleHexDecoder (String.ofList (ep.toText exampleHexCodec)) =
      .ok (.ok (.v2 ep)) := by
  have hread : EndpointV2.parseFromRaw exampleHexDecoder
      "WS2P V1 WS S 0x4 dns.example.org 84.16.72.210 [2001:db8::1] 443 ws2p" = .ok (.ok (.v2 {
        api := "WS2P"
        apiVersion := 1
        networkFeatures := [6]
        apiFeatures := [4]
        ipV4 := some 0x541048d2#32
        ipV6 := some 0x20010db8000000000000000000000001#128
        host := some "dns.example.org"
        port := 443
        path := some "ws2p" })) := by
    decide +kernel
  refine ⟨_, hread, (parseFromRaw_toText_iff exampleHexCodec hread).2 ⟨by decide, ?_⟩⟩
  rintro addr ⟨⟩
  decide +kernel

end Durs.Network
