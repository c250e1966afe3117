/-
# Endpoints of version 1

The rules of `network_documents.pest` for an endpoint of version 1, and the endpoint that is built
from them.  The grammar bounds the digits of a node identifier, but not those of a port.
-/

import Durs.Documents.Parsers

namespace Durs.Network

open RustStd Lib.Peg Lib.Peg.Expr

/-- A unique identifier of a node within its owner's, a `u32` in the source. -/
abbrev NodeId := Nat

/-- Complete identifier of a duniter node. -/
structure NodeFullId where
  nodeId : NodeId
  pubkey : PubKey
deriving DecidableEq, Repr

/-- The rules of the grammar that are recorded. -/
inductive Rule
  | eoi
  | u8 | currency | blockId | hash | pubkey | blockstamp | ed25519Sig
  | apiName | nodeId | host | port | pathInner | endpointV1
  | apiVersionInner | http | ws | tls | tor | apiFeaturesInner | hostV2Inner | ip4Inner | ip6Inner
  | endpointV2
  | peerV11
  | apiOutgoingConf | apiIncomingConf | freeMemberRooms | freeMirrorRooms | software | softVersion
  | step
  | headV3
  | networkDocument
deriving DecidableEq, Repr

namespace Grammar

/-- `hexa_lower = @{ ASCII_DIGIT | 'a'..'f' }` -/
def hexaLower : Expr Rule := chr fun c => c.isDigit || ('a' ≤ c && c ≤ 'f')

/-- `u_int = @{ "0" | '1'..'9' ~ ASCII_DIGIT* }` -/
def uInt : Expr Rule :=
  str "0" <|> chr (fun c => '1' ≤ c && c ≤ '9') ++ atLeast 0 (chr Char.isDigit)

/-- `api_name = @{ (ASCII_ALPHA_UPPER | ASCII_DIGIT | "_")+ }` -/
def apiName : Expr Rule :=
  atomic .apiName (atLeast 1 (chr fun c => c.isUpper || c.isDigit || c = '_'))

/-- `node_id = @{ hexa_lower{1,8} }` -/
def nodeId : Expr Rule := atomic .nodeId (between 1 8 hexaLower)

/-- `host = @{ ASCII_ALPHA_LOWER ~ (ASCII_ALPHA_LOWER | ASCII_DIGIT | "-" | "_" | ".")* }` -/
def host : Expr Rule :=
  atomic .host (chr Char.isLower ++
    atLeast 0 (chr fun c => c.isLower || c.isDigit || c = '-' || c = '_' || c = '.'))

/-- `port = @{ u_int }` -/
def port : Expr Rule := atomic .port uInt

/-- `path_inner = @{ (ASCII_ALPHANUMERIC | "-" | "_" | ".")+ }` -/
def pathInner : Expr Rule :=
  atomic .pathInner (atLeast 1 (chr fun c => c.isAlphanum || c = '-' || c = '_' || c = '.'))

/-- `endpoint_v1`, which does not ask for the end of the text. -/
def endpointV1 : Expr Rule := rule .endpointV1 (
  apiName ++ opt (str " " ++ nodeId) ++ (str " " ++ host ++ (str " " ++ port ++
    (opt (str " " ++ opt (str "/") ++ pathInner) ++ opt (str " ")))))

end Grammar

/-- `NetworkDocsParser::parse`, of an endpoint of version 1. -/
def parseEndpointV1 (text : String) : Option (List (Pair Rule)) :=
  (Grammar.endpointV1.run true text.toList).map Match.pairs

/-- Endpoint v1. -/
structure EndpointV1 where
  api : String
  nodeId : Option NodeId
  issuer : PubKey
  hashFullId : Option Hash
  host : String
  port : Nat
  path : Option String
  rawEndpoint : String
  status : Nat
  lastCheck : Nat
deriving DecidableEq, Repr

/-- `u32::from_str_radix(text, 16)`, of a text without a sign. -/
def parseHexU32 (text : List Char) : Option Nat :=
  ((text.mapM hexValue).map hexNumber).filter (· < 4294967296)

variable (C : DocCrypto)

/-- The printed form of a node: the identifier in hexadecimal. -/
def NodeFullId.toText (id : NodeFullId) : String :=
  String.ofList (Nat.toDigits 16 id.nodeId) ++ "-" ++ C.base58 id.pubkey

/-- Compute sha256 hash. -/
def NodeFullId.sha256 (id : NodeFullId) : Hash := C.hashStr (id.toText C)

namespace EndpointV1

/-- Accessors providing node full identifier. -/
def nodeFullId (ep : EndpointV1) : Option NodeFullId :=
  match ep.nodeId with
  | some nodeId => some { nodeId, pubkey := ep.issuer }
  | none => none

/-- The fields found so far. -/
structure Fields where
  apiName : String
  nodeId : Option NodeId
  hashFullId : Option Hash
  hostStr : String
  port : Nat
  path : Option String

/-- Take a field. -/
def step (issuer : PubKey) (f : Fields) (field : Pair Rule) : Run Fields :=
  match field.rule with
  | .apiName => return { f with apiName := String.ofList field.text }
  | .nodeId => do
      let nodeId ← unwrap (parseHexU32 field.text)
      return { f with
        nodeId := some nodeId
        hashFullId := some (NodeFullId.sha256 C { nodeId, pubkey := issuer }) }
  | .host => return { f with hostStr := String.ofList field.text }
  | .port => do
      let port ← unwrap (parseUnsigned 64 field.text)
      return { f with port }
  | .pathInner => return { f with path := some (String.ofList field.text) }
  | _ => fatalError "unexpected rule: \x7b:?\x7d"

/-- Generate from pest pair. -/
def fromPestPair (pair : Pair Rule) (issuer : PubKey) (status lastCheck : Nat) :
    Run EndpointV1 := do
  let f ← pair.inner.foldlM (step C issuer)
    { apiName := "", nodeId := none, hashFullId := none, hostStr := "", port := 0, path := none }
  return {
    issuer
    api := f.apiName
    nodeId := f.nodeId
    hashFullId := f.hashFullId
    host := f.hostStr
    port := f.port
    path := f.path
    rawEndpoint := String.ofList pair.text
    status
    lastCheck }

/-- Parse from utf8 format; the error says only that the text is not an endpoint. -/
def parseFromRaw (rawEndpoint : String) (issuer : PubKey) (status lastCheck : Nat) :
    Run (Option EndpointV1) :=
  match parseEndpointV1 rawEndpoint with
  | some (pair :: _) => do
      let ep ← fromPestPair C pair issuer status lastCheck
      return some ep
  | some [] => fatalError "called Option::unwrap() on a None value"
  | none => return none

end EndpointV1

/-! ## When an endpoint is built -/

/-- Whether a port fits a machine integer. -/
def PortFits (field : Pair Rule) : Prop :=
  field.rule = .port → (parseUnsigned 64 field.text).isSome = true

instance (field : Pair Rule) : Decidable (PortFits field) :=
  inferInstanceAs (Decidable (field.rule = .port → _))

/-- What an endpoint records within. -/
inductive IsField : Pair Rule → Prop
  | apiName {text : List Char} : IsField (.leaf .apiName text)
  | nodeId {text : List Char} : (parseHexU32 text).isSome → IsField (.leaf .nodeId text)
  | host {text : List Char} : IsField (.leaf .host text)
  | port {text : List Char} : IsField (.leaf .port text)
  | pathInner {text : List Char} : IsField (.leaf .pathInner text)

/-- A lower-case digit has a value. -/
theorem hexValue_of_hexaLower {c : Char} (hc : c.isDigit || ('a' ≤ c && c ≤ 'f')) :
    ∃ digit, hexValue c = some digit ∧ digit < 16 := by
  by_cases hdigit : c.isDigit = true
  · have hbounds : 48 ≤ c.toNat ∧ c.toNat ≤ 57 := by
      simpa [Char.isDigit, UInt32.le_iff_toNat_le] using hdigit
    exact ⟨c.toNat - 48, if_pos hdigit, by omega⟩
  · have hlower : 'a' ≤ c ∧ c ≤ 'f' := by simpa [hdigit] using hc
    have hlow : ('a' : Char).toNat ≤ c.toNat := UInt32.le_iff_toNat_le.1 hlower.1
    have hhigh : c.toNat ≤ ('f' : Char).toNat := UInt32.le_iff_toNat_le.1 hlower.2
    have hbounds : 97 ≤ c.toNat ∧ c.toNat ≤ 102 := ⟨hlow, hhigh⟩
    have hupper : ¬ ('A' ≤ c ∧ c ≤ 'F') := fun h => by
      have hle : c.toNat ≤ ('F' : Char).toNat := UInt32.le_iff_toNat_le.1 h.2
      have hle : c.toNat ≤ 70 := hle
      omega
    refine ⟨c.toNat - 87, ?_, by omega⟩
    rw [hexValue, if_neg hdigit, if_neg hupper, if_pos hlower]

theorem parseHexU32_isSome {text : List Char} (hlength : text.length ≤ 8)
    (hdigits : ∀ c ∈ text, c.isDigit || ('a' ≤ c && c ≤ 'f')) : (parseHexU32 text).isSome := by
  have hvalues : ∃ digits, text.mapM hexValue = some digits ∧ digits.length = text.length ∧
      ∀ digit ∈ digits, digit < 16 := by
    clear hlength
    induction text with
    | nil => exact ⟨[], rfl, rfl, List.forall_mem_nil _⟩
    | cons c text ih =>
        rcases List.forall_mem_cons.1 hdigits with ⟨hc, htext⟩
        rcases ih htext with ⟨digits, hread, hcount, hlt⟩
        rcases hexValue_of_hexaLower hc with ⟨digit, hvalue, hbound⟩
        refine ⟨digit :: digits, ?_, congrArg (· + 1) hcount,
          List.forall_mem_cons.2 ⟨hbound, hlt⟩⟩
        rw [List.mapM_cons, hvalue, hread]
        rfl
  rcases hvalues with ⟨digits, hread, hcount, hlt⟩
  have hfits : hexNumber digits < 4294967296 := by
    refine Nat.lt_of_lt_of_le (hexNumber_lt hlt) ?_
    rw [hcount]
    exact Nat.pow_le_pow_right (show 0 < 16 by decide) hlength
  rw [parseHexU32, hread, Option.map_some, Option.filter_some, if_pos (decide_eq_true hfits)]
  rfl

theorem records_endpointV1 : Records
    (fun pair => ∀ field ∈ pair.inner, IsField field) Grammar.endpointV1 := by
  have hname : Records IsField Grammar.apiName := records_atomic fun _ _ _ => .apiName
  have hnode : Records IsField Grammar.nodeId := by
    refine records_atomic fun text inner h => .nodeId ?_
    rcases h with ⟨count, -, hmost, hchars⟩
    rcases hchars.chars (p := fun c => c.isDigit || ('a' ≤ c && c ≤ 'f'))
      (fun _ _ ⟨c, hc, htext, _⟩ => ⟨c, hc, htext⟩) with ⟨hlength, hdigits⟩
    exact parseHexU32_isSome (hlength ▸ hmost) hdigits
  have hhost : Records IsField Grammar.host := records_atomic fun _ _ _ => .host
  have hport : Records IsField Grammar.port := records_atomic fun _ _ _ => .port
  have hpath : Records IsField Grammar.pathInner := records_atomic fun _ _ _ => .pathInner
  have hblank : Records IsField (str " ") := records_str " "
  have hslash : Records IsField (opt (str "/")) := (records_str "/").opt
  have hfields := (hname.append (hblank.append hnode).opt).append ((hblank.append hhost).append
    ((hblank.append hport).append (((hblank.append hslash).append hpath).opt.append hblank.opt)))
  rintro text pairs ⟨inner, hinner, rfl⟩
  exact List.forall_mem_singleton.2 (hfields text inner hinner)

theorem returns_fold_iff (issuer : PubKey) {fields : List (Pair Rule)}
    (hfields : ∀ field ∈ fields, IsField field) (f : EndpointV1.Fields) :
    Returns (fields.foldlM (EndpointV1.step C issuer) f) ↔
      ∀ field ∈ fields, PortFits field := by
  refine returns_foldlM_iff (fun field hmem f => ?_) f
  cases hfields field hmem with
  | apiName => exact iff_of_true ⟨_, rfl⟩ nofun
  | @nodeId text hread =>
      rcases Option.isSome_iff_exists.1 hread with ⟨id, hid⟩
      refine iff_of_true (returns_bind_iff.2 ⟨id, ?_, _, rfl⟩) nofun
      rw [unwrap_eq_ok_iff]
      exact hid
  | host => exact iff_of_true ⟨_, rfl⟩ nofun
  | @port text =>
      show Returns (unwrap (parseUnsigned 64 text) >>= _) ↔ _
      rw [returns_bind_iff_of_forall fun port => returns_pure _, returns_unwrap_iff]
      exact ⟨fun h _ => h, fun h => h rfl⟩
  | pathInner => exact iff_of_true ⟨_, rfl⟩ nofun

/-- Whether the port of an endpoint fits, if the text is one. -/
def EndpointFits (rawEndpoint : String) : Prop :=
  ∀ pair ∈ (parseEndpointV1 rawEndpoint).getD [], ∀ field ∈ pair.inner, PortFits field

instance (rawEndpoint : String) : Decidable (EndpointFits rawEndpoint) :=
  inferInstanceAs (Decidable (∀ pair ∈ (parseEndpointV1 rawEndpoint).getD [], _))

/-- Parsing an endpoint returns exactly when its port fits. -/
theorem returns_parseFromRaw_iff (rawEndpoint : String) (issuer : PubKey)
    (status lastCheck : Nat) :
    Returns (EndpointV1.parseFromRaw C rawEndpoint issuer status lastCheck) ↔
      EndpointFits rawEndpoint := by
  unfold EndpointV1.parseFromRaw EndpointFits
  cases hparse : parseEndpointV1 rawEndpoint with
  | none => exact iff_of_true ⟨none, rfl⟩ (List.forall_mem_nil _)
  | some pairs =>
      rcases Option.map_eq_some_iff.1 hparse with ⟨m, hm, rfl⟩
      have hfields := records_endpointV1 _ _ (Grammar.endpointV1.sound hm).2
      rcases (Grammar.endpointV1.sound hm).2 with ⟨inner, -, hpairs⟩
      rw [hpairs, List.forall_mem_singleton] at hfields
      simp only [hpairs, Option.getD_some, List.forall_mem_singleton]
      rw [returns_bind_iff_of_forall fun ep => returns_pure _, EndpointV1.fromPestPair,
        returns_bind_iff_of_forall fun f => returns_pure _]
      exact returns_fold_iff C issuer hfields _

end Durs.Network
