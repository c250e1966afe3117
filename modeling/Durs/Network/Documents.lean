/-
# Network documents

The rules of `network_documents.pest` for endpoints of version 2, peer cards and heads, and what the
parsers build from them.  The rules bound the digits of no number but a byte, and the parsers unwrap
each conversion.
-/

import Durs.Network.Addresses
import Durs.Network.Heads

namespace Durs.Network

open RustStd Lib.Peg Lib.Peg.Expr

namespace Grammar

/-! ## Common rules -/

/-- `nl = _{ "\n" }` -/
def nl : Expr Rule := str "\n"

/-- `no_zero_hexa_lower = @{ '1'..'9' | 'a'..'f' }`, used within atomic rules only. -/
def noZeroHexaLower : Expr Rule := chr fun c => ('1' ≤ c && c ≤ '9') || ('a' ≤ c && c ≤ 'f')

/-- `hexa_upper = @{ ASCII_DIGIT | 'A'..'F' }`, used within atomic rules only. -/
def hexaUpper : Expr Rule := chr isHexaUpper

/-- `base58 = { !("O" | "I" | "l") ~ ASCII_ALPHANUMERIC }`; zero is not excluded. -/
def base58 : Expr Rule := notFollowedBy (str "O" <|> str "I" <|> str "l") ++ chr Char.isAlphanum

/-- `base64 = { ASCII_ALPHANUMERIC | "+" | "/" }` -/
def base64 : Expr Rule := chr Char.isAlphanum <|> str "+" <|> str "/"

/-- `tens = @{ '1'..'9' ~ ASCII_DIGIT }`, used within atomic rules only. -/
def tens : Expr Rule := chr (fun c => '1' ≤ c && c ≤ '9') ++ chr Char.isDigit

/-- `u8_hundreds`, used within atomic rules only:
`("2" ~ ('0'..'4' ~ ASCII_DIGIT | ('0'..'5'){2})) | ("1" ~ ASCII_DIGIT{2})` -/
def u8Hundreds : Expr Rule :=
  str "2" ++ (chr (fun c => '0' ≤ c && c ≤ '4') ++ chr Char.isDigit <|>
      between 2 2 (chr fun c => '0' ≤ c && c ≤ '5')) <|>
    str "1" ++ between 2 2 (chr Char.isDigit)

/-- `u8 = @{ u8_hundreds | tens | ASCII_DIGIT }` -/
def u8 : Expr Rule := atomic .u8 (u8Hundreds <|> tens <|> chr Char.isDigit)

/-- `no_zero_u_int = @{ '1'..'9' ~ ASCII_DIGIT* }`, used within atomic rules only. -/
def noZeroUInt : Expr Rule := chr (fun c => '1' ≤ c && c ≤ '9') ++ atLeast 0 (chr Char.isDigit)

/-- `currency = @{ ASCII_ALPHA ~ (ASCII_ALPHANUMERIC | "-" | "_"){,255} }` -/
def currency : Expr Rule := atomic .currency (
  chr Char.isAlpha ++ between 0 255 (chr fun c => c.isAlphanum || c = '-' || c = '_'))

/-- `block_id = @{ u_int }` -/
def blockId : Expr Rule := atomic .blockId uInt

/-- `hash = @{ hexa_upper{64} }` -/
def hash : Expr Rule := atomic .hash (between 64 64 hexaUpper)

/-- `pubkey = @{ base58{43,44} }` -/
def pubkey : Expr Rule := atomic .pubkey (between 43 44 base58)

/-- `blockstamp = ${ block_id ~ "-" ~ hash }` -/
def blockstamp : Expr Rule := rule .blockstamp (blockId ++ str "-" ++ hash)

/-- `ed25519_sig = @{ base64{88} | (base64{87} ~ "=") | (base64{86} ~ "==") }` -/
def ed25519Sig : Expr Rule := atomic .ed25519Sig (
  between 88 88 base64 <|> between 87 87 base64 ++ str "=" <|> between 86 86 base64 ++ str "==")

/-! ## Endpoints of version 2 -/

/-- `ip6_seg = _{ hexa_lower{1,4} }` -/
def ip6Seg : Expr Rule := between 1 4 hexaLower

/-- `ip6_full = _{ (ip6_seg ~ ":"){7} ~ ip6_seg }` -/
def ip6Full : Expr Rule := between 7 7 (ip6Seg ++ str ":") ++ ip6Seg

/-- `ip6_no_full`, used within an atomic rule only:
`ip6_seg? ~ (":" ~ ip6_seg){0,6} ~ "::" ~ (ip6_seg ~ ":"){0,6} ~ ip6_seg?` -/
def ip6NoFull : Expr Rule :=
  opt ip6Seg ++ between 0 6 (str ":" ++ ip6Seg) ++ str "::" ++ between 0 6 (ip6Seg ++ str ":") ++
    opt ip6Seg

/-- `ip6_inner = @{ ip6_full | ip6_no_full }` -/
def ip6Inner : Expr Rule := atomic .ip6Inner (ip6Full <|> ip6NoFull)

/-- `ip6 = _{ "[" ~ ip6_inner ~ "] " }` -/
def ip6 : Expr Rule := str "[" ++ ip6Inner ++ str "] "

/-- `api_version_inner = @{ no_zero_u_int }` -/
def apiVersionInner : Expr Rule := atomic .apiVersionInner noZeroUInt

/-- `api_version = _{ "V" ~ api_version_inner ~ " " }` -/
def apiVersion : Expr Rule := str "V" ++ apiVersionInner ++ str " "

def http : Expr Rule := atomic .http (str "HTTP ")
def ws : Expr Rule := atomic .ws (str "WS ")
def tls : Expr Rule := atomic .tls (str "S ")
def tor : Expr Rule := atomic .tor (str "TOR ")

/-- `network_features = _{ http? ~ ws? ~ tls? ~ tor? }` -/
def networkFeatures : Expr Rule := opt http ++ opt ws ++ opt tls ++ opt tor

/-- `api_features_inner = @{ (hexa_lower{2})+ | no_zero_hexa_lower }` -/
def apiFeaturesInner : Expr Rule :=
  atomic .apiFeaturesInner (atLeast 1 (between 2 2 hexaLower) <|> noZeroHexaLower)

/-- `api_features = _{ "0x" ~ api_features_inner ~ " " }` -/
def apiFeatures : Expr Rule := str "0x" ++ apiFeaturesInner ++ str " "

/-- `host_v2_inner`, which is written as `host` is. -/
def hostV2Inner : Expr Rule :=
  atomic .hostV2Inner (chr Char.isLower ++
    atLeast 0 (chr fun c => c.isLower || c.isDigit || c = '-' || c = '_' || c = '.'))

/-- `host_v2 = _{ host_v2_inner ~ " " }` -/
def hostV2 : Expr Rule := hostV2Inner ++ str " "

/-- `ip4_inner = { u8 ~ "." ~ u8 ~ "." ~ u8 ~ "." ~ u8 }` -/
def ip4Inner : Expr Rule :=
  rule .ip4Inner (u8 ++ (str "." ++ (u8 ++ (str "." ++ (u8 ++ (str "." ++ u8))))))

/-- `ip4 = _{ ip4_inner ~ " " }` -/
def ip4 : Expr Rule := ip4Inner ++ str " "

/-- `path = _{ " " ~ path_inner }` -/
def path : Expr Rule := str " " ++ pathInner

/-- `endpoint_v2`, which does not ask for the end of the text. -/
def endpointV2 : Expr Rule := rule .endpointV2 (
  apiName ++ str " " ++ opt apiVersion ++ opt networkFeatures ++ opt apiFeatures ++ opt hostV2 ++
    opt ip4 ++ opt ip6 ++ port ++ opt path)

/-! ## Peer cards and heads -/

/-- `peer_v11`, which does not ask for the end of the text. -/
def peerV11 : Expr Rule := rule .peerV11 (
  str "11:" ++ currency ++ str ":" ++ nodeId ++ str ":" ++ pubkey ++ str ":" ++ blockstamp ++ nl ++
    atLeast 1 (endpointV2 ++ nl) ++ opt ed25519Sig)

def apiOutgoingConf : Expr Rule := atomic .apiOutgoingConf u8
def apiIncomingConf : Expr Rule := atomic .apiIncomingConf u8
def freeMemberRooms : Expr Rule := atomic .freeMemberRooms u8
def freeMirrorRooms : Expr Rule := atomic .freeMirrorRooms u8

/-- `software = @{ ASCII_ALPHA ~ ASCII_ALPHANUMERIC* }` -/
def software : Expr Rule :=
  atomic .software (chr Char.isAlpha ++ atLeast 0 (chr Char.isAlphanum))

/-- `soft_version`: three digits with dots between them, and a pre-release. -/
def softVersion : Expr Rule := atomic .softVersion (
  chr Char.isDigit ++ str "." ++ chr Char.isDigit ++ str "." ++ chr Char.isDigit ++
    opt (str "-" ++ (str "a" <|> str "b" <|> str "rc") ++ chr Char.isDigit ++
      between 0 2 (str "." ++ chr Char.isDigit)))

/-- `step = @{ u_int }` -/
def step : Expr Rule := atomic .step uInt

/-- `head_v3`, which does not ask for the end of the text. -/
def headV3 : Expr Rule := rule .headV3 (
  str "3:" ++ currency ++ str ":" ++ apiOutgoingConf ++ str ":" ++ apiIncomingConf ++ str ":" ++
    freeMemberRooms ++ str ":" ++ freeMirrorRooms ++ str ":" ++ nodeId ++ str ":" ++ pubkey ++
    str ":" ++ blockstamp ++ str ":" ++ software ++ str ":" ++ softVersion ++ nl ++
    opt ed25519Sig ++ opt (nl ++ step))

/-- `network_document = ${ SOI ~ (head_v3 | peer_v11) ~ EOI }` -/
def networkDocument : Expr Rule :=
  rule .networkDocument (soi ++ (headV3 <|> peerV11) ++ eoi .eoi)

end Grammar

/-- `NetworkDocsParser::parse`: the rules that an expression matches at the start of a text. -/
def NetworkDocsParser.parse (e : Expr Rule) (text : String) : Option (List (Pair Rule)) :=
  (e.run true text.toList).map Match.pairs

/-- `Pairs::next`, unwrapped. -/
def nextPair (pairs : List (Pair Rule)) : Run (Pair Rule × List (Pair Rule)) :=
  match pairs with
  | pair :: pairs => return (pair, pairs)
  | [] => fatalError "called Option::unwrap() on a None value"

/-- A parser of the grammar: what is built from the rule that a text matches. -/
def NetworkDocsParser.build {D E : Type} (e : Expr Rule) (fromPestPair : Pair Rule → Run D)
    (pestError : E) (text : String) : Run (Except E D) :=
  match NetworkDocsParser.parse e text with
  | some pairs => do
      let (pair, _) ← nextPair pairs
      let document ← fromPestPair pair
      return .ok document
  | none => return .error pestError

/-- Errors of the parsers of endpoints, without their texts. -/
inductive ParseError
  | pestError
deriving DecidableEq, Repr

/-! ## Endpoints of version 2 -/

/-- Endpoint v2. -/
structure EndpointV2 where
  api : String
  apiVersion : Nat
  networkFeatures : List UInt8
  apiFeatures : List UInt8
  ipV4 : Option Ipv4Addr
  ipV6 : Option Ipv6Addr
  host : Option String
  port : Nat
  path : Option String
deriving DecidableEq, Repr

/-- Endpoint. -/
inductive EndpointEnum
  | v1 (ep : EndpointV1)
  | v2 (ep : EndpointV2)
deriving DecidableEq, Repr

/-- The decoding of hexadecimal texts, which a library does; it decodes each text of an even number
of digits. -/
structure HexDecoder where
  decode : List Char → Option (List UInt8)
  isSome_decode : ∀ text : List Char, text.length % 2 = 0 →
    (∀ c ∈ text, (hexValue c).isSome = true) → (decode text).isSome = true

variable (H : HexDecoder) (C : DocCrypto)

namespace EndpointV2

/-- Set a bit of the network features. -/
def enable (ep : EndpointV2) (bit : UInt8) : EndpointV2 :=
  { ep with networkFeatures := ep.networkFeatures.modifyHead (· ||| bit) }

/-- Take a field. -/
def step (ep : EndpointV2) (field : Pair Rule) : Run EndpointV2 :=
  match field.rule with
  | .apiName => return { ep with api := String.ofList field.text }
  | .apiVersionInner => do
      let apiVersion ← unwrap (parseUnsigned 16 field.text)
      return { ep with apiVersion }
  | .http => return ep.enable 1
  | .ws => return ep.enable 2
  | .tls => return ep.enable 4
  | .tor => return ep.enable 8
  | .apiFeaturesInner => do
      let text := if field.text.length = 1 then '0' :: field.text else field.text
      let apiFeatures ← unwrap (H.decode text)
      return { ep with apiFeatures }
  | .port => do
      let port ← unwrap (parseUnsigned 16 field.text)
      return { ep with port }
  | .hostV2Inner => return { ep with host := some (String.ofList field.text) }
  | .ip4Inner => do
      let ipV4 ← unwrap (Ipv4Addr.fromStr field.text)
      return { ep with ipV4 := some ipV4 }
  | .ip6Inner => do
      let ipV6 ← unwrap (Ipv6Addr.fromStr field.text)
      return { ep with ipV6 := some ipV6 }
  | .pathInner => return { ep with path := some (String.ofList field.text) }
  | _ => fatalError "unexpected rule: \x7b:?\x7d"

/-- Generate from pest pair; features without a bit are dropped. -/
def fromPestPair (pair : Pair Rule) : Run EndpointV2 := do
  let ep ← pair.inner.foldlM (step H)
    { api := "", apiVersion := 0, networkFeatures := [0], apiFeatures := [], ipV4 := none,
      ipV6 := none, host := none, port := 0, path := none }
  if ep.networkFeatures.all (· = 0) then return { ep with networkFeatures := [] }
  return ep

/-- Parse from raw ascii format. -/
def parseFromRaw (rawEndpoint : String) : Run (Except ParseError EndpointEnum) :=
  NetworkDocsParser.build Grammar.endpointV2 (fun pair => .v2 <$> fromPestPair H pair) .pestError
    rawEndpoint

end EndpointV2

/-! ## Peer cards and heads -/

/-- Read a public key. -/
def readPubkey (field : Pair Rule) : Run PubKey := unwrap (C.fromBase58 (String.ofList field.text))

/-- Read a signature. -/
def readSig (field : Pair Rule) : Run Sig := unwrap (C.fromBase64 (String.ofList field.text))

/-- Read a blockstamp. -/
def readBlockstamp (field : Pair Rule) : Run Blockstamp := do
  let (blockId, innerRules) ← nextPair field.inner
  let (blockHash, _) ← nextPair innerRules
  let id ← unwrap (parseUnsigned 32 blockId.text)
  let hash ← unwrap (Hash.fromHex blockHash.text)
  return { id, hash }

/-- Peer card V11. -/
structure PeerCardV11 where
  currencyName : String
  issuer : PubKey
  nodeId : NodeId
  blockstamp : Blockstamp
  endpoints : List EndpointV2
  endpointsStr : List String
  sig : Option Sig
deriving DecidableEq, Repr

namespace PeerCardV11

/-- The fields found so far. -/
structure Fields where
  currencyStr : String
  nodeId : NodeId
  issuer : Option PubKey
  blockstamp : Option Blockstamp
  endpoints : List EndpointV2
  sig : Option Sig

/-- Take a field.  The node identifier is printed in hexadecimal, and read in decimal. -/
def step (f : Fields) (field : Pair Rule) : Run Fields :=
  match field.rule with
  | .currency => return { f with currencyStr := String.ofList field.text }
  | .nodeId => do
      let nodeId ← unwrap (parseUnsigned 32 field.text)
      return { f with nodeId }
  | .pubkey => do
      let issuer ← readPubkey C field
      return { f with issuer := some issuer }
  | .blockstamp => do
      let blockstamp ← readBlockstamp field
      return { f with blockstamp := some blockstamp }
  | .endpointV2 => do
      let ep ← EndpointV2.fromPestPair H field
      return { f with endpoints := f.endpoints ++ [ep] }
  | .ed25519Sig => do
      let sig ← readSig C field
      return { f with sig := some sig }
  | _ => fatalError "unexpected rule: \x7b:?\x7d"

def fromPestPair (pair : Pair Rule) : Run PeerCardV11 := do
  let f ← pair.inner.foldlM (step H C)
    { currencyStr := "", nodeId := 0, issuer := none, blockstamp := none, endpoints := [],
      sig := none }
  let issuer ← expect f.issuer "Grammar must ensure that peer v11 have valid issuer pubkey !"
  let blockstamp ← expect f.blockstamp "Grammar must ensure that peer v11 have valid blockstamp!"
  return {
    currencyName := f.currencyStr
    issuer
    nodeId := f.nodeId
    blockstamp
    endpoints := f.endpoints
    endpointsStr := []
    sig := f.sig }

def parse (doc : String) : Run (Except TextDocumentParseError PeerCardV11) :=
  NetworkDocsParser.build Grammar.peerV11 (fromPestPair H C) .pestError doc

end PeerCardV11

namespace NetworkHeadV3

/-- The fields found so far. -/
structure Fields where
  currencyStr : String
  apiOutgoingConf : Nat
  apiIncomingConf : Nat
  freeMemberRooms : Nat
  freeMirrorRooms : Nat
  nodeId : NodeId
  pubkey : Option PubKey
  blockstamp : Option Blockstamp
  software : String
  softVersion : String
  signature : Option Sig
  step : Nat

/-- Take a field.  The node identifier is printed in hexadecimal, and read in decimal. -/
def takeField (f : Fields) (field : Pair Rule) : Run Fields :=
  match field.rule with
  | .currency => return { f with currencyStr := String.ofList field.text }
  | .apiOutgoingConf => do
      let apiOutgoingConf ← unwrap (parseUnsigned 8 field.text)
      return { f with apiOutgoingConf }
  | .apiIncomingConf => do
      let apiIncomingConf ← unwrap (parseUnsigned 8 field.text)
      return { f with apiIncomingConf }
  | .freeMemberRooms => do
      let freeMemberRooms ← unwrap (parseUnsigned 8 field.text)
      return { f with freeMemberRooms }
  | .freeMirrorRooms => do
      let freeMirrorRooms ← unwrap (parseUnsigned 8 field.text)
      return { f with freeMirrorRooms }
  | .nodeId => do
      let nodeId ← unwrap (parseUnsigned 32 field.text)
      return { f with nodeId }
  | .pubkey => do
      let pubkey ← readPubkey C field
      return { f with pubkey := some pubkey }
  | .blockstamp => do
      let blockstamp ← readBlockstamp field
      return { f with blockstamp := some blockstamp }
  | .software => return { f with software := String.ofList field.text }
  | .softVersion => return { f with softVersion := String.ofList field.text }
  | .ed25519Sig => do
      let signature ← readSig C field
      return { f with signature := some signature }
  | .step => do
      let step ← unwrap (parseUnsigned 8 field.text)
      return { f with step }
  | _ => fatalError "unexpected rule: \x7b:?\x7d"

def fromPestPair (pair : Pair Rule) : Run NetworkHeadV3 := do
  let f ← pair.inner.foldlM (takeField C)
    { currencyStr := "", apiOutgoingConf := 0, apiIncomingConf := 0, freeMemberRooms := 0,
      freeMirrorRooms := 0, nodeId := 0, pubkey := none, blockstamp := none, software := "",
      softVersion := "", signature := none, step := 0 }
  let pubkey ← expect f.pubkey "Grammar must ensure that head v3 have valid issuer pubkey !"
  let blockstamp ← expect f.blockstamp "Grammar must ensure that head v3 have valid blockstamp!"
  return {
    currencyName := f.currencyStr
    apiOutgoingConf := f.apiOutgoingConf
    apiIncomingConf := f.apiIncomingConf
    freeMemberRooms := f.freeMemberRooms
    freeMirrorRooms := f.freeMirrorRooms
    nodeId := f.nodeId
    pubkey
    blockstamp
    software := f.software
    softVersion := f.softVersion
    signature := f.signature
    step := f.step }

def parse (doc : String) : Run (Except TextDocumentParseError NetworkHeadV3) :=
  NetworkDocsParser.build Grammar.headV3 (fromPestPair C) .pestError doc

end NetworkHeadV3

/-- A network document that the grammar has a rule for. -/
inductive NetworkDocument
  | peer (card : PeerCardV11)
  | head (head : NetworkHead)
deriving DecidableEq, Repr

namespace NetworkDocument

def fromPestPair (pair : Pair Rule) : Run NetworkDocument :=
  match pair.rule with
  | .peerV11 => .peer <$> PeerCardV11.fromPestPair H C pair
  | .headV3 => (.head ∘ .v3) <$> NetworkHeadV3.fromPestPair C pair
  | _ => fatalError "unexpected rule: \x7b:?\x7d"

/-- The document is built from the first rule within the one that is matched. -/
def parse (doc : String) : Run (Except TextDocumentParseError NetworkDocument) :=
  NetworkDocsParser.build Grammar.networkDocument (fun pair => do
    let (document, _) ← nextPair pair.inner
    fromPestPair H C document) .pestError doc

end NetworkDocument

end Durs.Network
