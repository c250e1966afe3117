/-
# The grammar of the documents

`documents_grammar.pest`, rule by rule.  Every rule with a text is atomic or compound, so no blank
is skipped between the parts of a sequence.
-/

import Durs.Lib.Peg
import Durs.Documents.Hex

namespace Durs

open Lib.Peg Lib.Peg.Expr

/-- The rules of the grammar that are recorded. -/
inductive Rule
  | eoi
  | hash | currency | pubkey | uid | blockId | blockstamp | ed25519Sig
  | idtyV10 | idty
  | membershipIn | membershipOut | membershipV10 | membership
  | certV10 | cert
  | revocV10 | revoc
  | txLocktime | txAmount | txAmountBase | duBlockId | txIndex | inputIndex | issuerIndex
  | xhxSecret | csvDuration | cltvTimestamp
  | txInput | txInputDu | txInputTx
  | txUnlock | unlockSig | unlockXhx
  | txOutput | outputAndGroup | outputOrGroup
  | outputCondSig | outputCondXhx | outputCondCsv | outputCondCltv
  | txComment | txV10 | tx
  | documentV10 | document
deriving DecidableEq, Repr

/-- A matched rule of the grammar. -/
abbrev DocPair := Pair Rule

namespace Grammar

/-! ## Common rules -/

/-- `nl = _{ "\n" }` -/
def nl : Expr Rule := str "\n"

/-- `hexa_upper = { ASCII_DIGIT | 'A'..'F' }` -/
def hexaUpper : Expr Rule := chr isHexaUpper

/-- `base58 = { !("O" | "I" | "l") ~ ASCII_ALPHANUMERIC }`; zero is not excluded. -/
def base58 : Expr Rule := notFollowedBy (str "O" <|> str "I" <|> str "l") ++ chr Char.isAlphanum

/-- `base64 = { ASCII_ALPHANUMERIC | "+" | "/" }` -/
def base64 : Expr Rule := chr Char.isAlphanum <|> str "+" <|> str "/"

/-- `no_zero_u_int = @{ '1'..'9' ~ ASCII_DIGIT* }`, used within atomic rules only. -/
def noZeroUInt : Expr Rule := chr (fun c => '1' ≤ c && c ≤ '9') ++ atLeast 0 (chr Char.isDigit)

/-- `u_int = @{ "0" | no_zero_u_int }`, used within atomic rules only. -/
def uInt : Expr Rule := str "0" <|> noZeroUInt

/-- `hash = @{ hexa_upper{64} }` -/
def hash : Expr Rule := atomic .hash (between 64 64 hexaUpper)

/-- A name: `ASCII_ALPHA ~ (ASCII_ALPHANUMERIC | "-" | "_")*` -/
def name : Expr Rule :=
  chr Char.isAlpha ++ atLeast 0 (chr Char.isAlphanum <|> str "-" <|> str "_")

/-- `currency = @{ ASCII_ALPHA ~ (ASCII_ALPHANUMERIC | "-" | "_")* }` -/
def currency : Expr Rule := atomic .currency name

/-- `pubkey = @{ base58{43,44} }` -/
def pubkey : Expr Rule := atomic .pubkey (between 43 44 base58)

/-- `uid = @{ ASCII_ALPHA ~ (ASCII_ALPHANUMERIC | "-" | "_")* }` -/
def uid : Expr Rule := atomic .uid name

/-- `block_id = @{ u_int }` -/
def blockId : Expr Rule := atomic .blockId uInt

/-- `blockstamp = ${ block_id ~ "-" ~ hash }` -/
def blockstamp : Expr Rule := rule .blockstamp (blockId ++ str "-" ++ hash)

/-- The text of a signature. -/
def sigText : Expr Rule :=
  between 88 88 base64 <|> between 87 87 base64 ++ str "=" <|> between 86 86 base64 ++ str "=="

/-- `ed25519_sig = @{ base64{88} | (base64{87} ~ "=") | (base64{86} ~ "==") }` -/
def ed25519Sig : Expr Rule := atomic .ed25519Sig sigText

/-- `v10 = _{ "Version: 10" }` -/
def v10 : Expr Rule := str "Version: 10"

/-- The end of a document with one signature: `ed25519_sig? ~ nl* ~ EOI` -/
def sigEnd : Expr Rule := opt ed25519Sig ++ atLeast 0 nl ++ eoi .eoi

/-- The look ahead of a document rule: `&(SOI ~ v10 ~ nl)` -/
def atV10 : Expr Rule := followedBy (soi ++ v10 ++ nl)

/-! ## Identities, memberships, certifications and revocations -/

def idtyV10 : Expr Rule := rule .idtyV10 (
  soi ++ v10 ++ nl ++
  str "Type: Identity" ++ nl ++
  str "Currency: " ++ currency ++ nl ++
  str "Issuer: " ++ pubkey ++ nl ++
  str "UniqueID: " ++ uid ++ nl ++
  str "Timestamp: " ++ blockstamp ++ nl ++
  sigEnd)

def idty : Expr Rule := rule .idty (atV10 ++ idtyV10)

/-- `membership_in = @{ "IN" }` -/
def membershipIn : Expr Rule := atomic .membershipIn (str "IN")

/-- `membership_out = @{ "OUT" }` -/
def membershipOut : Expr Rule := atomic .membershipOut (str "OUT")

def membershipV10 : Expr Rule := rule .membershipV10 (
  soi ++ v10 ++ nl ++
  str "Type: Membership" ++ nl ++
  str "Currency: " ++ currency ++ nl ++
  str "Issuer: " ++ pubkey ++ nl ++
  str "Block: " ++ blockstamp ++ nl ++
  str "Membership: " ++ (membershipIn <|> membershipOut) ++ nl ++
  str "UserID: " ++ uid ++ nl ++
  str "CertTS: " ++ blockstamp ++ nl ++
  sigEnd)

def membership : Expr Rule := rule .membership (atV10 ++ membershipV10)

/-- It does not ask for the start of the input. -/
def certV10 : Expr Rule := rule .certV10 (
  v10 ++ nl ++
  str "Type: Certification" ++ nl ++
  str "Currency: " ++ currency ++ nl ++
  str "Issuer: " ++ pubkey ++ nl ++
  str "IdtyIssuer: " ++ pubkey ++ nl ++
  str "IdtyUniqueID: " ++ uid ++ nl ++
  str "IdtyTimestamp: " ++ blockstamp ++ nl ++
  str "IdtySignature: " ++ ed25519Sig ++ nl ++
  str "CertTimestamp: " ++ blockstamp ++ nl ++
  sigEnd)

def cert : Expr Rule := rule .cert (atV10 ++ certV10)

def revocV10 : Expr Rule := rule .revocV10 (
  soi ++ v10 ++ nl ++
  str "Type: Revocation" ++ nl ++
  str "Currency: " ++ currency ++ nl ++
  str "Issuer: " ++ pubkey ++ nl ++
  str "IdtyUniqueID: " ++ uid ++ nl ++
  str "IdtyTimestamp: " ++ blockstamp ++ nl ++
  str "IdtySignature: " ++ ed25519Sig ++ nl ++
  sigEnd)

def revoc : Expr Rule := rule .revoc (atV10 ++ revocV10)

/-! ## Transactions -/

def txLocktime : Expr Rule := atomic .txLocktime uInt
def txAmount : Expr Rule := atomic .txAmount uInt
def txAmountBase : Expr Rule := atomic .txAmountBase uInt
def duBlockId : Expr Rule := atomic .duBlockId uInt
def txIndex : Expr Rule := atomic .txIndex uInt
def inputIndex : Expr Rule := atomic .inputIndex uInt
def issuerIndex : Expr Rule := atomic .issuerIndex uInt
def xhxSecret : Expr Rule := atomic .xhxSecret (atLeast 1 (chr Char.isAlphanum))
def csvDuration : Expr Rule := atomic .csvDuration uInt
def cltvTimestamp : Expr Rule := atomic .cltvTimestamp uInt

/-- `tx_amount ~ ":" ~ tx_amount_base` -/
def amountAndBase : Expr Rule := txAmount ++ str ":" ++ txAmountBase

def txInputDu : Expr Rule :=
  rule .txInputDu (amountAndBase ++ str ":D:" ++ pubkey ++ str ":" ++ duBlockId)

def txInputTx : Expr Rule :=
  rule .txInputTx (amountAndBase ++ str ":T:" ++ hash ++ str ":" ++ txIndex)

def txInput : Expr Rule := rule .txInput (txInputDu <|> txInputTx)

def unlockSig : Expr Rule := rule .unlockSig (str "SIG(" ++ issuerIndex ++ str ")")
def unlockXhx : Expr Rule := rule .unlockXhx (str "XHX(" ++ xhxSecret ++ str ")")

/-- `unlock_cond = _{ unlock_sig | unlock_xhx }` -/
def unlockCond : Expr Rule := unlockSig <|> unlockXhx

def txUnlock : Expr Rule :=
  rule .txUnlock (inputIndex ++ str ":" ++ unlockCond ++ atLeast 0 (str " " ++ unlockCond))

/-- An output condition; its closing bracket may be missing. -/
def outputCond (r : Rule) (word : String) (value : Expr Rule) : Expr Rule :=
  rule r (str word ++ value ++ opt (str ")"))

def outputCondSig : Expr Rule := outputCond .outputCondSig "SIG(" pubkey
def outputCondXhx : Expr Rule := outputCond .outputCondXhx "XHX(" hash
def outputCondCsv : Expr Rule := outputCond .outputCondCsv "CSV(" csvDuration
def outputCondCltv : Expr Rule := outputCond .outputCondCltv "CLTV(" cltvTimestamp

/-- `output_single_cond` -/
def outputSingleCond : Expr Rule :=
  outputCondSig <|> outputCondXhx <|> outputCondCsv <|> outputCondCltv

/-- A group of conditions within brackets, with an operator between them. -/
def outputOpGroup (r : Rule) (op : String) (group : Expr Rule) : Expr Rule :=
  rule r (str "(" ++ group ++ atLeast 1 (str op ++ group) ++ str ")")

/-- `output_conds_group = _{ output_and_group | output_or_group | output_single_cond }` -/
def outputCondsGroup : Expr Rule := recursive fun group =>
  outputOpGroup .outputAndGroup " && " group <|> outputOpGroup .outputOrGroup " || " group <|>
    outputSingleCond

def txOutput : Expr Rule := rule .txOutput (amountAndBase ++ str ":" ++ outputCondsGroup)

/-- The characters of a comment that are neither letters nor digits. -/
def commentSigns : List Char := "\\:/;*[]()?!^+=@&~#\x7b\x7d|<>%. -".toList

/-- `tx_comment_char` -/
def txCommentChar : Expr Rule := chr fun c => c.isAlphanum || commentSigns.contains c

/-- `tx_comment = @{ tx_comment_char{0,255} }` -/
def txComment : Expr Rule := atomic .txComment (between 0 255 txCommentChar)

def txV10 : Expr Rule := rule .txV10 (
  soi ++ v10 ++ nl ++
  str "Type: Transaction" ++ nl ++
  str "Currency: " ++ currency ++ nl ++
  str "Blockstamp: " ++ blockstamp ++ nl ++
  str "Locktime: " ++ txLocktime ++ nl ++
  str "Issuers:" ++ nl ++ atLeast 1 (pubkey ++ nl) ++
  str "Inputs:" ++ nl ++ atLeast 1 (txInput ++ nl) ++
  str "Unlocks:" ++ nl ++ atLeast 1 (txUnlock ++ nl) ++
  str "Outputs:" ++ nl ++ atLeast 1 (txOutput ++ nl) ++
  str "Comment: " ++ txComment ++ nl ++
  (atLeast 0 (ed25519Sig ++ nl) ++ sigEnd))

def tx : Expr Rule := rule .tx (atV10 ++ txV10)

/-! ## Documents -/

/-- The look ahead is part of the first alternative only. -/
def documentV10 : Expr Rule := rule .documentV10 (
  atV10 ++ idtyV10 <|> membershipV10 <|> certV10 <|> revocV10 <|> txV10)

def document : Expr Rule :=
  rule .document (followedBy soi ++ (followedBy (v10 ++ nl) ++ documentV10))

end Grammar

/-- `DocumentsParser::parse`: the rules that an expression matches at the start of a text. -/
def DocumentsParser.parse (e : Expr Rule) (text : String) : Option (List DocPair) :=
  (e.run true text.toList).map Match.pairs

end Durs
