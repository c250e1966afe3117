/-
# The numbers of a block in JSON

Which numbers of a block are the same after its JSON text is parsed.  A number of 64 bits is kept
when 53 bits hold it up to zeros behind, and when it is the greatest of its type; the hashes of a
block are checked as before when all of its numbers are kept.
-/

import Durs.Documents.JsonBlocks
import Durs.JsonParser.RoundTrip

namespace Durs

open RustStd Lib JsonObject Parsers

/-! ## Numbers -/

/-- The numbers of a block, with the locktimes of its transactions. -/
@[ext]
structure BlockNumbers where
  version : ℕ
  nonce : ℕ
  number : ℕ
  powMin : ℕ
  time : ℕ
  medianTime : ℕ
  membersCount : ℕ
  monetaryMass : ℕ
  unitBase : ℕ
  issuersCount : ℕ
  issuersFrame : ℤ
  issuersFrameVar : ℤ
  dividend : Option ℕ
  locktimes : List ℕ
deriving DecidableEq, Repr

/-- The locktime of a transaction document. -/
def TxDocOrTxHash.locktime : TxDocOrTxHash → Option ℕ
  | .txDoc doc => some doc.locktime
  | .txHash _ => none

def BlockDocument.numbers (block : BlockDocument) : BlockNumbers where
  version := block.version
  nonce := block.nonce
  number := block.number
  powMin := block.powMin
  time := block.time
  medianTime := block.medianTime
  membersCount := block.membersCount
  monetaryMass := block.monetaryMass
  unitBase := block.unitBase
  issuersCount := block.issuersCount
  issuersFrame := block.issuersFrame
  issuersFrameVar := block.issuersFrameVar
  dividend := block.dividend
  locktimes := block.transactions.filterMap TxDocOrTxHash.locktime

namespace BlockNumbers

/-- The numbers of the types `u64` and `usize`. -/
def unsigned (n : BlockNumbers) : List ℕ :=
  [n.nonce, n.powMin, n.time, n.medianTime, n.membersCount, n.monetaryMass, n.unitBase,
    n.issuersCount] ++ n.dividend.toList ++ n.locktimes

/-- The numbers of the type `isize`. -/
def signed (n : BlockNumbers) : List ℤ := [n.issuersFrame, n.issuersFrameVar]

/-- Numbers in the ranges of their types. -/
structure InRange (n : BlockNumbers) : Prop where
  version : n.version < 2 ^ 32
  number : n.number < 2 ^ 32
  unsigned : ∀ m ∈ n.unsigned, m < 2 ^ 64
  signed : ∀ m ∈ n.signed, -2 ^ 63 ≤ m ∧ m < 2 ^ 63

/-- Numbers of 64 bits that 53 bits hold up to zeros behind, or that are the greatest of their
type. -/
structure Exact (n : BlockNumbers) : Prop where
  unsigned : ∀ m ∈ n.unsigned, IsDouble m ∨ m = 2 ^ 64 - 1
  signed : ∀ m ∈ n.signed, IsDouble m.natAbs ∨ m = 2 ^ 63 - 1

/-- The numbers that are read of those that are written. -/
def asRead (n : BlockNumbers) : BlockNumbers where
  version := Float64.readUnsigned 32 n.version
  nonce := Float64.readUnsigned 64 n.nonce
  number := Float64.readUnsigned 32 n.number
  powMin := Float64.readUnsigned 64 n.powMin
  time := Float64.readUnsigned 64 n.time
  medianTime := Float64.readUnsigned 64 n.medianTime
  membersCount := Float64.readUnsigned 64 n.membersCount
  monetaryMass := Float64.readUnsigned 64 n.monetaryMass
  unitBase := Float64.readUnsigned 64 n.unitBase
  issuersCount := Float64.readUnsigned 64 n.issuersCount
  issuersFrame := Float64.readSigned 64 n.issuersFrame
  issuersFrameVar := Float64.readSigned 64 n.issuersFrameVar
  dividend := n.dividend.map (Float64.readUnsigned 64)
  locktimes := n.locktimes.map (Float64.readUnsigned 64)

theorem map_eq_self_iff {α : Type} {f : α → α} {l : List α} : l.map f = l ↔ ∀ a ∈ l, f a = a := by
  have h : l.map f = l.map id ↔ ∀ a ∈ l, f a = id a := List.map_inj_left
  rwa [List.map_id] at h

theorem option_map_eq_self_iff {α : Type} {f : α → α} {x : Option α} :
    x.map f = x ↔ ∀ a ∈ x.toList, f a = a := by
  cases x with
  | none => simp
  | some a => simp

/-- Exactly the numbers that are held are read as they are written. -/
theorem asRead_eq_iff {n : BlockNumbers} (h : n.InRange) : n.asRead = n ↔ n.Exact := by
  have hversion := Float64.readUnsigned_of_lt h.version
  have hnumber := Float64.readUnsigned_of_lt h.number
  have hunsigned : (∀ m ∈ n.unsigned, Float64.readUnsigned 64 m = m) ↔
      ∀ m ∈ n.unsigned, IsDouble m ∨ m = 2 ^ 64 - 1 :=
    forall₂_congr fun m hm => Float64.readUnsigned_eq_iff (h.unsigned m hm)
  have hsigned : (∀ m ∈ n.signed, Float64.readSigned 64 m = m) ↔
      ∀ m ∈ n.signed, IsDouble m.natAbs ∨ m = 2 ^ 63 - 1 :=
    forall₂_congr fun m hm =>
      Float64.readSigned_eq_iff (h.signed m hm).1 (h.signed m hm).2
  have hkept : n.asRead = n ↔ (∀ m ∈ n.unsigned, Float64.readUnsigned 64 m = m) ∧
      ∀ m ∈ n.signed, Float64.readSigned 64 m = m := by
    simp only [asRead, unsigned, signed, List.forall_mem_append, List.forall_mem_cons,
      List.not_mem_nil, false_imp_iff, implies_true, and_true]
    rw [BlockNumbers.ext_iff]
    simp only [map_eq_self_iff, option_map_eq_self_iff, hversion, hnumber, true_and, and_assoc]
    constructor
    · rintro ⟨h₁, h₂, h₃, h₄, h₅, h₆, h₇, h₈, hframe, hvar, hdividend, hlocktimes⟩
      exact ⟨h₁, h₂, h₃, h₄, h₅, h₆, h₇, h₈, hdividend, hlocktimes, hframe, hvar⟩
    · rintro ⟨h₁, h₂, h₃, h₄, h₅, h₆, h₇, h₈, hdividend, hlocktimes, hframe, hvar⟩
      exact ⟨h₁, h₂, h₃, h₄, h₅, h₆, h₇, h₈, hframe, hvar, hdividend, hlocktimes⟩
  rw [hkept, hunsigned, hsigned]
  exact ⟨fun h => ⟨h.1, h.2⟩, fun h => ⟨h.unsigned, h.signed⟩⟩

end BlockNumbers

/-! ## Fields of a text -/

/-- A field that is a list of strings. -/
def HasStrings (members : List (String × JsonText)) (field : String) (texts : List String) : Prop :=
  members.lookup field = some (.array (texts.map .string))

/-- A field that may be missing, which it also is when it is null. -/
def HasOptional (members : List (String × JsonText)) (field : String) (t : Option JsonText) :
    Prop :=
  members.lookup field = t ∨ t = none ∧ members.lookup field = some .null

section

variable (order : IterOrder) {members : List (String × JsonText)}
  (hnames : (members.map Prod.fst).Nodup) {field : String}

include hnames

theorem lookup_read {t : JsonText} (h : members.lookup field = some t) :
    (order.collect (JsonText.membersRead order members)).lookup field = some (t.read order) := by
  rw [JsonText.lookup_read hnames, h]
  rfl

/-- A field is read as what the value of its name is converted to. -/
theorem getField_read {α : Type} {kind : String} {convert : JSONValue → Option α} {t : JsonText}
    {a : α} (h : members.lookup field = some t) (hconvert : convert (t.read order) = some a) :
    getField (order.collect (JsonText.membersRead order members)) field kind convert = .ok a :=
  getField_eq_ok_iff.2 ⟨_, lookup_read order hnames h, hconvert⟩

theorem getStr_read {s : String} (h : members.lookup field = some (.string s)) :
    getStr (order.collect (JsonText.membersRead order members)) field = .ok s :=
  getField_read order hnames h rfl

theorem getNumber_read {negative : Bool} {n : ℕ}
    (h : members.lookup field = some (.integer negative n)) :
    getNumber (order.collect (JsonText.membersRead order members)) field =
      .ok (Float64.nearest negative n (Float64.natCast_nonneg n)) :=
  getField_read order hnames h rfl

theorem getUnsigned_read {n : ℕ} (bits : ℕ)
    (h : members.lookup field = some (.integer false n)) :
    getUnsigned (order.collect (JsonText.membersRead order members)) field bits =
      .ok (Float64.readUnsigned bits n) := by
  rw [getUnsigned, getNumber_read order hnames h]
  rfl

theorem getSigned_read {n : ℤ} (bits : ℕ)
    (h : members.lookup field = some (.integer (n < 0) n.natAbs)) :
    getSigned (order.collect (JsonText.membersRead order members)) field bits =
      .ok (Float64.readSigned bits n) := by
  rw [getSigned, getNumber_read order hnames h]
  rfl

theorem getStrArray_read {texts : List String} (h : HasStrings members field texts) :
    getStrArray (order.collect (JsonText.membersRead order members)) field = .ok texts := by
  have helems : getField (order.collect (JsonText.membersRead order members)) field "be an array"
      JSONValue.toArray = .ok (JsonText.elemsRead order (texts.map .string)) :=
    getField_read order hnames h rfl
  have hstrings : (JsonText.elemsRead order (texts.map .string)).mapM (strElem field) =
      .ok (texts.map id) := by
    rw [JsonText.elemsRead_eq_map, List.map_map, List.mapM_map]
    exact mapM_eq_ok_map fun _ _ => rfl
  rw [getStrArray, helems, ok_bind, hstrings, List.map_id]

theorem getOptionalField_read {α β : Type} {kind : String} {convert : JSONValue → Option β}
    {x : Option α} {print : α → JsonText} {value : α → β}
    (hprint : ∀ a, ((print a).read order).isNull = false ∧
      convert ((print a).read order) = some (value a))
    (h : HasOptional members field (x.map print)) :
    getOptionalField (order.collect (JsonText.membersRead order members)) field kind convert =
      .ok (x.map value) := by
  rw [getOptionalField, JsonText.lookup_read hnames]
  rcases h with h | ⟨hx, h⟩
  · rw [h]
    cases x with
    | none => rfl
    | some a => simp [(hprint a).1, (hprint a).2]
  · rw [h]
    cases x with
    | none => rfl
    | some a => cases hx

theorem getOptionalStr_read {text : Option String}
    (h : HasOptional members field (text.map .string)) :
    getOptionalStr (order.collect (JsonText.membersRead order members)) field = .ok text := by
  have hread : getOptionalStr (order.collect (JsonText.membersRead order members)) field =
      .ok (text.map id) :=
    getOptionalField_read order hnames (fun _ => ⟨rfl, rfl⟩) h
  rwa [Option.map_id] at hread

theorem getOptionalUsize_read {n : Option ℕ}
    (h : HasOptional members field (n.map (.integer false))) :
    getOptionalUsize (order.collect (JsonText.membersRead order members)) field =
      .ok (n.map (Float64.readUnsigned 64)) := by
  have hread : getOptionalField (order.collect (JsonText.membersRead order members)) field
      "be a number" JSONValue.toNumber =
      .ok (n.map fun n : ℕ => Float64.nearest false n (Float64.natCast_nonneg n)) :=
    getOptionalField_read order hnames (fun _ => ⟨rfl, rfl⟩) h
  rw [getOptionalUsize, hread, ok_bind, Option.map_map]
  rfl

end

/-! ## Transactions -/

section

variable (C : DocCrypto) (members : List (String × JsonText))

/-- The hash of a transaction, which may be missing. -/
def WritesHash : Option Hash → Prop
  | none => HasOptional members "hash" none
  | some hash => ∃ text, members.lookup "hash" = some (.string text) ∧
      (Hash.fromHexText text).run = .ok (some hash)

/-- A text of a transaction: its locktime in decimal, and texts that are read as its other parts. -/
structure WritesTransaction (tx : TransactionDocument) : Prop where
  names : (members.map Prod.fst).Nodup
  currency : members.lookup "currency" = some (.string tx.currency)
  blockstamp : ∃ text, members.lookup "blockstamp" = some (.string text) ∧
    (Blockstamp.fromString text).run = .ok (some tx.blockstamp)
  locktime : members.lookup "locktime" = some (.integer false tx.locktime)
  issuers : ∃ texts, HasStrings members "issuers" texts ∧
    texts.mapM C.fromBase58 = some tx.issuers
  inputs : ∃ texts, HasStrings members "inputs" texts ∧
    (texts.mapM (TransactionInput.fromStr C)).run = .ok (some tx.inputs)
  unlocks : ∃ texts, HasStrings members "unlocks" texts ∧
    (texts.mapM TransactionInputUnlocks.fromStr).run = .ok (some tx.unlocks)
  outputs : ∃ texts, HasStrings members "outputs" texts ∧
    (texts.mapM (TransactionOutput.fromStr C)).run = .ok (some tx.outputs)
  comment : ∃ text, members.lookup "comment" = some (.string text) ∧
    unescapeStr text = tx.comment
  hash : WritesHash members tx.hash
  signatures : ∃ texts, HasStrings members "signatures" texts ∧
    texts.mapM C.fromBase64 = some tx.signatures

end

/-- What a transaction is read as. -/
def TransactionDocument.asRead (C : DocCrypto) (tx : TransactionDocument) : TransactionDocument :=
  ({ tx.builder with
    locktime := Float64.readUnsigned 64 tx.locktime } : TransactionDocumentBuilder)
      |>.buildWithSignature C tx.signatures

/-- What a transaction of a block is read as. -/
def TxDocOrTxHash.asRead (C : DocCrypto) : TxDocOrTxHash → TxDocOrTxHash
  | .txDoc doc => .txDoc (doc.asRead C)
  | .txHash hash => .txHash hash

/-- The lines of a transaction that is read. -/
def TransactionLines.asRead (lines : TransactionLines) : TransactionLines :=
  { lines with locktime := Float64.readUnsigned 64 lines.locktime }

section

variable {C : DocCrypto} {order : IterOrder} {members : List (String × JsonText)}

theorem readTransactionHash_read (hnames : (members.map Prod.fst).Nodup) {hash : Option Hash}
    (h : WritesHash members hash) :
    (readTransactionHash (order.collect (JsonText.membersRead order members))).run =
      .ok (some hash) := by
  cases hash with
  | none =>
      have hread : getOptionalStr (order.collect (JsonText.membersRead order members)) "hash" =
          .ok none := getOptionalStr_read order hnames h
      exact run_bind_eq_some_iff.2 ⟨none, run_result_eq_some_iff.2 hread, rfl⟩
  | some hash =>
      rcases h with ⟨text, htext, hhash⟩
      have hread : getOptionalStr (order.collect (JsonText.membersRead order members)) "hash" =
          .ok (some text) := getOptionalStr_read order hnames (Or.inl htext)
      exact run_bind_eq_some_iff.2 ⟨some text, run_result_eq_some_iff.2 hread,
        run_bind_eq_some_iff.2 ⟨hash, hhash, rfl⟩⟩

/-- A transaction is read with everything but its locktime. -/
theorem parseJsonTransaction_read {tx : TransactionDocument}
    (h : WritesTransaction C members tx) :
    (parseJsonTransaction C ((JsonText.object members).read order)).run =
      .ok (some (tx.asRead C)) := by
  rcases h.blockstamp with ⟨blockstamp, hblockstamp, hblockstamp'⟩
  rcases h.issuers with ⟨issuers, hissuers, hissuers'⟩
  rcases h.inputs with ⟨inputs, hinputs, hinputs'⟩
  rcases h.unlocks with ⟨unlocks, hunlocks, hunlocks'⟩
  rcases h.outputs with ⟨outputs, houtputs, houtputs'⟩
  rcases h.comment with ⟨comment, hcomment, hcomment'⟩
  rcases h.signatures with ⟨signatures, hsignatures, hsignatures'⟩
  have hnames := h.names
  rw [parseJsonTransaction, TransactionDocument.asRead, TransactionDocument.builder, ← hcomment']
  refine run_bind_eq_some_iff.2 ⟨_, run_option_eq_some_iff.2 rfl, ?_⟩
  refine run_field_bind (getStr_read order hnames h.currency) ?_
  refine run_field_bind (getStr_read order hnames hblockstamp) ?_
  refine run_bind_eq_some_iff.2 ⟨_, hblockstamp', ?_⟩
  refine run_field_bind (getUnsigned_read order hnames 64 h.locktime) ?_
  refine run_field_bind (getStrArray_read order hnames hissuers) ?_
  refine run_bind_eq_some_iff.2 ⟨_, run_option_eq_some_iff.2 hissuers', ?_⟩
  refine run_field_bind (getStrArray_read order hnames hinputs) ?_
  refine run_bind_eq_some_iff.2 ⟨_, hinputs', ?_⟩
  refine run_field_bind (getStrArray_read order hnames hunlocks) ?_
  refine run_bind_eq_some_iff.2 ⟨_, hunlocks', ?_⟩
  refine run_field_bind (getStrArray_read order hnames houtputs) ?_
  refine run_bind_eq_some_iff.2 ⟨_, houtputs', ?_⟩
  refine run_field_bind (getStr_read order hnames hcomment) ?_
  refine run_bind_eq_some_iff.2 ⟨_, readTransactionHash_read hnames h.hash, ?_⟩
  refine run_field_bind (getStrArray_read order hnames hsignatures) ?_
  exact run_bind_eq_some_iff.2 ⟨_, run_option_eq_some_iff.2 hsignatures', rfl⟩

end

/-! ## Blocks -/

section

variable (C : DocCrypto) (parseF64 : List Char → Option F64) (members : List (String × JsonText))

/-- The parameters of a block, of which the text may be missing or empty. -/
def WritesParameters : Option BlockV10Parameters → Prop
  | none => ∃ text : Option String, HasOptional members "parameters" (text.map .string) ∧
      text.filter (· ≠ "") = none
  | some params => ∃ text, members.lookup "parameters" = some (.string text) ∧ text ≠ "" ∧
      (BlockV10Parameters.fromStr parseF64 text).run = .ok (some params)

/-- A field of memberships of a type. -/
def WritesMemberships (currency field : String) (type : MembershipType)
    (memberships : List MembershipDocument) : Prop :=
  ∃ texts docs, HasStrings members field texts ∧
    (parseCompactMemberships C currency type texts).run = .ok (some docs) ∧
    docs.map MembershipDocument.line = memberships.map MembershipDocument.line

/-- A text of a block: its numbers in decimal, and texts that are read as its other parts.  The
first block has no previous one. -/
structure WritesBlock (block : BlockDocument) : Prop where
  names : (members.map Prod.fst).Nodup
  version : members.lookup "version" = some (.integer false block.version)
  nonce : members.lookup "nonce" = some (.integer false block.nonce)
  number : members.lookup "number" = some (.integer false block.number)
  powMin : members.lookup "powMin" = some (.integer false block.powMin)
  time : members.lookup "time" = some (.integer false block.time)
  medianTime : members.lookup "medianTime" = some (.integer false block.medianTime)
  membersCount : members.lookup "membersCount" = some (.integer false block.membersCount)
  monetaryMass : members.lookup "monetaryMass" = some (.integer false block.monetaryMass)
  unitBase : members.lookup "unitbase" = some (.integer false block.unitBase)
  issuersCount : members.lookup "issuersCount" = some (.integer false block.issuersCount)
  issuersFrame : members.lookup "issuersFrame" =
    some (.integer (block.issuersFrame < 0) block.issuersFrame.natAbs)
  issuersFrameVar : members.lookup "issuersFrameVar" =
    some (.integer (block.issuersFrameVar < 0) block.issuersFrameVar.natAbs)
  dividend : HasOptional members "dividend" (block.dividend.map (.integer false))
  currency : members.lookup "currency" = some (.string block.currency)
  issuer : ∃ text key, members.lookup "issuer" = some (.string text) ∧
    C.fromBase58 text = some key ∧ block.issuers = [key]
  signature : ∃ text sig, members.lookup "signature" = some (.string text) ∧
    C.fromBase64 text = some sig ∧ block.signatures = [sig]
  hash : ∃ text hash, members.lookup "hash" = some (.string text) ∧
    (Hash.fromHexText text).run = .ok (some hash) ∧ block.hash = some hash
  innerHash : ∃ text hash, members.lookup "inner_hash" = some (.string text) ∧
    (Hash.fromHexText text).run = .ok (some hash) ∧ block.innerHash = some hash
  parameters : WritesParameters parseF64 members block.parameters
  genesis : block.number = 0 → block.previousHash = 0 ∧ block.previousIssuer = none
  previous : block.number ≠ 0 → (∃ text, members.lookup "previousHash" = some (.string text) ∧
    (Hash.fromHexText text).run = .ok (some block.previousHash)) ∧
    ∃ text key, members.lookup "previousIssuer" = some (.string text) ∧
      C.fromBase58 text = some key ∧ block.previousIssuer = some key
  identities : ∃ texts docs, HasStrings members "identities" texts ∧
    (parseCompactIdentities C block.currency texts).run = .ok (some docs) ∧
    docs.map IdentityDocument.line = block.identities.map IdentityDocument.line
  joiners : WritesMemberships C members block.currency "joiners" .in block.joiners
  actives : WritesMemberships C members block.currency "actives" .in block.actives
  leavers : WritesMemberships C members block.currency "leavers" .out block.leavers
  revoked : ∃ texts, HasStrings members "revoked" texts ∧
    parseRevocationsIntoCompact C texts = .ok block.revoked
  excluded : ∃ texts, HasStrings members "excluded" texts ∧
    texts.mapM C.fromBase58 = some block.excluded
  certifications : ∃ texts, HasStrings members "certifications" texts ∧
    parseCertificationsIntoCompact C texts = .ok block.certifications
  transactions : ∃ txs : List (List (String × JsonText) × TransactionDocument),
    (∀ tx ∈ txs, WritesTransaction C tx.1 tx.2) ∧
    members.lookup "transactions" = some (.array (txs.map fun tx => .object tx.1)) ∧
    block.transactions = txs.map fun tx => .txDoc tx.2

end

/-- The lines of a transaction document. -/
def TxDocOrTxHash.lines : TxDocOrTxHash → Option TransactionLines
  | .txDoc doc => some doc.lines
  | .txHash _ => none

theorem TxDocOrTxHash.filterMap_locktime_asRead {C : DocCrypto} (txs : List TxDocOrTxHash) :
    (txs.map (asRead C)).filterMap locktime =
      (txs.filterMap locktime).map (Float64.readUnsigned 64) := by
  rw [List.filterMap_map, List.map_filterMap]
  refine List.filterMap_congr fun tx _ => ?_
  cases tx with
  | txDoc => rfl
  | txHash => rfl

theorem TxDocOrTxHash.filterMap_lines_asRead {C : DocCrypto} (txs : List TxDocOrTxHash) :
    (txs.map (asRead C)).filterMap lines =
      (txs.filterMap lines).map TransactionLines.asRead := by
  rw [List.filterMap_map, List.map_filterMap]
  refine List.filterMap_congr fun tx _ => ?_
  cases tx with
  | txDoc => rfl
  | txHash => rfl

/-- The locktimes of the lines of some transactions. -/
theorem TxDocOrTxHash.map_locktime_lines (txs : List TxDocOrTxHash) :
    (txs.filterMap lines).map TransactionLines.locktime = txs.filterMap locktime := by
  rw [List.map_filterMap]
  refine List.filterMap_congr fun tx _ => ?_
  cases tx with
  | txDoc => rfl
  | txHash => rfl

/-- What a block is read as: with everything but its numbers, and but the texts of its documents. -/
structure BlockDocument.ReadsAs (block block' : BlockDocument) : Prop where
  numbers : block'.numbers = block.numbers.asRead
  currency : block'.currency = block.currency
  issuers : block'.issuers = block.issuers
  signatures : block'.signatures = block.signatures
  hash : block'.hash = block.hash
  innerHash : block'.innerHash = block.innerHash
  parameters : block'.parameters = block.parameters
  previousHash : block'.previousHash = block.previousHash
  previousIssuer : block'.previousIssuer = block.previousIssuer
  identities : block'.identities.map IdentityDocument.line =
    block.identities.map IdentityDocument.line
  joiners : block'.joiners.map MembershipDocument.line =
    block.joiners.map MembershipDocument.line
  actives : block'.actives.map MembershipDocument.line =
    block.actives.map MembershipDocument.line
  leavers : block'.leavers.map MembershipDocument.line =
    block.leavers.map MembershipDocument.line
  revoked : block'.revoked = block.revoked
  excluded : block'.excluded = block.excluded
  certifications : block'.certifications = block.certifications
  transactions : block'.transactions.filterMap TxDocOrTxHash.lines =
    (block.transactions.filterMap TxDocOrTxHash.lines).map TransactionLines.asRead

section

variable {C : DocCrypto} {parseF64 : List Char → Option F64} (order : IterOrder)
  {members : List (String × JsonText)} {block : BlockDocument}

theorem readParameters_read (hnames : (members.map Prod.fst).Nodup)
    {params : Option BlockV10Parameters} (h : WritesParameters parseF64 members params) :
    (readParameters parseF64 (order.collect (JsonText.membersRead order members))).run =
      .ok (some params) := by
  have hread {text : Option String} (h : HasOptional members "parameters" (text.map .string)) :
      getOptionalStrNotEmpty (order.collect (JsonText.membersRead order members)) "parameters" =
        .ok (text.filter (· ≠ "")) := by
    rw [getOptionalStrNotEmpty, getOptionalStr_read order hnames h]
    rfl
  cases params with
  | none =>
      rcases h with ⟨text, htext, hempty⟩
      exact run_bind_eq_some_iff.2 ⟨none, run_result_eq_some_iff.2 (hempty ▸ hread htext), rfl⟩
  | some params =>
      rcases h with ⟨text, htext, hne, hparams⟩
      have hfilter : (some text).filter (· ≠ "") = some text :=
        Option.filter_eq_some_iff.2 ⟨rfl, decide_eq_true hne⟩
      have htext' : HasOptional members "parameters" ((some text).map .string) := Or.inl htext
      exact run_bind_eq_some_iff.2 ⟨some text, run_result_eq_some_iff.2 (hfilter ▸ hread htext'),
        run_bind_eq_some_iff.2 ⟨params, hparams, rfl⟩⟩

theorem exists_readMemberships (hnames : (members.map Prod.fst).Nodup) {currency field : String}
    {type : MembershipType} {memberships : List MembershipDocument}
    (h : WritesMemberships C members currency field type memberships) :
    ∃ docs, (readMemberships C (order.collect (JsonText.membersRead order members)) currency field
        type).run = .ok (some docs) ∧
      docs.map MembershipDocument.line = memberships.map MembershipDocument.line := by
  rcases h with ⟨texts, docs, htexts, hdocs, hlines⟩
  exact ⟨docs, run_field_bind (getStrArray_read order hnames htexts) hdocs, hlines⟩

theorem readPrevious_read (h : WritesBlock C parseF64 members block) :
    (readPreviousHash (order.collect (JsonText.membersRead order members)) block.number).run =
      .ok (some block.previousHash) ∧
    (readPreviousIssuer C (order.collect (JsonText.membersRead order members)) block.number).run =
      .ok (some block.previousIssuer) := by
  rw [readPreviousHash, readPreviousIssuer]
  by_cases hnumber : block.number = 0
  · rw [if_pos hnumber, if_pos hnumber, (h.genesis hnumber).1, (h.genesis hnumber).2]
    exact ⟨rfl, rfl⟩
  · rw [if_neg hnumber, if_neg hnumber]
    rcases h.previous hnumber with ⟨⟨text, htext, hhash⟩, issuer, key, hissuer, hkey, hprevious⟩
    rw [hprevious]
    refine ⟨run_bind_eq_some_iff.2 ⟨_, run_result_eq_some_iff.2 (getStr_read order h.names htext), hhash⟩, ?_⟩
    refine run_field_bind (getStr_read order h.names hissuer) ?_
    exact run_bind_eq_some_iff.2 ⟨_, run_option_eq_some_iff.2 hkey, rfl⟩

/-- The transactions of a block are read one by one. -/
theorem readTransactions_read {txs : List (List (String × JsonText) × TransactionDocument)}
    (h : ∀ tx ∈ txs, WritesTransaction C tx.1 tx.2) :
    ((JsonText.elemsRead order (txs.map fun tx => .object tx.1)).mapM
      (parseJsonTransaction C)).run = .ok (some (txs.map fun tx => tx.2.asRead C)) := by
  rw [JsonText.elemsRead_eq_map, List.map_map, List.mapM_map]
  exact run_mapM_eq_map fun tx htx => parseJsonTransaction_read (h tx htx)

/-- A block with the numbers that are read of its text. -/
def BlockDocument.asRead (C : DocCrypto) (block : BlockDocument) : BlockDocument :=
  { block with
    version := Float64.readUnsigned 32 block.version
    nonce := Float64.readUnsigned 64 block.nonce
    number := Float64.readUnsigned 32 block.number
    powMin := Float64.readUnsigned 64 block.powMin
    time := Float64.readUnsigned 64 block.time
    medianTime := Float64.readUnsigned 64 block.medianTime
    membersCount := Float64.readUnsigned 64 block.membersCount
    monetaryMass := Float64.readUnsigned 64 block.monetaryMass
    unitBase := Float64.readUnsigned 64 block.unitBase
    issuersCount := Float64.readUnsigned 64 block.issuersCount
    issuersFrame := Float64.readSigned 64 block.issuersFrame
    issuersFrameVar := Float64.readSigned 64 block.issuersFrameVar
    dividend := block.dividend.map (Float64.readUnsigned 64)
    transactions := block.transactions.map (TxDocOrTxHash.asRead C)
    innerHashAndNonceStr := "" }

/-- A block is read with everything but its numbers. -/
theorem exists_parseJsonBlock (h : WritesBlock C parseF64 members block)
    (hnumber : block.number < 2 ^ 32) :
    ∃ block', (parseJsonBlock C parseF64 ((JsonText.object members).read order)).run =
      .ok (some block') ∧ block.ReadsAs block' := by
  have hnames := h.names
  rcases h.issuer with ⟨issuer, key, hissuer, hkey, hissuers⟩
  rcases h.signature with ⟨signature, sig, hsignature, hsig, hsignatures⟩
  rcases h.hash with ⟨hashText, hash, hhash, hhash', hblockHash⟩
  rcases h.innerHash with ⟨innerHashText, innerHash, hinnerHash, hinnerHash', hblockInnerHash⟩
  rcases h.identities with ⟨identities, idties, hidentities, hidties, hidtyLines⟩
  rcases exists_readMemberships order hnames h.joiners with
    ⟨joiners, hjoiners, hjoinerLines⟩
  rcases exists_readMemberships order hnames h.actives with
    ⟨actives, hactives, hactiveLines⟩
  rcases exists_readMemberships order hnames h.leavers with
    ⟨leavers, hleavers, hleaverLines⟩
  rcases h.revoked with ⟨revoked, hrevoked, hrevoked'⟩
  rcases h.excluded with ⟨excluded, hexcluded, hexcluded'⟩
  rcases h.certifications with ⟨certs, hcerts, hcerts'⟩
  rcases h.transactions with ⟨txs, htxs, htransactions, hblockTxs⟩
  rcases readPrevious_read order h with ⟨hpreviousHash, hpreviousIssuer⟩
  have hnumber' : Float64.readUnsigned 32 block.number = block.number :=
    Float64.readUnsigned_of_lt hnumber
  have hmass := getUnsigned_read order hnames 64 h.monetaryMass
  refine ⟨{ block.asRead C with
    identities := idties, joiners := joiners, actives := actives, leavers := leavers }, ?_, ?_⟩
  · rw [parseJsonBlock, BlockDocument.asRead, hissuers, hsignatures, hblockHash, hblockInnerHash,
      hblockTxs, List.map_map]
    refine run_bind_eq_some_iff.2 ⟨_, run_option_eq_some_iff.2 rfl, ?_⟩
    refine run_field_bind (getStr_read order hnames h.currency) ?_
    refine run_field_bind (getUnsigned_read order hnames 32 h.number) ?_
    refine run_field_bind (getUnsigned_read order hnames 32 h.version) ?_
    refine run_field_bind (getUnsigned_read order hnames 64 h.nonce) ?_
    refine run_field_bind (getUnsigned_read order hnames 64 h.powMin) ?_
    refine run_field_bind (getUnsigned_read order hnames 64 h.time) ?_
    refine run_field_bind (getUnsigned_read order hnames 64 h.medianTime) ?_
    refine run_field_bind (getUnsigned_read order hnames 64 h.membersCount) ?_
    refine run_field_bind (getUnsigned_read order hnames 64 h.unitBase) ?_
    refine run_field_bind (getUnsigned_read order hnames 64 h.issuersCount) ?_
    refine run_field_bind (getSigned_read order hnames 64 h.issuersFrame) ?_
    refine run_field_bind (getSigned_read order hnames 64 h.issuersFrameVar) ?_
    refine run_field_bind (getStr_read order hnames hissuer) ?_
    refine run_bind_eq_some_iff.2 ⟨_, run_option_eq_some_iff.2 hkey, ?_⟩
    refine run_field_bind (getStr_read order hnames hsignature) ?_
    refine run_bind_eq_some_iff.2 ⟨_, run_option_eq_some_iff.2 hsig, ?_⟩
    refine run_field_bind (getStr_read order hnames hhash) ?_
    refine run_bind_eq_some_iff.2 ⟨_, hhash', ?_⟩
    refine run_bind_eq_some_iff.2 ⟨_, readParameters_read order hnames h.parameters, ?_⟩
    rw [hnumber']
    refine run_bind_eq_some_iff.2 ⟨_, hpreviousHash, ?_⟩
    refine run_bind_eq_some_iff.2 ⟨_, hpreviousIssuer, ?_⟩
    refine run_field_bind (getStr_read order hnames hinnerHash) ?_
    refine run_bind_eq_some_iff.2 ⟨_, hinnerHash', ?_⟩
    refine run_field_bind (getOptionalUsize_read order hnames h.dividend) ?_
    refine run_field_bind (getStrArray_read order hnames hidentities) ?_
    refine run_bind_eq_some_iff.2 ⟨_, hidties, ?_⟩
    refine run_bind_eq_some_iff.2 ⟨_, hjoiners, ?_⟩
    refine run_bind_eq_some_iff.2 ⟨_, hactives, ?_⟩
    refine run_bind_eq_some_iff.2 ⟨_, hleavers, ?_⟩
    refine run_field_bind (getStrArray_read order hnames hrevoked) ?_
    refine run_bind_eq_some_iff.2 ⟨_, run_lift_eq_some_iff.2 hrevoked', ?_⟩
    refine run_field_bind (getStrArray_read order hnames hexcluded) ?_
    refine run_bind_eq_some_iff.2 ⟨_, run_option_eq_some_iff.2 hexcluded', ?_⟩
    refine run_field_bind (getStrArray_read order hnames hcerts) ?_
    refine run_bind_eq_some_iff.2 ⟨_, run_lift_eq_some_iff.2 hcerts', ?_⟩
    refine run_bind_eq_some_iff.2
      ⟨_, run_option_eq_some_iff.2 (lookup_read order hnames htransactions), ?_⟩
    refine run_bind_eq_some_iff.2 ⟨_, run_option_eq_some_iff.2 rfl, ?_⟩
    refine run_bind_eq_some_iff.2 ⟨_, readTransactions_read order htxs, ?_⟩
    rw [hmass, List.map_map]
    rfl
  · exact {
      numbers := by
        rw [BlockDocument.numbers, BlockNumbers.asRead, BlockDocument.asRead,
          TxDocOrTxHash.filterMap_locktime_asRead]
        rfl
      currency := rfl
      issuers := rfl
      signatures := rfl
      hash := rfl
      innerHash := rfl
      parameters := rfl
      previousHash := rfl
      previousIssuer := rfl
      identities := hidtyLines
      joiners := hjoinerLines
      actives := hactiveLines
      leavers := hleaverLines
      revoked := rfl
      excluded := rfl
      certifications := rfl
      transactions := TxDocOrTxHash.filterMap_lines_asRead block.transactions }

/-! ## Hashes -/

/-- The inner text of a block does not change when its numbers do not. -/
theorem BlockDocument.ReadsAs.generateCompactInnerText_eq {block' : BlockDocument}
    (h : block.ReadsAs block') (hnumbers : block'.numbers = block.numbers) :
    block'.generateCompactInnerText = block.generateCompactInnerText := by
  have hlocktimes : ∀ locktime ∈ block.transactions.filterMap TxDocOrTxHash.locktime,
      Float64.readUnsigned 64 locktime = locktime :=
    BlockNumbers.map_eq_self_iff.1 (congrArg BlockNumbers.locktimes (h.numbers.symm.trans hnumbers))
  have hlines : (block.transactions.filterMap TxDocOrTxHash.lines).map TransactionLines.asRead =
      block.transactions.filterMap TxDocOrTxHash.lines := by
    refine BlockNumbers.map_eq_self_iff.2 fun lines hlines => ?_
    rw [← TxDocOrTxHash.map_locktime_lines] at hlocktimes
    rw [TransactionLines.asRead, hlocktimes _ (List.mem_map_of_mem hlines)]
  have htransactions := h.transactions.trans hlines
  simp only [BlockDocument.numbers, BlockNumbers.mk.injEq] at hnumbers
  rcases hnumbers with ⟨hversion, -, hnumber, hpowMin, htime, hmedianTime, hmembersCount, -,
    hunitBase, hissuersCount, hissuersFrame, hissuersFrameVar, hdividend, -⟩
  simp only [BlockDocument.generateCompactInnerText, hversion, hnumber, hpowMin, htime,
    hmedianTime, hmembersCount, hunitBase, hissuersCount, hissuersFrame, hissuersFrameVar,
    hdividend, h.currency, h.issuers, h.parameters, h.previousHash, h.previousIssuer,
    h.identities, h.joiners, h.actives, h.leavers, h.revoked, h.excluded, h.certifications]
  split
  case isTrue =>
    refine bind_congr fun issuer => bind_congr fun previous => bind_congr fun issuer => ?_
    congr 2
  case isFalse =>
    refine bind_congr fun previous => bind_congr fun issuer => ?_
    congr 2

/-- The hashes of a block that is read are checked as before when its numbers are kept. -/
theorem BlockDocument.ReadsAs.verify_eq (K : Crypto) {block' : BlockDocument}
    (h : block.ReadsAs block') (hnumbers : block'.numbers = block.numbers) :
    block'.verifyInnerHash K = block.verifyInnerHash K ∧
      block'.verifyHash K = block.verifyHash K := by
  have hnonce : block'.nonce = block.nonce := congrArg BlockNumbers.nonce hnumbers
  rw [BlockDocument.verifyInnerHash, BlockDocument.verifyInnerHash, BlockDocument.verifyHash,
    BlockDocument.verifyHash, h.generateCompactInnerText_eq hnumbers, h.innerHash, h.hash,
    h.signatures, hnonce]
  exact ⟨rfl, rfl⟩

variable (C parseF64) in
/-- A block is read from the text of a chunk. -/
def readBlockText (source : String) : OptionT Run BlockDocument := do
  let value ← JSONValue.parseJsonString order source
  parseJsonBlock C parseF64 value

variable {order} in
/-- The numbers of a block are the same after its text is parsed, and its hashes are checked as
before, exactly when its numbers of 64 bits are held. -/
theorem keepsNumbers_iff {source : String} (hsource : JsonText.Writes source (.object members))
    (hblock : WritesBlock C parseF64 members block) (hrange : block.numbers.InRange)
    (K : Crypto) :
    (∃ block', (readBlockText C parseF64 order source).run = .ok (some block') ∧
      block'.numbers = block.numbers ∧ block'.verifyInnerHash K = block.verifyInnerHash K ∧
        block'.verifyHash K = block.verifyHash K) ↔ block.numbers.Exact := by
  rcases exists_parseJsonBlock order hblock hrange.number with ⟨read, hread, hreads⟩
  have hrun : (readBlockText C parseF64 order source).run = .ok (some read) :=
    run_bind_eq_some_iff.2 ⟨_, hsource.parseJsonString, hread⟩
  rw [← BlockNumbers.asRead_eq_iff hrange, ← hreads.numbers]
  constructor
  · rintro ⟨block', hblock', hnumbers, -⟩
    obtain rfl := Option.some.inj (Except.ok.inj (hrun.symm.trans hblock'))
    exact hnumbers
  · intro hnumbers
    exact ⟨read, hrun, hnumbers, hreads.verify_eq K hnumbers⟩

end

/-- The members of a text of a block without content, with a number and a nonce. -/
def exampleMembers (number nonce : ℕ) : List (String × JsonText) :=
  [("version", .integer false 10), ("nonce", .integer false nonce),
    ("number", .integer false number), ("powMin", .integer false 68),
    ("time", .integer false 1525296873),
    ("medianTime", .integer false 1525292577), ("membersCount", .integer false 33),
    ("monetaryMass", .integer false 15633687), ("unitbase", .integer false 0),
    ("issuersCount", .integer false 8), ("issuersFrame", .integer false 41),
    ("issuersFrameVar", .integer true 5), ("currency", .string "g1-test"),
    ("issuer", .string exampleKeyText), ("signature", .string exampleSigText),
    ("hash", .string (Hash.toHex 0)), ("inner_hash", .string (Hash.toHex 0)),
    ("previousHash", .string (Hash.toHex 0)), ("previousIssuer", .string exampleKeyText),
    ("identities", .array []), ("joiners", .array []), ("actives", .array []),
    ("leavers", .array []), ("revoked", .array []), ("excluded", .array []),
    ("certifications", .array []), ("transactions", .array [])]

/-- The block of that text. -/
def exampleBlock (number nonce : ℕ) : BlockDocument :=
  { genEmptyTimedBlock ⟨number, 0⟩ 1525292577 0 with
    nonce, powMin := 68, time := 1525296873, membersCount := 33, monetaryMass := 15633687
    issuersCount := 8, issuersFrame := 41, issuersFrameVar := -5, currency := "g1-test"
    issuers := [exampleKeyPair.pubkey], signatures := [exampleSig], innerHash := some 0
    previousIssuer := if number = 0 then none else some exampleKeyPair.pubkey }

theorem map_fst_exampleMembers (number nonce : ℕ) : (exampleMembers number nonce).map Prod.fst =
    ["version", "nonce", "number", "powMin", "time", "medianTime", "membersCount", "monetaryMass",
      "unitbase", "issuersCount", "issuersFrame", "issuersFrameVar", "currency", "issuer",
      "signature", "hash", "inner_hash", "previousHash", "previousIssuer", "identities",
      "joiners", "actives", "leavers", "revoked", "excluded", "certifications",
      "transactions"] := rfl

theorem isWritten_exampleMembers (number nonce : ℕ) :
    (JsonText.object (exampleMembers number nonce)).IsWritten := by
  have hnames : ∀ name ∈ (exampleMembers number nonce).map Prod.fst,
      JsonGrammar.IsInner name.toList := by
    rw [map_fst_exampleMembers]
    have hplain : ∀ name ∈ ["version", "nonce", "number", "powMin", "time", "medianTime",
        "membersCount", "monetaryMass", "unitbase", "issuersCount", "issuersFrame",
        "issuersFrameVar", "currency", "issuer", "signature", "hash", "inner_hash",
        "previousHash", "previousIssuer", "identities", "joiners", "actives", "leavers",
        "revoked", "excluded", "certifications", "transactions"],
        name.toList.all (fun c => c ≠ '"' && c ≠ '\\') := by decide +kernel
    exact fun name hname => JsonGrammar.isInner_of_plain (hplain name hname)
  have hempty : (JsonText.array []).IsWritten := .array (List.forall_mem_nil _)
  have hhash : (JsonText.string (Hash.toHex 0)).IsWritten :=
    .string (JsonGrammar.isInner_of_plain (by decide +kernel))
  have hkey : (JsonText.string exampleKeyText).IsWritten :=
    .string (JsonGrammar.isInner_of_plain (by decide +kernel))
  refine .object (fun member hmember => hnames _ (List.mem_map_of_mem hmember)) ?_
  simp only [exampleMembers, List.forall_mem_cons]
  exact ⟨.integer, .integer, .integer, .integer, .integer, .integer, .integer, .integer, .integer,
    .integer, .integer, .integer, .string (JsonGrammar.isInner_of_plain (by decide)), hkey,
    .string (JsonGrammar.isInner_of_plain (by decide +kernel)), hhash, hhash, hhash, hkey, hempty,
    hempty, hempty, hempty, hempty, hempty, hempty, hempty, List.forall_mem_nil _⟩

theorem writes_exampleMembers (number nonce : ℕ) :
    JsonText.Writes (String.ofList (JsonText.object (exampleMembers number nonce)).chars)
      (.object (exampleMembers number nonce)) :=
  (isWritten_exampleMembers number nonce).writes trivial

theorem writesBlock_exampleBlock (number nonce : ℕ) :
    WritesBlock exampleCrypto (fun _ => none) (exampleMembers number nonce)
      (exampleBlock number nonce) where
  names := by
    rw [map_fst_exampleMembers]
    decide
  version := rfl
  nonce := rfl
  number := rfl
  powMin := rfl
  time := rfl
  medianTime := rfl
  membersCount := rfl
  monetaryMass := rfl
  unitBase := rfl
  issuersCount := rfl
  issuersFrame := rfl
  issuersFrameVar := rfl
  dividend := Or.inl rfl
  currency := rfl
  issuer := ⟨_, _, rfl, fromBase58_exampleKeyText, rfl⟩
  signature := ⟨_, _, rfl, by unfold exampleCrypto; simp only [if_true], rfl⟩
  hash := ⟨_, 0, rfl, by rw [Hash.fromHexText_toHex]; rfl, rfl⟩
  innerHash := ⟨_, 0, rfl, by rw [Hash.fromHexText_toHex]; rfl, rfl⟩
  parameters := ⟨none, Or.inl rfl, rfl⟩
  genesis h := ⟨rfl, if_pos h⟩
  previous h := ⟨⟨_, rfl, by rw [Hash.fromHexText_toHex]; rfl⟩, _, _, rfl,
    fromBase58_exampleKeyText, if_neg h⟩
  identities := ⟨[], [], rfl, rfl, rfl⟩
  joiners := ⟨[], [], rfl, rfl, rfl⟩
  actives := ⟨[], [], rfl, rfl, rfl⟩
  leavers := ⟨[], [], rfl, rfl, rfl⟩
  revoked := ⟨[], rfl, rfl⟩
  excluded := ⟨[], rfl, rfl⟩
  certifications := ⟨[], rfl, rfl⟩
  transactions := ⟨[], List.forall_mem_nil _, rfl, rfl⟩

theorem inRange_exampleBlock {number nonce : ℕ} (hnumber : number < 2 ^ 32)
    (h : nonce < 2 ^ 64) : (exampleBlock number nonce).numbers.InRange where
  version := show 10 < 2 ^ 32 by decide
  number := hnumber
  unsigned := by
    show ∀ m ∈ [nonce, 68, 1525296873, 1525292577, 33, 15633687, 0, 8], m < 2 ^ 64
    rw [List.forall_mem_cons]
    exact ⟨h, by decide⟩
  signed := show ∀ m ∈ [(41 : ℤ), -5], -2 ^ 63 ≤ m ∧ m < 2 ^ 63 by decide

/-- Hashes that are all the same. -/
def exampleHashes : Crypto :=
  { exampleCrypto.toTxCrypto with hashInnerText := fun _ => 0, hashSignedText := fun _ _ _ => 0 }

theorem keepsNumbers_exampleBlock :
    ∃ block', (readBlockText exampleCrypto (fun _ => none) JSONValue.entryOrder
        (String.ofList (JsonText.object (exampleMembers 0 10)).chars)).run = .ok (some block') ∧
      block'.numbers = (exampleBlock 0 10).numbers ∧
      block'.verifyInnerHash exampleHashes = (exampleBlock 0 10).verifyInnerHash exampleHashes ∧
      block'.verifyHash exampleHashes = (exampleBlock 0 10).verifyHash exampleHashes := by
  refine (keepsNumbers_iff (writes_exampleMembers 0 10) (writesBlock_exampleBlock 0 10)
    (inRange_exampleBlock (by decide) (by decide)) exampleHashes).2 ⟨?_, ?_⟩
  · have hsmall : ∀ m ∈ (exampleBlock 0 10).numbers.unsigned, m < 2 ^ 53 := by decide
    exact fun m hm => Or.inl (Float64.isDouble_of_lt (hsmall m hm))
  · have hsmall : ∀ m ∈ (exampleBlock 0 10).numbers.signed, m.natAbs < 2 ^ 53 := by decide
    exact fun m hm => Or.inl (Float64.isDouble_of_lt (hsmall m hm))

/-- A nonce of 57 bits is read as another one. -/
theorem nonce_exampleBlock :
    ∃ block', (readBlockText exampleCrypto (fun _ => none) JSONValue.entryOrder
        (String.ofList (JsonText.object (exampleMembers 0 100010200000006940)).chars)).run =
          .ok (some block') ∧
      (exampleBlock 0 100010200000006940).numbers.InRange ∧
      (exampleBlock 0 100010200000006940).nonce = 100010200000006940 ∧
      block'.nonce = 100010200000006944 := by
  rcases exists_parseJsonBlock JSONValue.entryOrder
    (writesBlock_exampleBlock 0 100010200000006940) (by decide) with ⟨block', hread, hreads⟩
  have hnonce : Float64.readUnsigned 64 100010200000006940 = 100010200000006944 := by
    decide +kernel
  refine ⟨block', run_bind_eq_some_iff.2 ⟨_, (writes_exampleMembers _ _).parseJsonString, hread⟩,
    inRange_exampleBlock (by decide) (by decide), rfl, ?_⟩
  exact (congrArg BlockNumbers.nonce hreads.numbers).trans hnonce

end Durs
