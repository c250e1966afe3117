/-
# Head messages

The message of a head is a text of fields with colons between them.  The fields are read one after
the other: one that does not convert is an error, and one that is missing stops the process, except
for the last two.
-/

import Durs.Documents.Conversions
import Durs.Network.Heads

namespace Durs.Network

open RustStd Lib Lib.Reading

/-- `u32::from_str_radix(text, 16)`: an optional plus sign and digits whose value fits. -/
def fromStrRadix16 (text : List Char) : Option Nat :=
  match text with
  | ['+'] | [] => none
  | '+' :: digits => parseHexU32 digits
  | digits => parseHexU32 digits

/-- `params.get(i)`, which is parsed if it is there. -/
def readOptional {α : Type} (params : List String) (i : Nat) (parse : List Char → Option α) :
    OptionT Run (Option α) :=
  match params[i]? with
  | some param => do
      let value ← parse param.toList
      return some value
  | none => return none

/-- `NetworkHeadMessage::from_str`.  The field after the first one is not read. -/
def NetworkHeadMessage.fromStr (C : DocCrypto) (source : String) :
    OptionT Run NetworkHeadMessage := do
  let sourceArray := split ':' source
  let api ← readParam sourceArray 0 some
  let version ← readParam sourceArray 2 (parseUnsigned 64)
  let pubkey ← readParam sourceArray 3 (C.fromBase58 ∘ String.ofList)
  let blockstamp ← OptionT.lift (indexVec sourceArray 4)
  let blockstamp ← Blockstamp.fromString blockstamp
  let nodeUuid ← readParam sourceArray 5 fromStrRadix16
  let software ← readParam sourceArray 6 some
  let softVersion ← readParam sourceArray 7 some
  let prefixNumber ← readParam sourceArray 8 (parseUnsigned 64)
  let freeMemberRoom ← readOptional sourceArray 9 (parseUnsigned 64)
  let freeMirrorRoom ← readOptional sourceArray 10 (parseUnsigned 64)
  return .v2 {
    api := String.ofList api
    version
    pubkey
    blockstamp
    nodeUuid
    software := String.ofList software
    softVersion := String.ofList softVersion
    prefixNumber
    freeMemberRoom
    freeMirrorRoom }

/-! ## What the fields must be -/

/-- What the reading of a field asks for. -/
def fieldReadings (fields : List String) (i : Nat) (valid : String → Bool) : List Reading :=
  [.conversion fields[i]?.isSome, .field (fields[i]?.any valid)]

/-- What the reading of a head message asks for. -/
def headMessageReadings (C : DocCrypto) (source : String) : List Reading :=
  let fields := split ':' source
  let isNumber (text : String) : Bool := (parseUnsigned 64 text.toList).isSome
  fieldReadings fields 0 (fun _ => true) ++
    (fieldReadings fields 2 isNumber ++
    (fieldReadings fields 3 (fun text => (C.fromBase58 text).isSome) ++
    ([.conversion fields[4]?.isSome] ++
    ((fields[4]?.map blockstampReadings).getD [] ++
    (fieldReadings fields 5 (fun text => (fromStrRadix16 text.toList).isSome) ++
    (fieldReadings fields 6 (fun _ => true) ++
    (fieldReadings fields 7 (fun _ => true) ++
    (fieldReadings fields 8 isNumber ++
    ([.field (fields[9]?.all isNumber)] ++ [.field (fields[10]?.all isNumber)])))))))))

theorem reads_readOptional {α : Type} {parse : List Char → Option α} {valid : String → Bool}
    (hvalid : ∀ param, valid param = (parse param.toList).isSome) (params : List String) (i : Nat) :
    Reads (readOptional params i parse) [.field (params[i]?.all valid)] := by
  rw [readOptional]
  cases params[i]? with
  | none =>
      rw [Option.all_none]
      exact (Reads.pure none).of_iff (by decide) (by decide)
  | some param =>
      rw [Option.all_some, hvalid]
      exact (Reads.option _).map some

theorem reads_headMessage (C : DocCrypto) (source : String) :
    Reads (NetworkHeadMessage.fromStr C source) (headMessageReadings C source) := by
  have hindex : Reads (OptionT.lift (indexVec (split ':' source) 4))
      [.conversion (split ':' source)[4]?.isSome] := Reads.except returns_expect_iff
  refine (reads_readParam (fun _ => rfl) _ 0).bind fun api _ => ?_
  refine (reads_readParam (fun _ => rfl) _ 2).bind fun version _ => ?_
  refine (reads_readParam (fun text => ?_) _ 3).bind fun pubkey _ => ?_
  · rw [Function.comp_apply, String.ofList_toList]
  refine hindex.bind fun stamp hstamp => ?_
  rw [run_lift_eq_some_iff, indexVec, expect_eq_ok_iff] at hstamp
  rw [hstamp, Option.map_some, Option.getD_some]
  refine (reads_blockstamp stamp).bind fun blockstamp _ => ?_
  refine (reads_readParam (fun _ => rfl) _ 5).bind fun nodeUuid _ => ?_
  refine (reads_readParam (fun _ => rfl) _ 6).bind fun software _ => ?_
  refine (reads_readParam (fun _ => rfl) _ 7).bind fun softVersion _ => ?_
  refine (reads_readParam (fun _ => rfl) _ 8).bind fun prefixNumber _ => ?_
  refine (reads_readOptional (fun _ => rfl) _ 9).bind fun freeMemberRoom _ => ?_
  exact (reads_readOptional (fun _ => rfl) _ 10).map _

/-- Whether each field of a message that is asked for is there. -/
def HeadMessageFits (C : DocCrypto) (source : String) : Prop :=
  Harmless (headMessageReadings C source)

instance (C : DocCrypto) (source : String) : Decidable (HeadMessageFits C source) :=
  inferInstanceAs (Decidable (Harmless _))

/-- Reading a head message returns exactly when the fields are there that it comes to. -/
theorem returns_headMessage_iff (C : DocCrypto) (source : String) :
    Returns (NetworkHeadMessage.fromStr C source).run ↔ HeadMessageFits C source :=
  (reads_headMessage C source).harmless_iff

end Durs.Network
