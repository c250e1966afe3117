/-
# Blocks that are read

What the reading of a JSON block asks for, in the order in which it is asked for.  A block is read
without stopping the process exactly when each text that is converted without a check, up to the
first field that is missing or refused, converts.
-/

import Durs.Documents.Conversions
import Durs.Ws2pV1.Blocks

namespace Durs

open RustStd Lib Lib.Reading

variable {C : DocCrypto}

/-! ## Fields -/

theorem reads_index {α : Type} (l : List α) (i : Nat) :
    Reads (OptionT.lift (indexVec l i)) [.conversion l[i]?.isSome] :=
  Reads.except returns_expect_iff

theorem getD_of_index {α : Type} {l : List α} {i : Nat} {a : α}
    (h : (OptionT.lift (indexVec l i)).run = .ok (some a)) (d : α) : l[i]?.getD d = a := by
  rw [run_lift_eq_some_iff, indexVec, expect_eq_ok_iff] at h
  rw [h, Option.getD_some]

theorem getD_of_option {α : Type} {x : Option α} {a : α}
    (h : (liftM x : OptionT Run α).run = .ok (some a)) (d : α) : x.getD d = a := by
  rw [run_option_eq_some_iff] at h
  rw [h, Option.getD_some]

/-- What a field with a text asks for, and the conversion of the text. -/
def textReadings (text : Option String) (readings : String → List Reading) : List Reading :=
  .field text.isSome :: readings (text.getD "")

theorem reads_text {α : Type} {text : Option String} {readings : String → List Reading}
    {read : String → OptionT Run α} (h : ∀ text, Reads (read text) (readings text)) :
    Reads (do let text ← text; read text) (textReadings text readings) := by
  refine (Reads.option text).bind fun text' hrun => ?_
  rw [getD_of_option hrun]
  exact h text'

/-- What a field with a list asks for, and the reading of each of its elements. -/
def arrayReadings (elems : Option (List Json)) (readings : Json → List Reading) : List Reading :=
  .field elems.isSome :: (elems.getD []).flatMap readings

theorem reads_array {α : Type} {elems : Option (List Json)} {readings : Json → List Reading}
    {read : Json → OptionT Run α} (h : ∀ elem, Reads (read elem) (readings elem)) :
    Reads (do let elems ← elems; elems.mapM read) (arrayReadings elems readings) := by
  refine (Reads.option elems).bind fun elems' hrun => ?_
  rw [getD_of_option hrun]
  exact Reads.mapM fun elem _ => h elem

/-! ## Identities, memberships and exclusions -/

/-- What the reading of an identity asks for. -/
def identityReadings (C : DocCrypto) (source : Json) : List Reading :=
  let elements := split ':' (source.asStr.getD "")
  [.field source.asStr.isSome, .conversion elements[0]?.isSome,
    .field (C.fromBase58 (elements[0]?.getD "")).isSome, .conversion elements[1]?.isSome,
    .field (C.fromBase64 (elements[1]?.getD "")).isSome, .conversion elements[2]?.isSome] ++
  (blockstampReadings (elements[2]?.getD "") ++ [.conversion elements[3]?.isSome])

theorem reads_identity (currency : String) (source : Json) :
    Reads (parseCompactIdentity C currency source) (identityReadings C source) := by
  unfold parseCompactIdentity identityReadings
  refine (Reads.option source.asStr).bind fun text htext => ?_
  rw [getD_of_option htext]
  refine (reads_index (split ':' text) 0).bind fun issuer hissuer => ?_
  rw [getD_of_index hissuer]
  refine (Reads.option (C.fromBase58 issuer)).bind fun key _ => ?_
  refine (reads_index (split ':' text) 1).bind fun signature hsignature => ?_
  rw [getD_of_index hsignature]
  refine (Reads.option (C.fromBase64 signature)).bind fun sig _ => ?_
  refine (reads_index (split ':' text) 2).bind fun blockstamp hblockstamp => ?_
  rw [getD_of_index hblockstamp]
  refine (reads_blockstamp blockstamp).bind fun stamp _ => ?_
  exact (reads_index (split ':' text) 3).map _

/-- Whether the parts of a membership convert, when there are five of them. -/
def membershipConverts (C : DocCrypto) (membership : Json) : Bool :=
  match membership.asStr with
  | some text =>
      match split ':' text with
      | [issuer, signature, blockstamp, identityBlockstamp, _] =>
          (C.fromBase58 issuer).isSome && Complete (blockstampReadings blockstamp) &&
            Complete (blockstampReadings identityBlockstamp) && (C.fromBase64 signature).isSome
      | _ => true
  | none => false

theorem returns_unwrapBlockstamp_iff (src : String) :
    Returns (unwrapBlockstamp src) ↔ Complete (blockstampReadings src) := by
  rw [← (reads_blockstamp src).complete_iff, unwrapBlockstamp, returns_bind_iff]
  constructor
  · rintro ⟨blockstamp, hrun, hsome⟩
    rw [returns_unwrap_iff] at hsome
    rcases Option.isSome_iff_exists.1 hsome with ⟨a, rfl⟩
    exact ⟨a, hrun⟩
  · rintro ⟨a, hrun⟩
    exact ⟨some a, hrun, a, rfl⟩

theorem returns_membership_iff (currency : String) (membershipType : MembershipType)
    (membership : Json) :
    Returns (parseCompactMembership C currency membershipType membership) ↔
      membershipConverts C membership = true := by
  unfold parseCompactMembership membershipConverts
  cases membership.asStr with
  | none => exact iff_of_false (by simp [returns_bind_iff]) nofun
  | some text =>
      rw [show unwrap (some text) = .ok text from rfl, ok_bind]
      dsimp only
      match split ':' text with
      | [issuer, signature, blockstamp, identityBlockstamp, username] =>
          dsimp only
          rw [returns_bind_iff_and fun issuer => returns_bind_iff_and fun blockstamp =>
            returns_bind_iff_and fun identityBlockstamp =>
            returns_bind_iff_of_forall fun signature => returns_pure _]
          simp only [returns_unwrap_iff, returns_unwrapBlockstamp_iff, Bool.and_eq_true,
            decide_eq_true_iff, and_assoc]
      | [] => exact iff_of_true (returns_pure _) rfl
      | [_] => exact iff_of_true (returns_pure _) rfl
      | [_, _] => exact iff_of_true (returns_pure _) rfl
      | [_, _, _] => exact iff_of_true (returns_pure _) rfl
      | [_, _, _, _] => exact iff_of_true (returns_pure _) rfl
      | _ :: _ :: _ :: _ :: _ :: _ :: _ => exact iff_of_true (returns_pure _) rfl

/-- What the reading of memberships asks for. -/
def membershipsReadings (C : DocCrypto) (jsonMemberships : Option Json) : List Reading :=
  let elems := jsonMemberships.bind Json.asArray
  [.field jsonMemberships.isSome, .field elems.isSome,
    .conversion ((elems.getD []).all (membershipConverts C))]

theorem reads_memberships (currency : String) (membershipType : MembershipType)
    (jsonMemberships : Option Json) :
    Reads (do
      let jsonMemberships ← jsonMemberships
      parseMemberships C currency membershipType jsonMemberships)
      (membershipsReadings C jsonMemberships) := by
  unfold membershipsReadings parseMemberships
  refine (Reads.option jsonMemberships).bind fun value hvalue => ?_
  rw [run_option_eq_some_iff] at hvalue
  rw [hvalue, Option.bind_some]
  refine (Reads.option value.asArray).bind fun elems helems => ?_
  rw [getD_of_option helems]
  have hconverts : Reads (OptionT.lift
      (parseMembershipsFromJsonValue C currency membershipType elems))
      [.conversion (elems.all (membershipConverts C))] := by
    refine Reads.except ?_
    show Returns _ ↔ _
    rw [parseMembershipsFromJsonValue, returns_mapM_iff, List.all_eq_true]
    exact forall₂_congr fun membership _ => returns_membership_iff currency membershipType membership
  exact hconverts.map _

/-- Whether an exclusion converts. -/
def exclusionConverts (C : DocCrypto) (exclusion : Json) : Bool :=
  (exclusion.asStr.bind C.fromBase58).isSome

theorem returns_exclusions_iff (exclusions : List Json) :
    Returns (parseExclusionsFromJsonValue C exclusions) ↔
      exclusions.all (exclusionConverts C) = true := by
  rw [parseExclusionsFromJsonValue, returns_mapM_iff, List.all_eq_true]
  refine forall₂_congr fun exclusion _ => ?_
  unfold parseExclusion exclusionConverts
  cases exclusion.asStr with
  | none => exact iff_of_false (by simp [returns_bind_iff]) nofun
  | some text => exact returns_unwrap_iff

/-! ## Transactions -/

/-- What the reading of a transaction asks for. -/
def transactionReadings (C : DocCrypto) (source : Json) : List Reading :=
  textReadings (source.str "blockstamp") blockstampReadings ++
  ([.field (source.i64 "locktime").isSome] ++
  (arrayReadings (source.arr "issuers") (fun issuer =>
    textReadings issuer.asStr fun text => [.field (C.fromBase58 text).isSome]) ++
  (arrayReadings (source.arr "inputs") (fun input =>
    textReadings input.asStr (innerReadings C Grammar.txInput)) ++
  (arrayReadings (source.arr "unlocks") (fun unlock =>
    textReadings unlock.asStr (innerReadings C Grammar.txUnlock)) ++
  (arrayReadings (source.arr "outputs") (fun output =>
    textReadings output.asStr (outputReadings C)) ++
  (arrayReadings (source.arr "signatures") (fun signature =>
    textReadings signature.asStr fun text => [.field (C.fromBase64 text).isSome]) ++
  ([.field (source.str "comment").isSome] ++
  textReadings (source.str "hash") hashReadings)))))))

theorem reads_transaction (currency : String) (source : Json) :
    Reads (parseTransaction C currency source) (transactionReadings C source) := by
  unfold parseTransaction transactionReadings
  refine (reads_text reads_blockstamp).bind_pair fun blockstamp => ?_
  refine (Reads.option (source.i64 "locktime")).bind fun locktime _ => ?_
  refine (reads_array fun issuer => reads_text fun text => Reads.option _).bind_pair
    fun issuers => ?_
  refine (reads_array fun input => reads_text reads_input).bind_pair fun inputs => ?_
  refine (reads_array fun unlock => reads_text reads_unlocks).bind_pair fun unlocks => ?_
  refine (reads_array fun output => reads_text reads_output).bind_pair fun outputs => ?_
  refine (reads_array fun signature => reads_text fun text => Reads.option _).bind_pair
    fun signatures => ?_
  refine (Reads.option (source.str "comment")).bind fun comment _ => ?_
  refine (reads_text reads_hash).bind_pair fun hash => ?_
  exact Reads.pure _

/-! ## Blocks -/

/-- What the reading of the parameters asks for, if there are any; a text that is refused does not
end the reading of the block. -/
def parametersFieldReadings (parseF64 : List Char → Option F64) (source : Json) : List Reading :=
  match source.get "parameters" with
  | some paramsJson => textReadings paramsJson.asStr fun params =>
      [.conversion (Harmless (parametersReadings parseF64 params))]
  | none => []

theorem reads_parametersField (parseF64 : List Char → Option F64) (source : Json) :
    Reads (parseParameters parseF64 source) (parametersFieldReadings parseF64 source) := by
  unfold parseParameters parametersFieldReadings
  cases source.get "parameters" with
  | none => exact Reads.pure _
  | some paramsJson => exact reads_text fun params => (reads_parameters params).attempt

/-- What the reading of the previous hash asks for. -/
def previousHashReadings (blockNumber : BlockNumber) (source : Json) : List Reading :=
  let previousHash := source.get "previousHash"
  .field previousHash.isSome ::
    match previousHash.bind Json.asStr with
    | some hashStr => hashReadings hashStr
    | none => [.field (blockNumber = 0)]

theorem reads_previousHash (blockNumber : BlockNumber) (source : Json) :
    Reads (parsePreviousHash blockNumber source) (previousHashReadings blockNumber source) := by
  unfold parsePreviousHash previousHashReadings
  refine (Reads.option (source.get "previousHash")).bind fun previousHash hrun => ?_
  rw [run_option_eq_some_iff] at hrun
  rw [hrun, Option.bind_some]
  cases previousHash.asStr with
  | some hashStr => exact reads_hash hashStr
  | none =>
      dsimp only
      split
      case isTrue hpos =>
        rw [decide_eq_false (Nat.ne_of_gt hpos)]
        exact Reads.failure
      case isFalse hzero =>
        rw [decide_eq_true (Nat.eq_zero_of_not_pos hzero)]
        exact (Reads.pure _).of_iff (by decide) (by decide)

/-- Whether the elements of a list convert, each read as a text, or as the empty text. -/
def textsConvert (converts : String → Bool) (elems : Option (List Json)) : Bool :=
  ((elems.getD []).map fun v => v.asStr.getD "").all converts

/-- What the reading of a block asks for. -/
def blockReadings (C : DocCrypto) (parseF64 : List Char → Option F64) (source : Json) :
    List Reading :=
  [.field (source.u64 "number").isSome, .field (source.str "currency").isSome] ++
  (textReadings (source.str "issuer") (fun issuer => [.field (C.fromBase58 issuer).isSome]) ++
  (textReadings (source.str "signature") (fun sig => [.field (C.fromBase64 sig).isSome]) ++
  (textReadings (source.str "hash") hashReadings ++
  (parametersFieldReadings parseF64 source ++
  (previousHashReadings (asU32 ((source.u64 "number").getD 0)) source ++
  (textReadings (source.str "inner_hash") hashReadings ++
  ([.field (source.get "dividend").isSome] ++
  (arrayReadings (source.arr "identities") (identityReadings C) ++
  (membershipsReadings C (source.get "joiners") ++
  (membershipsReadings C (source.get "actives") ++
  (membershipsReadings C (source.get "leavers") ++
  ([.field (source.arr "revoked").isSome, .field (source.arr "certifications").isSome] ++
  (arrayReadings (source.arr "transactions") (transactionReadings C) ++
  [.field (source.i64 "nonce").isSome, .field (source.u64 "version").isSome,
    .field (source.u64 "powMin").isSome, .field (source.u64 "time").isSome,
    .field (source.u64 "medianTime").isSome, .field (source.u64 "membersCount").isSome,
    .field (source.u64 "monetaryMass").isSome, .field (source.u64 "unitbase").isSome,
    .field (source.u64 "issuersCount").isSome, .field (source.i64 "issuersFrame").isSome,
    .field (source.i64 "issuersFrameVar").isSome,
    .conversion (textsConvert (revocationConverts C) (source.arr "revoked")),
    .field (source.arr "excluded").isSome,
    .conversion (((source.arr "excluded").getD []).all (exclusionConverts C)),
    .conversion (textsConvert (certificationConverts C) (source.arr "certifications")),
    .field (source.u64 "nonce").isSome])))))))))))))

/-- Reading a block ends as what it asks for tells. -/
theorem reads_block (parseF64 : List Char → Option F64) (source : Json) :
    Reads (parseJsonBlock C parseF64 source) (blockReadings C parseF64 source) := by
  unfold parseJsonBlock blockReadings
  refine (Reads.option (source.u64 "number")).bind fun number hnumber => ?_
  rw [getD_of_option hnumber]
  refine (Reads.option (source.str "currency")).bind fun currency _ => ?_
  refine (reads_text fun issuer => Reads.option (C.fromBase58 issuer)).bind_pair fun issuer => ?_
  refine (reads_text fun sig => Reads.option (C.fromBase64 sig)).bind_pair fun sig => ?_
  refine (reads_text reads_hash).bind_pair fun blockHash => ?_
  refine (reads_parametersField parseF64 source).bind fun parameters _ => ?_
  refine (reads_previousHash (asU32 number) source).bind fun previousHash _ => ?_
  refine (reads_text reads_hash).bind_pair fun innerHash => ?_
  refine (Reads.option (source.get "dividend")).bind fun dividend _ => ?_
  refine (reads_array (reads_identity currency)).bind_pair fun identities => ?_
  refine (reads_memberships currency .in (source.get "joiners")).bind_pair fun joiners => ?_
  refine (reads_memberships currency .in (source.get "actives")).bind_pair fun actives => ?_
  refine (reads_memberships currency .out (source.get "leavers")).bind_pair fun leavers => ?_
  refine (Reads.option (source.arr "revoked")).bind fun revoked hrevoked => ?_
  refine (Reads.option (source.arr "certifications")).bind fun certs hcerts => ?_
  refine (reads_array (reads_transaction "g1")).bind_pair fun transactions => ?_
  refine (Reads.option (source.i64 "nonce")).bind fun nonce _ => ?_
  refine (Reads.option (source.u64 "version")).bind fun version _ => ?_
  refine (Reads.option (source.u64 "powMin")).bind fun powMin _ => ?_
  refine (Reads.option (source.u64 "time")).bind fun time _ => ?_
  refine (Reads.option (source.u64 "medianTime")).bind fun medianTime _ => ?_
  refine (Reads.option (source.u64 "membersCount")).bind fun membersCount _ => ?_
  refine (Reads.option (source.u64 "monetaryMass")).bind fun monetaryMass _ => ?_
  refine (Reads.option (source.u64 "unitbase")).bind fun unitBase _ => ?_
  refine (Reads.option (source.u64 "issuersCount")).bind fun issuersCount _ => ?_
  refine (Reads.option (source.i64 "issuersFrame")).bind fun issuersFrame _ => ?_
  refine (Reads.option (source.i64 "issuersFrameVar")).bind fun issuersFrameVar _ => ?_
  have hrevocations : Reads (OptionT.lift
      (parseRevocationsIntoCompact C (revoked.map fun v => v.asStr.getD "")))
      [.conversion (textsConvert (revocationConverts C) (source.arr "revoked"))] := by
    refine Reads.except ?_
    rw [textsConvert, getD_of_option hrevoked]
    exact returns_revocations_iff _
  refine hrevocations.bind fun revocations _ => ?_
  refine (Reads.option (source.arr "excluded")).bind fun excluded hexcluded => ?_
  rw [getD_of_option hexcluded]
  have hexclusions : Reads (OptionT.lift (parseExclusionsFromJsonValue C excluded))
      [.conversion (excluded.all (exclusionConverts C))] :=
    Reads.except (returns_exclusions_iff excluded)
  refine hexclusions.bind fun exclusions _ => ?_
  have hcertifications : Reads (OptionT.lift
      (parseCertificationsIntoCompact C (certs.map fun v => v.asStr.getD "")))
      [.conversion (textsConvert (certificationConverts C) (source.arr "certifications"))] := by
    refine Reads.except ?_
    rw [textsConvert, getD_of_option hcerts]
    exact returns_certifications_iff _
  refine hcertifications.bind fun certifications _ => ?_
  exact (Reads.option (source.u64 "nonce")).map _

end Durs
