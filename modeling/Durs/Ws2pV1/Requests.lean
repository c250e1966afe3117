/-
# Requests on the wire

How a request is printed, and that it is read as it was printed: in every state of a connection the
peer reads the same identifier and the same body, and no number of a body that is read is cut.
-/

import Durs.Ws2pV1.Authentication

namespace Durs.Ws2pV1

/-- WS2Pv1 request. -/
structure WS2Pv1Request where
  id : Uuid
  body : WS2Pv1ReqBody
deriving DecidableEq, Repr

/-- The name of a request and its parameters. -/
def WS2Pv1ReqBody.toNameAndParams : WS2Pv1ReqBody → String × Json
  | .getCurrent => ("CURRENT", .object [])
  | .getBlock number => ("BLOCK_BY_NUMBER", .object [("number", .posInt number)])
  | .getBlocks count fromNumber =>
      ("BLOCKS_CHUNK", .object [("count", .posInt count), ("fromNumber", .posInt fromNumber)])
  | .getRequirementsPending minCert =>
      ("WOT_REQUIREMENTS_OF_PENDING", .object [("minCert", .posInt minCert)])

/-- The field `body` of a printed request. -/
def WS2Pv1ReqBody.toJson (body : WS2Pv1ReqBody) : Json :=
  .object [("name", .string body.toNameAndParams.1), ("params", body.toNameAndParams.2)]

/-- `network_request_to_json`, given how identifiers are printed. -/
def networkRequestToJson (toHyphenatedString : Uuid → String) (request : WS2Pv1Request) : Json :=
  .object [("body", request.body.toJson), ("reqId", .string (toHyphenatedString request.id))]

variable {L : Libs} {body : WS2Pv1ReqBody} {json : Json}

/-! ## Bodies -/

/-- The numbers of `u32` are of their type. -/
def WS2Pv1ReqBody.Fits : WS2Pv1ReqBody → Prop
  | .getCurrent => True
  | .getBlock number => number < 4294967296
  | .getBlocks count fromNumber => count < 4294967296 ∧ fromNumber < 4294967296
  | .getRequirementsPending _ => True

/-- The body has the name that the JSON value has, and its numbers are those of the JSON value. -/
def WS2Pv1ReqBody.SameAs (body : WS2Pv1ReqBody) (json : Json) : Prop :=
  json.str "name" = some body.toNameAndParams.1 ∧
    ∀ key n, body.toNameAndParams.2.u64 key = some n →
      (json.get "params").bind (fun params => params.u64 key) = some n

theorem tryU32_eq_some_iff {n m : Nat} : tryU32 n = some m ↔ n = m ∧ n < 4294967296 := by
  rw [tryU32]
  split
  case isTrue h => simp [h]
  case isFalse h => simp [h]

/-- A printed body is read as it was. -/
theorem WS2Pv1ReqBody.tryFrom_toJson (h : body.Fits) : tryFrom body.toJson = some body := by
  cases body with
  | getCurrent => rfl
  | getBlock number =>
      have hnumber : tryU32 number = some number := tryU32_eq_some_iff.2 ⟨rfl, h⟩
      have hread : tryFrom (toJson (.getBlock number)) =
          (tryU32 number).bind fun number => some (.getBlock number) := rfl
      rw [hread, hnumber, Option.bind_some]
  | getBlocks count fromNumber =>
      have hcount : tryU32 count = some count := tryU32_eq_some_iff.2 ⟨rfl, h.1⟩
      have hfrom : tryU32 fromNumber = some fromNumber := tryU32_eq_some_iff.2 ⟨rfl, h.2⟩
      have hread : tryFrom (toJson (.getBlocks count fromNumber)) =
          (tryU32 count).bind fun count =>
            (tryU32 fromNumber).bind fun fromNumber => some (.getBlocks count fromNumber) := rfl
      rw [hread, hcount, hfrom, Option.bind_some, Option.bind_some]
  | getRequirementsPending minCert => rfl

theorem eq_of_asObject {object : Json} (h : json.asObject = some object) : object = json := by
  cases json with
  | object fields => exact (Option.some.inj h).symm
  | _ => cases h

/-- A parameter of a printed request is one of the numbers that are printed. -/
theorem u64_object_cons {k key : String} {m n : Nat} {fields : List (String × Json)}
    (h : (Json.object ((k, .posInt m) :: fields)).u64 key = some n) :
    key = k ∧ m = n ∨ (Json.object fields).u64 key = some n := by
  rw [Json.u64, Json.get, List.lookup_cons] at h
  split at h
  case h_1 heq => exact .inl ⟨eq_of_beq heq, Option.some.inj h⟩
  case h_2 => exact .inr h

/-- A body that is read fits, and nothing of it is cut. -/
theorem WS2Pv1ReqBody.sameAs_of_tryFrom (h : tryFrom json = some body) :
    body.Fits ∧ body.SameAs json := by
  rw [tryFrom, Option.bind_eq_bind, Option.bind_eq_some_iff] at h
  obtain ⟨name, hname, h⟩ := h
  rw [SameAs, hname]
  split at h
  · obtain rfl := Option.some.inj h
    exact ⟨trivial, rfl, fun key n hkey => by cases hkey⟩
  · simp only [Option.bind_eq_bind, Option.bind_eq_some_iff, tryU32_eq_some_iff] at h
    obtain ⟨params, hparams, object, hobject, number, hnumber, _, ⟨rfl, hfits⟩, h⟩ := h
    obtain rfl := eq_of_asObject hobject
    obtain rfl := Option.some.inj h
    refine ⟨hfits, rfl, fun key n hkey => ?_⟩
    rw [hparams, Option.bind_some]
    rcases u64_object_cons hkey with ⟨rfl, rfl⟩ | hnone
    · exact hnumber
    · cases hnone
  · simp only [Option.bind_eq_bind, Option.bind_eq_some_iff, tryU32_eq_some_iff] at h
    obtain ⟨params, hparams, object, hobject, count, hcount, fromNumber, hfrom, _,
      ⟨rfl, hfits⟩, _, ⟨rfl, hfits'⟩, h⟩ := h
    obtain rfl := eq_of_asObject hobject
    obtain rfl := Option.some.inj h
    refine ⟨⟨hfits, hfits'⟩, rfl, fun key n hkey => ?_⟩
    rw [hparams, Option.bind_some]
    rcases u64_object_cons hkey with ⟨rfl, rfl⟩ | hsecond
    · exact hcount
    · rcases u64_object_cons hsecond with ⟨rfl, rfl⟩ | hnone
      · exact hfrom
      · cases hnone
  · simp only [Option.bind_eq_bind, Option.bind_eq_some_iff] at h
    obtain ⟨params, hparams, object, hobject, minCert, hminCert, h⟩ := h
    obtain rfl := eq_of_asObject hobject
    obtain rfl := Option.some.inj h
    refine ⟨trivial, rfl, fun key n hkey => ?_⟩
    rw [hparams, Option.bind_some]
    rcases u64_object_cons hkey with ⟨rfl, rfl⟩ | hnone
    · exact hminCert
    · cases hnone
  · cases h

/-! ## Requests -/

variable {toHyphenatedString : Uuid → String} {request : WS2Pv1Request} {currency : String}
  {keyPair : KeyPair}

/-- A printed request is not an authentication message. -/
theorem checkAuthMessage_networkRequestToJson (datas : WS2PConnectionMetaDatas) :
    (datas.checkAuthMessage L currency keyPair
      (networkRequestToJson toHyphenatedString request)).run = .ok none := rfl

/-- A printed request is read as it was. -/
theorem checkRequest_networkRequestToJson
    (hid : L.parseUuid (toHyphenatedString request.id) = some request.id)
    (hfits : request.body.Fits) :
    WS2PConnectionMetaDatas.checkRequest L (networkRequestToJson toHyphenatedString request) =
      some (.request request.id request.body) := by
  have hreqId : (networkRequestToJson toHyphenatedString request).get "reqId" =
      some (.string (toHyphenatedString request.id)) := rfl
  have hbody : (networkRequestToJson toHyphenatedString request).get "body" =
      some request.body.toJson := rfl
  have htext : (Json.string (toHyphenatedString request.id)).asStr =
      some (toHyphenatedString request.id) := rfl
  simp only [WS2PConnectionMetaDatas.checkRequest, hreqId, hbody, htext, hid,
    WS2Pv1ReqBody.tryFrom_toJson hfits, Option.bind_eq_bind, Option.bind_some, Option.pure_def]

/-- A request whose identifier is read as it is printed is received as it was sent, on every
connection with a known node and in every state, and leaves the meta data as they are; and a body
that is read is read again as it is printed, with the numbers that it was read from. -/
theorem parseAndCheckIncomingMessage_networkRequestToJson
    (hid : L.parseUuid (toHyphenatedString request.id) = some request.id)
    (hfits : request.body.Fits) :
    (∀ state nodeId pubkey challenge remoteChallenge,
      WS2PConnectionMetaDatas.parseAndCheckIncomingMessage L
          ⟨state, some nodeId, some pubkey, challenge, remoteChallenge⟩ currency keyPair
          (networkRequestToJson toHyphenatedString request) =
        .ok (⟨state, some nodeId, some pubkey, challenge, remoteChallenge⟩,
          .request request.id request.body)) ∧
    ∀ json body, WS2Pv1ReqBody.tryFrom json = some body →
      WS2Pv1ReqBody.tryFrom body.toJson = some body ∧ body.SameAs json := by
  refine ⟨fun state nodeId pubkey challenge remoteChallenge => ?_, fun json body h => ?_⟩
  · rw [WS2PConnectionMetaDatas.parseAndCheckIncomingMessage,
      checkAuthMessage_networkRequestToJson, RustStd.ok_bind]
    simp only [checkRequest_networkRequestToJson hid hfits]
    rfl
  · obtain ⟨hbody, hsame⟩ := WS2Pv1ReqBody.sameAs_of_tryFrom h
    exact ⟨WS2Pv1ReqBody.tryFrom_toJson hbody, hsame⟩

/-- A request for a chunk of fifty blocks. -/
def chunkRequest : WS2Pv1Request where
  id := 0xfbcf0bfa7e1840ccb3005c797d27518e
  body := .getBlocks 50 0

/-- The identifier of this request, printed. -/
def chunkRequestId : String := "fbcf0bfa-7e18-40cc-b300-5c797d27518e"

theorem parseAndCheckIncomingMessage_chunkRequest :
    WS2PConnectionMetaDatas.parseAndCheckIncomingMessage
        { connectionLibs with
          parseUuid := fun text => if text = chunkRequestId then some chunkRequest.id else none }
        connectionDatas "g1" ownKeyPair
        (networkRequestToJson (fun _ => chunkRequestId) chunkRequest) =
      .ok (connectionDatas, .request chunkRequest.id (.getBlocks 50 0)) := by
  have hfits : chunkRequest.body.Fits := ⟨by decide, by decide⟩
  exact (parseAndCheckIncomingMessage_networkRequestToJson rfl hfits).1 _ _ _ _ _

end Durs.Ws2pV1
