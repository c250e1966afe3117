/-
# Messages that stop the process

When receiving a text returns, for any text that a peer may send.  A text that is not JSON, an
authentication message that does not parse, a text within a block that is converted without a
check, and the port of an endpoint that does not fit stop the process; nothing else does.
-/

import Durs.Ws2pV1.Authentication
import Durs.Ws2pV1.BlockReadings

namespace Durs.Ws2pV1

open Lib Lib.Reading RustStd

variable {L : Libs} {currency : String} {keyPair : KeyPair} {datas : WS2PConnectionMetaDatas}
  {key : PubKey} {msg : Json}

/-! ## Authentication messages -/

/-- What the check of an authentication message asks for: that it parses, and, for it to be
answered, that it verifies.  A message OK is always answered. -/
def authReadings (L : Libs) (currency : String) (key : PubKey) (challenge : String) (msg : Json) :
    List Reading :=
  textReadings (msg.str "auth") fun auth =>
    match auth with
    | "CONNECT" =>
        let message? := WS2PConnectMessageV1.parse L msg currency
        [.conversion message?.isSome,
          .field (message?.any fun message =>
            WS2PConnectMessageV1.verify L message && message.pubkey = key)]
    | "ACK" =>
        let message? := WS2PAckMessageV1.parse L msg currency
        [.conversion message?.isSome,
          .field (message?.any fun message =>
            WS2PAckMessageV1.verify L { message with challenge })]
    | "OK" => [.conversion (WS2POkMessageV1.parse L msg currency).isSome]
    | _ => [.field false]

namespace WS2PConnectionMetaDatas

theorem complete_field_true : Complete [.field true] :=
  complete_cons.2 ⟨rfl, complete_nil⟩

theorem reads_connect (hkey : datas.remotePubkey = some key) :
    Reads (checkConnectMessage L datas currency keyPair msg)
      [.conversion (WS2PConnectMessageV1.parse L msg currency).isSome,
        .field ((WS2PConnectMessageV1.parse L msg currency).any fun message =>
          WS2PConnectMessageV1.verify L message && message.pubkey = key)] := by
  unfold checkConnectMessage
  refine (Reads.except returns_expect_iff).bind fun message hrun => ?_
  rw [run_lift_eq_some_iff, expect_eq_ok_iff] at hrun
  rw [hrun, Option.any_some, hkey]
  by_cases hverify : WS2PConnectMessageV1.verify L message = true
  · rw [if_pos hverify, hverify, Bool.true_and]
    show Reads (if message.pubkey = key then _ else _) _
    by_cases hsigner : message.pubkey = key
    · rw [if_pos hsigner, decide_eq_true hsigner]
      cases datas.state
      all_goals exact Reads.of_run rfl complete_field_true
    · rw [if_neg hsigner, decide_eq_false hsigner]
      exact Reads.failure
  · rw [if_neg hverify, Bool.eq_false_iff.2 hverify, Bool.false_and]
    exact Reads.failure

theorem reads_ack :
    Reads (checkAckMessage L datas currency keyPair msg)
      [.conversion (WS2PAckMessageV1.parse L msg currency).isSome,
        .field ((WS2PAckMessageV1.parse L msg currency).any fun message =>
          WS2PAckMessageV1.verify L { message with challenge := datas.challenge })] := by
  unfold checkAckMessage
  refine (Reads.except returns_expect_iff).bind fun message hrun => ?_
  rw [run_lift_eq_some_iff, expect_eq_ok_iff] at hrun
  rw [hrun, Option.any_some]
  by_cases hverify : WS2PAckMessageV1.verify L { message with challenge := datas.challenge } = true
  · rw [if_pos hverify, hverify]
    cases stateAfterAck datas.state with
    | none => exact Reads.of_run rfl complete_field_true
    | some state => exact Reads.of_run rfl complete_field_true
  · rw [if_neg hverify, Bool.eq_false_iff.2 hverify]
    exact Reads.failure

theorem reads_ok (hkey : datas.remotePubkey = some key) :
    Reads (checkOkMessage L datas currency msg)
      [.conversion (WS2POkMessageV1.parse L msg currency).isSome] := by
  unfold checkOkMessage
  show Reads _ ([.conversion (WS2POkMessageV1.parse L msg currency).isSome] ++ [])
  refine (Reads.except returns_expect_iff).bind fun message _ => ?_
  rw [hkey]
  show Reads (if WS2POkMessageV1.verify L
    { message with challenge := datas.remoteChallenge, pubkey := key } = true then _ else _) _
  split
  · cases stateAfterOk datas.state with
    | none => exact Reads.pure _
    | some state => exact Reads.pure _
  · exact Reads.pure _

/-- Checking an authentication message ends as what it asks for tells. -/
theorem reads_auth (hkey : datas.remotePubkey = some key) :
    Reads (checkAuthMessage L datas currency keyPair msg)
      (authReadings L currency key datas.challenge msg) := by
  refine reads_text fun auth => ?_
  by_cases hconnect : auth = "CONNECT"
  · subst hconnect
    exact reads_connect hkey
  by_cases hack : auth = "ACK"
  · subst hack
    exact reads_ack
  by_cases hok : auth = "OK"
  · subst hok
    exact reads_ok hkey
  -- a name that is none of the three fails on both sides
  simp only
  exact Reads.failure

/-! ## Documents -/

/-- Whether the port of each endpoint of a peer fits. -/
def PeerFits (L : Libs) (body : Json) : Prop :=
  ∀ peer ∈ body.get "peer", ∀ rawPubkey ∈ peer.get "pubkey",
    (L.fromBase58 (rawPubkey.asStr.getD "")).isSome = true →
      ∀ endpoints ∈ peer.arr "endpoints", ∀ endpoint ∈ endpoints,
        Network.EndpointFits (endpoint.asStr.getD "")

instance (body : Json) : Decidable (PeerFits L body) :=
  inferInstanceAs (Decidable (∀ peer ∈ body.get "peer", ∀ rawPubkey ∈ peer.get "pubkey", _))

/-- Whether a document that a message holds is read: a block as what it asks for tells, and a
peer when the port of each of its endpoints fits. -/
def DocumentConverts (L : Libs) (msg : Json) : Prop :=
  ∀ body ∈ msg.get "body",
    (body.str "name" = some "BLOCK" → ∀ block ∈ body.get "block",
      Harmless (blockReadings L.toDocCrypto L.parseF64 block)) ∧
    (body.str "name" = some "PEER" → PeerFits L body)

instance : Decidable (DocumentConverts L msg) :=
  inferInstanceAs (Decidable (∀ body ∈ msg.get "body", _))

theorem returns_peer_iff (body : Json) :
    Returns (parseAndCheckPeerMessage L body) ↔ PeerFits L body := by
  unfold parseAndCheckPeerMessage PeerFits
  cases body.get "peer" with
  | none => exact iff_of_true ⟨_, rfl⟩ nofun
  | some peer =>
      simp only [Option.mem_some_iff, forall_eq']
      cases peer.get "pubkey" with
      | none => exact iff_of_true ⟨_, rfl⟩ nofun
      | some rawPubkey =>
          simp only [Option.mem_some_iff, forall_eq']
          cases hkey : L.fromBase58 (rawPubkey.asStr.getD "") with
          | none => exact iff_of_true ⟨_, rfl⟩ nofun
          | some pubkey =>
              simp only [Option.isSome_some, true_imp_iff]
              cases peer.arr "endpoints" with
              | none => exact iff_of_true ⟨_, rfl⟩ nofun
              | some endpoints =>
                  simp only [Option.mem_some_iff, forall_eq']
                  rw [returns_bind_iff_of_forall fun _ => returns_pure _,
                    returns_mapM_iff]
                  exact forall₂_congr fun endpoint _ => Network.returns_parseFromRaw_iff _ _ _ _ _

theorem returns_lift_iff {α : Type} {x : Run α} : Returns (OptionT.lift x).run ↔ Returns x :=
  returns_bind_iff_of_forall fun a => returns_pure (some a)

theorem returns_block_iff (body : Json) :
    Returns (checkBlock L body).run ↔ ∀ block ∈ body.get "block",
      Harmless (blockReadings L.toDocCrypto L.parseF64 block) := by
  unfold checkBlock
  cases body.get "block" with
  | none => exact iff_of_true ⟨_, rfl⟩ nofun
  | some block =>
      simp only [Option.mem_some_iff, forall_eq']
      exact ((reads_block L.parseF64 block).map _).harmless_iff

theorem returns_document_iff :
    Returns (checkDocument L msg).run ↔ DocumentConverts L msg := by
  unfold checkDocument DocumentConverts Json.str
  cases msg.get "body" with
  | none => exact iff_of_true ⟨none, rfl⟩ nofun
  | some body =>
      simp only [Option.mem_some_iff, forall_eq']
      rw [option_some_bind]
      cases body.get "name" with
      | none => exact iff_of_true ⟨_, rfl⟩ ⟨nofun, nofun⟩
      | some s =>
          dsimp only
          rw [Option.bind_some]
          cases s.asStr with
          | none => exact iff_of_true ⟨none, rfl⟩ ⟨nofun, nofun⟩
          | some name =>
              rw [option_some_bind, Option.some_inj, Option.some_inj]
              by_cases hblock : name = "BLOCK"
              · subst hblock
                rw [and_iff_left fun h => absurd h (by decide), imp_iff_right rfl]
                exact returns_block_iff body
              by_cases hpeer : name = "PEER"
              · subst hpeer
                rw [and_iff_right fun h => absurd h (by decide), imp_iff_right rfl]
                exact returns_lift_iff.trans (returns_peer_iff body)
              refine iff_of_true ?_ ⟨fun h => absurd h hblock, fun h => absurd h hpeer⟩
              split
              case h_1 => exact absurd rfl hblock
              case h_2 =>
                cases body.arr "heads" with
                | none => exact ⟨_, rfl⟩
                | some heads => exact ⟨_, rfl⟩
              case h_3 => exact absurd rfl hpeer
              all_goals exact ⟨_, rfl⟩

/-- A message with the field of a request is not read further. -/
theorem isSome_checkRequest : (checkRequest L msg).isSome = (msg.get "reqId").isSome := by
  unfold checkRequest
  cases msg.get "reqId" with
  | none => rfl
  | some reqId =>
      simp only [Option.bind_eq_bind, Option.bind_some]
      split
      case h_1 =>
        split
        case h_1 =>
          split
          all_goals rfl
        case h_2 => rfl
      case h_2 => rfl

theorem checkResponse_of_none (h : msg.get "resId" = none) : checkResponse L msg = none := by
  rw [checkResponse, h]
  rfl

/-- A message with the field of a response is read further only if it has no body. -/
theorem body_of_checkResponse {resId : Json} (hresId : msg.get "resId" = some resId)
    (h : checkResponse L msg = none) : msg.get "body" = none := by
  rw [checkResponse, hresId] at h
  simp only [Option.bind_eq_bind, Option.bind_some] at h
  cases hbody : msg.get "body" with
  | none => rfl
  | some body =>
      rw [hbody] at h
      split at h
      case h_1 =>
        dsimp only at h
        split at h
        all_goals cases h
      case h_2 => cases h

/-- What a text must meet for it to be read: an authentication message that it holds parses, and,
unless that answers it or it is a request or a response, the document that it holds is read. -/
def MessageConverts (L : Libs) (currency : String) (key : PubKey) (challenge : String)
    (msg : Json) : Prop :=
  Harmless (authReadings L currency key challenge msg) ∧
    (¬ Complete (authReadings L currency key challenge msg) →
      msg.get "reqId" = none → msg.get "resId" = none → DocumentConverts L msg)

instance {challenge : String} : Decidable (MessageConverts L currency key challenge msg) :=
  inferInstanceAs (Decidable (Harmless (authReadings L currency key challenge msg) ∧ _))

theorem returns_message_iff (hkey : datas.remotePubkey = some key) :
    Returns (parseAndCheckIncomingMessage L datas currency keyPair msg) ↔
      MessageConverts L currency key datas.challenge msg := by
  have hreads : Reads (checkAuthMessage L datas currency keyPair msg) _ := reads_auth hkey
  rw [MessageConverts, ← hreads.harmless_iff, ← hreads.complete_iff]
  unfold parseAndCheckIncomingMessage
  cases hauth : (checkAuthMessage L datas currency keyPair msg).run with
  | error e =>
      refine iff_of_false ?_ ?_
      · rintro ⟨_, h⟩
        cases h
      · rintro ⟨⟨_, h⟩, -⟩
        cases h
  | ok auth =>
      rw [and_iff_right ⟨auth, rfl⟩]
      cases auth with
      | some result => exact iff_of_true ⟨result, rfl⟩ fun h => absurd ⟨result, rfl⟩ h
      | none =>
          rw [imp_iff_right (by rintro ⟨_, h⟩; cases h)]
          rw [ok_bind]
          have hrequest : (checkRequest L msg).isSome = _ := isSome_checkRequest
          cases hreq : checkRequest L msg with
          | some payload =>
              rw [hreq] at hrequest
              refine iff_of_true ⟨_, rfl⟩ fun h => ?_
              rw [h] at hrequest
              cases hrequest
          | none =>
              rw [hreq, Option.isSome_none, eq_comm, Option.isSome_eq_false_iff,
                Option.isNone_iff_eq_none] at hrequest
              rw [imp_iff_right hrequest]
              cases hres : checkResponse L msg with
              | some payload =>
                  refine iff_of_true ⟨_, rfl⟩ fun h => ?_
                  rw [checkResponse_of_none h] at hres
                  cases hres
              | none =>
                  dsimp only
                  rw [returns_bind_iff_of_forall fun _ => returns_pure _, returns_document_iff]
                  cases hresId : msg.get "resId" with
                  | none => rw [imp_iff_right rfl]
                  | some resId =>
                      refine iff_of_true ?_ fun h => absurd h (Option.some_ne_none resId)
                      rw [DocumentConverts, body_of_checkResponse hresId hres]
                      intro body hbody
                      cases hbody

end WS2PConnectionMetaDatas

/-! ## Texts -/

open WS2PConnectionMetaDatas

/-- Receive some texts, one after another. -/
def receiveTexts (L : Libs) (currency : String) (keyPair : KeyPair) :
    WS2PConnectionMetaDatas → List String → Run (List WS2Pv1Msg)
  | _, [] => return []
  | datas, text :: texts => do
      let (datas, msg) ← onMessage L currency keyPair datas text
      let msgs ← receiveTexts L currency keyPair datas texts
      return msg :: msgs

/-- Whether a text is JSON that is read without stopping the process. -/
def TextConverts (L : Libs) (currency : String) (key : PubKey) (challenge text : String) : Prop :=
  ∃ msg ∈ L.jsonFromStr text, MessageConverts L currency key challenge msg

instance {challenge text : String} : Decidable (TextConverts L currency key challenge text) :=
  inferInstanceAs (Decidable (∃ msg ∈ L.jsonFromStr text, _))

theorem returns_onMessage_iff {nodeId : Network.NodeId} (hid : datas.remoteUuid = some nodeId)
    (hkey : datas.remotePubkey = some key) (text : String) :
    Returns (onMessage L currency keyPair datas text) ↔
      TextConverts L currency key datas.challenge text := by
  have hsender : datas.nodeFullId = .ok { nodeId, pubkey := key } := by
    rw [nodeFullId, hid, hkey]
    rfl
  unfold onMessage TextConverts
  rw [returns_bind_iff]
  refine exists_congr fun msg => and_congr expect_eq_ok_iff ?_
  rw [hsender, ok_bind, returns_bind_iff_of_forall fun _ => returns_pure _]
  exact returns_message_iff hkey

/-- The other end of a connection and its challenge stay the same. -/
theorem same_of_onMessage {text : String} {datas' : WS2PConnectionMetaDatas} {msg : WS2Pv1Msg}
    (hkey : datas.remotePubkey = some key)
    (h : onMessage L currency keyPair datas text = .ok (datas', msg)) :
    datas'.remoteUuid = datas.remoteUuid ∧ datas'.remotePubkey = datas.remotePubkey ∧
      datas'.challenge = datas.challenge := by
  rw [onMessage, bind_eq_ok_iff] at h
  rcases h with ⟨json, -, h⟩
  rw [bind_eq_ok_iff] at h
  rcases h with ⟨sender, -, h⟩
  rw [bind_eq_ok_iff] at h
  rcases h with ⟨⟨datas₁, payload⟩, hparse, h⟩
  cases h
  cases advances_of_parse hkey hparse with
  | same => exact ⟨rfl, rfl, rfl⟩
  | connect _ _ => exact ⟨rfl, rfl, rfl⟩
  | ack _ _ => exact ⟨rfl, rfl, rfl⟩
  | ok _ _ => exact ⟨rfl, rfl, rfl⟩

/-- Some texts are received without stopping the process exactly when each of them is JSON that is
read without stopping it: what the connection has come to does not matter. -/
theorem returns_receiveTexts_iff {nodeId : Network.NodeId} (hid : datas.remoteUuid = some nodeId)
    (hkey : datas.remotePubkey = some key) (texts : List String) :
    Returns (receiveTexts L currency keyPair datas texts) ↔
      ∀ text ∈ texts, TextConverts L currency key datas.challenge text := by
  induction texts generalizing datas with
  | nil => exact iff_of_true ⟨[], rfl⟩ (List.forall_mem_nil _)
  | cons text texts ih =>
      have hfirst : Returns (onMessage L currency keyPair datas text) ↔ _ :=
        returns_onMessage_iff hid hkey text
      rw [receiveTexts, List.forall_mem_cons, ← hfirst]
      constructor
      · intro h
        rcases returns_bind_iff.1 h with ⟨⟨datas', msg⟩, hmsg, hrest⟩
        rcases same_of_onMessage hkey hmsg with ⟨hid', hkey', hchallenge⟩
        rw [returns_bind_iff_of_forall fun _ => returns_pure _] at hrest
        rw [← hchallenge]
        exact ⟨⟨_, hmsg⟩, (ih (hid'.trans hid) (hkey'.trans hkey)).1 hrest⟩
      · rintro ⟨⟨⟨datas', msg⟩, hmsg⟩, hrest⟩
        rcases same_of_onMessage hkey hmsg with ⟨hid', hkey', hchallenge⟩
        rw [← hchallenge] at hrest
        refine returns_bind_iff.2 ⟨(datas', msg), hmsg, ?_⟩
        rw [returns_bind_iff_of_forall fun _ => returns_pure _]
        exact (ih (hid'.trans hid) (hkey'.trans hkey)).2 hrest

/-! ## Texts that a peer sends -/

/-- A peer with its endpoint. -/
def endpointPeer : Json := .object [("body", .object [("name", .string "PEER"),
  ("peer", .object [("pubkey", .string exampleKeyText),
    ("endpoints", .array [.string connectionEndpoint.rawEndpoint])])])]

/-- A message ACK without its fields. -/
def emptyAck : Json := .object [("auth", .string "ACK")]

/-- A block whose parameters are one number. -/
def shortParametersBlock : Json := .object [("body", .object [("name", .string "BLOCK"),
  ("block", .object [("number", .posInt 0), ("currency", .string "g1"),
    ("issuer", .string exampleKeyText), ("signature", .string connectSig.printed),
    ("hash", .string "000003D02B95D3296A4F06DBAC51775C4336A4DC09D0E958DC40033BE7E20F3D"),
    ("parameters", .string "0.0488")])])]

/-- The text of the message CONNECT of the endpoint. -/
def endpointConnectText : String :=
  "\x7b\"auth\":\"CONNECT\",\"pub\":\"" ++ exampleKeyText ++ "\",\"challenge\":\"" ++
    endpointChallenge ++ "\",\"sig\":\"" ++ connectSig.printed ++ "\"\x7d"

/-- The text of a peer with its endpoint. -/
def endpointPeerText : String :=
  "\x7b\"body\":\x7b\"name\":\"PEER\",\"peer\":\x7b\"pubkey\":\"" ++ exampleKeyText ++
    "\",\"endpoints\":[\"WS2P c1c39a0a i3.ifee.fr 80 /ws2p\"]\x7d\x7d\x7d"

/-- The text of a message ACK without its fields. -/
def emptyAckText : String := "\x7b\"auth\":\"ACK\"\x7d"

/-- The text of a block whose parameters are one number. -/
def shortParametersText : String :=
  "\x7b\"body\":\x7b\"name\":\"BLOCK\",\"block\":\x7b\"number\":0,\"currency\":\"g1\"," ++
    "\"issuer\":\"" ++ exampleKeyText ++ "\",\"signature\":\"" ++ connectSig.printed ++
    "\",\"hash\":\"000003D02B95D3296A4F06DBAC51775C4336A4DC09D0E958DC40033BE7E20F3D\"," ++
    "\"parameters\":\"0.0488\"\x7d\x7d\x7d"

/-- The other libraries, on the texts that the example peer sends. -/
def textLibs : Libs :=
  { connectionLibs with
    parseF64 := fun text => if text = "0.0488".toList then some 0x3fa8fc504816f007 else none
    jsonFromStr := fun text => [(endpointConnectText, endpointConnect),
      (endpointPeerText, endpointPeer), (emptyAckText, emptyAck),
      (shortParametersText, shortParametersBlock)].lookup text }

theorem returns_endpointTexts :
    Returns (receiveTexts textLibs "g1" ownKeyPair connectionDatas
      [endpointPeerText, endpointConnectText]) := by
  refine (returns_receiveTexts_iff rfl rfl _).2 ?_
  decide +kernel

/-- A text that is not JSON, a message ACK without its fields and a block whose parameters are
one number each stop the process. -/
theorem not_returns_peerTexts :
    ¬ Returns (receiveTexts textLibs "g1" ownKeyPair connectionDatas ["PING"]) ∧
      ¬ Returns (receiveTexts textLibs "g1" ownKeyPair connectionDatas [emptyAckText]) ∧
      ¬ Returns (receiveTexts textLibs "g1" ownKeyPair connectionDatas
        [shortParametersText]) := by
  refine ⟨?_, ?_, ?_⟩
  · decide +kernel
  · decide +kernel
  · decide +kernel

end Durs.Ws2pV1
