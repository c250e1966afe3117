/-
# The quota of outgoing connections

Waves and peer cards compare the established endpoints with the quota, and leave out the tries that
are under way; a wave leaves out an established endpoint whose issuer it has met before.  The
established endpoints and the tries together stay within the quota as long as what is started fits
next to both.
-/

import Durs.Ws2pV1.Websockets

namespace Durs.Ws2pV1

open Lib RustStd Network WS2Pv1Module

variable {H : HeadLibs} {L : Libs} {m m' : WS2Pv1Module H} {id : NodeFullId}
  {env : Surroundings} {payload : WS2Pv1MsgPayload}

namespace WS2Pv1Module

/-! ## What a wave counts -/

/-- Whether an endpoint is counted after another: one of the same issuer that is not established
hides it, unless it is of this node. -/
def CountedAfter (m : WS2Pv1Module H) (first later : DbEndpoint) : Prop :=
  later.state = .established → first.state ≠ .established →
    first.ep.issuer = later.ep.issuer → later.ep.issuer = m.keyPair.pubkey

instance (m : WS2Pv1Module H) (first later : DbEndpoint) :
    Decidable (m.CountedAfter first later) :=
  inferInstanceAs (Decidable (_ → _ → _ → _))

/-- The entries in the order of a wave. -/
def entries (m : WS2Pv1Module H) (order : WaveOrder) : List DbEndpoint :=
  (order.endpoints.apply m.ws2pEndpoints.iter).map Prod.snd

/-- Whether no established endpoint is hidden from a wave. -/
def CountsAll (m : WS2Pv1Module H) (order : WaveOrder) : Prop :=
  (m.entries order).Pairwise m.CountedAfter

instance (m : WS2Pv1Module H) (order : WaveOrder) : Decidable (m.CountsAll order) :=
  inferInstanceAs (Decidable (List.Pairwise _ _))

/-- Whether an established endpoint is counted after what has been found. -/
def Uncovered (m : WS2Pv1Module H) (s : Survey) (dalEp : DbEndpoint) : Prop :=
  dalEp.state = .established → dalEp.ep.issuer = m.keyPair.pubkey ∨ dalEp.ep.issuer ∉ s.pubkeys

theorem not_contains_iff {s : HashSet PubKey} {pubkey : PubKey} :
    s.contains pubkey = false ↔ pubkey ∉ s := by
  rw [← Bool.not_eq_true, HashSet.contains_iff]

theorem survey_established {s : Survey} {dalEp : DbEndpoint} (hstate : dalEp.state = .established) :
    m.survey s dalEp =
      if dalEp.ep.issuer = m.keyPair.pubkey ∨ dalEp.ep.issuer ∉ s.pubkeys then
        { s with countEstablishedConnections := s.countEstablishedConnections + 1 }
      else s := by
  simp only [survey, hstate, not_contains_iff]

/-- What an endpoint that is not established does to what has been found. -/
theorem survey_other {s : Survey} {dalEp : DbEndpoint} (hstate : dalEp.state ≠ .established) :
    (m.survey s dalEp).countEstablishedConnections = s.countEstablishedConnections ∧
      (∀ pubkey, pubkey ∈ (m.survey s dalEp).pubkeys ↔
        pubkey = dalEp.ep.issuer ∨ pubkey ∈ s.pubkeys) ∧
      (m.survey s dalEp).reachableEndpoints.length + (m.survey s dalEp).unreachableEndpoints.length
        ≤ s.reachableEndpoints.length + s.unreachableEndpoints.length + 1 := by
  unfold survey
  split
  case isTrue =>
    split
    case h_1 hestablished => exact absurd hestablished hstate
    case h_2 | h_3 | h_4 =>
      refine ⟨rfl, fun pubkey => HashSet.mem_insert _ _ _, ?_⟩
      dsimp only
      split
      · rw [List.length_append, List.length_singleton]
        omega
      · omega
    case h_5 =>
      refine ⟨rfl, fun pubkey => HashSet.mem_insert _ _ _, ?_⟩
      dsimp only
      rw [List.length_append, List.length_singleton]
      omega
  case isFalse hskipped =>
    rw [not_or, not_contains_iff, not_not] at hskipped
    refine ⟨rfl, fun pubkey => (or_iff_right_of_imp ?_).symm, Nat.le_succ _⟩
    rintro rfl
    exact hskipped.2

/-- After an endpoint that is not established, those of its issuer are hidden as well. -/
theorem uncovered_survey_iff {s : Survey} {first later : DbEndpoint}
    (hfirst : first.state ≠ .established) :
    m.Uncovered (m.survey s first) later ↔ m.Uncovered s later ∧ m.CountedAfter first later := by
  have hmem := (survey_other (m := m) (s := s) hfirst).2.1 later.ep.issuer
  unfold Uncovered CountedAfter
  rw [hmem, not_or]
  by_cases hlater : later.state = .established
  · simp only [hlater, hfirst, ne_eq, not_false_eq_true, forall_const]
    grind
  · simp only [hlater, false_imp_iff, and_self]

/-- The established endpoints are counted at most once each, and all of them exactly when none is
hidden. -/
theorem count_surveys {l : List DbEndpoint} {s : Survey} :
    (l.foldl m.survey s).countEstablishedConnections ≤
        s.countEstablishedConnections + l.countP (·.state = .established) ∧
      ((l.foldl m.survey s).countEstablishedConnections =
          s.countEstablishedConnections + l.countP (·.state = .established) ↔
        (∀ dalEp ∈ l, m.Uncovered s dalEp) ∧ l.Pairwise m.CountedAfter) := by
  induction l generalizing s with
  | nil => simp
  | cons dalEp l ih =>
      rw [List.foldl_cons, List.countP_cons, List.forall_mem_cons, List.pairwise_cons]
      by_cases hstate : dalEp.state = .established
      · have hcounted : ∀ later ∈ l, m.CountedAfter dalEp later :=
          fun later _ _ hfirst => absurd hstate hfirst
        rw [if_pos (decide_eq_true hstate), survey_established hstate]
        split
        case isTrue hvisited =>
          rcases ih (s := { s with
            countEstablishedConnections := s.countEstablishedConnections + 1 }) with ⟨hle, hiff⟩
          rw [Nat.add_comm (l.countP _) 1, ← Nat.add_assoc]
          refine ⟨hle, hiff.trans ?_⟩
          exact and_congr (and_iff_right fun _ => hvisited).symm (and_iff_right hcounted).symm
        case isFalse hskipped =>
          have hle := (ih (s := s)).1
          refine ⟨Nat.le_succ_of_le hle, iff_of_false (fun heq => ?_) fun h => ?_⟩
          · rw [heq] at hle
            omega
          · exact hskipped (h.1.1 hstate)
      · have hsurvey := survey_other (m := m) (s := s) hstate
        rcases ih (s := m.survey s dalEp) with ⟨hle, hiff⟩
        rw [if_neg (by simpa using hstate), Nat.add_zero]
        rw [hsurvey.1] at hle hiff
        refine ⟨hle, hiff.trans ?_⟩
        have hfirst : m.Uncovered s dalEp := fun h => absurd h hstate
        simp only [uncovered_survey_iff hstate, forall_and, hfirst, true_and]
        rw [and_assoc]

/-- The endpoints that a wave may try are not established. -/
theorem length_surveys_le {l : List DbEndpoint} {s : Survey} :
    (l.foldl m.survey s).reachableEndpoints.length +
        (l.foldl m.survey s).unreachableEndpoints.length ≤
      s.reachableEndpoints.length + s.unreachableEndpoints.length +
        l.countP (·.state ≠ .established) := by
  induction l generalizing s with
  | nil => exact Nat.le_refl _
  | cons dalEp l ih =>
      rw [List.foldl_cons, List.countP_cons]
      refine Nat.le_trans ih ?_
      by_cases hstate : dalEp.state = .established
      · rw [survey_established hstate]
        split <;> exact Nat.add_le_add_left (Nat.le_add_right _ _) _
      · have hle := (survey_other (m := m) (s := s) hstate).2.2
        rw [if_pos (decide_eq_true hstate)]
        omega

/-- How many of the endpoints that are known are not established. -/
def countOthers (m : WS2Pv1Module H) : Nat :=
  m.ws2pEndpoints.iter.countP fun entry => entry.2.state ≠ .established

theorem countP_entries (order : WaveOrder) (p : DbEndpoint → Bool) :
    (m.entries order).countP p = m.ws2pEndpoints.iter.countP fun entry => p entry.2 := by
  rw [entries, List.countP_map, (order.endpoints.perm _).countP_eq]
  rfl

/-- A wave counts no more than the established endpoints, and all of them exactly when none is
hidden from it. -/
theorem count_surveyAll (m : WS2Pv1Module H) (order : WaveOrder) :
    (m.surveyAll order).countEstablishedConnections ≤ m.countEstablishedConnections ∧
      ((m.surveyAll order).countEstablishedConnections = m.countEstablishedConnections ↔
        m.CountsAll order) := by
  have hcount := count_surveys (m := m) (l := m.entries order) (s := Survey.empty)
  rw [countP_entries] at hcount
  simp only [Survey.empty, Nat.zero_add] at hcount
  refine ⟨hcount.1, hcount.2.trans (and_iff_right fun dalEp _ _ => Or.inr ?_)⟩
  exact HashSet.not_mem_empty _

theorem length_candidates_le (m : WS2Pv1Module H) (order : WaveOrder) :
    (m.candidates order).length ≤ m.countOthers := by
  have hlength := length_surveys_le (m := m) (l := m.entries order) (s := Survey.empty)
  rw [countP_entries] at hlength
  simp only [Survey.empty, List.length_nil, Nat.zero_add] at hlength
  refine Nat.le_trans (Nat.le_of_eq ?_) hlength
  unfold candidates surveyAll
  rw [List.length_append, List.length_reverse, List.length_reverse]
  congr 1
  split
  · rfl
  · exact (order.sort.perm _).length_eq

/-- A wave starts no more connections than there are free rooms and other endpoints. -/
theorem length_of_connectToKnowEndpoints {order : WaveOrder} {threads : List ConnectionThread}
    (h : m.connectToKnowEndpoints order = .ok threads) :
    threads.length ≤ subU64 m.conf.outcomingQuota
        (m.surveyAll order).countEstablishedConnections ∧
      threads.length ≤ m.countOthers := by
  have hlength := length_of_mapM h
  rw [List.length_take] at hlength
  have hle := length_candidates_le m order
  omega

end WS2Pv1Module

/-! ## Tries -/

/-- Counting after an element is replaced. -/
theorem countP_set_add {α : Type} {p : α → Bool} {l : List α} {i : Nat} {a : α} (b : α)
    (h : l[i]? = some a) :
    (l.set i b).countP p + (if p a then 1 else 0) = l.countP p + (if p b then 1 else 0) := by
  rcases List.getElem?_eq_some_iff.1 h with ⟨hi, rfl⟩
  rw [List.countP_set hi]
  by_cases hp : p l[i] = true
  · have hpos : 0 < l.countP p := List.countP_pos_iff.2 ⟨l[i], List.getElem_mem hi, hp⟩
    rw [if_pos hp]
    omega
  · rw [if_neg hp]
    omega

/-- Whether a connection may still become established. -/
def ConnectionThread.isTry (thread : ConnectionThread) : Bool :=
  thread.phase ≠ .ended && thread.datas.state ≠ .established

/-- A payload establishes an endpoint only when it ends a try. -/
theorem Handled.isTry {currency : String} {thread thread' : ConnectionThread}
    {message : Option WS2Pv1Msg} (h : Handled L currency thread thread' message) :
    (thread'.isTry = true → thread.isTry = true) ∧
      ∀ told ∈ message, told.payload.Establishes →
        thread.isTry = true ∧ thread'.isTry = false := by
  simp only [ConnectionThread.isTry, Bool.and_eq_true, decide_eq_true_eq, Bool.and_eq_false_iff,
    decide_eq_false_iff_not, not_not]
  cases h with
  | quiet hphase =>
      refine ⟨fun h => ⟨fun hended => h.1 (hphase hended), h.2⟩, fun told htold => ?_⟩
      cases htold
  | @tells phase payload id hphase hlocal =>
      refine ⟨fun h => ⟨hphase, h.2⟩, ?_⟩
      rintro _ ⟨⟩ hestablishes
      cases payload
      case websocketOk | negociationTimeout | timeout | close => cases hestablishes
      all_goals cases hlocal
  | @parsed id msg datas payload hphase hparsed =>
      have hopened : thread.phase ≠ .ended := by
        rw [hphase]
        exact nofun
      cases hparsed with
      | content hcontent =>
          refine ⟨fun h => h, ?_⟩
          rintro _ ⟨⟩ hestablishes
          cases payload
          case validConnectMessage | validAckMessage | validOk => cases hcontent
          all_goals cases hestablishes
      | connect hwaiting =>
          refine ⟨fun _ => ⟨hopened, by rw [hwaiting]; exact nofun⟩, ?_⟩
          rintro _ ⟨⟩ hestablishes
          cases hestablishes
      | ack hnext =>
          have hstate : thread.datas.state ≠ .established := by
            intro heq
            rw [heq] at hnext
            cases hnext
          refine ⟨fun _ => ⟨hopened, hstate⟩, ?_⟩
          rintro _ ⟨⟩ hestablishes
          exact ⟨⟨hopened, hstate⟩, Or.inr hestablishes⟩
      | ok hnext =>
          have hstate : thread.datas.state ≠ .established := by
            intro heq
            rw [heq] at hnext
            cases hnext
          refine ⟨fun _ => ⟨hopened, hstate⟩, ?_⟩
          rintro _ ⟨⟩ hestablishes
          exact ⟨⟨hopened, hstate⟩, Or.inr hestablishes⟩

namespace System

variable {s s' : System H}

/-- How many connections are under way. -/
def tries (s : System H) : Nat := s.threads.countP ConnectionThread.isTry

/-- Whether what a step starts fits next to the established endpoints and the tries. -/
def WithinQuota (L : Libs) (s : System H) : Step → Prop
  | .connection connection event _ => ∀ message ∈ s.sent L connection event,
      s.ws2pModule.started message.payload = 0 ∨
        s.ws2pModule.countEstablishedConnections + s.tries +
          s.ws2pModule.started message.payload ≤ s.ws2pModule.conf.outcomingQuota
  | .wave order => s.ws2pModule.CountsAll order ∧
      (s.tries = 0 ∨
        s.ws2pModule.countEstablishedConnections + s.tries + s.ws2pModule.countOthers ≤
          s.ws2pModule.conf.outcomingQuota)

instance (s : System H) : ∀ step, Decidable (s.WithinQuota L step)
  | .connection connection event _ =>
      inferInstanceAs (Decidable (∀ message ∈ s.sent L connection event, _))
  | .wave _ => inferInstanceAs (Decidable (_ ∧ _))

/-- What the quota bounds. -/
def Kept (s : System H) : Prop :=
  s.ws2pModule.countEstablishedConnections + s.tries ≤ s.ws2pModule.conf.outcomingQuota

theorem tries_append_le (threads started : List ConnectionThread) :
    (threads ++ started).countP ConnectionThread.isTry ≤
      threads.countP ConnectionThread.isTry + started.length := by
  rw [List.countP_append]
  exact Nat.add_le_add_left List.countP_le_length _

/-- A connection that is no longer a try is one try less, and none is added otherwise. -/
theorem tries_set {connection : Nat} {thread thread' : ConnectionThread}
    (hthread : s.threads[connection]? = some thread)
    (htry : thread'.isTry = true → thread.isTry = true) :
    (s.threads.set connection thread').countP ConnectionThread.isTry ≤ s.tries ∧
      (thread.isTry = true → thread'.isTry = false →
        (s.threads.set connection thread').countP ConnectionThread.isTry + 1 = s.tries) := by
  have hset := countP_set_add (p := ConnectionThread.isTry) thread' hthread
  unfold tries
  by_cases hafter : thread'.isTry = true
  · rw [if_pos hafter, if_pos (htry hafter)] at hset
    exact ⟨by omega, fun _ hends => absurd (hafter.symm.trans hends) nofun⟩
  · rw [if_neg hafter] at hset
    refine ⟨by omega, fun hbefore _ => ?_⟩
    rw [if_pos hbefore] at hset
    exact hset

/-- A message of a connection keeps the bound, when what it starts fits. -/
theorem kept_connectionStep {connection : Nat} {event : ConnectionEvent} (hkept : s.Kept)
    (hguard : s.WithinQuota L (.connection connection event env))
    (h : s.connectionStep L connection event env = .ok s') : s'.Kept := by
  rcases connectionStep_cases h with ⟨-, rfl⟩ |
    ⟨thread, thread', message, hthread, hhandled, hsent, hstep⟩
  · exact hkept
  rcases hhandled.isTry with ⟨htry, hends⟩
  rcases tries_set hthread htry with ⟨htries, hfewer⟩
  rcases hstep with ⟨rfl, rfl⟩ | ⟨⟨sender, payload⟩, ws2pModule, started, rfl, hreceive, rfl⟩
  · exact Nat.le_trans (Nat.add_le_add_left htries _) hkept
  · rcases effect_of_receiveMessage hreceive with ⟨⟨hconf, -⟩, hestablished, hstarted⟩
    have happend := tries_append_le (s.threads.set connection thread') started
    unfold Kept at hkept ⊢
    rw [hconf]
    show ws2pModule.countEstablishedConnections +
      (s.threads.set connection thread' ++ started).countP ConnectionThread.isTry ≤ _
    by_cases hestablishes : payload.Establishes
    · -- The endpoint that becomes established takes the place of the try.
      have hsucc := countEstablished_le_succ sender fun id' hstate =>
        (hestablished id' hstate).symm.imp_left And.left
      have hnone : s.ws2pModule.started payload = 0 := by
        cases payload
        case peerCard => cases hestablishes
        all_goals rfl
      have hends := hends _ rfl hestablishes
      have hone := hfewer hends.1 hends.2
      omega
    · have hsame := countEstablished_le fun id' hstate =>
        (hestablished id' hstate).resolve_right fun h => hestablishes h.2
      rcases hguard _ hsent with hnone | hfits
      · dsimp only at hnone
        omega
      · dsimp only at hfits
        omega

theorem kept_waveStep {order : WaveOrder} (hkept : s.Kept)
    (hguard : s.WithinQuota L (.wave order)) (h : s.waveStep order = .ok s') : s'.Kept := by
  rw [waveStep] at h
  split at h
  case isTrue hroom =>
    rw [bind_eq_ok_iff] at h
    rcases h with ⟨started, hwave, h⟩
    cases h
    rcases length_of_connectToKnowEndpoints hwave with ⟨hfree, hothers⟩
    rw [(count_surveyAll s.ws2pModule order).2.2 hguard.1, subU64,
      if_pos (Nat.le_of_lt hroom)] at hfree
    have htries := tries_append_le s.threads started
    show s.ws2pModule.countEstablishedConnections +
      (s.threads ++ started).countP ConnectionThread.isTry ≤ s.ws2pModule.conf.outcomingQuota
    rcases hguard.2 with hnone | hfits
    · unfold tries at hnone
      omega
    · unfold tries at hfits
      omega
  case isFalse =>
    cases h
    exact hkept

theorem kept_step {step : Step} (hkept : s.Kept) (hguard : s.WithinQuota L step)
    (h : s.step L step = .ok s') : s'.Kept := by
  cases step with
  | connection connection event env => exact kept_connectionStep hkept hguard h
  | wave order => exact kept_waveStep hkept hguard h

theorem conf_step {step : Step} (h : s.step L step = .ok s') :
    s'.ws2pModule.conf = s.ws2pModule.conf := by
  cases step with
  | connection connection event env =>
      rcases connectionStep_cases h with ⟨-, rfl⟩ |
        ⟨_, _, _, -, -, -, ⟨-, rfl⟩ | ⟨told, kept, started, -, hreceive, rfl⟩⟩
      · rfl
      · rfl
      · exact (effect_of_receiveMessage hreceive).1.1
  | wave order =>
      rw [step, waveStep] at h
      split at h
      case isTrue =>
        rw [bind_eq_ok_iff] at h
        rcases h with ⟨started, -, h⟩
        cases h
        rfl
      case isFalse =>
        cases h
        rfl

variable {conf : WS2PConf} {currency : String} {keyPair : KeyPair} {ssl : Bool}
  {saved : List (NodeFullId × DbEndpoint)} {order : WaveOrder}

theorem kept_start (h : start conf currency keyPair ssl saved order = .ok s) :
    s.Kept ∧ s.ws2pModule.conf = conf := by
  have hnone : s.ws2pModule.countEstablishedConnections = 0 := by
    rw [← length_establishedNodes, List.length_eq_zero_iff, List.eq_nil_iff_forall_not_mem]
    intro id hid
    exact stateOf_start_ne_established h id (mem_establishedNodes_iff.1 hid)
  rw [start, bind_eq_ok_iff] at h
  rcases h with ⟨ws2pEndpoints, -, h⟩
  rw [bind_eq_ok_iff] at h
  rcases h with ⟨threads, hwave, h⟩
  cases h
  refine ⟨?_, rfl⟩
  have hcount := Nat.le_trans (count_surveyAll _ order).1 (Nat.le_of_eq hnone)
  have hfree := (length_of_connectToKnowEndpoints hwave).1
  rw [Nat.le_zero.1 hcount, subU64, if_pos (Nat.zero_le _), Nat.sub_zero] at hfree
  show _ + threads.countP ConnectionThread.isTry ≤ conf.outcomingQuota
  rw [hnone, Nat.zero_add]
  exact Nat.le_trans List.countP_le_length hfree

/-- As long as what is started fits, the established endpoints stay within the quota, a wave counts
all of them, and its subtraction does not underflow. -/
theorem quota_kept (hstart : start conf currency keyPair ssl saved order = .ok s)
    (h : Reached s (step L) (WithinQuota L) s') :
    s'.ws2pModule.countEstablishedConnections ≤ conf.outcomingQuota ∧
      ∀ order,
        (s'.WithinQuota L (.wave order) →
          (s'.ws2pModule.surveyAll order).countEstablishedConnections =
            s'.ws2pModule.countEstablishedConnections) ∧
        (s'.ws2pModule.surveyAll order).countEstablishedConnections ≤ conf.outcomingQuota := by
  have hkept : s'.Kept ∧ s'.ws2pModule.conf = conf := by
    refine h.invariant (I := fun s => s.Kept ∧ s.ws2pModule.conf = conf) (kept_start hstart) ?_
    rintro before a after ⟨hbefore, hconf⟩ hguard hstep
    exact ⟨kept_step hbefore hguard hstep, (conf_step hstep).trans hconf⟩
  have hwithin : s'.ws2pModule.countEstablishedConnections ≤ conf.outcomingQuota :=
    hkept.2 ▸ Nat.le_trans (Nat.le_add_right _ _) hkept.1
  refine ⟨hwithin, fun order => ⟨fun hguard => ?_, ?_⟩⟩
  · exact (count_surveyAll _ order).2.2 hguard.1
  · exact Nat.le_trans (count_surveyAll _ order).1 hwithin

end System

theorem quota_kept_handshake : ∃ s, exampleStart = .ok s ∧
    ∃ s', handshakeSteps.foldlM (System.step wireLibs) s = .ok s' ∧
      s'.ws2pModule.countEstablishedConnections ≤ 10 ∧
      ∀ order, (s'.WithinQuota wireLibs (.wave order) →
          (s'.ws2pModule.surveyAll order).countEstablishedConnections =
            s'.ws2pModule.countEstablishedConnections) ∧
        (s'.ws2pModule.surveyAll order).countEstablishedConnections ≤ 10 := by
  have hruns : ∃ s, exampleStart = .ok s ∧
      (Throughout (System.step wireLibs) (System.WithinQuota wireLibs) s handshakeSteps ∧
        ∃ s', handshakeSteps.foldlM (System.step wireLibs) s = .ok s' ∧ True) := by
    decide +kernel
  rcases hruns with ⟨s, hstart, hthroughout, s', hrun, -⟩
  exact ⟨s, hstart, s', hrun,
    System.quota_kept hstart (Reached.init.of_throughout hthroughout hrun)⟩

/-! ## Two tries -/

/-- Another node of the owner of the endpoint. -/
def otherEndpoint : EndpointV1 :=
  { connectionEndpoint with
    nodeId := some 0xfb17fcd4
    host := "i4.ifee.fr"
    rawEndpoint := "WS2P fb17fcd4 i4.ifee.fr 80 /ws2p" }

/-- A module starts with room for one connection, and tries one of both nodes. -/
def twoNodesStart (keyPair : KeyPair) : Run (System connectionHeads) :=
  System.start { outcomingQuota := 1, preferedPubkeys := ∅,
                 syncEndpoints := [connectionEndpoint, otherEndpoint] }
    "g1" keyPair false [] sameOrder

/-- While the negotiation with one node is under way, the other node is tried. -/
def overlappingSteps : List Step :=
  [stepOf 0 .opened, receives 0 0, .wave sameOrder, stepOf 1 .opened, receives 1 0, receives 0 1,
    receives 0 2, receives 1 1, receives 1 2]

/-- The endpoints in the reverse order. -/
def reverseOrder : WaveOrder := ⟨⟨List.reverse, List.reverse_perm⟩, .same⟩

/-- When both nodes are of the owner of the module, both tries become established, although the
quota is one; when they are of another owner, a wave that meets the other node first leaves out the
established one. -/
theorem not_quota_kept :
    (∃ s, twoNodesStart exampleKeyPair = .ok s ∧
      ∃ s', overlappingSteps.foldlM (System.step wireLibs) s = .ok s' ∧
        s'.ws2pModule.countEstablishedConnections = 2) ∧
    ∃ s, twoNodesStart ownKeyPair = .ok s ∧
      ∃ s', handshakeSteps.foldlM (System.step wireLibs) s = .ok s' ∧
        (s'.ws2pModule.countEstablishedConnections = 1 ∧
          (s'.ws2pModule.surveyAll reverseOrder).countEstablishedConnections = 0) := by
  decide +kernel

end Durs.Ws2pV1
