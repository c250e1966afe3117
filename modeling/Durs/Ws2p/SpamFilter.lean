/-
# The spam filter of a controller

Which messages of a connection are taken for spam.  The filter compares two readings of the clock
that are both taken while one message is processed, and not the times at which two messages arrive.
-/

import Durs.Ws2p.Establishment
import Durs.Ws2p.Robustness
import Mathlib.Data.List.Induction

namespace Durs

open RustStd Lib

namespace Ws2p

variable {codec : Codec} {controller controller' : WS2PController}

/-! ## The state of the filter -/

/-- The indicators of the filter. -/
structure SpamState where
  interval : Bool
  counter : Nat
deriving DecidableEq, Repr

/-- The indicators that a controller stores. -/
def WS2PController.spamState (controller : WS2PController) : SpamState :=
  ⟨controller.metaDatas.spamInterval, controller.metaDatas.spamCounter⟩

/-- A message is stalled when more than 80 seconds pass between the two readings of the clock. -/
def Stalled (clock : MessageClock) : Prop := clock.checked - clock.received > 80 * 1000000000

instance Stalled.decidable (clock : MessageClock) : Decidable (Stalled clock) :=
  inferInstanceAs (Decidable (_ > _))

/-- The indicators after a message. -/
def SpamState.next (state : SpamState) (clock : MessageClock) : SpamState :=
  if Stalled clock then
    if state.interval then ⟨true, state.counter + 1⟩ else ⟨true, 2⟩
  else ⟨false, 0⟩

theorem spamState_updateSpam (received : SystemTime) (clock : MessageClock) :
    ((controller.modifyMetaDatas fun m => { m with lastMessTime := received }).modifyMetaDatas
      fun m => updateSpam m (clock.checked - clock.received)).spamState =
      controller.spamState.next clock := by
  simp only [WS2PController.spamState, WS2PController.modifyMetaDatas, updateSpam, SpamState.next]
  by_cases hstalled : clock.checked - clock.received > 80 * 1000000000
  · have hnext : Stalled clock := hstalled
    rw [if_pos hstalled, if_pos hnext]
    by_cases hinterval : controller.metaDatas.spamInterval = true
    · simp [hinterval]
    · simp [hinterval]
  · have hnext : ¬ Stalled clock := hstalled
    rw [if_neg hstalled, if_neg hnext]

/-- A message is taken for spam when the counter reaches its limit with it. -/
theorem spam_iff {clock : MessageClock} :
    Spam controller clock ↔ 6 ≤ (controller.spamState.next clock).counter := by
  rw [← spamState_updateSpam clock.received, Spam, ← updateSpam_spamCounter _ clock.received]
  rfl

/-! ## Steps -/

theorem spamState_execOrder {order : Option WebsocketActionOrder} {wsOk : Bool}
    (h : execOrder controller order wsOk = .ok controller') :
    controller'.spamState = controller.spamState := by
  rw [WS2PController.spamState, (execOrder_ok h).2.1]
  rfl

theorem ValidMsgStep.spamState {msg : WS2Pv2Message} {result : Answer}
    (h : ValidMsgStep controller msg result) : result.1.spamState = controller.spamState := by
  have hupdate (newState : WS2PConnectionState) :
      (controller.updateConnState newState).1.spamState = controller.spamState := by
    rw [WS2PController.spamState, WS2PController.updateConnState_metaDatas]
    rfl
  cases h with
  | refused | connected | acknowledged => rfl
  | wrongChallenge | okReceived | secretFlagsFirst | secretFlagsLast => exact hupdate _
  | established | forwarded =>
      rw [thenNone, WS2PController.spamState, WS2PController.sendEvent_metaDatas]
      rfl

theorem spamState_processMsg {msg : WebsocketMessage} {result : Answer}
    (h : processMsg codec controller msg = .ok result) :
    result.1.spamState = controller.spamState := by
  cases msg with
  | str strMsg =>
      obtain rfl := Except.ok.inj h
      rfl
  | bin binMsg =>
      rw [processMsg, bind_eq_ok_iff] at h
      rcases h with ⟨parsed, -, h⟩
      cases parsed with
      | ok message =>
          cases message with
          | v0 => cases h
          | v1 => cases h
          | v2 validMsg => exact (processValidMsg_step h).spamState
      | error err =>
          simp only at h
          split at h
          case isTrue =>
            obtain rfl := Except.ok.inj h
            rfl
          case isFalse =>
            obtain rfl := Except.ok.inj h
            rfl

/-- A message moves the filter on, whatever it holds. -/
theorem spamState_processOnMessage {msg : WebsocketMessage} {clock : MessageClock}
    {result : Answer} (h : processOnMessage codec controller msg clock = .ok result) :
    result.1.spamState = controller.spamState.next clock := by
  rw [processOnMessage, bind_eq_ok_iff] at h
  rcases h with ⟨elapsed, helapsed, h⟩
  obtain ⟨-, rfl⟩ := durationSince_eq_ok_iff.1 helapsed
  have hnext := @spamState_updateSpam controller clock.received clock
  simp only at h
  split at h
  case isTrue =>
    obtain rfl := Except.ok.inj h
    exact hnext
  case isFalse => exact (spamState_processMsg h).trans hnext

/-- The readings of the clock for a message. -/
def ConnectionEvent.clock? : ConnectionEvent → Option MessageClock
  | .incoming (.onMessage _) clock _ => some clock
  | _ => none

/-- A message moves the filter on, and nothing else does. -/
theorem spamState_handle {event : ConnectionEvent}
    (h : handle codec controller event = .ok controller') :
    controller'.spamState = event.clock?.elim controller.spamState controller.spamState.next := by
  cases hclock : event.clock? with
  | some clock =>
      match event with
      | .incoming (.onMessage msg) clock' wsOk =>
          obtain rfl := Option.some.inj hclock
          rw [handle, bind_eq_ok_iff] at h
          rcases h with ⟨processed, hprocess, h⟩
          exact (spamState_execOrder h).trans (spamState_processOnMessage hprocess)
  | none =>
      rcases handle_cases h with ⟨msg, clock, wsOk, rfl⟩ | hchange
      · cases hclock
      · rw [WS2PController.spamState, hchange.metaDatas]
        rfl

/-! ## Runs -/

/-- The readings of the clock for the messages among some events, the last ones first. -/
def messageClocks (events : List ConnectionEvent) : List MessageClock :=
  (events.filterMap ConnectionEvent.clock?).reverse

/-- How many messages are stalled in a row, up to the last one. -/
def stalledInRow (clocks : List MessageClock) : Nat :=
  (clocks.takeWhile fun clock => Stalled clock).length

/-- At how many messages in a run the last one is, when every one but the first of the run arrives
less than 80 milliseconds after the one before. -/
def quickInRow : List SystemTime → Nat
  | [] => 0
  | [_] => 1
  | time :: earlier :: times =>
      if time < earlier + 80 * 1000000 then quickInRow (earlier :: times) + 1 else 1

/-- The indicators after some messages. -/
def SpamState.after (clocks : List MessageClock) : SpamState :=
  if stalledInRow clocks = 0 then ⟨false, 0⟩ else ⟨true, stalledInRow clocks + 1⟩

theorem SpamState.next_after (clock : MessageClock) (clocks : List MessageClock) :
    (SpamState.after clocks).next clock = SpamState.after (clock :: clocks) := by
  rw [SpamState.next, SpamState.after, SpamState.after]
  by_cases hstalled : Stalled clock
  · have hrow : stalledInRow (clock :: clocks) = stalledInRow clocks + 1 := by
      simp [stalledInRow, hstalled]
    rw [if_pos hstalled, hrow, if_neg (Nat.succ_ne_zero _)]
    by_cases hzero : stalledInRow clocks = 0
    · rw [if_pos hzero, hzero]
      rfl
    · rw [if_neg hzero]
      rfl
  · have hrow : stalledInRow (clock :: clocks) = 0 := by simp [stalledInRow, hstalled]
    rw [if_neg hstalled, if_pos hrow]

theorem six_le_after_iff {clocks : List MessageClock} :
    6 ≤ (SpamState.after clocks).counter ↔ 5 ≤ stalledInRow clocks := by
  rw [SpamState.after]
  split
  case isTrue hzero =>
    rw [hzero]
    decide
  case isFalse => exact Nat.succ_le_succ_iff

section

variable {id : WS2PControllerId} {challenge : Hash} {connectType : WS2Pv2ConnectType}
  {currency : String} {localNode : MySelfWs2pNode} {creationTime lastMessTime : SystemTime}
  {events : List ConnectionEvent}

/-- The indicators of a controller tell how many of the last messages were stalled. -/
theorem spamState_of_run
    (hrun : events.foldlM (handle codec) (ConnectionRun.new id challenge connectType currency
      localNode creationTime lastMessTime).controller = .ok controller) :
    controller.spamState = SpamState.after (messageClocks events) := by
  induction events using List.reverseRecOn generalizing controller with
  | nil =>
      obtain rfl := Except.ok.inj hrun
      rfl
  | append_singleton events event ih =>
      rw [List.foldlM_append, bind_eq_ok_iff] at hrun
      rcases hrun with ⟨before, hbefore, hrun⟩
      have hstep : handle codec before event = .ok controller := by
        simpa using hrun
      rw [spamState_handle hstep, ih hbefore, messageClocks, messageClocks, List.filterMap_append,
        List.reverse_append]
      cases hclock : event.clock? with
      | none =>
          rw [List.filterMap_cons_none hclock]
          rfl
      | some clock =>
          rw [List.filterMap_cons_some hclock]
          exact SpamState.next_after clock _

/-- What the filter should do with the message that arrives after others, the last of them first:
it drops the messages of a quick run from the sixth on, and none of a peer that always waits. -/
def FiltersSpam (controller : WS2PController) (clock : MessageClock)
    (earlier : List SystemTime) : Prop :=
  (Spam controller clock ↔ 6 ≤ quickInRow (clock.received :: earlier)) ∧
    ((clock.received :: earlier).IsChain (fun time before => before + 80 * 1000000 ≤ time) →
      ¬ Spam controller clock)

/-- The last message is the sixth of a quick run, or a later one, exactly when the last five are
stalled. -/
def QuickAsStalled (clocks : List MessageClock) : Prop :=
  6 ≤ quickInRow (clocks.map MessageClock.received) ↔ 5 ≤ stalledInRow clocks

theorem quickInRow_of_isChain {times : List SystemTime}
    (hwaits : times.IsChain fun time before => before + 80 * 1000000 ≤ time) :
    quickInRow times ≤ 1 := by
  match times with
  | [] => exact Nat.zero_le 1
  | [_] => exact le_refl 1
  | time :: before :: times =>
      rw [quickInRow, if_neg (not_lt_of_ge (List.isChain_cons_cons.1 hwaits).1)]

theorem filtersSpam_iff_of_after {clock : MessageClock} {clocks : List MessageClock}
    (hstate : controller.spamState = SpamState.after clocks) :
    FiltersSpam controller clock (clocks.map MessageClock.received) ↔
      QuickAsStalled (clock :: clocks) := by
  have hspam : Spam controller clock ↔ 5 ≤ stalledInRow (clock :: clocks) := by
    rw [spam_iff, hstate, SpamState.next_after, six_le_after_iff]
  rw [FiltersSpam, QuickAsStalled, hspam, List.map_cons]
  constructor
  · intro h
    exact h.1.symm
  · intro h
    refine ⟨h.symm, fun hwaits hstalled => ?_⟩
    have hquick := quickInRow_of_isChain hwaits
    have hlimit := h.2 hstalled
    omega

/-- In a run of events on a new controller, the filter does what it should with every message
exactly when each message is the sixth of a quick run, or a later one, just when the last five are
stalled. -/
theorem filtersSpam_iff
    (hrun : events.foldlM (handle codec) (ConnectionRun.new id challenge connectType currency
      localNode creationTime lastMessTime).controller = .ok controller') :
    (∀ events' msg clock wsOk controller,
      events' ++ [ConnectionEvent.incoming (.onMessage msg) clock wsOk] <+: events →
      events'.foldlM (handle codec) (ConnectionRun.new id challenge connectType currency localNode
        creationTime lastMessTime).controller = .ok controller →
      FiltersSpam controller clock ((messageClocks events').map MessageClock.received)) ↔
    ∀ events' msg clock wsOk,
      events' ++ [ConnectionEvent.incoming (.onMessage msg) clock wsOk] <+: events →
      QuickAsStalled (clock :: messageClocks events') := by
  constructor
  · intro h events' msg clock wsOk hprefix
    have hreturns : ∃ controller, events'.foldlM (handle codec) (ConnectionRun.new id challenge
        connectType currency localNode creationTime lastMessTime).controller = .ok controller := by
      rcases hprefix with ⟨later, rfl⟩
      rw [List.append_assoc, List.foldlM_append, bind_eq_ok_iff] at hrun
      rcases hrun with ⟨controller, hbefore, -⟩
      exact ⟨controller, hbefore⟩
    rcases hreturns with ⟨controller, hbefore⟩
    exact (filtersSpam_iff_of_after (spamState_of_run hbefore)).1
      (h events' msg clock wsOk controller hprefix hbefore)
  · intro h events' msg clock wsOk controller hprefix hbefore
    exact (filtersSpam_iff_of_after (spamState_of_run hbefore)).2
      (h events' msg clock wsOk hprefix)

end

theorem quickInRow_le_length (times : List SystemTime) : quickInRow times ≤ times.length := by
  induction times using quickInRow.induct with
  | case1 => exact le_refl 0
  | case2 => exact le_refl 1
  | case3 time earlier times hquick ih =>
      rw [quickInRow, if_pos hquick]
      exact Nat.succ_le_succ ih
  | case4 time earlier times hwaits =>
      rw [quickInRow, if_neg hwaits]
      exact Nat.succ_le_succ (Nat.zero_le _)

/-- Among less than five messages there is neither spam nor a message dropped. -/
theorem quickAsStalled_of_length {clocks : List MessageClock} (hfew : clocks.length < 5) :
    QuickAsStalled clocks := by
  have hquick := quickInRow_le_length (clocks.map MessageClock.received)
  have hrow : stalledInRow clocks ≤ clocks.length :=
    (List.takeWhile_sublist fun clock => decide (Stalled clock)).length_le
  rw [List.length_map] at hquick
  rw [QuickAsStalled]
  omega

theorem filtersSpam_toyNegotiation :
    ∃ controller msg clock,
      (toyConnection (toyNegotiation.take 3)).foldlM (handle toyCodec) toyStart.controller =
        .ok controller ∧
      ConnectionEvent.incoming (.onMessage msg) clock true ∈ toyConnection toyNegotiation ∧
      FiltersSpam controller clock [1, 1, 1] := by
  have hwhole : Returns
      ((toyConnection toyNegotiation).foldlM (handle toyCodec) toyStart.controller) := by decide
  have hbefore : Returns ((toyConnection (toyNegotiation.take 3)).foldlM (handle toyCodec)
      toyStart.controller) := by decide
  rcases hwhole with ⟨controller', hrun⟩
  rcases hbefore with ⟨controller, hbefore⟩
  have hcount : (messageClocks (toyConnection toyNegotiation)).length = 4 := by decide
  refine ⟨controller, (toyMessage 2 (.data .request [4])).msg, ⟨1, 1, 1⟩, hbefore, by decide, ?_⟩
  refine (filtersSpam_iff hrun).2 ?_ (toyConnection (toyNegotiation.take 3)) _ ⟨1, 1, 1⟩ true
    controller ⟨[], rfl⟩ hbefore
  intro events' msg clock wsOk hevents
  refine quickAsStalled_of_length ?_
  have hsublist := (hevents.sublist.filterMap ConnectionEvent.clock?).length_le
  rw [List.filterMap_append, List.length_append] at hsublist
  rw [messageClocks, List.length_reverse] at hcount
  rw [List.length_cons, messageClocks, List.length_reverse]
  have hlast : ([ConnectionEvent.incoming (.onMessage msg) clock wsOk].filterMap
      ConnectionEvent.clock?).length = 1 := rfl
  omega

/-- Messages that arrive every ten milliseconds. -/
def quickMessages (count : Nat) : List ConnectionEvent :=
  (List.range count).map fun k =>
    .incoming (.onMessage (.str ""))
      ⟨10 * 1000000 * k, 10 * 1000000 * k, 10 * 1000000 * k⟩ true

/-- The sixth of six messages that arrive every ten milliseconds is not dropped. -/
theorem not_filtersSpam_quickMessages :
    ∃ controller,
      (quickMessages 5).foldlM (handle toyCodec) toyStart.controller = .ok controller ∧
      quickMessages 6 = quickMessages 5 ++ [.incoming (.onMessage (.str ""))
        ⟨50 * 1000000, 50 * 1000000, 50 * 1000000⟩ true] ∧
      ¬ FiltersSpam controller ⟨50 * 1000000, 50 * 1000000, 50 * 1000000⟩
        ((messageClocks (quickMessages 5)).map MessageClock.received) := by
  refine ⟨_, rfl, rfl, fun h => ?_⟩
  have hspam := h.1.2 (by decide)
  revert hspam
  decide

/-! ## A clock that does not go back -/

/-- On a clock that does not go back, no message is stalled within a quick run. -/
theorem quickInRow_of_stalled {clock before : MessageClock} {clocks : List MessageClock}
    (hforward : before.checked ≤ clock.received) (hstalled : Stalled before) :
    quickInRow ((clock :: before :: clocks).map MessageClock.received) = 1 := by
  have hlate : before.checked - before.received > 80 * 1000000000 := hstalled
  have hwaits : ¬ clock.received < before.received + 80 * 1000000 := by
    intro hquick
    have hearly : before.checked < before.received + 80 * 1000000 :=
      lt_of_le_of_lt hforward hquick
    unfold SystemTime at *
    omega
  exact if_neg hwaits

/-- On a clock that does not go back, the filter is right just when there is no spam, and when the
last five messages are not stalled. -/
theorem quickAsStalled_iff {clocks : List MessageClock}
    (hforward : clocks.IsChain fun clock before => before.checked ≤ clock.received) :
    QuickAsStalled clocks ↔
      quickInRow (clocks.map MessageClock.received) < 6 ∧ stalledInRow clocks < 5 := by
  have hnot : 5 ≤ stalledInRow clocks → quickInRow (clocks.map MessageClock.received) < 6 := by
    intro hrow
    match clocks with
    | [] => cases hrow
    | [_] => exact Nat.succ_lt_succ (Nat.succ_pos 4)
    | clock :: before :: clocks =>
        by_cases hstalled : Stalled before
        · rw [quickInRow_of_stalled (List.isChain_cons_cons.1 hforward).1 hstalled]
          decide
        · have hshort : stalledInRow (clock :: before :: clocks) ≤ 1 := by
            simp only [stalledInRow, List.takeWhile_cons]
            split <;> simp [hstalled]
          omega
  rw [QuickAsStalled]
  omega

end Ws2p

end Durs
