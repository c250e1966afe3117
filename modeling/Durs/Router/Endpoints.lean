/-
# The endpoints reach the network modules

The broadcasting thread announces the endpoints when a registration brings the number of modules to
the one that is expected.  It does so before it knows the channel of that last module, and it does
not when the number is told after the last registration.
-/

import Mathlib.Data.List.Induction
import Durs.Router.Tables
import Durs.Lib.Reached

namespace Durs

open RustStd Lib

variable {Content : Type}

/-! ## The announcements that some messages make -/

/-- Whether a message tells the number of modules or is a registration. -/
def RouterThreadMessage.isArrival : RouterThreadMessage Content → Bool
  | .moduleMessage _ => false
  | _ => true

/-- The numbers of modules and the registrations, one after the other. -/
def arrivals (l : List (RouterThreadMessage Content)) : List (RouterThreadMessage Content) :=
  l.filter (·.isArrival)

/-- What is announced when a message comes after others: to the modules that registered before it,
as often as they say that they have the role, the endpoints of all modules. -/
def announcedBy (l : List (RouterThreadMessage Content)) :
    RouterThreadMessage Content → List (Sent Content)
  | .moduleRegistration module =>
      if (counts l).getLast? = some ((registrations l).length + 1) then
        (registrations l).flatMap fun other =>
          List.replicate (other.roles.count .interNodesNetwork)
            (other.sender, .modulesEndpoints ((registrations l ++ [module]).flatMap (·.endpoints)))
      else []
  | _ => []

/-- What is announced when some messages come after others. -/
def announcementsFrom (before : List (RouterThreadMessage Content)) :
    List (RouterThreadMessage Content) → List (Sent Content)
  | [] => []
  | mess :: l => announcedBy before mess ++ announcementsFrom (before ++ [mess]) l

/-- What is announced in all. -/
def announcements (l : List (RouterThreadMessage Content)) : List (Sent Content) :=
  announcementsFrom [] l

theorem announcementsFrom_concat (before l : List (RouterThreadMessage Content))
    (mess : RouterThreadMessage Content) :
    announcementsFrom before (l ++ [mess]) =
      announcementsFrom before l ++ announcedBy (before ++ l) mess := by
  induction l generalizing before with
  | nil =>
      rw [List.append_nil]
      exact List.append_nil _
  | cons first l ih =>
      have hrest := ih (before ++ [first])
      rw [List.append_assoc] at hrest
      rw [List.cons_append, announcementsFrom, hrest, announcementsFrom, List.append_assoc]
      rfl

theorem announcements_concat (l : List (RouterThreadMessage Content))
    (mess : RouterThreadMessage Content) :
    announcements (l ++ [mess]) = announcements l ++ announcedBy l mess :=
  announcementsFrom_concat [] l mess

/-- Nothing is announced as long as the number of modules is not reached. -/
theorem announcements_eq_nil {l : List (RouterThreadMessage Content)}
    (h : ∀ count ∈ counts l, (registrations l).length < count) : announcements l = [] := by
  induction l using List.reverseRecOn with
  | nil => rfl
  | append_singleton l mess ih =>
      rw [counts_append, registrations_append] at h
      have hbefore : announcements l = [] := by
        refine ih fun count hcount => ?_
        have hlt := h count (List.mem_append_left _ hcount)
        rw [List.length_append] at hlt
        omega
      rw [announcements_concat, hbefore]
      cases mess with
      | moduleRegistration module =>
          refine if_neg fun hlast => ?_
          have hlt := h _ (List.mem_append_left _ (List.mem_of_getLast? hlast))
          rw [List.length_append] at hlt
          exact absurd hlt (Nat.lt_irrefl _)
      | _ => rfl

theorem arrivals_append (l l' : List (RouterThreadMessage Content)) :
    arrivals (l ++ l') = arrivals l ++ arrivals l' := List.filter_append _ _

theorem registrations_arrivals (l : List (RouterThreadMessage Content)) :
    registrations (arrivals l) = registrations l := by
  rw [registrations, arrivals, List.filterMap_filter]
  refine List.filterMap_congr fun mess _ => ?_
  cases mess <;> rfl

theorem counts_arrivals (l : List (RouterThreadMessage Content)) :
    counts (arrivals l) = counts l := by
  rw [counts, arrivals, List.filterMap_filter]
  refine List.filterMap_congr fun mess _ => ?_
  cases mess <;> rfl

/-- Messages between modules have no part in the announcements. -/
theorem announcements_arrivals (l : List (RouterThreadMessage Content)) :
    announcements (arrivals l) = announcements l := by
  induction l using List.reverseRecOn with
  | nil => rfl
  | append_singleton l mess ih =>
      rw [announcements_concat, arrivals, List.filter_append]
      cases mess with
      | moduleMessage msg =>
          rw [← ih]
          exact (congrArg announcements (List.append_nil (arrivals l))).trans
            (List.append_nil _).symm
      | modulesCount count => exact (announcements_concat _ _).trans (congrArg (· ++ _) ih)
      | moduleRegistration module =>
          refine (announcements_concat (arrivals l) _).trans ?_
          rw [ih, announcedBy, counts_arrivals, registrations_arrivals, announcedBy]

/-! ## What each thread announces -/

def DursMsg.isModulesEndpoints : DursMsg Content → Bool
  | .modulesEndpoints _ => true
  | _ => false

/-- The endpoints among what is sent. -/
def endpointsSent (sent : List (Sent Content)) : List (Sent Content) :=
  sent.filter (·.2.isModulesEndpoints)

theorem endpointsSent_append (sent more : List (Sent Content)) :
    endpointsSent (sent ++ more) = endpointsSent sent ++ endpointsSent more :=
  List.filter_append _ _

theorem endpointsSent_eq_nil {sent : List (Sent Content)}
    (h : ∀ a ∈ sent, a.2.isModulesEndpoints = false) : endpointsSent sent = [] :=
  List.filter_eq_nil_iff.2 fun a ha => Bool.eq_false_iff.1 (h a ha)

theorem endpointsSent_eq_self {sent : List (Sent Content)}
    (h : ∀ a ∈ sent, a.2.isModulesEndpoints = true) : endpointsSent sent = sent :=
  List.filter_eq_self.2 h

theorem msg_of_mem_sendMsgToSeveralReceivers {msg : DursMsg Content}
    {receivers : List ModuleStaticName} {modulesSenders : HashMap ModuleStaticName Sender}
    {a : Sent Content} (h : a ∈ sendMsgToSeveralReceivers msg receivers modulesSenders) :
    a.2 = msg := by
  rcases List.mem_filterMap.1 h with ⟨name, -, hname⟩
  rcases Option.map_eq_some_iff.1 hname with ⟨sender, -, rfl⟩
  rfl

namespace BroadcastingThread

variable {t t' : BroadcastingThread Content} {sent : List (Sent Content)}
  {l : List (RouterThreadMessage Content)} {mess : RouterThreadMessage Content} {elapsed : Nat}

/-- No endpoints are kept to be replayed. -/
def KeepsNoEndpoints (t : BroadcastingThread Content) : Prop :=
  ∀ recv, ∀ msg ∈ t.pending recv, msg.isModulesEndpoints = false

/-- Messages to modules that registered go to their channels, as often as they are named. -/
theorem sent_of_channels {modulesSenders : HashMap ModuleStaticName Sender}
    {modules : List (ModuleRegistration Content)} (h : Channels modulesSenders modules)
    (times : ModuleRegistration Content → Nat) (msg : DursMsg Content) :
    ((modules.flatMap fun module => List.replicate (times module) module.staticName).filterMap
        fun name => (modulesSenders.get? name).map (·, msg)) =
      modules.flatMap fun module => List.replicate (times module) (module.sender, msg) := by
  rw [List.filterMap_flatMap]
  refine List.flatMap_congr fun module hmodule => ?_
  refine List.filterMap_replicate_of_some ?_
  rw [(h module.staticName module.sender).2 ⟨module, hmodule, rfl, rfl⟩]
  rfl

/-- The last module that is expected is not among the receivers. -/
theorem announcement_perm (h : t.Tables (registrations l) (counts l).getLast?)
    {module : ModuleRegistration Content}
    (hnew : ∀ other ∈ registrations l, other.staticName ≠ module.staticName)
    {announced : List (Sent Content)} (hannounced : t.announcement module = .ok announced) :
    announced.Perm (announcedBy l (.moduleRegistration module)) := by
  rw [announcement, h.expectedRegistrationsCount, registrationsCount_registered,
    h.registrationsCount] at hannounced
  rw [announcedBy]
  split at hannounced
  case isFalse hlast =>
    obtain rfl := Except.ok.inj hannounced
    rw [if_neg hlast]
  case isTrue hlast =>
    rcases bind_eq_ok_iff.1 hannounced with ⟨receivers, hreceivers, hreturn⟩
    obtain rfl := Except.ok.inj hreturn
    have hnames : ((t.registered module).roles.get? .interNodesNetwork).getD [] = _ :=
      h.holders_registered .interNodesNetwork
    rw [expect_eq_ok_iff.1 hreceivers, Option.getD_some, List.flatMap_append,
      List.flatMap_singleton] at hnames
    have hunknown : t.modulesSenders.get? module.staticName = none := by
      rw [Option.eq_none_iff_forall_ne_some]
      intro sender hsender
      rcases (h.senders _ _).1 hsender with ⟨other, hother, hname, -⟩
      exact hnew other hother hname
    have hnobody (msg : DursMsg Content) (times : Nat) :
        (List.replicate times module.staticName).filterMap
          (fun name => (t.modulesSenders.get? name).map (·, msg)) = [] := by
      refine List.filterMap_eq_nil_iff.2 fun name hname => ?_
      rw [List.eq_of_mem_replicate hname, hunknown]
      rfl
    rw [if_pos hlast]
    refine (sendMsgToSeveralReceivers_perm _ _ _).trans (.of_eq ?_)
    rw [hnames, List.filterMap_append, hnobody, List.append_nil, sent_of_channels h.senders,
      registered, h.localNodeEndpoints, List.flatMap_append, List.flatMap_singleton]

theorem mem_of_mem_storeMsgInPool {msg other : DursMsg Content} {recv : DursMsgReceiver}
    {poolMsgs : HashMap DursMsgReceiver (List (DursMsg Content))}
    (h : other ∈ ((storeMsgInPool elapsed msg poolMsgs).get? recv).getD []) :
    other ∈ (poolMsgs.get? recv).getD [] ∨ other = msg := by
  rw [storeMsgInPool] at h
  split at h
  · split at h
    case h_1 msgRecv _ =>
      rw [HashMap.getD_get?_push, List.mem_append] at h
      refine h.imp_right fun hlast => ?_
      split at hlast
      · exact List.mem_singleton.1 hlast
      · exact absurd hlast List.not_mem_nil
    case h_2 => exact Or.inl h
  · split at h
    · exact Or.inl h
    · exact absurd h List.not_mem_nil

/-- Events and requests alone are kept and relayed. -/
theorem relay_announces (hkeeps : t.KeepsNoEndpoints) (msg : DursMsg Content) :
    (t.relay elapsed msg).1.KeepsNoEndpoints ∧
      (endpointsSent (t.relay elapsed msg).2).Perm [] := by
  have hrelayed (hmsg : msg.isModulesEndpoints = false) (receivers : List ModuleStaticName) :
      KeepsNoEndpoints { t with poolMsgs := storeMsgInPool elapsed msg t.poolMsgs } ∧
        (endpointsSent (sendMsgToSeveralReceivers msg receivers t.modulesSenders)).Perm [] := by
    refine ⟨fun recv other hother => ?_, .of_eq (endpointsSent_eq_nil fun a ha => ?_)⟩
    · rcases mem_of_mem_storeMsgInPool hother with hold | rfl
      · exact hkeeps recv other hold
      · exact hmsg
    · rw [msg_of_mem_sendMsgToSeveralReceivers ha]
      exact hmsg
  cases msg with
  | event => exact hrelayed rfl _
  | request => exact hrelayed rfl _
  | _ => exact ⟨hkeeps, .nil⟩

/-- Of what is sent when a message is processed, the endpoints are those that are announced. -/
theorem process_announces (h : t.Tables (registrations l) (counts l).getLast?)
    (hkeeps : t.KeepsNoEndpoints)
    (hnodup : ((registrations (l ++ [mess])).map (·.staticName)).Nodup)
    (hrun : t.process elapsed mess = .ok (t', sent)) :
    t'.KeepsNoEndpoints ∧ (endpointsSent sent).Perm (announcedBy l mess) := by
  cases mess with
  | modulesCount count =>
      obtain ⟨rfl, rfl⟩ := Prod.mk.inj (Except.ok.inj hrun)
      exact ⟨hkeeps, .nil⟩
  | moduleRegistration module =>
      rcases register_eq_ok_iff.1 hrun with ⟨_, announced, hannouncement, rfl, rfl⟩
      have hreplayed : endpointsSent ((t.replayed module).map (module.sender, ·)) = [] := by
        refine endpointsSent_eq_nil fun a ha => ?_
        rcases List.mem_map.1 ha with ⟨msg, hmsg, rfl⟩
        rcases List.mem_append.1 hmsg with hevent | hrole
        · rcases List.mem_flatMap.1 hevent with ⟨event, -, hpending⟩
          exact hkeeps _ msg hpending
        · rcases List.mem_flatMap.1 hrole with ⟨role, -, hpending⟩
          exact hkeeps _ msg hpending
      have hannounced : endpointsSent announced = announced := by
        refine endpointsSent_eq_self fun a ha => ?_
        rcases modulesEndpoints_of_announcement hannouncement a ha with ⟨endpoints, heq⟩
        rw [heq]
        rfl
      rw [endpointsSent_append, hreplayed, hannounced]
      exact ⟨hkeeps, announcement_perm h (name_ne_of_nodup hnodup) hannouncement⟩
  | moduleMessage msg =>
      by_cases hstop : msg = .stop
      · subst hstop
        obtain ⟨rfl, rfl⟩ := Prod.mk.inj (Except.ok.inj hrun)
        exact ⟨hkeeps, .nil⟩
      · have hrelay := hrun.symm.trans (process_of_ne_stop elapsed t hstop)
        obtain rfl : t' = (t.relay elapsed msg).1 := congrArg Prod.fst (Except.ok.inj hrelay)
        obtain rfl : sent = (t.relay elapsed msg).2 := congrArg Prod.snd (Except.ok.inj hrelay)
        exact relay_announces hkeeps msg

end BroadcastingThread

namespace RouterThread

variable {t : RouterThread Content} {runDurationInSecs : Nat}

/-- No endpoints wait for their addressee. -/
def KeepsNoEndpoints (t : RouterThread Content) : Prop :=
  ∀ name, ∀ msg ∈ (t.poolMsgs.get? name).getD [], msg.isModulesEndpoints = false

/-- The router thread keeps and sends responses, and asks the modules to stop. -/
theorem dispatch_announces (hkeeps : t.KeepsNoEndpoints) (elapsed : Nat)
    (mess : RouterThreadMessage Content) :
    (t.dispatch elapsed mess).1.KeepsNoEndpoints ∧
      endpointsSent (t.dispatch elapsed mess).2.sent = [] := by
  cases mess with
  | modulesCount => exact ⟨hkeeps, rfl⟩
  | moduleRegistration module =>
      constructor
      · intro name msg hmsg
        have hget : msg ∈ ((t.poolMsgs.remove module.staticName).get? name).getD [] := hmsg
        rw [HashMap.get?_remove] at hget
        split at hget
        · exact absurd hget List.not_mem_nil
        · exact hkeeps name msg hget
      · refine endpointsSent_eq_nil fun a ha => ?_
        rcases List.mem_map.1 ha with ⟨msg, hmsg, rfl⟩
        exact hkeeps _ msg hmsg
  | moduleMessage msg =>
      cases msg with
      | stop =>
          refine ⟨hkeeps, endpointsSent_eq_nil fun a ha => ?_⟩
          rcases List.mem_map.1 ha with ⟨entry, -, rfl⟩
          rfl
      | response resFrom resTo reqId content =>
          rw [dispatch]
          split
          case h_1 => exact ⟨hkeeps, rfl⟩
          case h_2 =>
            split
            case isTrue =>
              refine ⟨fun name msg hmsg => ?_, rfl⟩
              rw [HashMap.getD_get?_push, List.mem_append] at hmsg
              rcases hmsg with hold | hlast
              · exact hkeeps name msg hold
              · split at hlast
                · rw [List.mem_singleton.1 hlast]
                  rfl
                · exact absurd hlast List.not_mem_nil
            case isFalse =>
              split
              case isTrue => exact ⟨hkeeps, rfl⟩
              case isFalse =>
                exact ⟨fun name msg hmsg => absurd hmsg List.not_mem_nil, rfl⟩
      | _ => exact ⟨hkeeps, rfl⟩

theorem arrivals_dispatch (elapsed : Nat) (mess : RouterThreadMessage Content) :
    arrivals (t.dispatch elapsed mess).2.relayed = arrivals [mess] := by
  rw [relayed_dispatch]
  cases mess with
  | moduleMessage msg => cases msg <;> rfl
  | _ => rfl

/-- A turn relays what arrives, and perhaps asks the broadcasting thread to stop. -/
theorem handle_announces (hkeeps : t.KeepsNoEndpoints) (elapsed : Elapsed)
    (mess : Option (RouterThreadMessage Content)) :
    (t.handle runDurationInSecs elapsed mess).1.KeepsNoEndpoints ∧
      endpointsSent (t.handle runDurationInSecs elapsed mess).2.sent = [] ∧
      arrivals (t.handle runDurationInSecs elapsed mess).2.relayed = arrivals mess.toList := by
  have hturn (next : RouterThread Content) (output : RouterOutput Content)
      (h : next.KeepsNoEndpoints ∧ endpointsSent output.sent = [] ∧
        arrivals output.relayed = arrivals mess.toList)
      (hhandle : t.handle runDurationInSecs elapsed mess =
        if next.running = true ∧ runDurationInSecs > 0 ∧ elapsed.after > runDurationInSecs then
          ({ next with running := false },
            { output with relayed := output.relayed ++ [.moduleMessage .stop] })
        else (next, output)) :
      (t.handle runDurationInSecs elapsed mess).1.KeepsNoEndpoints ∧
        endpointsSent (t.handle runDurationInSecs elapsed mess).2.sent = [] ∧
        arrivals (t.handle runDurationInSecs elapsed mess).2.relayed = arrivals mess.toList := by
    rw [hhandle]
    split
    case isTrue =>
      refine ⟨h.1, h.2.1, ?_⟩
      rw [← h.2.2]
      exact (List.filter_append _ _).trans (List.append_nil _)
    case isFalse => exact h
  cases mess with
  | none => exact hturn t ⟨[], []⟩ ⟨hkeeps, rfl, rfl⟩ rfl
  | some mess =>
      have hdispatch := dispatch_announces hkeeps elapsed.during mess
      exact hturn _ _ ⟨hdispatch.1, hdispatch.2, arrivals_dispatch elapsed.during mess⟩ rfl

end RouterThread

/-! ## Both threads -/

namespace Router

variable {s s' : Router Content} {runDurationInSecs : Nat}

/-- Of what has been sent, the endpoints are those that the processed messages announce. -/
structure Announces (s : Router Content) : Prop where
  arrived : arrivals (s.broadcasted ++ s.queue) = arrivals s.taken
  tables : s.broadcasting.Tables (registrations s.broadcasted) (counts s.broadcasted).getLast?
  keeps : s.thread.KeepsNoEndpoints ∧ s.broadcasting.KeepsNoEndpoints
  delivered : (endpointsSent s.delivered).Perm (announcements s.broadcasted)

theorem announces_default : (default : Router Content).Announces where
  arrived := rfl
  tables := BroadcastingThread.tables_default
  keeps := ⟨fun _ _ hmsg => absurd hmsg List.not_mem_nil,
    fun _ _ hmsg => absurd hmsg List.not_mem_nil⟩
  delivered := .nil

/-- What has been taken stays in the history. -/
theorem prefix_taken {op : RouterOp Content} (h : s.step runDurationInSecs op = .ok s') :
    s.taken <+: s'.taken := by
  cases op with
  | take elapsed mess =>
      rw [step] at h
      split at h
      · obtain rfl := Except.ok.inj h
        exact List.prefix_append _ _
      · obtain rfl := Except.ok.inj h
        exact List.prefix_rfl
  | broadcast elapsed =>
      rw [step] at h
      split at h
      · obtain rfl := Except.ok.inj h
        exact List.prefix_rfl
      · split at h
        · rcases bind_eq_ok_iff.1 h with ⟨next, -, hreturn⟩
          obtain rfl := Except.ok.inj hreturn
          exact List.prefix_rfl
        · obtain rfl := Except.ok.inj h
          exact List.prefix_rfl

/-- Any turn keeps to the announcements, when the modules have distinct names. -/
theorem Announces.step (h : s.Announces) {op : RouterOp Content}
    (hnodup : ((registrations s'.taken).map (·.staticName)).Nodup)
    (hrun : s.step runDurationInSecs op = .ok s') : s'.Announces := by
  cases op with
  | take elapsed mess =>
      rw [Router.step] at hrun
      split at hrun
      case isFalse =>
        obtain rfl := Except.ok.inj hrun
        exact h
      case isTrue =>
        obtain rfl := Except.ok.inj hrun
        let output := (s.thread.handle runDurationInSecs elapsed mess).2
        have hturn : _ ∧ endpointsSent output.sent = [] ∧
            arrivals output.relayed = arrivals mess.toList :=
          RouterThread.handle_announces h.keeps.1 elapsed mess
        rcases hturn with ⟨hkeeps, hsent, hrelayed⟩
        refine ⟨?_, h.tables, ⟨hkeeps, h.keeps.2⟩, ?_⟩
        · show arrivals (s.broadcasted ++ (s.queue ++ output.relayed)) =
            arrivals (s.taken ++ mess.toList)
          rw [← List.append_assoc, arrivals_append, h.arrived, arrivals_append, hrelayed]
        · show (endpointsSent (s.delivered ++ output.sent)).Perm (announcements s.broadcasted)
          rw [endpointsSent_append, hsent, List.append_nil]
          exact h.delivered
  | broadcast elapsed =>
      rw [Router.step] at hrun
      split at hrun
      case h_1 =>
        obtain rfl := Except.ok.inj hrun
        exact h
      case h_2 mess queue hqueue =>
        split at hrun
        case isFalse =>
          obtain rfl := Except.ok.inj hrun
          exact h
        case isTrue =>
          rcases bind_eq_ok_iff.1 hrun with ⟨⟨broadcasting, sent⟩, hhandle, hreturn⟩
          obtain rfl := Except.ok.inj hreturn
          have hprocess := BroadcastingThread.process_of_handle hhandle
          have harrived := h.arrived
          rw [hqueue] at harrived
          have hnames : ((registrations (s.broadcasted ++ [mess])).map (·.staticName)).Nodup := by
            refine hnodup.sublist (List.Sublist.map _ ?_)
            rw [← registrations_arrivals s.taken, ← harrived, registrations_arrivals]
            exact ((List.singleton_sublist.2 List.mem_cons_self).append_left _).filterMap _
          rcases BroadcastingThread.process_announces h.tables h.keeps.2 hnames hprocess
            with ⟨hkeeps, hsent⟩
          refine ⟨?_, h.tables.process hnames hprocess, ⟨h.keeps.1, hkeeps⟩, ?_⟩
          · rw [List.append_assoc]
            exact harrived
          · rw [endpointsSent_append, announcements_concat]
            exact h.delivered.append hsent

theorem announces_of_run {ops : List (RouterOp Content)}
    (hrun : ops.foldlM (step runDurationInSecs) default = .ok s)
    (hnodup : ((registrations s.taken).map (·.staticName)).Nodup) : s.Announces := by
  refine RustStd.foldlM_preserves (P := fun s =>
    ((registrations s.taken).map (·.staticName)).Nodup → s.Announces) ?_
    (fun _ => announces_default) hrun hnodup
  intro s op s' _ h hstep hnodup'
  refine (h (hnodup'.sublist ?_)).step hnodup' hstep
  exact ((prefix_taken hstep).sublist.filterMap _).map _

/-! ## What the network modules are sent -/

/-- Each network module has been sent the endpoints of all modules, once. -/
def ToldOnce (s : Router Content) : Prop :=
  ∀ module ∈ registrations s.taken, .interNodesNetwork ∈ module.roles →
    (endpointsSent s.delivered).filter (·.1 = module.sender) =
      [(module.sender, .modulesEndpoints ((registrations s.taken).flatMap (·.endpoints)))]


section SentTo

variable {modules : List (ModuleRegistration Content)} (times : ModuleRegistration Content → Nat)
  (msg : DursMsg Content)

theorem sent_to_nobody {sender : Sender} (h : ∀ other ∈ modules, other.sender ≠ sender) :
    (modules.flatMap fun other => List.replicate (times other) (other.sender, msg)).filter
      (·.1 = sender) = [] := by
  refine List.filter_eq_nil_iff.2 fun a ha hsender => ?_
  rcases List.mem_flatMap.1 ha with ⟨other, hother, hreplicate⟩
  rw [List.eq_of_mem_replicate hreplicate] at hsender
  exact h other hother (of_decide_eq_true hsender)

/-- A module is sent what is sent under its own name only. -/
theorem sent_to_module (hsenders : (modules.map (·.sender)).Nodup)
    {module : ModuleRegistration Content} (hmodule : module ∈ modules) :
    (modules.flatMap fun other => List.replicate (times other) (other.sender, msg)).filter
      (·.1 = module.sender) = List.replicate (times module) (module.sender, msg) := by
  induction modules with
  | nil => exact absurd hmodule List.not_mem_nil
  | cons first modules ih =>
      rcases List.nodup_cons.1 hsenders with ⟨hfirst, hrest⟩
      rw [List.flatMap_cons, List.filter_append, List.filter_replicate]
      rcases List.mem_cons.1 hmodule with rfl | hmem
      · have hnobody : ∀ other ∈ modules, other.sender ≠ module.sender := fun other hother heq =>
          hfirst (List.mem_map.2 ⟨other, hother, heq⟩)
        rw [sent_to_nobody times msg hnobody, List.append_nil]
        exact if_pos (decide_eq_true rfl)
      · have hne : first.sender ≠ module.sender := fun heq =>
          hfirst (List.mem_map.2 ⟨module, hmem, heq.symm⟩)
        rw [decide_eq_false hne, if_neg Bool.false_ne_true, List.nil_append]
        exact ih hrest hmem

end SentTo

/-- Each network module lists its role once, and the last to arrive is the registration of a module
that is not one. -/
def HeardInTime (l : List (RouterThreadMessage Content)) : Prop :=
  ∀ module ∈ registrations l, .interNodesNetwork ∈ module.roles →
    module.roles.count .interNodesNetwork = 1 ∧
      ∃ last, (arrivals l).getLast? = some (.moduleRegistration last) ∧
        .interNodesNetwork ∉ last.roles

section LastArrival

variable {before : List (RouterThreadMessage Content)} {modules : List (ModuleRegistration Content)}
  {last : ModuleRegistration Content} {endpointsToldTo : List (Sent Content)}
  {msg : DursMsg Content}

/-- When the number of modules comes last, nothing is announced. -/
theorem announcements_countLast {count n : Nat}
    (hcount : counts before ++ counts ([.modulesCount count] : List (RouterThreadMessage Content)) =
      [n]) :
    announcements (before ++ [.modulesCount count]) = [] := by
  have hbefore : counts before = [] := by
    rcases List.append_eq_singleton_iff.1 hcount with ⟨hnil, -⟩ | ⟨-, hcons⟩
    · exact hnil
    · cases hcons
  rw [announcements_concat, announcements_eq_nil (hbefore ▸ List.forall_mem_nil _)]
  rfl

/-- When a module comes last, all endpoints are announced to the network modules before it. -/
theorem announcements_registrationLast
    (hcount : counts before = [(registrations before).length + 1]) :
    announcements (before ++ [.moduleRegistration last]) =
      (registrations before).flatMap fun other =>
        List.replicate (other.roles.count .interNodesNetwork)
          (other.sender, .modulesEndpoints
            ((registrations before ++ [last]).flatMap (·.endpoints))) := by
  have hnone : announcements before = [] := by
    refine announcements_eq_nil fun count hmem => ?_
    rw [hcount, List.mem_singleton] at hmem
    omega
  rw [announcements_concat, hnone, List.nil_append, announcedBy, hcount]
  exact if_pos rfl

/-- What is sent for each role of the modules before the last one reaches each network module once
when all of them list their role once, and the last one is none of them. -/
theorem toldOnce_before_iff (hsenders : ((modules ++ [last]).map (·.sender)).Nodup)
    (hsent : endpointsToldTo.Perm (modules.flatMap fun other =>
      List.replicate (other.roles.count .interNodesNetwork) (other.sender, msg))) :
    (∀ module ∈ modules ++ [last], .interNodesNetwork ∈ module.roles →
      endpointsToldTo.filter (·.1 = module.sender) = [(module.sender, msg)]) ↔
    ∀ module ∈ modules ++ [last], .interNodesNetwork ∈ module.roles →
      module.roles.count .interNodesNetwork = 1 ∧ .interNodesNetwork ∉ last.roles := by
  rw [List.map_append, List.nodup_append] at hsenders
  have hlast : endpointsToldTo.filter (·.1 = last.sender) = [] := by
    rw [← List.perm_nil]
    refine (hsent.filter _).trans (.of_eq (sent_to_nobody _ _ fun other hother heq => ?_))
    exact hsenders.2.2 _ (List.mem_map_of_mem hother) _ (List.mem_singleton_self _) heq
  have hothers : ∀ module ∈ modules, endpointsToldTo.filter (·.1 = module.sender) =
      List.replicate (module.roles.count .interNodesNetwork) (module.sender, msg) := by
    intro module hmodule
    rw [← List.perm_replicate]
    exact (hsent.filter _).trans (.of_eq (sent_to_module _ _ hsenders.1 hmodule))
  have hmem : last ∈ modules ++ [last] := List.mem_append_right _ (List.mem_singleton_self last)
  have hold : ∀ module ∈ modules ++ [last], .interNodesNetwork ∈ module.roles →
      .interNodesNetwork ∉ last.roles → module ∈ modules := by
    intro module hmodule hrole hnot
    rcases List.mem_append.1 hmodule with hold | hnew
    · exact hold
    · exact absurd (List.mem_singleton.1 hnew ▸ hrole) hnot
  constructor
  · intro h module hmodule hrole
    have hnot : .interNodesNetwork ∉ last.roles := fun hrole' => by
      rw [h last hmem hrole'] at hlast
      cases hlast
    have honce := h module hmodule hrole
    rw [hothers module (hold module hmodule hrole hnot)] at honce
    exact ⟨List.length_replicate.symm.trans (congrArg List.length honce), hnot⟩
  · intro h module hmodule hrole
    obtain ⟨hcount, hnot⟩ := h module hmodule hrole
    rw [hothers module (hold module hmodule hrole hnot), hcount]
    rfl

end LastArrival

/-- When all modules have registered and everything has been processed, each network module has been
sent all endpoints once if and only if the last module to arrive is none of them, and the number of
modules arrived before it. -/
theorem toldOnce_iff (runDurationInSecs : Nat) (ops : List (RouterOp Content))
    (s : Router Content) (hrun : ops.foldlM (step runDurationInSecs) default = .ok s)
    (hnames : ((registrations s.taken).map (·.staticName)).Nodup)
    (hsenders : ((registrations s.taken).map (·.sender)).Nodup)
    (hcount : counts s.taken = [(registrations s.taken).length]) (hqueue : s.queue = []) :
    s.ToldOnce ↔ HeardInTime s.taken := by
  have hannounces := announces_of_run hrun hnames
  have harrived := hannounces.arrived
  rw [hqueue, List.append_nil] at harrived
  have hdelivered := hannounces.delivered
  rw [← announcements_arrivals, harrived] at hdelivered
  rw [ToldOnce, HeardInTime, ← registrations_arrivals s.taken]
  rw [← registrations_arrivals s.taken] at hsenders hcount
  rw [← counts_arrivals s.taken] at hcount
  have hmess : ∀ mess ∈ arrivals s.taken, mess.isArrival = true := fun mess hmem =>
    List.of_mem_filter hmem
  generalize arrivals s.taken = arrived at *
  rcases List.eq_nil_or_concat arrived with rfl | ⟨before, mess, rfl⟩
  · cases hcount
  rw [List.concat_eq_append] at *
  rw [List.getLast?_concat]
  rw [counts_append, registrations_append] at hcount
  cases mess with
  | moduleMessage msg =>
      exact absurd (hmess _ (List.mem_append_right _ (List.mem_singleton_self _)))
        Bool.false_ne_true
  | modulesCount count =>
      rw [announcements_countLast hcount, List.perm_nil] at hdelivered
      rw [hdelivered]
      refine forall₃_congr fun module _ _ => iff_of_false nofun ?_
      rintro ⟨-, last, hlast, -⟩
      cases hlast
  | moduleRegistration last =>
      have hbefore : counts before = [(registrations before).length + 1] := by
        rw [List.length_append] at hcount
        exact (List.append_nil _).symm.trans hcount
      have hregistrations : registrations (before ++ [.moduleRegistration last]) =
        registrations before ++ [last] := registrations_append _ _
      rw [announcements_registrationLast hbefore] at hdelivered
      rw [hregistrations] at hsenders ⊢
      rw [toldOnce_before_iff hsenders hdelivered]
      refine forall₃_congr fun module _ _ => and_congr_right fun _ => ?_
      constructor
      · intro hnot
        exact ⟨last, rfl, hnot⟩
      · rintro ⟨last', hlast', hnot⟩
        obtain rfl := RouterThreadMessage.moduleRegistration.inj (Option.some.inj hlast')
        exact hnot

end Router

/-- A module without the role of the network. -/
def otherModule (staticName : ModuleStaticName) (sender : Sender) : ModuleRegistration Nat where
  staticName := staticName
  sender := sender
  roles := [.blockchainDatas, .blockValidation]
  eventsSubscription := [.newBlockFromNetwork]
  reservedApisParts := []
  endpoints := []

def endpointsModule (staticName : ModuleStaticName) (sender : Sender) : ModuleRegistration Nat where
  staticName := staticName
  sender := sender
  roles := [.interNodesNetwork]
  eventsSubscription := []
  reservedApisParts := [⟨"WS2P", HashSet.ofList [1]⟩]
  endpoints := [.v1 "WS2P" 7]

/-- The network module registers before the other one. -/
def networkFirstOps : List (RouterOp Nat) :=
  [.take ⟨0, 0⟩ (some (.modulesCount 2)),
    .take ⟨0, 0⟩ (some (.moduleRegistration (endpointsModule "ws2p" 3))),
    .take ⟨0, 0⟩ (some (.moduleRegistration (otherModule "blockchain" 4))),
    .broadcast ⟨0, 0⟩, .broadcast ⟨1, 1⟩, .broadcast ⟨1, 1⟩]

/-- The state at the end of a run that returns. -/
def endOf (ops : List (RouterOp Nat)) : Router Nat :=
  match ops.foldlM (Router.step 0) default with
  | .ok s => s
  | .error _ => default

theorem toldOnce_networkFirstOps :
    (endOf networkFirstOps).ToldOnce ↔ Router.HeardInTime (endOf networkFirstOps).taken :=
  Router.toldOnce_iff 0 networkFirstOps _ rfl (by decide +kernel) (by decide +kernel)
    (by decide +kernel) (by decide +kernel)

/-- The network module registers last: its channel is not yet known when the endpoints are sent. -/
def networkLastOps : List (RouterOp Nat) :=
  [.take ⟨0, 0⟩ (some (.modulesCount 2)),
    .take ⟨0, 0⟩ (some (.moduleRegistration (otherModule "blockchain" 4))),
    .take ⟨0, 0⟩ (some (.moduleRegistration (endpointsModule "ws2p" 3))),
    .broadcast ⟨0, 0⟩, .broadcast ⟨1, 1⟩, .broadcast ⟨1, 1⟩]

/-- All modules have registered and everything is processed, but the endpoints reach nobody. -/
theorem not_toldOnce_networkLastOps : ∃ s,
    networkLastOps.foldlM (Router.step 0) default = .ok s ∧
      ((registrations s.taken).map (·.staticName)).Nodup ∧
      ((registrations s.taken).map (·.sender)).Nodup ∧
      counts s.taken = [(registrations s.taken).length] ∧ s.queue = [] ∧ ¬ s.ToldOnce := by
  refine ⟨endOf networkLastOps, rfl, by decide +kernel, by decide +kernel, by decide +kernel,
    by decide +kernel, fun h => ?_⟩
  have hregistrations : registrations (endOf networkLastOps).taken =
    [otherModule "blockchain" 4, endpointsModule "ws2p" 3] := rfl
  have hsent := h (endpointsModule "ws2p" 3)
    (hregistrations ▸ List.mem_cons_of_mem _ List.mem_cons_self) (by decide)
  have hnone : endpointsSent (endOf networkLastOps).delivered = [] := by decide +kernel
  rw [hnone] at hsent
  cases hsent

end Durs
