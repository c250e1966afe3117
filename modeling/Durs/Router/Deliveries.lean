/-
# Nothing is lost or duplicated

Within the registration delay each of the two threads is a broker: the router thread for the
responses, the broadcasting thread for the events and the requests.  So whatever the order of the
registrations and of the messages, every module is sent what is meant for it once.
-/

import Durs.Router.Tables

namespace Durs

open RustStd Lib

variable {Content : Type}

/-! ## What is meant for a module -/

/-- Whether a module listens to a message. -/
def ModuleRegistration.listens (module : ModuleRegistration Content) (msg : DursMsg Content) :
    Bool :=
  module.receivers.any (msg.receiver? = some ·)

/-- Whether a module is the emitter of an event. -/
def ModuleRegistration.emits (module : ModuleRegistration Content) : DursMsg Content → Bool
  | .event eventFrom _ _ => module.staticName = eventFrom
  | _ => false

/-- Whether a message is for a module alone. -/
def ModuleRegistration.isAddressee (module : ModuleRegistration Content) (msg : DursMsg Content) :
    Bool :=
  msg.receiver? = some (.one module.staticName)

/-- What a module is to be sent once. -/
def ModuleRegistration.IsMeant (module : ModuleRegistration Content) : DursMsg Content → Prop
  | .event eventFrom eventType _ =>
      eventType ∈ module.eventsSubscription ∧ module.staticName ≠ eventFrom
  | .request _ reqTo _ _ => reqTo ∈ module.roles
  | .response _ resTo _ _ => module.staticName = resTo
  | _ => False

namespace ModuleRegistration

variable {module : ModuleRegistration Content}

theorem event_mem_receivers {event : ModuleEvent} :
    .event event ∈ module.receivers ↔ event ∈ module.eventsSubscription := by
  simp [receivers]

theorem role_mem_receivers {role : ModuleRole} :
    .role role ∈ module.receivers ↔ role ∈ module.roles := by
  simp [receivers]

theorem one_not_mem_receivers {name : ModuleStaticName} : .one name ∉ module.receivers := by
  simp [receivers]

theorem listens_iff {msg : DursMsg Content} :
    module.listens msg = true ↔ ∃ recv ∈ module.receivers, msg.receiver? = some recv := by
  simp [listens]

theorem listens_event {eventFrom : ModuleStaticName} {eventType : ModuleEvent} {content : Content} :
    module.listens (.event eventFrom eventType content) =
      decide (eventType ∈ module.eventsSubscription) := by
  rw [Bool.eq_iff_iff, listens_iff, decide_eq_true_iff, ← event_mem_receivers]
  simp [DursMsg.receiver?]

theorem listens_request {reqFrom : ModuleStaticName} {role : ModuleRole} {reqId : Nat}
    {content : Content} :
    module.listens (.request reqFrom role reqId content) = decide (role ∈ module.roles) := by
  rw [Bool.eq_iff_iff, listens_iff, decide_eq_true_iff, ← role_mem_receivers]
  simp [DursMsg.receiver?]

theorem nodup_receivers (hevents : module.eventsSubscription.Nodup) (hroles : module.roles.Nodup) :
    module.receivers.Nodup := by
  refine List.nodup_append.2 ⟨hevents.map ?_, hroles.map ?_, ?_⟩
  · exact fun _ _ heq => DursMsgReceiver.event.inj heq
  · exact fun _ _ heq => DursMsgReceiver.role.inj heq
  · intro recv hevent recv' hrole heq
    rcases List.mem_map.1 hevent with ⟨event, -, rfl⟩
    rcases List.mem_map.1 hrole with ⟨role, -, rfl⟩
    cases heq

end ModuleRegistration

/-- Each module registers once, under a name and with a channel of its own, and says once what it
listens to. -/
structure RegisteredOnce (l : List (RouterThreadMessage Content)) : Prop where
  names : ((registrations l).map (·.staticName)).Nodup
  senders : ((registrations l).map (·.sender)).Nodup
  events : ∀ module ∈ registrations l, module.eventsSubscription.Nodup
  roles : ∀ module ∈ registrations l, module.roles.Nodup

theorem RegisteredOnce.of_sublist {l l' : List (RouterThreadMessage Content)}
    (h : RegisteredOnce l) (hsub : (registrations l').Sublist (registrations l)) :
    RegisteredOnce l' where
  names := h.names.sublist (hsub.map _)
  senders := h.senders.sublist (hsub.map _)
  events module hmodule := h.events module (hsub.mem hmodule)
  roles module hmodule := h.roles module (hsub.mem hmodule)

theorem RegisteredOnce.name_ne {l : List (RouterThreadMessage Content)}
    {module : ModuleRegistration Content} (h : RegisteredOnce (l ++ [.moduleRegistration module])) :
    ∀ other ∈ registrations l, other.staticName ≠ module.staticName :=
  name_ne_of_nodup h.names

/-- A name is the name of one module. -/
theorem filter_staticName_eq {modules : List (ModuleRegistration Content)}
    (hnames : (modules.map (·.staticName)).Nodup) {module : ModuleRegistration Content}
    (hmodule : module ∈ modules) :
    modules.filter (·.staticName = module.staticName) = [module] := by
  induction modules with
  | nil => exact absurd hmodule List.not_mem_nil
  | cons first modules ih =>
      rcases List.nodup_cons.1 hnames with ⟨hfirst, hrest⟩
      rw [List.filter_cons]
      rcases List.mem_cons.1 hmodule with rfl | hmem
      · rw [if_pos (decide_eq_true (rfl : module.staticName = module.staticName))]
        refine congrArg _ (List.filter_eq_nil_iff.2 fun other hother hname => hfirst ?_)
        exact List.mem_map.2 ⟨other, hother, of_decide_eq_true hname⟩
      · have hne : first.staticName ≠ module.staticName := fun hname =>
          hfirst (List.mem_map.2 ⟨module, hmem, hname.symm⟩)
        rw [decide_eq_false hne, if_neg Bool.false_ne_true]
        exact ih hrest hmem

/-! ## The broadcasting thread -/

namespace BroadcastingThread

variable {t t' : BroadcastingThread Content} {sent more : List (Sent Content)}
  {l : List (RouterThreadMessage Content)} {mess : RouterThreadMessage Content} {elapsed : Nat}

/-- The broker that the broadcasting thread is: a module gets its own events only when they are
replayed to it. -/
abbrev broker (l : List (RouterThreadMessage Content)) :
    Broker (ModuleRegistration Content) (DursMsg Content) :=
  brokerOf ModuleRegistration.listens (fun module msg => module.listens msg && !module.emits msg) l

/-- The broadcasting thread has kept and sent what its broker has, and the endpoints. -/
structure Follows (t : BroadcastingThread Content) (sent : List (Sent Content))
    (l : List (RouterThreadMessage Content)) : Prop where
  tables : t.Tables (registrations l) (counts l).getLast?
  pending : ∀ recv, (∀ name, recv ≠ .one name) →
    t.pending recv = (messages l).filter (·.receiver? = some recv)
  running : t.running = true
  sent : ∃ announced, (∀ a ∈ announced, ∃ endpoints, a.2 = .modulesEndpoints endpoints) ∧
    sent.Perm (toSent (broker l).deliveries ++ announced)

theorem follows_default : Follows (default : BroadcastingThread Content) [] [] where
  tables := tables_default
  pending _ _ := rfl
  running := rfl
  sent := ⟨[], List.forall_mem_nil _, .nil⟩

/-- What is replayed is what the module listens to. -/
theorem replayed_perm (h : t.Follows sent l) {module : ModuleRegistration Content}
    (hnodup : module.receivers.Nodup) :
    (t.replayed module).Perm ((messages l).filter module.listens) := by
  have hreplayed : t.replayed module = module.receivers.flatMap t.pending := by
    rw [replayed, ModuleRegistration.receivers, List.flatMap_append, List.flatMap_map,
      List.flatMap_map]
  have hkept : module.receivers.flatMap t.pending = module.receivers.flatMap fun recv =>
      (messages l).filter (·.receiver? = some recv) := by
    refine List.flatMap_congr fun recv hrecv => h.pending recv ?_
    rintro name rfl
    exact ModuleRegistration.one_not_mem_receivers hrecv
  rw [hreplayed, hkept]
  exact Broker.flatMap_filter_perm DursMsg.receiver? hnodup (messages l)

/-- Within the registration delay, an event or a request is kept for its receiver. -/
theorem pending_relay (helapsed : elapsed < maxRegistrationDelay) (msg : DursMsg Content)
    {recv : DursMsgReceiver} (hrecv : ∀ name, recv ≠ .one name) :
    (t.relay elapsed msg).1.pending recv =
      t.pending recv ++ [msg].filter (·.receiver? = some recv) := by
  have hstored (msgRecv : DursMsgReceiver) (hmsg : msg.receiver? = some msgRecv) :
      ((storeMsgInPool elapsed msg t.poolMsgs).get? recv).getD [] =
        t.pending recv ++ [msg].filter (·.receiver? = some recv) := by
    rw [storeMsgInPool, if_pos helapsed, hmsg]
    refine (HashMap.getD_get?_push _ _ _ _).trans ?_
    rw [List.filter_singleton, hmsg]
    by_cases heq : recv = msgRecv
    · rw [if_pos heq, heq]
      simp [pending]
    · rw [if_neg heq]
      simp [pending, Ne.symm heq]
  have hother (hmsg : msg.receiver? ≠ some recv) :
      t.pending recv = t.pending recv ++ [msg].filter (·.receiver? = some recv) := by
    rw [List.filter_singleton, decide_eq_false hmsg]
    exact (List.append_nil _).symm
  cases msg with
  | event eventFrom eventType content => exact hstored _ rfl
  | request reqFrom role reqId content => exact hstored _ rfl
  | response resFrom resTo reqId content =>
      exact hother fun heq => hrecv resTo (Option.some.inj heq).symm
  | _ => exact hother nofun

/-- An event or a request is sent to the modules that listen to it, an event not to its emitter. -/
theorem relay_perm (h : t.Tables (registrations l) (counts l).getLast?)
    (hevents : ∀ module ∈ registrations l, module.eventsSubscription.Nodup)
    (hroles : ∀ module ∈ registrations l, module.roles.Nodup) (msg : DursMsg Content) :
    (t.relay elapsed msg).2.Perm (((registrations l).filter fun module =>
      module.listens msg && !module.emits msg).map fun module => (module.sender, msg)) := by
  have hnobody (hmsg : ∀ recv, msg.receiver? = some recv → ∃ name, recv = .one name) :
      ([] : List (Sent Content)).Perm (((registrations l).filter fun module =>
        module.listens msg && !module.emits msg).map fun module => (module.sender, msg)) := by
    have hnone : ((registrations l).filter fun module =>
        module.listens msg && !module.emits msg) = [] := by
      refine List.filter_eq_nil_iff.2 fun module _ hsent => ?_
      have hlistens := (Bool.and_eq_true_iff.1 hsent).1
      rcases ModuleRegistration.listens_iff.1 hlistens with ⟨recv, hrecv, heq⟩
      obtain ⟨name, rfl⟩ := hmsg recv heq
      exact ModuleRegistration.one_not_mem_receivers hrecv
    rw [hnone]
    exact .nil
  cases msg with
  | event eventFrom eventType content =>
      have hreceivers : ((t.eventsSubscriptions.get? eventType).getD []).filter (· ≠ eventFrom) =
          ((registrations l).filter fun module =>
            module.listens (.event eventFrom eventType content) &&
              !module.emits (.event eventFrom eventType content)).map (·.staticName) := by
        rw [h.subscribers, flatMap_replicate_count _ _ hevents, List.filter_map,
          List.filter_filter]
        congr 1
        refine List.filter_congr fun module _ => ?_
        rw [ModuleRegistration.listens_event, Bool.and_comm]
        simp [ModuleRegistration.emits]
      show (sendMsgToSeveralReceivers _ _ _).Perm _
      rw [hreceivers]
      exact h.sent_perm _ _
  | request reqFrom role reqId content =>
      have hreceivers : (t.roles.get? role).getD [] = ((registrations l).filter fun module =>
            module.listens (.request reqFrom role reqId content) &&
              !module.emits (.request reqFrom role reqId content)).map (·.staticName) := by
        rw [h.holders, flatMap_replicate_count _ _ hroles]
        congr 1
        refine List.filter_congr fun module _ => ?_
        rw [ModuleRegistration.listens_request]
        exact (Bool.and_true _).symm
      show (sendMsgToSeveralReceivers _ _ _).Perm _
      rw [hreceivers]
      exact h.sent_perm _ _
  | response resFrom resTo reqId content =>
      exact hnobody fun recv heq => ⟨resTo, (Option.some.inj heq).symm⟩
  | _ => exact hnobody nofun

/-- The deliveries of a turn come after those of the turns before, the endpoints apart. -/
theorem Follows.sent_append (h : t.Follows sent l)
    {handed : List (ModuleRegistration Content × DursMsg Content)}
    {announced : List (Sent Content)}
    (hannounced : ∀ a ∈ announced, ∃ endpoints, a.2 = .modulesEndpoints endpoints)
    (hmore : more.Perm (toSent handed ++ announced)) :
    ∃ announced, (∀ a ∈ announced, ∃ endpoints, a.2 = .modulesEndpoints endpoints) ∧
      (sent ++ more).Perm (toSent ((broker l).deliveries ++ handed) ++ announced) := by
  rcases h.sent with ⟨before, hbefore, hsent⟩
  refine ⟨before ++ announced, ?_, (hsent.append hmore).trans ?_⟩
  · intro a ha
    exact (List.mem_append.1 ha).elim (hbefore a) (hannounced a)
  · rw [toSent_append, List.append_assoc, List.append_assoc]
    exact (List.perm_append_comm_assoc _ _ _).append_left _

/-- The broadcasting thread follows its broker, from one message to the next. -/
theorem Follows.process (h : t.Follows sent l) (helapsed : elapsed < maxRegistrationDelay)
    (honce : RegisteredOnce (l ++ [mess])) (hstop : mess ≠ .moduleMessage .stop)
    (hrun : t.process elapsed mess = .ok (t', more)) :
    t'.Follows (sent ++ more) (l ++ [mess]) := by
  have htables := h.tables.process honce.names hrun
  cases mess with
  | modulesCount count =>
      obtain ⟨rfl, rfl⟩ := Prod.mk.inj (Except.ok.inj hrun)
      have hmessages : messages (l ++ [.modulesCount count]) = messages l :=
        (messages_append l _).trans (List.append_nil _)
      refine ⟨htables, hmessages ▸ h.pending, h.running, ?_⟩
      · rw [broker, brokerOf_concat, List.append_nil]
        exact h.sent
  | moduleRegistration module =>
      rcases register_eq_ok_iff.1 hrun with ⟨_, announced, hannouncement, rfl, rfl⟩
      have hmodule : module ∈ registrations (l ++ [.moduleRegistration module]) := by
        rw [registrations_append]
        exact List.mem_append_right _ (List.mem_singleton_self module)
      have hreplayed := replayed_perm h
        (module.nodup_receivers (honce.events module hmodule) (honce.roles module hmodule))
      have hmessages : messages (l ++ [.moduleRegistration module]) = messages l :=
        (messages_append l _).trans (List.append_nil _)
      refine ⟨htables, hmessages ▸ h.pending, h.running, ?_⟩
      · rw [broker, brokerOf_concat]
        refine h.sent_append (modulesEndpoints_of_announcement hannouncement) ?_
        rw [messages_brokerOf, toSent, List.map_map]
        exact (hreplayed.map _).append_right _
  | moduleMessage msg =>
      have hrelay := process_of_ne_stop elapsed t fun heq => hstop (heq ▸ rfl)
      obtain rfl : t' = (t.relay elapsed msg).1 :=
        congrArg Prod.fst (Except.ok.inj (hrun.symm.trans hrelay))
      obtain rfl : more = (t.relay elapsed msg).2 :=
        congrArg Prod.snd (Except.ok.inj (hrun.symm.trans hrelay))
      have hregistrations : registrations (l ++ [.moduleMessage msg]) = registrations l :=
        (registrations_append l _).trans (List.append_nil _)
      refine ⟨htables, fun recv hrecv => ?_, (running_relay elapsed t msg).trans h.running, ?_⟩
      · rw [pending_relay helapsed msg hrecv, h.pending recv hrecv, messages_append,
          List.filter_append]
        rfl
      · rw [broker, brokerOf_concat]
        refine h.sent_append (List.forall_mem_nil _) ?_
        rw [List.append_nil, receivers_brokerOf, toSent, List.map_map]
        exact relay_perm h.tables (hregistrations ▸ honce.events)
          (hregistrations ▸ honce.roles) msg

end BroadcastingThread

/-! ## The router thread -/

namespace RouterThread

variable {t : RouterThread Content} {sent : List (Sent Content)}
  {l : List (RouterThreadMessage Content)} {mess : RouterThreadMessage Content} {elapsed : Nat}

/-- The broker that the router thread is. -/
abbrev broker (l : List (RouterThreadMessage Content)) :
    Broker (ModuleRegistration Content) (DursMsg Content) :=
  brokerOf ModuleRegistration.isAddressee ModuleRegistration.isAddressee l

/-- The router thread has kept and sent what its broker has. -/
structure Follows (t : RouterThread Content) (sent : List (Sent Content))
    (l : List (RouterThreadMessage Content)) : Prop where
  senders : Channels t.modulesSenders (registrations l)
  pending : ∀ name, (∀ module ∈ registrations l, module.staticName ≠ name) →
    (t.poolMsgs.get? name).getD [] = (messages l).filter (·.receiver? = some (.one name))
  running : t.running = true
  sent : sent = toSent (broker l).deliveries

theorem follows_default : Follows (default : RouterThread Content) [] [] where
  senders := channels_empty
  pending _ _ := rfl
  running := rfl
  sent := rfl

/-- Within the time that the node is to run, a turn ends with the message. -/
theorem handle_of_le {runDurationInSecs : Nat} {elapsed : Elapsed}
    (h : runDurationInSecs = 0 ∨ elapsed.after ≤ runDurationInSecs)
    (mess : Option (RouterThreadMessage Content)) :
    t.handle runDurationInSecs elapsed mess =
      match mess with
      | some mess => t.dispatch elapsed.during mess
      | none => (t, ⟨[], []⟩) := by
  refine if_neg ?_
  rintro ⟨-, hpos, hlate⟩
  omega

theorem registrations_message (msg : DursMsg Content) :
    registrations (l ++ [.moduleMessage msg]) = registrations l :=
  (registrations_append l _).trans (List.append_nil _)

theorem messages_message (msg : DursMsg Content) :
    messages (l ++ [.moduleMessage msg]) = messages l ++ [msg] :=
  messages_append l _

/-- A message that is for no registered module is not delivered. -/
theorem deliveries_of_nobody {msg : DursMsg Content}
    (hnobody : (registrations l).filter (·.isAddressee msg) = []) :
    (broker (l ++ [.moduleMessage msg])).deliveries = (broker l).deliveries := by
  rw [broker, brokerOf_concat]
  show (broker l).deliveries ++ ((broker l).receivers.filter _).map _ = _
  rw [receivers_brokerOf, hnobody, List.map_nil, List.append_nil]

theorem Follows.count (h : t.Follows sent l) (count : Nat) :
    t.Follows sent (l ++ [.modulesCount count]) := by
  have hmessages : messages (l ++ [.modulesCount count]) = messages l :=
    (messages_append l _).trans (List.append_nil _)
  have hregistrations : registrations (l ++ [.modulesCount count]) = registrations l :=
    (registrations_append l _).trans (List.append_nil _)
  refine ⟨hregistrations ▸ h.senders, ?_, h.running, ?_⟩
  · rw [hmessages, hregistrations]
    exact h.pending
  · rw [broker, brokerOf_concat]
    exact h.sent

/-- A module that registers is sent the responses kept for it. -/
theorem Follows.registration (h : t.Follows sent l) {module : ModuleRegistration Content}
    (hnew : ∀ other ∈ registrations l, other.staticName ≠ module.staticName) :
    (t.dispatch elapsed (.moduleRegistration module)).1.Follows
      (sent ++ (t.dispatch elapsed (.moduleRegistration module)).2.sent)
      (l ++ [.moduleRegistration module]) := by
  have hmessages : messages (l ++ [.moduleRegistration module]) = messages l :=
    (messages_append l _).trans (List.append_nil _)
  have hregistrations : registrations (l ++ [.moduleRegistration module]) =
    registrations l ++ [module] := registrations_append l _
  refine ⟨?_, ?_, h.running, ?_⟩
  · rw [hregistrations]
    exact h.senders.insert hnew
  · rw [hmessages, hregistrations]
    intro name hname
    have hne : name ≠ module.staticName :=
      (hname module (List.mem_append_right _ (List.mem_singleton_self module))).symm
    show ((t.poolMsgs.remove module.staticName).get? name).getD [] = _
    rw [HashMap.get?_remove_of_ne _ hne]
    exact h.pending name fun other hother => hname other (List.mem_append_left _ hother)
  · rw [broker, brokerOf_concat, h.sent]
    show toSent _ ++ ((t.poolMsgs.get? module.staticName).getD []).map _ =
      toSent ((broker l).deliveries ++ ((broker l).messages.filter module.isAddressee).map _)
    rw [h.pending _ hnew, toSent_append, messages_brokerOf]
    exact congrArg _ (List.map_map (f := (module, ·)) (g := fun d => (d.1.sender, d.2))).symm

/-- A message that is for no module alone is left to the other thread. -/
theorem Follows.unaddressed (h : t.Follows sent l) {msg : DursMsg Content}
    (hmsg : ∀ name, msg.receiver? ≠ some (.one name)) :
    t.Follows sent (l ++ [.moduleMessage msg]) := by
  have hnobody : (registrations l).filter (·.isAddressee msg) = [] :=
    List.filter_eq_nil_iff.2 fun module _ haddressee => hmsg _ (of_decide_eq_true haddressee)
  refine ⟨(registrations_message msg).symm ▸ h.senders, ?_, h.running, ?_⟩
  · rw [messages_message, registrations_message]
    intro name hname
    rw [List.filter_append, List.filter_singleton, decide_eq_false (hmsg name)]
    exact (h.pending name hname).trans (List.append_nil _).symm
  · rw [deliveries_of_nobody hnobody, h.sent]

section

variable {resFrom resTo : ModuleStaticName} {reqId : Nat} {content : Content}

theorem filter_isAddressee_response (modules : List (ModuleRegistration Content)) :
    modules.filter (·.isAddressee (.response resFrom resTo reqId content)) =
      modules.filter (·.staticName = resTo) := by
  refine List.filter_congr fun module _ => ?_
  rw [ModuleRegistration.isAddressee, decide_eq_decide]
  exact Option.some_inj.trans ⟨fun heq => (DursMsgReceiver.one.inj heq).symm, fun heq => heq ▸ rfl⟩

/-- A response to a registered module is sent to it. -/
theorem Follows.delivered (h : t.Follows sent l)
    (hnames : ((registrations l).map (·.staticName)).Nodup)
    {module : ModuleRegistration Content} (hmodule : module ∈ registrations l)
    (hname : module.staticName = resTo) :
    t.Follows (sent ++ [(module.sender, .response resFrom resTo reqId content)])
      (l ++ [.moduleMessage (.response resFrom resTo reqId content)]) := by
  refine ⟨(registrations_message _).symm ▸ h.senders, ?_, h.running, ?_⟩
  · rw [messages_message, registrations_message]
    intro name hfree
    have hne : DursMsg.receiver? (.response resFrom resTo reqId content) ≠ some (.one name) :=
      fun heq => hfree module hmodule
        (hname.trans (DursMsgReceiver.one.inj (Option.some.inj heq)))
    rw [List.filter_append, List.filter_singleton, decide_eq_false hne]
    exact (h.pending name hfree).trans (List.append_nil _).symm
  · rw [broker, brokerOf_concat, h.sent]
    show _ = toSent ((broker l).deliveries ++ ((broker l).receivers.filter _).map _)
    rw [receivers_brokerOf, filter_isAddressee_response, ← hname,
      filter_staticName_eq hnames hmodule, toSent_append]
    rfl

/-- A response to a module that has not registered is kept. -/
theorem Follows.kept (h : t.Follows sent l) (hnone : t.modulesSenders.get? resTo = none) :
    Follows { t with poolMsgs := t.poolMsgs.push resTo (.response resFrom resTo reqId content) }
      sent (l ++ [.moduleMessage (.response resFrom resTo reqId content)]) := by
  have hnobody : (registrations l).filter
      (·.isAddressee (.response resFrom resTo reqId content)) = [] := by
    rw [filter_isAddressee_response, List.filter_eq_nil_iff]
    intro module hmodule hname
    have hbound := (h.senders resTo module.sender).2
      ⟨module, hmodule, of_decide_eq_true hname, rfl⟩
    rw [hnone] at hbound
    cases hbound
  refine ⟨(registrations_message _).symm ▸ h.senders, ?_, h.running, ?_⟩
  · rw [messages_message, registrations_message]
    intro name hfree
    refine (HashMap.getD_get?_push _ _ _ _).trans ?_
    rw [h.pending name hfree, List.filter_append, List.filter_singleton]
    congr 1
    by_cases heq : name = resTo
    · simp [DursMsg.receiver?, heq]
    · simp [DursMsg.receiver?, heq, Ne.symm heq]
  · rw [deliveries_of_nobody hnobody, h.sent]

end

/-- The router thread follows its broker, from one message to the next. -/
theorem Follows.dispatch (h : t.Follows sent l) (helapsed : elapsed < maxRegistrationDelay)
    (honce : RegisteredOnce (l ++ [mess])) (hstop : mess ≠ .moduleMessage .stop) :
    (t.dispatch elapsed mess).1.Follows (sent ++ (t.dispatch elapsed mess).2.sent)
      (l ++ [mess]) := by
  cases mess with
  | modulesCount count => exact (List.append_nil sent).symm ▸ h.count count
  | moduleRegistration module => exact h.registration honce.name_ne
  | moduleMessage msg =>
      have hleft (hmsg : ∀ name, msg.receiver? ≠ some (.one name)) :
          t.Follows (sent ++ []) (l ++ [.moduleMessage msg]) :=
        (List.append_nil sent).symm ▸ h.unaddressed hmsg
      cases msg with
      | stop => exact absurd rfl hstop
      | event => exact hleft nofun
      | request => exact hleft nofun
      | saveNewModuleConf => exact hleft nofun
      | modulesEndpoints => exact hleft nofun
      | response resFrom resTo reqId content =>
          rw [RouterThread.dispatch]
          split
          case h_1 sender hsender =>
            rcases (h.senders _ _).1 hsender with ⟨module, hmodule, hname, rfl⟩
            have hnames := honce.names
            rw [registrations_message] at hnames
            exact h.delivered hnames hmodule hname
          case h_2 hnone =>
            rw [if_pos helapsed]
            exact (List.append_nil sent).symm ▸ h.kept hnone

end RouterThread

/-! ## Registrations that no check of the node stops -/

/-- A module that registers after others, when some number of modules is expected. -/
structure ModuleRegistration.Fits (modules : List (ModuleRegistration Content))
    (expected : Option Nat) (module : ModuleRegistration Content) : Prop where
  apis : ∀ other ∈ modules, ∀ otherApiPart ∈ other.reservedApisParts,
    ∀ apiPart ∈ module.reservedApisParts, apiPart.unionExist otherApiPart = false
  endpoints : ∀ ep ∈ module.endpoints,
    ∃ apiPart ∈ module.reservedApisParts, apiPart.contains ep.api ep.version = true
  network : expected = some (modules.length + 1) →
    ∃ other ∈ modules ++ [module], .interNodesNetwork ∈ other.roles

/-- Nothing asks the node to stop, and each module fits the modules before it. -/
structure Admitted (l : List (RouterThreadMessage Content)) : Prop where
  goesOn : .moduleMessage .stop ∉ l
  fits : ∀ before module after, l = before ++ .moduleRegistration module :: after →
    module.Fits (registrations before) (counts before).getLast?

theorem Admitted.append_left {l l' : List (RouterThreadMessage Content)}
    (h : Admitted (l ++ l')) : Admitted l where
  goesOn hmem := h.goesOn (List.mem_append_left _ hmem)
  fits before module after heq :=
    h.fits before module (after ++ l') (by rw [heq, List.append_assoc, List.cons_append])

theorem admitted_nil : Admitted ([] : List (RouterThreadMessage Content)) where
  goesOn := List.not_mem_nil
  fits before module after heq := by
    have hmem : RouterThreadMessage.moduleRegistration module ∈
        before ++ .moduleRegistration module :: after :=
      List.mem_append_right _ List.mem_cons_self
    rw [← heq] at hmem
    exact absurd hmem List.not_mem_nil

/-- A message that does not stop the node. -/
theorem Admitted.concat {l : List (RouterThreadMessage Content)}
    {mess : RouterThreadMessage Content} (h : Admitted l) (hgoesOn : mess ≠ .moduleMessage .stop)
    (hfits : ∀ module ∈ mess.registration?, module.Fits (registrations l) (counts l).getLast?) :
    Admitted (l ++ [mess]) where
  goesOn hmem := (List.mem_append.1 hmem).elim h.goesOn fun hlast =>
    hgoesOn (List.mem_singleton.1 hlast).symm
  fits before module after heq := by
    rcases List.eq_nil_or_concat after with rfl | ⟨after, last, rfl⟩
    · obtain ⟨rfl, hmess⟩ := List.append_inj' heq rfl
      obtain rfl := List.singleton_inj.1 hmess
      exact hfits module rfl
    · rw [List.concat_eq_append, ← List.cons_append, ← List.append_assoc] at heq
      exact h.fits before module after (List.append_inj' heq rfl).1

theorem BroadcastingThread.Tables.exists_register {t : BroadcastingThread Content}
    {modules : List (ModuleRegistration Content)} {expected : Option Nat}
    {module : ModuleRegistration Content} (h : t.Tables modules expected)
    (hfits : module.Fits modules expected) : ∃ next, t.register module = .ok next := by
  have haccepts : t.Accepts module := by
    refine ⟨fun other hother otherApiPart hpart => ?_, hfits.endpoints⟩
    rcases h.reservedApisParts other hother with ⟨module', hmodule', hparts⟩
    exact hfits.apis module' hmodule' otherApiPart (hparts ▸ hpart)
  have hannouncement : ∃ announced, t.announcement module = .ok announced := by
    rw [announcement]
    split
    case isTrue hlast =>
      rw [h.expectedRegistrationsCount, registrationsCount_registered,
        h.registrationsCount] at hlast
      rcases h.exists_holders (hfits.network hlast) with ⟨names, hnames⟩
      rw [hnames]
      exact ⟨_, rfl⟩
    case isFalse => exact ⟨[], rfl⟩
  rcases hannouncement with ⟨announced, hannounced⟩
  exact ⟨(_, _), register_eq_ok_iff.2 ⟨haccepts, announced, hannounced, rfl, rfl⟩⟩

/-! ## Both threads -/

/-- A message that a turn of the router thread takes. -/
def RouterOp.mess? : RouterOp Content → Option (RouterThreadMessage Content)
  | .take _ mess => mess
  | .broadcast _ => none

/-- The messages that reach the router thread, one after the other. -/
def received (ops : List (RouterOp Content)) : List (RouterThreadMessage Content) :=
  ops.filterMap RouterOp.mess?

/-- The turn is taken within the registration delay, and within the time that the node is to run. -/
def RouterOp.InTime (runDurationInSecs : Nat) : RouterOp Content → Prop
  | .take elapsed _ => elapsed.during < maxRegistrationDelay ∧
      (runDurationInSecs = 0 ∨ elapsed.after ≤ runDurationInSecs)
  | .broadcast elapsed => elapsed.during < maxRegistrationDelay ∧
      elapsed.after ≤ maxRegistrationDelay

instance (runDurationInSecs : Nat) (op : RouterOp Content) :
    Decidable (op.InTime runDurationInSecs) :=
  match op with
  | .take _ _ => inferInstanceAs (Decidable (_ ∧ _))
  | .broadcast _ => inferInstanceAs (Decidable (_ ∧ _))

/-- Each thread follows its broker. -/
structure Router.Serves (s : Router Content) : Prop where
  relayed : s.taken.filter (·.isRelayed) = s.broadcasted ++ s.queue
  follows : ∃ sent sent', s.thread.Follows sent s.taken ∧
    s.broadcasting.Follows sent' s.broadcasted ∧ s.delivered.Perm (sent ++ sent')

namespace Router

variable {runDurationInSecs : Nat} {s : Router Content}

theorem serves_default : (default : Router Content).Serves :=
  ⟨rfl, [], [], RouterThread.follows_default, BroadcastingThread.follows_default, .nil⟩

/-- What the router thread relays keeps its place among the other messages. -/
theorem exists_of_relayed {l before after : List (RouterThreadMessage Content)}
    {mess : RouterThreadMessage Content}
    (h : l.filter (·.isRelayed) = before ++ mess :: after) :
    ∃ before' after', l = before' ++ mess :: after' ∧
      registrations before' = registrations before ∧ counts before' = counts before := by
  rcases List.filter_eq_append_iff.1 h with ⟨first, rest, rfl, rfl, hrest⟩
  rcases List.filter_eq_cons_iff.1 hrest with ⟨between, after', rfl, hbetween, -, -⟩
  have hnone : between.filter (·.isRelayed) = [] := List.filter_eq_nil_iff.2 hbetween
  have hfirst : (first ++ between).filter (·.isRelayed) = first.filter (·.isRelayed) := by
    rw [List.filter_append, hnone, List.append_nil]
  refine ⟨first ++ between, after', (List.append_assoc _ _ _).symm, ?_, ?_⟩
  · rw [← registrations_relayed (first ++ between), hfirst]
  · rw [← counts_relayed (first ++ between), hfirst]

/-- A turn within the registration delay returns, and each thread goes on following its broker. -/
theorem Serves.step (h : s.Serves) {op : RouterOp Content} (hop : op.InTime runDurationInSecs)
    (honce : RegisteredOnce (s.taken ++ op.mess?.toList))
    (hadmitted : Admitted (s.taken ++ op.mess?.toList)) :
    ∃ s', s.step runDurationInSecs op = .ok s' ∧ s'.taken = s.taken ++ op.mess?.toList ∧
      s'.Serves := by
  rcases h.follows with ⟨sent, sent', hthread, hbroadcasting, hdelivered⟩
  cases op with
  | take elapsed mess =>
      rw [Router.step, if_pos hthread.running, RouterThread.handle_of_le hop.2]
      cases mess with
      | none =>
          refine ⟨s, ?_, (List.append_nil _).symm, h⟩
          show Except.ok { s with
            queue := s.queue ++ [], delivered := s.delivered ++ [], taken := s.taken ++ [] } = .ok s
          rw [List.append_nil, List.append_nil, List.append_nil]
      | some mess =>
          have hstop : mess ≠ .moduleMessage .stop := fun heq =>
            hadmitted.goesOn (heq ▸ List.mem_append_right _ (List.mem_singleton_self _))
          let next := s.thread.dispatch elapsed.during mess
          refine ⟨_, rfl, rfl, ?_, sent ++ next.2.sent, sent',
            hthread.dispatch hop.1 honce hstop, hbroadcasting, ?_⟩
          · show (s.taken ++ [mess]).filter _ = s.broadcasted ++ (s.queue ++ next.2.relayed)
            rw [List.filter_append, h.relayed, RouterThread.relayed_dispatch, List.append_assoc]
          · show (s.delivered ++ next.2.sent).Perm (sent ++ next.2.sent ++ sent')
            refine (hdelivered.append_right _).trans ?_
            rw [List.append_assoc, List.append_assoc]
            exact List.perm_append_comm.append_left _
  | broadcast elapsed =>
      rw [Router.step]
      split
      case h_1 => exact ⟨s, rfl, (List.append_nil _).symm, h⟩
      case h_2 mess queue hqueue =>
        rw [if_pos hbroadcasting.running, BroadcastingThread.handle_of_le hop.2]
        have hrelayed := h.relayed
        rw [hqueue] at hrelayed
        rcases exists_of_relayed hrelayed with ⟨before, after, htaken, hregistrations, hcounts⟩
        have hlast : s.taken ++ (RouterOp.broadcast elapsed : RouterOp Content).mess?.toList =
          s.taken := List.append_nil _
        rw [hlast] at honce hadmitted ⊢
        have hstop : mess ≠ .moduleMessage .stop := by
          rintro rfl
          exact hadmitted.goesOn (htaken ▸ List.mem_append_right _ List.mem_cons_self)
        have honce' : RegisteredOnce (s.broadcasted ++ [mess]) := by
          refine honce.of_sublist ?_
          rw [← registrations_relayed s.taken, hrelayed]
          exact ((List.singleton_sublist.2 List.mem_cons_self).append_left _).filterMap _
        have hreturns : ∃ next, s.broadcasting.process elapsed.during mess = .ok next := by
          cases mess with
          | modulesCount count => exact ⟨_, rfl⟩
          | moduleMessage msg =>
              exact ⟨_, BroadcastingThread.process_of_ne_stop _ _ fun heq => hstop (heq ▸ rfl)⟩
          | moduleRegistration module =>
              have hfits := hadmitted.fits before module after htaken
              rw [hregistrations, hcounts] at hfits
              exact hbroadcasting.tables.exists_register hfits
        rcases hreturns with ⟨⟨broadcasting, more⟩, hprocess⟩
        rw [hprocess, ok_bind]
        refine ⟨_, rfl, rfl, ?_, sent, sent' ++ more, hthread,
          hbroadcasting.process hop.1 honce' hstop hprocess, ?_⟩
        · rw [hrelayed, List.append_assoc]
          rfl
        · rw [← List.append_assoc]
          exact hdelivered.append_right _

/-- A run within the registration delay returns. -/
theorem exists_run {ops : List (RouterOp Content)}
    (hops : ∀ op ∈ ops, op.InTime runDurationInSecs) (honce : RegisteredOnce (received ops))
    (hadmitted : Admitted (received ops)) :
    ∃ s, ops.foldlM (step runDurationInSecs) default = .ok s ∧ s.taken = received ops ∧
      s.Serves := by
  induction ops using List.reverseRecOn with
  | nil => exact ⟨default, rfl, rfl, serves_default⟩
  | append_singleton ops op ih =>
      have hreceived : received (ops ++ [op]) = received ops ++ op.mess?.toList := by
        rw [received, List.filterMap_append, List.filterMap_cons, List.filterMap_nil]
        cases op.mess? <;> rfl
      rw [hreceived] at honce hadmitted
      rcases ih (fun op' hop' => hops op' (List.mem_append_left _ hop'))
        (honce.of_sublist ((List.sublist_append_left _ _).filterMap _)) hadmitted.append_left
        with ⟨s, hrun, htaken, hs⟩
      rw [← htaken] at honce hadmitted
      rcases hs.step (hops op (List.mem_append_right _ (List.mem_singleton_self op))) honce
        hadmitted with ⟨s', hstep, htaken', hs'⟩
      refine ⟨s', ?_, ?_, hs'⟩
      · rw [List.foldlM_append, hrun, ok_bind, List.foldlM_cons, hstep]
        rfl
      · rw [htaken', htaken, hreceived]

theorem queue_of_broadcast {s' : Router Content} {elapsed : Elapsed}
    (hrunning : s.broadcasting.running = true)
    (h : s.step runDurationInSecs (.broadcast elapsed) = .ok s') : s'.queue = s.queue.tail := by
  rw [step] at h
  split at h
  case h_1 hqueue =>
    obtain rfl := Except.ok.inj h
    rw [hqueue]
    rfl
  case h_2 mess queue hqueue =>
    rw [if_pos hrunning] at h
    rcases bind_eq_ok_iff.1 h with ⟨next, _, hreturn⟩
    obtain rfl := Except.ok.inj hreturn
    rw [hqueue]
    rfl

/-- The broadcasting thread comes to the end of what is on its way to it. -/
theorem Serves.exists_drained (h : s.Serves) {elapsed : Elapsed}
    (helapsed : (RouterOp.broadcast elapsed : RouterOp Content).InTime runDurationInSecs)
    (honce : RegisteredOnce s.taken) (hadmitted : Admitted s.taken) :
    ∃ s', (List.replicate s.queue.length (.broadcast elapsed)).foldlM
        (Router.step runDurationInSecs) s = .ok s' ∧
      s'.queue = [] ∧ s'.taken = s.taken ∧ s'.Serves := by
  induction hlength : s.queue.length generalizing s with
  | zero => exact ⟨s, rfl, List.length_eq_zero_iff.1 hlength, rfl, h⟩
  | succ length ih =>
      have hlast : s.taken ++ (RouterOp.broadcast elapsed : RouterOp Content).mess?.toList =
        s.taken := List.append_nil _
      rcases h.step helapsed (hlast.symm ▸ honce) (hlast.symm ▸ hadmitted)
        with ⟨s₁, hstep, htaken, hs₁⟩
      rw [hlast] at htaken
      rcases h.follows with ⟨_, _, _, hbroadcasting, _⟩
      have hqueue := queue_of_broadcast hbroadcasting.running hstep
      rcases ih hs₁ (htaken ▸ honce) (htaken ▸ hadmitted)
        (by rw [hqueue, List.length_tail, hlength, Nat.add_sub_cancel])
        with ⟨s', hrun, hempty, htaken', hs'⟩
      refine ⟨s', ?_, hempty, htaken'.trans htaken, hs'⟩
      rw [List.replicate_succ, List.foldlM_cons, hstep]
      exact hrun

/-- Each module has been sent what is meant for it as often as that has been sent to the router. -/
def DeliversOnce [DecidableEq Content] (s : Router Content)
    (l : List (RouterThreadMessage Content)) : Prop :=
  ∀ module ∈ registrations l, ∀ msg, module.IsMeant msg →
    s.delivered.count (module.sender, msg) = (messages l).count msg

/-- What is handed to a module is sent to its channel, and to no other module. -/
theorem count_toSent [DecidableEq Content] {modules : List (ModuleRegistration Content)}
    (hsenders : (modules.map (·.sender)).Nodup)
    {deliveries : List (ModuleRegistration Content × DursMsg Content)}
    (hknown : ∀ delivery ∈ deliveries, delivery.1 ∈ modules)
    {module : ModuleRegistration Content} (hmodule : module ∈ modules) (msg : DursMsg Content) :
    (toSent deliveries).count (module.sender, msg) = deliveries.count (module, msg) := by
  induction deliveries with
  | nil => rfl
  | cons delivery deliveries ih =>
      rcases List.forall_mem_cons.1 hknown with ⟨hfirst, hrest⟩
      have hsame : ((delivery.1.sender, delivery.2) == (module.sender, msg)) =
          (delivery == (module, msg)) := by
        rw [Bool.eq_iff_iff, beq_iff_eq, beq_iff_eq, Prod.ext_iff, Prod.ext_iff]
        refine and_congr_left fun _ => ⟨fun heq => ?_, fun heq => heq ▸ rfl⟩
        exact List.inj_on_of_nodup_map hsenders hfirst hmodule heq
      rw [List.count_cons, ← ih hrest, ← hsame]
      exact List.count_cons

section BrokerOf

variable [DecidableEq Content] {replays sends : ModuleRegistration Content → DursMsg Content → Bool}
  {l : List (RouterThreadMessage Content)} {module : ModuleRegistration Content}
  {msg : DursMsg Content}

theorem count_sent_of_meant (honce : RegisteredOnce l) (hmodule : module ∈ registrations l)
    (hreplays : replays module msg = true) (hsends : sends module msg = true) :
    (toSent (brokerOf replays sends l).deliveries).count (module.sender, msg) =
      (messages l).count msg := by
  have hexact : (brokerOf replays sends l).Exact replays sends := exact_brokerOf honce.names.of_map
  rw [count_toSent honce.senders (receivers_brokerOf ▸ hexact.known) hmodule]
  refine (hexact.once module (receivers_brokerOf ▸ hmodule) msg hreplays hsends).trans ?_
  rw [messages_brokerOf]

theorem count_sent_of_not_meant (honce : RegisteredOnce l) (hmodule : module ∈ registrations l)
    (hreplays : replays module msg = false) (hsends : sends module msg = false) :
    (toSent (brokerOf replays sends l).deliveries).count (module.sender, msg) = 0 := by
  have hexact : (brokerOf replays sends l).Exact replays sends := exact_brokerOf honce.names.of_map
  rw [count_toSent honce.senders (receivers_brokerOf ▸ hexact.known) hmodule]
  refine List.count_eq_zero.2 fun hmem => ?_
  rcases hexact.meant _ hmem with hmeant | hmeant
  · exact Bool.false_ne_true (hreplays.symm.trans hmeant)
  · exact Bool.false_ne_true (hsends.symm.trans hmeant)

end BrokerOf

/-- Once the broadcasting thread has processed everything, each module has been sent what is meant
for it. -/
theorem Serves.deliversOnce [DecidableEq Content] (h : s.Serves) (hqueue : s.queue = [])
    (honce : RegisteredOnce s.taken) : s.DeliversOnce s.taken := by
  intro module hmodule msg hmeant
  rcases h.follows with ⟨sent, sent', hthread, hbroadcasting, hdelivered⟩
  rcases hbroadcasting.sent with ⟨announced, hannounced, hsent'⟩
  have hbroadcasted : s.broadcasted = s.taken.filter (·.isRelayed) := by
    rw [h.relayed, hqueue, List.append_nil]
  have hregistrations : registrations s.broadcasted = registrations s.taken := by
    rw [hbroadcasted, registrations_relayed]
  have honce' : RegisteredOnce s.broadcasted :=
    honce.of_sublist (hregistrations ▸ List.Sublist.refl _)
  have hmodule' : module ∈ registrations s.broadcasted := hregistrations ▸ hmodule
  have hannounced' : announced.count (module.sender, msg) = 0 := by
    refine List.count_eq_zero.2 fun hmem => ?_
    rcases hannounced _ hmem with ⟨endpoints, hmsg⟩
    obtain rfl : msg = .modulesEndpoints endpoints := hmsg
    exact hmeant
  rw [hdelivered.count_eq, List.count_append, hsent'.count_eq, List.count_append, hannounced',
    Nat.add_zero, hthread.sent]
  -- an event or a request goes through the broadcasting thread, a response does not
  have hbroadcast (haddressee : module.isAddressee msg = false) (hlistens : module.listens msg)
      (hemits : module.emits msg = false)
      (hrelayed : RouterThreadMessage.isRelayed (.moduleMessage msg)) :
      (toSent (RouterThread.broker s.taken).deliveries).count (module.sender, msg) +
        (toSent (BroadcastingThread.broker s.broadcasted).deliveries).count (module.sender, msg) =
        (messages s.taken).count msg := by
    rw [count_sent_of_not_meant honce hmodule haddressee haddressee, Nat.zero_add,
      count_sent_of_meant honce' hmodule' hlistens (by rw [hlistens, hemits]; rfl),
      hbroadcasted, messages_relayed]
    exact List.count_filter hrelayed
  cases msg with
  | event eventFrom eventType content =>
      refine hbroadcast rfl ?_ ?_ rfl
      · rw [ModuleRegistration.listens_event]
        exact decide_eq_true hmeant.1
      · exact decide_eq_false hmeant.2
  | request reqFrom role reqId content =>
      refine hbroadcast rfl ?_ rfl rfl
      rw [ModuleRegistration.listens_request]
      exact decide_eq_true hmeant
  | response resFrom resTo reqId content =>
      have haddressee : module.isAddressee (.response resFrom resTo reqId content) = true :=
        decide_eq_true (congrArg (some <| DursMsgReceiver.one ·) (Eq.symm hmeant))
      have hlistens : module.listens (.response resFrom resTo reqId content) = false := by
        rw [Bool.eq_false_iff, Ne, ModuleRegistration.listens_iff]
        rintro ⟨recv, hrecv, heq⟩
        obtain rfl := Option.some.inj heq
        exact ModuleRegistration.one_not_mem_receivers hrecv
      rw [count_sent_of_meant honce hmodule haddressee haddressee,
        count_sent_of_not_meant honce' hmodule' hlistens (by rw [hlistens]; rfl), Nat.add_zero]
  | _ => exact hmeant.elim

end Router

/-- Whatever the order in which registrations and messages reach the router, and however the turns
of the two threads alternate: within the registration delay the run goes on, and once the
broadcasting thread has come to the end of what is on its way to it, each module has been sent what
is meant for it, once for each time that it was sent to the router. -/
theorem deliversOnce_of_inTime [DecidableEq Content] (runDurationInSecs : Nat)
    (ops : List (RouterOp Content)) (hops : ∀ op ∈ ops, op.InTime runDurationInSecs)
    (honce : RegisteredOnce (received ops)) (hadmitted : Admitted (received ops))
    (elapsed : Elapsed)
    (helapsed : (RouterOp.broadcast elapsed : RouterOp Content).InTime runDurationInSecs) :
    ∃ s s', ops.foldlM (Router.step runDurationInSecs) default = .ok s ∧
      (List.replicate s.queue.length (.broadcast elapsed)).foldlM
        (Router.step runDurationInSecs) s = .ok s' ∧
      s'.queue = [] ∧ s'.DeliversOnce (received ops) := by
  rcases Router.exists_run hops honce hadmitted with ⟨s, hrun, htaken, hs⟩
  rw [← htaken] at honce hadmitted ⊢
  rcases hs.exists_drained helapsed honce hadmitted with ⟨s', hdrain, hqueue, htaken', hs'⟩
  exact ⟨s, s', hrun, hdrain, hqueue, htaken' ▸ hs'.deliversOnce hqueue (htaken'.symm ▸ honce)⟩

/-- A module with the role of the network, on a channel of its own. -/
def networkModule (staticName : ModuleStaticName) (sender : Sender)
    (endpoints : List (EndpointEnum Nat)) : ModuleRegistration Nat where
  staticName := staticName
  sender := sender
  roles := [.interNodesNetwork]
  eventsSubscription := [.newValidBlock]
  reservedApisParts := [⟨"WS2P", HashSet.ofList [1]⟩]
  endpoints := endpoints

/-- The event is replayed when the module registers. -/
def replayingOps : List (RouterOp Nat) :=
  [.take ⟨0, 0⟩ (some (.modulesCount 1)),
    .take ⟨1, 1⟩ (some (.moduleMessage (.event "blockchain" .newValidBlock 7))),
    .broadcast ⟨1, 1⟩,
    .take ⟨2, 2⟩ (some (.moduleRegistration (networkModule "ws2p" 3 [.v1 "WS2P" 0])))]

theorem deliversOnce_replayingOps : ∃ s s',
    replayingOps.foldlM (Router.step 0) default = .ok s ∧
      (List.replicate s.queue.length (.broadcast ⟨2, 2⟩)).foldlM (Router.step 0) s = .ok s' ∧
      s'.queue = [] ∧ s'.DeliversOnce (received replayingOps) := by
  have hfits : (networkModule "ws2p" 3 [.v1 "WS2P" 0]).Fits [] (some 1) := by
    refine ⟨fun _ hmem => absurd hmem List.not_mem_nil, by decide, fun _ => ?_⟩
    exact ⟨_, List.mem_singleton_self _, List.mem_singleton_self _⟩
  have hcount : Admitted ((received replayingOps).take 1) := admitted_nil.concat nofun nofun
  have hevent : Admitted ((received replayingOps).take 2) := hcount.concat nofun nofun
  have hadmitted : Admitted (received replayingOps) :=
    hevent.concat nofun fun module hmodule => Option.some.inj hmodule ▸ hfits
  exact deliversOnce_of_inTime 0 replayingOps (by decide)
    ⟨by decide, by decide, by decide, by decide⟩ hadmitted ⟨2, 2⟩ (by decide)

/-- Two modules reserve the same version of an API. -/
def conflictingOps : List (RouterOp Nat) :=
  [.take ⟨0, 0⟩ (some (.moduleRegistration (networkModule "ws2p" 3 []))),
    .take ⟨0, 0⟩ (some (.moduleRegistration (networkModule "ws2p1" 4 []))),
    .take ⟨1, 1⟩ (some (.moduleMessage (.event "blockchain" .newValidBlock 7))),
    .broadcast ⟨1, 1⟩, .broadcast ⟨1, 1⟩]

/-- The node stops, and the event is never delivered. -/
theorem not_deliversOnce_conflictingOps : (∀ op ∈ conflictingOps, op.InTime 0) ∧
    RegisteredOnce (received conflictingOps) ∧
    ∀ ops, ¬ Returns ((conflictingOps ++ ops).foldlM (Router.step 0) default) := by
  refine ⟨by decide, ⟨by decide, by decide, by decide, by decide⟩, fun ops => ?_⟩
  have hstops : ¬ Returns (conflictingOps.foldlM (Router.step 0) default) := by decide +kernel
  rintro ⟨s, hrun⟩
  rw [List.foldlM_append] at hrun
  rcases bind_eq_ok_iff.1 hrun with ⟨s', hrun', -⟩
  exact hstops ⟨s', hrun'⟩

end Durs
