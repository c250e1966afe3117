/-
# The tables of the broadcasting thread

What the broadcasting thread knows of the modules, after the messages that it has processed: who
listens to what, the channel of each module, and the endpoints.  None of it depends on the time.
-/

import Durs.Router.Brokers

namespace Durs

open RustStd Lib

variable {Content : Type}

/-! ## The channels -/

/-- Each module that has registered can be reached under its name. -/
def Channels (modulesSenders : HashMap ModuleStaticName Sender)
    (modules : List (ModuleRegistration Content)) : Prop :=
  ∀ name sender, modulesSenders.get? name = some sender ↔
    ∃ module ∈ modules, module.staticName = name ∧ module.sender = sender

theorem channels_empty : Channels ∅ ([] : List (ModuleRegistration Content)) :=
  fun _ _ => iff_of_false nofun fun ⟨_, hmem, _⟩ => List.not_mem_nil hmem

/-- A module of a new name registers. -/
theorem Channels.insert {modulesSenders : HashMap ModuleStaticName Sender}
    {modules : List (ModuleRegistration Content)} (h : Channels modulesSenders modules)
    {module : ModuleRegistration Content}
    (hnew : ∀ other ∈ modules, other.staticName ≠ module.staticName) :
    Channels (modulesSenders.insert module.staticName module.sender) (modules ++ [module]) := by
  intro name sender
  simp only [List.mem_append, List.mem_singleton, or_and_right, exists_or, exists_eq_left]
  rw [← h name sender]
  by_cases hname : name = module.staticName
  · subst hname
    have hnone : modulesSenders.get? module.staticName ≠ some sender := by
      rw [Ne, h]
      rintro ⟨other, hother, hsame, -⟩
      exact hnew other hother hsame
    rw [HashMap.get?_insert_self, Option.some_inj, or_iff_right hnone, and_iff_right rfl]
  · rw [HashMap.get?_insert_of_ne _ _ hname]
    exact (or_iff_left fun hsame => hname hsame.1.symm).symm

namespace BroadcastingThread

variable {t t' : BroadcastingThread Content} {module : ModuleRegistration Content}
  {sent : List (Sent Content)}

/-! ## What a registration does -/

/-- The messages that are replayed to a module. -/
def replayed (t : BroadcastingThread Content) (module : ModuleRegistration Content) :
    List (DursMsg Content) :=
  module.eventsSubscription.flatMap (fun event => t.pending (.event event)) ++
    module.roles.flatMap fun role => t.pending (.role role)

/-- The tables once a module is in them. -/
def registered (t : BroadcastingThread Content) (module : ModuleRegistration Content) :
    BroadcastingThread Content :=
  { t with
    eventsSubscriptions := module.eventsSubscription.foldl
      (fun subscriptions event => subscriptions.push event module.staticName) t.eventsSubscriptions
    roles := module.roles.foldl (fun roles role => roles.push role module.staticName) t.roles
    registrationsCount := t.registrationsCount + 1
    localNodeEndpoints := t.localNodeEndpoints ++ module.endpoints
    reservedApisParts := t.reservedApisParts.insert module.staticName module.reservedApisParts
    modulesSenders := t.modulesSenders.insert module.staticName module.sender }

@[simp]
theorem registrationsCount_registered :
    (t.registered module).registrationsCount = t.registrationsCount + 1 := rfl

/-- The channels are those of the modules that registered before. -/
def announcement (t : BroadcastingThread Content) (module : ModuleRegistration Content) :
    Run (List (Sent Content)) :=
  if t.expectedRegistrationsCount = some (t.registered module).registrationsCount then do
    let receivers ← expect ((t.registered module).roles.get? .interNodesNetwork)
      "Fatal error : no module with role InterNodesNetwork !"
    pure (sendMsgToSeveralReceivers (.modulesEndpoints (t.registered module).localNodeEndpoints)
      receivers t.modulesSenders)
  else pure []

theorem modulesEndpoints_of_announcement {announced : List (Sent Content)}
    (h : t.announcement module = .ok announced) :
    ∀ a ∈ announced, ∃ endpoints, a.2 = .modulesEndpoints endpoints := by
  intro a ha
  rw [announcement] at h
  split at h
  case isTrue =>
    rcases bind_eq_ok_iff.1 h with ⟨receivers, _, hreturn⟩
    obtain rfl := Except.ok.inj hreturn
    rcases List.mem_filterMap.1 ha with ⟨name, _, hname⟩
    rcases Option.map_eq_some_iff.1 hname with ⟨sender, _, rfl⟩
    exact ⟨_, rfl⟩
  case isFalse =>
    obtain rfl := Except.ok.inj h
    exact absurd ha List.not_mem_nil

/-- A module that no check stops. -/
structure Accepts (t : BroadcastingThread Content) (module : ModuleRegistration Content) :
    Prop where
  apis : ∀ other ∈ t.reservedApisParts.iter, ∀ otherApiPart ∈ other.2,
    ∀ apiPart ∈ module.reservedApisParts, apiPart.unionExist otherApiPart = false
  endpoints : ∀ ep ∈ module.endpoints,
    ∃ apiPart ∈ module.reservedApisParts, apiPart.contains ep.api ep.version = true

theorem accepts_iff : t.Accepts module ↔
    (t.reservedApisParts.iter.any fun other => other.2.any fun otherApiPart =>
      module.reservedApisParts.any (·.unionExist otherApiPart)) = false ∧
    (module.endpoints.any fun ep =>
      !module.reservedApisParts.any (·.contains ep.api ep.version)) = false := by
  simp only [List.any_eq_false, Bool.not_eq_true, Bool.not_eq_false', List.any_eq_true, not_exists,
    not_and]
  exact ⟨fun h => ⟨h.apis, h.endpoints⟩, fun h => ⟨h.1, h.2⟩⟩

theorem register_of_accepts (h : t.Accepts module) : t.register module =
    t.announcement module >>= fun announced =>
      .ok (t.registered module, (t.replayed module).map (module.sender, ·) ++ announced) := by
  rcases accepts_iff.1 h with ⟨hapis, hendpoints⟩
  unfold register
  dsimp only
  rw [if_neg (Bool.eq_false_iff.1 hapis), if_neg (Bool.eq_false_iff.1 hendpoints)]
  by_cases hlast : t.expectedRegistrationsCount = some (t.registrationsCount + 1)
  · have hannouncement : t.announcement module = _ := if_pos hlast
    rw [if_pos hlast, hannouncement, bind_assoc]
    rfl
  · have hannouncement : t.announcement module = _ := if_neg hlast
    rw [if_neg hlast, hannouncement]
    rfl

/-- A registration that passes the checks is in the tables. -/
theorem register_eq_ok_iff : t.register module = .ok (t', sent) ↔
    t.Accepts module ∧ ∃ announced, t.announcement module = .ok announced ∧
      t' = t.registered module ∧
      sent = (t.replayed module).map (module.sender, ·) ++ announced := by
  constructor
  · intro hregister
    have haccepts : t.Accepts module := by
      rw [accepts_iff]
      unfold register at hregister
      dsimp only at hregister
      split at hregister
      case isTrue => exact absurd hregister fatalError_ne_ok
      case isFalse hapis =>
        split at hregister
        case isTrue => exact absurd hregister fatalError_ne_ok
        case isFalse hendpoints =>
          exact ⟨Bool.eq_false_iff.2 hapis, Bool.eq_false_iff.2 hendpoints⟩
    rw [register_of_accepts haccepts] at hregister
    rcases bind_eq_ok_iff.1 hregister with ⟨announced, hannouncement, hreturn⟩
    rcases Prod.mk.inj (Except.ok.inj hreturn) with ⟨hregistered, hsent⟩
    exact ⟨haccepts, announced, hannouncement, hregistered.symm, hsent.symm⟩
  · rintro ⟨haccepts, announced, hannouncement, rfl, rfl⟩
    rw [register_of_accepts haccepts, hannouncement]
    rfl

/-! ## The tables after some registrations -/

/-- The tables hold what the registered modules have said, and how many are expected. -/
structure Tables (t : BroadcastingThread Content) (modules : List (ModuleRegistration Content))
    (expected : Option Nat) : Prop where
  senders : Channels t.modulesSenders modules
  subscribers : ∀ event, (t.eventsSubscriptions.get? event).getD [] = modules.flatMap fun module =>
    List.replicate (module.eventsSubscription.count event) module.staticName
  holders : ∀ role, (t.roles.get? role).getD [] = modules.flatMap fun module =>
    List.replicate (module.roles.count role) module.staticName
  registrationsCount : t.registrationsCount = modules.length
  expectedRegistrationsCount : t.expectedRegistrationsCount = expected
  localNodeEndpoints : t.localNodeEndpoints = modules.flatMap (·.endpoints)
  reservedApisParts : ∀ other ∈ t.reservedApisParts.iter,
    ∃ module ∈ modules, module.reservedApisParts = other.2

variable {modules : List (ModuleRegistration Content)} {expected : Option Nat}
  {l : List (RouterThreadMessage Content)}

theorem tables_default : (default : BroadcastingThread Content).Tables [] none where
  senders := channels_empty
  subscribers _ := rfl
  holders _ := rfl
  registrationsCount := rfl
  expectedRegistrationsCount := rfl
  localNodeEndpoints := rfl
  reservedApisParts _ hmem := absurd hmem List.not_mem_nil

theorem Tables.holders_registered (h : t.Tables modules expected) (role : ModuleRole) :
    ((t.registered module).roles.get? role).getD [] = (modules ++ [module]).flatMap fun module =>
      List.replicate (module.roles.count role) module.staticName := by
  rw [List.flatMap_append, ← h.holders, List.flatMap_singleton]
  exact HashMap.getD_get?_foldl_push t.roles module.roles role _

/-- A role that a module has is in the tables. -/
theorem Tables.exists_holders (h : t.Tables modules expected) {role : ModuleRole}
    (hrole : ∃ other ∈ modules ++ [module], role ∈ other.roles) :
    ∃ names, (t.registered module).roles.get? role = some names := by
  rcases hrole with ⟨other, hother, hrole⟩
  have hmem : other.staticName ∈ ((t.registered module).roles.get? role).getD [] := by
    rw [h.holders_registered, List.mem_flatMap]
    exact ⟨other, hother, List.mem_replicate.2 ⟨Nat.ne_of_gt (List.count_pos_iff.2 hrole), rfl⟩⟩
  cases hget : (t.registered module).roles.get? role with
  | some names => exact ⟨names, rfl⟩
  | none =>
      rw [hget] at hmem
      exact absurd hmem List.not_mem_nil

/-- A module of a new name is added to the tables. -/
theorem Tables.registered (h : t.Tables modules expected)
    (hnew : ∀ other ∈ modules, other.staticName ≠ module.staticName) :
    (t.registered module).Tables (modules ++ [module]) expected where
  senders := h.senders.insert hnew
  subscribers event := by
    rw [List.flatMap_append, ← h.subscribers, List.flatMap_singleton]
    exact HashMap.getD_get?_foldl_push t.eventsSubscriptions module.eventsSubscription event _
  holders := h.holders_registered
  registrationsCount := by
    rw [List.length_append, ← h.registrationsCount]
    rfl
  expectedRegistrationsCount := h.expectedRegistrationsCount
  localNodeEndpoints := by
    rw [List.flatMap_append, ← h.localNodeEndpoints, List.flatMap_singleton]
    rfl
  reservedApisParts other hother := by
    rcases (HashMap.mem_iter_iff _ other.1 other.2).1 hother with hget
    by_cases hname : other.1 = module.staticName
    · rw [BroadcastingThread.registered, hname, HashMap.get?_insert_self] at hget
      exact ⟨module, List.mem_append_right _ (List.mem_singleton_self module), Option.some.inj hget⟩
    · rw [BroadcastingThread.registered, HashMap.get?_insert_of_ne _ _ hname,
        ← HashMap.mem_iter_iff] at hget
      rcases h.reservedApisParts other hget with ⟨module', hmem, hparts⟩
      exact ⟨module', List.mem_append_left _ hmem, hparts⟩

/-! ## Any message -/

/-- A message is processed, whatever the time is after it. -/
def process (elapsed : Nat) (t : BroadcastingThread Content) :
    RouterThreadMessage Content → Run (BroadcastingThread Content × List (Sent Content))
  | .moduleMessage .stop => .ok ({ t with running := false }, [])
  | .modulesCount count => .ok ({ t with expectedRegistrationsCount := some count }, [])
  | .moduleRegistration module => t.register module
  | .moduleMessage msg => .ok (t.relay elapsed msg)

variable {elapsed : Elapsed} {mess : RouterThreadMessage Content}

/-- The time can only stop the process. -/
theorem process_of_handle (hrun : t.handle elapsed mess = .ok (t', sent)) :
    t.process elapsed.during mess = .ok (t', sent) := by
  cases mess with
  | modulesCount count =>
      rcases bind_eq_ok_iff.1 hrun with ⟨_, _, hreturn⟩
      exact hreturn
  | moduleRegistration module =>
      rcases bind_eq_ok_iff.1 hrun with ⟨_, hregister, hrun⟩
      rcases bind_eq_ok_iff.1 hrun with ⟨_, _, hreturn⟩
      exact hregister.trans hreturn
  | moduleMessage msg =>
      cases msg with
      | stop => exact hrun
      | _ =>
          rcases bind_eq_ok_iff.1 hrun with ⟨_, _, hreturn⟩
          exact hreturn

theorem checkDelay_of_le {elapsed : Nat} (h : elapsed ≤ maxRegistrationDelay)
    (t : BroadcastingThread Content) : t.checkDelay elapsed = .ok () :=
  if_neg fun hlate => Nat.not_lt.2 h hlate.2

/-- Within the registration delay, it stops nothing. -/
theorem handle_of_le (h : elapsed.after ≤ maxRegistrationDelay) :
    t.handle elapsed mess = t.process elapsed.during mess := by
  have hnext (next : BroadcastingThread Content × List (Sent Content)) :
      (next.1.checkDelay elapsed.after >>= fun _ => Except.ok next) = Except.ok next := by
    rw [checkDelay_of_le h, ok_bind]
  cases mess with
  | modulesCount count => exact hnext ({ t with expectedRegistrationsCount := some count }, [])
  | moduleRegistration module =>
      rw [handle, process]
      cases t.register module with
      | error abort => rfl
      | ok registered => exact hnext registered
  | moduleMessage msg =>
      cases msg with
      | stop => rfl
      | event eventFrom eventType content =>
          exact hnext (t.relay elapsed.during (.event eventFrom eventType content))
      | request reqFrom role reqId content =>
          exact hnext (t.relay elapsed.during (.request reqFrom role reqId content))
      | _ => exact hnext (t, [])

theorem process_of_ne_stop (elapsed : Nat) (t : BroadcastingThread Content) {msg : DursMsg Content}
    (h : msg ≠ .stop) : t.process elapsed (.moduleMessage msg) = .ok (t.relay elapsed msg) := by
  cases msg with
  | stop => exact absurd rfl h
  | _ => rfl

theorem running_relay (elapsed : Nat) (t : BroadcastingThread Content) (msg : DursMsg Content) :
    (t.relay elapsed msg).1.running = t.running := by
  cases msg <;> rfl

/-- A message leaves the tables as they are. -/
theorem process_message {elapsed : Nat} {msg : DursMsg Content}
    (hrun : t.process elapsed (.moduleMessage msg) = .ok (t', sent)) :
    ∃ poolMsgs running, t' = { t with poolMsgs, running } := by
  cases msg with
  | stop => exact ⟨t.poolMsgs, false, (Prod.mk.inj (Except.ok.inj hrun)).1.symm⟩
  | event => exact ⟨_, t.running, (Prod.mk.inj (Except.ok.inj hrun)).1.symm⟩
  | request => exact ⟨_, t.running, (Prod.mk.inj (Except.ok.inj hrun)).1.symm⟩
  | _ => exact ⟨t.poolMsgs, t.running, (Prod.mk.inj (Except.ok.inj hrun)).1.symm⟩

/-- Whatever message is processed, the tables follow. -/
theorem Tables.process {elapsed : Nat} (h : t.Tables (registrations l) (counts l).getLast?)
    (hnodup : ((registrations (l ++ [mess])).map (·.staticName)).Nodup)
    (hrun : t.process elapsed mess = .ok (t', sent)) :
    t'.Tables (registrations (l ++ [mess])) (counts (l ++ [mess])).getLast? := by
  rw [registrations_append, counts_append]
  cases mess with
  | modulesCount count =>
      obtain ⟨rfl, -⟩ := Prod.mk.inj (Except.ok.inj hrun)
      have hregistrations : registrations l ++ registrations [.modulesCount count] =
        registrations l := List.append_nil _
      have hcounts : counts ([.modulesCount count] : List (RouterThreadMessage Content)) =
        [count] := rfl
      rw [hregistrations, hcounts, List.getLast?_concat]
      exact { h with expectedRegistrationsCount := rfl }
  | moduleRegistration module =>
      rcases register_eq_ok_iff.1 hrun with ⟨-, _, -, rfl, -⟩
      have hcounts : counts l ++ counts [.moduleRegistration module] = counts l :=
        List.append_nil _
      rw [hcounts]
      exact h.registered (name_ne_of_nodup hnodup)
  | moduleMessage msg =>
      have hregistrations : registrations l ++ registrations [.moduleMessage msg] =
        registrations l := List.append_nil _
      have hcounts : counts l ++ counts [.moduleMessage msg] = counts l := List.append_nil _
      rw [hregistrations, hcounts]
      rcases process_message hrun with ⟨poolMsgs, running, rfl⟩
      exact { h with }

/-! ## Who is sent what -/

/-- The order in which the receivers are served does not matter. -/
theorem sendMsgToSeveralReceivers_perm (msg : DursMsg Content) (receivers : List ModuleStaticName)
    (modulesSenders : HashMap ModuleStaticName Sender) :
    (sendMsgToSeveralReceivers msg receivers modulesSenders).Perm
      (receivers.filterMap fun name => (modulesSenders.get? name).map (·, msg)) := by
  refine List.Perm.filterMap _ ?_
  cases receivers with
  | nil => exact .nil
  | cons first rest => exact List.perm_append_comm

/-- A message to some of the modules reaches their channels. -/
theorem Tables.sent_perm (h : t.Tables modules expected) (msg : DursMsg Content)
    (p : ModuleRegistration Content → Bool) :
    (sendMsgToSeveralReceivers msg ((modules.filter p).map (·.staticName)) t.modulesSenders).Perm
      ((modules.filter p).map fun module => (module.sender, msg)) := by
  refine (sendMsgToSeveralReceivers_perm msg _ _).trans (.of_eq ?_)
  rw [List.filterMap_map, ← List.filterMap_eq_map]
  refine List.filterMap_congr fun module hmodule => ?_
  have hget : t.modulesSenders.get? module.staticName = some module.sender :=
    (h.senders _ _).2 ⟨module, List.mem_of_mem_filter hmodule, rfl, rfl⟩
  rw [Function.comp, hget]
  rfl

/-- The names in a table whose lists have no duplicates. -/
theorem flatMap_replicate_count {κ : Type} [DecidableEq κ]
    (keys : ModuleRegistration Content → List κ) (k : κ)
    (hnodup : ∀ module ∈ modules, (keys module).Nodup) :
    (modules.flatMap fun module => List.replicate ((keys module).count k) module.staticName) =
      (modules.filter (k ∈ keys ·)).map (·.staticName) := by
  induction modules with
  | nil => rfl
  | cons module modules ih =>
      rw [List.flatMap_cons, List.filter_cons,
        ih fun module' hmem => hnodup module' (List.mem_cons_of_mem _ hmem)]
      have hcount := List.nodup_iff_count_le_one.1 (hnodup module List.mem_cons_self) k
      by_cases hk : k ∈ keys module
      · have hone : (keys module).count k = 1 :=
          Nat.le_antisymm hcount (List.count_pos_iff.2 hk)
        rw [hone, if_pos (decide_eq_true hk)]
        rfl
      · rw [List.count_eq_zero.2 hk, if_neg fun hmem => hk (of_decide_eq_true hmem)]
        rfl

end BroadcastingThread

end Durs
