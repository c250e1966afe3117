/-
# The messages as a broker sees them

Of the messages that reach one of the threads, which are registrations, which are messages between
modules, and which tell the number of modules.  The broker that they make says what each module is
handed in the end.
-/

import Mathlib.Data.List.Induction
import Durs.Lib.Broker
import Durs.Router.Threads

namespace Durs

open RustStd Lib

variable {Content : Type}

/-! ## Messages one after the other -/

def RouterThreadMessage.registration? :
    RouterThreadMessage Content → Option (ModuleRegistration Content)
  | .moduleRegistration module => some module
  | _ => none

def RouterThreadMessage.message? : RouterThreadMessage Content → Option (DursMsg Content)
  | .moduleMessage msg => some msg
  | _ => none

def RouterThreadMessage.count? : RouterThreadMessage Content → Option Nat
  | .modulesCount count => some count
  | _ => none

/-- The modules that register, one after the other. -/
def registrations (l : List (RouterThreadMessage Content)) : List (ModuleRegistration Content) :=
  l.filterMap RouterThreadMessage.registration?

/-- The messages between modules, one after the other. -/
def messages (l : List (RouterThreadMessage Content)) : List (DursMsg Content) :=
  l.filterMap RouterThreadMessage.message?

/-- The numbers of modules that are expected, one after the other. -/
def counts (l : List (RouterThreadMessage Content)) : List Nat :=
  l.filterMap RouterThreadMessage.count?

/-- To whom a module listens. -/
def ModuleRegistration.receivers (module : ModuleRegistration Content) : List DursMsgReceiver :=
  module.eventsSubscription.map .event ++ module.roles.map .role

/-- Messages that are handed to modules, as they are sent to their channels. -/
def toSent (deliveries : List (ModuleRegistration Content × DursMsg Content)) :
    List (Sent Content) :=
  deliveries.map fun delivery => (delivery.1.sender, delivery.2)

theorem registrations_append (l l' : List (RouterThreadMessage Content)) :
    registrations (l ++ l') = registrations l ++ registrations l' := List.filterMap_append

theorem messages_append (l l' : List (RouterThreadMessage Content)) :
    messages (l ++ l') = messages l ++ messages l' := List.filterMap_append

theorem counts_append (l l' : List (RouterThreadMessage Content)) :
    counts (l ++ l') = counts l ++ counts l' := List.filterMap_append

theorem toSent_append (l l' : List (ModuleRegistration Content × DursMsg Content)) :
    toSent (l ++ l') = toSent l ++ toSent l' := List.map_append

/-- A module that registers last, when all names are distinct. -/
theorem name_ne_of_nodup {l : List (RouterThreadMessage Content)}
    {module : ModuleRegistration Content}
    (h : ((registrations (l ++ [.moduleRegistration module])).map (·.staticName)).Nodup) :
    ∀ other ∈ registrations l, other.staticName ≠ module.staticName := by
  rw [registrations_append, List.map_append, List.nodup_append] at h
  intro other hother
  exact h.2.2 _ (List.mem_map_of_mem hother) _ (List.mem_singleton_self _)

/-! ## What is relayed -/

/-- What the router thread leaves to the broadcasting thread. -/
def RouterThreadMessage.isRelayed : RouterThreadMessage Content → Bool
  | .moduleMessage (.response _ _ _ _) => false
  | .moduleMessage (.saveNewModuleConf _ _) => false
  | .moduleMessage (.modulesEndpoints _) => false
  | _ => true

theorem registrations_relayed (l : List (RouterThreadMessage Content)) :
    registrations (l.filter (·.isRelayed)) = registrations l := by
  rw [registrations, List.filterMap_filter]
  refine List.filterMap_congr fun mess _ => ?_
  cases mess with
  | moduleMessage msg => exact ite_self none
  | _ => rfl

theorem counts_relayed (l : List (RouterThreadMessage Content)) :
    counts (l.filter (·.isRelayed)) = counts l := by
  rw [counts, List.filterMap_filter]
  refine List.filterMap_congr fun mess _ => ?_
  cases mess with
  | moduleMessage msg => exact ite_self none
  | _ => rfl

theorem messages_relayed (l : List (RouterThreadMessage Content)) :
    messages (l.filter (·.isRelayed)) =
      (messages l).filter fun msg => RouterThreadMessage.isRelayed (.moduleMessage msg) := by
  rw [messages, messages, List.filterMap_filter, List.filter_filterMap]
  refine List.filterMap_congr fun mess _ => ?_
  cases mess with
  | moduleMessage msg => rfl
  | _ => rfl

theorem RouterThread.relayed_dispatch {elapsed : Nat} {t : RouterThread Content}
    {mess : RouterThreadMessage Content} :
    (t.dispatch elapsed mess).2.relayed = [mess].filter (·.isRelayed) := by
  cases mess with
  | modulesCount => rfl
  | moduleRegistration => rfl
  | moduleMessage msg =>
      cases msg with
      | response resFrom resTo reqId content =>
          rw [RouterThread.dispatch]
          split
          · rfl
          · split
            · rfl
            · split <;> rfl
      | _ => rfl

/-! ## Brokers -/

/-- The broker to which the modules register and the messages are posted. -/
def brokerOf (replays sends : ModuleRegistration Content → DursMsg Content → Bool)
    (l : List (RouterThreadMessage Content)) :
    Broker (ModuleRegistration Content) (DursMsg Content) :=
  l.foldl (fun b mess =>
    match mess with
    | .modulesCount _ => b
    | .moduleRegistration module => b.register replays module
    | .moduleMessage msg => b.post sends msg) .empty

section BrokerOf

variable {replays sends : ModuleRegistration Content → DursMsg Content → Bool}
  {l : List (RouterThreadMessage Content)}

theorem brokerOf_concat (l : List (RouterThreadMessage Content))
    (mess : RouterThreadMessage Content) : brokerOf replays sends (l ++ [mess]) =
      match mess with
      | .modulesCount _ => brokerOf replays sends l
      | .moduleRegistration module => (brokerOf replays sends l).register replays module
      | .moduleMessage msg => (brokerOf replays sends l).post sends msg := List.foldl_append

theorem receivers_brokerOf : (brokerOf replays sends l).receivers = registrations l := by
  induction l using List.reverseRecOn with
  | nil => rfl
  | append_singleton l mess ih =>
      rw [brokerOf_concat, registrations_append, ← ih]
      cases mess with
      | modulesCount count => exact (List.append_nil _).symm
      | moduleRegistration module => rfl
      | moduleMessage msg => exact (List.append_nil _).symm

theorem messages_brokerOf : (brokerOf replays sends l).messages = messages l := by
  induction l using List.reverseRecOn with
  | nil => rfl
  | append_singleton l mess ih =>
      rw [brokerOf_concat, messages_append, ← ih]
      cases mess with
      | modulesCount count => exact (List.append_nil _).symm
      | moduleRegistration module => exact (List.append_nil _).symm
      | moduleMessage msg => rfl

/-- Each module that registers once is handed each message that is meant for it as often as it is
posted. -/
theorem exact_brokerOf [DecidableEq Content] (hnodup : (registrations l).Nodup) :
    (brokerOf replays sends l).Exact replays sends := by
  induction l using List.reverseRecOn with
  | nil => exact Broker.exact_empty
  | append_singleton l mess ih =>
      rw [registrations_append, List.nodup_append] at hnodup
      have hbefore := ih hnodup.1
      rw [brokerOf_concat]
      cases mess with
      | modulesCount count => exact hbefore
      | moduleMessage msg => exact hbefore.post msg
      | moduleRegistration module =>
          refine hbefore.register fun hmem => ?_
          rw [receivers_brokerOf] at hmem
          exact hnodup.2.2 module hmem module (List.mem_singleton_self module) rfl

end BrokerOf

end Durs
