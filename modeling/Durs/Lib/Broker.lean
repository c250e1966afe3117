/-
# Brokers

A broker hands each message to the receivers that have registered, and keeps it for those that
register later, to whom it is replayed.  In whatever order registrations and messages come, each
receiver has been handed each message that is meant for it once.
-/

import Mathlib.Data.List.Count
import Mathlib.Data.List.Nodup

namespace Lib

universe u v

variable {ρ : Type u} {μ : Type v}

/-- The receivers that have registered, the messages that have been posted, and what has been handed
to whom, the oldest first. -/
structure Broker (ρ : Type u) (μ : Type v) where
  receivers : List ρ
  messages : List μ
  deliveries : List (ρ × μ)

namespace Broker

/-- A broker before anything has come. -/
def empty : Broker ρ μ := ⟨[], [], []⟩

/-- A receiver registers: the messages that are kept for it are replayed. -/
def register (replays : ρ → μ → Bool) (b : Broker ρ μ) (r : ρ) : Broker ρ μ where
  receivers := b.receivers ++ [r]
  messages := b.messages
  deliveries := b.deliveries ++ (b.messages.filter (replays r)).map (r, ·)

/-- A message is posted: it is sent to the receivers that it is meant for. -/
def post (sends : ρ → μ → Bool) (b : Broker ρ μ) (m : μ) : Broker ρ μ where
  receivers := b.receivers
  messages := b.messages ++ [m]
  deliveries := b.deliveries ++ (b.receivers.filter (sends · m)).map (·, m)

variable [DecidableEq ρ] [DecidableEq μ]

/-- Each receiver has been handed each message that is meant for it as often as it was posted. -/
structure Exact (replays sends : ρ → μ → Bool) (b : Broker ρ μ) : Prop where
  nodup : b.receivers.Nodup
  known : ∀ delivery ∈ b.deliveries, delivery.1 ∈ b.receivers
  meant : ∀ delivery ∈ b.deliveries,
    replays delivery.1 delivery.2 = true ∨ sends delivery.1 delivery.2 = true
  once : ∀ r ∈ b.receivers, ∀ m, replays r m = true → sends r m = true →
    b.deliveries.count (r, m) = b.messages.count m

variable {replays sends : ρ → μ → Bool} {b : Broker ρ μ}

theorem exact_empty : Exact replays sends (empty : Broker ρ μ) where
  nodup := List.nodup_nil
  known := List.forall_mem_nil _
  meant := List.forall_mem_nil _
  once := List.forall_mem_nil _

/-- A new receiver is handed all the messages that have been posted. -/
theorem Exact.register (h : Exact replays sends b) {r : ρ} (hnew : r ∉ b.receivers) :
    Exact replays sends (b.register replays r) where
  nodup := List.nodup_append.2 ⟨h.nodup, List.nodup_singleton r, fun _ hmem _ hlast heq =>
    hnew (List.mem_singleton.1 hlast ▸ heq ▸ hmem)⟩
  known delivery hmem := by
    rcases List.mem_append.1 hmem with hold | hreplayed
    · exact List.mem_append_left _ (h.known delivery hold)
    · rcases List.mem_map.1 hreplayed with ⟨m, -, rfl⟩
      exact List.mem_append_right _ (List.mem_singleton_self r)
  meant delivery hmem := by
    rcases List.mem_append.1 hmem with hold | hreplayed
    · exact h.meant delivery hold
    · rcases List.mem_map.1 hreplayed with ⟨m, hm, rfl⟩
      exact Or.inl (List.of_mem_filter hm)
  once r' hr' m hreplays hsends := by
    rw [Broker.register, List.count_append]
    by_cases hr : r' = r
    · subst hr
      have hnone : b.deliveries.count (r', m) = 0 :=
        List.count_eq_zero.2 fun hmem => hnew (h.known _ hmem)
      have hinj : Function.Injective fun m : μ => (r', m) := fun _ _ heq => (Prod.mk.inj heq).2
      rw [hnone, Nat.zero_add, List.count_map_of_injective _ _ hinj, List.count_filter hreplays]
    · have hnone : ((b.messages.filter (replays r)).map (r, ·)).count (r', m) = 0 := by
        refine List.count_eq_zero.2 fun hmem => ?_
        rcases List.mem_map.1 hmem with ⟨m', -, heq⟩
        exact hr (Prod.mk.inj heq).1.symm
      rw [hnone, Nat.add_zero]
      refine h.once r' ?_ m hreplays hsends
      rcases List.mem_append.1 hr' with hold | hlast
      · exact hold
      · exact absurd (List.mem_singleton.1 hlast) hr

/-- A message is handed once to each of the receivers that it is meant for. -/
theorem Exact.post (h : Exact replays sends b) (m : μ) :
    Exact replays sends (b.post sends m) where
  nodup := h.nodup
  known delivery hmem := by
    rcases List.mem_append.1 hmem with hold | hsent
    · exact h.known delivery hold
    · rcases List.mem_map.1 hsent with ⟨r, hr, rfl⟩
      exact List.mem_of_mem_filter hr
  meant delivery hmem := by
    rcases List.mem_append.1 hmem with hold | hsent
    · exact h.meant delivery hold
    · rcases List.mem_map.1 hsent with ⟨r, hr, rfl⟩
      exact Or.inr (List.of_mem_filter (p := fun r => sends r m) hr)
  once r hr m' hreplays hsends := by
    rw [Broker.post, List.count_append, List.count_append, h.once r hr m' hreplays hsends]
    congr 1
    by_cases hm : m' = m
    · subst hm
      have hinj : Function.Injective fun r : ρ => (r, m') := fun _ _ heq => (Prod.mk.inj heq).1
      rw [List.count_singleton_self, List.count_map_of_injective _ _ hinj,
        List.count_filter (p := fun r => sends r m') hsends]
      exact List.count_eq_one_of_mem h.nodup hr
    · rw [List.count_singleton, if_neg (fun heq => hm (beq_iff_eq.1 heq).symm)]
      refine List.count_eq_zero.2 fun hmem => ?_
      rcases List.mem_map.1 hmem with ⟨r', -, heq⟩
      exact hm (Prod.mk.inj heq).2.symm

/-! ## Messages that are kept by key -/

omit [DecidableEq ρ] [DecidableEq μ] in
/-- What is kept for some keys is what has one of them. -/
theorem flatMap_filter_perm {κ : Type u} [DecidableEq κ] (key : μ → Option κ) {keys : List κ}
    (hnodup : keys.Nodup) (messages : List μ) :
    (keys.flatMap fun k => messages.filter (key · = some k)).Perm
      (messages.filter fun m => keys.any (key m = some ·)) := by
  induction keys with
  | nil => exact List.filter_false messages ▸ .nil
  | cons k keys ih =>
      rcases List.nodup_cons.1 hnodup with ⟨hk, hkeys⟩
      let either := messages.filter fun m => (k :: keys).any (key m = some ·)
      have hfirst : either.filter (key · = some k) = messages.filter (key · = some k) := by
        rw [List.filter_filter]
        refine List.filter_congr fun m _ => ?_
        rw [List.any_cons]
        cases decide (key m = some k) <;> rfl
      have hrest : either.filter (fun m => !decide (key m = some k)) =
          messages.filter fun m => keys.any (key m = some ·) := by
        rw [List.filter_filter]
        refine List.filter_congr fun m _ => ?_
        rw [List.any_cons]
        by_cases hm : key m = some k
        · have hany : keys.any (key m = some ·) = false := by
            rw [List.any_eq_false]
            intro k' hk' heq
            rw [hm, decide_eq_true_iff] at heq
            exact hk (Option.some.inj heq ▸ hk')
          rw [hany, decide_eq_true hm]
          rfl
        · rw [decide_eq_false hm]
          rfl
      rw [List.flatMap_cons]
      refine ((ih hkeys).append_left _).trans ?_
      rw [← hfirst, ← hrest]
      exact List.filter_append_perm _ either

end Broker

end Lib
