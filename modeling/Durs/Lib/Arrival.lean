/-
# Items that arrive before the ones they depend on

Items arrive one after the other.  An item is connected once everything it depends on, down to what
was known from the start, has arrived; an item that is not connected when it arrives is set aside.
-/

import Mathlib.Data.List.Infix
import Mathlib.Logic.Relation

namespace Lib

open Relation

universe u v

variable {α : Type u} {κ : Type v} (key dep : α → κ) (known : κ → Prop)

/-- An item that arrived, what it depends on being known or the key of a connected item. -/
inductive Connected (arrived : List α) : α → Prop
  | known {a : α} : a ∈ arrived → known (dep a) → Connected arrived a
  | above {p a : α} : Connected arrived p → a ∈ arrived → dep a = key p → Connected arrived a

/-- An item that arrived depends on another one. -/
def WaitsFor (arrived : List α) (p a : α) : Prop := a ∈ arrived ∧ dep a = key p

/-- An item was not connected when it arrived. -/
def SetAside (arrived : List α) (a : α) : Prop :=
  ∃ before, before ++ [a] <+: arrived ∧ ¬ Connected key dep known (before ++ [a]) a

/-- No item that is connected in the end arrives before the one it depends on. -/
def InOrder (arrived : List α) : Prop :=
  arrived.Pairwise fun a p => dep a = key p → ¬ Connected key dep known arrived a

variable {key dep known} {arrived arrived' : List α} {a x : α}

namespace Connected

theorem mem (h : Connected key dep known arrived a) : a ∈ arrived := by
  cases h with
  | known ha _ => exact ha
  | above _ ha _ => exact ha

/-- What is connected stays so when more items arrive. -/
theorem mono (h : Connected key dep known arrived a) (hsub : ∀ b ∈ arrived, b ∈ arrived') :
    Connected key dep known arrived' a := by
  induction h with
  | known ha hdep => exact .known (hsub _ ha) hdep
  | above _ ha hdep ih => exact .above ih (hsub _ ha) hdep

/-- What an item that arrives connected brings in: itself and the items waiting for it. -/
theorem append_iff
    (ha : known (dep a) ∨ ∃ p, Connected key dep known arrived p ∧ dep a = key p) :
    Connected key dep known (arrived ++ [a]) x ↔
      Connected key dep known arrived x ∨ ReflTransGen (WaitsFor key dep arrived) a x := by
  constructor
  · intro h
    induction h with
    | @known x hx hdep =>
        rcases List.mem_append.1 hx with hx | hx
        · exact .inl (.known hx hdep)
        · rw [List.mem_singleton.1 hx]
          exact .inr .refl
    | @above p x _ hx hdep ih =>
        rcases List.mem_append.1 hx with hx | hx
        · rcases ih with hp | hp
          · exact .inl (.above hp hx hdep)
          · exact .inr (hp.tail ⟨hx, hdep⟩)
        · rw [List.mem_singleton.1 hx]
          exact .inr .refl
  · have hsub : ∀ b ∈ arrived, b ∈ arrived ++ [a] := fun b hb => List.mem_append_left _ hb
    have hself : a ∈ arrived ++ [a] := List.mem_append_right _ (List.mem_singleton_self a)
    rintro (h | h)
    · exact h.mono hsub
    · induction h with
      | refl =>
          rcases ha with hknown | ⟨p, hp, hdep⟩
          · exact .known hself hknown
          · exact .above (hp.mono hsub) hself hdep
      | tail _ hwaits ih => exact .above ih (hsub _ hwaits.1) hwaits.2

/-- An item that arrives without what it depends on brings nothing in. -/
theorem append_iff_of_not
    (ha : ¬ (known (dep a) ∨ ∃ p, Connected key dep known arrived p ∧ dep a = key p)) :
    Connected key dep known (arrived ++ [a]) x ↔ Connected key dep known arrived x := by
  constructor
  · intro h
    induction h with
    | @known x hx hdep =>
        rcases List.mem_append.1 hx with hx | hx
        · exact .known hx hdep
        · rw [List.mem_singleton.1 hx] at hdep
          exact absurd (.inl hdep) ha
    | @above p x _ hx hdep ih =>
        rcases List.mem_append.1 hx with hx | hx
        · exact .above ih hx hdep
        · rw [List.mem_singleton.1 hx] at hdep
          exact absurd (.inr ⟨p, ih, hdep⟩) ha
  · exact fun h => h.mono fun b hb => List.mem_append_left _ hb

end Connected

/-! ## Items set aside -/

theorem setAside_append_iff : SetAside key dep known (arrived ++ [a]) x ↔
    SetAside key dep known arrived x ∨
      (x = a ∧ ¬ Connected key dep known (arrived ++ [a]) a) := by
  constructor
  · rintro ⟨before, hbegin, hnot⟩
    rcases List.prefix_concat_iff.1 hbegin with hsame | hbegin
    · rcases List.append_inj' hsame rfl with ⟨rfl, hx⟩
      cases hx
      exact .inr ⟨rfl, hnot⟩
    · exact .inl ⟨before, hbegin, hnot⟩
  · rintro (⟨before, hbegin, hnot⟩ | ⟨rfl, hnot⟩)
    · exact ⟨before, hbegin.trans (List.prefix_append _ _), hnot⟩
    · exact ⟨arrived, List.prefix_rfl, hnot⟩

theorem setAside_of_not_connected (hmem : x ∈ arrived)
    (hnot : ¬ Connected key dep known arrived x) : SetAside key dep known arrived x := by
  rcases List.append_of_mem hmem with ⟨before, after, rfl⟩
  refine ⟨before, ⟨after, by simp⟩, fun h => hnot (h.mono fun b hb => ?_)⟩
  rcases List.mem_append.1 hb with hb | hb
  · exact List.mem_append_left _ hb
  · rw [List.mem_singleton.1 hb]
    exact hmem

/-- In order, an item that is connected in the end is connected when it arrives. -/
theorem InOrder.connected (h : InOrder key dep known arrived)
    (hx : Connected key dep known arrived x) :
    ∀ before, before ++ [x] <+: arrived → Connected key dep known (before ++ [x]) x := by
  have hself : ∀ (before : List α) (b : α), b ∈ before ++ [b] := fun before b =>
    List.mem_append_right _ (List.mem_singleton_self b)
  induction hx with
  | known _ hdep => exact fun before _ => .known (hself _ _) hdep
  | @above p a hp ha hdep ih =>
      intro before hbegin
      rcases hbegin with ⟨after, rfl⟩
      rcases List.mem_append.1 hp.mem with hmem | hmem
      · rcases List.mem_append.1 hmem with hmem | hmem
        · rcases List.append_of_mem hmem with ⟨before', after', rfl⟩
          have hpConnected := ih before' ⟨after' ++ [a] ++ after, by simp⟩
          refine .above (hpConnected.mono fun b hb => ?_) (hself _ _) hdep
          rcases List.mem_append.1 hb with hb | hb
          · exact List.mem_append_left _ (List.mem_append_left _ hb)
          · rw [List.mem_singleton.1 hb]
            exact List.mem_append_left _ hmem
        · rw [List.mem_singleton] at hmem
          subst hmem
          exact ih before ⟨after, rfl⟩
      · -- The item would have arrived before the one it depends on.
        have hpair := (List.pairwise_append.1 h).2.2 a (hself _ _) p hmem
        exact absurd (.above hp ha hdep) (hpair hdep)

/-- Items arrive in order exactly when none that was set aside is connected in the end. -/
theorem inOrder_iff (hdistinct : arrived.Pairwise fun a b => key a ≠ key b)
    (hfresh : ∀ a ∈ arrived, ¬ known (key a)) :
    InOrder key dep known arrived ↔
      ∀ x, SetAside key dep known arrived x → ¬ Connected key dep known arrived x := by
  constructor
  · rintro h x ⟨before, hbegin, hnot⟩ hx
    exact hnot (h.connected hx before hbegin)
  · intro h
    refine List.pairwise_iff_forall_sublist.2 fun {a p} hsub hdep ha => ?_
    rcases List.cons_sublist_iff.1 hsub with ⟨r₁, r₂, rfl, hmem, hsub⟩
    have hp : p ∈ r₂ := List.singleton_sublist.1 hsub
    rcases List.append_of_mem hmem with ⟨before, after, rfl⟩
    refine h a ⟨before, ⟨after ++ r₂, by simp⟩, fun hconnected => ?_⟩ ha
    have hkeys := (List.pairwise_append.1 hdistinct).2.2
    cases hconnected with
    | known _ hknown =>
        rw [hdep] at hknown
        exact hfresh p (List.mem_append_right _ hp) hknown
    | @above q _ hq _ hdep' =>
        refine hkeys q ?_ p hp (by rw [← hdep', hdep])
        rcases List.mem_append.1 hq.mem with hmem | hmem
        · exact List.mem_append_left _ hmem
        · rw [List.mem_singleton.1 hmem]
          exact List.mem_append_right _ List.mem_cons_self

end Lib
