/-
# Runs of counted steps

The runs of a relation, with the number of their steps.  When a measure drops at each step that runs
from a state can take, such a run has no more steps than the measure says, and one of them ends in a
state without a further step.
-/

namespace Lib

universe u

/-- The runs of a relation with a number of steps. -/
inductive Steps {α : Type u} (r : α → α → Prop) : Nat → α → α → Prop
  | refl (a : α) : Steps r 0 a a
  | head {n : Nat} {a b c : α} : r a b → Steps r n b c → Steps r (n + 1) a c

namespace Steps

variable {α : Type u} {r : α → α → Prop} {m : α → Nat} {n : Nat} {a b c : α}

/-- A step drops the measure in all states that runs from the next one reach, too. -/
theorem drops_of_head (hdrop : ∀ k b, Steps r k a b → ∀ c, r b c → m c < m b) (hfirst : r a b) :
    ∀ k c, Steps r k b c → ∀ d, r c d → m d < m c :=
  fun k c hrun => hdrop (k + 1) c (head hfirst hrun)

/-- A run has no more steps than the measure drops. -/
theorem add_measure_le (h : Steps r n a b)
    (hdrop : ∀ k b, Steps r k a b → ∀ c, r b c → m c < m b) : n + m b ≤ m a := by
  induction h with
  | refl a => exact Nat.le_of_eq (Nat.zero_add _)
  | @head n a b c hfirst _ ih =>
      have hrest := ih (drops_of_head hdrop hfirst)
      have hlt := hdrop 0 a (refl a) b hfirst
      omega

/-- A run of dropping steps can be continued to a last state. -/
theorem exists_last (hdrop : ∀ k b, Steps r k a b → ∀ c, r b c → m c < m b) :
    ∃ n b, Steps r n a b ∧ ∀ c, ¬ r b c := by
  induction hm : m a using Nat.strongRecOn generalizing a with
  | ind size ih =>
      by_cases hnext : ∃ b, r a b
      · rcases hnext with ⟨b, hfirst⟩
        have hlt := hdrop 0 a (refl a) b hfirst
        rcases ih (m b) (hm ▸ hlt) (drops_of_head hdrop hfirst) rfl with ⟨n, last, hrun, hlast⟩
        exact ⟨n + 1, last, head hfirst hrun, hlast⟩
      · exact ⟨0, a, refl a, fun b hfirst => hnext ⟨b, hfirst⟩⟩

end Steps

end Lib
