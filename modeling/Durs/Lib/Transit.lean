/-
# Messages on their way

A party sends the messages of a script in order over a channel that neither loses, duplicates nor
reorders them.  What is on its way is then the part of the script between what has been received
and what has been sent.
-/

import Mathlib.Data.List.Basic

namespace Lib

universe u

variable {α : Type u} {script rest : List α} {a : α} {sent received : Nat}

/-- The messages of a script that have been sent and not yet received. -/
def inTransit (script : List α) (sent received : Nat) : List α :=
  (script.take sent).drop received

@[simp]
theorem inTransit_zero (script : List α) (received : Nat) : inTransit script 0 received = [] := by
  rw [inTransit, List.take_zero, List.drop_nil]

/-- Sending the next message puts it last. -/
theorem inTransit_send (hle : received ≤ sent) (hnext : script[sent]? = some a) :
    inTransit script (sent + 1) received = inTransit script sent received ++ [a] := by
  have hlt : sent < script.length := (List.getElem?_eq_some_iff.1 hnext).1
  rw [inTransit, inTransit, List.take_add_one, hnext, Option.toList_some,
    List.drop_append_of_le_length]
  rw [List.length_take, Nat.min_eq_left (Nat.le_of_lt hlt)]
  exact hle

/-- The first message on its way is the next one to be received. -/
theorem inTransit_receive (h : inTransit script sent received = a :: rest) :
    received < sent ∧ script[received]? = some a ∧
      rest = inTransit script sent (received + 1) := by
  have hfirst : (script.take sent)[received]? = some a := by
    rw [← List.head?_drop]
    exact congrArg List.head? h
  have hlt : received < sent := by
    have hlen := (List.getElem?_eq_some_iff.1 hfirst).1
    rw [List.length_take] at hlen
    exact Nat.lt_of_lt_of_le hlen (Nat.min_le_left _ _)
  refine ⟨hlt, ?_, ?_⟩
  · rw [← hfirst, List.getElem?_take_of_lt hlt]
  · rw [inTransit, ← List.tail_drop]
    exact (congrArg List.tail h).symm

/-- Nothing is on its way once all that was sent has been received. -/
theorem inTransit_eq_nil_iff (hle : sent ≤ script.length) :
    inTransit script sent received = [] ↔ sent ≤ received := by
  rw [inTransit, List.drop_eq_nil_iff, List.length_take, Nat.min_eq_left hle]

end Lib
