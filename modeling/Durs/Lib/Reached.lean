/-
# Reached states

The states that a fallible step function reaches from an initial state, when every step taken
meets a guard.  An invariant that holds at the start and that every guarded step keeps holds in
every reached state.
-/

import Durs.RustStd.Result

namespace Lib

universe u

variable {ε σ α : Type u}

/-- The states reached from `init` by steps that return and meet the guard. -/
inductive Reached (init : σ) (step : σ → α → Except ε σ) (guard : σ → α → Prop) : σ → Prop
  | init : Reached init step guard init
  | step {s s' : σ} {a : α} :
      Reached init step guard s → guard s a → step s a = .ok s' → Reached init step guard s'

variable {init : σ} {step : σ → α → Except ε σ} {guard guard' : σ → α → Prop} {I : σ → Prop}

namespace Reached

/-- The invariant rule. -/
theorem invariant (hinit : I init)
    (hstep : ∀ s a s', I s → guard s a → step s a = .ok s' → I s') {s : σ}
    (h : Reached init step guard s) : I s := by
  induction h with
  | init => exact hinit
  | step _ hguard hrun ih => exact hstep _ _ _ ih hguard hrun

/-- A weaker guard reaches no fewer states. -/
theorem mono (hguard : ∀ s a, guard s a → guard' s a) {s : σ} (h : Reached init step guard s) :
    Reached init step guard' s := by
  induction h with
  | init => exact .init
  | step _ hmeets hrun ih => exact .step ih (hguard _ _ hmeets) hrun

/-- The end of a run is reached when each of its steps meets the guard. -/
theorem of_foldlM {s s' : σ} {l : List α} (h : Reached init step guard s)
    (hguard : ∀ a ∈ l, ∀ s, guard s a) (hrun : l.foldlM step s = .ok s') :
    Reached init step guard s' := by
  refine RustStd.foldlM_preserves (P := Reached init step guard) ?_ h hrun
  intro s a s' ha hs hstep
  exact .step hs (hguard a ha s) hstep

end Reached

/-- Take the steps of a list, as long as each meets the guard and returns. -/
def guardedRun (step : σ → α → Except ε σ) (guard : σ → α → Prop)
    [∀ s a, Decidable (guard s a)] : List α → σ → Option σ
  | [], s => some s
  | a :: l, s =>
      if guard s a then
        match step s a with
        | .ok s' => guardedRun step guard l s'
        | .error _ => none
      else none

/-- A guarded run is a run. -/
theorem foldlM_of_guardedRun [∀ s a, Decidable (guard s a)] {l : List α} :
    ∀ {s s' : σ}, guardedRun step guard l s = some s' → l.foldlM step s = .ok s' := by
  induction l with
  | nil =>
      intro s s' hrun
      obtain rfl := Option.some.inj hrun
      rfl
  | cons a l ih =>
      intro s s' hrun
      rw [guardedRun] at hrun
      split at hrun
      case isTrue =>
        split at hrun
        case h_1 mid hstep => rw [List.foldlM_cons, hstep, RustStd.ok_bind, ih hrun]
        case h_2 => cases hrun
      case isFalse => cases hrun

/-- A guarded run ends in a reached state. -/
theorem Reached.of_guardedRun [∀ s a, Decidable (guard s a)] {l : List α} :
    ∀ {s s' : σ}, Reached init step guard s → guardedRun step guard l s = some s' →
      Reached init step guard s' := by
  induction l with
  | nil =>
      intro s s' h hrun
      obtain rfl := Option.some.inj hrun
      exact h
  | cons a l ih =>
      intro s s' h hrun
      rw [guardedRun] at hrun
      split at hrun
      case isTrue hguard =>
        split at hrun
        case h_1 mid hstep => exact ih (.step h hguard hstep) hrun
        case h_2 => cases hrun
      case isFalse => cases hrun

/-! ## The steps of one run -/

/-- Each step of a run meets the guard in the state in which it is taken. -/
def Throughout (step : σ → α → Except ε σ) (guard : σ → α → Prop) : σ → List α → Prop
  | _, [] => True
  | s, a :: l =>
      guard s a ∧
        match step s a with
        | .ok s' => Throughout step guard s' l
        | .error _ => True

instance Throughout.decidable [∀ s a, Decidable (guard s a)] :
    ∀ (l : List α) (s : σ), Decidable (Throughout step guard s l)
  | [], _ => isTrue trivial
  | a :: l, s =>
      match h : step s a with
      | .ok s' =>
          have : Decidable (Throughout step guard s' l) := Throughout.decidable l s'
          decidable_of_iff (guard s a ∧ Throughout step guard s' l) (by rw [Throughout, h])
      | .error _ => decidable_of_iff (guard s a) (by rw [Throughout, h, and_true])

/-- The end of a run whose steps meet the guard is reached. -/
theorem Reached.of_throughout {l : List α} :
    ∀ {s s' : σ}, Reached init step guard s → Throughout step guard s l →
      l.foldlM step s = .ok s' → Reached init step guard s' := by
  induction l with
  | nil =>
      intro s s' h _ hrun
      obtain rfl := Except.ok.inj hrun
      exact h
  | cons a l ih =>
      intro s s' h hthroughout hrun
      rw [List.foldlM_cons, RustStd.bind_eq_ok_iff] at hrun
      rcases hrun with ⟨mid, hmid, hrun⟩
      rw [Throughout, hmid] at hthroughout
      exact ih (.step h hthroughout.1 hmid) hthroughout.2 hrun

/-- When the steps that keep the invariant are those that meet the guard, the states along a run
have the invariant exactly when its steps meet the guard. -/
theorem forall_prefix_iff_throughout
    (hstep : ∀ s a s', I s → step s a = .ok s' → (I s' ↔ guard s a)) {l : List α} :
    ∀ {s s' : σ}, I s → l.foldlM step s = .ok s' →
      ((∀ l' s'', l' <+: l → l'.foldlM step s = .ok s'' → I s'') ↔ Throughout step guard s l) := by
  induction l with
  | nil =>
      intro s s' hinit _
      refine iff_of_true ?_ trivial
      rintro l' s'' hprefix hrun
      obtain rfl := List.prefix_nil.1 hprefix
      obtain rfl := Except.ok.inj hrun
      exact hinit
  | cons a l ih =>
      intro s s' hinit hrun
      rw [List.foldlM_cons, RustStd.bind_eq_ok_iff] at hrun
      rcases hrun with ⟨mid, hmid, hrun⟩
      simp only [Throughout, hmid]
      constructor
      · intro h
        have hI : I mid := h [a] mid (List.cons_prefix_cons.2 ⟨rfl, List.nil_prefix⟩)
          (by rw [List.foldlM_cons, hmid]; rfl)
        refine ⟨(hstep s a mid hinit hmid).1 hI, (ih hI hrun).1 ?_⟩
        intro l' s'' hprefix hrun'
        refine h (a :: l') s'' (List.cons_prefix_cons.2 ⟨rfl, hprefix⟩) ?_
        rw [List.foldlM_cons, hmid]
        exact hrun'
      · rintro ⟨hguard, hrest⟩ l' s'' hprefix hrun'
        have hI : I mid := (hstep s a mid hinit hmid).2 hguard
        cases l' with
        | nil =>
            obtain rfl := Except.ok.inj hrun'
            exact hinit
        | cons a' l' =>
            rcases List.cons_prefix_cons.1 hprefix with ⟨heq, htail⟩
            rw [List.foldlM_cons, heq, hmid] at hrun'
            exact (ih hI hrun).2 hrest l' s'' htail hrun'

/-- The steps of a run meet the guard when each does in the state that the steps before it reach. -/
theorem throughout_iff_forall_run {l : List α} :
    ∀ {s : σ}, Throughout step guard s l ↔
      ∀ l' a s', l' ++ [a] <+: l → l'.foldlM step s = .ok s' → guard s' a := by
  induction l with
  | nil =>
      intro s
      refine iff_of_true trivial fun l' a s' hprefix => ?_
      exact absurd (List.prefix_nil.1 hprefix) (List.append_ne_nil_of_right_ne_nil l' (by simp))
  | cons a l ih =>
      intro s
      rw [Throughout]
      constructor
      · rintro ⟨hguard, hrest⟩ l' b s' hprefix hrun
        cases l' with
        | nil =>
            obtain rfl := Except.ok.inj hrun
            rw [(List.cons_prefix_cons.1 hprefix).1]
            exact hguard
        | cons a' l' =>
            rcases List.cons_prefix_cons.1 hprefix with ⟨rfl, htail⟩
            rw [List.foldlM_cons, RustStd.bind_eq_ok_iff] at hrun
            rcases hrun with ⟨mid, hmid, hrun⟩
            rw [hmid] at hrest
            exact ih.1 hrest l' b s' htail hrun
      · intro h
        refine ⟨h [] a s (List.cons_prefix_cons.2 ⟨rfl, List.nil_prefix⟩) rfl, ?_⟩
        cases hmid : step s a with
        | error err => trivial
        | ok mid =>
            refine ih.2 fun l' b s' htail hrun => ?_
            refine h (a :: l') b s' (List.cons_prefix_cons.2 ⟨rfl, htail⟩) ?_
            rw [List.foldlM_cons, hmid]
            exact hrun

end Lib
