/-
# Running the node

Both build profiles of the node abort on a panic, so a failed `expect`, an index out of range and
`fatal_error!` all stop the process.  A computation either returns or aborts; a loop that exhausts
the fuel it was given has not returned either.
-/

import Durs.RustStd.Result

namespace Durs

/-- How a computation of the node ends without returning. -/
inductive Abort
  /-- The process stops with this message. -/
  | fatal (message : String)
  /-- The loop was still running when its fuel ran out. -/
  | outOfFuel
deriving DecidableEq, Repr

/-- A computation that may stop the process. -/
abbrev Run := Except Abort

/-- `fatal_error!`, `panic!`. -/
def fatalError {α : Type} (message : String) : Run α := .error (.fatal message)

/-- `Option::expect`. -/
def expect {α : Type} (x : Option α) (message : String) : Run α :=
  match x with
  | some a => .ok a
  | none => fatalError message

@[simp]
theorem expect_some {α : Type} (a : α) (message : String) : expect (some a) message = .ok a := rfl

@[simp]
theorem expect_none {α : Type} (message : String) :
    expect (none : Option α) message = fatalError message := rfl

/-- An `expect` returns exactly on a present value. -/
@[simp]
theorem expect_eq_ok_iff {α : Type} {x : Option α} {message : String} {a : α} :
    expect x message = .ok a ↔ x = some a := by
  cases x with
  | none => simp [expect, fatalError]
  | some b => simp [expect]

@[simp]
theorem fatalError_ne_ok {α : Type} {message : String} {a : α} :
    fatalError message ≠ .ok a := by
  simp [fatalError]

/-- Whether a computation returns. -/
def Returns {α : Type} (x : Run α) : Prop := ∃ a, x = .ok a

instance {α : Type} (x : Run α) : Decidable (Returns x) :=
  match x with
  | .ok a => isTrue ⟨a, rfl⟩
  | .error _ => isFalse fun ⟨_, h⟩ => by cases h

/-! ## When a computation returns -/

@[simp]
theorem returns_ok {α : Type} (a : α) : Returns (.ok a) := ⟨a, rfl⟩

@[simp]
theorem returns_pure {α : Type} (a : α) : Returns (pure a) := ⟨a, rfl⟩

@[simp]
theorem not_returns_fatalError {α : Type} (message : String) :
    ¬ Returns (fatalError message : Run α) := by
  rintro ⟨a, h⟩
  cases h

/-- A sequence returns exactly when its first part does and the rest does from there. -/
theorem returns_bind_iff {α β : Type} {x : Run α} {f : α → Run β} :
    Returns (x >>= f) ↔ ∃ a, x = .ok a ∧ Returns (f a) := by
  constructor
  · rintro ⟨b, h⟩
    rcases RustStd.bind_eq_ok_iff.1 h with ⟨a, ha, hf⟩
    exact ⟨a, ha, b, hf⟩
  · rintro ⟨a, ha, b, hf⟩
    exact ⟨b, RustStd.bind_eq_ok_iff.2 ⟨a, ha, hf⟩⟩

/-- When the rest returns whatever it is given, only the first part matters. -/
theorem returns_bind_iff_of_forall {α β : Type} {x : Run α} {f : α → Run β}
    (h : ∀ a, Returns (f a)) : Returns (x >>= f) ↔ Returns x := by
  rw [returns_bind_iff]
  constructor
  · rintro ⟨a, ha, -⟩
    exact ⟨a, ha⟩
  · rintro ⟨a, ha⟩
    exact ⟨a, ha, h a⟩

/-- When the rest returns on the same condition whatever it is given, both must hold. -/
theorem returns_bind_iff_and {α β : Type} {x : Run α} {f : α → Run β} {P : Prop}
    (h : ∀ a, Returns (f a) ↔ P) : Returns (x >>= f) ↔ Returns x ∧ P := by
  rw [returns_bind_iff]
  constructor
  · rintro ⟨a, ha, hf⟩
    exact ⟨⟨a, ha⟩, (h a).1 hf⟩
  · rintro ⟨⟨a, ha⟩, hP⟩
    exact ⟨a, ha, (h a).2 hP⟩

/-- A list is mapped exactly when each of its elements is. -/
theorem returns_mapM_iff {α β : Type} {f : α → Run β} {l : List α} :
    Returns (l.mapM f) ↔ ∀ a ∈ l, Returns (f a) :=
  ⟨fun ⟨_, h⟩ => RustStd.exists_of_mapM h, RustStd.exists_mapM⟩

/-- A fold each step of which asks the same of an element, whatever it is given. -/
theorem returns_foldlM_iff {α σ : Type} {step : σ → α → Run σ} {fits : α → Prop} {l : List α}
    (hstep : ∀ a ∈ l, ∀ s, Returns (step s a) ↔ fits a) (s : σ) :
    Returns (l.foldlM step s) ↔ ∀ a ∈ l, fits a := by
  induction l generalizing s with
  | nil => exact iff_of_true ⟨s, rfl⟩ (List.forall_mem_nil _)
  | cons a l ih =>
      rcases List.forall_mem_cons.1 hstep with ⟨ha, hl⟩
      rw [List.foldlM_cons, returns_bind_iff_and fun s' => ih hl s', ha, List.forall_mem_cons]

@[simp]
theorem returns_expect_iff {α : Type} {x : Option α} {message : String} :
    Returns (expect x message) ↔ x.isSome := by
  cases x with
  | none => simp
  | some a => simp

end Durs
